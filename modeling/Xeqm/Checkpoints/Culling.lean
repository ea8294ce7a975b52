import Xeqm.Checkpoints.Finality
import Xeqm.Lib.Runs

/-!
# Culled and detached checkpoints

Adding a block removes old service node checkpoints from a remembered height up to the
immutable checkpoint, and detaching the chain removes those above the new end. Both walk in
steps of the checkpoint interval, and reach the stored checkpoints only if they start in step
with them.
-/

namespace Xeqm.Checkpoints

open Cryptonote ServiceNodes Lib List

variable {top : Checkpoint}

namespace Store

variable {store : Store} {height : ℕ} {checkpoint row : Checkpoint}

theorem mem_removeBlockCheckpoint :
    row ∈ (store.removeBlockCheckpoint height).rows ↔ row ∈ store.rows ∧ row.height ≠ height :=
  OrdSet.mem_erase

/-- The checkpoint is stored by an update. -/
def Stores (store : Store) (checkpoint : Checkpoint) : Prop :=
  store.readOnly = false ∧ (checkpoint.signatures.map QuorumSignature.voterIndex).Nodup

/-- What is stored after an update, exactly. -/
theorem mem_updateCheckpoint_iff :
    row ∈ (store.updateCheckpoint checkpoint).2.rows ↔
      (row ∈ store.rows ∧ (store.Stores checkpoint → row.height ≠ checkpoint.height)) ∨
      (row = checkpoint ∧ store.Stores checkpoint) := by
  unfold updateCheckpoint updateBlockCheckpoint Stores
  cases store.readOnly with
  | true => simp
  | false =>
    by_cases hdistinct : (checkpoint.signatures.map QuorumSignature.voterIndex).Nodup
    · simp only [if_pos hdistinct, Bool.false_eq_true, if_false]
      rw [OrdSet.mem_insert, OrdSet.mem_erase]
      simp [hdistinct]
    · simp [hdistinct]

/-- The last checkpoint is the highest one. -/
theorem le_top_of_mem (htop : store.getTopCheckpoint = some top)
    (hrow : row ∈ store.rows) : row.height ≤ top.height := by
  obtain ⟨last, hlast, rfl⟩ := Option.map_eq_some_iff.mp htop
  cases hlist : store.rows.toList with
  | nil =>
    rw [hlist] at hlast
    cases hlast
  | cons =>
    exact (between_ends store.rows.sorted (by rw [hlist]; rfl) hlast hrow).2

theorem exists_top_of_mem (hrow : row ∈ store.rows) : ∃ top, store.getTopCheckpoint = some top := by
  have hne : store.rows.toList ≠ [] := ne_nil_of_mem hrow
  exact ⟨_, congrArg (Option.map load) (getLast?_eq_some_getLast hne)⟩

end Store

namespace Registry

variable {checkpoints : Registry} {height : ℕ} {row : Checkpoint}

theorem mem_removeAt {heights : List ℕ} :
    row ∈ (checkpoints.removeAt heights).store.rows ↔
      row ∈ checkpoints.store.rows ∧ row.height ∉ heights := by
  have hfold : ∀ store : Store, row ∈ (heights.foldl (fun store height =>
      store.removeBlockCheckpoint height) store).rows ↔ row ∈ store.rows ∧ row.height ∉ heights := by
    induction heights with
    | nil => simp
    | cons _ _ ih =>
      intro store
      rw [foldl_cons, ih, Store.mem_removeBlockCheckpoint, mem_cons, not_or, and_assoc]
  exact hfold checkpoints.store

@[simp]
theorem readOnly_removeAt (heights : List ℕ) :
    (checkpoints.removeAt heights).store.readOnly = checkpoints.store.readOnly := by
  have hfold : ∀ store : Store, (heights.foldl (fun store height =>
      store.removeBlockCheckpoint height) store).readOnly = store.readOnly := by
    induction heights with
    | nil => exact fun _ => rfl
    | cons first _ ih => exact fun store => ih (store.removeBlockCheckpoint first)
  exact hfold checkpoints.store

/-! ## Detaching -/

/-- The heights that a walk down from the last checkpoint comes to. -/
theorem mem_walk_iff {top g : ℕ} :
    g ∈ ((List.range (top / checkpointInterval + 1)).map (fun i =>
        top - i * checkpointInterval)).filter (fun h => height ≤ h ∧ checkpointInterval ≤ h) ↔
      g ≤ top ∧ g % checkpointInterval = top % checkpointInterval ∧ height ≤ g ∧
        checkpointInterval ≤ g := by
  rw [mem_filter, mem_map, decide_eq_true_eq]
  simp only [mem_range, checkpointInterval]
  constructor
  · rintro ⟨⟨i, hi, rfl⟩, hheight, hmin⟩
    omega
  · rintro ⟨hle, hmod, hheight, hmin⟩
    exact ⟨⟨(top - g) / 4, by omega, by omega⟩, hheight, hmin⟩

/-- What a detach leaves. -/
theorem mem_blockchainDetached (htop : checkpoints.store.getTopCheckpoint = some top)
    (hwrite : checkpoints.store.readOnly = false) :
    row ∈ (checkpoints.blockchainDetached height).store.rows ↔
      row ∈ checkpoints.store.rows ∧
        ¬ (row.height % checkpointInterval = top.height % checkpointInterval ∧
          height ≤ row.height ∧ checkpointInterval ≤ row.height) := by
  unfold blockchainDetached
  rw [hwrite]
  simp only [Bool.false_eq_true, if_false, htop]
  rw [mem_removeAt, mem_walk_iff]
  constructor
  · rintro ⟨hrow, hnot⟩
    exact ⟨hrow, fun h => hnot ⟨Store.le_top_of_mem htop hrow, h⟩⟩
  · rintro ⟨hrow, hnot⟩
    exact ⟨hrow, fun h => hnot h.2⟩

/-- A detach leaves no service node checkpoint at its height or above, exactly if those that
are stored there are in step with the last checkpoint of all, and not below the first
interval. -/
theorem detached_serviceNode_gone_iff (checkpoints : Registry) (height : ℕ) :
    (∀ row ∈ (checkpoints.blockchainDetached height).store.rows,
        row.type = .serviceNode → row.height < height) ↔
      ∀ row ∈ checkpoints.store.rows, row.type = .serviceNode → height ≤ row.height →
        checkpoints.store.readOnly = false ∧ checkpointInterval ≤ row.height ∧
        ∀ top, checkpoints.store.getTopCheckpoint = some top →
          row.height % checkpointInterval = top.height % checkpointInterval := by
  constructor
  · intro hgone row hrow htype hheight
    obtain ⟨top, htop⟩ := Store.exists_top_of_mem hrow
    have hremoved : row ∉ (checkpoints.blockchainDetached height).store.rows :=
      fun hkept => absurd (hgone row hkept htype) (by omega)
    have hwrite : checkpoints.store.readOnly = false := by
      cases hread : checkpoints.store.readOnly with
      | false => rfl
      | true =>
        unfold blockchainDetached at hremoved
        rw [hread, if_pos rfl] at hremoved
        exact absurd hrow hremoved
    rw [mem_blockchainDetached htop hwrite, not_and, not_not] at hremoved
    obtain ⟨hmod, -, hmin⟩ := hremoved hrow
    refine ⟨hwrite, hmin, fun top' htop' => ?_⟩
    rw [htop] at htop'
    cases htop'
    exact hmod
  · intro hstep row hrow htype
    by_contra hheight
    have hstored : row ∈ checkpoints.store.rows := by
      unfold blockchainDetached at hrow
      split at hrow
      · exact hrow
      · dsimp only at hrow
        split at hrow
        · exact hrow
        · exact (mem_removeAt.mp hrow).1
    obtain ⟨hwrite, hmin, hmod⟩ := hstep row hstored htype (by omega)
    obtain ⟨top, htop⟩ := Store.exists_top_of_mem hstored
    rw [mem_blockchainDetached htop hwrite] at hrow
    exact hrow.2 ⟨hmod top htop, by omega, hmin⟩

/-- A fixed checkpoint at height 10 and one of the service nodes at height 8: a detach to
height 5 visits heights 10 and 6. -/
theorem serviceNode_checkpoint_kept :
    let store := (({} : Store).updateCheckpoint
      { type := .serviceNode, height := 8, blockHash := 1 }).2
    let store := (store.addCheckpoint 10 2).2
    let after := ({ store } : Registry).blockchainDetached 5
    after.store.rows.toList.map (fun row => (row.type, row.height)) = [(.serviceNode, 8)] := by
  decide +kernel

/-! ## Culling -/

/-- A block for which nothing is done. -/
def Skips (checkpoints : Registry) (block : Block) : Prop :=
  checkpoints.store.readOnly = true ∨ block.height < storePersistentlyInterval ∨
    block.majorVersion < Hf.hf12Checkpointing

/-- The immutable checkpoint that a block finds. -/
def immutableAt (checkpoints : Registry) (block : Block) : Option Checkpoint :=
  checkpoints.store.getImmutableCheckpoint (block.height + 1)

/-- `end_cull_height`. -/
def cullEnd (checkpoints : Registry) (block : Block) : ℕ :=
  ((checkpoints.immutableAt block).map Checkpoint.height).getD 0

/-- `start_cull_height`, the next multiple of the interval. -/
def cullStart (checkpoints : Registry) (block : Block) : ℕ :=
  let start := checkpoints.cullEnd block - storePersistentlyInterval
  if start % checkpointInterval > 0
    then start + (checkpointInterval - start % checkpointInterval) else start

/-- The height at which a cull begins. -/
def cullFirst (checkpoints : Registry) (block : Block) : ℕ :=
  max checkpoints.lastCullHeight (checkpoints.cullStart block)

/-- The height at which a cull ends, the first one in step that is not below the immutable
checkpoint. -/
def cullNext (checkpoints : Registry) (block : Block) : ℕ :=
  checkpoints.cullFirst block + (checkpoints.cullEnd block - checkpoints.cullFirst block +
    checkpointInterval - 1) / checkpointInterval * checkpointInterval

/-- A cull comes to a height. -/
def Culls (checkpoints : Registry) (block : Block) (height : ℕ) : Prop :=
  checkpoints.cullFirst block ≤ height ∧ height < checkpoints.cullEnd block ∧
    height % checkpointInterval = checkpoints.cullFirst block % checkpointInterval

instance (checkpoints : Registry) (block : Block) (height : ℕ) :
    Decidable (checkpoints.Culls block height) :=
  inferInstanceAs (Decidable (_ ∧ _ ∧ _))

/-- The checkpoint that comes with a block and is stored. -/
def Attaches (checkpoints : Registry) (block : Block) (checkpoint : Option Checkpoint)
    (row : Checkpoint) : Prop :=
  checkpoint = some row ∧ ¬ checkpoints.Skips block ∧ checkpoints.store.Stores row

variable {block : Block} {checkpoint : Option Checkpoint}

theorem cullStart_spec (checkpoints : Registry) (block : Block) :
    checkpoints.cullStart block % checkpointInterval = 0 ∧
      checkpoints.cullEnd block ≤ checkpoints.cullStart block + storePersistentlyInterval := by
  unfold cullStart
  by_cases hmod : (checkpoints.cullEnd block - storePersistentlyInterval) % checkpointInterval > 0
  · rw [if_pos hmod]
    simp only [checkpointInterval, storePersistentlyInterval] at hmod ⊢
    omega
  · rw [if_neg hmod]
    omega

theorem cullNext_spec (checkpoints : Registry) (block : Block) :
    checkpoints.cullEnd block ≤ checkpoints.cullNext block ∧
      (checkpoints.cullNext block = checkpoints.cullFirst block ∨
        checkpoints.cullNext block < checkpoints.cullEnd block + checkpointInterval) ∧
      checkpoints.cullNext block % checkpointInterval =
        checkpoints.cullFirst block % checkpointInterval := by
  unfold cullNext
  simp only [checkpointInterval]
  omega

/-- The heights that a cull visits. -/
theorem mem_culled_iff {first finish g : ℕ} :
    g ∈ ((List.range ((finish - first + checkpointInterval - 1) / checkpointInterval)).map
        (fun i => first + i * checkpointInterval)).filter
        (fun h => h % storePersistentlyInterval ≠ 0) ↔
      (first ≤ g ∧ g < finish ∧ g % checkpointInterval = first % checkpointInterval) ∧
        g % storePersistentlyInterval ≠ 0 := by
  rw [mem_filter, mem_map, decide_eq_true_eq]
  simp only [mem_range, checkpointInterval]
  constructor
  · rintro ⟨⟨i, hi, rfl⟩, hkept⟩
    exact ⟨by omega, hkept⟩
  · rintro ⟨⟨hfirst, hfinish, hmod⟩, hkept⟩
    exact ⟨⟨(g - first) / 4, by omega, by omega⟩, hkept⟩

theorem blockAdd_of_skips (h : checkpoints.Skips block) :
    checkpoints.blockAdd block checkpoint = checkpoints := by
  unfold blockAdd
  by_cases hread : checkpoints.store.readOnly = true
  · rw [if_pos hread]
  · rw [if_neg hread, if_pos (h.resolve_left hread)]

/-- What a cull does. -/
theorem blockAdd_of_not_skips (h : ¬ checkpoints.Skips block) :
    (checkpoints.blockAdd block checkpoint).lastCullHeight = checkpoints.cullNext block ∧
      ∀ row, row ∈ (checkpoints.blockAdd block checkpoint).store.rows ↔
        (row ∈ checkpoints.store.rows ∧
          ¬ (checkpoints.Culls block row.height ∧ row.height % storePersistentlyInterval ≠ 0) ∧
          ∀ a, checkpoints.Attaches block checkpoint a → row.height ≠ a.height) ∨
        checkpoints.Attaches block checkpoint row := by
  have hread : checkpoints.store.readOnly = false := by
    simpa using fun hread => h (.inl hread)
  have hearly : ¬ (block.height < storePersistentlyInterval ∨
      block.majorVersion < Hf.hf12Checkpointing) := fun hearly => h (.inr hearly)
  let culled := checkpoints.removeAt (((List.range ((checkpoints.cullEnd block -
    checkpoints.cullFirst block + checkpointInterval - 1) / checkpointInterval)).map
      (fun i => checkpoints.cullFirst block + i * checkpointInterval)).filter
      (fun height => height % storePersistentlyInterval ≠ 0))
  have hculled : ∀ row, row ∈ culled.store.rows ↔ row ∈ checkpoints.store.rows ∧
      ¬ (checkpoints.Culls block row.height ∧ row.height % storePersistentlyInterval ≠ 0) := by
    intro row
    rw [mem_removeAt, mem_culled_iff]
    rfl
  have hstores : ∀ row, culled.store.Stores row ↔ checkpoints.store.Stores row := by
    intro row
    unfold Store.Stores
    rw [readOnly_removeAt]
  have hrun : checkpoints.blockAdd block checkpoint =
      checkpoint.elim { culled with lastCullHeight := checkpoints.cullNext block }
        (fun c => { culled with
          lastCullHeight := checkpoints.cullNext block
          store := (culled.store.updateCheckpoint c).2 }) := by
    unfold blockAdd
    rw [if_neg (by simp [hread]), if_neg hearly]
    dsimp only
    rw [length_map, length_range]
    cases checkpoint <;> rfl
  cases checkpoint with
  | none =>
    rw [hrun, Option.elim_none]
    refine ⟨rfl, fun row => ?_⟩
    rw [hculled]
    simp [Attaches]
  | some c =>
    have hattaches : ∀ a, checkpoints.Attaches block (some c) a ↔
        a = c ∧ checkpoints.store.Stores c := by
      intro a
      constructor
      · rintro ⟨ha, -, hstored⟩
        cases ha
        exact ⟨rfl, hstored⟩
      · rintro ⟨rfl, hstored⟩
        exact ⟨rfl, h, hstored⟩
    rw [hrun, Option.elim_some]
    refine ⟨rfl, fun row => ?_⟩
    rw [Store.mem_updateCheckpoint_iff, hculled, hstores, hattaches, and_assoc]
    simp only [hattaches, and_imp, forall_eq]

/-- A service node checkpoint in the last interval below a height, which is not one of those
that are kept for good. -/
def Stray (immutable : ℕ) (row : Checkpoint) : Prop :=
  row.type = .serviceNode ∧ row.height < immutable ∧
    immutable ≤ row.height + storePersistentlyInterval ∧ row.height % storePersistentlyInterval ≠ 0

/-- No service node checkpoint is left in the last interval below the immutable checkpoint,
apart from those that are kept for good. -/
def CulledBelow (checkpoints : Registry) (immutable : Option Checkpoint) : Prop :=
  ∀ c, immutable = some c → ∀ row ∈ checkpoints.store.rows, ¬ Stray c.height row

/-- What a block leaves, in terms of the state before it: exactly the checkpoints that its cull
does not come to. -/
theorem culledBelow_blockAdd_iff {checkpoints : Registry} {block : Block}
    {checkpoint : Option Checkpoint} :
    (checkpoints.blockAdd block checkpoint).CulledBelow (checkpoints.immutableAt block) ↔
      ∀ c, checkpoints.immutableAt block = some c →
        (∀ row ∈ checkpoints.store.rows, Stray c.height row →
          ¬ checkpoints.Skips block ∧ (checkpoints.Culls block row.height ∨
            ∃ a, checkpoints.Attaches block checkpoint a ∧ row.height = a.height)) ∧
        ∀ a, checkpoints.Attaches block checkpoint a → ¬ Stray c.height a := by
  refine forall₂_congr fun c hc => ?_
  by_cases hskips : checkpoints.Skips block
  · rw [blockAdd_of_skips hskips]
    constructor
    · intro hculled
      exact ⟨fun row hrow hstray => absurd hstray (hculled row hrow),
        fun a ha => absurd hskips ha.2.1⟩
    · rintro ⟨hculled, -⟩ row hrow hstray
      exact (hculled row hrow hstray).1 hskips
  · have hmem := (@blockAdd_of_not_skips checkpoints block checkpoint hskips).2
    constructor
    · intro hculled
      constructor
      · intro row hrow hstray
        refine ⟨hskips, ?_⟩
        by_contra hreached
        rw [not_or, not_exists] at hreached
        refine hculled row ((hmem row).mpr (.inl ⟨hrow, fun h => hreached.1 h.1, ?_⟩)) hstray
        exact fun a ha heq => hreached.2 a ⟨ha, heq⟩
      · exact fun a ha => hculled a ((hmem a).mpr (.inr ha))
    · rintro ⟨hreached, hattached⟩ row hrow hstray
      rcases (hmem row).mp hrow with ⟨hstored, hnot, hother⟩ | hattaches
      · rcases (hreached row hstored hstray).2 with hculls | ⟨a, ha, heq⟩
        · exact hnot ⟨hculls, hstray.2.2.2⟩
        · exact hother a ha heq
      · exact hattached row hattaches hstray

end Registry

/-! ## The immutable checkpoint -/

namespace Store

variable {store : Store} {height : ℕ} {immutable : Checkpoint}

section

variable (h : store.getImmutableCheckpoint height = some immutable)

include h

theorem mem_range_of_immutable :
    immutable ∈ store.getCheckpointsRange height 0 numCheckpointsForFinality := by
  unfold getImmutableCheckpoint at h
  split at h
  · cases h
  rename_i last rest hrange
  rw [hrange]
  split at h
  · cases h
    exact mem_cons_self
  · exact mem_cons_of_mem _ (mem_of_mem_head? h)

/-- If all checkpoints are above a height, the immutable one can only be the lowest. -/
theorem immutable_le_of_above (habove : ∀ row ∈ store.rows, height < row.height) {row : Checkpoint}
    (hrow : row ∈ store.rows) : immutable.height ≤ row.height := by
  have hmem := mem_range_of_immutable h
  unfold getCheckpointsRange at hmem
  split at hmem
  · rename_i bottom top hbottom htop
    obtain ⟨c, hc, rfl⟩ := mem_map.mp hmem
    have hbottomLe := (between_ends store.rows.sorted hbottom htop hrow).1
    have hbottomAbove := habove bottom (mem_of_mem_head? hbottom)
    have hc' : c ∈ store.rows.toList.filter (fun row =>
        min (min (max height bottom.height) top.height) (min (max 0 bottom.height) top.height) ≤
          row.height ∧ row.height ≤ max (min (max height bottom.height) top.height)
            (min (max 0 bottom.height) top.height)) := by
      have := mem_of_mem_take hc
      split at this
      · exact this
      · exact mem_reverse.mp this
    rw [mem_filter, decide_eq_true_eq] at hc'
    change c.height ≤ row.height
    omega
  · cases hmem

/-- Checkpoints below the immutable one do not matter for it. -/
theorem getImmutableCheckpoint_filter {p : Checkpoint → Bool}
    (hp : ∀ row ∈ store.rows, immutable.height ≤ row.height → p row = true) :
    ({ store with rows := store.rows.filter p } : Store).getImmutableCheckpoint height =
      some immutable := by
  by_cases hexists : ∃ row ∈ store.rows, row.height ≤ height
  · unfold getImmutableCheckpoint at h ⊢
    rw [getCheckpointsRange_zero _ hexists] at h
    obtain ⟨rows, hrows⟩ : ∃ rows,
      (store.rows.toList.filter (fun row => row.height ≤ height)).reverse = rows := ⟨_, rfl⟩
    have hmem : ∀ row ∈ rows, row ∈ store.rows ∧ row.height ≤ height := by
      intro row hrow
      rw [← hrows, mem_reverse, mem_filter, decide_eq_true_eq] at hrow
      exact hrow
    have hsorted : rows.Pairwise (fun a b => b.height < a.height) :=
      hrows ▸ pairwise_reverse.mpr (store.rows.sorted.filter _)
    have hfilter : ((store.rows.filter p).toList.filter (fun row => row.height ≤ height)).reverse =
        rows.filter p := by
      rw [← hrows, filter_reverse, filter_filter]
      change ((store.rows.toList.filter p).filter _).reverse = _
      rw [filter_filter]
      congr 1
      exact filter_congr fun row _ => Bool.and_comm _ _
    -- what is kept of the last checkpoints begins with those that decide
    have hrange {first : Checkpoint} {rest : List Checkpoint} (hkeep : p first = true)
        (hlist : rows = first :: rest) :
        ({ store with rows := store.rows.filter p } : Store).getCheckpointsRange height 0
          numCheckpointsForFinality = load first :: ((rest.filter p).take 1).map load := by
      obtain ⟨hfirst, hle⟩ := hmem first (by rw [hlist]; exact mem_cons_self)
      rw [getCheckpointsRange_zero _ ⟨first, OrdSet.mem_filter.mpr ⟨hfirst, hkeep⟩, hle⟩]
      rw [hfilter, hlist, filter_cons_of_pos hkeep]
      rfl
    rw [hrows] at h
    cases rows with
    | nil => cases h
    | cons first rest =>
      obtain ⟨hfirst, -⟩ := hmem first mem_cons_self
      simp only [numCheckpointsForFinality, take_succ_cons, map_cons] at h
      by_cases htype : (load first).type ≠ .serviceNode
      · rw [if_pos htype] at h
        cases h
        rw [hrange (hp first hfirst (le_refl _)) rfl]
        simp only
        rw [if_pos htype]
      · rw [if_neg htype] at h
        cases rest with
        | nil => cases h
        | cons second =>
          cases h
          have hlt := (pairwise_cons.mp hsorted).1 second mem_cons_self
          obtain ⟨hsecond, -⟩ := hmem second (by simp)
          rw [hrange (hp first hfirst (le_of_lt hlt)) rfl,
            filter_cons_of_pos (hp second hsecond (le_refl _))]
          simp only
          rw [if_neg htype]
          rfl
  · have habove : ∀ row ∈ store.rows, height < row.height := by
      intro row hrow
      by_contra hle
      exact hexists ⟨row, hrow, by omega⟩
    have hall : store.rows.filter p = store.rows := by
      refine OrdSet.ext fun row => ?_
      rw [OrdSet.mem_filter]
      exact ⟨fun hrow => hrow.1, fun hrow =>
        ⟨hrow, hp row hrow (immutable_le_of_above h habove hrow)⟩⟩
    rw [hall]
    exact h

end

end Store

namespace Registry

/-- A cull does not change which checkpoint is immutable. -/
theorem immutableAt_blockAdd_none {checkpoints : Registry} {block : Block} :
    (checkpoints.blockAdd block none).immutableAt block = checkpoints.immutableAt block := by
  by_cases hskips : checkpoints.Skips block
  · rw [blockAdd_of_skips hskips]
  · have hmem := (@blockAdd_of_not_skips checkpoints block none hskips).2
    have hrows : (checkpoints.blockAdd block none).store.rows = checkpoints.store.rows.filter
        (fun row => ¬ (checkpoints.Culls block row.height ∧
          row.height % storePersistentlyInterval ≠ 0)) := by
      refine OrdSet.ext fun row => ?_
      rw [hmem, OrdSet.mem_filter, decide_eq_true_eq]
      simp [Attaches]
    have himmutable : (checkpoints.blockAdd block none).immutableAt block =
        ({ checkpoints.store with rows := (checkpoints.blockAdd block none).store.rows } :
          Store).getImmutableCheckpoint (block.height + 1) := rfl
    rw [himmutable, hrows]
    cases hfound : checkpoints.immutableAt block with
    | none =>
      have hall : checkpoints.store.rows.filter (fun row => ¬ (checkpoints.Culls block row.height ∧
          row.height % storePersistentlyInterval ≠ 0)) = checkpoints.store.rows := by
        refine OrdSet.ext fun row => ?_
        have hend : checkpoints.cullEnd block = 0 := by rw [cullEnd, hfound]; rfl
        simp [Culls, hend]
      rw [hall]
      exact hfound
    | some immutable =>
      refine Store.getImmutableCheckpoint_filter hfound fun row hrow hle => ?_
      have hend : checkpoints.cullEnd block = immutable.height := by rw [cullEnd, hfound]; rfl
      rw [decide_eq_true_eq]
      rintro ⟨⟨-, hlow, -⟩, -⟩
      omega

end Registry

/-! ## Runs -/

/-- What happens to the checkpoints. -/
inductive CheckpointStep
  | update (checkpoint : Checkpoint)
  | add (height : ℕ) (hash : Hash)
  | block (block : Block) (checkpoint : Option Checkpoint)
  | detach (height : ℕ)

namespace CheckpointStep

open Registry

/-- The checkpoints after a step. -/
def run (checkpoints : Registry) : CheckpointStep → Registry
  | .update c => { checkpoints with store := (checkpoints.store.updateCheckpoint c).2 }
  | .add height hash =>
    { checkpoints with store := (checkpoints.store.addCheckpoint height hash).2 }
  | .block b c => checkpoints.blockAdd b c
  | .detach height => checkpoints.blockchainDetached height

/-- The checkpoints after some steps. -/
def runAll (steps : List CheckpointStep) (checkpoints : Registry) : Registry :=
  steps.foldl run checkpoints

/-- A checkpoint of the service nodes is in step, and not too late for the cull. -/
def Timely (lastCullHeight : ℕ) (c : Checkpoint) : Prop :=
  c.type = .serviceNode → c.height % checkpointInterval = 0 ∧
    (c.height % storePersistentlyInterval = 0 ∨ lastCullHeight ≤ c.height)

/-- Checkpoints come in step and in time, detaches keep the remembered height in step, and no
cull jumps over a checkpoint. -/
def InStep (checkpoints : Registry) : CheckpointStep → Prop
  | .update c => Timely checkpoints.lastCullHeight c
  | .add _ _ => True
  | .block b c => ¬ checkpoints.Skips b →
    (∀ row ∈ checkpoints.store.rows, row.type = .serviceNode →
      row.height % storePersistentlyInterval ≠ 0 → checkpoints.lastCullHeight ≤ row.height →
        checkpoints.cullStart b ≤ row.height) ∧
    ∀ a, c = some a → Timely (checkpoints.cullNext b) a
  | .detach height => height % checkpointInterval = 0 ∨ checkpoints.lastCullHeight ≤ height

/-- Below the remembered height only the checkpoints that are kept for good are left. -/
structure Aligned (checkpoints : Registry) : Prop where
  lastCullHeight : checkpoints.lastCullHeight % checkpointInterval = 0
  rows : ∀ row ∈ checkpoints.store.rows, Timely checkpoints.lastCullHeight row

variable {checkpoints : Registry}

theorem Timely.mono {low high : ℕ} {c : Checkpoint} (h : Timely high c) (hle : low ≤ high) :
    Timely low c := by
  intro htype
  obtain ⟨hmod, hkept | hhigh⟩ := h htype
  · exact ⟨hmod, .inl hkept⟩
  · exact ⟨hmod, .inr (by omega)⟩

section

variable (h : Aligned checkpoints) {c : Option Checkpoint}

include h

theorem Aligned.detach {height : ℕ}
    (hheight : height % checkpointInterval = 0 ∨ checkpoints.lastCullHeight ≤ height) :
    Aligned (checkpoints.blockchainDetached height) := by
  have hlast := h.lastCullHeight
  have hmin : min checkpoints.lastCullHeight height % checkpointInterval = 0 := by
    simp only [checkpointInterval] at hlast hheight ⊢
    omega
  have hrows : ∀ row ∈ checkpoints.store.rows, Timely (min checkpoints.lastCullHeight height) row :=
    fun row hrow => (h.rows row hrow).mono (min_le_left _ _)
  unfold blockchainDetached
  split
  · exact h
  dsimp only
  split
  · exact ⟨hmin, hrows⟩
  · exact ⟨hmin, fun row hrow => hrows row (mem_removeAt.mp hrow).1⟩

theorem Aligned.block {b : Block}
    (hstep : InStep checkpoints (.block b c)) : Aligned (checkpoints.blockAdd b c) := by
  by_cases hskips : checkpoints.Skips b
  · rw [blockAdd_of_skips hskips]
    exact h
  · obtain ⟨hjump, hattached⟩ := hstep hskips
    obtain ⟨hlast, hmem⟩ := @blockAdd_of_not_skips checkpoints b c hskips
    obtain ⟨hstart, -⟩ := cullStart_spec checkpoints b
    obtain ⟨-, hnext, hnextMod⟩ := cullNext_spec checkpoints b
    have hfirstMod : checkpoints.cullFirst b % checkpointInterval = 0 := by
      have := h.lastCullHeight
      unfold cullFirst
      simp only [checkpointInterval] at *
      omega
    refine ⟨by rw [hlast]; omega, fun row hrow => ?_⟩
    rw [hlast]
    rcases (hmem row).mp hrow with ⟨hstored, hnot, -⟩ | hattaches
    · intro htype
      obtain ⟨hmod, hkept⟩ := h.rows row hstored htype
      refine ⟨hmod, ?_⟩
      by_cases hoff : row.height % storePersistentlyInterval = 0
      · exact .inl hoff
      · -- the cull starts at or below the checkpoint, and would come to it
        right
        by_contra hlow
        have hlastLe := hkept.resolve_left hoff
        have hstartLe := hjump row hstored htype hoff hlastLe
        have hfirstLe : checkpoints.cullFirst b ≤ row.height := by
          unfold cullFirst
          omega
        refine hnot ⟨⟨hfirstLe, ?_, by omega⟩, hoff⟩
        simp only [checkpointInterval] at *
        omega
    · exact hattached row hattaches.1

theorem Aligned.step {step : CheckpointStep} (hstep : InStep checkpoints step) :
    Aligned (step.run checkpoints) := by
  have hupdate : ∀ c, Timely checkpoints.lastCullHeight c →
      Aligned { checkpoints with store := (checkpoints.store.updateCheckpoint c).2 } := by
    intro c hc
    refine ⟨h.lastCullHeight, fun row hrow => ?_⟩
    rcases Store.mem_updateCheckpoint hrow with hrow | ⟨rfl, -⟩
    · exact h.rows row hrow
    · exact hc
  cases step with
  | update c => exact hupdate c hstep
  | add =>
    unfold run Store.addCheckpoint
    dsimp only
    split
    · exact h
    · exact hupdate _ fun htype => by cases htype
  | block => exact h.block hstep
  | detach => exact h.detach hstep

/-- In an aligned state a block that is in step culls all there is to cull. -/
theorem Aligned.culledBelow {b : Block}
    (hstep : InStep checkpoints (.block b c)) (hskips : ¬ checkpoints.Skips b) :
    (checkpoints.blockAdd b c).CulledBelow (checkpoints.immutableAt b) := by
  have hafter := h.block hstep
  rintro immutable himmutable row hrow ⟨htype, hlow, -, hoff⟩
  have hlast := (@blockAdd_of_not_skips checkpoints b c hskips).1
  have hend : immutable.height ≤ checkpoints.cullNext b := by
    have := (cullNext_spec checkpoints b).1
    unfold cullEnd at this
    rw [himmutable] at this
    exact this
  have := ((hafter.rows row hrow htype).2.resolve_left hoff)
  omega

end

theorem aligned_empty : Aligned {} := ⟨rfl, fun _ hrow => absurd hrow OrdSet.not_mem_empty⟩

/-- After any run, a block leaves no service node checkpoint in the last interval below the
immutable checkpoint, exactly if its cull comes to all that are stored there. This is so if
the run keeps in step. The immutable checkpoint is the one that the block finds, and also the
one after it if the block brings none. -/
theorem blockAdd_culls_iff (steps : List CheckpointStep) (b : Block) (c : Option Checkpoint) :
    let before := runAll steps {}
    ((before.blockAdd b c).CulledBelow (before.immutableAt b) ↔
      ∀ immutable, before.immutableAt b = some immutable →
        (∀ row ∈ before.store.rows, Stray immutable.height row →
          ¬ before.Skips b ∧ (before.Culls b row.height ∨
            ∃ a, before.Attaches b c a ∧ row.height = a.height)) ∧
        ∀ a, before.Attaches b c a → ¬ Stray immutable.height a) ∧
    (AllAlong run InStep {} (steps ++ [.block b c]) → ¬ before.Skips b →
      (before.blockAdd b c).CulledBelow (before.immutableAt b)) ∧
    (before.blockAdd b none).immutableAt b = before.immutableAt b := by
  intro before
  refine ⟨culledBelow_blockAdd_iff, ?_, immutableAt_blockAdd_none⟩
  intro hsteps hskips
  obtain ⟨hbefore, hblock, -⟩ := allAlong_append.mp hsteps
  have haligned : Aligned before :=
    hbefore.foldl (fun _ _ haligned hstep => haligned.step hstep) aligned_empty
  exact haligned.culledBelow hblock hskips

/-- The checkpoints of some heights, voted for by the service nodes. -/
def votedAt (heights : List ℕ) : List CheckpointStep :=
  heights.map (fun height => .update { type := .serviceNode, height, blockHash := height })

/-- With checkpoints at heights 60 to 72, the block at height 72 culls the one at height 64. -/
theorem blockAdd_culls_aligned :
    let before := runAll (votedAt [60, 64, 68, 72]) {}
    let after := before.blockAdd { majorVersion := Hf.hf16Pulse, height := 72, hash := 0 } none
    (before.immutableAt { majorVersion := Hf.hf16Pulse, height := 72, hash := 0 }).map
        Checkpoint.height = some 68 ∧
      after.store.rows.toList.map Checkpoint.height = [60, 68, 72] ∧
      after.CulledBelow
        (before.immutableAt { majorVersion := Hf.hf16Pulse, height := 72, hash := 0 }) := by
  refine ⟨by decide +kernel, by decide +kernel, ?_⟩
  refine (blockAdd_culls_iff (votedAt [60, 64, 68, 72])
    { majorVersion := Hf.hf16Pulse, height := 72, hash := 0 } none).2.1 ?_ ?_
  · refine ⟨fun _ => by decide +kernel, fun _ => by decide +kernel, fun _ => by decide +kernel,
      fun _ => by decide +kernel, fun _ => ⟨by decide +kernel, nofun⟩, trivial⟩
  · rintro (h | h)
    · cases h
    · revert h
      decide +kernel

/-- A detach to height 66 leaves the remembered height out of step with the checkpoints. The
block at height 80 looks at heights 66, 70 and 74, and the checkpoints at 68 and 72 stay. -/
theorem stray_checkpoints_kept :
    let block (height : ℕ) : Block := { majorVersion := Hf.hf16Pulse, height, hash := 0 }
    let before := runAll (votedAt [60, 64, 68, 72] ++ [.block (block 72) none, .detach 66] ++
      votedAt [68, 72, 76, 80]) {}
    let after := before.blockAdd (block 80) none
    before.lastCullHeight = 66 ∧
      (before.immutableAt (block 80)).map Checkpoint.height = some 76 ∧
      (after.immutableAt (block 80)).map Checkpoint.height = some 76 ∧
      after.store.rows.toList.map (fun row => (row.type, row.height)) =
        [(.serviceNode, 60), (.serviceNode, 68), (.serviceNode, 72), (.serviceNode, 76),
          (.serviceNode, 80)] := by
  decide +kernel

end CheckpointStep

end Xeqm.Checkpoints
