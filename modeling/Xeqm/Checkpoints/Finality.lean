import Xeqm.Checkpoints.Store

/-!
# Finality by checkpoints

The class `checkpoints`: which of the stored checkpoints is immutable, which blocks may
still be replaced, and what happens to the checkpoints as blocks come and go.
-/

namespace Xeqm.Checkpoints

open Cryptonote ServiceNodes Lib List

namespace Store

/-- `get_checkpoints_range`: both ends are moved to the heights that are stored, and the
checkpoints between them are returned from the first end on. -/
def getCheckpointsRange (store : Store) (start finish count : ℕ) : List Checkpoint :=
  match store.rows.toList.head?, store.rows.toList.getLast? with
  | some bottom, some top =>
    let start := min (max start bottom.height) top.height
    let finish := min (max finish bottom.height) top.height
    let rows := store.rows.toList.filter (fun row =>
      min start finish ≤ row.height ∧ row.height ≤ max start finish)
    let rows := if start ≤ finish then rows else rows.reverse
    (rows.take count).map load
  | _, _ => []

/-- `get_top_checkpoint`. -/
def getTopCheckpoint (store : Store) : Option Checkpoint := store.rows.toList.getLast?.map load

/-- `CHECKPOINT_NUM_CHECKPOINTS_FOR_CHAIN_FINALITY`. -/
def numCheckpointsForFinality : ℕ := 2

/-- `get_immutable_checkpoint`: the last one if it is hardcoded, otherwise the one before. -/
def getImmutableCheckpoint (store : Store) (blockHeight : ℕ) : Option Checkpoint :=
  match store.getCheckpointsRange blockHeight 0 numCheckpointsForFinality with
  | [] => none
  | last :: rest => if last.type ≠ .serviceNode then some last else rest.head?

end Store

/-- `checkpoints`: the stored ones, with the heights that are kept in memory. -/
structure Registry where
  store : Store := {}
  /-- `m_immutable_height`. -/
  immutableHeight : ℕ := 0
  /-- `m_last_cull_height`. -/
  lastCullHeight : ℕ := 0

/-- `CHECKPOINT_STORE_PERSISTENTLY_INTERVAL`. -/
def storePersistentlyInterval : ℕ := 60

namespace Registry

/-- `is_alternative_block_allowed`, which also remembers the immutable height. -/
def isAlternativeBlockAllowed (checkpoints : Registry) (blockchainHeight blockHeight : ℕ) :
    Bool × Registry :=
  if blockHeight = 0 then (false, checkpoints)
  else if (checkpoints.store.getCheckpointsRange 0 blockchainHeight 1).all
      (fun first => blockchainHeight < first.height) then (true, checkpoints)
  else
    let height := ((checkpoints.store.getImmutableCheckpoint blockchainHeight).map
      Checkpoint.height).getD 0
    let immutableHeight := max height checkpoints.immutableHeight
    (blockHeight > immutableHeight, { checkpoints with immutableHeight })

/-- What `check_block` says of a block. -/
structure BlockCheck where
  result : Bool
  isACheckpoint : Bool
  serviceNodeCheckpoint : Bool

/-- `check_block`. -/
def checkBlock (checkpoints : Registry) (height : ℕ) (hash : Hash) : BlockCheck :=
  match checkpoints.store.getBlockCheckpoint height with
  | none => { result := true, isACheckpoint := false, serviceNodeCheckpoint := false }
  | some checkpoint =>
    { result := hash = checkpoint.blockHash
      isACheckpoint := true
      serviceNodeCheckpoint := checkpoint.type = .serviceNode }

/-- `is_in_checkpoint_zone`. -/
def isInCheckpointZone (checkpoints : Registry) (height : ℕ) : Bool :=
  height ≤ (checkpoints.store.getTopCheckpoint.map Checkpoint.height).getD 0

/-- The rows at some heights removed. -/
def removeAt (heights : List ℕ) (checkpoints : Registry) : Registry :=
  { checkpoints with
    store := heights.foldl (fun store height => store.removeBlockCheckpoint height) checkpoints.store }

/-- `checkpoints::block_add`: old checkpoints go, the one that comes with the block stays. -/
def blockAdd (block : Block) (checkpoint : Option Checkpoint) (checkpoints : Registry) :
    Registry :=
  if checkpoints.store.readOnly then checkpoints
  else if block.height < storePersistentlyInterval ∨ block.majorVersion < Hf.hf12Checkpointing then
    checkpoints
  else
    let finish := ((checkpoints.store.getImmutableCheckpoint (block.height + 1)).map
      Checkpoint.height).getD 0
    let start := finish - storePersistentlyInterval
    -- the next multiple of the interval
    let start := if start % checkpointInterval > 0
      then start + (checkpointInterval - start % checkpointInterval) else start
    let first := max checkpoints.lastCullHeight start
    let culled := (List.range ((finish - first + checkpointInterval - 1) / checkpointInterval)).map
      (fun i => first + i * checkpointInterval)
    let checkpoints := checkpoints.removeAt
      (culled.filter (fun height => height % storePersistentlyInterval ≠ 0))
    let checkpoints := { checkpoints with
      lastCullHeight := first + culled.length * checkpointInterval }
    match checkpoint with
    | none => checkpoints
    | some checkpoint =>
      { checkpoints with store := (checkpoints.store.updateCheckpoint checkpoint).2 }

/-- `checkpoints::blockchain_detached`: from the top one on, in steps of the interval, the
checkpoints at the new height and above go. -/
def blockchainDetached (height : ℕ) (checkpoints : Registry) : Registry :=
  if checkpoints.store.readOnly then checkpoints
  else
    let checkpoints := { checkpoints with lastCullHeight := min checkpoints.lastCullHeight height }
    match checkpoints.store.getTopCheckpoint with
    | none => checkpoints
    | some top =>
      let heights := (List.range (top.height / checkpointInterval + 1)).map
        (fun i => top.height - i * checkpointInterval)
      checkpoints.removeAt (heights.filter (fun h => height ≤ h ∧ checkpointInterval ≤ h))

end Registry

/-! ## The window of a reorganisation -/

namespace Store

variable {store : Store} {height : ℕ}

/-- The rows lie between the first and the last one. -/
theorem between_ends {rows : List Checkpoint} {bottom top : Checkpoint}
    (h : rows.Pairwise (fun a b => a.height < b.height)) (hbottom : rows.head? = some bottom)
    (htop : rows.getLast? = some top) {row : Checkpoint} (hrow : row ∈ rows) :
    bottom.height ≤ row.height ∧ row.height ≤ top.height := by
  constructor
  · obtain ⟨rest, rfl⟩ := head?_eq_some_iff.mp hbottom
    rcases mem_cons.mp hrow with rfl | hrow
    · exact le_refl _
    · exact le_of_lt ((pairwise_cons.mp h).1 row hrow)
  · obtain ⟨before, rfl⟩ := getLast?_eq_some_iff.mp htop
    rcases mem_append.mp hrow with hrow | hrow
    · exact le_of_lt ((pairwise_append.mp h).2.2 row hrow top (mem_singleton_self _))
    · rw [mem_singleton.mp hrow]

/-- The first checkpoint of all. -/
theorem getCheckpointsRange_one {bottom : Checkpoint} {rest : List Checkpoint}
    (hlist : store.rows.toList = bottom :: rest) :
    store.getCheckpointsRange 0 height 1 = [load bottom] := by
  have hsorted := store.rows.sorted
  rw [hlist] at hsorted
  have htop := getLast?_eq_some_getLast (cons_ne_nil bottom rest)
  have hbt := (between_ends hsorted rfl htop mem_cons_self).2
  unfold getCheckpointsRange
  simp only [hlist, head?_cons, htop]
  rw [if_pos (by omega), filter_cons_of_pos (by simp only [decide_eq_true_eq]; omega)]
  rfl

/-- The last checkpoints up to a height, if there are any. -/
theorem getCheckpointsRange_zero (count : ℕ) (h : ∃ row ∈ store.rows, row.height ≤ height) :
    store.getCheckpointsRange height 0 count =
      ((store.rows.toList.filter (fun row => row.height ≤ height)).reverse.take count).map load := by
  obtain ⟨row, hrow, hle⟩ := h
  have hsorted := store.rows.sorted
  rw [OrdSet.mem_def] at hrow
  unfold getCheckpointsRange
  cases hlist : store.rows.toList with
  | nil =>
    rw [hlist] at hrow
    cases hrow
  | cons bottom rest =>
    rw [hlist] at hrow hsorted
    obtain ⟨top, htop⟩ : ∃ top, (bottom :: rest).getLast? = some top :=
      ⟨_, getLast?_eq_some_getLast (cons_ne_nil bottom rest)⟩
    have hends : ∀ c ∈ bottom :: rest, bottom.height ≤ c.height ∧ c.height ≤ top.height :=
      fun c hc => between_ends hsorted rfl htop hc
    have hle' : bottom.height ≤ height := (hends row hrow).1.trans hle
    have hbt : bottom.height ≤ top.height := (hends bottom mem_cons_self).2
    simp only [head?_cons, htop]
    have hfilter : (bottom :: rest).filter (fun c =>
        min (min (max height bottom.height) top.height) (min (max 0 bottom.height) top.height) ≤
          c.height ∧
        c.height ≤ max (min (max height bottom.height) top.height)
          (min (max 0 bottom.height) top.height)) =
        (bottom :: rest).filter (fun c => c.height ≤ height) := by
      refine filter_congr fun c hc => ?_
      have := hends c hc
      simp only [decide_eq_decide]
      omega
    rw [hfilter]
    split
    · -- only the lowest one is not above
      have honly : rest.filter (fun c => c.height ≤ height) = [] := by
        refine filter_eq_nil_iff.mpr fun c hc => ?_
        have := (pairwise_cons.mp hsorted).1 c hc
        have := hends c (mem_cons_of_mem _ hc)
        simp only [decide_eq_true_eq]
        omega
      rw [filter_cons_of_pos (by simpa using hle'), honly]
      rfl
    · rfl

end Store

namespace Registry

variable {checkpoints : Registry} {blockchainHeight blockHeight : ℕ} {row row' : Checkpoint}

/-- Of two checkpoints up to a height, the immutable one is not below the lower. -/
theorem height_le_immutable (hrow : row ∈ checkpoints.store.rows)
    (hrow' : row' ∈ checkpoints.store.rows) (hlt : row.height < row'.height)
    (hhigh : row'.height ≤ blockchainHeight) :
    ∃ c, checkpoints.store.getImmutableCheckpoint blockchainHeight = some c ∧
      row.height ≤ c.height := by
  unfold Store.getImmutableCheckpoint
  rw [Store.getCheckpointsRange_zero _ ⟨row', hrow', hhigh⟩]
  have hsorted : (checkpoints.store.rows.toList.filter
      (fun c => c.height ≤ blockchainHeight)).reverse.Pairwise (fun a b => b.height < a.height) :=
    pairwise_reverse.mpr (checkpoints.store.rows.sorted.filter _)
  have hmem : ∀ c ∈ checkpoints.store.rows, c.height ≤ blockchainHeight →
      c ∈ (checkpoints.store.rows.toList.filter (fun c => c.height ≤ blockchainHeight)).reverse := by
    intro c hc hle
    rw [mem_reverse, mem_filter]
    exact ⟨hc, by simpa using hle⟩
  have hin := hmem row hrow (le_of_lt (lt_of_lt_of_le hlt hhigh))
  have hin' := hmem row' hrow' hhigh
  generalize (checkpoints.store.rows.toList.filter
    (fun c => c.height ≤ blockchainHeight)).reverse = last at hsorted hin hin'
  cases last with
  | nil => cases hin
  | cons first rest =>
    obtain ⟨hfirst, hrest⟩ := pairwise_cons.mp hsorted
    -- the lower of the two comes after the first one
    have hlater : row ∈ rest := by
      rcases mem_cons.mp hin with rfl | hin
      · rcases mem_cons.mp hin' with rfl | hin'
        · omega
        · have := hfirst row' hin'
          omega
      · exact hin
    cases rest with
    | nil => cases hlater
    | cons second =>
      have hsecond : row.height ≤ second.height := by
        rcases mem_cons.mp hlater with rfl | hlater
        · exact le_refl _
        · exact le_of_lt ((pairwise_cons.mp hrest).1 row hlater)
      simp only [Store.numCheckpointsForFinality, take_succ_cons, map_cons, head?_cons]
      split
      · exact ⟨_, rfl, le_of_lt (hfirst row hlater)⟩
      · exact ⟨_, rfl, hsecond⟩

/-- If a block may be replaced, there is at most one checkpoint from its height up to that of
the chain. -/
theorem not_lt_of_allowed
    (h : (checkpoints.isAlternativeBlockAllowed blockchainHeight blockHeight).1 = true)
    (hrow : row ∈ checkpoints.store.rows)
    (hrow' : row' ∈ checkpoints.store.rows) (hlow : blockHeight ≤ row.height)
    (hhigh : row'.height ≤ blockchainHeight) : ¬ row.height < row'.height := by
  intro hlt
  obtain ⟨c, himmutable, hle⟩ := height_le_immutable hrow hrow' hlt hhigh
  unfold isAlternativeBlockAllowed at h
  split at h
  · cases h
  split at h
  · rename_i hfirst
    cases hlist : checkpoints.store.rows.toList with
    | nil =>
      rw [OrdSet.mem_def, hlist] at hrow
      cases hrow
    | cons =>
      have hbottom := (Store.between_ends checkpoints.store.rows.sorted
        (by rw [hlist]; rfl) (getLast?_eq_some_getLast (by simp [hlist])) hrow').1
      rw [Store.getCheckpointsRange_one hlist, all_cons, Bool.and_eq_true,
        decide_eq_true_eq] at hfirst
      exact absurd hfirst.1 (Nat.not_lt.mpr (hbottom.trans hhigh))
  · simp only [himmutable, Option.map_some, Option.getD_some, decide_eq_true_eq] at h
    omega

end Registry

end Xeqm.Checkpoints
