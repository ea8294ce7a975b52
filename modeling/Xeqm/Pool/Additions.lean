import Xeqm.Pool.Pruning

/-!
# Additions to the pool

What `add_tx` does to a consistent pool: the marks of double spends, the eviction of the
transactions that an approved blink conflicts with, and the insertion.
-/

namespace Xeqm.Pool

open Cryptonote Lib List

namespace TxPool

variable {pool after : TxPool} {id : Hash} {stored : PoolEntry} {tx : PoolTx}

/-! ## Marks of double spends -/

/-- What the other structures mirror of the table. -/
def skeleton (pool : TxPool) : List (Hash × PoolTx × ℕ) :=
  pool.txs.toList.map (fun e => (e.1, e.2.tx, e.2.info.weight))

/-- Two pools differ at most in the parts of the table that no structure mirrors. -/
structure SameBut (pool after : TxPool) : Prop where
  skeleton : after.skeleton = pool.skeleton
  spentKeyImages : after.spentKeyImages = pool.spentKeyImages
  txsByPriority : after.txsByPriority = pool.txsByPriority
  txpoolWeight : after.txpoolWeight = pool.txpoolWeight

theorem SameBut.trans {other : TxPool} (h : pool.SameBut after) (h' : after.SameBut other) :
    pool.SameBut other :=
  ⟨h'.skeleton.trans h.skeleton, h'.spentKeyImages.trans h.spentKeyImages,
    h'.txsByPriority.trans h.txsByPriority, h'.txpoolWeight.trans h.txpoolWeight⟩

theorem SameBut.symm (h : pool.SameBut after) : after.SameBut pool :=
  ⟨h.skeleton.symm, h.spentKeyImages.symm, h.txsByPriority.symm, h.txpoolWeight.symm⟩

/-- The hashes of the table. -/
theorem keys_eq_skeleton (pool : TxPool) : pool.txs.keys = pool.skeleton.map Prod.fst := by
  simp [KeyMap.keys, skeleton, Function.comp_def]

section

variable (h : pool.SameBut after)

include h

theorem SameBut.keys : after.txs.keys = pool.txs.keys := by
  rw [keys_eq_skeleton, keys_eq_skeleton, h.skeleton]

/-- An entry has its counterpart. -/
theorem SameBut.exists_mem (hstored : (id, stored) ∈ after.txs) :
    ∃ stored', (id, stored') ∈ pool.txs ∧ stored'.tx = stored.tx ∧
      stored'.info.weight = stored.info.weight := by
  have hmem : (id, stored.tx, stored.info.weight) ∈ after.skeleton :=
    mem_map.mpr ⟨(id, stored), hstored, rfl⟩
  rw [h.skeleton] at hmem
  obtain ⟨⟨id', stored'⟩, hstored', heq⟩ := mem_map.mp hmem
  simp only [Prod.mk.injEq] at heq
  obtain ⟨rfl, htx, hweight⟩ := heq
  exact ⟨stored', hstored', htx, hweight⟩

/-- A pool that differs in nothing that is mirrored is formed as well. -/
theorem SameBut.formed (hformed : pool.Formed) : after.Formed where
  id_eq := by
    rintro ⟨id, stored⟩ he
    obtain ⟨stored', hstored', htx, -⟩ := h.exists_mem he
    exact htx ▸ hformed.id_eq _ hstored'
  weight_eq := by
    rintro ⟨id, stored⟩ he
    obtain ⟨stored', hstored', htx, hweight⟩ := h.exists_mem he
    have heq := hformed.weight_eq _ hstored'
    rw [← htx, ← hweight, heq]
  images_nodup := by
    rintro ⟨id, stored⟩ he
    obtain ⟨stored', hstored', htx, -⟩ := h.exists_mem he
    exact htx ▸ hformed.images_nodup _ hstored'
  index_nodup := by
    rw [h.spentKeyImages]
    exact hformed.index_nodup

/-- It is consistent as well. -/
theorem SameBut.consistent (hconsistent : pool.Consistent) : after.Consistent where
  keyImages := by
    intro image id
    rw [h.spentKeyImages, hconsistent.keyImages]
    constructor
    · rintro ⟨stored, hstored, himage⟩
      obtain ⟨stored', hstored', htx, -⟩ := h.symm.exists_mem hstored
      exact ⟨stored', hstored', htx ▸ himage⟩
    · rintro ⟨stored, hstored, himage⟩
      obtain ⟨stored', hstored', htx, -⟩ := h.exists_mem hstored
      exact ⟨stored', hstored', htx ▸ himage⟩
  priorities := by
    rw [h.keys, h.txsByPriority]
    exact hconsistent.priorities
  weight := by
    have hsum (p : TxPool) : p.tableWeight = (p.skeleton.map (fun e => e.2.2)).sum := by
      simp [tableWeight, TxPool.skeleton, Function.comp_def]
    rw [h.txpoolWeight, hconsistent.weight, hsum, hsum, h.skeleton]

end

/-- A mark touches nothing that is mirrored. -/
theorem sameBut_markOne (pool : TxPool) (txid : Hash) : pool.SameBut (pool.markOne txid) where
  skeleton := by
    unfold skeleton markOne KeyMap.adjust OrdSet.modify
    rw [map_map]
    refine map_congr_left fun e _ => ?_
    dsimp only [Function.comp_apply]
    split <;> rfl
  spentKeyImages := rfl
  txsByPriority := rfl
  txpoolWeight := rfl

theorem sameBut_markDoubleSpend (pool : TxPool) (tx : PoolTx) :
    pool.SameBut (pool.markDoubleSpend tx) := by
  have hfold (l : List Hash) (p : TxPool) : p.SameBut (l.foldl markOne p) := by
    induction l generalizing p with
    | nil => exact ⟨rfl, rfl, rfl, rfl⟩
    | cons txid _ ih => exact (sameBut_markOne p txid).trans (ih _)
  have hmarks := hfold (pool.conflictTxs tx) pool
  unfold markDoubleSpend
  dsimp only
  split
  · exact ⟨hmarks.skeleton, hmarks.spentKeyImages, hmarks.txsByPriority, hmarks.txpoolWeight⟩
  · exact hmarks

theorem SoundBut.markDoubleSpend (h : pool.SoundBut []) (tx : PoolTx) :
    (pool.markDoubleSpend tx).SoundBut [] := by
  have hsame := sameBut_markDoubleSpend pool tx
  obtain ⟨hformed, hconsistent⟩ := soundBut_nil_iff.mp h
  exact soundBut_nil_iff.mpr ⟨hsame.formed hformed, hsame.consistent hconsistent⟩

/-! ## Insertion -/

/-- The key images of a transaction can all go in. -/
def ImagesFree (pool : TxPool) (kept : Bool) (tx : PoolTx) : Prop :=
  tx.keyImages.Nodup ∧ ∀ image ∈ tx.keyImages,
    tx.id ∉ pool.spentKeyImages image ∧ (kept = true ∨ pool.spentKeyImages image = [])

/-- The insertion of a transaction does no harm: it stops at the first key image, or it adds a
transaction that is not in the pool. -/
def MayInsert (pool : TxPool) (kept : Bool) (tx : PoolTx) : Prop :=
  BlockedAtFirst tx.id kept tx.keyImages pool.spentKeyImages ∨
    (pool.ImagesFree kept tx ∧ ∀ stored, (tx.id, stored) ∉ pool.txs)

/-- A transaction whose first key image is blocked has key images that are not free. -/
theorem not_imagesFree_of_blocked {kept : Bool}
    (h : BlockedAtFirst tx.id kept tx.keyImages pool.spentKeyImages) :
    ¬pool.ImagesFree kept tx := by
  rintro ⟨-, hfree⟩
  obtain ⟨first, rest, heq, hblocked⟩ := h
  have hfirst := hfree first (heq ▸ mem_cons_self)
  rcases hblocked with ⟨hkept, hne⟩ | hmem
  · rcases hfirst.2 with hkept' | hnil
    · simp [hkept] at hkept'
    · exact hne hnil
  · exact hfirst.1 hmem

/-- The pool after an insertion, before it is pruned. -/
def inserted (pool : TxPool) (tx : PoolTx) (info : TxMeta) (entry : PriorityEntry)
    (index : KeyImageIndex) (cookie : ℕ) : TxPool :=
  { pool with
    txs := pool.txs.set tx.id { tx, info }
    spentKeyImages := index
    txsByPriority := pool.txsByPriority.insert entry
    txpoolWeight := pool.txpoolWeight + tx.weight
    cookie }

variable {opts : TxPoolOptions} {index : KeyImageIndex}

/-- What an insertion comes to: the key images do not all go in and the table stays, or they are
free, all go in, and the pool is pruned. -/
theorem insertTx_cases (pool : TxPool) (env : PoolEnv) (opts : TxPoolOptions) (tx : PoolTx)
    (fee : ℕ) :
    (∃ index, insertLoop tx.id opts.keptByBlock tx.keyImages pool.spentKeyImages = (false, index) ∧
      ¬pool.ImagesFree opts.keptByBlock tx ∧
      pool.insertTx env opts tx fee = (some .keyImages, { pool with spentKeyImages := index })) ∨
    ∃ index info entry cookie,
      insertLoop tx.id opts.keptByBlock tx.keyImages pool.spentKeyImages = (true, index) ∧
      pool.ImagesFree opts.keptByBlock tx ∧ info.weight = tx.weight ∧ entry.id = tx.id ∧
      pool.insertTx env opts tx fee =
        (none, (pool.inserted tx info entry index cookie).prune env tx.id) := by
  unfold insertTx insertKeyImages
  cases hloop : insertLoop tx.id opts.keptByBlock tx.keyImages pool.spentKeyImages with
  | mk ok index =>
    cases ok with
    | false =>
      refine .inl ⟨index, rfl, fun hfree => ?_, rfl⟩
      cases hloop.symm.trans (insertLoop_eq_true_iff.mpr ⟨hfree, fun _ => rfl⟩)
    | true =>
      exact .inr ⟨index, _, _, _, rfl, (insertLoop_eq_true_iff.mp hloop).1, rfl, rfl, rfl⟩

namespace SoundBut

variable {tx : PoolTx} {kept : Bool} {index : KeyImageIndex} {info : TxMeta}
  {entry : PriorityEntry}

section

variable (h : pool.SoundBut [])

include h

/-- The insertion of a transaction that is not in the pool. -/
theorem inserted (hloop : insertLoop tx.id kept tx.keyImages pool.spentKeyImages = (true, index))
    (hfresh : ∀ stored, (tx.id, stored) ∉ pool.txs) (hweight : info.weight = tx.weight)
    (hentry : entry.id = tx.id) (cookie : ℕ) :
    (pool.inserted tx info entry index cookie).SoundBut [] := by
  obtain ⟨⟨hnodup, hfree⟩, hindex⟩ := insertLoop_eq_true_iff.mp hloop
  have hne {e : Hash × PoolEntry} (he : e ∈ pool.txs) : e.1 ≠ tx.id := by
    rintro heq
    exact hfresh e.2 (heq ▸ he)
  have hmem (e : Hash × PoolEntry) : e ∈ (pool.inserted tx info entry index cookie).txs ↔
      e = (tx.id, { tx, info }) ∨ e ∈ pool.txs := by
    change e ∈ pool.txs.set tx.id { tx, info } ↔ _
    rw [KeyMap.mem_set, and_iff_left_of_imp hne]
  have hall {p : Hash × PoolEntry → Prop} (hp : p (tx.id, { tx, info }))
      (hold : ∀ e ∈ pool.txs, p e) : ∀ e ∈ (pool.inserted tx info entry index cookie).txs, p e := by
    intro e he
    rcases (hmem e).mp he with rfl | he
    · exact hp
    · exact hold e he
  refine { id_eq := hall rfl h.id_eq, weight_eq := hall hweight h.weight_eq,
           images_nodup := hall hnodup h.images_nodup, index_nodup := ?_, keyImages := ?_,
           priorities := ?_, weight := ?_ }
  · intro image
    change (index image).Nodup
    rw [hindex image]
    split
    · rename_i himage
      exact nodup_append.mpr ⟨h.index_nodup image, nodup_singleton _, by
        rintro a ha b hb rfl
        exact (hfree image himage).1 (mem_singleton.mp hb ▸ ha)⟩
    · exact h.index_nodup image
  · intro image other
    change other ∈ index image ↔ _
    have hsplit : other ∈ index image ↔
        other ∈ pool.spentKeyImages image ∨ (other = tx.id ∧ image ∈ tx.keyImages) := by
      rw [hindex image]
      by_cases himage : image ∈ tx.keyImages <;> simp [himage]
    rw [hsplit, h.keyImages]
    constructor
    · rintro (⟨stored, hstored, himage⟩ | ⟨rfl, himage⟩)
      · exact ⟨stored, (hmem _).mpr (.inr hstored), himage⟩
      · exact ⟨_, (hmem _).mpr (.inl rfl), himage⟩
    · rintro ⟨stored, hstored, himage⟩
      rcases (hmem _).mp hstored with heq | hstored
      · cases heq
        exact .inr ⟨rfl, himage⟩
      · exact .inl ⟨stored, hstored, himage⟩
  · have hkey : ∀ other ∈ pool.txsByPriority, other.key ≠ entry.key := by
      intro other hother hkey
      have hid : other.id = entry.id := by
        simp only [PriorityEntry.key, EmbeddingLike.apply_eq_iff_eq, Prod.mk.injEq] at hkey
        exact Ranked.rank_injective hkey.2.2.2
      obtain ⟨stored, hstored⟩ := h.stored_of_mem hother
      rw [hid, hentry] at hstored
      exact hfresh stored hstored
    have horder := (OrdSet.toList_insert_perm hkey).map PriorityEntry.id
    have htable := (KeyMap.toList_set_perm pool.txs tx.id { tx, info }).map Prod.fst
    rw [KeyMap.remove_eq_self hfresh] at htable
    rw [map_cons, hentry] at horder
    exact horder.trans ((h.priorities.cons tx.id).trans htable.symm)
  · have htable := ((KeyMap.toList_set_perm pool.txs tx.id { tx, info }).map
      (fun e => e.2.info.weight)).sum_eq
    rw [KeyMap.remove_eq_self hfresh, map_cons, sum_cons, hweight] at htable
    have hpool := h.weight
    change pool.txpoolWeight + tx.weight =
      ((pool.txs.set tx.id { tx, info }).toList.map (fun e => e.2.info.weight)).sum
    rw [htable, hpool, tableWeight, add_comm]

/-- The insertion of a transaction whose hash is in the pool counts a weight twice. -/
theorem inserted_again (hstored : (tx.id, stored) ∈ pool.txs) (hweight : info.weight = tx.weight)
    (hentry : entry.id = tx.id) (cookie : ℕ) :
    Prunable tx.id stored.info.weight (pool.inserted tx info entry index cookie) where
  stored := by
    intro other hother
    by_cases hid : other.id = tx.id
    · exact ⟨_, KeyMap.mem_set.mpr (.inl (by rw [hid]))⟩
    · rcases OrdSet.mem_insert.mp hother with hold | ⟨rfl, -⟩
      · obtain ⟨stored', hstored'⟩ := h.stored_of_mem hold
        exact ⟨stored', KeyMap.mem_set.mpr (.inr ⟨hstored', hid⟩)⟩
      · exact absurd hentry hid
  unique := by
    intro a ha b hb hid hskip
    have hold {e : PriorityEntry} (he : e ∈ pool.txsByPriority.insert entry)
        (hne : e.id ≠ tx.id) : e ∈ pool.txsByPriority := by
      rcases OrdSet.mem_insert.mp he with hmem | ⟨rfl, -⟩
      · exact hmem
      · exact absurd hentry hne
    exact (h.prunable tx.id).unique a (hold ha hskip) b (hold hb (hid ▸ hskip)) hid hskip
  weight := by
    have htable := ((KeyMap.toList_set_perm pool.txs tx.id { tx, info }).map
      (fun e => e.2.info.weight)).sum_eq
    rw [map_cons, sum_cons, hweight] at htable
    have htotal := tableWeight_remove hstored
    have hpool := h.weight
    change pool.txpoolWeight + tx.weight =
      ((pool.txs.set tx.id { tx, info }).toList.map (fun e => e.2.info.weight)).sum + _
    omega

/-- An insertion that does no harm keeps a pool sound. -/
theorem insertTx (hmay : pool.MayInsert opts.keptByBlock tx) (env : PoolEnv) (fee : ℕ) :
    (pool.insertTx env opts tx fee).2.SoundBut [] := by
  obtain ⟨index, hloop, hnot, heq⟩ |
      ⟨index, info, entry, cookie, hloop, hfree, hweight, hentry, heq⟩ :=
    insertTx_cases pool env opts tx fee
  · rw [heq]
    rcases insertLoop_false hloop with ⟨-, rfl⟩ | ⟨hblocked, -⟩
    · exact h
    · exact absurd (hmay.resolve_left hblocked).1 hnot
  · rcases hmay with hblocked | ⟨-, hfresh⟩
    · exact absurd hfree (not_imagesFree_of_blocked hblocked)
    · rw [heq]
      exact (h.inserted hloop hfresh hweight hentry cookie).prune env tx.id

/-- Any other insertion makes a sound pool inconsistent. -/
theorem not_consistent_insertTx (hmay : ¬pool.MayInsert opts.keptByBlock tx) {env : PoolEnv}
    {fee : ℕ} :
    ¬(pool.insertTx env opts tx fee).2.Consistent := by
  intro hafter
  obtain ⟨index, hloop, -, heq⟩ | ⟨index, info, entry, cookie, -, hfree, hweight, hentry, heq⟩ :=
    insertTx_cases pool env opts tx fee
  · rw [heq] at hafter
    rcases insertLoop_false hloop with ⟨hblocked, -⟩ | ⟨-, image, hnot, hin⟩
    · exact hmay (.inl hblocked)
    · -- the index names the transaction, but the table is as before
      exact hnot ((h.keyImages image tx.id).mpr ((hafter.keyImages image tx.id).mp hin))
  · have hagain : ¬∀ stored, (tx.id, stored) ∉ pool.txs :=
      fun hfresh => hmay (.inr ⟨hfree, hfresh⟩)
    obtain ⟨stored, hstored⟩ := not_forall_not.mp hagain
    obtain ⟨after, cookie', hprune, hafter', -⟩ :=
      (h.inserted_again hstored hweight hentry cookie).prune env
    rw [heq, hprune] at hafter
    have hexcess := hafter'.weight
    have hequal : after.txpoolWeight = after.tableWeight := hafter.weight
    have hpos := stored.tx.weight_pos
    rw [← h.weight_eq _ hstored] at hpos
    dsimp only at hpos
    omega

end

end SoundBut

end TxPool

end Xeqm.Pool
