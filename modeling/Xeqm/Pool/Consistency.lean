import Mathlib.Algebra.BigOperators.Group.List.Basic
import Xeqm.Pool.State

/-!
# The structures beside the table of the pool

A pool is consistent when the index of key images, the order of priorities and the weight are those
of the transactions in the table. This module says what each operation does to a consistent pool.
-/

namespace Xeqm.Pool

open Cryptonote Lib List

namespace TxPool

/-- The weight of the transactions in the table. -/
def tableWeight (pool : TxPool) : ℕ := (pool.txs.toList.map (fun e => e.2.info.weight)).sum

/-- The structures in memory mirror the table. -/
structure Consistent (pool : TxPool) : Prop where
  keyImages : ∀ image id, id ∈ pool.spentKeyImages image ↔
    ∃ stored, (id, stored) ∈ pool.txs ∧ image ∈ stored.tx.keyImages
  priorities : (pool.txsByPriority.toList.map PriorityEntry.id).Perm pool.txs.keys
  weight : pool.txpoolWeight = pool.tableWeight

/-- What holds of the entries of the table and of the index beside that. -/
structure Formed (pool : TxPool) : Prop where
  id_eq : ∀ e ∈ pool.txs, e.2.tx.id = e.1
  weight_eq : ∀ e ∈ pool.txs, e.2.info.weight = e.2.tx.weight
  images_nodup : ∀ e ∈ pool.txs, e.2.tx.keyImages.Nodup
  index_nodup : ∀ image, (pool.spentKeyImages image).Nodup

/-- A consistent pool, apart from some transactions that have been taken out of the order. -/
structure SoundBut (missing : List Hash) (pool : TxPool) : Prop extends Formed pool where
  keyImages : ∀ image id, id ∈ pool.spentKeyImages image ↔
    ∃ stored, (id, stored) ∈ pool.txs ∧ image ∈ stored.tx.keyImages
  priorities : (missing ++ pool.txsByPriority.toList.map PriorityEntry.id).Perm pool.txs.keys
  weight : pool.txpoolWeight = pool.tableWeight

theorem soundBut_nil_iff {pool : TxPool} : pool.SoundBut [] ↔ pool.Formed ∧ pool.Consistent :=
  ⟨fun h => ⟨h.toFormed, h.keyImages, h.priorities, h.weight⟩,
    fun h => { h.1 with
      keyImages := h.2.keyImages, priorities := h.2.priorities, weight := h.2.weight }⟩

variable {pool : TxPool} {missing : List Hash}

/-! ## Key images -/

variable {images : List KeyImage} {index after : KeyImageIndex} {id : Hash}

/-- The key images of a transaction all go in exactly if they are different and free. -/
theorem insertLoop_eq_true_iff {kept : Bool} :
    insertLoop id kept images index = (true, after) ↔
      (images.Nodup ∧ ∀ image ∈ images, id ∉ index image ∧ (kept = true ∨ index image = [])) ∧
        ∀ image, after image = if image ∈ images then index image ++ [id] else index image := by
  induction images generalizing index with
  | nil => simp [insertLoop, funext_iff, eq_comm]
  | cons first images ih =>
    have hblocked (hnot : ¬(id ∉ index first ∧ (kept = true ∨ index first = []))) :
        (false, index) = (true, after) ↔ ((first :: images).Nodup ∧ ∀ image ∈ first :: images,
          id ∉ index image ∧ (kept = true ∨ index image = [])) ∧ ∀ image, after image =
            if image ∈ first :: images then index image ++ [id] else index image :=
      iff_of_false (by simp) fun h => hnot (h.1.2 first mem_cons_self)
    unfold insertLoop
    split
    · rename_i hspent
      exact hblocked fun h => by rcases h.2 with h | h <;> simp [h] at hspent
    · rename_i hkept
      split
      · rename_i hmem
        exact hblocked fun h => h.1 hmem
      · rename_i hfresh
        have hfirst : kept = true ∨ index first = [] := by
          simpa [or_iff_not_imp_left] using hkept
        rw [ih, nodup_cons, forall_mem_cons]
        by_cases hnot : first ∈ images
        · refine iff_of_false ?_ (fun h => h.1.1.1 hnot)
          rintro ⟨⟨-, hfree⟩, -⟩
          have hid := (hfree first hnot).1
          simp at hid
        · have hother (image : KeyImage) (himage : image ∈ images) :
              Function.update index first (index first ++ [id]) image = index image := by
            refine Function.update_of_ne ?_ _ _
            rintro rfl
            exact hnot himage
          refine and_congr ?_ (forall_congr' fun image => ?_)
          · simp +contextual [hother, hnot, hfresh, hfirst]
          · by_cases himage : image = first
            · subst himage
              simp [hnot]
            · simp [himage]

/-- The first key image of a transaction does not go in. -/
def BlockedAtFirst (id : Hash) (kept : Bool) (images : List KeyImage) (index : KeyImageIndex) :
    Prop :=
  ∃ first rest, images = first :: rest ∧
    ((kept = false ∧ index first ≠ []) ∨ id ∈ index first)

/-- The index only grows while key images go in. -/
theorem subset_insertLoop (id : Hash) (kept : Bool) (images : List KeyImage)
    (index : KeyImageIndex) (image : KeyImage) :
    index image ⊆ (insertLoop id kept images index).2 image := by
  induction images generalizing index with
  | nil => exact .refl _
  | cons first images ih =>
    unfold insertLoop
    split
    · exact .refl _
    · split
      · exact .refl _
      · refine Subset.trans ?_ (ih _)
        by_cases hfirst : image = first
        · subst hfirst
          rw [Function.update_self]
          exact subset_append_left _ _
        · rw [Function.update_of_ne hfirst]
          exact .refl _

/-- A transaction whose key images do not all go in: either the first one is blocked and the index
stays, or some key image went in that has to come out again. -/
theorem insertLoop_false {kept : Bool}
    (h : insertLoop id kept images index = (false, after)) :
    (BlockedAtFirst id kept images index ∧ after = index) ∨
      (¬BlockedAtFirst id kept images index ∧ ∃ image, id ∉ index image ∧ id ∈ after image) := by
  cases images with
  | nil => cases h
  | cons first images =>
    have hblocked : BlockedAtFirst id kept (first :: images) index ↔
        ((kept = false ∧ index first ≠ []) ∨ id ∈ index first) := by
      constructor
      · rintro ⟨first', rest, heq, hb⟩
        cases heq
        exact hb
      · exact fun hb => ⟨first, images, rfl, hb⟩
    unfold insertLoop at h
    split at h
    · rename_i hkept
      cases h
      exact .inl ⟨hblocked.mpr (.inl (by simpa using hkept)), rfl⟩
    · rename_i hkept
      split at h
      · rename_i hmem
        cases h
        exact .inl ⟨hblocked.mpr (.inr hmem), rfl⟩
      · rename_i hfresh
        refine .inr ⟨?_, first, hfresh, ?_⟩
        · rw [hblocked]
          rintro (hb | hb)
          · exact hkept (by simpa using hb)
          · exact hfresh hb
        · have hsub := subset_insertLoop id kept images
            (Function.update index first (index first ++ [id])) first
          rw [h] at hsub
          exact hsub (by simp)

/-- The key images of a transaction that is in the index all come out. -/
theorem removeLoop_eq (hnodup : images.Nodup) (hmem : ∀ image ∈ images, id ∈ index image) :
    removeLoop id images index = (true, fun image =>
      if image ∈ images then (index image).erase id else index image) := by
  induction images generalizing index with
  | nil => simp [removeLoop]
  | cons first images ih =>
    obtain ⟨hnot, hnodup⟩ := nodup_cons.mp hnodup
    have hother {image : KeyImage} (himage : image ∈ images) : image ≠ first := by
      rintro rfl
      exact hnot himage
    unfold removeLoop
    rw [if_neg (not_not.mpr (hmem first mem_cons_self)), ih hnodup]
    · congr 1
      funext image
      by_cases hfirst : image = first
      · subst hfirst
        simp [hnot]
      · simp [hfirst]
    · intro image himage
      rw [Function.update_of_ne (hother himage)]
      exact hmem image (mem_cons_of_mem _ himage)

/-! ## Removal -/

variable {id : Hash} {stored : PoolEntry}

/-- The hashes of a table without one transaction. -/
theorem keys_perm_cons_remove (h : (id, stored) ∈ pool.txs) :
    pool.txs.keys.Perm (id :: (pool.txs.remove id).keys) :=
  (KeyMap.toList_perm_cons_remove h).map Prod.fst

/-- The weight of a table without one transaction. -/
theorem tableWeight_remove (h : (id, stored) ∈ pool.txs) :
    pool.tableWeight = stored.info.weight +
      ((pool.txs.remove id).toList.map (fun e => e.2.info.weight)).sum := by
  have hperm := (KeyMap.toList_perm_cons_remove h).map fun e => e.2.info.weight
  rw [tableWeight, hperm.sum_eq]
  rfl

namespace SoundBut

/-- What a removal from a sound pool does. -/
theorem detach_eq (h : pool.SoundBut missing) (hstored : (id, stored) ∈ pool.txs) (weight : ℕ) :
    pool.detach id stored weight =
      { pool with
        txs := pool.txs.remove id
        txpoolWeight := pool.txpoolWeight - weight
        spentKeyImages := fun image =>
          if image ∈ stored.tx.keyImages then (pool.spentKeyImages image).erase id
          else pool.spentKeyImages image
        cookie := pool.cookie + 1 } := by
  have hremove := removeLoop_eq (h.images_nodup _ hstored)
    (fun image himage => (h.keyImages image id).mpr ⟨stored, hstored, himage⟩)
  unfold detach removeTransactionKeyimages
  dsimp only at hremove ⊢
  rw [hremove]

/-- The index after a removal. -/
theorem mem_index_detach (h : pool.SoundBut missing) (hstored : (id, stored) ∈ pool.txs)
    (image : KeyImage) (other : Hash) :
    other ∈ (if image ∈ stored.tx.keyImages then (pool.spentKeyImages image).erase id
      else pool.spentKeyImages image) ↔ other ≠ id ∧ other ∈ pool.spentKeyImages image := by
  split
  · exact (h.index_nodup image).mem_erase_iff
  · rename_i hnot
    refine (and_iff_right_of_imp ?_).symm
    rintro hother rfl
    obtain ⟨stored', hstored', himage⟩ := (h.keyImages image other).mp hother
    rw [KeyMap.value_unique hstored' hstored] at himage
    exact hnot himage

variable {weight : ℕ}

/-- A transaction that is out of the order is removed from the rest. -/
theorem detach (h : pool.SoundBut (id :: missing)) (hstored : (id, stored) ∈ pool.txs)
    (hweight : weight = stored.info.weight) : (pool.detach id stored weight).SoundBut missing := by
  rw [h.detach_eq hstored]
  refine { id_eq := ?_, weight_eq := ?_, images_nodup := ?_, index_nodup := ?_, keyImages := ?_,
           priorities := ?_, weight := ?_ }
  · intro e he
    exact h.id_eq e (KeyMap.mem_remove.mp he).1
  · intro e he
    exact h.weight_eq e (KeyMap.mem_remove.mp he).1
  · intro e he
    exact h.images_nodup e (KeyMap.mem_remove.mp he).1
  · intro image
    dsimp only
    split
    · exact (h.index_nodup image).erase id
    · exact h.index_nodup image
  · intro image other
    rw [h.mem_index_detach hstored, h.keyImages image other]
    constructor
    · rintro ⟨hne, stored', hstored', himage⟩
      exact ⟨stored', KeyMap.mem_remove.mpr ⟨hstored', hne⟩, himage⟩
    · rintro ⟨stored', hstored', himage⟩
      obtain ⟨hmem, hne⟩ := KeyMap.mem_remove.mp hstored'
      exact ⟨hne, stored', hmem, himage⟩
  · exact (h.priorities.trans (keys_perm_cons_remove hstored)).cons_inv
  · have htotal := tableWeight_remove hstored
    have hpool := h.weight
    change pool.txpoolWeight - weight =
      ((pool.txs.remove id).toList.map (fun e => e.2.info.weight)).sum
    omega

variable {entry : PriorityEntry}

section

variable (h : pool.SoundBut missing)

include h

/-- An entry is taken out of the order. -/
theorem eraseEntry (hentry : entry ∈ pool.txsByPriority) :
    (pool.eraseEntry entry).SoundBut (entry.id :: missing) := by
  refine { h with priorities := ?_ }
  have hperm := (OrdSet.toList_perm_cons_erase hentry).map PriorityEntry.id
  refine .trans ?_ h.priorities
  exact (perm_middle.symm).trans (hperm.symm.append_left missing)

/-- Every transaction that is in the order is in the table. -/
theorem stored_of_mem (hentry : entry ∈ pool.txsByPriority) :
    ∃ stored, (entry.id, stored) ∈ pool.txs := by
  have hkeys : entry.id ∈ pool.txs.keys :=
    h.priorities.mem_iff.mp
      (mem_append_right _ (mem_map.mpr ⟨entry, hentry, rfl⟩))
  obtain ⟨⟨id, stored⟩, hstored, rfl⟩ := mem_map.mp hkeys
  exact ⟨stored, hstored⟩

/-- Every transaction of the table that is not missing is found in the order. -/
theorem findInSorted (hstored : (id, stored) ∈ pool.txs) (hnot : id ∉ missing) :
    ∃ entry ∈ pool.txsByPriority, entry.id = id ∧ pool.findInSorted id = some entry := by
  have hmem : id ∈ missing ++ pool.txsByPriority.toList.map PriorityEntry.id :=
    h.priorities.mem_iff.mpr (mem_map.mpr ⟨(id, stored), hstored, rfl⟩)
  have hmem := (mem_append.mp hmem).resolve_left hnot
  obtain ⟨other, hother, hid⟩ := mem_map.mp hmem
  unfold TxPool.findInSorted
  cases hfind : pool.txsByPriority.toList.find? (fun entry => entry.id = id) with
  | none =>
    have hnone := find?_eq_none.mp hfind other hother
    simp [hid] at hnone
  | some entry =>
    exact ⟨entry, mem_of_find?_eq_some hfind, by simpa using find?_some hfind, rfl⟩

/-- A removal with the erasure of its entry keeps the pool sound. -/
theorem detach_eraseEntry (hentry : entry ∈ pool.txsByPriority)
    (hstored : (entry.id, stored) ∈ pool.txs) (hweight : weight = stored.info.weight) :
    ((pool.detach entry.id stored weight).eraseEntry entry).SoundBut missing := by
  have hcomm : (pool.detach entry.id stored weight).eraseEntry entry =
      (pool.eraseEntry entry).detach entry.id stored weight := by
    rw [h.detach_eq hstored, (h.eraseEntry hentry).detach_eq hstored]
    rfl
  rw [hcomm]
  exact (h.eraseEntry hentry).detach hstored hweight

end

/-- The same for an entry that is looked up. -/
theorem detach_eraseFound (h : pool.SoundBut []) (hstored : (id, stored) ∈ pool.txs)
    (hweight : weight = stored.info.weight) :
    ((pool.detach id stored weight).eraseFound id).SoundBut [] := by
  obtain ⟨entry, hentry, rfl, hfind⟩ := h.findInSorted hstored (not_mem_nil)
  have hsame : (pool.detach entry.id stored weight).findInSorted entry.id = some entry := by
    rw [h.detach_eq hstored]
    exact hfind
  unfold TxPool.eraseFound
  rw [hsame]
  exact h.detach_eraseEntry hentry hstored hweight

/-- Counters that no structure depends on. -/
theorem setCookie (h : pool.SoundBut missing) (cookie : ℕ) (timedOut : List Hash) :
    { pool with cookie, timedOutTransactions := timedOut }.SoundBut missing :=
  { h with }

/-! ## Operations that keep a pool sound -/

theorem takeTx (h : pool.SoundBut []) (id : Hash) : (pool.takeTx id).2.SoundBut [] := by
  unfold TxPool.takeTx
  cases hget : pool.txs.get? id with
  | none => exact h
  | some =>
    exact (h.detach_eraseFound (KeyMap.get?_eq_some_iff.mp hget) rfl).setCookie _ _

theorem removeInvalid (h : pool.SoundBut []) (e : Hash × PoolEntry) :
    (pool.removeInvalid e).SoundBut [] := by
  unfold TxPool.removeInvalid
  cases hget : pool.txs.get? e.1 with
  | none => exact h
  | some =>
    have hstored := KeyMap.get?_eq_some_iff.mp hget
    exact h.detach_eraseFound hstored (h.weight_eq _ hstored).symm

theorem validate (h : pool.SoundBut []) (env : PoolEnv) : (pool.validate env).SoundBut [] := by
  have hfold (l : List (Hash × PoolEntry)) {p : TxPool} (hp : p.SoundBut []) :
      (l.foldl TxPool.removeInvalid p).SoundBut [] := by
    induction l generalizing p with
    | nil => exact hp
    | cons e _ ih => exact ih (hp.removeInvalid e)
  have hstart : { pool with txpoolWeight := pool.tableWeight }.SoundBut [] :=
    { h with weight := rfl }
  unfold TxPool.validate
  dsimp only
  split
  · exact hfold _ hstart
  · exact (hfold _ hstart).setCookie _ _

/-- The order of the missing transactions does not matter. -/
theorem perm (h : pool.SoundBut missing) {missing' : List Hash} (hperm : missing'.Perm missing) :
    pool.SoundBut missing' :=
  { h with priorities := (hperm.append_right _).trans h.priorities }

/-- Through the first pass of `remove_stuck_transactions` the order loses the transactions. -/
theorem foldl_timeOut {ids : List Hash} (h : pool.SoundBut missing) (hnodup : ids.Nodup)
    (hstored : ∀ id ∈ ids, ∃ stored, (id, stored) ∈ pool.txs) (hnot : ∀ id ∈ ids, id ∉ missing) :
    (ids.foldl TxPool.timeOut pool).SoundBut (ids ++ missing) ∧
      (ids.foldl TxPool.timeOut pool).txs = pool.txs := by
  induction ids generalizing pool missing with
  | nil => exact ⟨h, rfl⟩
  | cons id _ ih =>
    obtain ⟨hfirst, hrestNodup⟩ := nodup_cons.mp hnodup
    obtain ⟨stored, hmem⟩ := hstored id mem_cons_self
    obtain ⟨entry, hentry, rfl, hfind⟩ := h.findInSorted hmem (hnot _ mem_cons_self)
    have hnext : (pool.timeOut entry.id).SoundBut (entry.id :: missing) := by
      unfold TxPool.timeOut TxPool.eraseFound
      rw [hfind]
      exact (h.eraseEntry hentry).setCookie _ _
    have htxs : (pool.timeOut entry.id).txs = pool.txs := by
      unfold TxPool.timeOut TxPool.eraseFound
      rw [hfind]
      rfl
    have hrest := ih hnext hrestNodup
      (fun id hid => htxs ▸ hstored id (mem_cons_of_mem _ hid))
      (fun id hid hmissing => by
        rcases mem_cons.mp hmissing with rfl | hmissing
        · exact hfirst hid
        · exact hnot id (mem_cons_of_mem _ hid) hmissing)
    exact ⟨hrest.1.perm perm_middle.symm, hrest.2.trans htxs⟩

/-- Through the second pass the table loses them. -/
theorem foldl_detachStuck {l : List (Hash × PoolEntry)} (h : pool.SoundBut (l.map Prod.fst))
    (hnodup : (l.map Prod.fst).Nodup) (hmem : ∀ e ∈ l, e ∈ pool.txs) :
    (l.foldl TxPool.detachStuck pool).SoundBut [] := by
  induction l generalizing pool with
  | nil => exact h
  | cons e _ ih =>
    obtain ⟨hfirst, hnodup⟩ := nodup_cons.mp hnodup
    have hstored : (e.1, e.2) ∈ pool.txs := hmem e mem_cons_self
    have hdetach : pool.detachStuck e = pool.detach e.1 e.2 e.2.info.weight := by
      unfold TxPool.detachStuck
      rw [KeyMap.get?_eq_some_iff.mpr hstored]
    rw [foldl_cons, hdetach]
    apply ih (h.detach hstored rfl) hnodup
    intro other hother
    rw [h.detach_eq hstored]
    refine KeyMap.mem_remove.mpr ⟨hmem other (mem_cons_of_mem _ hother), ?_⟩
    intro heq
    exact hfirst (heq ▸ mem_map.mpr ⟨other, hother, rfl⟩)

theorem removeStuckTransactions (h : pool.SoundBut []) (env : PoolEnv) :
    (pool.removeStuckTransactions env).SoundBut [] := by
  unfold TxPool.removeStuckTransactions
  dsimp only
  split
  · exact h
  have hsub {e : Hash × PoolEntry}
      (he : e ∈ pool.txs.toList.filter (fun e => isStuck env e.2.info)) : e ∈ pool.txs :=
    (mem_filter.mp he).1
  have hnodup : ((pool.txs.toList.filter (fun e => isStuck env e.2.info)).map Prod.fst).Nodup :=
    KeyMap.keys_nodup.sublist (filter_sublist.map _)
  obtain ⟨hfirst, htxs⟩ := h.foldl_timeOut hnodup
    (fun id hid => by
      obtain ⟨e, he, rfl⟩ := mem_map.mp hid
      exact ⟨e.2, hsub he⟩)
    (fun id _ => not_mem_nil)
  rw [append_nil] at hfirst
  have hsecond := foldl_detachStuck hfirst hnodup (fun e he => by
    rw [htxs]
    exact hsub he)
  exact hsecond.setCookie _ _

end SoundBut

end TxPool

end Xeqm.Pool
