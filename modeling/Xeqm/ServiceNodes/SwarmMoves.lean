import Xeqm.ServiceNodes.SwarmId
import Mathlib.Data.List.Count
import Mathlib.Algebra.Order.BigOperators.Group.List
import Mathlib.Tactic.Linarith

/-!
# Moving nodes between swarms

Every loop of the swarm code is made of three moves: push a node into a swarm,
take a node out of a wealthy swarm, found a swarm from nodes already taken.
`Conserves all held m` says that the nodes in hand and the nodes in the swarms
are together exactly `all`; each move keeps it. The moves also say which single
entry of the map they replace, from which all facts about sizes follow.
-/

namespace Xeqm.ServiceNodes

open Lib Tools List

section

variable {Key : Type} {m m' : SwarmSnodeMap Key}

/-- All nodes of the swarms. -/
def snodes (m : SwarmSnodeMap Key) : List Key := m.toList.flatMap Prod.snd

/-- The nodes in hand and in the swarms are exactly `all`, and no swarm uses the
reserved id. -/
structure Conserves (all held : List Key) (m : SwarmSnodeMap Key) : Prop where
  /-- Nothing is lost or duplicated. -/
  perm : (held ++ snodes m).Perm all
  /-- Every swarm is a real one. -/
  assigned : ∀ e ∈ m, e.1 ≠ unassignedSwarmId

/-- The map `m'` is `m` with the one entry `x` replaced by `x'`. -/
def Replaces (m m' : SwarmSnodeMap Key) (x x' : SwarmId × List Key) : Prop :=
  ∃ before after, m.toList = before ++ x :: after ∧ m'.toList = before ++ x' :: after

variable {x x' : SwarmId × List Key}

section

variable (h : Replaces m m' x x') {y : SwarmId × List Key}

include h

theorem Replaces.size_eq : m'.size = m.size := by
  obtain ⟨before, after, hm, hm'⟩ := h
  simp [OrdSet.size, hm, hm']

/-- The entries after a replacement are the new one and old ones. -/
theorem Replaces.mem_or (hy : y ∈ m') : y = x' ∨ y ∈ m := by
  obtain ⟨before, after, hm, hm'⟩ := h
  rw [OrdSet.mem_def, hm'] at hy
  rw [OrdSet.mem_def, hm]
  simp only [mem_append, mem_cons] at hy ⊢
  tauto

/-- A replacement leaves every other entry in place. -/
theorem Replaces.mem_of_ne (hy : y ∈ m) (hne : y ≠ x) : y ∈ m' := by
  obtain ⟨before, after, hm, hm'⟩ := h
  rw [OrdSet.mem_def, hm] at hy
  rw [OrdSet.mem_def, hm']
  simp only [mem_append, mem_cons] at hy ⊢
  tauto

theorem Replaces.new_mem : x' ∈ m' := by
  obtain ⟨before, after, _, hm'⟩ := h
  rw [OrdSet.mem_def, hm']
  simp

/-- A sum over the swarms changes by the replaced entry alone. -/
theorem Replaces.sum_eq (f : SwarmId × List Key → ℕ) :
    (m'.toList.map f).sum + f x = (m.toList.map f).sum + f x' := by
  obtain ⟨before, after, hm, hm'⟩ := h
  simp only [hm, hm', map_append, map_cons, sum_append, sum_cons]
  omega

/-- A condition that the new entry fails is met by no more entries than before. -/
theorem Replaces.countP_le (p : SwarmId × List Key → Bool) (hp : p x' = true → p x = true) :
    m'.toList.countP p ≤ m.toList.countP p := by
  obtain ⟨before, after, hm, hm'⟩ := h
  simp only [hm, hm', countP_append, countP_cons]
  by_cases hx : p x' = true
  · simp [hx, hp hx]
  · simp [hx]

end

/-- Pushing a node replaces its swarm's entry. -/
theorem pushSnode_replaces (hx : x ∈ m) (pk : Key) :
    Replaces m (pushSnode x.1 pk m) x (x.1, x.2 ++ [pk]) := by
  obtain ⟨before, after, hm, _, _, hmod⟩ := OrdSet.modify_split hx
  exact ⟨before, after, hm, hmod (fun e => (e.1, e.2 ++ [pk])) (fun _ => rfl)⟩

/-- The nodes of one swarm are among all nodes. -/
theorem Replaces.snodes_eq (h : Replaces m m' x x') :
    ∃ others, (snodes m).Perm (x.2 ++ others) ∧ (snodes m').Perm (x'.2 ++ others) := by
  obtain ⟨before, after, hm, hm'⟩ := h
  refine ⟨before.flatMap Prod.snd ++ after.flatMap Prod.snd, ?_, ?_⟩
  · simp only [snodes, hm, flatMap_append, flatMap_cons]
    exact perm_append_comm_assoc _ _ _
  · simp only [snodes, hm', flatMap_append, flatMap_cons]
    exact perm_append_comm_assoc _ _ _

variable {all held : List Key}

/-- What is in hand may be listed in any order. -/
theorem Conserves.of_perm {held' : List Key} (h : Conserves all held m)
    (hperm : held'.Perm held) : Conserves all held' m :=
  ⟨(hperm.append_right _).trans h.perm, h.assigned⟩

/-- The nodes in the swarms are no more than all nodes. -/
theorem Conserves.length_snodes_le (h : Conserves all held m) : (snodes m).length ≤ all.length := by
  have := h.perm.length_eq
  simp only [length_append] at this
  omega

/-- The nodes of a swarm are listed once when all nodes are. -/
theorem Conserves.nodup_swarm (hall : all.Nodup) (h : Conserves all held m) (hx : x ∈ m) :
    x.2.Nodup := by
  have hnodup : (held ++ snodes m).Nodup := h.perm.nodup_iff.mpr hall
  have hsub : x.2.Sublist (snodes m) := by
    obtain ⟨before, after, hm⟩ := append_of_mem hx
    simp only [snodes, hm, flatMap_append, flatMap_cons]
    exact (sublist_append_left _ _).trans (sublist_append_right _ _)
  exact (nodup_append.mp hnodup).2.1.sublist hsub

/-- A node of the excess pool belongs to a swarm above the threshold. -/
theorem mem_getExcessPool {threshold excess : ℕ} {snode : ExcessPoolSnode Key}
    (h : snode ∈ (getExcessPool threshold m excess).1) :
    ∃ e ∈ m, e.1 = snode.swarmId ∧ snode.publicKey ∈ e.2 ∧ threshold < e.2.length := by
  unfold getExcessPool at h
  split at h
  · simp at h
  simp only [mem_flatMap, mem_filter, mem_map, decide_eq_true_eq] at h
  obtain ⟨e, ⟨he, hlarge⟩, pk, hpk, rfl⟩ := h
  exact ⟨e, he, rfl, hpk, hlarge⟩

/-- The excess pool is no larger than the swarms together. -/
theorem length_getExcessPool_le (threshold excess : ℕ) :
    (getExcessPool threshold m excess).1.length ≤ (snodes m).length := by
  unfold getExcessPool
  split
  · simp
  · simp only [length_flatMap, length_map, snodes]
    exact ((filter_sublist).map _).sum_le_sum fun _ _ => Nat.zero_le _

variable [DecidableEq Key] {pk : Key}

/-- Removing a node from an existing swarm succeeds and replaces its entry. -/
theorem removeExcessSnodeFromSwarm_replaces (hx : x ∈ m) (pk : Key) :
    ∃ m', removeExcessSnodeFromSwarm ⟨pk, x.1⟩ m = .ok m' ∧
      Replaces m m' x (x.1, x.2.filter (· ≠ pk)) := by
  have hfind : m.find? x.1.toNat = some x := OrdSet.find?_eq_some_iff.mpr ⟨hx, rfl⟩
  obtain ⟨before, after, hm, _, _, hmod⟩ := OrdSet.modify_split hx
  refine ⟨_, by simp only [removeExcessSnodeFromSwarm, hfind]; rfl, before, after, hm, ?_⟩
  exact hmod (fun e => (e.1, e.2.filter (· ≠ pk))) fun _ => rfl

/-- Removing the only copy of a node shortens its swarm by one. -/
theorem perm_cons_filter_ne {l : List Key} (hl : l.Nodup) (hpk : pk ∈ l) :
    l.Perm (pk :: l.filter (· ≠ pk)) := by
  have h := perm_cons_erase hpk
  rw [hl.erase_eq_filter] at h
  simpa [bne, Bool.beq_eq_decide_eq] using h

omit [DecidableEq Key] in
/-- Moving nodes between the hand and one swarm keeps every node. -/
theorem Conserves.replaces {held' swarm : List Key} (h : Conserves all held m) (hx : x ∈ m)
    (hrep : Replaces m m' x (x.1, swarm)) (hmoved : (held' ++ swarm).Perm (held ++ x.2)) :
    Conserves all held' m' := by
  obtain ⟨others, hm, hm'⟩ := hrep.snodes_eq
  refine ⟨?_, fun e he => ?_⟩
  · refine .trans ?_ h.perm
    refine (hm'.append_left held').trans (.trans ?_ (hm.append_left held).symm)
    simpa using hmoved.append_right others
  · rcases hrep.mem_or he with rfl | he
    · exact h.assigned x hx
    · exact h.assigned e he

omit [DecidableEq Key] in
/-- Pushing a node in hand to a swarm keeps every node. -/
theorem Conserves.push (h : Conserves all (pk :: held) m) (hx : x ∈ m) :
    Conserves all held (pushSnode x.1 pk m) := by
  refine h.replaces hx (pushSnode_replaces hx pk) ?_
  rw [← append_assoc]
  exact perm_append_singleton pk (held ++ x.2)

/-- Taking a node out of a swarm keeps every node: it is in hand afterwards. -/
theorem Conserves.take (hall : all.Nodup) (h : Conserves all held m) (hx : x ∈ m)
    (hpk : pk ∈ x.2) (hrep : Replaces m m' x (x.1, x.2.filter (· ≠ pk))) :
    Conserves all (held ++ [pk]) m' := by
  refine h.replaces hx hrep ?_
  rw [append_assoc]
  exact (perm_cons_filter_ne (h.nodup_swarm hall hx) hpk).symm.append_left held

/-- Founding a swarm from nodes in hand keeps every node. -/
theorem Conserves.found {newSwarm : List Key} {id : SwarmId}
    (h : Conserves all (newSwarm ++ held) m) (hid : id ≠ unassignedSwarmId)
    (hfresh : ∀ e ∈ m, e.1 ≠ id) : Conserves all held (m.insert (id, newSwarm)) := by
  have hkeys : ∀ e ∈ m, e.1.toNat ≠ id.toNat :=
    fun e he heq => hfresh e he (UInt64.toNat_inj.mp heq)
  have hperm : (m.insert (id, newSwarm)).toList.Perm ((id, newSwarm) :: m.toList) :=
    OrdSet.toList_insert_perm hkeys
  refine ⟨?_, fun e he => ?_⟩
  · refine .trans ?_ h.perm
    refine ((hperm.flatMap_right _).append_left held).trans (perm_iff_count.mpr fun y => ?_)
    simp only [snodes, flatMap_cons, count_append]
    omega
  · rcases OrdSet.mem_insert.mp he with he | ⟨rfl, _⟩
    · exact h.assigned e he
    · exact hid

/-- Dissolving a swarm keeps every node: its nodes are in hand afterwards. -/
theorem Conserves.dissolve (h : Conserves all held m) (hx : x ∈ m) :
    Conserves all (x.2 ++ held) (m.erase x.1.toNat) := by
  obtain ⟨before, after, hm, herase⟩ := OrdSet.erase_split hx
  refine ⟨?_, fun e he => h.assigned e (OrdSet.mem_erase.mp he).1⟩
  refine .trans ?_ h.perm
  refine perm_iff_count.mpr fun y => ?_
  simp only [snodes, hm, herase, flatMap_append, flatMap_cons, count_append]
  omega

end

end Xeqm.ServiceNodes
