import Xeqm.ServiceNodes.SwarmChanges

/-!
# The result of `calc_swarm_changes` is stable

A map that is settled and fed, or that has a single swarm, is left alone by
every round. On maps without empty swarms a call ends in such a map: the last
node that was placed was followed by a creation round, which leaves the excess
below the threshold. An empty swarm breaks this, because it is dissolved without
a creation round.
-/

namespace Xeqm.ServiceNodes

open Lib Tools List

variable {Key σ : Type} [DecidableEq Key] (rt : SwarmRuntime σ) {m : SwarmSnodeMap Key}

/-- The Robin Hood round takes nothing when no swarm starves, nor when the only
swarm does. -/
theorem robinHoodRound_eq_self (hone : m.size ≤ 1 ∨ Fed m) (rng : σ) :
    robinHoodRound rt (rt.sortBySize (swarmSizes m)) (rt.sortBySize (swarmSizes m)) m rng =
      .ok (m, rng) := by
  have hlength := length_sortBySize rt (m := m)
  have hmem (s : SwarmSize) := mem_sortBySize rt (m := m) (s := s)
  generalize rt.sortBySize (swarmSizes m) = sizes at hlength hmem ⊢
  cases sizes with
  | nil => rfl
  | cons s rest =>
    obtain ⟨e, he, hid, hsize⟩ := (hmem s).mp mem_cons_self
    by_cases hfed : minSwarmSize ≤ s.size
    · simp [robinHoodRound, hfed]
    · have hsingle : m.size ≤ 1 := hone.resolve_right (fun h => hfed (by
        have := h e he
        omega))
      have hrest : rest = [] := length_eq_zero_iff.mp (by
        rw [length_cons] at hlength
        omega)
      subst hrest
      have hlist : m.toList = [e] := by
        obtain ⟨a, ha⟩ := length_eq_one_iff.mp (show m.toList.length = 1 from hlength.symm)
        rw [OrdSet.mem_def, ha] at he
        rw [ha, mem_singleton.mp he]
      have hfind : m.find? s.swarmId.toNat = some e :=
        OrdSet.find?_eq_some_iff.mpr ⟨he, by rw [hid]⟩
      have hnone : (getExcessPool (stealingThreshold s) m 0).2 = 0 := by
        have hmin : minSwarmSize ≤ stealingThreshold s := le_max_left _ _
        have hpoor : ¬ stealingThreshold s < e.2.length := by omega
        simp [getExcessPool, hlist, hpoor, Nat.not_lt.mpr hmin]
      have hdeficit : 0 < sizeSub minSwarmSize e.2.length := by
        rw [sizeSub_of_le (by omega) (by decide)]
        omega
      have hsteal : stealLoop rt [s] s.swarmId minSwarmSize m rng = .ok (true, m, rng) := by
        have hidx : [s][percentileIndex stealingSwarmUpperPercentile [s]]? = some s := by
          simp [percentileIndex, sizeSub]
        rw [show minSwarmSize = 4 + 1 from rfl, stealLoop]
        simp only [hidx, hfind, hnone]
        rw [if_pos hdeficit]
      simp only [robinHoodRound, hfed, if_false, hsteal, Bind.bind, Except.bind]

/-- Settled maps are left alone. -/
theorem calcSwarmChanges_eq_self (hids : ∀ e ∈ m, e.1 ≠ unassignedSwarmId)
    (hquiet : ¬ Fed m ∨ Settled m) (hone : m.size ≤ 1 ∨ Fed m) (seed : UInt64) :
    calcSwarmChanges rt m seed = .ok m := by
  by_cases hzero : m.size = 0
  · simp [calcSwarmChanges, hzero]
  · have hnone : m.find? unassignedSwarmId.toNat = none :=
      OrdSet.find?_eq_none_iff.mpr fun e he heq => hids e he (UInt64.toNat_inj.mp heq)
    have herase : m.erase unassignedSwarmId.toNat = m := assignedSwarms_eq_self hids
    have hstart : takeUnassigned m = ([], m) := by
      simp only [takeUnassigned, hnone, herase, hzero, if_false, Option.map_none, Option.getD_none]
    simp only [calcSwarmChanges, hzero, if_false, hstart, assignSnodes,
      robinHoodRound_eq_self rt hone, createNewSwarmFromExcess_eq_self rt _ hquiet, Bind.bind,
      Except.bind]
    split
    · rename_i hmany
      have hfed : Fed m := hone.resolve_left (by omega)
      have hfind : m.toList.find? (fun e => decide (e.2.length < minSwarmSize)) = none :=
        find?_eq_none.mpr fun e he => by simpa using hfed e he
      simp only [dissolveLoop, hfind]
    · rfl

/-- On a map without empty swarms, a call that returns leaves one swarm or
swarms of at least the minimum size, and another call changes nothing. -/
theorem calcSwarmChanges_fixpoint (m m' : SwarmSnodeMap Key) (seed : UInt64)
    (hall : (snodes m).Nodup) (hlen : (snodes m).length < 2 ^ 64)
    (hfull : ∀ e ∈ assignedSwarms m, e.2 ≠ []) (hrun : calcSwarmChanges rt m seed = .ok m') :
    (m'.size = 1 ∨ ∀ e ∈ m', minSwarmSize ≤ e.2.length) ∧
      ∀ seed', calcSwarmChanges rt m' seed' = .ok m' := by
  have hlen' : (snodes m).length ≤ rngMax := by unfold rngMax; omega
  rcases Nat.eq_zero_or_pos m.size with hzero | hpos
  · have hm' : m = m' := by simpa [calcSwarmChanges, hzero] using hrun
    subst hm'
    exact ⟨.inr fun e he => absurd he (not_mem_of_size hzero e),
      fun seed' => by simp [calcSwarmChanges, hzero]⟩
  · obtain ⟨m₁, rng₁, hcalc, hcons, hsize, hquiet, hpop, _⟩ :=
      calcSwarmChanges_eq_dissolve rt hall hlen' hpos
    rw [hcalc] at hrun
    by_cases hmany : 1 < m₁.size
    · rw [if_pos hmany] at hrun
      have hnodes : ∀ e ∈ m₁, e.2 ≠ [] := (hpop hfull).resolve_left (by omega)
      have hne : snodes m ≠ [] := by
        obtain ⟨e, he⟩ := exists_mem_of_length_pos (show 0 < m₁.toList.length from
          lt_trans Nat.zero_lt_one hmany)
        intro hnil
        have hle := (length_le_snodes he).trans hcons.length_snodes_le
        rw [hnil] at hle
        exact hnodes e he (length_eq_zero_iff.mp (Nat.le_zero.mp hle))
      cases hloop : dissolveLoop rt (m₁.size + 1) m₁ rng₁ with
      | error => simp [hloop, Except.map] at hrun
      | ok r =>
        have hfill : minSwarmSize ≤ (snodes m).length := by
          by_contra hless
          exact dissolveLoop_ne_ok rt hall hne (not_le.mp hless) _ rng₁ hcons (by omega) r hloop
        obtain ⟨m₂, rng₂, hloop₂, hcons₂, hfed₂, hsettled₂⟩ := dissolveLoop_spec rt hall hlen'
          (.inr hfill) rng₁ hcons (Nat.lt_succ_of_le starvingCount_le_size)
        have hm' : m₂ = m' := by
          rw [hloop₂] at hrun
          exact Except.ok.inj hrun
        subst hm'
        exact ⟨.inr hfed₂, calcSwarmChanges_eq_self rt hcons₂.assigned
          (.inr (hsettled₂ hne (hpop hfull) hquiet)) (.inr hfed₂)⟩
    · have hm' : m₁ = m' := by
        rw [if_neg hmany] at hrun
        exact Except.ok.inj hrun
      subst hm'
      exact ⟨.inl (by omega), calcSwarmChanges_eq_self rt hcons.assigned hquiet (.inl (by omega))⟩

/-- A swarm of two nodes, a swarm of seven and one waiting node. -/
def smallAndWealthyMap : SwarmSnodeMap PublicKey :=
  ⟨[(3, [10, 11]), (4, [20, 21, 22, 23, 24, 25, 26]), (unassignedSwarmId, [30])], by decide⟩

/-- The waiting node joins the small swarm, and two wealthy nodes follow it. -/
def smallAndWealthyResult : SwarmSnodeMap PublicKey :=
  ⟨[(3, [10, 11, 30, 20, 21]), (4, [22, 23, 24, 25, 26])], by decide⟩

theorem calcSwarmChanges_smallAndWealthy :
    calcSwarmChanges firstDrawRuntime smallAndWealthyMap 0 = .ok smallAndWealthyResult ∧
      ∀ seed', calcSwarmChanges firstDrawRuntime smallAndWealthyResult seed' =
        .ok smallAndWealthyResult :=
  ⟨rfl, (calcSwarmChanges_fixpoint firstDrawRuntime smallAndWealthyMap smallAndWealthyResult 0
    (by decide) (by decide) (by decide) rfl).2⟩

/-- Fourteen nodes in one swarm, next to an empty swarm. -/
def emptySwarmMap : SwarmSnodeMap PublicKey :=
  ⟨[(1, [10, 11, 12, 13, 14, 15, 16, 17, 18, 19, 20, 21, 22, 23]), (2, [])], by decide⟩

/-- The empty swarm is dissolved and the other one kept as it is. -/
def emptySwarmResult : SwarmSnodeMap PublicKey :=
  ⟨[(1, [10, 11, 12, 13, 14, 15, 16, 17, 18, 19, 20, 21, 22, 23])], by decide⟩

/-- An empty swarm is dissolved without a creation round: the first call leaves
one swarm with an excess of nine, from which a second call founds a swarm. -/
theorem calcSwarmChanges_emptySwarm_not_fixpoint :
    calcSwarmChanges firstDrawRuntime emptySwarmMap 0 = .ok emptySwarmResult ∧
      calcSwarmChanges firstDrawRuntime emptySwarmResult 0 ≠ .ok emptySwarmResult :=
  ⟨rfl, by decide +kernel⟩

end Xeqm.ServiceNodes
