import Xeqm.ServiceNodes.SwarmRounds
import Xeqm.Crypto.Types

/-!
# What `calc_swarm_changes` guarantees

The dissolving loop looks at the number of swarms only before it starts. When
the nodes cannot fill one swarm of the minimum size it therefore dissolves the
last swarm too, and placing that swarm's nodes throws. In every other case the
call returns with every node in exactly one swarm.
-/

namespace Xeqm.ServiceNodes

open Lib Tools List

section

variable {Key : Type} {all held : List Key} {m : SwarmSnodeMap Key} {e : SwarmId × List Key}

/-- The swarms of a map, without the waiting nodes. -/
def assignedSwarms (m : SwarmSnodeMap Key) : SwarmSnodeMap Key := m.erase unassignedSwarmId.toNat

theorem not_mem_of_size (h : m.size = 0) (e : SwarmId × List Key) : e ∉ m := by
  rw [OrdSet.mem_def, length_eq_zero_iff.mp h]
  exact not_mem_nil

/-- A map without swarms has no nodes. -/
theorem snodes_eq_nil_of_size (h : m.size = 0) : snodes m = [] := by
  have hnil : m.toList = [] := length_eq_zero_iff.mp h
  simp [snodes, hnil]

/-- The nodes of one swarm are among all nodes. -/
theorem length_le_snodes (he : e ∈ m) : e.2.length ≤ (snodes m).length := by
  obtain ⟨before, after, hm⟩ := append_of_mem he
  simp only [snodes, hm, flatMap_append, flatMap_cons, length_append]
  omega

/-- Dissolving a starving swarm leaves one starving swarm less. -/
theorem starvingCount_erase (he : e ∈ m)
    (hshort : e.2.length < minSwarmSize) :
    starvingCount (m.erase e.1.toNat) + 1 = starvingCount m := by
  obtain ⟨before, after, hm, herase⟩ := OrdSet.erase_split he
  simp only [starvingCount, hm, herase, countP_append, countP_cons, hshort, decide_true, if_true]
  omega

theorem starvingCount_le_size : starvingCount m ≤ m.size := countP_le_length

/-- Erasing the reserved id leaves a map without waiting nodes as it is. -/
theorem assignedSwarms_eq_self (h : ∀ e ∈ m, e.1 ≠ unassignedSwarmId) : assignedSwarms m = m := by
  ext e
  simp only [assignedSwarms, OrdSet.mem_erase, and_iff_left_iff_imp]
  exact fun he heq => h e he (UInt64.toNat_inj.mp heq)

/-- The result of a call has the nodes of its input, each in exactly one swarm,
and none waits for a swarm. -/
def KeepsNodes (m m' : SwarmSnodeMap Key) : Prop :=
  m'.find? unassignedSwarmId.toNat = none ∧ (snodes m').Perm (snodes m) ∧ (snodes m').Nodup

theorem Conserves.keepsNodes {m' : SwarmSnodeMap Key} (hall : (snodes m).Nodup)
    (h : Conserves (snodes m) [] m') : KeepsNodes m m' :=
  ⟨OrdSet.find?_eq_none_iff.mpr fun e he heq => h.assigned e he (UInt64.toNat_inj.mp heq),
    h.perm, h.perm.nodup_iff.mpr hall⟩

end

section

variable {Key σ : Type} [DecidableEq Key] (rt : SwarmRuntime σ)
variable {all : List Key} {m : SwarmSnodeMap Key}

/-- Taking the waiting nodes out keeps every node and leaves a swarm to use. -/
theorem takeUnassigned_spec (m : SwarmSnodeMap Key) :
    Conserves (snodes m) (takeUnassigned m).1 (takeUnassigned m).2 ∧
      (takeUnassigned m).2.size = max 1 (assignedSwarms m).size ∧
      ((∀ e ∈ assignedSwarms m, e.2 ≠ []) → Populated (takeUnassigned m).2) := by
  have hassigned : Conserves (snodes m) (takeUnassigned m).1 (assignedSwarms m) := by
    refine ⟨?_, fun e he heq => (OrdSet.mem_erase.mp he).2 (by rw [heq])⟩
    cases hfind : m.find? unassignedSwarmId.toNat with
    | none =>
      have hnone := OrdSet.find?_eq_none_iff.mp hfind
      rw [assignedSwarms_eq_self (fun e he heq => hnone e he (by rw [heq]))]
      simp [takeUnassigned, hfind]
    | some e =>
      obtain ⟨he, hid⟩ := OrdSet.find?_eq_some_iff.mp hfind
      obtain ⟨before, after, hm, herase⟩ := OrdSet.erase_split he
      rw [hid] at herase
      refine perm_iff_count.mpr fun y => ?_
      simp only [takeUnassigned, hfind, assignedSwarms, snodes, hm, herase, flatMap_append,
        flatMap_cons, count_append, Option.map_some, Option.getD_some]
      omega
  by_cases hzero : (assignedSwarms m).size = 0
  · have hstart : (takeUnassigned m).2 = (assignedSwarms m).insert (0, []) := by
      simp only [assignedSwarms] at hzero
      simp only [takeUnassigned, hzero, if_true, assignedSwarms]
      rfl
    have hfresh : ∀ e ∈ assignedSwarms m, e.1 ≠ 0 :=
      fun e he => absurd he (not_mem_of_size hzero e)
    have hsize : ((assignedSwarms m).insert (0, [])).size = 1 := by
      have hperm : ((assignedSwarms m).insert (0, [])).toList.Perm _ :=
        OrdSet.toList_insert_perm fun e he heq => hfresh e he (UInt64.toNat_inj.mp heq)
      rw [OrdSet.size, hperm.length_eq, length_cons]
      simpa [OrdSet.size] using hzero
    rw [hstart]
    have hheld : Conserves (snodes m) ([] ++ (takeUnassigned m).1) (assignedSwarms m) := hassigned
    refine ⟨hheld.found (by decide) hfresh, ?_, fun _ => ?_⟩
    · rw [hsize, hzero]; rfl
    · exact .inl hsize.le
  · have hstart : (takeUnassigned m).2 = assignedSwarms m := by
      simp only [assignedSwarms] at hzero
      simp only [takeUnassigned, hzero, if_false, assignedSwarms]
    rw [hstart]
    exact ⟨hassigned, by omega, fun hfull => .inr hfull⟩

/-- The dissolving loop returns when the nodes can fill a swarm, or when there
are none. It keeps every node and leaves no starving swarm. -/
theorem dissolveLoop_spec (hall : all.Nodup) (hlen : all.length ≤ rngMax)
    (hfill : all = [] ∨ minSwarmSize ≤ all.length) {fuel : ℕ} :
    ∀ {m : SwarmSnodeMap Key} (rng : σ), Conserves all [] m → starvingCount m < fuel →
      ∃ m' rng', dissolveLoop rt fuel m rng = .ok (m', rng') ∧ Conserves all [] m' ∧ Fed m' ∧
        (all ≠ [] → Populated m → (¬ Fed m ∨ Settled m) → Settled m') := by
  induction fuel with
  | zero => intro m rng _ hfuel; omega
  | succ fuel ih =>
    intro m rng h hfuel
    cases hfind : m.toList.find? (fun e => decide (e.2.length < minSwarmSize)) with
    | none =>
      have hfed : Fed m := fun e he => by simpa using find?_eq_none.mp hfind e he
      refine ⟨m, rng, by simp only [dissolveLoop, hfind], h, hfed, fun _ _ hquiet => ?_⟩
      exact hquiet.resolve_left fun hstarve => hstarve hfed
    | some e =>
      have he : e ∈ m := mem_of_find?_eq_some hfind
      have hshort : e.2.length < minSwarmSize := by simpa using find?_some hfind
      have hcount := starvingCount_erase he hshort
      have hcons : Conserves all (e.2 ++ []) (m.erase e.1.toNat) := h.dissolve he
      -- the other swarms hold the rest of the nodes, so there are some
      have hothers (hne : all ≠ []) : 0 < (m.erase e.1.toNat).size := by
        by_contra hnone
        have hnil := snodes_eq_nil_of_size (Nat.le_zero.mp (not_lt.mp hnone))
        have hlength := hcons.perm.length_eq
        rw [hnil] at hlength
        simp only [append_nil] at hlength
        have := hfill.resolve_left hne
        omega
      obtain ⟨m₁, rng₁, hassign, hcons₁, hstarve₁, hpop₁, hquiet₁⟩ :
          ∃ m₁ rng₁, assignSnodes rt decommissionedRedistributionLowerPercentile e.2
              (m.erase e.1.toNat) rng = .ok (m₁, rng₁) ∧ Conserves all [] m₁ ∧
            starvingCount m₁ ≤ starvingCount (m.erase e.1.toNat) ∧
            (Populated (m.erase e.1.toNat) → Populated m₁) ∧
            (e.2 ≠ [] → ¬ Fed m₁ ∨ Settled m₁) := by
        by_cases hempty : e.2 = []
        · rw [hempty] at hcons ⊢
          exact ⟨_, rng, rfl, hcons, le_rfl, id, fun hne => absurd rfl hne⟩
        · have hne : all ≠ [] := by
            intro hnil
            have hlength := hcons.perm.length_eq
            have hpos := length_pos_iff.mpr hempty
            simp only [hnil, append_nil, length_append, length_nil] at hlength
            omega
          obtain ⟨m₁, rng₁, hassign, hcons₁, _, hstarve₁, hpop₁, hquiet₁, _⟩ :=
            assignSnodes_spec rt hall hlen
              (show decommissionedRedistributionLowerPercentile ≤ 100 by decide) e.2 rng hcons
              (hothers hne)
          exact ⟨m₁, rng₁, hassign, hcons₁, hstarve₁, hpop₁, hquiet₁⟩
      obtain ⟨m', rng', hloop, hcons', hfed', hsettled'⟩ := ih rng₁ hcons₁ (by omega)
      refine ⟨m', rng', ?_, hcons', hfed', fun hne hpop _ => ?_⟩
      · simp only [dissolveLoop, hfind, hassign, Bind.bind, Except.bind]
        exact hloop
      · have hsize : (m.erase e.1.toNat).size + 1 = m.size := by
          obtain ⟨before, after, hm, herase⟩ := OrdSet.erase_split he
          simp only [OrdSet.size, hm, herase, length_append, length_cons]
          omega
        have hfull : ∀ y ∈ m, y.2 ≠ [] := by
          have := hothers hne
          exact hpop.resolve_left (by omega)
        refine hsettled' hne (hpop₁ (.inr fun y hy => ?_)) (hquiet₁ (hfull e he))
        exact hfull y (OrdSet.mem_erase.mp hy).1

/-- With no swarm left, placing a node throws. -/
theorem assignSnodes_error_of_size (percentile : ℕ) {pks : List Key} (hpks : pks ≠ [])
    (hsize : m.size = 0) (rng : σ) :
    assignSnodes rt percentile pks m rng = .error .outOfRange := by
  cases pks with
  | nil => exact absurd rfl hpks
  | cons =>
    have hsizes : rt.sortBySize (swarmSizes m) = [] :=
      length_eq_zero_iff.mp ((length_sortBySize rt).trans hsize)
    simp only [assignSnodes, hsizes, getElem?_nil]

/-- With nodes that cannot fill one swarm, the dissolving loop takes the swarms
apart down to the last one and never returns normally. -/
theorem dissolveLoop_ne_ok (hall : all.Nodup) (hne : all ≠ []) (hfew : all.length < minSwarmSize)
    (fuel : ℕ) :
    ∀ {m : SwarmSnodeMap Key} (rng : σ), Conserves all [] m → 0 < m.size →
      ∀ r, dissolveLoop rt fuel m rng ≠ .ok r := by
  have hlen : all.length ≤ rngMax := hfew.le.trans (by decide)
  induction fuel with
  | zero => intro m rng _ _ r hok; simp [dissolveLoop] at hok
  | succ fuel ih =>
    intro m rng h hpos r hok
    have hsmall : ∀ e ∈ m, e.2.length < minSwarmSize := fun e he =>
      (length_le_snodes he).trans_lt (h.length_snodes_le.trans_lt hfew)
    cases hfind : m.toList.find? (fun e => decide (e.2.length < minSwarmSize)) with
    | none =>
      obtain ⟨e, he⟩ := exists_mem_of_length_pos hpos
      simpa using find?_eq_none.mp hfind e he (by simpa using hsmall e he)
    | some e =>
      have he : e ∈ m := mem_of_find?_eq_some hfind
      have hcons : Conserves all (e.2 ++ []) (m.erase e.1.toNat) := h.dissolve he
      simp only [dissolveLoop, hfind] at hok
      rcases Nat.eq_zero_or_pos (m.erase e.1.toNat).size with hlast | hmore
      · have hnodes : e.2 ≠ [] := by
          intro hempty
          have hlength := hcons.perm.length_eq
          rw [snodes_eq_nil_of_size hlast, hempty] at hlength
          exact hne (length_eq_zero_iff.mp hlength.symm)
        rw [assignSnodes_error_of_size rt _ hnodes hlast] at hok
        simp [Bind.bind, Except.bind] at hok
      · obtain ⟨m₁, rng₁, hassign, hcons₁, hsize₁, _⟩ :=
          assignSnodes_spec rt hall hlen
            (show decommissionedRedistributionLowerPercentile ≤ 100 by decide) e.2 rng hcons hmore
        rw [hassign] at hok
        exact ih rng₁ hcons₁ (by omega) r hok

/-- Everything before the dissolving loop returns. -/
theorem calcSwarmChanges_eq_dissolve (hall : (snodes m).Nodup) (hlen : (snodes m).length ≤ rngMax)
    (hpos : 0 < m.size) {seed : UInt64} :
    ∃ m' rng', calcSwarmChanges rt m seed =
        (if 1 < m'.size then (dissolveLoop rt (m'.size + 1) m' rng').map Prod.fst else .ok m') ∧
      Conserves (snodes m) [] m' ∧ max 1 (assignedSwarms m).size ≤ m'.size ∧
      (¬ Fed m' ∨ Settled m') ∧ ((∀ e ∈ assignedSwarms m, e.2 ≠ []) → Populated m') ∧
      ((snodes m).length < newSwarmSize → m'.size = max 1 (assignedSwarms m).size) := by
  obtain ⟨hstart, hsize₀, hpop₀⟩ := takeUnassigned_spec m
  have hstart' : Conserves (snodes m) ((takeUnassigned m).1 ++ []) (takeUnassigned m).2 := by
    simpa using hstart
  obtain ⟨m₁, rng₁, hassign, hcons₁, hsize₁, _, hpop₁, _, hfew₁⟩ :=
    assignSnodes_spec rt hall hlen (show fillSwarmLowerPercentile ≤ 100 by decide)
      (takeUnassigned m).1 (rt.rng.seeded seed) hstart' (by omega)
  set sizes := rt.sortBySize (swarmSizes m₁) with hsizes
  have hcount : sizes.length = m₁.size := length_sortBySize rt
  have hidx : percentileIndex stealingSwarmUpperPercentile sizes < sizes.length :=
    percentileIndex_lt (by decide) (by omega) (hcount ▸ size_le_of_assigned hcons₁.assigned)
  have hids : (sizes.map SwarmSize.swarmId).Nodup := by
    refine ((rt.sortBySize_perm (swarmSizes m₁)).map _).nodup_iff.mpr ?_
    simp only [swarmSizes, map_map]
    exact pairwise_map.mpr (m₁.sorted.imp fun hlt heq =>
      hlt.ne (congrArg UInt64.toNat heq))
  obtain ⟨m₂, rng₂, hrobin, hcons₂, hsize₂, hpop₂⟩ :=
    robinHoodRound_spec rt hall hlen hidx sizes rng₁ hcons₁ hids
      (fun s hs _ => (mem_sortBySize rt).mp hs)
  obtain ⟨m₃, rng₃, hcreate, hcons₃, hsize₃, -, hpop₃, hquiet, hfew₃⟩ :=
    createNewSwarmFromExcess_spec rt hall hlen hcons₂ rng₂
  refine ⟨m₃, rng₃, ?_, hcons₃, by omega, hquiet, fun hfull => ?_, fun hfew => ?_⟩
  · simp only [calcSwarmChanges, if_neg hpos.ne', hassign, ← hsizes, hrobin, hcreate, Bind.bind,
      Except.bind]
    split
    · cases dissolveLoop rt (m₃.size + 1) m₃ rng₃ <;> rfl
    · rfl
  · exact hpop₃ (hpop₂ (hpop₁ (hpop₀ hfull)))
  · rw [hfew₃ hfew, hsize₂, hfew₁ hfew, hsize₀]

/-- `calc_swarm_changes` returns with every node in exactly one swarm, except
when there are at least two swarms and the nodes, though there are some, cannot
fill one: then it throws. -/
theorem calcSwarmChanges_keepsNodes_iff (m : SwarmSnodeMap Key) (seed : UInt64)
    (hall : (snodes m).Nodup) (hlen : (snodes m).length < 2 ^ 64) :
    (∃ m', calcSwarmChanges rt m seed = .ok m' ∧ KeepsNodes m m') ↔
      ¬ (2 ≤ (assignedSwarms m).size ∧ 0 < (snodes m).length ∧
        (snodes m).length < minSwarmSize) := by
  have hlen' : (snodes m).length ≤ rngMax := by unfold rngMax; omega
  rcases Nat.eq_zero_or_pos m.size with hzero | hpos
  · have hnil := snodes_eq_nil_of_size hzero
    have hids : ∀ e ∈ m, e.1 ≠ unassignedSwarmId :=
      fun e he => absurd he (not_mem_of_size hzero e)
    refine iff_of_true ⟨m, by simp [calcSwarmChanges, hzero], ?_⟩ (by simp [hnil])
    exact Conserves.keepsNodes hall ⟨Perm.refl _, hids⟩
  · obtain ⟨m', rng', hcalc, hcons, hsize, hquiet, _, hfew⟩ :=
      calcSwarmChanges_eq_dissolve rt hall hlen' hpos
    rw [hcalc]
    by_cases hmany : 1 < m'.size
    · rw [if_pos hmany]
      by_cases hfill : snodes m = [] ∨ minSwarmSize ≤ (snodes m).length
      · obtain ⟨m'', rng'', hloop, hcons'', _⟩ := dissolveLoop_spec rt hall hlen' hfill rng' hcons
          (Nat.lt_succ_of_le starvingCount_le_size)
        refine iff_of_true ⟨m'', by rw [hloop]; rfl, hcons''.keepsNodes hall⟩ ?_
        rintro ⟨_, hsome, hless⟩
        rcases hfill with hnil | henough
        · simp [hnil] at hsome
        · omega
      · have hne : snodes m ≠ [] := fun hnil => hfill (.inl hnil)
        have hless : (snodes m).length < minSwarmSize := by
          by_contra henough
          exact hfill (.inr (not_lt.mp henough))
        have hfew' := hfew (hless.trans (by decide))
        refine iff_of_false ?_ (not_not.mpr ⟨by omega, length_pos_iff.mpr hne, hless⟩)
        rintro ⟨m'', hrun, _⟩
        cases hloop : dissolveLoop rt (m'.size + 1) m' rng' with
        | error => simp [hloop, Except.map] at hrun
        | ok r => exact dissolveLoop_ne_ok rt hall hne hless _ rng' hcons (by omega) r hloop
    · rw [if_neg hmany]
      refine iff_of_true ⟨m', rfl, hcons.keepsNodes hall⟩ ?_
      rintro ⟨htwo, _⟩
      omega

end

/-- One swarm of two nodes and one node that waits for a swarm. -/
def oneSwarmMap : SwarmSnodeMap PublicKey :=
  ⟨[(3, [10, 11]), (unassignedSwarmId, [12])], by decide⟩

/-- Two swarms of one node each. -/
def twoSmallSwarmsMap : SwarmSnodeMap PublicKey := ⟨[(1, [10]), (2, [11])], by decide⟩

theorem calcSwarmChanges_oneSwarmMap : (snodes oneSwarmMap).Nodup ∧
    (snodes oneSwarmMap).length < 2 ^ 64 ∧
    ∃ m', calcSwarmChanges firstDrawRuntime oneSwarmMap 0 = .ok m' ∧ KeepsNodes oneSwarmMap m' :=
  ⟨by decide, by decide, (calcSwarmChanges_keepsNodes_iff firstDrawRuntime oneSwarmMap 0
    (by decide) (by decide)).mpr (by decide)⟩

/-- With two swarms of one node each the call throws: both swarms are dissolved,
and the nodes of the second have nowhere to go. -/
theorem calcSwarmChanges_twoSmallSwarms_throws :
    (snodes twoSmallSwarmsMap).Nodup ∧
      calcSwarmChanges firstDrawRuntime twoSmallSwarmsMap 0 = .error .outOfRange :=
  ⟨by decide, rfl⟩

end Xeqm.ServiceNodes
