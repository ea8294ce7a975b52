import Xeqm.ServiceNodes.SwarmMoves

/-!
# Founding swarms and placing nodes

The inner loops of `calc_swarm_changes`. None of them throws or runs forever
while every node is listed once and there is a swarm to put nodes in, and each
keeps every node. `create_new_swarm_from_excess` ends with the excess below the
threshold unless a swarm starves; `assign_snodes` runs it after every push, so
it ends the same way once it has pushed a node.
-/

namespace Xeqm.ServiceNodes

open Lib Tools List

/-- Every swarm has the minimum size. -/
def Fed {Key : Type} (m : SwarmSnodeMap Key) : Prop := ∀ e ∈ m, minSwarmSize ≤ e.2.length

/-- The excess does not reach the threshold for a new swarm. -/
def Settled {Key : Type} (m : SwarmSnodeMap Key) : Prop := calcExcess m < calcThreshold m

/-- There is at most one swarm, or every swarm has a node. -/
def Populated {Key : Type} (m : SwarmSnodeMap Key) : Prop :=
  m.size ≤ 1 ∨ ∀ e ∈ m, e.2 ≠ []

/-- How many swarms are below the minimum size. -/
def starvingCount {Key : Type} (m : SwarmSnodeMap Key) : ℕ :=
  m.toList.countP (fun e => e.2.length < minSwarmSize)

variable {threshold excess : ℕ}

section

variable {Key : Type} {m : SwarmSnodeMap Key}

theorem hasStarvingSwarms_eq_false_iff : hasStarvingSwarms m = false ↔ Fed m := by
  simp [hasStarvingSwarms, Fed, OrdSet.mem_def]

theorem starvingCount_eq_zero_iff : starvingCount m = 0 ↔ Fed m := by
  simp [starvingCount, Fed, OrdSet.mem_def, countP_eq_zero]

theorem Fed.populated (hfed : Fed m) : Populated m := by
  refine .inr fun e he hnil => ?_
  have hsize := hfed e he
  simp [hnil, minSwarmSize] at hsize

/-- Swarms of the minimum size bound their number by the nodes. -/
theorem Fed.size_le (hfed : Fed m) : minSwarmSize * m.size ≤ (snodes m).length := by
  have h : (m.toList.map (fun _ => minSwarmSize)).sum ≤ (m.toList.map (fun e => e.2.length)).sum :=
    sum_le_sum fun e he => hfed e he
  simpa [snodes, length_flatMap, OrdSet.size, mul_comm] using h

/-- The excess is part of the nodes. -/
theorem calcExcess_le_length : calcExcess m ≤ (snodes m).length := by
  have h : (m.toList.map (fun e => e.2.length - excessBase)).sum ≤
      (m.toList.map (fun e => e.2.length)).sum :=
    sum_le_sum fun e _ => Nat.sub_le _ _
  simpa [snodes, length_flatMap, calcExcess] using h

/-- Some swarm is above the base size when there is excess. -/
theorem exists_of_calcExcess_pos (h : 0 < calcExcess m) : ∃ e ∈ m, excessBase < e.2.length := by
  by_contra hnone
  have hzero : calcExcess m = 0 := by
    refine sum_eq_zero fun n hn => ?_
    obtain ⟨e, he, rfl⟩ := mem_map.mp hn
    have : ¬ excessBase < e.2.length := fun hlt => hnone ⟨e, he, hlt⟩
    omega
  omega

/-- A swarm above a threshold puts its nodes into the pool. -/
theorem getExcessPool_ne_nil (hthreshold : minSwarmSize ≤ threshold)
    {e : SwarmId × List Key} (he : e ∈ m) (hlarge : threshold < e.2.length) :
    (getExcessPool threshold m excess).1 ≠ [] := by
  intro hnil
  obtain ⟨pk, hpk⟩ := exists_mem_of_length_pos (show 0 < e.2.length by omega)
  have hmem : (⟨pk, e.1⟩ : ExcessPoolSnode Key) ∈ (getExcessPool threshold m excess).1 := by
    rw [getExcessPool, if_neg (by omega)]
    simp only [mem_flatMap, mem_filter, mem_map, decide_eq_true_eq]
    exact ⟨e, ⟨he, hlarge⟩, pk, hpk, rfl⟩
  rw [hnil] at hmem
  exact absurd hmem not_mem_nil

end

section Calls

variable {Key σ : Type} (rt : SwarmRuntime σ) {all held : List Key} {m : SwarmSnodeMap Key}

/-- A draw among existing alternatives returns one of them. -/
theorem uniform_spec (rng : σ) {n : ℕ} (hn : 0 < n) (hmax : n ≤ rngMax) :
    ∃ i rng', uniform rt rng n = .ok (i, rng') ∧ i < n := by
  obtain ⟨i, rng', hdraw, hi⟩ := uniformDistributionPortable_spec rt.rng rng hn hmax
  exact ⟨i, rng', by simp [uniform, hdraw], hi⟩

/-- Picking from a nonempty pool returns one of its nodes. -/
theorem pickFromExcessPool_spec {pool : List (ExcessPoolSnode Key)} (rng : σ)
    (hne : pool ≠ []) (hmax : pool.length ≤ rngMax) :
    ∃ snode rng', pickFromExcessPool rt pool rng = .ok (snode, rng') ∧ snode ∈ pool := by
  obtain ⟨i, rng', hdraw, hi⟩ := uniform_spec rt rng (length_pos_iff.mpr hne) hmax
  refine ⟨pool[i], rng', ?_, getElem_mem hi⟩
  simp [pickFromExcessPool, hdraw, hi, Bind.bind, Except.bind]

variable [DecidableEq Key]

section

variable (hall : all.Nodup) (hlen : all.length ≤ rngMax)

include hall hlen

/-- One theft from the pool of swarms above a threshold: it succeeds, takes one
node out of one such swarm, and keeps every node. -/
theorem take_spec (h : Conserves all held m)
    (hne : (getExcessPool threshold m excess).1 ≠ []) (rng : σ) :
    ∃ snode rng' m' e, pickFromExcessPool rt (getExcessPool threshold m excess).1 rng =
        .ok (snode, rng') ∧
      removeExcessSnodeFromSwarm snode m = .ok m' ∧ e ∈ m ∧ threshold < e.2.length ∧
      Replaces m m' e (e.1, e.2.filter (· ≠ snode.publicKey)) ∧
      (e.2.filter (· ≠ snode.publicKey)).length + 1 = e.2.length ∧
      Conserves all (held ++ [snode.publicKey]) m' := by
  have hpool := (length_getExcessPool_le (m := m) threshold excess).trans
    (h.length_snodes_le.trans hlen)
  obtain ⟨⟨pk, id⟩, rng', hpick, hsnode⟩ := pickFromExcessPool_spec rt rng hne hpool
  obtain ⟨e, he, rfl, hpk, hlarge⟩ := mem_getExcessPool hsnode
  obtain ⟨m', hremove, hrep⟩ := removeExcessSnodeFromSwarm_replaces he pk
  have hswarm := perm_cons_filter_ne (h.nodup_swarm hall he) hpk
  refine ⟨⟨pk, e.1⟩, rng', m', e, hpick, hremove, he, hlarge, hrep, ?_, h.take hall he hpk hrep⟩
  simpa using hswarm.length_eq.symm

/-- While the excess lasts, the nodes of a new swarm can be drawn: the excess
drops by one each time and no swarm falls below the minimum. -/
theorem drawNewSwarm_spec (missing : ℕ) :
    ∀ {drawn : List Key} {m : SwarmSnodeMap Key} (rng : σ), Conserves all (drawn ++ held) m →
      missing ≤ calcExcess m → Fed m →
      ∃ newSwarm m' rng', drawNewSwarm rt missing drawn m rng = .ok (some newSwarm, m', rng') ∧
        newSwarm.length = drawn.length + missing ∧ Conserves all (newSwarm ++ held) m' ∧
        Fed m' ∧ calcExcess m' + missing = calcExcess m ∧ m'.size = m.size := by
  induction missing with
  | zero =>
    intro drawn m rng h _ hfed
    exact ⟨drawn, m, rng, rfl, rfl, h, hfed, rfl, rfl⟩
  | succ missing ih =>
    intro drawn m rng h hexcess hfed
    obtain ⟨rich, hrich, hlarge⟩ := exists_of_calcExcess_pos (show 0 < calcExcess m by omega)
    have hpool : (getExcessPool excessBase m 0).1 ≠ [] :=
      getExcessPool_ne_nil (le_refl minSwarmSize) hrich hlarge
    obtain ⟨snode, rng', m', e, hpick, hremove, he, hbig, hrep, hshort, hcons⟩ :=
      take_spec rt hall hlen h hpool rng
    have hfed' : Fed m' := by
      intro y hy
      rcases hrep.mem_or hy with rfl | hy
      · simp only [excessBase, minSwarmSize] at hbig ⊢
        omega
      · exact hfed y hy
    have hexcess' : calcExcess m' + 1 = calcExcess m := by
      have hsum := hrep.sum_eq fun e => e.2.length - excessBase
      simp only [excessBase, minSwarmSize, calcExcess] at *
      omega
    have hcons' : Conserves all ((drawn ++ [snode.publicKey]) ++ held) m' :=
      hcons.of_perm (by
        rw [append_assoc, append_assoc]
        exact Perm.append_left drawn perm_append_comm)
    obtain ⟨newSwarm, m'', rng'', hdraw, hcount, hconserve, hfed'', hrest, hsize⟩ :=
      ih rng' hcons' (by omega) hfed'
    refine ⟨newSwarm, m'', rng'', ?_, ?_, hconserve, hfed'', by omega, ?_⟩
    · have hempty : (getExcessPool excessBase m 0).1.isEmpty = false := by simpa using hpool
      simp only [drawNewSwarm, hempty, hpick, hremove, hdraw, Bind.bind, Except.bind,
        Bool.false_eq_true, if_false]
    · simp only [length_append, length_singleton] at hcount
      omega
    · rw [hsize, hrep.size_eq]

/-- The outer loop of the swarm creation ends with the excess below the
threshold. Each round takes seven nodes of excess and brings back two, so the
excess bounds the number of rounds. -/
theorem createSwarmsLoop_spec (fuel : ℕ) :
    ∀ {m : SwarmSnodeMap Key} (rng : σ), calcExcess m < fuel → Conserves all held m → Fed m →
      ∃ m' rng', createSwarmsLoop rt fuel m rng = .ok (m', rng') ∧ Conserves all held m' ∧
        Fed m' ∧ Settled m' ∧ m.size ≤ m'.size := by
  induction fuel with
  | zero => intro m rng hfuel; omega
  | succ fuel ih =>
    intro m rng hfuel h hfed
    by_cases hround : calcThreshold m ≤ calcExcess m
    · obtain ⟨newSwarm, m₁, rng₁, hdraw, hcount, hcons, hfed₁, hexcess, hsize₁⟩ :=
        drawNewSwarm_spec rt hall hlen newSwarmSize rng (show Conserves all ([] ++ held) m from h)
          (by unfold calcThreshold at hround; omega) hfed
      have hroom : m₁.size < 2 ^ 64 - 1 := by
        have hbound := hfed₁.size_le.trans (hcons.length_snodes_le.trans hlen)
        simp only [minSwarmSize, rngMax] at hbound
        omega
      obtain ⟨hreal, hfresh⟩ := getNewSwarmId_fresh hcons.assigned hroom
      have hcons₂ := hcons.found hreal hfresh
      set m₂ := m₁.insert (getNewSwarmId m₁, newSwarm) with hm₂
      have hperm : m₂.toList.Perm ((getNewSwarmId m₁, newSwarm) :: m₁.toList) :=
        OrdSet.toList_insert_perm fun e he heq => hfresh e he (UInt64.toNat_inj.mp heq)
      have hfed₂ : Fed m₂ := by
        intro y hy
        rcases mem_cons.mp (hperm.mem_iff.mp hy) with rfl | hy
        · simp [hcount, newSwarmSize]
        · exact hfed₁ y hy
      have hexcess₂ : calcExcess m₂ = newSwarmSize - excessBase + calcExcess m₁ := by
        rw [calcExcess, (hperm.map _).sum_eq]
        simp [calcExcess, hcount]
      have hsize₂ : m₂.size = m₁.size + 1 := by
        simpa [OrdSet.size] using hperm.length_eq
      simp only [newSwarmSize, excessBase, minSwarmSize, idealSwarmMargin] at hexcess hexcess₂
      obtain ⟨m', rng', hloop, hcons', hfed', hsettled, hsize'⟩ := ih rng₁ (by omega) hcons₂ hfed₂
      refine ⟨m', rng', ?_, hcons', hfed', hsettled, by omega⟩
      simp only [createSwarmsLoop, hround, if_true, hdraw, Bind.bind, Except.bind]
      exact hloop
    · exact ⟨m, rng, by simp [createSwarmsLoop, hround], h, hfed, not_le.mp hround, le_rfl⟩

end

/-- Nothing is founded while a swarm starves or the excess is low. -/
theorem createNewSwarmFromExcess_eq_self (rng : σ) (h : ¬ Fed m ∨ Settled m) :
    createNewSwarmFromExcess rt m rng = .ok (m, rng) := by
  unfold createNewSwarmFromExcess
  split
  · rfl
  rename_i hfed
  rw [Bool.not_eq_true, hasStarvingSwarms_eq_false_iff] at hfed
  have hsettled : ¬ calcThreshold m ≤ calcExcess m :=
    not_le.mpr (h.resolve_left (fun hstarve => hstarve hfed))
  simp [createSwarmsLoop, hsettled]

/-- `create_new_swarm_from_excess` returns and keeps every node. It leaves no more starving swarms
than before, and settles the map unless a swarm starves. Few nodes found no swarm. -/
theorem createNewSwarmFromExcess_spec (hall : all.Nodup) (hlen : all.length ≤ rngMax)
    (h : Conserves all held m) (rng : σ) :
    ∃ m' rng', createNewSwarmFromExcess rt m rng = .ok (m', rng') ∧ Conserves all held m' ∧
      m.size ≤ m'.size ∧ starvingCount m' ≤ starvingCount m ∧ (Populated m → Populated m') ∧
      (¬ Fed m' ∨ Settled m') ∧ (all.length < newSwarmSize → m'.size = m.size) := by
  by_cases hquiet : ¬ Fed m ∨ Settled m
  · exact ⟨m, rng, createNewSwarmFromExcess_eq_self rt rng hquiet, h, le_rfl, le_rfl, id, hquiet,
      fun _ => rfl⟩
  · have hfed : Fed m := by_contra (fun hstarve => hquiet (.inl hstarve))
    obtain ⟨m', rng', hloop, hcons, hfed', hsettled, hsize⟩ :=
      createSwarmsLoop_spec rt hall hlen (calcExcess m + 1) rng (Nat.lt_succ_self _) h hfed
    refine ⟨m', rng', ?_, hcons, hsize, ?_, fun _ => hfed'.populated, .inr hsettled,
      fun hfew => absurd (.inr ?_) hquiet⟩
    · rw [createNewSwarmFromExcess, hasStarvingSwarms_eq_false_iff.mpr hfed]
      simpa using hloop
    · rw [starvingCount_eq_zero_iff.mpr hfed']
      exact Nat.zero_le _
    · have hle := calcExcess_le_length.trans h.length_snodes_le
      unfold Settled calcThreshold
      omega

end Calls

end Xeqm.ServiceNodes
