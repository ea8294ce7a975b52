import Xeqm.ServiceNodes.SwarmCreation

/-!
# The rounds of `calc_swarm_changes`

Placing nodes among the smallest swarms, the Robin Hood round, and the loop that
dissolves starving swarms. Each keeps every node. The first two return whenever
there is a swarm; the dissolving loop has to keep one alive, which it does
exactly when the nodes fill a swarm of the minimum size.
-/

namespace Xeqm.ServiceNodes

open Lib Tools List

/-- Real swarm ids are fewer than the unsigned 64-bit numbers. -/
theorem size_le_of_assigned {Key : Type} {m : SwarmSnodeMap Key}
    (h : ∀ e ∈ m, e.1 ≠ unassignedSwarmId) : m.size ≤ rngMax := by
  have hnodup : (m.toList.map (fun e => e.1.toNat)).Nodup :=
    pairwise_map.mpr (m.sorted.imp (fun hlt => hlt.ne))
  have hsub : m.toList.map (fun e => e.1.toNat) ⊆ List.range rngMax := by
    intro n hn
    obtain ⟨e, he, rfl⟩ := mem_map.mp hn
    have := le_maxId (h e he)
    simp only [mem_range, rngMax]
    omega
  have := (subperm_of_subset hnodup hsub).length_le
  simpa [OrdSet.size] using this

/-- Subtraction of sizes is exact where it does not go below zero. -/
theorem sizeSub_of_le {a b : ℕ} (hle : b ≤ a) (hmax : a ≤ rngMax) : sizeSub a b = a - b := by
  unfold sizeSub rngMax at *
  omega

variable {sizes : List SwarmSize} {percentile : ℕ}

/-- A percentile index points into the list of sizes. -/
theorem percentileIndex_lt (hp : percentile ≤ 100) (hpos : 0 < sizes.length)
    (hmax : sizes.length ≤ rngMax) :
    percentileIndex percentile sizes < sizes.length := by
  have hpred : sizeSub sizes.length 1 = sizes.length - 1 := sizeSub_of_le hpos hmax
  have hmul : percentile * (sizes.length - 1) ≤ 100 * (sizes.length - 1) :=
    Nat.mul_le_mul_right _ hp
  have hmod := Nat.mod_le (percentile * (sizes.length - 1)) (2 ^ 64)
  unfold percentileIndex
  rw [hpred]
  omega

/-- The upper end of a run of equal sizes points into the list of sizes. -/
theorem upperIndex_lt {percentileIdx percentileValue : ℕ} (hpos : 0 < sizes.length)
    (hmax : sizes.length ≤ rngMax) :
    upperIndex sizes percentileIdx percentileValue < sizes.length := by
  unfold upperIndex
  split
  · rename_i i hfind
    have hmem := mem_of_find?_eq_some hfind
    rw [mem_range'_1] at hmem
    omega
  · rw [sizeSub_of_le hpos hmax]
    omega

section

variable {Key σ : Type} (rt : SwarmRuntime σ) {all held : List Key} {m : SwarmSnodeMap Key}

/-- `calc_swarm_sizes` lists every swarm. -/
theorem mem_sortBySize {s : SwarmSize} :
    s ∈ rt.sortBySize (swarmSizes m) ↔ ∃ e ∈ m, e.1 = s.swarmId ∧ e.2.length = s.size := by
  rw [(rt.sortBySize_perm _).mem_iff, swarmSizes, mem_map]
  constructor
  · rintro ⟨e, he, rfl⟩
    exact ⟨e, he, rfl, rfl⟩
  · rintro ⟨e, he, hid, hsize⟩
    exact ⟨e, he, by rw [hid, hsize]⟩

theorem length_sortBySize : (rt.sortBySize (swarmSizes m)).length = m.size := by
  rw [(rt.sortBySize_perm _).length_eq]
  simp [swarmSizes, OrdSet.size]

/-- A pool with excess has nodes. -/
theorem getExcessPool_ne_nil_of_excess {threshold : ℕ} (hthreshold : minSwarmSize ≤ threshold)
    (hexcess : 0 < (getExcessPool threshold m 0).2) : (getExcessPool threshold m 0).1 ≠ [] := by
  rw [getExcessPool, if_neg (by omega)] at hexcess
  obtain ⟨n, hn, _⟩ := exists_mem_ne_zero_of_sum_ne_zero (Nat.pos_iff_ne_zero.mp hexcess)
  obtain ⟨e, he, _⟩ := mem_map.mp hn
  obtain ⟨hmem, hlarge⟩ := mem_filter.mp he
  exact getExcessPool_ne_nil hthreshold hmem (by simpa using hlarge)

variable [DecidableEq Key]

section

variable (hall : all.Nodup) (hlen : all.length ≤ rngMax)

include hall hlen

/-- `assign_snodes` returns and keeps every node when there is a swarm. It never
leaves more starving swarms, and it ends settled unless a swarm starves. -/
theorem assignSnodes_spec (hp : percentile ≤ 100) (pks : List Key) :
    ∀ {m : SwarmSnodeMap Key} (rng : σ), Conserves all (pks ++ held) m → 0 < m.size →
      ∃ m' rng', assignSnodes rt percentile pks m rng = .ok (m', rng') ∧
        Conserves all held m' ∧ m.size ≤ m'.size ∧ starvingCount m' ≤ starvingCount m ∧
        (Populated m → Populated m') ∧ (pks ≠ [] → ¬ Fed m' ∨ Settled m') ∧
        (all.length < newSwarmSize → m'.size = m.size) := by
  induction pks with
  | nil =>
    intro m rng h _
    exact ⟨m, rng, rfl, h, le_rfl, le_rfl, id, fun hne => absurd rfl hne, fun _ => rfl⟩
  | cons pk rest ih =>
    intro m rng h hpos
    set sizes := rt.sortBySize (swarmSizes m) with hsizes
    have hcount : sizes.length = m.size := length_sortBySize rt
    have hmax : sizes.length ≤ rngMax := hcount ▸ size_le_of_assigned h.assigned
    have hidx : percentileIndex percentile sizes < sizes.length :=
      percentileIndex_lt hp (by omega) hmax
    set value := (sizes[percentileIndex percentile sizes]).size with hvalue
    have hupper : upperIndex sizes (percentileIndex percentile sizes) value < sizes.length :=
      upperIndex_lt (by omega) hmax
    obtain ⟨i, rng₁, hdraw, hi⟩ := uniform_spec rt rng
      (Nat.succ_pos (upperIndex sizes (percentileIndex percentile sizes) value)) (by omega)
    have hi' : i < sizes.length := by omega
    obtain ⟨e, he, hid, _⟩ := (mem_sortBySize rt).mp (getElem_mem hi')
    have hfind : m.find? e.1.toNat = some e := OrdSet.find?_eq_some_iff.mpr ⟨he, rfl⟩
    have hrep := pushSnode_replaces he pk
    have hpush : Conserves all (rest ++ held) (pushSnode e.1 pk m) := h.push he
    obtain ⟨m₂, rng₂, hcreate, hcons₂, hsize₂, hstarve₂, hpop₂, hquiet, hsmall₂⟩ :=
      createNewSwarmFromExcess_spec rt hall hlen hpush rng₁
    rw [hrep.size_eq] at hsize₂
    obtain ⟨m', rng', hassign, hcons', hsize', hstarve', hpop', hquiet', hsmall'⟩ :=
      ih rng₂ hcons₂ (by omega)
    refine ⟨m', rng', ?_, hcons', by omega, hstarve'.trans (hstarve₂.trans ?_),
      fun hpop => hpop' (hpop₂ ?_), fun _ => ?_, fun hfew => ?_⟩
    · have hentry : sizes[percentileIndex percentile sizes]? =
          some sizes[percentileIndex percentile sizes] := getElem?_eq_getElem hidx
      have htarget : sizes[i]? = some sizes[i] := getElem?_eq_getElem hi'
      simp only [assignSnodes, ← hsizes, hentry, ← hvalue, hdraw, htarget, ← hid, hfind, hcreate,
        Bind.bind, Except.bind]
      exact hassign
    · refine hrep.countP_le _ (fun hshort => ?_)
      simp only [length_append, length_singleton, decide_eq_true_eq] at hshort ⊢
      omega
    · rcases hpop with hone | hall'
      · exact .inl (by rw [hrep.size_eq]; exact hone)
      · refine .inr (fun y hy => ?_)
        rcases hrep.mem_or hy with rfl | hy
        · simp
        · exact hall' y hy
    · cases rest with
      | nil =>
        obtain ⟨rfl, rfl⟩ := Prod.mk.inj (Except.ok.inj hassign)
        exact hquiet
      | cons => exact hquiet' (cons_ne_nil _ _)
    · rw [hsmall' hfew, hsmall₂ hfew, hrep.size_eq]

section

variable (hidx : percentileIndex stealingSwarmUpperPercentile sizes < sizes.length)

include hidx

/-- Feeding one starving swarm returns and keeps every node. It touches only
that swarm and swarms above the minimum size. -/
theorem stealLoop_spec (fuel : ℕ) :
    ∀ {m : SwarmSnodeMap Key} {poor : SwarmId × List Key} (rng : σ), Conserves all [] m →
      poor ∈ m → poor.2.length < minSwarmSize → minSwarmSize ≤ fuel + poor.2.length →
      ∃ stop m' rng', stealLoop rt sizes poor.1 fuel m rng = .ok (stop, m', rng') ∧
        Conserves all [] m' ∧ m'.size = m.size ∧
        (∀ y ∈ m, y.1 ≠ poor.1 → y.2.length < minSwarmSize → y ∈ m') ∧
        (Populated m → Populated m') := by
  induction fuel with
  | zero => intro m poor rng _ _ hshort hfuel; omega
  | succ fuel ih =>
    intro m poor rng h hpoor hshort hfuel
    have hfind : m.find? poor.1.toNat = some poor := OrdSet.find?_eq_some_iff.mpr ⟨hpoor, rfl⟩
    have hentry : sizes[percentileIndex stealingSwarmUpperPercentile sizes]? =
        some sizes[percentileIndex stealingSwarmUpperPercentile sizes] :=
      getElem?_eq_getElem hidx
    set threshold := stealingThreshold sizes[percentileIndex stealingSwarmUpperPercentile sizes]
      with hthreshold
    have hmin : minSwarmSize ≤ threshold := le_max_left _ _
    have hdeficit : sizeSub minSwarmSize poor.2.length = minSwarmSize - poor.2.length :=
      sizeSub_of_le hshort.le (by decide)
    by_cases hpoorPool : (getExcessPool threshold m 0).2 < minSwarmSize - poor.2.length
    · refine ⟨true, m, rng, ?_, h, rfl, fun y hy _ _ => hy, id⟩
      simp only [stealLoop, hfind, hentry, ← hthreshold, hdeficit, hpoorPool, if_true]
    · have hpool := getExcessPool_ne_nil_of_excess hmin
        (show 0 < (getExcessPool threshold m 0).2 by omega)
      obtain ⟨snode, rng₁, m₁, rich, hpick, hremove, hrich, hbig, hrep, hrest, hcons⟩ :=
        take_spec rt hall hlen h hpool rng
      have hne : poor ≠ rich := fun heq => by rw [heq] at hshort; omega
      have hpoor₁ : poor ∈ m₁ := hrep.mem_of_ne hpoor hne
      have hrep₂ := pushSnode_replaces hpoor₁ snode.publicKey
      set m₂ := pushSnode poor.1 snode.publicKey m₁ with hm₂
      have hcons₂ : Conserves all [] m₂ := Conserves.push hcons hpoor₁
      have hfind₂ : m₂.find? poor.1.toNat = some (poor.1, poor.2 ++ [snode.publicKey]) :=
        OrdSet.find?_eq_some_iff.mpr ⟨hrep₂.new_mem, rfl⟩
      have hsize₂ : m₂.size = m.size := by rw [hrep₂.size_eq, hrep.size_eq]
      have hframe₂ : ∀ y ∈ m, y.1 ≠ poor.1 → y.2.length < minSwarmSize → y ∈ m₂ := by
        intro y hy hother hsmall
        refine hrep₂.mem_of_ne (hrep.mem_of_ne hy (fun heq => ?_)) fun heq => ?_
        · rw [heq] at hsmall; omega
        · exact hother (by rw [heq])
      have hpop₂ : Populated m → Populated m₂ := by
        rintro (hone | hfull)
        · exact .inl (by rw [hsize₂]; exact hone)
        · refine .inr (fun y hy => ?_)
          rcases hrep₂.mem_or hy with rfl | hy
          · simp
          · rcases hrep.mem_or hy with rfl | hy
            · refine ne_nil_of_length_pos ?_
              simp only [minSwarmSize] at hmin ⊢
              omega
            · exact hfull y hy
      have hrun : stealLoop rt sizes poor.1 (fuel + 1) m rng =
          if poor.2.length + 1 < minSwarmSize then stealLoop rt sizes poor.1 fuel m₂ rng₁
          else .ok (false, m₂, rng₁) := by
        simp only [stealLoop, hfind, hentry, ← hthreshold, hdeficit, hpoorPool, if_false, hpick,
          hremove, ← hm₂, hfind₂, Bind.bind, Except.bind, Option.map_some, Option.getD_some,
          length_append, length_singleton]
      by_cases hmore : poor.2.length + 1 < minSwarmSize
      · obtain ⟨stop, m', rng', hsteal, hcons', hsize', hframe', hpop'⟩ :=
          ih rng₁ hcons₂ hrep₂.new_mem (by simpa using hmore)
            (by simp only [length_append, length_singleton]; omega)
        refine ⟨stop, m', rng', by rw [hrun, if_pos hmore]; exact hsteal, hcons',
          hsize'.trans hsize₂, fun y hy hother hsmall => ?_, fun hpop => hpop' (hpop₂ hpop)⟩
        exact hframe' y (hframe₂ y hy hother hsmall) hother hsmall
      · exact ⟨false, m₂, rng₁, by rw [hrun, if_neg hmore], hcons₂, hsize₂, hframe₂, hpop₂⟩

/-- The Robin Hood round returns and keeps every node and every swarm. The swarms
still to visit that were too small when the sizes were taken are as they were. -/
theorem robinHoodRound_spec (todo : List SwarmSize) :
    ∀ {m : SwarmSnodeMap Key} (rng : σ), Conserves all [] m →
      (todo.map SwarmSize.swarmId).Nodup →
      (∀ s ∈ todo, s.size < minSwarmSize → ∃ e ∈ m, e.1 = s.swarmId ∧ e.2.length = s.size) →
      ∃ m' rng', robinHoodRound rt sizes todo m rng = .ok (m', rng') ∧ Conserves all [] m' ∧
        m'.size = m.size ∧ (Populated m → Populated m') := by
  induction todo with
  | nil => intro m rng h _ _; exact ⟨m, rng, rfl, h, rfl, id⟩
  | cons s rest ih =>
    intro m rng h hnodup hsizes
    by_cases hfed : minSwarmSize ≤ s.size
    · exact ⟨m, rng, by simp [robinHoodRound, hfed], h, rfl, id⟩
    · obtain ⟨poor, hpoor, hid, hsize⟩ := hsizes s mem_cons_self (not_le.mp hfed)
      obtain ⟨stop, m₁, rng₁, hsteal, hcons₁, hsize₁, hframe, hpop₁⟩ :=
        stealLoop_spec rt hall hlen hidx minSwarmSize rng h hpoor (by omega) (by omega)
      rw [hid] at hsteal
      cases stop with
      | true =>
        refine ⟨m₁, rng₁, ?_, hcons₁, hsize₁, hpop₁⟩
        simp only [robinHoodRound, hfed, if_false, hsteal, Bind.bind, Except.bind]
      | false =>
        rw [map_cons, nodup_cons] at hnodup
        have hsizes₁ : ∀ t ∈ rest, t.size < minSwarmSize →
            ∃ e ∈ m₁, e.1 = t.swarmId ∧ e.2.length = t.size := by
          intro t ht hsmall
          obtain ⟨e, he, heid, helen⟩ := hsizes t (mem_cons_of_mem _ ht) hsmall
          have hother : e.1 ≠ poor.1 := by
            rw [heid, hid]
            exact fun heq => hnodup.1 (mem_map.mpr ⟨t, ht, heq⟩)
          exact ⟨e, hframe e he hother (by omega), heid, helen⟩
        obtain ⟨m', rng', hround, hcons', hsize', hpop'⟩ := ih rng₁ hcons₁ hnodup.2 hsizes₁
        refine ⟨m', rng', ?_, hcons', hsize'.trans hsize₁, fun hpop => hpop' (hpop₁ hpop)⟩
        simp only [robinHoodRound, hfed, if_false, hsteal, Bind.bind, Except.bind]
        exact hround

end

end

end

end Xeqm.ServiceNodes
