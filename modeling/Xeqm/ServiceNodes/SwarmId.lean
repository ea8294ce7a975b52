import Xeqm.ServiceNodes.Swarm

/-!
# New swarm ids are fresh

`get_new_swarm_id` halves the widest gap on the circle of swarm ids. As long as
the swarms do not use up the whole circle, some gap is at least two wide, so the
halved gap ends strictly between two neighbouring ids. The id it returns is then
unused and is never the reserved id of the waiting nodes.
-/

namespace Xeqm.ServiceNodes

open Lib List
open UInt64 (le_iff_toNat_le lt_iff_toNat_lt toNat_sub_of_le toNat_add toNat_div toNat_one)

/-- The scan returns the widest gap between neighbours, with its left end. -/
theorem widestGap_spec (ids : List SwarmId) :
    (∀ j, j + 1 < ids.length → ids.getD (j + 1) 0 - ids.getD j 0 ≤ (widestGap ids).1) ∧
      ((widestGap ids).1 = 0 ∨ ((widestGap ids).2 + 1 < ids.length ∧
        (widestGap ids).1 = ids.getD ((widestGap ids).2 + 1) 0 - ids.getD (widestGap ids).2 0)) := by
  -- the invariant after the first `n` neighbours, for every `n` within the list
  suffices h : ∀ n, n + 1 ≤ ids.length →
      let r := (List.range n).foldl
        (fun (acc : UInt64 × ℕ) idx =>
          let dist := ids.getD (idx + 1) 0 - ids.getD idx 0
          if dist > acc.1 then (dist, idx) else acc) (0, 0)
      (∀ j < n, ids.getD (j + 1) 0 - ids.getD j 0 ≤ r.1) ∧
        (r.1 = 0 ∨ (r.2 + 1 < ids.length ∧ r.1 = ids.getD (r.2 + 1) 0 - ids.getD r.2 0)) by
    cases ids with
    | nil => simp [widestGap]
    | cons _ as =>
      have hn := h as.length (by simp)
      exact ⟨fun j hj => hn.1 j (by simpa using hj), hn.2⟩
  intro n
  induction n with
  | zero => intro _; exact ⟨fun j hj => absurd hj (Nat.not_lt_zero j), .inl rfl⟩
  | succ n ih =>
    intro hn
    obtain ⟨hmax, hbest⟩ := ih (by omega)
    simp only [range_succ, foldl_append, foldl_cons, foldl_nil]
    split
    · rename_i hwider
      refine ⟨fun j hj => ?_, .inr ⟨hn, rfl⟩⟩
      rcases Nat.lt_succ_iff_lt_or_eq.mp hj with hj | rfl
      · exact UInt64.le_of_lt (UInt64.lt_of_le_of_lt (hmax j hj) hwider)
      · exact UInt64.le_refl _
    · rename_i hnarrow
      refine ⟨fun j hj => ?_, hbest⟩
      rcases Nat.lt_succ_iff_lt_or_eq.mp hj with hj | rfl
      · exact hmax j hj
      · exact UInt64.not_lt.mp hnarrow

/-- The numeric value of the last real swarm id. -/
private theorem maxId_toNat : maxId.toNat = 2 ^ 64 - 2 := by decide

/-- An id other than the reserved one is a real swarm id. -/
theorem le_maxId {id : SwarmId} (h : id ≠ unassignedSwarmId) : id.toNat ≤ 2 ^ 64 - 2 := by
  have hlt := id.toNat_lt
  have hne : id.toNat ≠ 2 ^ 64 - 1 := fun heq =>
    h (UInt64.toNat_inj.mp (heq.trans (by decide)))
  omega

section Circle

variable {ids : List SwarmId} {maxDist : UInt64}

/-- The `i`-th swarm id as a number. -/
private def idAt (ids : List SwarmId) (i : ℕ) : ℕ := (ids.getD i 0).toNat

private theorem idAt_le (hids : ∀ id ∈ ids, id ≠ unassignedSwarmId) {i : ℕ}
    (hi : i < ids.length) : idAt ids i ≤ 2 ^ 64 - 2 := by
  have h := le_maxId (hids ids[i] (getElem_mem hi))
  simpa [idAt, getD_eq_getElem?_getD, hi] using h

private theorem exists_idAt {id : SwarmId} (h : id ∈ ids) :
    ∃ i < ids.length, id.toNat = idAt ids i := by
  obtain ⟨i, hi, rfl⟩ := mem_iff_getElem.mp h
  exact ⟨i, hi, by simp [idAt, getD_eq_getElem?_getD, hi]⟩

section

variable (hsorted : ids.Pairwise (fun a b => a.toNat < b.toNat))

include hsorted

private theorem idAt_lt {i j : ℕ} (hij : i < j) (hj : j < ids.length) :
    idAt ids i < idAt ids j := by
  have hi : i < ids.length := hij.trans hj
  have h := pairwise_iff_getElem.mp hsorted i j hi hj hij
  simpa [idAt, getD_eq_getElem?_getD, hi, hj] using h

private theorem idAt_mono {i j : ℕ} (hij : i ≤ j) (hj : j < ids.length) :
    idAt ids i ≤ idAt ids j := by
  rcases Nat.eq_or_lt_of_le hij with rfl | h
  · exact le_rfl
  · exact (idAt_lt hsorted h hj).le

/-- Ids that all follow one another directly are an interval. -/
private theorem idAt_of_gaps_le_one
    (hgaps : ∀ j, j + 1 < ids.length → idAt ids (j + 1) - idAt ids j ≤ 1) {i : ℕ}
    (hi : i < ids.length) : idAt ids i = idAt ids 0 + i := by
  induction i with
  | zero => rfl
  | succ i ih =>
    have hprev := ih (by omega)
    have hlt := idAt_lt hsorted (show i < i + 1 by omega) hi
    have hgap := hgaps i hi
    omega

variable (hids : ∀ id ∈ ids, id ≠ unassignedSwarmId) (hpos : 0 < ids.length)

include hids hpos

/-- The distance from the last id around the circle to the first one. -/
private theorem wrapGap_toNat :
    (maxId - ids.getD (ids.length - 1) 0 + ids.getD 0 0 + 1).toNat =
      2 ^ 64 - 2 - idAt ids (ids.length - 1) + idAt ids 0 + 1 := by
  have hback := idAt_le hids (show ids.length - 1 < ids.length by omega)
  have hfront := idAt_mono hsorted (Nat.zero_le (ids.length - 1)) (by omega)
  have hmax := maxId_toNat
  unfold idAt at *
  simp only [toNat_add, UInt64.toNat_sub, toNat_one]
  omega

/-- The gap that `get_new_swarm_id` halves is at least two wide, and is either
the gap between two neighbours or the one around the circle. -/
private theorem widestCircleGap_spec (hlen : ids.length < 2 ^ 64 - 1) {bestIdx : ℕ}
    (hgap : widestCircleGap ids (ids.getD 0 0) (ids.getD (ids.length - 1) 0) = (maxDist, bestIdx)) :
    2 ≤ maxDist.toNat ∧
      ((bestIdx + 1 < ids.length ∧ maxDist.toNat = idAt ids (bestIdx + 1) - idAt ids bestIdx) ∨
        (bestIdx = ids.length - 1 ∧
          maxDist.toNat = 2 ^ 64 - 2 - idAt ids (ids.length - 1) + idAt ids 0 + 1)) := by
  obtain ⟨hscan, hbest⟩ := widestGap_spec ids
  have hstep (j : ℕ) (hj : j + 1 < ids.length) :
      (ids.getD (j + 1) 0 - ids.getD j 0).toNat = idAt ids (j + 1) - idAt ids j :=
    toNat_sub_of_le _ _
      (le_iff_toNat_le.mpr (idAt_lt hsorted (show j < j + 1 by omega) hj).le)
  have hwrap := wrapGap_toNat hsorted hids hpos
  -- without a gap of two between neighbours, the ids are an interval that leaves
  -- a gap of two around the circle
  have hround (hnarrow : (widestGap ids).1.toNat ≤ 1) :
      2 ≤ 2 ^ 64 - 2 - idAt ids (ids.length - 1) + idAt ids 0 + 1 := by
    have hback := idAt_le hids (show ids.length - 1 < ids.length by omega)
    have hlast := idAt_of_gaps_le_one hsorted (fun j hj => by
      have hj' := le_iff_toNat_le.mp (hscan j hj)
      rw [hstep j hj] at hj'
      omega) (show ids.length - 1 < ids.length by omega)
    omega
  simp only [widestCircleGap] at hgap
  by_cases hwider : maxId - ids.getD (ids.length - 1) 0 + ids.getD 0 0 + 1 > (widestGap ids).1
  · rw [if_pos hwider] at hgap
    obtain ⟨rfl, rfl⟩ := Prod.mk.inj hgap
    have hwider' := lt_iff_toNat_lt.mp hwider
    rw [hwrap] at hwider' ⊢
    refine ⟨?_, .inr ⟨rfl, rfl⟩⟩
    by_contra hsmall
    exact hsmall (hround (by omega))
  · rw [if_neg hwider] at hgap
    obtain ⟨rfl, rfl⟩ := Prod.mk.inj hgap
    have hnarrow' := le_iff_toNat_le.mp (UInt64.not_lt.mp hwider)
    have hwide : 2 ≤ (widestGap ids).1.toNat := by
      by_contra hsmall
      have := hround (by omega)
      omega
    refine ⟨hwide, .inl ?_⟩
    rcases hbest with hzero | ⟨hidx, heq⟩
    · rw [hzero] at hwide
      simp at hwide
    · refine ⟨hidx, ?_⟩
      rw [← hstep _ hidx, ← heq]

end

/-- Halving a gap between neighbours lands strictly inside it. -/
private theorem halveGap_inside {best : SwarmId} (hwide : 2 ≤ maxDist.toNat)
    (hroom : best.toNat + maxDist.toNat ≤ 2 ^ 64 - 2) :
    best.toNat < (halveGap best maxDist).toNat ∧
      (halveGap best maxDist).toNat < best.toNat + maxDist.toNat := by
  have hmax := maxId_toNat
  have hdiff : (maxDist / 2).toNat = maxDist.toNat / 2 := by simp [toNat_div]
  have hroom' : (maxId - best).toNat = 2 ^ 64 - 2 - best.toNat := by
    rw [toNat_sub_of_le _ _ (le_iff_toNat_le.mpr (by omega)), hmax]
  unfold halveGap
  rw [if_neg (by rw [gt_iff_lt, lt_iff_toNat_lt]; omega), toNat_add, hdiff]
  omega

/-- Halving the gap around the circle lands after the last id or before the
first one. -/
private theorem halveGap_around {back : SwarmId} {front : ℕ}
    (hwide : 2 ≤ maxDist.toNat) (hback : back.toNat ≤ 2 ^ 64 - 2) (hfront : front ≤ back.toNat)
    (hdist : maxDist.toNat = 2 ^ 64 - 2 - back.toNat + front + 1) :
    (back.toNat < (halveGap back maxDist).toNat ∧ (halveGap back maxDist).toNat ≤ 2 ^ 64 - 2) ∨
      (halveGap back maxDist).toNat < front := by
  have hmax := maxId_toNat
  have hdiff : (maxDist / 2).toNat = maxDist.toNat / 2 := by simp [toNat_div]
  have hroom : (maxId - back).toNat = 2 ^ 64 - 2 - back.toNat := by
    rw [toNat_sub_of_le _ _ (le_iff_toNat_le.mpr (by omega)), hmax]
  unfold halveGap
  by_cases hover : maxDist / 2 > maxId - back
  · right
    rw [if_pos hover]
    rw [gt_iff_lt, lt_iff_toNat_lt] at hover
    have hrest : (maxDist / 2 - (maxId - back)).toNat =
        maxDist.toNat / 2 - (2 ^ 64 - 2 - back.toNat) := by
      rw [toNat_sub_of_le _ _ (le_iff_toNat_le.mpr hover.le), hdiff, hroom]
    rw [toNat_sub_of_le _ _ (le_iff_toNat_le.mpr (by
      rw [toNat_one, hrest]; omega)), hrest, toNat_one]
    omega
  · left
    rw [if_neg hover]
    rw [gt_iff_lt, lt_iff_toNat_lt] at hover
    rw [toNat_add, hdiff]
    omega

end Circle

/-- The id of a new swarm is a real swarm id that no swarm uses, unless the
swarms already occupy every id. -/
theorem getNewSwarmId_fresh {Key : Type} {m : SwarmSnodeMap Key}
    (hids : ∀ e ∈ m, e.1 ≠ unassignedSwarmId) (hsize : m.size < 2 ^ 64 - 1) :
    getNewSwarmId m ≠ unassignedSwarmId ∧ ∀ e ∈ m, e.1 ≠ getNewSwarmId m := by
  set ids := m.toList.map Prod.fst with hdef
  have hsorted : ids.Pairwise (fun a b => a.toNat < b.toNat) := pairwise_map.mpr m.sorted
  have hids' : ∀ id ∈ ids, id ≠ unassignedSwarmId := by
    intro id hid
    obtain ⟨e, he, rfl⟩ := mem_map.mp hid
    exact hids e he
  have hlen : ids.length = m.size := by simp [hdef, OrdSet.size]
  -- it is enough to name the number that `get_new_swarm_id` returns
  suffices hnew : (getNewSwarmId m).toNat ≤ 2 ^ 64 - 2 ∧
      ∀ i < ids.length, idAt ids i ≠ (getNewSwarmId m).toNat by
    refine ⟨fun heq => ?_, fun e he heq => ?_⟩
    · have hreserved : unassignedSwarmId.toNat = 2 ^ 64 - 1 := by decide
      have hbound := hnew.1
      rw [heq] at hbound
      omega
    · obtain ⟨i, hi, hval⟩ := exists_idAt (mem_map_of_mem he : e.1 ∈ ids)
      exact hnew.2 i hi (by rw [← hval, heq])
  rcases Nat.eq_zero_or_pos ids.length with hzero | hpos
  · have hnil : ids = [] := length_eq_zero_iff.mp hzero
    have hid : getNewSwarmId m = 0 := by simp [getNewSwarmId, ← hdef, hnil]
    rw [hid]
    exact ⟨by simp, fun i hi => by omega⟩
  · have hhead : ids.head? = some (ids.getD 0 0) := by
      simp [head?_eq_getElem?, getD_eq_getElem?_getD, hpos]
    have hlast : ids.getLast? = some (ids.getD (ids.length - 1) 0) := by
      have : ids.length - 1 < ids.length := by omega
      simp [getLast?_eq_getElem?, getD_eq_getElem?_getD, this]
    obtain ⟨⟨maxDist, bestIdx⟩, hgap⟩ : ∃ r, widestCircleGap ids (ids.getD 0 0)
      (ids.getD (ids.length - 1) 0) = r := ⟨_, rfl⟩
    have hid : getNewSwarmId m = halveGap (ids.getD bestIdx 0) maxDist := by
      unfold getNewSwarmId
      simp only [← hdef, hhead, hlast]
      rw [hgap]
    obtain ⟨hwide, hcases⟩ := widestCircleGap_spec hsorted hids' hpos (by omega) hgap
    rw [hid]
    rcases hcases with ⟨hidx, hdist⟩ | ⟨rfl, hdist⟩
    · have hlt := idAt_lt hsorted (show bestIdx < bestIdx + 1 by omega) hidx
      have hle := idAt_le hids' hidx
      obtain ⟨hlow, hhigh⟩ := halveGap_inside hwide
        (show (ids.getD bestIdx 0).toNat + _ ≤ _ by change idAt ids bestIdx + _ ≤ _; omega)
      rw [show (ids.getD bestIdx 0).toNat = idAt ids bestIdx from rfl] at hlow hhigh
      refine ⟨by omega, fun i hi => ?_⟩
      rcases lt_or_ge bestIdx i with h | h
      · have := idAt_mono hsorted (show bestIdx + 1 ≤ i by omega) hi
        omega
      · have := idAt_mono hsorted h (show bestIdx < ids.length by omega)
        omega
    · have hback := idAt_le hids' (show ids.length - 1 < ids.length by omega)
      have hfront := idAt_mono hsorted (Nat.zero_le (ids.length - 1)) (by omega)
      rcases halveGap_around hwide
          (show (ids.getD (ids.length - 1) 0).toNat ≤ _ from hback) hfront hdist
        with ⟨hafter, hmax⟩ | hbefore
      · rw [show (ids.getD (ids.length - 1) 0).toNat = idAt ids (ids.length - 1) from rfl] at hafter
        refine ⟨hmax, fun i hi => ?_⟩
        have := idAt_mono hsorted (show i ≤ ids.length - 1 by omega) (by omega)
        omega
      · refine ⟨by omega, fun i hi => ?_⟩
        have := idAt_mono hsorted (Nat.zero_le i) hi
        omega

end Xeqm.ServiceNodes
