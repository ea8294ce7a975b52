import Xeqm.ServiceNodes.PulseQuorum

/-!
# The seats of a pulse quorum

A pulse quorum has one producer and eleven validators, drawn from the candidates: the active
nodes, without the leader in the first round, and from HF22 on one for each operator.
-/

namespace Xeqm.ServiceNodes

open Cryptonote Lib Tools List

/-- The operator of a node. -/
def operatorOf (node : NodeEntry) : AccountPublicAddress := node.2.operatorAddress

/-- Some nodes of the list stay, and of each operator only one that was not seen before. -/
theorem dedupOperators_spec (seen : List AccountPublicAddress) (nodes : List NodeEntry) :
    (dedupOperators seen nodes).Sublist nodes ∧
      seen.Disjoint ((dedupOperators seen nodes).map operatorOf) ∧
      ((dedupOperators seen nodes).map operatorOf).Nodup := by
  fun_induction dedupOperators seen nodes with
  | case1 => simp
  | case2 seen node rest _ ih => exact ⟨ih.1.cons node, ih.2⟩
  | case3 seen node rest hnew ih =>
    obtain ⟨hsub, hdisjoint, hnodup⟩ := ih
    rw [disjoint_cons_left] at hdisjoint
    rw [map_cons, nodup_cons, disjoint_cons_right]
    exact ⟨hsub.cons_cons node, ⟨hnew, hdisjoint.2⟩, hdisjoint.1, hnodup⟩

theorem nodup_map_of_subperm {α β : Type} {f : α → β} {l l' : List α} (h : l.Subperm l')
    (hnodup : (l'.map f).Nodup) : (l.map f).Nodup := by
  obtain ⟨m, hperm, hsub⟩ := h
  exact (hperm.map f).nodup_iff.mp (hnodup.sublist (hsub.map f))

section

variable {σ : Type} (rng : Twister σ) (hfVersion : Hf) {candidates : List NodeEntry}
  {entropy : List Hash}

theorem draw_spec {state : σ} {n : ℕ} (hn : 0 < n) (hmax : n ≤ rngMax) :
    ∃ i state', draw rng state n = .ok (i, state') ∧ i < n := by
  obtain ⟨i, state', hdraw, hi⟩ := uniformDistributionPortable_spec rng state hn hmax
  exact ⟨i, state', by rw [draw, hdraw], hi⟩

theorem swapAt_perm {α : Type} {l : List α} {i j : ℕ} (hi : i < l.length) (hj : j < l.length) :
    (swapAt l i j).Perm l := by
  rw [swapAt, getElem?_eq_getElem hi, getElem?_eq_getElem hj]
  exact set_set_perm hi hj

theorem drawPulseValidators_spec {partitionIndex : ℕ} (hpartition : 0 < partitionIndex) {i : ℕ}
    (hlength : i + entropy.length ≤ candidates.length) (hmax : candidates.length ≤ rngMax) :
    ∃ ordered, drawPulseValidators rng hfVersion partitionIndex i entropy candidates =
      .ok ordered ∧ ordered.Perm candidates := by
  induction entropy generalizing i candidates with
  | nil => exact ⟨candidates, rfl, List.Perm.refl _⟩
  | cons hash rest ih =>
    rw [length_cons] at hlength
    have hpositive : 0 < min partitionIndex (candidates.length - i) := by omega
    obtain ⟨j, state', hdraw, hj⟩ := draw_spec rng hpositive (by omega)
    have hswap : (swapAt candidates i (i + j)).Perm candidates := swapAt_perm (by omega) (by omega)
    rw [← hswap.length_eq] at hlength hmax
    obtain ⟨ordered, hrun, hperm⟩ := @ih _ (i + 1) (by omega) hmax
    exact ⟨ordered, by rw [drawPulseValidators, hdraw]; exact hrun, hperm.trans hswap⟩

/-- Eleven of the candidates become validators, if there are as many. -/
theorem pulseValidators_spec (hentropy : entropy.length = pulseQuorumNumValidators)
    (hlength : pulseQuorumNumValidators ≤ candidates.length) (hmax : candidates.length ≤ rngMax) :
    ∃ chosen : List NodeEntry, pulseValidators rng hfVersion entropy candidates =
      .ok (chosen.map Prod.fst) ∧ chosen.length = pulseQuorumNumValidators ∧
        chosen.Subperm candidates := by
  have hpartition : 0 < sizeSub candidates.length 1 / 2 := by
    unfold sizeSub pulseQuorumNumValidators rngMax at *
    omega
  obtain ⟨ordered, hrun, hperm⟩ :=
    @drawPulseValidators_spec _ rng hfVersion candidates entropy _ hpartition 0 (by omega) hmax
  rw [← hperm.length_eq] at hlength
  refine ⟨ordered.take pulseQuorumNumValidators, ?_, length_take_of_le hlength,
    (take_sublist _ _).subperm.trans hperm.subperm⟩
  simp only [pulseValidators, if_neg hpartition.ne', hrun]
  exact if_neg (not_lt.mpr hlength)

/-- The seats of a quorum. In the first round the leader is the producer, later one of the
candidates. -/
inductive Seated (candidates : List NodeEntry) (leader : PublicKey) : UInt8 → Quorum → Prop
  | first {chosen : List NodeEntry} (hlength : chosen.length = pulseQuorumNumValidators)
      (hchosen : chosen.Subperm candidates) :
      Seated candidates leader 0 { workers := [leader], validators := chosen.map Prod.fst }
  | later {pulseRound : UInt8} (hround : pulseRound ≠ 0) {producer : NodeEntry}
      {chosen : List NodeEntry} (hlength : chosen.length = pulseQuorumNumValidators)
      (hchosen : (producer :: chosen).Subperm candidates) :
      Seated candidates leader pulseRound
        { workers := [producer.1], validators := chosen.map Prod.fst }

/-- With enough candidates all seats are taken, or there is no quorum. -/
theorem generatePulseQuorumWithCandidates_spec (conf : NetworkConfig) (leader : PublicKey)
    {activeSize : ℕ} {pulseRound : UInt8} (hmax : candidates.length ≤ rngMax)
    (henough : conf.pulseMinServiceNodes ≤ activeSize →
      (Hf.hf22SnPolicy ≤ hfVersion → pulseMinUniqueOperators ≤ candidates.length) →
      pulseQuorumSize ≤ candidates.length + if pulseRound = 0 then 1 else 0) :
    ∃ quorum, generatePulseQuorumWithCandidates rng conf leader hfVersion activeSize candidates
      entropy pulseRound = .ok quorum ∧
        (quorum = {} ∨ Seated candidates leader pulseRound quorum) := by
  unfold generatePulseQuorumWithCandidates
  split
  · exact ⟨{}, rfl, .inl rfl⟩
  split
  · exact ⟨{}, rfl, .inl rfl⟩
  split
  · exact ⟨{}, rfl, .inl rfl⟩
  rename_i hactive hentropy hfew
  have hsize := henough (not_lt.mp hactive) fun hfrom => not_lt.mp fun h => hfew ⟨hfrom, h⟩
  have hseeds : (entropy.drop 1).length = pulseQuorumNumValidators := by
    rw [length_drop, not_not.mp hentropy]
    rfl
  unfold pulseQuorumSize at hsize
  split
  · rename_i hround
    subst hround
    obtain ⟨chosen, hdraw, hlength, hchosen⟩ :=
      pulseValidators_spec rng hfVersion hseeds (by simpa using hsize) hmax
    exact ⟨_, by rw [hdraw]; rfl, .inr (.first hlength hchosen)⟩
  · rename_i hround
    rw [if_neg hround] at hsize
    obtain ⟨i, state', hdraw, hi⟩ :=
      draw_spec rng
        (show 0 < candidates.length by omega) hmax
    have herase := length_eraseIdx_of_lt hi
    obtain ⟨chosen, hrun, hlength, hchosen⟩ :=
      @pulseValidators_spec _ rng hfVersion (candidates.eraseIdx i) _ hseeds (by omega) (by omega)
    refine ⟨_, ?_, .inr (.later hround hlength (((subperm_cons candidates[i]).mpr
      hchosen).trans (getElem_cons_eraseIdx_perm hi).subperm))⟩
    refine except_bind_eq_ok_iff.mpr ⟨_, hdraw, ?_⟩
    simp only [getElem?_eq_getElem hi, hrun]
    rfl

/-- The nodes that are left when the leader of the first round is taken out. -/
def withoutLeader (leader : PublicKey) (pulseRound : UInt8) (active : List NodeEntry) :
    List NodeEntry :=
  active.filter (fun node => node.1 ≠ leader ∨ pulseRound > 0)

/-- The active nodes have different keys. -/
structure ActiveNodes where
  nodes : List NodeEntry
  keysNodup : (nodes.map Prod.fst).Nodup
  length_le : nodes.length ≤ rngMax

variable (nettype : NetworkType) (leader : PublicKey) (active : ActiveNodes) (pulseRound : UInt8)

theorem length_le_withoutLeader : active.nodes.length ≤
    (withoutLeader leader pulseRound active.nodes).length + if pulseRound = 0 then 1 else 0 := by
  by_cases hround : pulseRound = 0
  · have hothers : withoutLeader leader pulseRound active.nodes =
        active.nodes.eraseP (fun node => node.1 = leader) := by
      rw [eraseP_key_eq_filter active.keysNodup]
      simp [withoutLeader, hround]
    have hlength := @le_length_eraseP _ (fun node => node.1 = leader) active.nodes
    rw [hothers, if_pos hround]
    omega
  · simp [withoutLeader, UInt8.pos_iff_ne_zero.mpr hround]

/-- A quorum is generated and all its seats are taken, or it is empty. -/
theorem generatePulseQuorum_spec (entropy : List Hash) : ∃ candidates quorum,
    generatePulseQuorum rng (getConfig nettype) leader hfVersion active.nodes entropy pulseRound =
      .ok quorum ∧ (quorum = {} ∨ Seated candidates leader pulseRound quorum) ∧
    candidates.Subperm (withoutLeader leader pulseRound active.nodes) ∧
    (Hf.hf22SnPolicy ≤ hfVersion → (candidates.map operatorOf).Nodup) := by
  have hperm : (sortPulseCandidates (withoutLeader leader pulseRound active.nodes)).Perm _ :=
    perm_insertionSort _ _
  obtain ⟨hdedup, -, hoperators⟩ :=
    dedupOperators_spec [] (sortPulseCandidates (withoutLeader leader pulseRound active.nodes))
  have hothers := length_le_withoutLeader leader active pulseRound
  have hmax : (withoutLeader leader pulseRound active.nodes).length ≤ rngMax :=
    (length_filter_le _ _).trans active.length_le
  have hminimum : (getConfig nettype).pulseMinServiceNodes = pulseQuorumSize := by
    cases nettype <;> rfl
  simp only [generatePulseQuorum, ge_iff_le]
  by_cases hfrom : Hf.hf22SnPolicy ≤ hfVersion
  · have hsub := hdedup.subperm.trans hperm.subperm
    obtain ⟨quorum, hrun, hseated⟩ := generatePulseQuorumWithCandidates_spec rng hfVersion
      (getConfig nettype) leader (hsub.length_le.trans hmax)
      (fun _ hunique => (hunique hfrom).trans (Nat.le_add_right _ _))
    exact ⟨_, quorum, by rw [if_pos hfrom]; exact hrun, hseated, hsub, fun _ => hoperators⟩
  · rw [← hperm.length_eq] at hothers hmax
    obtain ⟨quorum, hrun, hseated⟩ := generatePulseQuorumWithCandidates_spec rng hfVersion
      (getConfig nettype) leader hmax fun hactive _ => (hminimum ▸ hactive).trans hothers
    exact ⟨_, quorum, by rw [if_neg hfrom]; exact hrun, hseated, hperm.subperm,
      fun hfrom' => absurd hfrom' hfrom⟩

/-- A pulse quorum is empty, or has one producer and eleven other active nodes as validators, from
HF22 on of different operators. -/
theorem pulse_quorum_members (entropy : List Hash) :
    ∃ quorum, generatePulseQuorum rng (getConfig nettype) leader hfVersion active.nodes entropy
      pulseRound = .ok quorum ∧ (quorum = {} ∨ ∃ worker, ∃ chosen : List NodeEntry,
        quorum = { workers := [worker], validators := chosen.map Prod.fst } ∧
        chosen.length = pulseQuorumNumValidators ∧ chosen ⊆ active.nodes ∧
        (chosen.map Prod.fst).Nodup ∧ worker ∉ chosen.map Prod.fst ∧
        (Hf.hf22SnPolicy ≤ hfVersion → (chosen.map operatorOf).Nodup)) := by
  obtain ⟨candidates, quorum, hrun, hquorum, hcandidates, hoperators⟩ :=
    generatePulseQuorum_spec rng hfVersion nettype leader active pulseRound entropy
  refine ⟨quorum, hrun, hquorum.imp id (fun hseated => ?_)⟩
  have hothers := hcandidates.trans filter_sublist.subperm
  cases hseated with
  | @first chosen hlength hchosen =>
    have hsub := hchosen.trans hothers
    refine ⟨leader, chosen, rfl, hlength, hsub.subset, nodup_map_of_subperm hsub active.keysNodup,
      fun hleader => ?_, fun hfrom => nodup_map_of_subperm hchosen (hoperators hfrom)⟩
    obtain ⟨node, hnode, rfl⟩ := mem_map.mp hleader
    simpa [withoutLeader] using (hchosen.trans hcandidates).subset hnode
  | @later _ hround producer chosen hlength hchosen =>
    have hsub := hchosen.trans hothers
    have hnodup := nodup_cons.mp (nodup_map_of_subperm hsub active.keysNodup)
    exact ⟨producer.1, chosen, rfl, hlength, fun node hnode => hsub.subset (.tail _ hnode),
      hnodup.2, hnodup.1,
      fun hfrom => (nodup_map_of_subperm hchosen (hoperators hfrom)).of_cons⟩

/-- From HF22 on seats are drawn if there are enough active nodes, an entropy for each seat and
enough candidates of different operators. -/
def SeatsDrawn (nodes : List NodeEntry) (entropy : List Hash) : Prop :=
  (getConfig nettype).pulseMinServiceNodes ≤ nodes.length ∧ entropy.length = pulseQuorumSize ∧
    pulseMinUniqueOperators ≤
      (dedupOperators [] (sortPulseCandidates (withoutLeader leader pulseRound nodes))).length

theorem generatePulseQuorum_of_not_seatsDrawn {nodes : List NodeEntry} {entropy : List Hash}
    (hfrom : Hf.hf22SnPolicy ≤ hfVersion)
    (h : ¬SeatsDrawn nettype leader pulseRound nodes entropy) :
    generatePulseQuorum rng (getConfig nettype) leader hfVersion nodes entropy pulseRound =
      .ok {} := by
  simp only [generatePulseQuorum, generatePulseQuorumWithCandidates, ge_iff_le, if_pos hfrom]
  split
  · rfl
  split
  · rfl
  split
  · rfl
  rename_i hactive hentropy hfew
  exact absurd ⟨not_lt.mp hactive, not_not.mp hentropy, not_lt.mp fun hlt => hfew ⟨hfrom, hlt⟩⟩ h

/-- From HF22 on no operator has two seats in a later round, nor in the first one if no seat is
drawn or the leader's operator has no other active node. -/
theorem one_seat_per_operator (entropy : List Hash) :
    ∃ quorum, generatePulseQuorum rng (getConfig nettype) leader hfVersion active.nodes entropy
      pulseRound = .ok quorum ∧ (Hf.hf22SnPolicy ≤ hfVersion →
        (pulseRound = 0 → SeatsDrawn nettype leader pulseRound active.nodes entropy →
          ∀ a ∈ active.nodes, ∀ b ∈ active.nodes, a.1 = leader → b.1 ≠ leader →
            operatorOf a ≠ operatorOf b) →
        ∀ a ∈ active.nodes, ∀ b ∈ active.nodes, a.1 ∈ quorum.workers → b.1 ∈ quorum.validators →
          operatorOf a ≠ operatorOf b) := by
  obtain ⟨candidates, quorum, hrun, hquorum, hcandidates, hoperators⟩ :=
    generatePulseQuorum_spec rng hfVersion nettype leader active pulseRound entropy
  refine ⟨quorum, hrun, fun hfrom halone a ha b hb hproduces hvalidates => ?_⟩
  rcases hquorum with rfl | hseated
  · cases hproduces
  by_cases hdrawn : SeatsDrawn nettype leader pulseRound active.nodes entropy
  case neg =>
    cases hrun.symm.trans
      (generatePulseQuorum_of_not_seatsDrawn rng hfVersion nettype leader pulseRound hfrom hdrawn)
    cases hproduces
  have hsame {a b : NodeEntry} (ha : a ∈ active.nodes) (hb : b ∈ candidates) (heq : b.1 = a.1) :
      b = a :=
    inj_on_of_nodup_map active.keysNodup (mem_of_mem_filter (hcandidates.subset hb)) ha heq
  cases hseated with
  | @first chosen hlength hchosen =>
    obtain ⟨node, hnode, heq⟩ := mem_map.mp hvalidates
    refine halone rfl hdrawn a ha b hb (mem_singleton.mp hproduces) ?_
    have hother := hcandidates.subset (hchosen.subset hnode)
    simp only [withoutLeader, heq, mem_filter] at hother
    simpa using hother.2
  | @later _ hround producer chosen hlength hchosen =>
    obtain ⟨node, hnode, heq⟩ := mem_map.mp hvalidates
    have hnodup := nodup_cons.mp (nodup_map_of_subperm hchosen (hoperators hfrom))
    rw [← hsame ha (hchosen.subset mem_cons_self) (mem_singleton.mp hproduces).symm,
      ← hsame hb (hchosen.subset (.tail _ hnode)) heq]
    exact fun heq => hnodup.1 (heq ▸ mem_map_of_mem hnode)

end

/-- Active nodes with the keys 0, 1, 2, ... and these operators. -/
def nodesOf (operators : List PublicKey) : List NodeEntry :=
  operators.zipIdx.map (fun (operator, i) =>
    (BitVec.ofNat 256 i, { operatorAddress := ⟨operator, operator⟩ }))

/-- Thirteen nodes of as many operators. -/
def thirteenNodes : ActiveNodes where
  nodes := nodesOf [0, 1, 2, 3, 4, 5, 6, 7, 8, 9, 10, 11, 12]
  keysNodup := by decide
  length_le := by decide

/-- The quorums of the thirteen nodes in the first two rounds. -/
theorem pulse_quorum_members_thirteenNodes :
    ∀ pulseRound ∈ [(0 : UInt8), 1], ∃ worker, ∃ chosen : List NodeEntry,
      generatePulseQuorum firstDrawRuntime.rng (getConfig .mainnet) 12 Hf.hf22SnPolicy
        thirteenNodes.nodes (replicate pulseQuorumSize 0) pulseRound =
          .ok { workers := [worker], validators := chosen.map Prod.fst } ∧
      chosen.length = 11 ∧ chosen ⊆ thirteenNodes.nodes ∧ (chosen.map Prod.fst).Nodup ∧
      worker ∉ chosen.map Prod.fst ∧ (chosen.map operatorOf).Nodup := by
  have hseated : ∀ pulseRound ∈ [(0 : UInt8), 1], generatePulseQuorum firstDrawRuntime.rng
      (getConfig .mainnet) 12 Hf.hf22SnPolicy thirteenNodes.nodes (replicate pulseQuorumSize 0)
      pulseRound ≠ .ok {} := by decide +kernel
  intro pulseRound hround
  obtain ⟨quorum, hrun, rfl | ⟨worker, chosen, rfl, hlength, hactive, hnodup, hother, hoperators⟩⟩ :=
    pulse_quorum_members firstDrawRuntime.rng Hf.hf22SnPolicy .mainnet 12 thirteenNodes pulseRound
      (replicate pulseQuorumSize 0)
  · exact absurd hrun (hseated pulseRound hround)
  · exact ⟨worker, chosen, hrun, hlength, hactive, hnodup, hother, hoperators (by decide)⟩

/-- The leader of the thirteen nodes has no other node. -/
theorem one_seat_per_operator_thirteenNodes : ∃ quorum,
    generatePulseQuorum firstDrawRuntime.rng (getConfig .mainnet) 12 Hf.hf22SnPolicy
      thirteenNodes.nodes (replicate pulseQuorumSize 0) 0 = .ok quorum ∧ quorum ≠ {} ∧
    ∀ a ∈ thirteenNodes.nodes, ∀ b ∈ thirteenNodes.nodes, a.1 ∈ quorum.workers →
      b.1 ∈ quorum.validators → operatorOf a ≠ operatorOf b := by
  obtain ⟨quorum, hrun, hseats⟩ := one_seat_per_operator firstDrawRuntime.rng Hf.hf22SnPolicy
    .mainnet 12 thirteenNodes 0 (replicate pulseQuorumSize 0)
  have hseated : generatePulseQuorum firstDrawRuntime.rng (getConfig .mainnet) 12 Hf.hf22SnPolicy
      thirteenNodes.nodes (replicate pulseQuorumSize 0) 0 ≠ .ok {} := by decide +kernel
  refine ⟨quorum, hrun, fun hempty => hseated (hempty ▸ hrun), hseats (by decide) fun _ _ => ?_⟩
  decide +kernel

/-- The leader has a second node, and that one becomes a validator. -/
theorem leader_validates_with_second_node :
    generatePulseQuorum firstDrawRuntime.rng (getConfig .mainnet) 0 Hf.hf22SnPolicy
      (nodesOf [1, 1, 2, 3, 4, 5, 6, 7, 8, 9, 10, 11, 12]) (replicate pulseQuorumSize 0) 0 =
        .ok { workers := [0], validators := [1, 2, 3, 4, 5, 6, 7, 8, 9, 10, 11] } ∧
    (nodesOf [1, 1]).map operatorOf = [⟨1, 1⟩, ⟨1, 1⟩] := by
  decide +kernel

end Xeqm.ServiceNodes
