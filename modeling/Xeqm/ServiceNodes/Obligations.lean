import Xeqm.ServiceNodes.Quorums
import Xeqm.ServiceNodes.StateChange

/-!
# Obligations of the tested nodes

The part of `quorum_cop::process_quorums` that tests the workers of past obligations quorums: the
loop over the heights, and for each height the loop over the workers.
-/

namespace Xeqm.ServiceNodes

open Cryptonote Lib List

/-! ## The heights -/

/-- `REORG_SAFETY_BUFFER_BLOCKS`, which depends on the version of the block. -/
def reorgSafetyBufferBlocks (hfVersion : Hf) : UInt64 :=
  if hfVersion ≥ Hf.hf12Checkpointing then UInt64.ofNat reorgSafetyBufferBlocksPostHf12 else 20

/-- The loop over `m_obligations_height`: the heights it goes through, and where it ends. -/
def obligationsLoop (bound progress : ℕ) : List ℕ × ℕ :=
  if progress < bound then
    let (heights, last) := obligationsLoop bound (progress + 1)
    (progress :: heights, last)
  else ([], progress)
termination_by bound - progress

/-- The heights whose obligations `process_quorums` looks at for a block, and the new
`m_obligations_height`. The bound of the loop is a difference of unsigned numbers. -/
def processObligations (hfVersion : Hf) (height chainHeight targetHeight progress : UInt64) :
    List ℕ × ℕ :=
  let latestHeight := max chainHeight targetHeight
  if hfVersion < Hf.hf9ServiceNodes then ([], progress.toNat)
  else if latestHeight < UInt64.ofNat voteLifetime then ([], progress.toNat)
  else if height < latestHeight - UInt64.ofNat voteLifetime then ([], progress.toNat)
  else
    obligationsLoop (height - reorgSafetyBufferBlocks hfVersion).toNat
      (max progress (latestHeight - UInt64.ofNat voteLifetime)).toNat

theorem obligationsLoop_eq (bound progress : ℕ) :
    obligationsLoop bound progress =
      (List.range' progress (bound - progress), max progress bound) := by
  fun_induction obligationsLoop bound progress with
  | case1 progress hlt heights last hrest ih =>
    rw [hrest] at ih
    have hcount : bound - progress = (bound - (progress + 1)) + 1 := by omega
    rw [hcount, List.range'_succ]
    obtain ⟨rfl, rfl⟩ := Prod.mk.inj ih
    exact Prod.ext rfl (by omega)
  | case2 progress hge =>
    rw [Nat.sub_eq_zero_of_le (not_lt.mp hge)]
    exact Prod.ext rfl (by omega)

/-- A difference of unsigned numbers is one of numbers, or wraps around. -/
theorem toNat_sub_cases (a b : UInt64) :
    (b ≤ a ∧ (a - b).toNat = a.toNat - b.toNat) ∨
      (a < b ∧ (a - b).toNat = 2 ^ 64 - (b.toNat - a.toNat)) := by
  have ha := a.toNat_lt
  have hb := b.toNat_lt
  rw [UInt64.le_iff_toNat_le, UInt64.lt_iff_toNat_lt, UInt64.toNat_sub]
  omega

/-- From where on a block has obligations to look at. -/
def startVotingFrom (chainHeight targetHeight progress : UInt64) : UInt64 :=
  max progress (max chainHeight targetHeight - UInt64.ofNat voteLifetime)

/-- The heights that are looked at when `process_quorums` does not return early. -/
theorem processObligations_fst {hfVersion : Hf} {height chainHeight targetHeight : UInt64}
    (hversion : ¬hfVersion < Hf.hf9ServiceNodes)
    (hlifetime : ¬max chainHeight targetHeight < UInt64.ofNat voteLifetime)
    (hheight : ¬height < max chainHeight targetHeight - UInt64.ofNat voteLifetime)
    (progress : UInt64) :
    (processObligations hfVersion height chainHeight targetHeight progress).1 =
      List.range' (startVotingFrom chainHeight targetHeight progress).toNat
        ((height - reorgSafetyBufferBlocks hfVersion).toNat -
          (startVotingFrom chainHeight targetHeight progress).toNat) := by
  unfold processObligations
  rw [if_neg hversion, if_neg hlifetime, if_neg hheight, obligationsLoop_eq]
  rfl

/-- For a block, only heights below it by more than the safety buffer are looked at and no more
than the lifetime of a vote, exactly if the loop is not reached or ends at once, or the block is
not below the buffer and the progress not too far behind. -/
theorem processObligations_bounded_iff (hfVersion : Hf)
    (height chainHeight targetHeight progress : UInt64) :
    let buffer := reorgSafetyBufferBlocks hfVersion
    let start := startVotingFrom chainHeight targetHeight progress
    let heights := (processObligations hfVersion height chainHeight targetHeight progress).1
    ((∀ h ∈ heights, h + buffer.toNat < height.toNat) ∧ heights.length ≤ voteLifetime) ↔
      hfVersion < Hf.hf9ServiceNodes ∨
      max chainHeight targetHeight < UInt64.ofNat voteLifetime ∨
      height < max chainHeight targetHeight - UInt64.ofNat voteLifetime ∨
      height - buffer ≤ start ∨
      (buffer ≤ height ∧ height.toNat - buffer.toNat ≤ start.toNat + voteLifetime) := by
  intro buffer start heights
  by_cases hreturn : hfVersion < Hf.hf9ServiceNodes ∨
      max chainHeight targetHeight < UInt64.ofNat voteLifetime ∨
      height < max chainHeight targetHeight - UInt64.ofNat voteLifetime
  · have hnone : heights = [] := by
      unfold heights processObligations
      dsimp only
      split_ifs <;> first | rfl | simp_all
    rw [hnone]
    refine iff_of_true (by simp) ?_
    tauto
  · obtain ⟨hversion, hlifetime, hheight⟩ : _ ∧ _ ∧ _ := by simpa only [not_or] using hreturn
    have hheights : heights = List.range' start.toNat ((height - buffer).toNat - start.toNat) :=
      processObligations_fst hversion hlifetime hheight progress
    simp only [hheights, length_range', mem_range'_1, hversion, hlifetime, hheight,
      false_or, UInt64.le_iff_toNat_le]
    constructor
    · rintro ⟨hbelow, hcount⟩
      have hfirst := hbelow start.toNat
      rcases toNat_sub_cases height buffer with ⟨hle, hsub⟩ | ⟨hlt, hsub⟩ <;>
        simp only [UInt64.le_iff_toNat_le, UInt64.lt_iff_toNat_lt] at * <;> omega
    · intro h
      rcases toNat_sub_cases height buffer with ⟨hle, hsub⟩ | ⟨hlt, hsub⟩ <;>
        simp only [UInt64.le_iff_toNat_le, UInt64.lt_iff_toNat_lt] at * <;>
        exact ⟨fun h _ => by omega, by omega⟩

/-- The chain has six blocks and a peer reports a height of 60. For the block at height 5 the bound
of the loop wraps around: height 0 is looked at, and so is every height up to the bound. -/
theorem processObligations_wraps :
    let heights := (processObligations Hf.hf19RewardBatching 5 6 60 0).1
    0 ∈ heights ∧ heights.length = 2 ^ 64 - 6 := by
  intro heights
  have hbound : (5 - reorgSafetyBufferBlocks Hf.hf19RewardBatching).toNat = 2 ^ 64 - 6 := by decide
  have hstart : (startVotingFrom 6 60 0).toNat = 0 := by decide
  have hheights : heights = List.range' 0 (2 ^ 64 - 6) := by
    unfold heights
    rw [processObligations_fst (by decide) (by decide) (by decide), hbound, hstart, Nat.sub_zero]
  rw [hheights]
  exact ⟨mem_range'_1.mpr (by omega), length_range'⟩

/-! ## The workers of a quorum -/

/-- `get_service_node_list_state`, for the given nodes. -/
def getServiceNodeListState (infos : KeyMap PublicKey ServiceNodeInfo) (keys : List PublicKey) :
    List (PublicKey × ServiceNodeInfo) :=
  if keys = [] then infos.toList
  else keys.filterMap (fun key => (infos.get? key).map (fun info => (key, info)))

/-- Which list a loop reads at its end. -/
inductive PastEnd
  | workers
  | workerStates
  deriving DecidableEq

/-- The inner loop, from the worker at `nodeIndex` on: the index of the worker with the key, and
the workers after it. The index is compared with the size only after the worker is read. -/
def skipAhead (key : PublicKey) : List PublicKey → ℕ → Except PastEnd (ℕ × List PublicKey)
  | [], _ => .error .workers
  | worker :: workers, nodeIndex =>
    if key ≠ worker then skipAhead key workers (nodeIndex + 1) else .ok (nodeIndex, workers)

/-- The loop over the workers, from `nodeIndex` and `worker_it` on: the nodes that are tested, each
with its index. -/
def workerLoop : List (PublicKey × ServiceNodeInfo) → List PublicKey → ℕ →
    Except PastEnd (List ((PublicKey × ServiceNodeInfo) × ℕ))
  | _, [], _ => .ok []
  | [], _ :: _, _ => .error .workerStates
  | node :: states, worker :: workers, nodeIndex => do
    let (index, rest) ← skipAhead node.1 (worker :: workers) nodeIndex
    let tested ← workerLoop states rest (index + 1)
    return (node, index) :: tested

/-- The workers that are still registered, each once and with its own index. -/
def registeredWorkers (infos : KeyMap PublicKey ServiceNodeInfo) (workers : List PublicKey)
    (nodeIndex : ℕ) : List ((PublicKey × ServiceNodeInfo) × ℕ) :=
  (workers.zipIdx nodeIndex).filterMap (fun (key, index) =>
    (infos.get? key).map (fun info => ((key, info), index)))

variable {infos : KeyMap PublicKey ServiceNodeInfo}

/-- A worker that is no longer registered is passed over, as long as another one follows. -/
theorem workerLoop_skip {states : List (PublicKey × ServiceNodeInfo)} {worker : PublicKey}
    (hgone : ∀ node ∈ states, node.1 ≠ worker) {workers : List PublicKey} (hmore : workers ≠ [])
    (nodeIndex : ℕ) :
    workerLoop states (worker :: workers) nodeIndex = workerLoop states workers (nodeIndex + 1) := by
  cases workers with
  | nil => exact absurd rfl hmore
  | cons next workers =>
    cases states with
    | nil => rfl
    | cons node =>
      have hskip : skipAhead node.1 (worker :: next :: workers) nodeIndex =
          skipAhead node.1 (next :: workers) (nodeIndex + 1) :=
        if_pos (hgone node mem_cons_self)
      unfold workerLoop
      rw [hskip]

/-- The loop from any worker on, with the states of the workers from there. -/
theorem workerLoop_eq_iff (workers : List PublicKey) (nodeIndex : ℕ) :
    workerLoop (workers.filterMap (fun key => (infos.get? key).map (fun info => (key, info)))) workers
        nodeIndex = .ok (registeredWorkers infos workers nodeIndex) ↔
      ∀ last ∈ workers.getLast?, infos.contains last = true := by
  induction workers generalizing nodeIndex with
  | nil => exact iff_of_true rfl (by simp)
  | cons worker workers ih =>
    cases hinfo : infos.get? worker with
    | none =>
      have hnone : infos.contains worker = false := by rw [KeyMap.contains, hinfo]; rfl
      cases workers with
      | nil => simp [workerLoop, hinfo, hnone]
      | cons _ workers =>
        rw [filterMap_cons_none (by rw [hinfo]; rfl), workerLoop_skip ?_ (by simp)]
        · rw [getLast?_cons_cons, ← ih (nodeIndex + 1)]
          simp [registeredWorkers, zipIdx_cons, hinfo]
        · -- the states are those of registered workers
          intro node hnode heq
          obtain ⟨key, -, hkey⟩ := mem_filterMap.mp hnode
          obtain ⟨info, hget, rfl⟩ := Option.map_eq_some_iff.mp hkey
          rw [show key = worker from heq, hinfo] at hget
          cases hget
    | some info =>
      have hsome : infos.contains worker = true := by rw [KeyMap.contains, hinfo]; rfl
      have hrun (states : List (PublicKey × ServiceNodeInfo)) :
          workerLoop ((worker, info) :: states) (worker :: workers) nodeIndex =
            (workerLoop states workers (nodeIndex + 1)).map (((worker, info), nodeIndex) :: ·) := by
        rw [workerLoop, skipAhead, if_neg (not_not.mpr rfl)]
        rfl
      have hlast : (∀ last ∈ (worker :: workers).getLast?, infos.contains last = true) ↔
          ∀ last ∈ workers.getLast?, infos.contains last = true := by
        cases workers with
        | nil => simp [hsome]
        | cons => rw [getLast?_cons_cons]
      rw [filterMap_cons_some (by rw [hinfo]; rfl), hrun, hlast, ← ih (nodeIndex + 1)]
      have hregistered : registeredWorkers infos (worker :: workers) nodeIndex =
          ((worker, info), nodeIndex) :: registeredWorkers infos workers (nodeIndex + 1) := by
        simp [registeredWorkers, zipIdx_cons, hinfo]
      rw [hregistered]
      cases workerLoop _ workers (nodeIndex + 1) with
      | error => exact iff_of_false nofun nofun
      | ok => simp [Except.map]

/-- The loop over the workers of a quorum ends and tests exactly those that are still registered,
each once and under its own index, exactly if there are no workers or the last one is still
registered. Otherwise it reads behind the end of a list. -/
theorem worker_loop_exact_iff (infos : KeyMap PublicKey ServiceNodeInfo) (quorum : Quorum) :
    workerLoop (getServiceNodeListState infos quorum.workers) quorum.workers 0 =
        .ok (registeredWorkers infos quorum.workers 0) ↔
      ∀ last ∈ quorum.workers.getLast?, infos.contains last = true := by
  unfold getServiceNodeListState
  split
  · rename_i hempty
    rw [hempty]
    exact iff_of_true (by unfold workerLoop; rfl) (by simp)
  · exact workerLoop_eq_iff quorum.workers 0

/-- The only worker of a quorum has been deregistered: the first thing the loop does is to read
behind the end of the empty list of states. -/
theorem worker_loop_past_end :
    workerLoop (getServiceNodeListState OrdSet.empty [1]) [1] 0 = .error .workerStates := rfl

end Xeqm.ServiceNodes
