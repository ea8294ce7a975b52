import Mathlib.Data.Finset.Basic
import Xeqm.Pool.State

/-!
# The cache of input checks

`tx_memory_pool::check_tx_inputs` keeps its verdicts by transaction until the chain changes. What it
finds out depends on the call too: an approved blink may spend what recent blocks have spent, if
the chain can be rolled back, and an output may be locked until a time.
-/

namespace Xeqm.Pool

open Lib List

/-- What the check reads of the chain. A transaction is given by its id. -/
structure InputView where
  /-- What `Blockchain::check_tx_inputs` finds at a time apart from spent key images.
  `is_output_unlocked` reads the clock for outputs that are locked until a time. -/
  valid : ℕ → Hash → Bool
  /-- The key images of a transaction that the chain has as spent. -/
  spent : Hash → Finset KeyImage
  /-- Fixed hashes reach beyond the chain, so that transactions from blocks are not checked. -/
  perBlockCheckpoint : Bool := false
  height : ℕ
  immutableHeight : ℕ
  /-- The blocks above the immutable height and the key images that each spends, as far as they
  can be read. -/
  blocks : Option (List (ℕ × Option (List KeyImage)))

/-- A call at a time. It is for an approved blink if it has a rollback height to set. -/
structure InputCall where
  txid : Hash
  now : ℕ
  keptByBlock : Bool := false
  rollback : Option ℕ := none

namespace InputView

variable (chain : InputView)

/-- The loop over the blocks, from the last one on: the conflicts that are left, and the lowest
height of a block with one. -/
def scanBlocks : List (ℕ × Option (List KeyImage)) → Finset KeyImage × ℕ → Finset KeyImage × ℕ
  | [], found => found
  | (_, none) :: _, found => found
  | (height, some images) :: blocks, found =>
    scanBlocks blocks (images.foldl (fun (conflicts, earliest) image =>
      if image ∈ conflicts then (conflicts.erase image, min earliest height)
      else (conflicts, earliest)) found)

/-- The height to which the chain can be rolled back to get rid of conflicts. -/
def rollbackHeight (conflicts : Finset KeyImage) : Option ℕ :=
  if chain.height - chain.immutableHeight > 100 then none
  else
    match chain.blocks with
    | none => none
    | some blocks =>
      let (conflicts, earliest) := scanBlocks blocks.reverse (conflicts, chain.height)
      if conflicts = ∅ ∧ earliest < chain.height ∧ earliest > chain.immutableHeight then some earliest
      else none

/-- `check_tx_inputs` when the cache has nothing: the verdict and the rollback height. -/
def freshCheck (call : InputCall) : Bool × Option ℕ :=
  if chain.perBlockCheckpoint && call.keptByBlock then (true, call.rollback)
  else
    let valid := chain.valid call.now call.txid
    match call.rollback with
    | none => (valid && chain.spent call.txid = ∅, none)
    | some height =>
      if valid && chain.spent call.txid ≠ ∅ then
        match chain.rollbackHeight (chain.spent call.txid) with
        | none => (false, some height)
        | some earliest => (true, some (if height = 0 ∨ height > earliest then earliest else height))
      else (valid, some height)

/-- `check_tx_inputs`. -/
def checkTxInputs (cache : Hash → Option Bool) (call : InputCall) :
    (Bool × Option ℕ) × (Hash → Option Bool) :=
  match if call.keptByBlock then none else cache call.txid with
  | some ok => ((ok, call.rollback), cache)
  | none =>
    let result := chain.freshCheck call
    (result, if call.keptByBlock then cache else Function.update cache call.txid (some result.1))

/-- The results of calls one after another. -/
def checkAll (cache : Hash → Option Bool) : List InputCall → List (Bool × Option ℕ)
  | [] => []
  | call :: calls =>
    let (result, cache) := chain.checkTxInputs cache call
    result :: checkAll cache calls

/-- The height to which the chain is rolled back for a transaction with spent key images. -/
def blinkRollback (txid : Hash) : Option ℕ :=
  if chain.spent txid ≠ ∅ then chain.rollbackHeight (chain.spent txid) else none

/-- A call is for an approved blink that is valid at its time. -/
def validBlink (call : InputCall) : Bool :=
  chain.valid call.now call.txid && call.rollback.isSome

/-- After the first call, the cache does no harm to the second: one of them is for a block, or
they are about different transactions. Otherwise both find the transaction valid or both do not,
if none of its key images is spent. If a rollback helps, both or none are for a valid blink, and
the rollback height is low enough already. -/
def Compatible (first second : InputCall) : Prop :=
  first.keptByBlock = false → second.keptByBlock = false → first.txid = second.txid →
    (chain.spent second.txid = ∅ →
      chain.valid first.now first.txid = chain.valid second.now second.txid) ∧
    ∀ earliest, chain.blinkRollback second.txid = some earliest →
      chain.validBlink first = chain.validBlink second ∧
        (chain.validBlink second = true → ∀ height, second.rollback = some height →
          height ≤ earliest ∧ (height = 0 → earliest = 0))

variable {chain} {call first : InputCall} {cache : Hash → Option Bool}

/-- What the check finds out about a transaction that is not from a block. -/
theorem freshCheck_eq (hkept : call.keptByBlock = false) :
    chain.freshCheck call =
      match chain.blinkRollback call.txid with
      | none => (chain.valid call.now call.txid && chain.spent call.txid = ∅, call.rollback)
      | some earliest => (chain.validBlink call, call.rollback.map (fun height =>
          if chain.validBlink call ∧ (height = 0 ∨ height > earliest) then earliest else height)) := by
  unfold freshCheck blinkRollback validBlink
  rw [hkept, Bool.and_false, if_neg (by decide)]
  by_cases hspent : chain.spent call.txid = ∅
  · cases chain.valid call.now call.txid <;> cases call.rollback <;> simp [hspent]
  · cases chain.rollbackHeight (chain.spent call.txid) <;>
      cases chain.valid call.now call.txid <;> cases call.rollback <;> simp [hspent]

/-- Whether the verdict of an earlier call, with the rollback height left alone, is what the
check finds. -/
theorem freshCheck_eq_iff (hfirst : first.keptByBlock = false) (hcall : call.keptByBlock = false)
    (hsame : first.txid = call.txid) :
    ((chain.freshCheck first).1, call.rollback) = chain.freshCheck call ↔
      chain.Compatible first call := by
  unfold Compatible
  rw [freshCheck_eq hcall, freshCheck_eq hfirst, hsame]
  cases hrollback : chain.blinkRollback call.txid with
  | none => by_cases hspent : chain.spent call.txid = ∅ <;> simp [hfirst, hcall, hspent]
  | some earliest =>
    have hspent : chain.spent call.txid ≠ ∅ := by
      intro hspent
      simp [blinkRollback, hspent] at hrollback
    cases call.rollback with
    | none => simp [hfirst, hcall, hspent]
    | some height =>
      have hkept : (height = 0 ∨ earliest < height → height = earliest) ↔
          height ≤ earliest ∧ (height = 0 → earliest = 0) := by omega
      simp [hfirst, hcall, hspent, hkept]

/-- The cache has the verdicts of the calls so far, and no others. -/
def Remembers (chain : InputView) (cache : Hash → Option Bool) (seen : List InputCall) : Prop :=
  ∀ txid ok, cache txid = some ok ↔ ∃ call ∈ seen, call.keptByBlock = false ∧
    call.txid = txid ∧ (chain.freshCheck call).1 = ok

variable {seen : List InputCall}

/-- A call gives what the check finds exactly if it is compatible with the calls before. -/
theorem Remembers.check_eq_iff (h : Remembers chain cache seen) :
    (chain.checkTxInputs cache call).1 = chain.freshCheck call ↔
      ∀ first ∈ seen, chain.Compatible first call := by
  unfold checkTxInputs
  cases hkept : call.keptByBlock with
  | true => exact iff_of_true rfl fun first _ _ hcall => by simp [hkept] at hcall
  | false =>
    cases hcache : cache call.txid with
    | none =>
      refine iff_of_true rfl fun first hmem hfirst _ hsame => ?_
      cases hcache.symm.trans ((h _ _).mpr ⟨first, hmem, hfirst, hsame, rfl⟩)
    | some =>
      constructor
      · intro hcheck first hmem hfirst hcall hsame
        have hok := hcache.symm.trans ((h _ _).mpr ⟨first, hmem, hfirst, hsame, rfl⟩)
        cases hok
        exact (freshCheck_eq_iff hfirst hkept hsame).mp hcheck hfirst hcall hsame
      · intro hcompatible
        obtain ⟨first, hmem, hfirst, hsame, rfl⟩ := (h _ _).mp hcache
        exact (freshCheck_eq_iff hfirst hkept hsame).mpr (hcompatible first hmem)

/-- A call that gives what the check finds is remembered. -/
theorem Remembers.check (h : Remembers chain cache seen)
    (hcheck : (chain.checkTxInputs cache call).1 = chain.freshCheck call) :
    Remembers chain (chain.checkTxInputs cache call).2 (call :: seen) := by
  intro txid ok
  have hseen := h txid ok
  unfold checkTxInputs at hcheck ⊢
  cases hkept : call.keptByBlock with
  | true => simp [hkept, hseen]
  | false =>
    cases hcache : cache call.txid with
    | none => grind [Function.update_apply]
    | some found => grind

theorem checkAll_eq_iff (h : Remembers chain cache seen) (calls : List InputCall) :
    chain.checkAll cache calls = calls.map chain.freshCheck ↔
      calls.Pairwise chain.Compatible ∧
        ∀ call ∈ calls, ∀ first ∈ seen, chain.Compatible first call := by
  induction calls generalizing cache seen with
  | nil => simp [checkAll]
  | cons call calls ih =>
    have hstep : chain.checkAll cache (call :: calls) = (call :: calls).map chain.freshCheck ↔
        (chain.checkTxInputs cache call).1 = chain.freshCheck call ∧
          chain.checkAll (chain.checkTxInputs cache call).2 calls = calls.map chain.freshCheck :=
      cons_eq_cons
    rw [hstep, and_congr_right (fun hcheck => ih (h.check hcheck)), h.check_eq_iff, pairwise_cons]
    simp only [forall_mem_cons, forall_and]
    tauto

end InputView

end Xeqm.Pool
