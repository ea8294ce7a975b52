import Xeqm.ServiceNodes.VerifyBlock

/-!
# Stored checkpoints

The checkpoints of the chain database and the functions of `checkpoints` on them.
-/

namespace Xeqm.Checkpoints

open Cryptonote ServiceNodes Lib

/-- The tables `checkpoints` and `checkpoint_signatures`, with one row for a height. -/
structure Store where
  rows : OrdSet Checkpoint.height := OrdSet.empty
  /-- `is_read_only`. -/
  readOnly : Bool := false

namespace Store

/-- The signatures of a checkpoint in the order of the voters. -/
def sortSignatures (signatures : List QuorumSignature) : List QuorumSignature :=
  signatures.insertionSort (fun a b => a.voterIndex.toNat ≤ b.voterIndex.toNat)

/-- `load_checkpoint`. -/
def load (row : Checkpoint) : Checkpoint :=
  { row with signatures := sortSignatures row.signatures }

/-- `get_block_checkpoint`. -/
def getBlockCheckpoint (store : Store) (height : ℕ) : Option Checkpoint :=
  (store.rows.find? height).map load

/-- `update_block_checkpoint`, which throws if two signatures have the same voter. -/
def updateBlockCheckpoint (checkpoint : Checkpoint) (store : Store) : Option Store :=
  if (checkpoint.signatures.map QuorumSignature.voterIndex).Nodup then
    some { store with rows := (store.rows.erase checkpoint.height).insert checkpoint }
  else none

/-- `checkpoints::update_checkpoint`. -/
def updateCheckpoint (checkpoint : Checkpoint) (store : Store) : Bool × Store :=
  if store.readOnly then (true, store)
  else
    match updateBlockCheckpoint checkpoint store with
    | some store => (true, store)
    | none => (false, store)

/-- `remove_block_checkpoint`. -/
def removeBlockCheckpoint (height : ℕ) (store : Store) : Store :=
  { store with rows := store.rows.erase height }

/-- `checkpoints::add_checkpoint`, for a hash that can be parsed. -/
def addCheckpoint (height : ℕ) (hash : Hash) (store : Store) : Bool × Store :=
  match store.getBlockCheckpoint height with
  | some checkpoint => (hash = checkpoint.blockHash, store)
  | none => store.updateCheckpoint { type := .hardcoded, height, blockHash := hash }

/-- A checkpoint is for the height that it is read at. -/
theorem height_of_getBlockCheckpoint {store : Store} {height : ℕ} {checkpoint : Checkpoint}
    (h : store.getBlockCheckpoint height = some checkpoint) : checkpoint.height = height := by
  obtain ⟨row, hrow, rfl⟩ := Option.map_eq_some_iff.mp h
  exact (OrdSet.find?_eq_some_iff.mp hrow).2

/-- What is stored after an update. -/
theorem mem_updateCheckpoint {store : Store} {checkpoint row : Checkpoint}
    (h : row ∈ (store.updateCheckpoint checkpoint).2.rows) :
    row ∈ store.rows ∨
      (row = checkpoint ∧ (checkpoint.signatures.map QuorumSignature.voterIndex).Nodup) := by
  unfold updateCheckpoint updateBlockCheckpoint at h
  split at h
  · exact .inl h
  · by_cases hdistinct : (checkpoint.signatures.map QuorumSignature.voterIndex).Nodup
    · rw [if_pos hdistinct] at h
      rcases OrdSet.mem_insert.mp h with h | ⟨rfl, -⟩
      · exact .inl (OrdSet.mem_erase.mp h).1
      · exact .inr ⟨rfl, hdistinct⟩
    · rw [if_neg hdistinct] at h
      exact .inl h

end Store

end Xeqm.Checkpoints
