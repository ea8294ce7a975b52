import Xeqm.ChainDb.Store

/-!
# Where the kept history starts

The store keeps the first height of its history twice, in memory and in the
tables. Statements of a write transaction that is rolled back are undone in the
tables only, so the two agree as long as no trim is undone.
-/

namespace Xeqm.ChainDb

open Cryptonote Lib List

/-! ## What the statements do to the blocks -/

/-- Only key images change. -/
def OnlyKeyImages (t t' : Tables) : Prop := t' = { t with keyImages := t'.keyImages }

instance : Std.Refl OnlyKeyImages := ⟨fun _ => rfl⟩

instance : IsTrans Tables OnlyKeyImages := ⟨fun t t' t'' h h' => by
  unfold OnlyKeyImages at h h' ⊢
  rw [h', h]⟩

theorem addSpentKeys_onlyKeyImages {vin : List TxIn} : Keeps OnlyKeyImages (addSpentKeys vin) := by
  induction vin with
  | nil => exact .pure
  | cons input _ ih =>
    cases input with
    | toKey keyImage =>
      have hkey : Keeps OnlyKeyImages (addSpentKey keyImage) := by
        refine .read fun t => ?_
        exact .bind rejectIf_keeps fun _ => .modify fun _ => rfl
      exact .bind hkey fun _ => ih
    | _ => exact .pure

theorem removeSpentKeys_onlyKeyImages {vin : List TxIn} :
    Keeps OnlyKeyImages (removeSpentKeys vin) := by
  induction vin with
  | nil => exact .pure
  | cons input _ ih =>
    cases input with
    | toKey keyImage =>
      have hkey : Keeps OnlyKeyImages (removeSpentKey keyImage) := .modify fun _ => rfl
      exact .bind hkey fun _ => ih
    | _ => exact ih

/-- The blocks and the stored start are the same. -/
def SameBlocks (t t' : Tables) : Prop := t'.blocks = t.blocks ∧ t'.historyStart = t.historyStart

instance : Std.Refl SameBlocks := ⟨fun _ => ⟨rfl, rfl⟩⟩

instance : IsTrans Tables SameBlocks :=
  ⟨fun _ _ _ h h' => ⟨h'.1.trans h.1, h'.2.trans h.2⟩⟩

theorem OnlyKeyImages.sameBlocks (t t' : Tables) (h : OnlyKeyImages t t') : SameBlocks t t' := by
  rw [h]
  exact ⟨rfl, rfl⟩

theorem addTransactionData_sameBlocks {historyStart : ℕ} {txHash : Hash} {tx : Tx} :
    Keeps SameBlocks (addTransactionData historyStart txHash tx) := by
  refine .read fun t => ?_
  refine .bind (query_keeps _) fun id => ?_
  refine .bind rejectIf_keeps fun _ => ?_
  refine .bind (query_keeps _) fun trimmed => ?_
  refine .bind rejectIf_keeps fun _ => ?_
  exact .bind (.modify (fun _ => ⟨rfl, rfl⟩)) fun _ => .pure

theorem addOutputs_sameBlocks (txHash : Hash) (tx : Tx) (i : ℕ) (outputs : List TxOut) :
    Keeps SameBlocks (addOutputs txHash tx i outputs) := by
  induction outputs generalizing i with
  | nil => exact .pure
  | cons _ _ ih =>
    apply Keeps.bind (R := SameBlocks)
    · unfold addOutput
      split
      · exact .throw
      · refine .bind rejectIf_keeps (fun _ => ?_)
        refine .read fun t => ?_
        exact .bind (.modify (fun _ => ⟨rfl, rfl⟩)) fun _ => .pure
    · exact fun _ => .bind (ih (i + 1)) fun _ => .pure

theorem addOutputBlacklist_sameBlocks {blacklist : List ℕ} :
    Keeps SameBlocks (addOutputBlacklist blacklist) := by
  refine .pure_ite fun _ => ?_
  refine .read fun t => ?_
  refine .bind (.modify (fun _ => ⟨rfl, rfl⟩)) fun _ => ?_
  exact rejectIf_keeps

theorem storeTransaction_sameBlocks {historyStart : ℕ} {txHash : Hash} {tx : Tx} :
    Keeps SameBlocks (storeTransaction historyStart txHash tx) := by
  refine .bind addTransactionData_sameBlocks fun _ => ?_
  refine .bind (addOutputs_sameBlocks txHash tx 0 tx.vout) fun indices => ?_
  exact .ite_pure fun _ => addOutputBlacklist_sameBlocks

theorem addTransaction_sameBlocks (historyStart : ℕ) (txHash : Hash) (tx : Tx) :
    Keeps SameBlocks (addTransaction historyStart txHash tx) := by
  refine .ite (fun _ => storeTransaction_sameBlocks) fun _ => ?_
  refine .bind (addSpentKeys_onlyKeyImages.mono OnlyKeyImages.sameBlocks) fun supported => ?_
  exact .ite (fun _ => storeTransaction_sameBlocks)
    (fun _ => removeSpentKeys_onlyKeyImages.mono OnlyKeyImages.sameBlocks)

/-! ## Tables with a trimmed history -/

/-- The blocks are numbered from zero, exactly those below the start have no body,
and the start is not above the chain. -/
structure Tables.Trimmed (t : Tables) : Prop where
  heights : t.blocks.map BlockRow.height = List.range t.blocks.length
  bodies : ∀ row ∈ t.blocks, row.body = none ↔ row.height < t.historyStart
  start_le : t.historyStart ≤ t.blocks.length

namespace Tables.Trimmed

variable {t t' : Tables}

theorem chainHeight_eq (h : t.Trimmed) : chainHeight t = t.blocks.length :=
  nextKey_of_map_eq_range h.heights

theorem of_sameBlocks (h : t.Trimmed) (hsame : SameBlocks t t') : t'.Trimmed := by
  obtain ⟨hblocks, hstart⟩ := hsame
  constructor
  · rw [hblocks]
    exact h.heights
  · rw [hblocks, hstart]
    exact h.bodies
  · rw [hblocks, hstart]
    exact h.start_le

/-- A block added on top has its body. -/
theorem addOnTop (h : t.Trimmed) (hash : Hash) (rctOutputs : ℕ) (block : Block) :
    ({ t with blocks := t.blocks ++ [⟨chainHeight t, hash, rctOutputs, some block⟩] } :
      Tables).Trimmed := by
  have hle := h.start_le
  constructor
  · simp [h.heights, h.chainHeight_eq, range_succ]
  · intro row hrow
    rcases mem_append.mp hrow with hrow | hrow
    · exact h.bodies row hrow
    · obtain rfl := mem_singleton.mp hrow
      simp [h.chainHeight_eq, hle]
  · simp only [length_append, length_singleton]
    omega

/-- The top block goes while its body is there. -/
theorem deleteTop (h : t.Trimmed) {top : BlockRow} (htop : top ∈ t.blocks)
    (hheight : top.height + 1 = chainHeight t) (hbody : top.body ≠ none) :
    (t.deleteBlock top.height).Trimmed := by
  rw [h.chainHeight_eq] at hheight
  have hheights : (t.deleteBlock top.height).blocks.map BlockRow.height =
      List.range top.height := by
    apply map_filter_ne_of_map_eq_range
    rw [hheight]
    exact h.heights
  have hlength : (t.deleteBlock top.height).blocks.length = top.height := by
    have := congrArg List.length hheights
    simpa using this
  constructor
  · rw [hlength, hheights]
  · intro row hrow
    exact h.bodies row (mem_of_mem_filter hrow)
  · rw [hlength]
    have := mt (h.bodies top htop).mpr hbody
    exact not_lt.mp this

/-- A trim from the stored start moves the start and drops the bodies below it. -/
theorem trim (h : t.Trimmed) {finish : ℕ} (hle : t.historyStart ≤ finish)
    (hfinish : finish ≤ chainHeight t) : (t.trim t.historyStart finish).Trimmed := by
  rw [h.chainHeight_eq] at hfinish
  have hheight (row : BlockRow) : (row.dropBody t.historyStart finish).height = row.height := by
    unfold BlockRow.dropBody
    split <;> rfl
  constructor
  · simpa [Tables.trim, Function.comp_def, hheight] using h.heights
  · intro row hrow
    obtain ⟨old, hold, rfl⟩ := mem_map.mp hrow
    have hbody := h.bodies old hold
    rw [hheight]
    change _ ↔ old.height < finish
    unfold BlockRow.dropBody
    split
    · rename_i hrange
      simp [hrange.2]
    · rename_i hrange
      rw [hbody]
      omega
  · simpa [Tables.trim] using hfinish

end Tables.Trimmed

/-- Trimmed tables stay trimmed, from the same start. -/
def StaysTrimmed (t t' : Tables) : Prop :=
  t'.historyStart = t.historyStart ∧ (t.Trimmed → t'.Trimmed)

instance : Std.Refl StaysTrimmed := ⟨fun _ => ⟨rfl, fun h => h⟩⟩

instance : IsTrans Tables StaysTrimmed :=
  ⟨fun _ _ _ h h' => ⟨h'.1.trans h.1, fun ht => h'.2 (h.2 ht)⟩⟩

theorem SameBlocks.staysTrimmed (t t' : Tables) (h : SameBlocks t t') : StaysTrimmed t t' :=
  ⟨h.2, fun ht => ht.of_sameBlocks h⟩

theorem addBlock_staysTrimmed (historyStart : ℕ) (input : BlockInput) :
    Keeps StaysTrimmed (addBlock historyStart input) := by
  have hrow : Keeps StaysTrimmed (addBlockRow input) := by
    refine .read fun t => ?_
    refine .bind (query_keeps _) fun known => ?_
    refine .bind rejectIf_keeps fun _ => ?_
    refine .bind (query_keeps _) fun rctOutputs => ?_
    exact .modify fun t => ⟨rfl, fun ht => ht.addOnTop _ _ _⟩
  refine .bind rejectIf_keeps fun _ => ?_
  refine .bind rejectIf_keeps fun _ => ?_
  refine .read fun t => ?_
  refine .bind (.forM (fun entry _ => ?_)) fun _ => ?_
  · exact (addTransaction_sameBlocks historyStart entry.1 entry.2).mono SameBlocks.staysTrimmed
  · exact .bind hrow fun _ => .pure

theorem removeTopBlock_staysTrimmed : Keeps StaysTrimmed removeTopBlock := by
  intro t
  rcases removeTopBlock_cases with ⟨e, hrun⟩ | ⟨popped, top, htop, hheight, hbody, hrun⟩
  · rw [hrun]
    exact Std.Refl.refl t
  · rw [hrun]
    exact ⟨rfl, fun ht => ht.deleteTop htop hheight (by simp [hbody])⟩

/-! ## Operations of the store -/

/-- An operation on the store. -/
inductive StoreOp
  | addBlock (input : BlockInput)
  | popBlock
  | trimHistory
  | setHistory (blocks : ℕ)
  | reset
  | addAltBlock (row : AltBlockRow)
  | removeAltBlock (hash : Hash)
  | dropAltBlocks
  | batchStart
  | batchStop
  | batchAbort
  | blockWtxnStart
  | blockWtxnStop
  | blockWtxnAbort

/-- What an operation runs. -/
def StoreOp.run : StoreOp → StoreM Unit
  | .addBlock input => do let _ ← storeBlock input
  | .popBlock => do let _ ← ChainDb.popBlock
  | .trimHistory => ChainDb.trimHistory
  | .setHistory blocks => ChainDb.setHistory blocks
  | .reset => ChainDb.reset
  | .addAltBlock row => ChainDb.addAltBlock row
  | .removeAltBlock hash => ChainDb.removeAltBlock hash
  | .dropAltBlocks => ChainDb.dropAltBlocks
  | .batchStart => do let _ ← ChainDb.batchStart
  | .batchStop => ChainDb.batchStop
  | .batchAbort => ChainDb.batchAbort
  | .blockWtxnStart => ChainDb.blockWtxnStart
  | .blockWtxnStop => ChainDb.blockWtxnStop
  | .blockWtxnAbort => ChainDb.blockWtxnAbort

/-- The store after an operation, whether it returned or threw. -/
def StoreOp.after (op : StoreOp) (s : Store) : Store := finalState (op.run s)

namespace Store

/-- The start in memory is the stored one, and the bodies below it, and only those,
are gone. -/
structure InStep (s : Store) : Prop where
  stored : s.historyStart = s.tables.historyStart
  bodies : ∀ row ∈ s.tables.blocks, row.body = none ↔ row.height < s.historyStart

/-- In step, with trimmed tables both on disk and in the open write transaction. -/
structure Sound (s : Store) : Prop where
  disk : s.disk.Trimmed
  tables : s.tables.Trimmed
  stored : s.historyStart = s.tables.historyStart

/-- The store without its write transaction, nothing of which is kept. -/
def rolledBack (s : Store) : Store := { s with write := none, batchActive := false }

/-- Whether an operation rolls the open write transaction back: it aborts the
transaction, or it commits it against the constraints. -/
def RollsBack (s : Store) : StoreOp → Prop
  | .batchAbort => s.write.isSome ∧ s.batchTransactions ∧ s.batchActive
  | .batchStop =>
    s.write.isSome ∧ s.batchTransactions ∧ s.batchActive ∧ ¬ s.tables.foreignKeysHold
  | .blockWtxnAbort => s.write.isSome ∧ ¬ s.batchActive
  | .blockWtxnStop => s.write.isSome ∧ ¬ s.batchActive ∧ ¬ s.tables.foreignKeysHold
  | _ => False

/-- No trim has moved the start in a write transaction that is rolled back. -/
def UndoesNoTrim (s : Store) (op : StoreOp) : Prop :=
  s.RollsBack op → s.tables.historyStart = s.disk.historyStart

variable {s : Store} {op : StoreOp}

theorem Sound.inStep (h : s.Sound) : s.InStep :=
  ⟨h.stored, fun row hrow => by rw [h.stored]; exact h.tables.bodies row hrow⟩

theorem Sound.of_closed (hdisk : s.disk.Trimmed) (hwrite : s.write = none)
    (hstored : s.historyStart = s.disk.historyStart) : s.Sound := by
  constructor
  · exact hdisk
  · rw [tables_of_closed hwrite]
    exact hdisk
  · rw [tables_of_closed hwrite]
    exact hstored

section

variable (h : s.Sound)

include h

/-- Statements that trim nothing, inside the open write transaction. -/
theorem Sound.onWriteConn {α : Type} {statements : TableM α}
    (hstatements : Keeps StaysTrimmed statements) :
    (finalState (ChainDb.onWriteConn statements s)).Sound := by
  cases hwrite : s.write with
  | none => simpa [ChainDb.onWriteConn, hwrite] using h
  | some t =>
    have htables := tables_of_open hwrite
    have hfinal : finalState (ChainDb.onWriteConn statements s) =
        { s with write := some (finalState (statements t)) } := by
      cases hrun : statements t with
      | ok => rw [onWriteConn_eq_ok hwrite hrun, finalState_ok, finalState_ok]
      | error => rw [onWriteConn_eq_error hwrite hrun, finalState_error, finalState_error]
    obtain ⟨hstart, hkept⟩ := hstatements t
    rw [hfinal]
    constructor
    · exact h.disk
    · exact hkept (htables ▸ h.tables)
    · change s.historyStart = (finalState (statements t)).historyStart
      rw [hstart, h.stored, htables]

/-- Statements that trim nothing, in the open write transaction or in one of their
own. -/
theorem Sound.inWriteTxn {statements : TableM Unit} (hstatements : Keeps StaysTrimmed statements) :
    (finalState (ChainDb.inWriteTxn statements s)).Sound := by
  cases hwrite : s.write with
  | some =>
    have hrun : ChainDb.inWriteTxn statements s = ChainDb.onWriteConn statements s := by
      simp [ChainDb.inWriteTxn, hwrite]
    rw [hrun]
    exact h.onWriteConn hstatements
  | none =>
    cases hrun : statements s.disk with
    | error => simpa [ChainDb.inWriteTxn, hwrite, hrun] using h
    | ok _ t =>
      obtain ⟨hstart, hkept⟩ := hstatements.of_ok hrun
      by_cases hkeys : t.foreignKeysHold = true
      · simp only [ChainDb.inWriteTxn, hwrite, hrun, hkeys, if_true, Option.isSome_none,
          Bool.false_eq_true, if_false, finalState_ok]
        apply Sound.of_closed
        · exact hkept h.disk
        · rfl
        · rw [hstart, h.stored, tables_of_closed hwrite]
      · simpa [ChainDb.inWriteTxn, hwrite, hrun, hkeys] using h

/-- Statements that trim nothing, in the write transaction of a block. -/
theorem Sound.inBlockTxn {α : Type} {statements : TableM α}
    (hstatements : Keeps StaysTrimmed statements) :
    (finalState (ChainDb.inBlockTxn statements s)).Sound := by
  cases hwrite : s.write with
  | some =>
    cases hbatch : s.batchActive with
    | true =>
      rw [inBlockTxn_of_batch hwrite hbatch]
      exact h.onWriteConn hstatements
    | false =>
      rw [inBlockTxn_of_open hwrite hbatch]
      exact h
  | none =>
    have hstored : s.historyStart = s.disk.historyStart := tables_of_closed hwrite ▸ h.stored
    have hsame : ({ s with batchActive := false } : Store).Sound :=
      Sound.of_closed h.disk hwrite hstored
    rw [inBlockTxn_of_closed hwrite]
    cases hrun : statements s.disk with
    | error => exact hsame
    | ok _ t =>
      obtain ⟨hstart, hkept⟩ := hstatements.of_ok hrun
      by_cases hkeys : t.foreignKeysHold = true
      · simp only [hkeys, if_true, finalState_ok]
        apply Sound.of_closed
        · exact hkept h.disk
        · exact hwrite
        · rw [hstart]
          exact hstored
      · simpa [hkeys] using hsame

/-- A trim moves both starts, in the tables of the open write transaction or on
disk. -/
theorem Sound.trimHistoryTo {finish : ℕ} (hfinish : finish ≤ chainHeight s.tables) :
    (finalState (ChainDb.trimHistoryTo finish s)).Sound := by
  unfold ChainDb.trimHistoryTo
  rw [get_bind_run]
  by_cases hle : finish ≤ s.historyStart
  · simpa [hle] using h
  · rw [if_neg hle]
    have htrimmed : (s.tables.trim s.historyStart finish).Trimmed := by
      rw [h.stored] at hle ⊢
      exact h.tables.trim (le_of_not_ge hle) hfinish
    cases hwrite : s.write with
    | some t =>
      have hrun : ChainDb.inWriteTxn (modify (Tables.trim s.historyStart finish)) s =
          .ok () { s with write := some (t.trim s.historyStart finish) } := by
        simp [ChainDb.inWriteTxn, ChainDb.onWriteConn, hwrite]
      rw [bind_run_of_ok hrun, modify_run, finalState_ok]
      rw [tables_of_open hwrite] at htrimmed
      exact ⟨h.disk, htrimmed, rfl⟩
    | none =>
      rw [tables_of_closed hwrite] at htrimmed
      have hrun := trimTables_of_closed hwrite finish
      split at hrun
      · rw [bind_run_of_ok hrun, modify_run, finalState_ok]
        exact .of_closed htrimmed hwrite rfl
      · rw [bind_run_of_error hrun]
        exact h

theorem Sound.trimHistory : (finalState (ChainDb.trimHistory s)).Sound := by
  unfold ChainDb.trimHistory
  rw [get_bind_run]
  split
  · exact h
  split
  · exact h
  apply h.trimHistoryTo
  have htarget : historyTrimTarget s ≤ chainHeight s.tables := by
    unfold historyTrimTarget
    split <;> omega
  omega

theorem Sound.setHistory (blocks : ℕ) : (finalState (ChainDb.setHistory blocks s)).Sound := by
  unfold ChainDb.setHistory
  rw [get_bind_run]
  split
  · exact h
  split
  · exact h
  have hsame : Keeps StaysTrimmed (modify (fun t => { t with history := blocks }) : TableM Unit) :=
    Keeps.modify fun t => SameBlocks.staysTrimmed _ _ ⟨rfl, rfl⟩
  have hset := h.inWriteTxn hsame
  apply finalState_bind (P := fun s : Store => s.Sound) hset
  intro _ s' hrun
  rw [hrun] at hset
  exact ⟨hset.disk, hset.tables, hset.stored⟩

theorem Sound.reset : (finalState (ChainDb.reset s)).Sound := by
  unfold ChainDb.reset
  rw [get_bind_run]
  split
  · exact h
  rename_i hwrite
  apply Sound.of_closed
  · exact ⟨rfl, fun row hrow => absurd hrow not_mem_nil, Nat.zero_le _⟩
  · simpa using hwrite
  · rfl

/-- A write transaction may begin. -/
theorem Sound.beginWrite (hwrite : s.write = none) (batch : Bool) :
    ({ s with write := some s.disk, batchActive := batch } : Store).Sound := by
  refine ⟨h.disk, h.disk, ?_⟩
  rw [← tables_of_closed hwrite]
  exact h.stored

/-- A write transaction that is committed may end. -/
theorem Sound.endWrite {commit : Bool}
    (hcommit : s.write.isSome → commit = true ∧ s.tables.foreignKeysHold) :
    (finalState (ChainDb.endWrite commit s)).Sound := by
  cases hwrite : s.write with
  | none =>
    simp only [ChainDb.endWrite, hwrite, finalState_ok]
    exact .of_closed h.disk rfl (tables_of_closed hwrite ▸ h.stored)
  | some =>
    have htables := tables_of_open hwrite
    obtain ⟨rfl, hkeys⟩ := hcommit (by simp [hwrite])
    rw [htables] at hkeys
    simp only [ChainDb.endWrite, hwrite, hkeys, if_true, finalState_ok]
    exact .of_closed (htables ▸ h.tables) rfl (htables ▸ h.stored)

end

/-- What needs a batch does nothing without one. -/
theorem requireBatchWriter_bind (m : StoreM Unit) :
    finalState ((requireBatchWriter >>= fun _ => m) s) =
      if s.batchTransactions ∧ s.batchActive then finalState (m s) else s := by
  unfold requireBatchWriter
  rw [bind_assoc, get_bind_run]
  cases s.batchTransactions <;> cases s.batchActive <;> rfl

/-- Rolling back ends in the store without its write transaction. -/
theorem RollsBack.after_eq (h : s.RollsBack op) : op.after s = s.rolledBack := by
  have hclosed (commit : Bool) (hwrite : s.write.isSome = true)
      (hkeys : commit = true → ¬ s.tables.foreignKeysHold = true) :
      finalState (ChainDb.endWrite commit s) = s.rolledBack := by
    obtain ⟨t, ht⟩ := Option.isSome_iff_exists.mp hwrite
    rw [tables_of_open ht] at hkeys
    cases commit with
    | false => simp [ChainDb.endWrite, ht, rolledBack]
    | true => simp [ChainDb.endWrite, ht, rolledBack, hkeys rfl]
  cases op with
  | batchAbort =>
    obtain ⟨hwrite, htransactions, hactive⟩ := h
    change finalState (ChainDb.batchAbort s) = _
    unfold ChainDb.batchAbort
    rw [requireBatchWriter_bind, if_pos ⟨htransactions, hactive⟩]
    exact hclosed false hwrite fun h => by cases h
  | batchStop =>
    obtain ⟨hwrite, htransactions, hactive, hkeys⟩ := h
    change finalState (ChainDb.batchStop s) = _
    unfold ChainDb.batchStop
    rw [requireBatchWriter_bind, if_pos ⟨htransactions, hactive⟩]
    exact hclosed true hwrite fun _ => hkeys
  | blockWtxnAbort =>
    obtain ⟨hwrite, hactive⟩ := h
    obtain ⟨t, ht⟩ := Option.isSome_iff_exists.mp hwrite
    change finalState (ChainDb.blockWtxnAbort s) = _
    rw [blockWtxnAbort_of_open ht, if_neg hactive]
    exact hclosed false hwrite fun h => by cases h
  | blockWtxnStop =>
    obtain ⟨hwrite, hactive, hkeys⟩ := h
    obtain ⟨t, ht⟩ := Option.isSome_iff_exists.mp hwrite
    change finalState (ChainDb.blockWtxnStop s) = _
    rw [blockWtxnStop_of_open ht, if_neg hactive]
    exact hclosed true hwrite fun _ => hkeys
  | _ => exact absurd h fun h => h

/-- An operation that rolls nothing back keeps the store sound. -/
theorem Sound.after_of_not_rollsBack (h : s.Sound) (hnot : ¬ s.RollsBack op) :
    (op.after s).Sound := by
  cases op with
  | addBlock input =>
    change (finalState ((storeBlock input >>= fun _ => pure ()) s)).Sound
    rw [finalState_bind_pure]
    exact h.onWriteConn (addBlock_staysTrimmed s.historyStart input)
  | popBlock =>
    change (finalState ((ChainDb.popBlock >>= fun _ => pure ()) s)).Sound
    rw [finalState_bind_pure]
    exact h.inBlockTxn removeTopBlock_staysTrimmed
  | trimHistory => exact h.trimHistory
  | setHistory blocks => exact h.setHistory blocks
  | reset => exact h.reset
  | addAltBlock | removeAltBlock =>
    apply h.inWriteTxn
    refine Keeps.read fun t => ?_
    refine Keeps.bind rejectIf_keeps fun _ => ?_
    exact Keeps.modify fun t => SameBlocks.staysTrimmed _ _ ⟨rfl, rfl⟩
  | dropAltBlocks =>
    change (finalState (ChainDb.dropAltBlocks s)).Sound
    apply h.inWriteTxn
    exact Keeps.modify fun t => SameBlocks.staysTrimmed _ _ ⟨rfl, rfl⟩
  | batchStart =>
    change (finalState ((ChainDb.batchStart >>= fun _ => pure ()) s)).Sound
    rw [finalState_bind_pure]
    unfold ChainDb.batchStart
    rw [get_bind_run]
    cases htransactions : s.batchTransactions with
    | false => exact h
    | true =>
      cases hactive : s.batchActive with
      | true => exact h
      | false =>
        cases hwrite : s.write with
        | some => exact h
        | none => exact h.beginWrite hwrite true
  | batchStop =>
    change (finalState (ChainDb.batchStop s)).Sound
    unfold ChainDb.batchStop
    rw [requireBatchWriter_bind]
    split
    · rename_i hbatch
      exact h.endWrite (fun hwrite => ⟨rfl, by
        by_contra hkeys
        exact hnot ⟨hwrite, hbatch.1, hbatch.2, hkeys⟩⟩)
    · exact h
  | batchAbort =>
    change (finalState (ChainDb.batchAbort s)).Sound
    unfold ChainDb.batchAbort
    rw [requireBatchWriter_bind]
    split
    · rename_i hbatch
      exact h.endWrite fun hwrite => absurd ⟨hwrite, hbatch.1, hbatch.2⟩ hnot
    · exact h
  | blockWtxnStart =>
    change (finalState (ChainDb.blockWtxnStart s)).Sound
    cases hwrite : s.write with
    | none =>
      rw [blockWtxnStart_of_closed hwrite]
      exact h.beginWrite hwrite false
    | some =>
      cases hbatch : s.batchActive with
      | true =>
        rw [blockWtxnStart_of_batch hwrite hbatch]
        exact h
      | false =>
        rw [blockWtxnStart_of_open hwrite hbatch]
        exact h
  | blockWtxnStop =>
    change (finalState (ChainDb.blockWtxnStop s)).Sound
    cases hwrite : s.write with
    | none =>
      unfold ChainDb.blockWtxnStop
      rw [bind_run_of_error (requireWriter_of_closed hwrite)]
      exact h
    | some t =>
      rw [blockWtxnStop_of_open hwrite]
      split
      · exact h
      rename_i hactive
      exact h.endWrite (fun hsome => ⟨rfl, by
        by_contra hkeys
        exact hnot ⟨hsome, hactive, hkeys⟩⟩)
  | blockWtxnAbort =>
    change (finalState (ChainDb.blockWtxnAbort s)).Sound
    cases hwrite : s.write with
    | none =>
      unfold ChainDb.blockWtxnAbort
      rw [bind_run_of_error (requireWriter_of_closed hwrite)]
      exact h
    | some t =>
      rw [blockWtxnAbort_of_open hwrite]
      split
      · exact h
      · rename_i hactive
        exact absurd ⟨by simp [hwrite], hactive⟩ hnot

/-- A rollback that undoes no trim keeps the store sound. -/
theorem Sound.rolledBack (h : s.Sound) (hstart : s.tables.historyStart = s.disk.historyStart) :
    s.rolledBack.Sound :=
  .of_closed h.disk rfl (h.stored.trans hstart)

theorem Sound.after (h : s.Sound) (hop : s.UndoesNoTrim op) : (op.after s).Sound := by
  by_cases hroll : s.RollsBack op
  · rw [hroll.after_eq]
    exact h.rolledBack (hop hroll)
  · exact h.after_of_not_rollsBack hroll

/-- After an operation the starts agree only if it undid no trim. -/
theorem Sound.undoesNoTrim (h : s.Sound) (hafter : (op.after s).InStep) : s.UndoesNoTrim op := by
  intro hroll
  rw [hroll.after_eq] at hafter
  exact h.stored.symm.trans hafter.stored

end Store

/-! ## Runs of operations -/

/-- A property of every store reached in a run of operations. -/
def AfterEach (P : Store → Prop) : Store → List StoreOp → Prop
  | _, [] => True
  | s, op :: ops => P (op.after s) ∧ AfterEach P (op.after s) ops

/-- A property of every operation of a run, in the store it finds. -/
def EachStep (P : Store → StoreOp → Prop) : Store → List StoreOp → Prop
  | _, [] => True
  | s, op :: ops => P s op ∧ EachStep P (op.after s) ops

/-- A store as `open` leaves it: the start read from trimmed tables. -/
structure Store.Opened (s : Store) : Prop where
  trimmed : s.disk.Trimmed
  closed : s.write = none
  start : s.historyStart = s.disk.historyStart

theorem afterEach_inStep_iff {s : Store} (h : s.Sound) (ops : List StoreOp) :
    AfterEach Store.InStep s ops ↔ EachStep Store.UndoesNoTrim s ops := by
  induction ops generalizing s with
  | nil => exact Iff.rfl
  | cons _ _ ih =>
    constructor
    · rintro ⟨hafter, hrest⟩
      have hop := h.undoesNoTrim hafter
      exact ⟨hop, (ih (h.after hop)).mp hrest⟩
    · rintro ⟨hop, hrest⟩
      exact ⟨(h.after hop).inStep, (ih (h.after hop)).mpr hrest⟩

/-- In every run of writes, trims, batches and block transactions, the history start
in memory is the stored one after each operation, with the bodies below it and only
those dropped, exactly if no write transaction that trimmed is rolled back. -/
theorem historyStart_in_step_iff {s : Store} (h : s.Opened) (ops : List StoreOp) :
    AfterEach Store.InStep s ops ↔ EachStep Store.UndoesNoTrim s ops :=
  afterEach_inStep_iff (.of_closed h.trimmed h.closed h.start) ops

/-- A chain of empty blocks, which a node that keeps the shortest history has not
trimmed yet. -/
def fullStore (length : ℕ) : Store :=
  { net := { nettype := .fakechain }
    disk := { blocks := (List.range length).map (fun height =>
                ⟨height, BitVec.ofNat _ height, 0, some { majorVersion := Hf.hf21Eth, hash := 0 }⟩)
              history := historyMinBlocks }
    history := historyMinBlocks }

theorem fullStore_opened {length : ℕ} : (fullStore length).Opened := by
  have hheights : (fullStore length).disk.blocks.map BlockRow.height = List.range length := by
    simp [fullStore, Function.comp_def]
  constructor
  · constructor
    · rw [hheights]
      simp [fullStore]
    · intro row hrow
      obtain ⟨height, -, rfl⟩ := mem_map.mp hrow
      simp [fullStore]
    · exact Nat.zero_le _
  · rfl
  · rfl

/-- A trim that is committed with its batch. -/
theorem historyStart_in_step_committed :
    (fullStore 721).Opened ∧
    AfterEach Store.InStep (fullStore 721) [.batchStart, .trimHistory, .batchStop] := by
  refine ⟨fullStore_opened, (historyStart_in_step_iff fullStore_opened _).mpr ?_⟩
  refine ⟨fun h => absurd h (fun h => h), fun h => absurd h (fun h => h), ?_, trivial⟩
  rintro ⟨-, -, -, hkeys⟩
  exact absurd (by decide +kernel) hkeys

/-- A batch that is aborted after a trim takes the trim back in the tables, while the
start in memory stays where the trim put it. -/
theorem historyStart_after_abort :
    let s := StoreOp.batchAbort.after (StoreOp.trimHistory.after
      (StoreOp.batchStart.after (fullStore 721)))
    s.historyStart = 1 ∧ s.tables.historyStart = 0 ∧ ¬ s.InStep := by
  have hstart : (StoreOp.batchAbort.after (StoreOp.trimHistory.after
      (StoreOp.batchStart.after (fullStore 721)))).historyStart = 1 := by decide +kernel
  have hstored : (StoreOp.batchAbort.after (StoreOp.trimHistory.after
      (StoreOp.batchStart.after (fullStore 721)))).tables.historyStart = 0 := by decide +kernel
  refine ⟨hstart, hstored, fun h => ?_⟩
  have := h.stored
  rw [hstart, hstored] at this
  cases this

end Xeqm.ChainDb
