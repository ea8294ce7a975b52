import Xeqm.ChainDb.Ledger

/-!
# No transaction twice

A transaction of the chain cannot be added again, whether its row is still there or
was trimmed: those that spend something are kept out by their key images, the others
by their hash.
-/

namespace Xeqm.ChainDb

open Cryptonote Lib List

/-- What `check_tx_semantic` asks of the inputs of a transaction: all are keys, and a
transfer has one. -/
structure Tx.Admitted (tx : Tx) : Prop where
  keys : tx.vin.all TxIn.isKey = true
  inputs : isTransferType tx.type = true → tx.vin ≠ []

/-- A block whose listed transactions were admitted, under a miner transaction that is
one. -/
structure BlockInput.Admitted (input : BlockInput) : Prop where
  txs : ∀ tx ∈ input.txs, tx.Admitted
  minerTx : ∀ tx ∈ input.block.minerTx, tx.isMinerTx = true

namespace Tx.Admitted

variable {tx : Tx}

theorem not_minerTx (h : tx.Admitted) : tx.isMinerTx = false := by
  have hkeys := h.keys
  unfold Tx.isMinerTx
  split
  · rename_i hvin
    simp [hvin, TxIn.isKey] at hkeys
  · rfl

theorem supported (h : tx.Admitted) : tx.supported = true := by
  simp [Tx.supported, h.keys]

/-- A transfer spends a key image. -/
theorem keyImages_ne_nil (h : tx.Admitted) (htransfer : isTransferType tx.type = true) :
    tx.keyImages ≠ [] := by
  obtain ⟨input, rest, hvin⟩ := exists_cons_of_ne_nil (h.inputs htransfer)
  have hkeys := h.keys
  cases input with
  | toKey keyImage => simp [Tx.keyImages, hvin, TxIn.keyImage?]
  | _ => simp [hvin, TxIn.isKey] at hkeys

end Tx.Admitted

variable {input : BlockInput}

theorem BlockInput.Admitted.supported (h : input.Admitted) {entry : Hash × Tx}
    (hentry : entry ∈ input.transactions) : entry.2.supported = true := by
  rcases mem_append.mp hentry with hminer | hlisted
  · obtain ⟨tx, htx, rfl⟩ := mem_map.mp hminer
    simp [Tx.supported, h.minerTx tx (by simpa using htx)]
  · exact (h.txs entry.2 (of_mem_zip hlisted).2).supported

/-! ## The guards against a replay -/

/-- The hashes on record are distinct, and the key images of all transactions of the
chain are on record. -/
structure Guarded (entries : List Entry) (historyStart : ℕ) (t : Tables) : Prop where
  untrimmed : historyStart = 0 → t.trimmedTxes = []
  hashes : (t.trimmedTxes.map TrimmedTxRow.hash ++ t.transactions.map TransactionRow.hash).Nodup
  keyImages : ∀ e ∈ entries, ∀ row ∈ e.keyImages, row ∈ t.keyImages

variable {historyStart : ℕ} {t t' : Tables} {entries : List Entry} {P : Store → BlockInput → Prop}
  {txHash : Hash} {txs : List (Hash × Tx)} {tx : Tx} {new : List Entry}

/-- Adding a transaction keeps what is on record. -/
theorem Guarded.addEntry {e : Entry}
    (h : Guarded entries historyStart t) (hadds : AddsEntry historyStart e t t') :
    Guarded (entries ++ [e]) historyStart t' := by
  rw [hadds.rows]
  constructor
  · exact h.untrimmed
  · have hfresh : e.hash ∉
        t.trimmedTxes.map TrimmedTxRow.hash ++ t.transactions.map TransactionRow.hash := by
      intro hmem
      rcases mem_append.mp hmem with hmem | hmem
      · obtain ⟨row, hrow, heq⟩ := mem_map.mp hmem
        by_cases hstart : historyStart = 0
        · rw [h.untrimmed hstart] at hrow
          exact absurd hrow not_mem_nil
        · exact hadds.untrimmed hstart row hrow heq
      · obtain ⟨row, hrow, heq⟩ := mem_map.mp hmem
        exact hadds.unknown row hrow heq
    rw [map_append, ← append_assoc]
    apply nodup_append.mpr
    refine ⟨h.hashes, nodup_singleton _, ?_⟩
    intro hash hhash hash' hhash' heq
    obtain rfl : hash' = e.hash := by simpa [Entry.row] using hhash'
    exact hfresh (heq ▸ hhash)
  · intro e' he' row hrow
    rcases mem_append.mp he' with he' | he'
    · exact mem_append_left _ (h.keyImages e' he' row hrow)
    · obtain rfl := mem_singleton.mp he'
      exact mem_append_right _ hrow

theorem Guarded.adds (h : Guarded entries historyStart t) (hadds : Adds historyStart txs new t t')
    (hsupported : ∀ entry ∈ txs, entry.2.supported = true) :
    Guarded (entries ++ new) historyStart t' := by
  induction hadds generalizing entries with
  | nil => simpa using h
  | @stored e txs new t t₁ t' hfirst hadds hrest ih =>
    have hnext := ih (h.addEntry hadds) (fun entry hentry =>
      hsupported entry (mem_cons_of_mem _ hentry))
    rwa [append_assoc] at hnext
  | skipped hfirst =>
    have := hsupported _ mem_cons_self
    rw [hfirst] at this
    cases this

/-- The rows a trim drops and those it keeps have different hashes. -/
theorem Guarded.trim {finish : ℕ} (h : Guarded entries historyStart t)
    (hle : historyStart ≤ finish) :
    Guarded entries finish (t.trim historyStart finish) := by
  constructor
  · intro hfinish
    have hstart : historyStart = 0 := by omega
    have hnone : t.transactions.filter (fun row => historyStart ≤ row.height ∧
        row.height < finish ∧ ¬ row.miner ∧ ¬ isTransferType row.type) = [] := by
      apply filter_eq_nil_iff.mpr
      intro row _ hrow
      have := of_decide_eq_true hrow
      omega
    simp only [Tables.trim]
    rw [h.untrimmed hstart, hnone]
    rfl
  · obtain ⟨htrimmed, hrows, hdisjoint⟩ := nodup_append.mp h.hashes
    simp only [Tables.trim, map_append, map_map, append_assoc]
    apply nodup_append.mpr
    refine ⟨htrimmed, nodup_append.mpr ⟨?_, ?_, ?_⟩, ?_⟩
    · exact .sublist (filter_sublist.map _) hrows
    · exact .sublist (filter_sublist.map _) hrows
    · intro hash hdropped hash' hkept heq
      obtain ⟨row, hrow, rfl⟩ := mem_map.mp hdropped
      obtain ⟨row', hrow', rfl⟩ := mem_map.mp hkept
      obtain rfl := inj_on_of_nodup_map hrows (mem_of_mem_filter hrow) (mem_of_mem_filter hrow') heq
      have hin := of_decide_eq_true (mem_filter.mp hrow).2
      have hout := of_decide_eq_true (mem_filter.mp hrow').2
      exact hout ⟨hin.1, hin.2.1⟩
    · intro hash hhash hash' hhash'
      apply hdisjoint hash hhash
      rcases mem_append.mp hhash' with hmem | hmem
      · exact (filter_sublist.map _).subset hmem
      · exact (filter_sublist.map _).subset hmem
  · exact h.keyImages

theorem guarded_invariant : RunInvariant (fun _ input => input.Admitted) Guarded := by
  constructor
  · intro history
    exact ⟨fun _ => rfl, nodup_nil, fun e he => absurd he not_mem_nil⟩
  · intro chain entries s input new t row hkeeping hadmitted hadds hguarded
    have hnext := hguarded.adds hadds fun entry hentry => hadmitted.supported hentry
    exact ⟨hnext.untrimmed, hnext.hashes, hnext.keyImages⟩
  · intro entries entries' historyStart t height hinit hbelow hguarded
    constructor
    · exact hguarded.untrimmed
    · apply Nodup.sublist _ hguarded.hashes
      exact .append (.refl _) (filter_sublist.map _)
    · intro e he row hrow
      apply mem_filter.mpr
      refine ⟨hguarded.keyImages e (hinit.subset he) row hrow, ?_⟩
      have hheight : row.height = e.height := by
        unfold Entry.keyImages at hrow
        split at hrow
        · cases hrow
        · obtain ⟨keyImage, -, rfl⟩ := mem_map.mp hrow
          rfl
      exact decide_eq_true (by rw [hheight]; exact ne_of_lt (hbelow e he))
  · intro entries historyStart t finish hle hguarded
    exact hguarded.trim hle

/-! ## The duplicate check -/

section

variable {entries : List Entry} {historyStart : ℕ} {t : Tables} {txHash : Hash}

/-- The hash of a stored transaction. -/
theorem Guarded.txExists_of_row (h : Guarded entries historyStart t) {row : TransactionRow}
    (hrow : row ∈ t.transactions) : txExists historyStart t row.hash = .ok true := by
  have hfilter := filter_key_eq_singleton (nodup_append.mp h.hashes).2.1 hrow
  have hid : txExistsId t row.hash = .ok (some row.id) :=
    txExistsId_eq_ok_iff.mpr ⟨some row, hfilter, rfl⟩
  exact except_bind_eq_ok_iff.mpr ⟨_, hid, rfl⟩

/-- The hash that a trimmed transaction left. -/
theorem Guarded.txExists_of_trimmed (h : Guarded entries historyStart t)
    (hstart : historyStart ≠ 0) {row : TrimmedTxRow} (hrow : row ∈ t.trimmedTxes) :
    txExists historyStart t row.hash = .ok true := by
  obtain ⟨htrimmed, -, hdisjoint⟩ := nodup_append.mp h.hashes
  have hnone : t.transactions.filter (fun r => r.hash = row.hash) = [] := by
    apply filter_key_eq_nil
    intro r hr heq
    exact hdisjoint _ (mem_map_of_mem hrow) _ (mem_map_of_mem hr) heq.symm
  have hid : txExistsId t row.hash = .ok none := txExistsId_eq_ok_iff.mpr ⟨none, hnone, rfl⟩
  refine except_bind_eq_ok_iff.mpr ⟨_, hid, ?_⟩
  unfold txTrimmed
  rw [if_neg hstart]
  exact except_bind_eq_ok_iff.mpr
    ⟨some row, maybeGet_eq_ok_iff.mpr (filter_key_eq_singleton htrimmed hrow), rfl⟩

/-- A hash that is found is one of a stored or of a trimmed transaction. -/
theorem of_txExists (h : txExists historyStart t txHash = .ok true) :
    (∃ row ∈ t.transactions, row.hash = txHash) ∨
    (historyStart ≠ 0 ∧ ∃ row ∈ t.trimmedTxes, row.hash = txHash) := by
  obtain ⟨id, hid, hrest⟩ := except_bind_eq_ok_iff.mp h
  obtain ⟨row, hfilter, rfl⟩ := txExistsId_eq_ok_iff.mp hid
  cases row with
  | some row =>
    have hmem : row ∈ t.transactions.filter (fun r => r.hash = txHash) := by simp [hfilter]
    exact .inl ⟨row, mem_of_mem_filter hmem, by simpa using (mem_filter.mp hmem).2⟩
  | none =>
    change txTrimmed historyStart t txHash = .ok true at hrest
    unfold txTrimmed at hrest
    split at hrest
    · cases hrest
    rename_i hstart
    obtain ⟨found, hget, hfound⟩ := except_bind_eq_ok_iff.mp hrest
    cases found with
    | none => cases hfound
    | some row =>
      have hmem : row ∈ t.trimmedTxes.filter (fun r => r.hash = txHash) := by
        simp [maybeGet_eq_ok_iff.mp hget]
      exact .inr ⟨hstart, row, mem_of_mem_filter hmem,
        by simpa using (mem_filter.mp hmem).2⟩

end

/-- Whether one of the two guards keeps a transaction out. -/
def KeptOut (historyStart : ℕ) (t : Tables) (txHash : Hash) (tx : Tx) : Prop :=
  txExists historyStart t txHash = .ok true ∨
  (tx.keyImages ≠ [] ∧ ∀ keyImage ∈ tx.keyImages, hasKeyImage t keyImage = true)

/-- What was on record still is. -/
structure Retains (t t' : Tables) : Prop where
  transactions : t.transactions ⊆ t'.transactions
  trimmedTxes : t'.trimmedTxes = t.trimmedTxes
  keyImages : t.keyImages ⊆ t'.keyImages

theorem AddsEntry.retains {e : Entry}
    (h : AddsEntry historyStart e t t') : Retains t t' := by
  rw [h.rows]
  exact ⟨subset_append_left _ _, rfl, subset_append_left _ _⟩

/-- A transaction of a block that is added is new to tables that still hold what the
block found. -/
theorem Adds.exists_addsEntry (h : Adds historyStart txs new t t')
    (hsupported : ∀ entry ∈ txs, entry.2.supported = true)
    (hmem : (txHash, tx) ∈ txs) :
    ∃ e t₁ t₂, e.hash = txHash ∧ e.tx = tx ∧ Retains t t₁ ∧ AddsEntry historyStart e t₁ t₂ := by
  induction h with
  | nil => cases hmem
  | @stored e txs new t t₁ t' hfirst hadds hrest ih =>
    rcases mem_cons.mp hmem with heq | hmem
    · obtain ⟨rfl, rfl⟩ := Prod.mk.inj heq
      exact ⟨e, t, t₁, rfl, rfl, ⟨.refl _, rfl, .refl _⟩, hadds⟩
    · obtain ⟨e', t₂, t₃, hhash, htx, hretains, hadds'⟩ := ih
        (fun entry hentry => hsupported entry (mem_cons_of_mem _ hentry)) hmem
      have hfirst := hadds.retains
      refine ⟨e', t₂, t₃, hhash, htx, ⟨?_, ?_, ?_⟩, hadds'⟩
      · exact Subset.trans hfirst.transactions hretains.transactions
      · exact hretains.trimmedTxes.trans hfirst.trimmedTxes
      · exact Subset.trans hfirst.keyImages hretains.keyImages
  | skipped hfirst =>
    have := hsupported _ mem_cons_self
    rw [hfirst] at this
    cases this

/-- A transaction that is kept out is in no block that is added. -/
theorem KeptOut.not_added (h : KeptOut historyStart t txHash tx) (htx : tx.isMinerTx = false)
    (hadmitted : input.Admitted) (hmem : (txHash, tx) ∈ input.transactions) :
    ¬ Adds historyStart input.transactions new t t' := by
  intro hadds
  obtain ⟨e, t₁, t₂, rfl, rfl, hretains, hadds⟩ :=
    hadds.exists_addsEntry (fun entry hentry => hadmitted.supported hentry) hmem
  rcases h with hexists | ⟨hne, hspent⟩
  · rcases of_txExists hexists with ⟨row, hrow, hhash⟩ | ⟨hstart, row, hrow, hhash⟩
    · exact hadds.unknown row (hretains.transactions hrow) hhash
    · exact hadds.untrimmed hstart row (hretains.trimmedTxes ▸ hrow) hhash
  · obtain ⟨keyImage, hkeyImage⟩ := exists_mem_of_ne_nil _ hne
    obtain ⟨row, hrow, himage⟩ := any_eq_true.mp (hspent keyImage hkeyImage)
    have hunspent := any_eq_false.mp (hadds.unspent htx keyImage hkeyImage) row
      (hretains.keyImages hrow)
    exact hunspent himage

/-- The transactions of the chain are kept out. -/
theorem Guarded.keptOut {chain : List BlockInput} {s : Store}
    (h : Guarded entries s.historyStart s.disk) (hkeeping : Keeping chain entries s)
    {old : BlockInput} (hadmitted : old.Admitted) (hold : old ∈ chain)
    (hmem : (txHash, tx) ∈ old.block.txHashes.zip old.txs) :
    KeptOut s.historyStart s.disk txHash tx := by
  have htx : tx.Admitted := hadmitted.txs tx (of_mem_zip hmem).2
  have hlisted : (txHash, tx) ∈ (entries.map Entry.toLedgerTx).map (fun e => (e.hash, e.tx)) := by
    rw [hkeeping.represents.listed, map_ledger]
    refine mem_flatMap.mpr ⟨old, hold, mem_filter.mpr ⟨?_, htx.supported⟩⟩
    exact mem_append_right _ hmem
  rw [map_map] at hlisted
  obtain ⟨e, he, heq⟩ := mem_map.mp hlisted
  obtain ⟨rfl, rfl⟩ := Prod.mk.inj heq
  by_cases hkept : s.historyStart ≤ e.height
  · left
    have hrow : e.row ∈ s.disk.transactions := by
      rw [hkeeping.represents.transactions]
      exact mem_map_of_mem (mem_filter.mpr ⟨he, by simpa using hkept⟩)
    exact h.txExists_of_row hrow
  · cases htransfer : isTransferType e.tx.type with
    | false =>
      left
      obtain ⟨row, hrow, hhash⟩ := hkeeping.represents.trimmed e he (not_le.mp hkept)
        htx.not_minerTx htransfer
      have := h.txExists_of_trimmed (by omega) hrow
      rwa [hhash] at this
    | true =>
      right
      refine ⟨htx.keyImages_ne_nil htransfer, fun keyImage hkeyImage => ?_⟩
      refine any_eq_true.mpr ⟨⟨keyImage, e.height⟩, h.keyImages e he _ ?_, by simp⟩
      have hminer : e.tx.isMinerTx = false := htx.not_minerTx
      simpa [Entry.keyImages, hminer] using hkeyImage

/-- After every run, a transaction that some block of the chain lists is kept out: its
hash is found, or its key images are on record. No block that lists it again is
added. -/
theorem no_transaction_twice {chain : List BlockInput} {s : Store}
    (hrun : StoreRun (fun _ input => input.Admitted) chain s) {old : BlockInput} (hold : old ∈ chain)
    {txHash : Hash} {tx : Tx} (hmem : (txHash, tx) ∈ old.block.txHashes.zip old.txs) :
    (txExists s.historyStart s.disk txHash = .ok true ∨
      (tx.keyImages ≠ [] ∧ ∀ keyImage ∈ tx.keyImages, hasKeyImage s.disk keyImage = true)) ∧
    ∀ input : BlockInput, input.Admitted → (txHash, tx) ∈ input.transactions →
      ∃ e, addBlockTxn input s = .error e { s with batchActive := false } := by
  obtain ⟨entries, hkeeping, hguarded⟩ := hrun.keeping guarded_invariant
  have hadmitted := hrun.of_mem old hold
  have hout := hguarded.keptOut hkeeping hadmitted hold hmem
  refine ⟨hout, fun input hinput hagain => ?_⟩
  cases hadd : addBlockTxn input s with
  | error e => exact ⟨e, by rw [inBlockTxn_eq_error hkeeping.closed hadd]⟩
  | ok =>
    obtain ⟨new, t, row, hadds, -⟩ := hkeeping.addBlock hadd
    have hminer := (hadmitted.txs tx (of_mem_zip hmem).2).not_minerTx
    exact absurd hadds (hout.not_added hminer hinput hagain)

/-! ## A chain that is trimmed -/

/-- An empty block of the time without miner transactions, for a height. -/
def emptyBlock (height : ℕ) : Block :=
  { majorVersion := Hf.hf21Eth
    hash := BitVec.ofNat _ (height + 1)
    prevId := BitVec.ofNat _ height }

/-- A first block with a miner transaction and a transfer, and empty blocks above it. -/
def grownInput : ℕ → BlockInput
  | 0 =>
    { block := { majorVersion := Hf.hf22SnPolicy, hash := 1, txHashes := [12]
                 minerTx := some { vin := [.gen 0], vout := [⟨0, some 0⟩], hash := 11 } }
      txs := [{ vin := [.toKey 7], vout := [⟨0, some 0⟩, ⟨0, some 0⟩], hash := 12 }] }
  | height + 1 => ⟨emptyBlock (height + 1), []⟩

/-- The store of a node that keeps the shortest history, with `n` blocks above the
first. -/
def grownStore (n : ℕ) : Store :=
  let minerTx : Tx := { vin := [.gen 0], vout := [⟨0, some 0⟩], hash := 11 }
  let transfer : Tx := { vin := [.toKey 7], vout := [⟨0, some 0⟩, ⟨0, some 0⟩], hash := 12 }
  { net := { nettype := .fakechain }
    disk :=
      { blocks := (List.range (n + 1)).map (fun height =>
          ⟨height, BitVec.ofNat _ (height + 1), 3, some (grownInput height).block⟩)
        transactions := [⟨0, 11, 0, .standard, true, 0, minerTx⟩,
          ⟨1, 12, 0, .standard, false, 0, transfer⟩]
        outputs := [⟨0, 0, 0, 0, 0, 0, some 0, 0, false⟩, ⟨1, 0, 1, 0, 0, 0, some 1, 0, false⟩,
          ⟨2, 0, 2, 0, 0, 0, some 1, 1, false⟩]
        keyImages := [⟨7, 0⟩]
        history := historyMinBlocks }
    history := historyMinBlocks }

theorem grownStore_trimmed (n : ℕ) : (grownStore n).disk.Trimmed := by
  constructor
  · simp [grownStore, Function.comp_def]
  · intro row hrow
    obtain ⟨height, -, rfl⟩ := mem_map.mp hrow
    simp [grownStore]
  · exact Nat.zero_le _

/-- The next block is one more row. -/
theorem addBlockTxn_grownStore {n : ℕ} (hn : n < 999) :
    addBlockTxn ⟨emptyBlock (n + 1), []⟩ (grownStore n) = .ok (n + 1) (grownStore (n + 1)) := by
  have hheight : chainHeight (grownStore n).disk = n + 1 := by
    rw [(grownStore_trimmed n).chainHeight_eq]
    simp [grownStore]
  have hnew : ∀ row ∈ (grownStore n).disk.blocks, row.hash ≠ (emptyBlock (n + 1)).hash := by
    intro row hrow heq
    obtain ⟨height, hlt, rfl⟩ := mem_map.mp hrow
    have hlt := mem_range.mp hlt
    have hhash := congrArg BitVec.toNat heq
    simp only [emptyBlock, BitVec.toNat_ofNat] at hhash
    omega
  have hparent : parentRctOutputs (grownStore n).disk (emptyBlock (n + 1)) = .ok 3 := by
    have hbelow : (List.range n).find? (fun height => height = n) = none := by
      simpa using fun height => ne_of_lt
    rw [parentRctOutputs, hheight]
    simp only [grownStore, find?_map, Function.comp_def]
    simp [range_succ, emptyBlock, hbelow]
  have hrow : addBlock (grownStore n).historyStart ⟨emptyBlock (n + 1), []⟩ (grownStore n).disk =
      .ok (n + 1) (grownStore (n + 1)).disk := by
    have hdisk : (grownStore (n + 1)).disk = { (grownStore n).disk with
        blocks := (grownStore n).disk.blocks ++
          [⟨n + 1, (emptyBlock (n + 1)).hash, 3, some (emptyBlock (n + 1))⟩] } := by
      simp [grownStore, range_succ (n := n + 1), emptyBlock, grownInput]
    have hunknown := @filter_key_eq_nil _ _ _ _ BlockRow.hash _ hnew
    have hversion : ethBls ≤ (emptyBlock (n + 1)).majorVersion := by simp [emptyBlock, ethBls]
    have htxs : (emptyBlock (n + 1)).txHashes = [] := rfl
    have hminer : (emptyBlock (n + 1)).minerTx = none := rfl
    simp [addBlock, addBlockRow, BlockInput.transactions, BlockInput.numRctOuts, rejectIf, query,
      htxs, hminer, hversion, hunknown, maybeGet, hparent, hheight, hdisk, -bind_pure_comp]
  have hkeys : (grownStore (n + 1)).disk.foreignKeysHold = true := by
    simp [grownStore, Tables.foreignKeysHold]
  unfold addBlockTxn
  rw [get_bind_run, inBlockTxn_of_closed rfl, hrow]
  dsimp only
  rw [if_pos hkeys]
  rfl

/-- The blocks are added in turn. -/
theorem grownStore_run {n : ℕ} (hn : n < 1000)
    (hfirst : ∀ s, s.Empty → P s (grownInput 0))
    (hempty : ∀ s height, P s (grownInput (height + 1))) :
    StoreRun P ((List.range (n + 1)).map grownInput) (grownStore n) := by
  induction n with
  | zero =>
    have hstart : Store.Empty
        { net := { nettype := .fakechain }, disk := { history := historyMinBlocks }
          history := historyMinBlocks } := ⟨rfl, rfl, rfl⟩
    exact .addBlock (grownInput 0) (.empty hstart) (hfirst _ hstart) rfl
  | succ n ih =>
    rw [range_succ, map_append]
    exact .addBlock _ (ih (by omega)) (hempty _ n) (addBlockTxn_grownStore (by omega))

/-- The grown store with the first block trimmed. -/
def trimmedStore : Store := finalState (trimHistory (grownStore 720))

theorem trimmedStore_run (hfirst : ∀ s, s.Empty → P s (grownInput 0))
    (hempty : ∀ s height, P s (grownInput (height + 1))) :
    StoreRun P ((List.range 721).map grownInput) trimmedStore := by
  have hrun := grownStore_run (n := 720) (by omega) hfirst hempty
  have htrim : returns (trimHistory (grownStore 720)) = true := by decide +kernel
  obtain ⟨_, htrimmed⟩ := eq_ok_of_returns htrim
  exact hrun.trimHistory htrimmed

theorem grownInput_admitted {height : ℕ} : (grownInput height).Admitted := by
  cases height with
  | zero =>
    constructor
    · intro tx htx
      obtain rfl := mem_singleton.mp htx
      exact ⟨rfl, fun _ => cons_ne_nil _ _⟩
    · simp [grownInput, Tx.isMinerTx]
  | succ => exact ⟨fun tx h => absurd h not_mem_nil, fun tx h => by cases h⟩

/-- The transfer of the trimmed block, whose hash is forgotten, is kept out by its key
image. -/
theorem no_transaction_twice_trimmed :
    trimmedStore.historyStart = 1 ∧ trimmedStore.disk.transactions = [] ∧
    trimmedStore.disk.trimmedTxes = [] ∧ hasKeyImage trimmedStore.disk 7 = true ∧
    ∃ e, addBlockTxn ⟨{ emptyBlock 721 with txHashes := [12] }, (grownInput 0).txs⟩ trimmedStore =
      .error e { trimmedStore with batchActive := false } := by
  have hrun : StoreRun (fun _ input => input.Admitted) ((List.range 721).map grownInput)
      trimmedStore :=
    trimmedStore_run (fun _ _ => grownInput_admitted) fun _ _ => grownInput_admitted
  have hfirst : grownInput 0 ∈ (List.range 721).map grownInput :=
    mem_map.mpr ⟨0, mem_range.mpr (by omega), rfl⟩
  have htwice := no_transaction_twice hrun hfirst mem_cons_self
  refine ⟨by decide +kernel, by decide +kernel, by decide +kernel, by decide +kernel, ?_⟩
  apply htwice.2
  · exact ⟨grownInput_admitted.txs, fun tx h => by cases h⟩
  · exact mem_cons_self

/-- A miner transaction leaves nothing behind when it is trimmed, so the store takes it
a second time. -/
theorem minerTx_added_twice :
    let minerTx : Tx := { vin := [.gen 0], vout := [⟨0, some 0⟩], hash := 11 }
    let again : BlockInput := ⟨{ emptyBlock 721 with
      majorVersion := Hf.hf22SnPolicy, minerTx := some minerTx }, []⟩
    StoreRun (fun _ _ => True) ((List.range 721).map grownInput) trimmedStore ∧
    (11, minerTx) ∈ (grownInput 0).transactions ∧ (11, minerTx) ∈ again.transactions ∧
    txExists trimmedStore.historyStart trimmedStore.disk 11 = .ok false ∧
    ∃ height s', addBlockTxn again trimmedStore = .ok height s' := by
  intro minerTx again
  have hadd : returns (addBlockTxn again trimmedStore) = true := by decide +kernel
  obtain ⟨height, hadded⟩ := eq_ok_of_returns hadd
  refine ⟨trimmedStore_run (fun _ _ => trivial) (fun _ _ => trivial), mem_cons_self,
    mem_cons_self, by decide +kernel, ⟨height, _, hadded⟩⟩

end Xeqm.ChainDb
