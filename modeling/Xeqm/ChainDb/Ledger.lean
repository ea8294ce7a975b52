import Mathlib.Data.List.Induction
import Mathlib.Data.List.Nodup
import Xeqm.ChainDb.HistoryStart

/-!
# The chain that the tables stand for

The blocks added and not popped again, with the transactions that were stored for
them: each output is the so-manieth one of its amount. The tables of the chain
store represent this ledger, up to the rows that were trimmed.
-/

namespace Xeqm.ChainDb

open Cryptonote Lib List

/-! ## The ledger -/

/-- The key image that an input spends. -/
def TxIn.keyImage? : TxIn → Option KeyImage
  | .toKey keyImage => some keyImage
  | _ => none

/-- Whether an input spends an output by its key. -/
def TxIn.isKey : TxIn → Bool
  | .toKey _ => true
  | _ => false

/-- The key images that a transaction spends. -/
def Tx.keyImages (tx : Tx) : List KeyImage := tx.vin.filterMap TxIn.keyImage?

/-- Whether `add_transaction` stores a transaction rather than giving up on one of its
inputs. -/
def Tx.supported (tx : Tx) : Bool := tx.isMinerTx || tx.vin.all TxIn.isKey

/-- The amounts of the outputs as they are stored. -/
def Tx.storedAmounts (tx : Tx) : List UInt64 :=
  tx.vout.map (fun output => (storedOutput tx output).amount)

/-- The numbers that outputs of the given amounts get among those of their amount. -/
def numberFrom (seen : List UInt64) : List UInt64 → List ℕ
  | [] => []
  | amount :: rest => seen.count amount :: numberFrom (seen ++ [amount]) rest

theorem length_numberFrom (seen amounts : List UInt64) :
    (numberFrom seen amounts).length = amounts.length := by
  induction amounts generalizing seen with
  | nil => rfl
  | cons _ _ ih => simp [numberFrom, ih]

/-- A transaction of the chain. -/
structure LedgerTx where
  height : ℕ
  hash : Hash
  tx : Tx
  /-- The number of each output among the outputs of its amount. -/
  indices : List ℕ

/-- The transactions of a block, after those of the blocks below. -/
def extendLedger (height : ℕ) (ledger : List LedgerTx) : List (Hash × Tx) → List LedgerTx
  | [] => ledger
  | (hash, tx) :: rest =>
    let seen := ledger.flatMap (fun entry => entry.tx.storedAmounts)
    extendLedger height (ledger ++ [⟨height, hash, tx, numberFrom seen tx.storedAmounts⟩]) rest

/-- The transactions of a block that are stored. -/
def BlockInput.stored (input : BlockInput) : List (Hash × Tx) :=
  input.transactions.filter (fun entry => entry.2.supported)

/-- The transactions of a chain of blocks. -/
def ledger (chain : List BlockInput) : List LedgerTx :=
  chain.zipIdx.foldl (fun entries block => extendLedger block.2 entries block.1.stored) []

theorem ledger_append (chain : List BlockInput) (input : BlockInput) :
    ledger (chain ++ [input]) = extendLedger chain.length (ledger chain) input.stored := by
  simp [ledger, zipIdx_append]

/-- A block only adds transactions at its height. -/
theorem extendLedger_eq_append (height : ℕ) (entries : List LedgerTx) (txs : List (Hash × Tx)) :
    ∃ new, extendLedger height entries txs = entries ++ new ∧
      (∀ entry ∈ new, entry.height = height) ∧ new.map (fun e => (e.hash, e.tx)) = txs := by
  induction txs generalizing entries with
  | nil => exact ⟨[], by simp [extendLedger]⟩
  | cons tx _ ih =>
    obtain ⟨hash, tx⟩ := tx
    obtain ⟨new, hnew, hheight, hmap⟩ := ih (entries ++ [⟨height, hash, tx,
      numberFrom (entries.flatMap (fun entry => entry.tx.storedAmounts)) tx.storedAmounts⟩])
    refine ⟨_ :: new, by rw [extendLedger, hnew, append_assoc]; rfl, ?_, by simp [hmap]⟩
    intro entry hentry
    rcases mem_cons.mp hentry with rfl | hentry
    · rfl
    · exact hheight entry hentry

/-- The ledger lists the stored transactions of all blocks. -/
theorem map_ledger (chain : List BlockInput) :
    (ledger chain).map (fun e => (e.hash, e.tx)) = chain.flatMap BlockInput.stored := by
  induction chain using List.reverseRecOn with
  | nil => rfl
  | append_singleton chain input ih =>
    obtain ⟨new, hnew, -, hmap⟩ := extendLedger_eq_append chain.length (ledger chain) input.stored
    rw [ledger_append, hnew, map_append, ih, hmap, flatMap_append, flatMap_singleton]

/-! ## Rows -/

/-- Where an output stands: its number, its block and its transaction. -/
structure Place where
  amount : UInt64
  amountIndex : ℕ
  height : ℕ
  txId : Option ℕ
  localIndex : ℕ
  deriving DecidableEq

/-- The place of an output row. -/
def OutputRow.place (row : OutputRow) : Place :=
  ⟨row.amount, row.amountIndex, row.height, row.txId, row.localIndex⟩

/-- The places of the outputs of a transaction, from a position on. -/
def places (id height : ℕ) : ℕ → List UInt64 → List ℕ → List Place
  | i, amount :: amounts, index :: indices =>
    ⟨amount, index, height, some id, i⟩ :: places id height (i + 1) amounts indices
  | _, _, _ => []

/-- A transaction of the ledger with the id it was stored under. -/
structure Entry extends LedgerTx where
  id : ℕ

namespace Entry

/-- The row of `transactions`. -/
def row (e : Entry) : TransactionRow :=
  ⟨e.id, e.hash, e.height, e.tx.type, e.tx.isMinerTx, e.tx.unlockTime, e.tx⟩

/-- The rows of `outputs`. -/
def places (e : Entry) : List Place :=
  ChainDb.places e.id e.height 0 e.tx.storedAmounts e.indices

/-- The rows of `key_images`. -/
def keyImages (e : Entry) : List KeyImageRow :=
  if e.tx.isMinerTx then [] else e.tx.keyImages.map (fun keyImage => ⟨keyImage, e.height⟩)

end Entry

/-- The outputs of each amount are numbered in order. -/
def Numbered (outputs : List OutputRow) : Prop :=
  ∀ amount : UInt64, (outputs.filter (fun row => row.amount = amount)).map OutputRow.amountIndex =
    List.range (outputs.filter (fun row => row.amount = amount)).length

variable {outputs : List OutputRow} {t t' : Tables}

/-- The next number of an amount is how many outputs of it there are. -/
theorem Numbered.nextKey_eq (h : Numbered outputs) (amount : UInt64) :
    nextKey OutputRow.amountIndex (outputs.filter (fun row => row.amount = amount)) =
      (outputs.map OutputRow.amount).count amount := by
  rw [nextKey_of_map_eq_range (h amount), List.count, countP_map, countP_eq_length_filter]
  rfl

theorem Numbered.append (h : Numbered outputs) {row : OutputRow}
    (hrow : row.amountIndex = (outputs.map OutputRow.amount).count row.amount) :
    Numbered (outputs ++ [row]) := by
  intro amount
  rw [filter_append, map_append, length_append, h amount]
  by_cases hamount : row.amount = amount
  · have hcount : row.amountIndex = (outputs.filter (fun row => row.amount = amount)).length := by
      rw [hrow, ← h.nextKey_eq, hamount]
      exact nextKey_of_map_eq_range (h amount)
    simp [hamount, hcount, range_succ]
  · simp [hamount]

/-- An amount and a number find one output. -/
theorem Numbered.filter_eq_singleton (h : Numbered outputs) {row : OutputRow}
    (hrow : row ∈ outputs) :
    outputs.filter (fun r => r.amount = row.amount ∧ r.amountIndex = row.amountIndex) = [row] := by
  have hnodup : ((outputs.filter (fun r => r.amount = row.amount)).map
      OutputRow.amountIndex).Nodup := by
    rw [h row.amount]
    exact nodup_range
  have hmem : row ∈ outputs.filter (fun r => r.amount = row.amount) :=
    mem_filter.mpr ⟨hrow, by simp⟩
  rw [← filter_key_eq_singleton hnodup hmem, filter_filter]
  apply filter_congr
  intro r _
  simp [and_comm]

/-- The first part of numbered outputs is numbered. -/
theorem Numbered.of_append {outputs' : List OutputRow} (h : Numbered (outputs ++ outputs')) :
    Numbered outputs := by
  intro amount
  have hall := h amount
  rw [filter_append, map_append, length_append] at hall
  have htake := congrArg (List.take (outputs.filter (fun row => row.amount = amount)).length) hall
  rw [take_left' (by simp), take_range] at htake
  rw [htake]
  congr 1
  omega

/-! ## What the statements store -/

/-- The key images of inputs that are all keys are new, and are recorded at the height
of the next block. -/
theorem addSpentKeys_eq_ok {vin : List TxIn} {supported : Bool}
    (h : addSpentKeys vin t = .ok supported t') :
    supported = vin.all TxIn.isKey ∧
    (supported = true → (∀ keyImage ∈ vin.filterMap TxIn.keyImage?, hasKeyImage t keyImage = false) ∧
      t' = { t with keyImages := t.keyImages ++
        (vin.filterMap TxIn.keyImage?).map (fun keyImage => ⟨keyImage, chainHeight t⟩) }) := by
  induction vin generalizing t with
  | nil =>
    cases h
    simp
  | cons input _ ih =>
    cases input with
    | toKey keyImage =>
      obtain ⟨_, t₁, hkey, hrest⟩ := bind_eq_ok_iff.mp h
      obtain ⟨hnew, ht₁⟩ : hasKeyImage t keyImage = false ∧
          t₁ = { t with keyImages := t.keyImages ++ [⟨keyImage, chainHeight t⟩] } := by
        unfold addSpentKey at hkey
        obtain ⟨hnew, hkey⟩ := rejectIf_bind_eq_ok_iff.mp hkey
        cases hkey
        exact ⟨by simpa using hnew, rfl⟩
      obtain ⟨hsupported, hrows⟩ := ih hrest
      refine ⟨by simpa [TxIn.isKey] using hsupported, fun htrue => ?_⟩
      obtain ⟨hrestNew, hrest⟩ := hrows htrue
      constructor
      · intro image himage
        simp only [filterMap_cons, TxIn.keyImage?, mem_cons] at himage
        rcases himage with rfl | himage
        · exact hnew
        · have := hrestNew image himage
          simp only [ht₁, hasKeyImage, any_append, Bool.or_eq_false_iff] at this
          exact this.1
      · rw [hrest, ht₁]
        simp [chainHeight, TxIn.keyImage?]
    | _ =>
      cases h
      simp [TxIn.isKey]

variable {txHash : Hash} {tx : Tx}

/-- A transaction is stored under a fresh hash and the next id. -/
theorem addTransactionData_eq_ok {historyStart id : ℕ}
    (h : addTransactionData historyStart txHash tx t = .ok id t') :
    (∀ row ∈ t.transactions, row.hash ≠ txHash) ∧
    (historyStart ≠ 0 → ∀ row ∈ t.trimmedTxes, row.hash ≠ txHash) ∧
    t' = { t with transactions := t.transactions ++ [newTransaction t txHash tx] } := by
  unfold addTransactionData at h
  obtain ⟨known, hknown, h⟩ := query_bind_eq_ok_iff.mp h
  obtain ⟨hnone, h⟩ := rejectIf_bind_eq_ok_iff.mp h
  obtain ⟨trimmed, htrimmed, h⟩ := query_bind_eq_ok_iff.mp h
  obtain ⟨hfalse, h⟩ := rejectIf_bind_eq_ok_iff.mp h
  refine ⟨?_, ?_, ?_⟩
  · obtain ⟨row, hrow, rfl⟩ := txExistsId_eq_ok_iff.mp hknown
    cases row with
    | some => exact absurd rfl hnone
    | none =>
      intro row hmem heq
      have : row ∈ t.transactions.filter (fun row => row.hash = txHash) :=
        mem_filter.mpr ⟨hmem, by simpa using heq⟩
      rw [hrow] at this
      exact absurd this not_mem_nil
  · cases trimmed with
    | true => exact absurd rfl hfalse
    | false => exact txTrimmed_eq_false htrimmed
  · rw [modify_bind_run, pure_run] at h
    cases h
    rfl

/-- An output is numbered after those of its amount and refers to the transaction with
the given hash. -/
theorem addOutput_eq_ok {output : TxOut} {i index : ℕ} {unlockTime : UInt64} {commitment : Bool}
    (h : addOutput txHash output i unlockTime commitment t = .ok index t') :
    ∃ key, index = (newOutput t txHash output.amount key i unlockTime).amountIndex ∧
      t' = { t with outputs :=
        t.outputs ++ [newOutput t txHash output.amount key i unlockTime] } := by
  unfold addOutput at h
  cases htarget : output.target with
  | none =>
    rw [htarget] at h
    cases h
  | some key =>
    rw [htarget] at h
    obtain ⟨-, h⟩ := rejectIf_bind_eq_ok_iff.mp h
    cases h
    exact ⟨key, rfl, rfl⟩

variable {indices : List ℕ} {historyStart : ℕ}

/-- The outputs of a transaction are numbered one after the other. -/
theorem addOutputs_eq_ok {i id : ℕ} {outputs : List TxOut}
    (h : addOutputs txHash tx i outputs t = .ok indices t')
    (hid : (t.transactions.find? (fun row => row.hash = txHash)).map TransactionRow.id = some id)
    (hnumbered : Numbered t.outputs) :
    indices = numberFrom (t.outputs.map OutputRow.amount)
      (outputs.map (fun output => (storedOutput tx output).amount)) ∧
    t' = { t with outputs := t'.outputs } ∧ Numbered t'.outputs ∧
    t'.outputs.map OutputRow.place = t.outputs.map OutputRow.place ++ places id (chainHeight t) i
      (outputs.map (fun output => (storedOutput tx output).amount)) indices := by
  induction outputs generalizing i t indices with
  | nil =>
    cases h
    exact ⟨rfl, rfl, hnumbered, by simp [places]⟩
  | cons output rest ih =>
    obtain ⟨index, t₁, hfirst, h₁⟩ := bind_eq_ok_iff.mp h
    obtain ⟨later, t₂, hrest, h₂⟩ := bind_eq_ok_iff.mp h₁
    cases h₂
    obtain ⟨key, hindex, ht₁⟩ := addOutput_eq_ok hfirst
    have hnext : index =
        (t.outputs.map OutputRow.amount).count (storedOutput tx output).amount := by
      rw [hindex]
      exact hnumbered.nextKey_eq _
    subst ht₁
    obtain ⟨hlater, hframe, hnumbered', hplaces⟩ := ih hrest hid
      (hnumbered.append (by rw [← hindex]; exact hnext))
    refine ⟨?_, ?_, hnumbered', ?_⟩
    · rw [hlater, hnext]
      simp [numberFrom, newOutput]
    · rw [hframe]
    · have hplace : (newOutput t txHash (storedOutput tx output).amount key i
          (tx.unlockTimeAt i)).place =
          ⟨(storedOutput tx output).amount, index, chainHeight t, some id, i⟩ := by
        rw [hindex]
        simp [OutputRow.place, newOutput, hid]
      rw [hplaces, map_append, map_singleton, append_assoc, hplace]
      rfl

/-- Flagging outputs does not move them. -/
theorem addOutputBlacklist_eq_ok {blacklist : List ℕ}
    (h : addOutputBlacklist blacklist t = .ok () t') (hnumbered : Numbered t.outputs) :
    t' = { t with outputs := t'.outputs } ∧ Numbered t'.outputs ∧
    t'.outputs.map OutputRow.place = t.outputs.map OutputRow.place := by
  unfold addOutputBlacklist at h
  split at h
  · cases h
    exact ⟨rfl, hnumbered, rfl⟩
  · rw [get_bind_run, modify_bind_run] at h
    obtain ⟨-, rfl⟩ := rejectIf_eq_ok_iff.mp h
    have hamount (row : OutputRow) : (row.blacklist blacklist.dedup).amount = row.amount := by
      unfold OutputRow.blacklist
      split <;> rfl
    have hplace (row : OutputRow) : (row.blacklist blacklist.dedup).place = row.place := by
      unfold OutputRow.blacklist
      split <;> rfl
    have hindex (row : OutputRow) : (row.blacklist blacklist.dedup).amountIndex = row.amountIndex :=
      congrArg Place.amountIndex (hplace row)
    refine ⟨rfl, fun amount => ?_, ?_⟩
    · have hfilter := hnumbered amount
      simpa [filter_map, Function.comp_def, hamount, hindex] using hfilter
    · simp [Function.comp_def, hplace]

/-! ## Adding transactions -/

/-- The tables with one more transaction. -/
structure AddsEntry (historyStart : ℕ) (e : Entry) (t t' : Tables) : Prop where
  id : e.id = nextKey TransactionRow.id t.transactions
  height : e.height = chainHeight t
  unknown : ∀ row ∈ t.transactions, row.hash ≠ e.hash
  untrimmed : historyStart ≠ 0 → ∀ row ∈ t.trimmedTxes, row.hash ≠ e.hash
  unspent : e.tx.isMinerTx = false → ∀ keyImage ∈ e.tx.keyImages, hasKeyImage t keyImage = false
  indices : e.indices = numberFrom (t.outputs.map OutputRow.amount) e.tx.storedAmounts
  rows : t' = { t with
    transactions := t.transactions ++ [e.row]
    outputs := t'.outputs
    keyImages := t.keyImages ++ e.keyImages }
  numbered : Numbered t'.outputs
  places : t'.outputs.map OutputRow.place = t.outputs.map OutputRow.place ++ e.places

/-- Storing a transaction, after its key images. -/
theorem storeTransaction_eq_ok {images : List KeyImageRow}
    (h : storeTransaction historyStart txHash tx { t with keyImages := t.keyImages ++ images } =
      .ok () t') (hnumbered : Numbered t.outputs)
    (himages : (if tx.isMinerTx then []
      else tx.keyImages.map (fun keyImage => ⟨keyImage, chainHeight t⟩)) = images)
    (hunspent : tx.isMinerTx = false → ∀ keyImage ∈ tx.keyImages, hasKeyImage t keyImage = false) :
    ∃ e : Entry, e.hash = txHash ∧ e.tx = tx ∧ AddsEntry historyStart e t t' := by
  obtain ⟨_, t₁, hdata, h₁⟩ := bind_eq_ok_iff.mp h
  obtain ⟨hunknown, huntrimmed, ht₁⟩ := addTransactionData_eq_ok hdata
  obtain ⟨indices, t₂, houtputs, h₂⟩ := bind_eq_ok_iff.mp h₁
  have hid : (t₁.transactions.find? (fun row => row.hash = txHash)).map TransactionRow.id =
      some (nextKey TransactionRow.id t.transactions) := by
    have hnone : t.transactions.find? (fun row => row.hash = txHash) = none := by
      apply find?_eq_none.mpr
      intro row hrow
      simpa using hunknown row hrow
    simp [ht₁, find?_append, hnone, newTransaction]
  obtain ⟨hindices, hframe, hnumbered₂, hplaces⟩ := addOutputs_eq_ok houtputs hid
    (by rw [ht₁]; exact hnumbered)
  obtain ⟨hframe', hnumbered', hplaces'⟩ : t' = { t₂ with outputs := t'.outputs } ∧
      Numbered t'.outputs ∧ t'.outputs.map OutputRow.place = t₂.outputs.map OutputRow.place := by
    split at h₂
    · exact addOutputBlacklist_eq_ok h₂ hnumbered₂
    · cases h₂
      exact ⟨rfl, hnumbered₂, rfl⟩
  subst ht₁
  refine ⟨⟨⟨chainHeight t, txHash, tx, indices⟩, nextKey TransactionRow.id t.transactions⟩, rfl, rfl,
    rfl, rfl, hunknown, huntrimmed, hunspent, hindices, ?_, hnumbered', ?_⟩
  · rw [hframe', hframe, ← himages]
    rfl
  · rw [hplaces', hplaces]
    rfl

/-- What `add_transaction` does when it returns: it stores the transaction, or it gives
up on an input of an unsupported kind. -/
theorem addTransaction_eq_ok
    (h : addTransaction historyStart txHash tx t = .ok () t') (hnumbered : Numbered t.outputs) :
    (tx.supported = true ∧
      ∃ e : Entry, e.hash = txHash ∧ e.tx = tx ∧ AddsEntry historyStart e t t') ∨
    (tx.supported = false ∧ OnlyKeyImages t t') := by
  unfold addTransaction at h
  split at h
  · rename_i hminer
    refine .inl ⟨by simp [Tx.supported, hminer],
      storeTransaction_eq_ok ?_ hnumbered (if_pos hminer) (by simp [hminer])⟩
    rw [append_nil]
    exact h
  · rename_i hminer
    obtain ⟨supported, t₁, hkeys, h₁⟩ := bind_eq_ok_iff.mp h
    obtain ⟨hsupported, ht₁⟩ := addSpentKeys_eq_ok hkeys
    cases supported with
    | false =>
      right
      refine ⟨by simp [Tx.supported, hminer, ← hsupported], ?_⟩
      exact IsTrans.trans _ _ _ (addSpentKeys_onlyKeyImages.of_ok hkeys)
        (removeSpentKeys_onlyKeyImages.of_ok h₁)
    | true =>
      left
      obtain ⟨hunspent, ht₁⟩ := ht₁ rfl
      subst ht₁
      exact ⟨by simp [Tx.supported, ← hsupported],
        storeTransaction_eq_ok h₁ hnumbered (if_neg hminer) (fun _ => hunspent)⟩

/-- The tables with the transactions of a block, those that are stored and those that
are given up. -/
inductive Adds (historyStart : ℕ) : List (Hash × Tx) → List Entry → Tables → Tables → Prop
  | nil (t : Tables) : Adds historyStart [] [] t t
  | stored {e : Entry} {txs : List (Hash × Tx)} {entries : List Entry} {t t₁ t' : Tables}
      (hsupported : e.tx.supported = true) (hfirst : AddsEntry historyStart e t t₁)
      (hrest : Adds historyStart txs entries t₁ t') :
      Adds historyStart ((e.hash, e.tx) :: txs) (e :: entries) t t'
  | skipped {txHash : Hash} {tx : Tx} {txs : List (Hash × Tx)} {entries : List Entry}
      {t t₁ t' : Tables} (hsupported : tx.supported = false) (hfirst : OnlyKeyImages t t₁)
      (hrest : Adds historyStart txs entries t₁ t') :
      Adds historyStart ((txHash, tx) :: txs) entries t t'

variable {txs : List (Hash × Tx)} {amounts : List UInt64} {id height i : ℕ}

theorem addTransactions_eq_ok
    (h : txs.forM (fun entry => addTransaction historyStart entry.1 entry.2) t = .ok () t')
    (hnumbered : Numbered t.outputs) : ∃ entries, Adds historyStart txs entries t t' := by
  induction txs generalizing t with
  | nil =>
    cases h
    exact ⟨[], .nil _⟩
  | cons tx _ ih =>
    obtain ⟨txHash, tx⟩ := tx
    obtain ⟨_, t₁, hfirst, hrest⟩ := bind_eq_ok_iff.mp h
    rcases addTransaction_eq_ok hfirst hnumbered with
      ⟨hsupported, e, rfl, rfl, hadds⟩ | ⟨hsupported, honly⟩
    · obtain ⟨entries, hentries⟩ := ih hrest hadds.numbered
      exact ⟨e :: entries, .stored hsupported hadds hentries⟩
    · have houtputs : Numbered t₁.outputs := by
        rw [honly]
        exact hnumbered
      obtain ⟨entries, hentries⟩ := ih hrest houtputs
      exact ⟨entries, .skipped hsupported honly hentries⟩

/-! ## Tables that represent a ledger -/

/-- The tables hold the transactions of a ledger, under the given ids: the rows of those
below the start are gone, but for the hashes of the ones without inputs; all outputs
are there. -/
structure Represents (listed : List LedgerTx) (entries : List Entry) (historyStart : ℕ)
    (t : Tables) : Prop where
  listed : entries.map Entry.toLedgerTx = listed
  indices : ∀ e ∈ entries, e.indices.length = e.tx.storedAmounts.length
  transactions : t.transactions =
    (entries.filter (fun e => historyStart ≤ e.height)).map Entry.row
  places : t.outputs.map OutputRow.place = entries.flatMap Entry.places
  numbered : Numbered t.outputs
  trimmed : ∀ e ∈ entries, e.height < historyStart → e.tx.isMinerTx = false →
    isTransferType e.tx.type = false → ∃ row ∈ t.trimmedTxes, row.hash = e.hash

theorem map_places (h : indices.length = amounts.length) :
    (places id height i amounts indices).map Place.amount = amounts ∧
      (places id height i amounts indices).map Place.amountIndex = indices := by
  induction amounts generalizing i indices with
  | nil => simpa [places] using (eq_nil_of_length_eq_zero h).symm
  | cons _ amounts ih =>
    cases indices with
    | nil => cases h
    | cons _ indices =>
      have hrest : indices.length = amounts.length := by simpa using h
      simp [places, ih hrest]

theorem height_of_mem_places {p : Place}
    (h : p ∈ places id height i amounts indices) : p.height = height := by
  induction amounts generalizing i indices with
  | nil => cases h
  | cons _ _ ih =>
    cases indices with
    | nil => cases h
    | cons =>
      rcases mem_cons.mp h with rfl | h
      · rfl
      · exact ih h

variable {height : ℕ}

namespace Represents

variable {listed : List LedgerTx} {entries : List Entry} {historyStart : ℕ} {t t' : Tables}

section

variable (h : Represents listed entries historyStart t)

include h

/-- The amounts of the stored outputs are those of the ledger. -/
theorem amounts_eq :
    t.outputs.map OutputRow.amount = listed.flatMap (fun entry => entry.tx.storedAmounts) := by
  have hplaces : t.outputs.map OutputRow.amount =
      (t.outputs.map OutputRow.place).map Place.amount := by
    simp [OutputRow.place, Function.comp_def]
  rw [hplaces, h.places, ← h.listed, map_flatMap, flatMap_map]
  apply flatMap_congr
  intro e he
  exact (map_places (h.indices e he)).1

/-- Giving a transaction up changes nothing that counts here. -/
theorem of_onlyKeyImages (honly : OnlyKeyImages t t') :
    Represents listed entries historyStart t' := by
  rw [honly]
  exact ⟨h.listed, h.indices, h.transactions, h.places, h.numbered, h.trimmed⟩

/-- A stored transaction is one more of the ledger. -/
theorem addEntry {e : Entry} (hadds : AddsEntry historyStart e t t')
    (hstart : historyStart ≤ chainHeight t) :
    Represents (listed ++ [⟨chainHeight t, e.hash, e.tx,
      numberFrom (listed.flatMap (fun entry => entry.tx.storedAmounts)) e.tx.storedAmounts⟩])
      (entries ++ [e]) historyStart t' := by
  have hkept : historyStart ≤ e.height := by
    rw [hadds.height]
    exact hstart
  have htransactions : t'.transactions = t.transactions ++ [e.row] := by rw [hadds.rows]
  have htrimmed : t'.trimmedTxes = t.trimmedTxes := by rw [hadds.rows]
  constructor
  · rw [map_append, h.listed, map_singleton, ← h.amounts_eq, ← hadds.indices, ← hadds.height]
  · intro e' he'
    rcases mem_append.mp he' with he' | he'
    · exact h.indices e' he'
    · obtain rfl := mem_singleton.mp he'
      rw [hadds.indices]
      exact length_numberFrom _ _
  · rw [htransactions, h.transactions, filter_append, map_append]
    simp [hkept]
  · rw [hadds.places, h.places, flatMap_append, flatMap_singleton]
  · exact hadds.numbered
  · intro e' he' hbelow hminer htype
    rw [htrimmed]
    rcases mem_append.mp he' with he' | he'
    · exact h.trimmed e' he' hbelow hminer htype
    · obtain rfl := mem_singleton.mp he'
      omega

/-- The transactions of a block extend the ledger. -/
theorem adds {new : List Entry} (hadds : Adds historyStart txs new t t')
    (hstart : historyStart ≤ chainHeight t) :
    Represents (extendLedger (chainHeight t) listed (txs.filter (fun entry => entry.2.supported)))
      (entries ++ new) historyStart t' := by
  induction hadds generalizing listed entries with
  | nil => simpa [extendLedger] using h
  | @stored e txs new t t₁ t' hsupported hfirst hrest ih =>
    have hheight : chainHeight t₁ = chainHeight t := by
      rw [hfirst.rows]
      rfl
    have hnext := ih (h.addEntry hfirst hstart) (by omega)
    rw [hheight, append_assoc] at hnext
    rw [filter_cons_of_pos (by simpa using hsupported)]
    exact hnext
  | @skipped txHash tx txs new t t₁ t' hsupported hfirst hrest ih =>
    have hheight : chainHeight t₁ = chainHeight t := by
      rw [hfirst]
      rfl
    have hnext := ih (h.of_onlyKeyImages hfirst) (by omega)
    rw [hheight] at hnext
    rw [filter_cons_of_neg (by simp [hsupported])]
    exact hnext

end

/-- Taking the top block away leaves the ledger below it. -/
theorem deleteBlock {below above : List LedgerTx}
    (h : Represents (below ++ above) entries historyStart t)
    (hbelow : ∀ entry ∈ below, entry.height < height)
    (habove : ∀ entry ∈ above, entry.height = height) :
    ∃ entries', entries' <+: entries ∧
      Represents below entries' historyStart (t.deleteBlock height) := by
  obtain ⟨old, last, rfl, hold, hlast⟩ := map_eq_append_iff.mp h.listed
  have holdHeight (e : Entry) (he : e ∈ old) : e.height < height :=
    hbelow e.toLedgerTx (by rw [← hold]; exact mem_map_of_mem he)
  have hlastHeight (e : Entry) (he : e ∈ last) : e.height = height :=
    habove e.toLedgerTx (by rw [← hlast]; exact mem_map_of_mem he)
  have hplaces := h.places
  rw [flatMap_append] at hplaces
  obtain ⟨kept, gone, houtputs, hkept, hgone⟩ := map_eq_append_iff.mp hplaces
  have hkeptHeight (row : OutputRow) (hrow : row ∈ kept) : row.height < height := by
    have hplace : row.place ∈ old.flatMap Entry.places := by
      rw [← hkept]
      exact mem_map_of_mem hrow
    obtain ⟨e, he, hmem⟩ := mem_flatMap.mp hplace
    have := height_of_mem_places hmem
    have := holdHeight e he
    simp only [OutputRow.place] at *
    omega
  have hgoneHeight (row : OutputRow) (hrow : row ∈ gone) : row.height = height := by
    have hplace : row.place ∈ last.flatMap Entry.places := by
      rw [← hgone]
      exact mem_map_of_mem hrow
    obtain ⟨e, he, hmem⟩ := mem_flatMap.mp hplace
    exact (height_of_mem_places hmem).trans (hlastHeight e he)
  have hdeleted : (t.deleteBlock height).outputs = kept := by
    change t.outputs.filter (fun row => row.height ≠ height) = kept
    rw [houtputs]
    apply filter_append_eq_left
    · intro row hrow
      exact decide_eq_true (ne_of_lt (hkeptHeight row hrow))
    · intro row hrow
      simp [hgoneHeight row hrow]
  refine ⟨old, prefix_append old last, ?_⟩
  constructor
  · exact hold
  · exact fun e he => h.indices e (mem_append_left last he)
  · change t.transactions.filter (fun row => row.height ≠ height) = _
    rw [h.transactions, filter_append, map_append]
    apply filter_append_eq_left
    · intro row hrow
      obtain ⟨e, he, rfl⟩ := mem_map.mp hrow
      exact decide_eq_true (ne_of_lt (holdHeight e (mem_of_mem_filter he)))
    · intro row hrow
      obtain ⟨e, he, rfl⟩ := mem_map.mp hrow
      simp [Entry.row, hlastHeight e (mem_of_mem_filter he)]
  · rw [hdeleted]
    exact hkept
  · rw [hdeleted]
    exact (houtputs ▸ h.numbered).of_append
  · exact fun e he => h.trimmed e (mem_append_left last he)

/-- A trim drops the rows of the transactions below its end. -/
theorem trim {finish : ℕ} (h : Represents listed entries historyStart t)
    (hle : historyStart ≤ finish) :
    Represents listed entries finish (t.trim historyStart finish) := by
  constructor
  · exact h.listed
  · exact h.indices
  · change t.transactions.filter _ = _
    rw [h.transactions, filter_map, filter_filter]
    congr 1
    apply filter_congr
    intro e he
    simp only [Function.comp_apply, Entry.row]
    grind
  · exact h.places
  · exact h.numbered
  · intro e he hbelow hminer htype
    by_cases hold : e.height < historyStart
    · obtain ⟨row, hrow, hhash⟩ := h.trimmed e he hold hminer htype
      exact ⟨row, mem_append_left _ hrow, hhash⟩
    · refine ⟨e.row.trimmed, mem_append_right _ ?_, rfl⟩
      apply mem_map_of_mem
      apply mem_filter.mpr
      constructor
      · rw [h.transactions]
        exact mem_map_of_mem (mem_filter.mpr ⟨he, by simpa using hold⟩)
      · apply decide_eq_true
        refine ⟨not_lt.mp hold, hbelow, ?_, ?_⟩
        · simp [Entry.row, hminer]
        · simp [Entry.row, htype]

end Represents

/-! ## Runs of the store -/

/-- The transactions of the chain lie below its height, in the order of their
heights. -/
theorem ledger_heights {chain : List BlockInput} :
    (∀ entry ∈ ledger chain, entry.height < chain.length) ∧
      (ledger chain).Pairwise (fun a b => a.height ≤ b.height) := by
  induction chain using List.reverseRecOn with
  | nil => exact ⟨fun _ h => absurd h not_mem_nil, .nil⟩
  | append_singleton chain input ih =>
    obtain ⟨new, hnew, hheight, -⟩ :=
      extendLedger_eq_append chain.length (ledger chain) input.stored
    rw [ledger_append, hnew]
    constructor
    · intro entry hentry
      rw [length_append, length_singleton]
      rcases mem_append.mp hentry with hentry | hentry
      · exact Nat.lt_succ_of_lt (ih.1 entry hentry)
      · rw [hheight entry hentry]
        exact Nat.lt_succ_self _
    · apply pairwise_append.mpr
      refine ⟨ih.2, ?_, ?_⟩
      · apply pairwise_of_forall_mem_list
        intro a ha b hb
        rw [hheight a ha, hheight b hb]
      · intro a ha b hb
        rw [hheight b hb]
        exact (ih.1 a ha).le

/-- A store that keeps a chain which is still empty. -/
structure Store.Empty (s : Store) : Prop where
  tables : s.disk = { history := s.disk.history }
  closed : s.write = none
  start : s.historyStart = 0

/-- The runs of `add_block`, `pop_block` and `trim_history`, with the blocks that are on
the chain. Each added block meets a condition in the store it is added to. -/
inductive StoreRun (P : Store → BlockInput → Prop) : List BlockInput → Store → Prop
  | empty {s : Store} (h : s.Empty) : StoreRun P [] s
  | addBlock {chain : List BlockInput} {s s' : Store} {height : ℕ} (input : BlockInput)
      (hrun : StoreRun P chain s) (hinput : P s input)
      (hadd : addBlockTxn input s = .ok height s') : StoreRun P (chain ++ [input]) s'
  | popBlock {chain : List BlockInput} {s s' : Store} {popped : Block × List Tx}
      (hrun : StoreRun P chain s) (hpop : ChainDb.popBlock s = .ok popped s') :
      StoreRun P chain.dropLast s'
  | trimHistory {chain : List BlockInput} {s s' : Store} (hrun : StoreRun P chain s)
      (htrim : ChainDb.trimHistory s = .ok () s') : StoreRun P chain s'
  | addBlockFailed {chain : List BlockInput} {s s' : Store} {e : Fault} (input : BlockInput)
      (hrun : StoreRun P chain s) (hadd : addBlockTxn input s = .error e s') : StoreRun P chain s'
  | popBlockFailed {chain : List BlockInput} {s s' : Store} {e : Fault}
      (hrun : StoreRun P chain s) (hpop : ChainDb.popBlock s = .error e s') : StoreRun P chain s'
  | trimHistoryFailed {chain : List BlockInput} {s s' : Store} {e : Fault}
      (hrun : StoreRun P chain s) (htrim : ChainDb.trimHistory s = .error e s') :
      StoreRun P chain s'

variable {input : BlockInput} {popped : Block × List Tx} {chain : List BlockInput}

section

variable {s s' : Store} {e : Fault}

section

variable (hwrite : s.write = none)

include hwrite

theorem popBlock_eq_ok (h : popBlock s = .ok popped s') :
    ∃ top ∈ s.disk.blocks, top.height + 1 = chainHeight s.disk ∧ top.body = some popped.1 ∧
      s' = { s with disk := s.disk.deleteBlock top.height, batchActive := false } := by
  obtain ⟨t, hrun, rfl⟩ := inBlockTxn_eq_ok hwrite h
  rcases removeTopBlock_cases with ⟨e, hremove⟩ | ⟨popped', top, htop, hheight, hbody, hremove⟩
  · cases hremove.symm.trans hrun
  · cases hremove.symm.trans hrun
    exact ⟨top, htop, hheight, hbody, rfl⟩

/-- A trim outside of any write transaction either does nothing or moves the start up. -/
theorem trimHistory_cases :
    finalState (trimHistory s) = s ∨
    ∃ finish, s.historyStart ≤ finish ∧ finish ≤ chainHeight s.disk ∧
      finalState (trimHistory s) =
        { s with disk := s.disk.trim s.historyStart finish, historyStart := finish } := by
  unfold trimHistory
  rw [get_bind_run]
  split
  · exact .inl rfl
  · split
    · exact .inl rfl
    · rename_i htarget
      let finish := min (historyTrimTarget s) (s.historyStart + inlineTrimMax)
      have hle : ¬ finish ≤ s.historyStart := by
        simp only [finish, inlineTrimMax]
        omega
      have hfinish : finish ≤ chainHeight s.disk := by
        have : historyTrimTarget s ≤ chainHeight s.disk := by
          unfold historyTrimTarget
          rw [Store.tables_of_closed hwrite]
          split <;> omega
        omega
      unfold trimHistoryTo
      rw [get_bind_run, if_neg hle]
      have hrun := trimTables_of_closed hwrite finish
      split at hrun
      · right
        refine ⟨finish, le_of_not_ge hle, hfinish, ?_⟩
        rw [bind_run_of_ok hrun]
        rfl
      · left
        rw [bind_run_of_error hrun]
        rfl

end

end

/-- A block is added after its transactions. -/
theorem addBlock_eq_ok (h : addBlock historyStart input t = .ok height t')
    (hnumbered : Numbered t.outputs) :
    ∃ entries t₁ rctOutputs, Adds historyStart input.transactions entries t t₁ ∧
      t' = { t₁ with blocks := t₁.blocks ++
        [⟨chainHeight t₁, input.block.hash, rctOutputs, some input.block⟩] } := by
  obtain ⟨-, h⟩ := rejectIf_bind_eq_ok_iff.mp h
  obtain ⟨-, h⟩ := rejectIf_bind_eq_ok_iff.mp h
  rw [get_bind_run] at h
  obtain ⟨_, t₁, htxs, h⟩ := bind_eq_ok_iff.mp h
  obtain ⟨_, t₂, hrow, h⟩ := bind_eq_ok_iff.mp h
  cases h
  obtain ⟨entries, hentries⟩ := addTransactions_eq_ok htxs hnumbered
  refine ⟨entries, t₁, ?_⟩
  unfold addBlockRow at hrow
  obtain ⟨known, -, hrow⟩ := query_bind_eq_ok_iff.mp hrow
  obtain ⟨-, hrow⟩ := rejectIf_bind_eq_ok_iff.mp hrow
  obtain ⟨rctOutputs, -, hrow⟩ := query_bind_eq_ok_iff.mp hrow
  cases hrow
  exact ⟨_, hentries, rfl⟩

theorem Adds.sameBlocks {entries : List Entry}
    (h : Adds historyStart txs entries t t') : SameBlocks t t' := by
  induction h with
  | nil t => exact Std.Refl.refl t
  | stored _ hfirst _ ih =>
    have hsame : SameBlocks _ _ := ⟨congrArg Tables.blocks hfirst.rows,
      congrArg Tables.historyStart hfirst.rows⟩
    exact IsTrans.trans _ _ _ hsame ih
  | skipped _ hfirst _ ih =>
    have hsame : SameBlocks _ _ := ⟨congrArg Tables.blocks hfirst,
      congrArg Tables.historyStart hfirst⟩
    exact IsTrans.trans _ _ _ hsame ih

/-- A store outside of any write transaction whose tables represent a chain. -/
structure Keeping (chain : List BlockInput) (entries : List Entry) (s : Store) : Prop where
  closed : s.write = none
  sound : s.Sound
  length : s.disk.blocks.length = chain.length
  represents : Represents (ledger chain) entries s.historyStart s.disk

namespace Keeping

variable {chain : List BlockInput} {entries : List Entry} {s s' : Store}

section

variable (h : Keeping chain entries s)

include h

theorem chainHeight_eq : chainHeight s.disk = chain.length := by
  rw [h.sound.disk.chainHeight_eq, h.length]

theorem start_stored : s.historyStart = s.disk.historyStart := by
  rw [h.sound.stored, Store.tables_of_closed h.closed]

theorem start_le : s.historyStart ≤ chain.length := by
  rw [h.start_stored, ← h.length]
  exact h.sound.disk.start_le

theorem height_lt {e : Entry} (he : e ∈ entries) : e.height < chain.length := by
  apply ledger_heights.1 e.toLedgerTx
  rw [← h.represents.listed]
  exact mem_map_of_mem he

end

theorem empty (h : s.Empty) : Keeping [] [] s := by
  have hdisk : s.disk.Trimmed := by
    rw [h.tables]
    exact ⟨rfl, fun row hrow => absurd hrow not_mem_nil, Nat.zero_le _⟩
  constructor
  · exact h.closed
  · apply Store.Sound.of_closed hdisk h.closed
    rw [h.start, h.tables]
  · rw [h.tables]
    rfl
  · rw [h.tables]
    exact ⟨rfl, fun e he => absurd he not_mem_nil, rfl, rfl, fun amount => rfl,
      fun e he => absurd he not_mem_nil⟩

section

variable (h : Keeping chain entries s)

include h

theorem addBlock (hadd : addBlockTxn input s = .ok height s') :
    ∃ new t row, Adds s.historyStart input.transactions new s.disk t ∧
      s'.historyStart = s.historyStart ∧ s'.disk = { t with blocks := t.blocks ++ [row] } ∧
      Keeping (chain ++ [input]) (entries ++ new) s' := by
  obtain ⟨t', hrun, rfl⟩ := inBlockTxn_eq_ok h.closed hadd
  obtain ⟨hstart, htrimmed⟩ := (addBlock_staysTrimmed s.historyStart input).of_ok hrun
  obtain ⟨new, t, rctOutputs, hadds, rfl⟩ := addBlock_eq_ok hrun h.represents.numbered
  refine ⟨new, t, _, hadds, rfl, rfl, ?_⟩
  constructor
  · exact h.closed
  · exact .of_closed (htrimmed h.sound.disk) h.closed (h.start_stored.trans hstart.symm)
  · rw [length_append, length_append, hadds.sameBlocks.1, h.length]
    rfl
  · have hadded := h.represents.adds hadds (by rw [h.chainHeight_eq]; exact h.start_le)
    rw [h.chainHeight_eq, ← BlockInput.stored, ← ledger_append] at hadded
    exact ⟨hadded.listed, hadded.indices, hadded.transactions, hadded.places, hadded.numbered,
      hadded.trimmed⟩

theorem popBlock (hpop : ChainDb.popBlock s = .ok popped s') :
    ∃ entries', entries' <+: entries ∧ (∀ e ∈ entries', e.height < chain.length - 1) ∧
      s'.historyStart = s.historyStart ∧ s'.disk = s.disk.deleteBlock (chain.length - 1) ∧
      Keeping chain.dropLast entries' s' := by
  obtain ⟨top, htop, hheight, hbody, rfl⟩ := popBlock_eq_ok h.closed hpop
  have hlength : top.height + 1 = chain.length := hheight.trans h.chainHeight_eq
  obtain ⟨chain, input, rfl⟩ : ∃ chain' input, chain = chain' ++ [input] := by
    rcases eq_nil_or_concat chain with rfl | ⟨chain', input, rfl⟩
    · cases hlength
    · exact ⟨chain', input, by simp⟩
  have htopHeight : top.height = chain.length := by simpa using hlength
  obtain ⟨new, hnew, hnewHeight, -⟩ :=
    extendLedger_eq_append chain.length (ledger chain) input.stored
  have hrepresents := h.represents
  rw [ledger_append, hnew] at hrepresents
  obtain ⟨entries', hinit, hrest⟩ := hrepresents.deleteBlock ledger_heights.1 hnewHeight
  have hdisk := h.sound.disk.deleteTop htop hheight (by simp [hbody])
  rw [htopHeight] at hdisk
  refine ⟨entries', hinit, ?_, rfl, by simp [htopHeight], ?_⟩
  · intro e he
    have := ledger_heights.1 e.toLedgerTx (by rw [← hrest.listed]; exact mem_map_of_mem he)
    simpa using this
  · rw [dropLast_concat, htopHeight]
    constructor
    · exact h.closed
    · exact .of_closed hdisk h.closed h.start_stored
    · have hheights := h.sound.disk.heights
      rw [h.length, length_append, length_singleton] at hheights
      have := congrArg List.length (map_filter_ne_of_map_eq_range hheights)
      simpa [Tables.deleteBlock] using this
    · exact hrest

theorem trimHistory :
    Keeping chain entries (finalState (ChainDb.trimHistory s)) ∧
    (finalState (ChainDb.trimHistory s) = s ∨
      ∃ finish, s.historyStart ≤ finish ∧ finalState (ChainDb.trimHistory s) =
        { s with disk := s.disk.trim s.historyStart finish, historyStart := finish }) := by
  have hsound := h.sound.trimHistory
  rcases trimHistory_cases h.closed with hsame | ⟨finish, hle, -, hfinal⟩
  · refine ⟨?_, .inl hsame⟩
    rw [hsame]
    exact h
  · refine ⟨?_, .inr ⟨finish, hle, hfinal⟩⟩
    rw [hfinal] at hsound ⊢
    constructor
    · exact h.closed
    · exact hsound
    · simpa [Tables.trim] using h.length
    · exact h.represents.trim hle

/-- The flag of a batch does not matter outside of one. -/
theorem of_flag : Keeping chain entries { s with batchActive := false } :=
  ⟨h.closed, .of_closed h.sound.disk h.closed h.start_stored, h.length, h.represents⟩

end

end Keeping

/-- The blocks of the chain are among those that were added. -/
theorem StoreRun.of_mem {P : BlockInput → Prop} {s : Store}
    (hrun : StoreRun (fun _ input => P input) chain s) : ∀ input ∈ chain, P input := by
  induction hrun with
  | empty h => exact fun _ h => absurd h not_mem_nil
  | addBlock _ _ hinput _ ih =>
    intro input' hmem
    rcases mem_append.mp hmem with hmem | hmem
    · exact ih input' hmem
    · rw [mem_singleton.mp hmem]
      exact hinput
  | popBlock _ _ ih => exact fun input hmem => ih input (dropLast_subset _ hmem)
  | trimHistory _ _ ih | addBlockFailed _ _ _ ih | popBlockFailed _ _ ih
  | trimHistoryFailed _ _ ih => exact ih

/-- What every step of a run keeps, about the stored transactions and the tables. -/
structure RunInvariant (P : Store → BlockInput → Prop) (I : List Entry → ℕ → Tables → Prop) :
    Prop where
  empty : ∀ history, I [] 0 { history := history }
  addBlock : ∀ {chain entries s input new t row}, Keeping chain entries s → P s input →
    Adds s.historyStart input.transactions new s.disk t → I entries s.historyStart s.disk →
    I (entries ++ new) s.historyStart { t with blocks := t.blocks ++ [row] }
  popBlock : ∀ {entries entries' historyStart t height}, entries' <+: entries →
    (∀ e ∈ entries', e.height < height) → I entries historyStart t →
    I entries' historyStart (t.deleteBlock height)
  trimHistory : ∀ {entries historyStart t finish}, historyStart ≤ finish →
    I entries historyStart t → I entries finish (t.trim historyStart finish)

/-- What is kept by every step holds after a run. -/
theorem StoreRun.keeping {P : Store → BlockInput → Prop} {I : List Entry → ℕ → Tables → Prop}
    {s : Store} (hrun : StoreRun P chain s) (hI : RunInvariant P I) :
    ∃ entries, Keeping chain entries s ∧ I entries s.historyStart s.disk := by
  have htrims {chain : List BlockInput} {s : Store}
      (h : ∃ entries, Keeping chain entries s ∧ I entries s.historyStart s.disk) :
      let s' := finalState (ChainDb.trimHistory s)
      ∃ entries, Keeping chain entries s' ∧ I entries s'.historyStart s'.disk := by
    obtain ⟨entries, hkeeping, hentries⟩ := h
    obtain ⟨hkeeping', hcases⟩ := hkeeping.trimHistory
    refine ⟨entries, hkeeping', ?_⟩
    rcases hcases with hsame | ⟨finish, hle, hfinal⟩
    · rwa [hsame]
    · rw [hfinal]
      exact hI.trimHistory hle hentries
  induction hrun with
  | @empty s h =>
    refine ⟨[], Keeping.empty h, ?_⟩
    rw [h.start, h.tables]
    exact hI.empty _
  | @addBlock chain s s' height input hrun hinput hadd ih =>
    obtain ⟨entries, hkeeping, hentries⟩ := ih
    obtain ⟨new, t, row, hadds, hstart, hdisk, hkeeping'⟩ := hkeeping.addBlock hadd
    refine ⟨entries ++ new, hkeeping', ?_⟩
    rw [hstart, hdisk]
    exact hI.addBlock hkeeping hinput hadds hentries
  | @popBlock chain s s' popped hrun hpop ih =>
    obtain ⟨entries, hkeeping, hentries⟩ := ih
    obtain ⟨entries', hinit, hbelow, hstart, hdisk, hkeeping'⟩ := hkeeping.popBlock hpop
    refine ⟨entries', hkeeping', ?_⟩
    rw [hstart, hdisk]
    exact hI.popBlock hinit hbelow hentries
  | trimHistory _ htrim ih => simpa only [htrim, finalState_ok] using htrims ih
  | addBlockFailed _ _ hadd ih =>
    obtain ⟨entries, hkeeping, hentries⟩ := ih
    rw [inBlockTxn_eq_error hkeeping.closed hadd]
    exact ⟨entries, hkeeping.of_flag, hentries⟩
  | popBlockFailed _ hpop ih =>
    obtain ⟨entries, hkeeping, hentries⟩ := ih
    rw [inBlockTxn_eq_error hkeeping.closed hpop]
    exact ⟨entries, hkeeping.of_flag, hentries⟩
  | trimHistoryFailed _ htrim ih => simpa only [htrim, finalState_error] using htrims ih

end Xeqm.ChainDb
