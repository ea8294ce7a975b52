import Xeqm.ChainDb.Replays

/-!
# Looking up outputs

A transaction gets the id after the largest one still stored, and its outputs refer to
it by that id for ever. As long as some row is left to count from, ids of transactions
that matter stay apart, and an output leads to its own transaction or to none.
-/

namespace Xeqm.ChainDb

open Cryptonote Lib List

/-- A block that brings a transaction finds one still stored, unless there are no
outputs either. -/
def FindsTransactions (s : Store) (input : BlockInput) : Prop :=
  input.transactions ≠ [] → s.disk.transactions = [] → s.disk.outputs = []

/-! ## Ids -/

/-- Whether the id of a transaction is still in use: it has outputs, or its own row. -/
def Entry.Live (historyStart : ℕ) (e : Entry) : Prop :=
  e.tx.storedAmounts ≠ [] ∨ historyStart ≤ e.height

/-- The transactions are in the order of their heights, and the ids in use grow. -/
structure OrderedIds (entries : List Entry) (historyStart : ℕ) : Prop where
  heights : entries.Pairwise (fun e e' => e.height ≤ e'.height)
  ids : entries.Pairwise (fun e e' => e.Live historyStart → e.id < e'.id)

variable {e : Entry}

namespace OrderedIds

variable {listed : List LedgerTx} {entries : List Entry} {historyStart : ℕ} {t : Tables}

section

variable (h : OrderedIds entries historyStart)

include h

/-- Two transactions whose ids are in use have different ones. -/
theorem eq_of_id_eq {e' : Entry} (he : e ∈ entries) (he' : e' ∈ entries)
    (hlive : e.Live historyStart) (hlive' : e'.Live historyStart) (hid : e.id = e'.id) :
    e = e' := by
  by_contra hne
  rcases pairwise_or h.ids he he' hne with hlt | hlt
  · exact absurd hid (ne_of_lt (hlt hlive))
  · exact absurd hid (ne_of_gt (hlt hlive'))

section

variable (hrepresents : Represents listed entries historyStart t)
  (hfinds : t.transactions = [] → t.outputs = [])

include hrepresents hfinds

/-- The next id lies above those in use. -/
theorem lt_nextKey (he : e ∈ entries) (hlive : e.Live historyStart) :
    e.id < nextKey TransactionRow.id t.transactions := by
  by_cases hkept : historyStart ≤ e.height
  · have hrow : e.row ∈ t.transactions := by
      rw [hrepresents.transactions]
      exact mem_map_of_mem (mem_filter.mpr ⟨he, by simpa using hkept⟩)
    exact @Lib.lt_nextKey _ TransactionRow.id _ _ hrow
  · have hamounts : e.tx.storedAmounts ≠ [] := hlive.resolve_right hkept
    have hne : t.transactions ≠ [] := by
      intro hnil
      have hplaces := hrepresents.places
      rw [hfinds hnil, map_nil] at hplaces
      have hnone : e.places = [] := flatMap_eq_nil_iff.mp hplaces.symm e he
      have hmap : e.places.map Place.amount = e.tx.storedAmounts :=
        (map_places (hrepresents.indices e he)).1
      rw [hnone] at hmap
      exact hamounts hmap.symm
    obtain ⟨row, hrow⟩ := exists_mem_of_ne_nil _ hne
    have hmem := hrow
    rw [hrepresents.transactions] at hmem
    obtain ⟨e', he', rfl⟩ := mem_map.mp hmem
    obtain ⟨he', hkept'⟩ := mem_filter.mp he'
    have hlower : e.height < e'.height := by
      have : historyStart ≤ e'.height := by simpa using hkept'
      omega
    -- the kept transaction comes after the trimmed one
    have hlt : e.id < e'.id := by
      rcases pairwise_or (h.heights.and h.ids) he he' (by rintro rfl; omega) with ⟨-, hlt⟩ | ⟨hle, -⟩
      · exact hlt hlive
      · omega
    exact hlt.trans (@Lib.lt_nextKey _ TransactionRow.id _ _ hrow)

/-- A new transaction is the last, by height and by id. -/
theorem addEntry (hbelow : ∀ e ∈ entries, e.height ≤ chainHeight t) {t' : Tables}
    (hadds : AddsEntry historyStart e t t') : OrderedIds (entries ++ [e]) historyStart := by
  constructor
  · apply pairwise_append.mpr
    refine ⟨h.heights, pairwise_singleton _ _, ?_⟩
    intro e' he' last hlast
    rw [mem_singleton.mp hlast, hadds.height]
    exact hbelow e' he'
  · apply pairwise_append.mpr
    refine ⟨h.ids, pairwise_singleton _ _, ?_⟩
    intro e' he' last hlast hlive
    rw [mem_singleton.mp hlast, hadds.id]
    exact h.lt_nextKey hrepresents hfinds he' hlive

end

theorem adds {txs : List (Hash × Tx)} {new : List Entry} {t' : Tables}
    (hadds : Adds historyStart txs new t t')
    (hrepresents : Represents listed entries historyStart t) (hstart : historyStart ≤ chainHeight t)
    (hfinds : txs ≠ [] → t.transactions = [] → t.outputs = [])
    (hbelow : ∀ e ∈ entries, e.height ≤ chainHeight t) :
    OrderedIds (entries ++ new) historyStart := by
  induction hadds generalizing listed entries with
  | nil => simpa using h
  | @stored e txs new t t₁ t' hsupported hfirst hrest ih =>
    have hheight : chainHeight t₁ = chainHeight t := by
      rw [hfirst.rows]
      rfl
    have hadded := h.addEntry hrepresents (hfinds (cons_ne_nil _ _)) hbelow hfirst
    have hrows : t₁.transactions ≠ [] := by
      rw [hfirst.rows]
      simp
    have hall := ih hadded (hrepresents.addEntry hfirst hstart) (by omega)
      (fun _ hnil => absurd hnil hrows) ?_
    · rwa [append_assoc] at hall
    · intro e' he'
      rw [hheight]
      rcases mem_append.mp he' with he' | he'
      · exact hbelow e' he'
      · rw [mem_singleton.mp he', hfirst.height]
  | @skipped txHash tx txs new t t₁ t' hsupported hfirst hrest ih =>
    have hframe : t₁.transactions = t.transactions ∧ t₁.outputs = t.outputs ∧
        chainHeight t₁ = chainHeight t := by
      rw [hfirst]
      exact ⟨rfl, rfl, rfl⟩
    apply ih h (hrepresents.of_onlyKeyImages hfirst)
    · rw [hframe.2.2]
      exact hstart
    · rw [hframe.1, hframe.2.1]
      exact fun _ => hfinds (cons_ne_nil _ _)
    · rw [hframe.2.2]
      exact hbelow

end

end OrderedIds

theorem orderedIds_invariant :
    RunInvariant FindsTransactions (fun entries historyStart _ => OrderedIds entries historyStart) := by
  constructor
  · intro history
    exact ⟨.nil, .nil⟩
  · intro chain entries s input new t row hkeeping hfinds hadds hordered
    have hheight := hkeeping.chainHeight_eq
    apply hordered.adds hadds hkeeping.represents
    · rw [hheight]
      exact hkeeping.start_le
    · exact hfinds
    · intro e he
      rw [hheight]
      exact (hkeeping.height_lt he).le
  · intro entries entries' historyStart t height hinit hbelow hordered
    exact ⟨hordered.heights.sublist hinit.sublist, hordered.ids.sublist hinit.sublist⟩
  · intro entries historyStart t finish hle hordered
    exact ⟨hordered.heights, hordered.ids.imp (fun hlt hlive =>
      hlt (hlive.imp_right (fun hkept => hle.trans hkept)))⟩

/-! ## Places -/

section

variable {id height i : ℕ} {amounts : List UInt64} {indices : List ℕ}

theorem mem_places {j index : ℕ} {amount : UInt64} (hamount : amounts[j]? = some amount)
    (hindex : indices[j]? = some index) :
    ⟨amount, index, height, some id, i + j⟩ ∈ places id height i amounts indices := by
  induction amounts generalizing i j indices with
  | nil => simp at hamount
  | cons first _ ih =>
    cases indices with
    | nil => simp at hindex
    | cons firstIndex =>
      cases j with
      | zero =>
        obtain rfl : first = amount := by simpa using hamount
        obtain rfl : firstIndex = index := by simpa using hindex
        exact mem_cons_self
      | succ =>
        have hrest := ih (i := i + 1) (by simpa using hamount) (by simpa using hindex)
        rw [Nat.add_right_comm, add_assoc] at hrest
        exact mem_cons_of_mem _ hrest

/-- The outputs of a transaction come in the order of their positions, from the first
one on. -/
theorem pairwise_places : (∀ p ∈ places id height i amounts indices, i ≤ p.localIndex) ∧
    (places id height i amounts indices).Pairwise (fun p p' => p.localIndex ≤ p'.localIndex) := by
  induction amounts generalizing i indices with
  | nil => exact ⟨fun _ h => absurd h not_mem_nil, .nil⟩
  | cons _ amounts ih =>
    cases indices with
    | nil => exact ⟨fun _ h => absurd h not_mem_nil, .nil⟩
    | cons _ indices =>
      obtain ⟨hfrom, hsorted⟩ := @ih (i + 1) indices
      have hlater : ∀ p ∈ places id height (i + 1) amounts indices, i ≤ p.localIndex :=
        fun p hp => (Nat.le_succ i).trans (hfrom p hp)
      constructor
      · intro p hp
        rcases mem_cons.mp hp with rfl | hp
        · exact le_rfl
        · exact hlater p hp
      · exact .cons hlater hsorted

theorem txId_of_mem_places {p : Place} (h : p ∈ places id height i amounts indices) :
    p.txId = some id := by
  induction amounts generalizing i indices with
  | nil => cases h
  | cons _ _ ih =>
    cases indices with
    | nil => cases h
    | cons =>
      rcases mem_cons.mp h with rfl | h
      · rfl
      · exact ih h

end

theorem places_eq_nil (h : e.tx.storedAmounts = []) : e.places = [] := by
  simp [Entry.places, h, places]

section

variable {listed : List LedgerTx} {entries : List Entry} {historyStart : ℕ} {t : Tables}

/-- The outputs that refer to an id are those of the transactions stored under it. -/
theorem Represents.map_place_txId (h : Represents listed entries historyStart t) (id : ℕ) :
    (t.outputs.filter (fun row => row.txId = some id)).map OutputRow.place =
      entries.flatMap (fun e => if e.id = id then e.places else []) := by
  have hfilter : (t.outputs.filter (fun row => row.txId = some id)).map OutputRow.place =
      (t.outputs.map OutputRow.place).filter (fun p => p.txId = some id) := by
    rw [filter_map]
    rfl
  rw [hfilter, h.places, filter_flatMap]
  apply flatMap_congr
  intro e he
  split
  · rename_i hid
    apply filter_eq_self.mpr
    intro p hp
    simp [txId_of_mem_places hp, hid]
  · rename_i hid
    apply filter_eq_nil_iff.mpr
    intro p hp
    simp [txId_of_mem_places hp, hid]

/-- Under an id that is in use there are the outputs of one transaction only. -/
theorem OrderedIds.flatMap_places (h : OrderedIds entries historyStart) (he : e ∈ entries)
    (hlive : e.Live historyStart) :
    entries.flatMap (fun e' => if e'.id = e.id then e'.places else []) = e.places := by
  obtain ⟨before, after, rfl⟩ := append_of_mem he
  obtain ⟨-, hafter, hbefore⟩ := pairwise_append.mp h.ids
  have hnone : before.flatMap (fun e' => if e'.id = e.id then e'.places else []) = [] := by
    apply flatMap_eq_nil_iff.mpr
    intro e' he'
    split
    · rename_i hid
      apply places_eq_nil
      by_contra hamounts
      have := hbefore e' he' e mem_cons_self (.inl hamounts)
      omega
    · rfl
  have hnone' : after.flatMap (fun e' => if e'.id = e.id then e'.places else []) = [] := by
    apply flatMap_eq_nil_iff.mpr
    intro e' he'
    rw [if_neg]
    have := (pairwise_cons.mp hafter).1 e' he' hlive
    omega
  rw [flatMap_append, flatMap_cons, hnone, hnone', if_pos rfl]
  simp

/-- Outputs that refer to an id, in the order of their positions. -/
theorem outputIndices_eq {id : ℕ}
    (h : (t.outputs.filter (fun row => row.txId = some id)).map OutputRow.place = e.places)
    (hindices : e.indices.length = e.tx.storedAmounts.length) : outputIndices t id = e.indices := by
  have hsorted : (t.outputs.filter (fun row => row.txId = some id)).Pairwise
      (fun row row' => decide (row.localIndex ≤ row'.localIndex) = true) := by
    have hplaces := (@pairwise_places e.id e.height 0 e.tx.storedAmounts e.indices).2
    change e.places.Pairwise _ at hplaces
    rw [← h, pairwise_map] at hplaces
    exact hplaces.imp fun hle => decide_eq_true hle
  unfold outputIndices
  rw [mergeSort_of_pairwise hsorted]
  have hmap := congrArg (List.map Place.amountIndex) h
  rw [map_map] at hmap
  exact hmap.trans ((map_places hindices).2)

variable (h : OrderedIds entries historyStart)
  (hrepresents : Represents listed entries historyStart t)

include h hrepresents

/-- The indices found for an id that is in use are those of its transaction. -/
theorem OrderedIds.outputIndices_eq (he : e ∈ entries) (hlive : e.Live historyStart) :
    outputIndices t e.id = e.indices := by
  apply ChainDb.outputIndices_eq
  · rw [hrepresents.map_place_txId, h.flatMap_places he hlive]
  · exact hrepresents.indices e he

/-- The indices found for any id are those of one transaction, or there are none. -/
theorem OrderedIds.outputIndices_cases (id : ℕ) :
    outputIndices t id = [] ∨ ∃ e ∈ entries, outputIndices t id = e.indices := by
  by_cases hused : ∃ e ∈ entries, e.id = id ∧ e.tx.storedAmounts ≠ []
  · obtain ⟨e, he, rfl, hamounts⟩ := hused
    exact .inr ⟨e, he, h.outputIndices_eq hrepresents he (.inl hamounts)⟩
  · left
    have hnone : entries.flatMap (fun e => if e.id = id then e.places else []) = [] := by
      apply flatMap_eq_nil_iff.mpr
      intro e he
      split
      · rename_i hid
        apply places_eq_nil
        by_contra hamounts
        exact hused ⟨e, he, hid, hamounts⟩
      · rfl
    rw [← hrepresents.map_place_txId, map_eq_nil_iff] at hnone
    simp [outputIndices, hnone]

/-- The rows under an id that is in use. -/
theorem OrderedIds.filter_id (he : e ∈ entries) (hlive : e.Live historyStart) :
    t.transactions.filter (fun row => row.id = e.id) =
      if historyStart ≤ e.height then [e.row] else [] := by
  have hlast (row : TransactionRow) (hrow : row ∈ t.transactions) (hid : row.id = e.id) :
      row = e.row ∧ historyStart ≤ e.height := by
    rw [hrepresents.transactions] at hrow
    obtain ⟨e', he', rfl⟩ := mem_map.mp hrow
    obtain ⟨he', hkept⟩ := mem_filter.mp he'
    have hkept : historyStart ≤ e'.height := by simpa using hkept
    obtain rfl := h.eq_of_id_eq he' he (.inr hkept) hlive hid
    exact ⟨rfl, hkept⟩
  split
  · rename_i hkept
    have hnodup : (t.transactions.map TransactionRow.id).Nodup := by
      rw [hrepresents.transactions, map_map]
      apply pairwise_map.mpr
      apply (h.ids.filter _).imp_of_mem
      intro e₁ e₂ h₁ h₂ hlt
      exact ne_of_lt (hlt (.inr (by simpa using (mem_filter.mp h₁).2)))
    have hrow : e.row ∈ t.transactions := by
      rw [hrepresents.transactions]
      exact mem_map_of_mem (mem_filter.mpr ⟨he, by simpa using hkept⟩)
    exact filter_key_eq_singleton hnodup hrow
  · rename_i hgone
    exact filter_key_eq_nil fun row hrow hid => hgone (hlast row hrow hid).2

/-- An output leads to its transaction as long as that is stored. -/
theorem OrderedIds.getOutputTxAndIndex_eq (he : e ∈ entries) {i index : ℕ} {amount : UInt64}
    (hamount : e.tx.storedAmounts[i]? = some amount) (hindex : e.indices[i]? = some index) :
    getOutputTxAndIndex t amount index =
      if historyStart ≤ e.height then .ok (e.hash, i) else .error .outputDne := by
  have hlive : e.Live historyStart := by
    left
    rintro hnil
    simp [hnil] at hamount
  obtain ⟨row, hrow, hplace⟩ : ∃ row ∈ t.outputs,
      row.place = ⟨amount, index, e.height, some e.id, 0 + i⟩ := by
    have hmem : ⟨amount, index, e.height, some e.id, 0 + i⟩ ∈ t.outputs.map OutputRow.place := by
      rw [hrepresents.places]
      exact mem_flatMap.mpr ⟨e, he, mem_places hamount hindex⟩
    exact mem_map.mp hmem
  obtain ⟨rfl, rfl, -, htxId, hlocal⟩ := Place.mk.inj hplace
  have hfound := hrepresents.numbered.filter_eq_singleton hrow
  have hstored := h.filter_id hrepresents he hlive
  rw [zero_add] at hlocal
  unfold getOutputTxAndIndex
  simp only [hfound, flatMap_singleton, htxId, Option.some.injEq, eq_comm (a := e.id), hstored,
    hlocal]
  split <;> rfl

end

/-- After every run in which blocks find transactions, an output of the chain leads to
the transaction that made it if that is not trimmed, and to none otherwise. The indices
found for an id are those of the transaction stored under it, and always those of one
transaction or none. -/
theorem outputs_lead_to_own_transaction {chain : List BlockInput} {s : Store}
    (hrun : StoreRun FindsTransactions chain s) :
    (∀ made ∈ ledger chain, ∀ i amount index, made.tx.storedAmounts[i]? = some amount →
      made.indices[i]? = some index →
      getOutputTxAndIndex s.disk amount index =
        if s.historyStart ≤ made.height then .ok (made.hash, i) else .error .outputDne) ∧
    ∀ txId nTxes i, i < nTxes →
      ∃ indices, (getTxAmountOutputIndices s.disk txId nTxes)[i]? = some indices ∧
        (indices = [] ∨ ∃ made ∈ ledger chain, indices = made.indices) ∧
        ∀ row ∈ s.disk.transactions, row.id = txId + i →
          ∃ made ∈ ledger chain, made.hash = row.hash ∧ made.height = row.height ∧
            made.tx = row.blob ∧ indices = made.indices := by
  obtain ⟨entries, hkeeping, hordered⟩ := hrun.keeping orderedIds_invariant
  have hrepresents := hkeeping.represents
  constructor
  · intro made hmade i amount index hamount hindex
    rw [← hrepresents.listed] at hmade
    obtain ⟨e, he, rfl⟩ := mem_map.mp hmade
    exact hordered.getOutputTxAndIndex_eq hrepresents he hamount hindex
  · intro txId nTxes i hi
    refine ⟨outputIndices s.disk (txId + i), ?_, ?_, ?_⟩
    · simp [getTxAmountOutputIndices, hi]
    · rcases hordered.outputIndices_cases hrepresents (txId + i) with hnil | ⟨e, he, heq⟩
      · exact .inl hnil
      · refine .inr ⟨e.toLedgerTx, ?_, heq⟩
        rw [← hrepresents.listed]
        exact mem_map_of_mem he
    · intro row hrow hid
      rw [hrepresents.transactions] at hrow
      obtain ⟨e, he, rfl⟩ := mem_map.mp hrow
      obtain ⟨he, hkept⟩ := mem_filter.mp he
      refine ⟨e.toLedgerTx, ?_, rfl, rfl, rfl, ?_⟩
      · rw [← hrepresents.listed]
        exact mem_map_of_mem he
      · rw [← hid]
        exact hordered.outputIndices_eq hrepresents he (.inr (by simpa using hkept))

theorem grownInput_finds (s : Store) (height : ℕ) : FindsTransactions s (grownInput (height + 1)) :=
  fun h => absurd rfl h

/-- A block with a transfer above the empty ones. -/
def laterInput : BlockInput :=
  ⟨{ emptyBlock 721 with txHashes := [13] },
    [{ vin := [.toKey 8], vout := [⟨0, some 0⟩], hash := 13 }]⟩

/-- The first block is trimmed after a later one has come with a transfer: the output of the miner
transaction leads nowhere, that of the later transfer to it. -/
theorem outputs_lead_to_own_transaction_later :
    let s := finalState (trimHistory (finalState (addBlockTxn laterInput (grownStore 720))))
    StoreRun FindsTransactions ((List.range 721).map grownInput ++ [laterInput]) s ∧
      getOutputTxAndIndex s.disk 0 0 = .error .outputDne ∧
      getOutputTxAndIndex s.disk 0 3 = .ok (13, 0) := by
  intro s
  have hadd : returns (addBlockTxn laterInput (grownStore 720)) = true := by decide +kernel
  obtain ⟨height, hadded⟩ := eq_ok_of_returns hadd
  have htrim : returns (trimHistory (finalState (addBlockTxn laterInput (grownStore 720)))) =
      true := by
    decide +kernel
  obtain ⟨_, htrimmed⟩ := eq_ok_of_returns htrim
  have hgrown : StoreRun FindsTransactions ((List.range 721).map grownInput) (grownStore 720) := by
    refine grownStore_run (by omega) (fun s hempty _ _ => ?_) grownInput_finds
    rw [hempty.tables]
  have hrun := (hgrown.addBlock laterInput (fun _ h => nomatch h) hadded).trimHistory htrimmed
  have hstart : s.historyStart = 2 := by decide +kernel
  have hfound := (outputs_lead_to_own_transaction hrun).1
  obtain ⟨miner, hminer, hheight, hamount, hindex⟩ :
      ∃ made ∈ ledger ((List.range 721).map grownInput ++ [laterInput]), made.height = 0 ∧
        made.tx.storedAmounts[0]? = some 0 ∧ made.indices[0]? = some 0 := by
    decide +kernel
  obtain ⟨transfer, htransfer, hhash, hheight', hamount', hindex'⟩ :
      ∃ made ∈ ledger ((List.range 721).map grownInput ++ [laterInput]), made.hash = 13 ∧
        made.height = 721 ∧ made.tx.storedAmounts[0]? = some 0 ∧ made.indices[0]? = some 3 := by
    decide +kernel
  refine ⟨hrun, ?_, ?_⟩
  · rw [hfound miner hminer 0 0 0 hamount hindex, hheight]
    exact if_neg (by rw [hstart]; decide)
  · rw [hfound transfer htransfer 0 0 3 hamount' hindex', hheight', hhash]
    exact if_pos (by rw [hstart]; decide)

/-- Once the first block is trimmed, the first transaction of a later block gets the id
of its miner transaction, and the output of that leads to the wrong transaction. -/
theorem output_leads_to_later_transaction :
    ∃ s, StoreRun (fun _ input => input.Admitted)
        ((List.range 721).map grownInput ++ [laterInput]) s ∧
      getOutputTxAndIndex (grownStore 720).disk 0 0 = .ok (11, 0) ∧
      getOutputTxAndIndex s.disk 0 0 = .ok (13, 0) ∧
      getTxAmountOutputIndices s.disk 0 1 = [[0, 3]] := by
  have hadd : returns (addBlockTxn laterInput trimmedStore) = true := by decide +kernel
  obtain ⟨height, hadded⟩ := eq_ok_of_returns hadd
  have hrun : StoreRun (fun _ input => input.Admitted) ((List.range 721).map grownInput)
      trimmedStore :=
    trimmedStore_run (fun _ _ => grownInput_admitted) fun _ _ => grownInput_admitted
  have hadmitted : laterInput.Admitted := by
    constructor
    · intro tx htx
      obtain rfl := mem_singleton.mp htx
      exact ⟨rfl, fun _ => cons_ne_nil _ _⟩
    · exact fun tx h => by cases h
  have hrows : (finalState (addBlockTxn laterInput trimmedStore)).disk.outputs.filter
      (fun row => row.txId = some 0) =
      [⟨0, 0, 0, 0, 0, 0, some 0, 0, false⟩, ⟨3, 0, 3, 721, 0, 0, some 0, 0, false⟩] := by
    decide +kernel
  refine ⟨_, hrun.addBlock laterInput hadmitted hadded, by decide +kernel, by decide +kernel, ?_⟩
  simp [getTxAmountOutputIndices, outputIndices, hrows, mergeSort_of_pairwise]

end Xeqm.ChainDb
