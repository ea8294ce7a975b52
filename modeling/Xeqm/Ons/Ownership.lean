import Xeqm.Ons.Runs

/-!
# Who can change a name

While a registration is active, no transaction that buys the name is accepted, and the owners and
the value change only by an update that is signed by one of the owners recorded before it. A
renewal moves the expiry to a later height and keeps the owners and the value.
-/

namespace Xeqm.Ons

open Cryptonote List
open Lib (latestBy latestBy_concat)

/-- What a transaction says about a name, if it is one of the name system. -/
def OnsTx.entry (tx : OnsTx) : Option OnsExtra :=
  if tx.type = .oxenNameSystem then tx.extra else none

/-- The entry is about a name of some type. -/
def OnsExtra.concerns (entry : OnsExtra) (type : MappingType) (nameHash : Hash) : Prop :=
  entry.type.dbMappingType = type.dbMappingType ∧ entry.nameHash = nameHash

/-- What an owner has registered: the owners and the value. -/
def MappingRecord.contents (record : MappingRecord) : GenericOwner × GenericOwner × List UInt8 :=
  (record.owner, record.backupOwner, record.row.encryptedValue)

/-- The update of an entry is signed by one of the owners of a record. -/
def OnsExtra.signedByOwner (crypto : OnsCrypto) (entry : OnsExtra) (record : MappingRecord) :
    Prop :=
  entry.signedBy crypto record.row.txid record.owner = true ∨
    entry.signedBy crypto record.row.txid record.backupOwner = true

/-- The record after a renewal: another transaction, the height of its block and a later expiry,
and otherwise what it was before. -/
structure Renewed (txHash : Hash) (height : ℕ) (record after : MappingRecord) : Prop where
  contents : after.contents = record.contents
  type : after.row.type = record.row.type
  nameHash : after.row.nameHash = record.row.nameHash
  txid : after.row.txid = txHash
  updateHeight : after.row.updateHeight = height
  expiration : ∃ before later, record.row.expirationHeight = some before ∧
    after.row.expirationHeight = some later ∧ before < later

/-- What a transaction can do to a record of an active name. -/
inductive RecordStep (crypto : OnsCrypto) (height : ℕ) (tx : OnsTx) (type : MappingType)
    (nameHash : Hash) (record after : MappingRecord) : Prop
  | untouched (other : ∀ entry, tx.entry = some entry → ¬entry.concerns type nameHash)
      (eq : after.withoutOwnerIds = record.withoutOwnerIds)
  | updated (entry : OnsExtra) (found : tx.entry = some entry)
      (about : entry.concerns type nameHash) (updating : entry.isUpdating = true)
      (signed : entry.signedByOwner crypto record)
      (expiration : after.row.expirationHeight = record.row.expirationHeight)
  | renewed (entry : OnsExtra) (found : tx.entry = some entry)
      (about : entry.concerns type nameHash) (renewing : entry.isRenewing = true)
      (eq : Renewed tx.hash height record after)

/-! ## One transaction -/

variable {entry : OnsExtra}

theorem OnsExtra.isBuying_of_isUpdating (h : entry.isUpdating = true) : entry.isBuying = false := by
  unfold isUpdating at h
  unfold isBuying
  simp only [Bool.and_eq_true] at h
  simp [h.1]

theorem OnsExtra.not_updating_of_isRenewing (h : entry.isRenewing = true) :
    entry.isUpdating = false ∧ entry.isBuying = false := by
  unfold isRenewing at h
  simp only [Bool.and_eq_true, decide_eq_true_eq] at h
  simp [isUpdating, isBuying, h.1.1]

theorem OnsExtra.isLokinetType_of_isRenewing (h : entry.isRenewing = true) :
    entry.type.isLokinetType = true := by
  unfold isRenewing at h
  simp only [Bool.and_eq_true] at h
  exact h.2

namespace NameHistory

variable {history after : NameHistory} {type : MappingType} {nameHash : Hash}
  {record : MappingRecord}

section

variable (h : history.insert record = some after)

include h

/-- The history after an insertion. -/
theorem insert_eq_some :
    (∀ other ∈ history.records, NameSystemDb.sameKey record.row other.row = false) ∧
      ∃ id, after = { history with
        records := history.records ++ [{ record with row := { record.row with id } }] } := by
  unfold insert at h
  split at h
  · cases h
  rename_i hany
  refine ⟨?_, _, (Option.some.inj h).symm⟩
  intro other hother
  simpa using fun hsame => hany (any_eq_true.mpr ⟨other, hother, hsame⟩)

/-- An inserted version is the last one of its name. -/
theorem getMapping_insert (hname : record.row.isOf type nameHash = true)
    (hbounded : ∀ other ∈ history.records, other.row.updateHeight ≤ record.row.updateHeight) :
    ∃ id, after.getMapping type nameHash = some { record with row := { record.row with id } } := by
  obtain ⟨hkey, id, rfl⟩ := insert_eq_some h
  refine ⟨id, ?_⟩
  have hnew : MappingRow.isOf type nameHash { record.row with id } = true := hname
  unfold getMapping
  rw [filter_append, filter_cons, if_pos hnew, filter_nil]
  apply latestBy_concat
  intro other hother
  obtain ⟨hmem, hother⟩ := mem_filter.mp hother
  have hle := hbounded other hmem
  have hne := hkey other hmem
  simp only [MappingRow.isOf, Bool.and_eq_true, decide_eq_true_eq] at hname hother
  simp only [NameSystemDb.sameKey, hname, hother, decide_true, Bool.true_and,
    decide_eq_false_iff_not] at hne
  exact lt_of_le_of_ne hle (Ne.symm hne)

/-- A version of another name changes nothing. -/
theorem getMapping_insert_of_not (hname : record.row.isOf type nameHash = false) :
    after.getMapping type nameHash = history.getMapping type nameHash := by
  obtain ⟨-, id, rfl⟩ := insert_eq_some h
  have hnew : ¬MappingRow.isOf type nameHash { record.row with id } = true := by
    intro hnew
    exact absurd hname (by rw [show record.row.isOf type nameHash = true from hnew]; decide)
  unfold getMapping
  rw [filter_append, filter_cons, if_neg hnew, filter_nil, append_nil]

end

/-- The recorded name is found under every type that is stored alike. -/
theorem getMapping_of_concerns (h : entry.concerns type nameHash) :
    history.getMapping entry.type entry.nameHash = history.getMapping type nameHash := by
  obtain ⟨htype, hname⟩ := h
  unfold getMapping MappingRow.isOf
  rw [htype, hname]

/-- The recorded name is one of the name that is asked for. -/
theorem isOf_of_getMapping (h : history.getMapping type nameHash = some record) :
    record ∈ history.records ∧ record.row.isOf type nameHash = true :=
  mem_filter.mp (Lib.mem_of_latestBy h)

/-- No version is above some height, and a version of a type that expires has its expiry. -/
structure UpTo (height : ℕ) (history : NameHistory) : Prop where
  bounded : ∀ record ∈ history.records, record.row.updateHeight ≤ height
  expires : ∀ record ∈ history.records, record.row.type.isLokinetType = true →
    record.row.expirationHeight.isSome

variable {crypto : OnsCrypto} {version : Hf} {height : ℕ} {tx : OnsTx}

/-- A renewal of an active name. -/
theorem renewed_renewal (hexpires : record.row.expirationHeight.isSome)
    (hrenewing : entry.isRenewing = true) (id : ℕ) :
    Renewed tx.hash height record
      { history.renewal height entry tx.hash record with
        row := { (history.renewal height entry tx.hash record).row with id } } := by
  obtain ⟨expiration, hexpiration⟩ := Option.isSome_iff_exists.mp hexpires
  obtain ⟨blocks, hblocks, hpos⟩ := expiryBlocks_pos history.nettype
    (OnsExtra.isLokinetType_of_isRenewing hrenewing)
  refine ⟨rfl, rfl, rfl, rfl, rfl, expiration, expiration + blocks, hexpiration, ?_, by omega⟩
  simp [renewal, hexpiration, hblocks]

/-- A version for an entry is one of the name of the entry, and of no other. -/
theorem isOf_eq_false {row : MappingRow} (hrow : row.isOf entry.type entry.nameHash = true)
    (h : ¬entry.concerns type nameHash) :
    row.isOf type nameHash = false := by
  rw [← Bool.not_eq_true]
  intro hother
  simp only [MappingRow.isOf, Bool.and_eq_true, decide_eq_true_eq] at hrow hother
  exact h ⟨hrow.1.symm.trans hother.1, hrow.2.symm.trans hother.2⟩

/-- An entry about another name changes nothing. -/
theorem getMapping_addOnsEntry_of_not {txHash : Hash}
    (h : history.addOnsEntry height entry txHash = some after)
    (hother : ¬entry.concerns type nameHash) :
    after.getMapping type nameHash = history.getMapping type nameHash := by
  unfold addOnsEntry at h
  split at h
  · apply getMapping_insert_of_not h
    apply isOf_eq_false _ hother
    simp [purchase, MappingRow.isOf]
  · cases hlast : history.getMapping entry.type entry.nameHash with
    | none =>
      rw [hlast] at h
      cases h
      rfl
    | some =>
      rw [hlast] at h
      apply getMapping_insert_of_not h
      apply isOf_eq_false _ hother
      have hname := (isOf_of_getMapping hlast).2
      unfold change
      split <;> exact hname

/-- What an accepted transaction can do to an active name. -/
theorem addTx_recordStep (hupTo : history.UpTo height)
    (h : history.addTx crypto version height tx = some after)
    (hget : history.getMapping type nameHash = some record)
    (hactive : record.active height = true) :
    ∃ record', after.getMapping type nameHash = some record' ∧
      RecordStep crypto height tx type nameHash record record' := by
  unfold addTx at h
  split at h
  · rename_i htype
    cases h
    refine ⟨record, hget, .untouched ?_ rfl⟩
    intro entry hentry
    rw [OnsTx.entry, if_neg htype] at hentry
    cases hentry
  rename_i htype
  cases hvalid : validateOnsTx crypto history.nettype history.getMapping version height tx with
  | error =>
    rw [hvalid] at h
    cases h
  | ok entry =>
  rw [hvalid] at h
  dsimp only at h
  obtain ⟨hextra, -, haccepted⟩ := validateOnsTx_ok hvalid
  have hentry : tx.entry = some entry := by rw [OnsTx.entry, if_pos (not_not.mp htype), hextra]
  have honly {other : OnsExtra} (hother : tx.entry = some other) : other = entry :=
    Option.some.inj (hother.symm.trans hentry)
  by_cases hconcerns : entry.concerns type nameHash
  · -- the entry is about this name, which is recorded and active
    have hmapping : history.getMapping entry.type entry.nameHash = some record := by
      rw [getMapping_of_concerns hconcerns, hget]
    obtain ⟨hmem, hname⟩ := isOf_of_getMapping hget
    cases haccepted with
    | purchase _ hfree =>
      have hinactive := hfree record hmapping
      rw [hactive] at hinactive
      cases hinactive
    | update _ hupdating hrecorded _ hsigned =>
      obtain rfl := Option.some.inj (hmapping.symm.trans hrecorded)
      have hrenewing : entry.isRenewing = false := by
        cases hr : entry.isRenewing with
        | false => rfl
        | true =>
          rw [(OnsExtra.not_updating_of_isRenewing hr).1] at hupdating
          cases hupdating
      rw [addOnsEntry, OnsExtra.isBuying_of_isUpdating hupdating, hmapping] at h
      simp only [change, hrenewing] at h
      obtain ⟨id, hafter⟩ := getMapping_insert h hname hupTo.bounded
      exact ⟨_, hafter, .updated entry hentry hconcerns hupdating hsigned rfl⟩
    | renewal _ hrenewing hrecorded =>
      obtain rfl := Option.some.inj (hmapping.symm.trans hrecorded)
      rw [addOnsEntry, (OnsExtra.not_updating_of_isRenewing hrenewing).2, hmapping] at h
      simp only [change, hrenewing] at h
      obtain ⟨id, hafter⟩ := getMapping_insert h hname hupTo.bounded
      have hexpires : record.row.expirationHeight.isSome := by
        apply hupTo.expires record hmem
        simp only [MappingRow.isOf, Bool.and_eq_true, decide_eq_true_eq] at hname
        rw [hname.1, ← hconcerns.1, MappingType.isLokinetType_dbMappingType]
        exact OnsExtra.isLokinetType_of_isRenewing hrenewing
      exact ⟨_, hafter, .renewed entry hentry hconcerns hrenewing
        (renewed_renewal hexpires hrenewing id)⟩
  · -- the entry is about another name
    refine ⟨record, ?_, .untouched (fun other hother => honly hother ▸ hconcerns) rfl⟩
    rw [← hget]
    exact getMapping_addOnsEntry_of_not h hconcerns

end NameHistory

/-! ## Databases -/

/-- The numbers of the owners do not matter. -/
theorem RecordStep.of_withoutOwnerIds {crypto : OnsCrypto} {height : ℕ} {tx : OnsTx}
    {type : MappingType} {nameHash : Hash} {record after : MappingRecord}
    (h : RecordStep crypto height tx type nameHash record.withoutOwnerIds after.withoutOwnerIds) :
    RecordStep crypto height tx type nameHash record after := by
  cases h with
  | untouched hother heq =>
    refine .untouched hother ?_
    rwa [MappingRecord.withoutOwnerIds_withoutOwnerIds,
      MappingRecord.withoutOwnerIds_withoutOwnerIds] at heq
  | updated entry hfound habout hupdating hsigned hexpiration =>
    exact .updated entry hfound habout hupdating hsigned hexpiration
  | renewed entry hfound habout hrenewing heq =>
    exact .renewed entry hfound habout hrenewing
      ⟨heq.contents, heq.type, heq.nameHash, heq.txid, heq.updateHeight, heq.expiration⟩

namespace NameSystemDb

variable {db before after : NameSystemDb} {crypto : OnsCrypto} {height : ℕ} {tx : OnsTx}
  {type : MappingType} {nameHash : Hash} {record : MappingRecord}

theorem Sound.upTo_history (hdb : db.Sound height) : db.history.UpTo height := by
  constructor
  · intro record hrecord
    obtain ⟨row, hrow, rfl⟩ := mem_map.mp hrecord
    exact hdb.bounded row hrow
  · intro record hrecord
    obtain ⟨row, hrow, rfl⟩ := mem_map.mp hrecord
    exact hdb.expires row hrow

/-- What an accepted transaction can do to an active name of the database. -/
theorem Sound.addTx_recordStep (hdb : db.Sound height) {version : Hf}
    (h : NameSystemDb.addTx crypto version height db tx = some after)
    (hget : db.getActiveMapping type nameHash height = some record) :
    ∃ record', after.getMapping type nameHash = some record' ∧
      RecordStep crypto height tx type nameHash record record' := by
  obtain ⟨hget, hactive⟩ := Option.filter_eq_some_iff.mp hget
  have hhistory : db.history.addTx crypto version height tx = some after.history := by
    rw [← hdb.toWellFormed.addTx_history, h]
    rfl
  have hrecord : db.history.getMapping type nameHash = some record.withoutOwnerIds := by
    rw [← hdb.toWellFormed.getMapping_history, hget]
    rfl
  obtain ⟨erased, hafter, hstep⟩ :=
    NameHistory.addTx_recordStep hdb.upTo_history hhistory hrecord hactive
  rw [← (hdb.addTx h).toWellFormed.getMapping_history] at hafter
  obtain ⟨record', hrecord', rfl⟩ := Option.map_eq_some_iff.mp hafter
  exact ⟨record', hrecord', hstep.of_withoutOwnerIds⟩

end NameSystemDb

/-! ## Runs -/

/-- While a block is added to a database, one of its transactions is accepted. -/
structure Handles (crypto : OnsCrypto) (db : NameSystemDb) (block : OnsBlock)
    (before : NameSystemDb) (tx : OnsTx) (after : NameSystemDb) : Prop where
  fresh : db.lastProcessedHeight < block.height
  version : block.majorVersion ≥ Hf.hf15Ons
  reached : ∃ earlier later, block.txs = earlier ++ tx :: later ∧
    earlier.foldlM (NameSystemDb.addTx crypto block.majorVersion block.height) db = some before
  accepted : NameSystemDb.addTx crypto block.majorVersion block.height before tx = some after

/-- An update in a block is signed by one of the owners that are recorded just before it, where the
owners and the value were still those of a record. -/
def SignedChange (crypto : OnsCrypto) (db : NameSystemDb) (block : OnsBlock) (type : MappingType)
    (nameHash : Hash) (record : MappingRecord) : Prop :=
  ∃ before tx after current entry, Handles crypto db block before tx after ∧
    before.getActiveMapping type nameHash block.height = some current ∧
    current.contents = record.contents ∧ tx.entry = some entry ∧ entry.concerns type nameHash ∧
    entry.isUpdating = true ∧ entry.signedByOwner crypto current

namespace RecordStep

variable {crypto : OnsCrypto} {height : ℕ} {tx : OnsTx} {type : MappingType} {nameHash : Hash}
  {record after : MappingRecord}

section

variable (h : RecordStep crypto height tx type nameHash record after)

include h

/-- An active name stays active. -/
theorem active (hactive : record.active height = true) : after.active height = true := by
  unfold MappingRecord.active MappingRow.unexpired at hactive ⊢
  cases h with
  | untouched _ heq =>
    have hexpiration := congrArg (fun r : MappingRecord => r.row.expirationHeight) heq
    change after.row.expirationHeight = record.row.expirationHeight at hexpiration
    rw [hexpiration]
    exact hactive
  | updated _ _ _ _ _ hexpiration =>
    rw [hexpiration]
    exact hactive
  | renewed _ _ _ _ heq =>
    obtain ⟨expiration, later, hbefore, hafter, hlt⟩ := heq.expiration
    rw [hbefore] at hactive
    rw [hafter]
    simp only [Option.all_some, decide_eq_true_eq] at hactive ⊢
    omega

/-- A transaction about an active name does not buy it. -/
theorem isBuying_eq_false (hentry : tx.entry = some entry) (habout : entry.concerns type nameHash) :
    entry.isBuying = false := by
  cases h with
  | untouched hother => exact absurd habout (hother entry hentry)
  | updated _ hentry' _ hupdating =>
    obtain rfl := Option.some.inj (hentry.symm.trans hentry')
    exact OnsExtra.isBuying_of_isUpdating hupdating
  | renewed _ hentry' _ hrenewing =>
    obtain rfl := Option.some.inj (hentry.symm.trans hentry')
    exact (OnsExtra.not_updating_of_isRenewing hrenewing).2

/-- Other owners or another value come from a signed update. -/
theorem signed_of_contents_ne (hne : after.contents ≠ record.contents) :
    ∃ entry, tx.entry = some entry ∧ entry.concerns type nameHash ∧ entry.isUpdating = true ∧
      entry.signedByOwner crypto record := by
  cases h with
  | untouched _ heq => exact absurd (congrArg MappingRecord.contents heq) hne
  | updated entry hentry habout hupdating hsigned =>
    exact ⟨entry, hentry, habout, hupdating, hsigned⟩
  | renewed _ _ _ _ heq => exact absurd heq.contents hne

/-- What a renewal of the name does. -/
theorem renewed_of_isRenewing (hentry : tx.entry = some entry)
    (habout : entry.concerns type nameHash) (hrenewing : entry.isRenewing = true) :
    Renewed tx.hash height record after := by
  cases h with
  | untouched hother => exact absurd habout (hother entry hentry)
  | updated _ hentry' _ hupdating =>
    obtain rfl := Option.some.inj (hentry.symm.trans hentry')
    rw [(OnsExtra.not_updating_of_isRenewing hrenewing).1] at hupdating
    cases hupdating
  | renewed _ _ _ _ heq => exact heq

end

end RecordStep

section Block

variable {crypto : OnsCrypto} {db before final : NameSystemDb} {block : OnsBlock}
  {type : MappingType} {nameHash : Hash} {record current : MappingRecord}

/-- The database just before a transaction of a block is sound. -/
theorem Handles.sound {after : NameSystemDb} {tx : OnsTx}
    (h : Handles crypto db block before tx after) (hdb : db.Sound db.lastProcessedHeight) :
    before.Sound block.height := by
  obtain ⟨earlier, later, -, hbefore⟩ := h.reached
  exact (hdb.mono h.fresh.le).foldlM_addTx hbefore

/-- Through the rest of a block the owners and the value of an active name stay, up to the first
update that is signed. -/
theorem contents_of_rest (hfresh : db.lastProcessedHeight < block.height)
    (hversion : block.majorVersion ≥ Hf.hf15Ons) {earlier later : List OnsTx}
    (hsplit : block.txs = earlier ++ later)
    (hbefore : earlier.foldlM (NameSystemDb.addTx crypto block.majorVersion block.height) db =
      some before)
    (hsound : before.Sound block.height)
    (hcurrent : before.getActiveMapping type nameHash block.height = some current)
    (hcontents : current.contents = record.contents ∨
      SignedChange crypto db block type nameHash record)
    (hrest : later.foldlM (NameSystemDb.addTx crypto block.majorVersion block.height) before =
      some final) :
    ∃ record', final.getMapping type nameHash = some record' ∧
      (record'.contents = record.contents ∨ SignedChange crypto db block type nameHash record) := by
  induction later generalizing before earlier current with
  | nil =>
    cases hrest
    exact ⟨current, (Option.filter_eq_some_iff.mp hcurrent).1, hcontents⟩
  | cons tx later ih =>
    obtain ⟨next, hnext, hrest⟩ := Option.bind_eq_some_iff.mp hrest
    obtain ⟨record', hrecord', hstep⟩ := hsound.addTx_recordStep hnext hcurrent
    have hactive := hstep.active (Option.filter_eq_some_iff.mp hcurrent).2
    have hreached : (earlier ++ [tx]).foldlM
        (NameSystemDb.addTx crypto block.majorVersion block.height) db = some next := by
      rw [foldlM_append, hbefore]
      exact (Option.bind_some _ _).trans ((foldlM_cons ..).trans (by rw [hnext]; rfl))
    apply ih (by rw [hsplit]; simp) hreached (hsound.addTx hnext)
      (Option.filter_eq_some_iff.mpr ⟨hrecord', hactive⟩) _ hrest
    rcases hcontents with hcontents | hsigned
    · by_cases hsame : record'.contents = current.contents
      · exact .inl (hsame.trans hcontents)
      · obtain ⟨entry, hentry, habout, hupdating, hsigned⟩ := hstep.signed_of_contents_ne hsame
        exact .inr ⟨before, tx, next, current, entry,
          ⟨hfresh, hversion, ⟨earlier, later, hsplit, hbefore⟩, hnext⟩, hcurrent, hcontents,
          hentry, habout, hupdating, hsigned⟩
    · exact .inr hsigned

/-- Through a block the owners and the value of an active name stay, unless an update is
signed. -/
theorem contents_of_addBlock (hdb : db.Sound db.lastProcessedHeight)
    (hcurrent : db.getActiveMapping type nameHash block.height = some record) :
    ∃ record', (db.addBlock crypto block).2.getMapping type nameHash = some record' ∧
      (record'.contents = record.contents ∨ SignedChange crypto db block type nameHash record) := by
  have hmapping := (Option.filter_eq_some_iff.mp hcurrent).1
  rcases NameSystemDb.addBlock_cases block with heq | ⟨hfresh, processed, hprocessed, heq⟩
  · rw [heq]
    exact ⟨record, hmapping, .inl rfl⟩
  · rw [heq]
    change ∃ record', processed.getMapping type nameHash = some record' ∧ _
    unfold NameSystemDb.addTxs at hprocessed
    split at hprocessed
    · rename_i hversion
      exact contents_of_rest hfresh hversion (nil_append _).symm rfl (hdb.mono hfresh.le)
        hcurrent (.inl rfl) hprocessed
    · cases hprocessed
      exact ⟨record, hmapping, .inl rfl⟩

end Block

/-- In every run of the database, while a name is active: a transaction that is accepted does not
buy the name, changes its owners or value only as an update signed by one of the owners recorded
before it, and as a renewal only moves the expiry to a later height; and through a whole block the
owners and the value stay unless one of its transactions is such an update. -/
theorem active_name_protected (crypto : OnsCrypto) (nettype : NetworkType) (steps : List OnsStep)
    (block : OnsBlock) (type : MappingType) (nameHash : Hash) :
    let db := OnsStep.runAll crypto { nettype } steps
    (∀ before tx after record, Handles crypto db block before tx after →
      before.getActiveMapping type nameHash block.height = some record →
        (∀ entry, tx.entry = some entry → entry.concerns type nameHash → entry.isBuying = false) ∧
        ∃ record', after.getMapping type nameHash = some record' ∧
          (record'.contents ≠ record.contents → ∃ entry, tx.entry = some entry ∧
            entry.concerns type nameHash ∧ entry.isUpdating = true ∧
            entry.signedByOwner crypto record) ∧
          ∀ entry, tx.entry = some entry → entry.concerns type nameHash →
            entry.isRenewing = true → Renewed tx.hash block.height record record') ∧
      ∀ record, db.getActiveMapping type nameHash block.height = some record →
        ∃ record', (db.addBlock crypto block).2.getMapping type nameHash = some record' ∧
          (record'.contents = record.contents ∨
            SignedChange crypto db block type nameHash record) := by
  intro db
  have hdb : db.Sound db.lastProcessedHeight := .runAll NameSystemDb.sound_empty steps
  constructor
  · intro before tx after record hhandles hrecord
    obtain ⟨record', hrecord', hstep⟩ :=
      (hhandles.sound hdb).addTx_recordStep hhandles.accepted hrecord
    exact ⟨fun entry hentry habout => hstep.isBuying_eq_false hentry habout, record', hrecord',
      hstep.signed_of_contents_ne,
      fun entry hentry habout hrenewing => hstep.renewed_of_isRenewing hentry habout hrenewing⟩
  · intro record hrecord
    exact contents_of_addBlock hdb hrecord

section Sample

/-- A transaction that hands the name to another owner. -/
def transferTx : OnsTx where
  hash := 12
  extra := some
    { type := .lokinet
      nameHash := 5
      prevTxid := 11
      fields := { owner := true, signature := true }
      owner := .ed25519 8
      signature := { type := .ed25519, data := 1 } }

/-- The block with the transfer. -/
def transferBlock : OnsBlock where
  majorVersion := .hf16Pulse
  height := 20
  hash := 101
  txs := [transferTx]

/-- The database before the transfer. -/
def registered : NameSystemDb :=
  OnsStep.runAll .acceptAll { nettype := .mainnet } [.addBlock purchaseBlock]

/-- The database after the transfer. -/
def transferred : NameSystemDb :=
  (NameSystemDb.addTx .acceptAll .hf16Pulse 20 registered transferTx).getD registered

/-- A transfer of an active name is accepted, and it is signed by the owner before. -/
theorem active_name_protected_transfer :
    ∃ record record', Handles .acceptAll registered transferBlock registered transferTx transferred ∧
      registered.getActiveMapping .lokinet 5 20 = some record ∧
      transferred.getMapping .lokinet 5 = some record' ∧ record'.contents ≠ record.contents ∧
      ∃ entry, transferTx.entry = some entry ∧ entry.signedByOwner .acceptAll record := by
  have hhandles : Handles .acceptAll registered transferBlock registered transferTx transferred :=
    ⟨by decide +kernel, by decide, ⟨[], [], rfl, rfl⟩, by decide +kernel⟩
  have hsome : (registered.getActiveMapping .lokinet 5 20).isSome := by decide +kernel
  have hne : (transferred.getMapping .lokinet 5).map MappingRecord.contents ≠
      (registered.getActiveMapping .lokinet 5 20).map MappingRecord.contents := by decide +kernel
  obtain ⟨record, hrecord⟩ := Option.isSome_iff_exists.mp hsome
  obtain ⟨-, record', hrecord', hsigned, -⟩ :=
    (active_name_protected .acceptAll .mainnet [.addBlock purchaseBlock] transferBlock .lokinet
      5).1 registered transferTx transferred record hhandles hrecord
  have hcontents : record'.contents ≠ record.contents := by
    rw [hrecord, hrecord'] at hne
    exact fun heq => hne (congrArg some heq)
  obtain ⟨entry, hentry, -, -, howner⟩ := hsigned hcontents
  exact ⟨record, record', hhandles, hrecord, hrecord', hcontents, entry, hentry, howner⟩

end Sample

end Xeqm.Ons
