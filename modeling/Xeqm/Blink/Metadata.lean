import Mathlib.Data.List.Zip
import Xeqm.Blink.Verdicts

/-!
# Blink metadata

Nodes outside the quorums learn of an approved blink transaction from its metadata, which
`fill_serialization_data` writes and `parse_incoming_blinks` reads. The reader trusts none of it: a
blink is stored only with enough signatures that verify.
-/

namespace Xeqm.Blink

open Cryptonote ServiceNodes List

/-- `serializable_blink_metadata`. -/
structure BlinkMetadata where
  txHash : Hash
  height : UInt64
  quorum : List UInt8
  position : List UInt8
  signature : List Signature
  deriving DecidableEq

/-- The approvals in the slots of a blink, in their order. -/
def BlinkTx.approvals (btx : BlinkTx) : List PendingSignature :=
  Subquorum.all.flatMap (fun q =>
    ((List.finRange blinkSubquorumSize).filter
      (fun position => btx.status q position = .approved)).map
        (fun position => ⟨true, q, position, (btx.signatures q position).sig⟩))

/-- `fill_serialization_data`. -/
def BlinkTx.fillSerializationData (btx : BlinkTx) : BlinkMetadata where
  txHash := btx.txHash
  height := btx.height
  quorum := btx.approvals.map (fun x => x.quorum.index)
  position := btx.approvals.map (fun x => UInt8.ofNat x.position.val)
  signature := btx.approvals.map PendingSignature.signature

/-- What a node knows when it reads metadata. -/
structure BlinkNode where
  crypto : Crypto
  /-- `get_network_version`. -/
  version : Hf
  /-- `get_transactions_heights`, with zero for a transaction that is in no block. -/
  txHeight : Hash → UInt64
  immutableHeight : UInt64
  /-- `tx_memory_pool::m_blinks`. -/
  blinks : List BlinkTx
  /-- `service_node_list::get_quorum` for blink quorums. -/
  lookup : UInt64 → Option Validators

namespace BlinkNode

variable (node : BlinkNode)

/-- `tx_memory_pool::has_blink`. -/
def hasBlink (txHash : Hash) : Bool := node.blinks.any (fun btx => btx.txHash = txHash)

/-- The first two steps of `parse_incoming_blinks`: whether the transaction may still change and has
no blink signatures yet. -/
def wants (txHash : Hash) : Bool :=
  (node.txHeight txHash = 0 || node.txHeight txHash > node.immutableHeight) && !node.hasBlink txHash

/-- The checks on the shape of metadata. -/
def shapeValid (data : BlinkMetadata) : Bool :=
  data.signature.length = data.position.length &&
    data.signature.length = data.quorum.length &&
    data.signature.length ≥ blinkMinVotes * Subquorum.all.length &&
    data.signature.length ≤ blinkSubquorumSize * Subquorum.all.length &&
    quorumHeight data.height .base ≠ 0 &&
    data.position.all (fun position => position.toNat < blinkSubquorumSize) &&
    data.quorum.all (fun qi => qi.toNat < Subquorum.all.length)

/-- The signatures that metadata of a valid shape lists. -/
def listed (data : BlinkMetadata) : List PendingSignature :=
  (data.quorum.zip (data.position.zip data.signature)).filterMap (fun (qi, position, signature) =>
    (Subquorum.ofIndex qi).map (fun q =>
      ⟨true, q, Fin.ofNat blinkSubquorumSize position.toNat, signature⟩))

/-- Add a signature, unless it has no validator or does not verify. -/
def addListed (validators : Subquorum → Validators) (btx : BlinkTx) (x : PendingSignature) :
    BlinkTx :=
  match (validators x.quorum).keys[x.position.val]? with
  | none => btx
  | some key =>
    match btx.addSignature node.crypto x.quorum x.position x.approval x.signature key with
    | none => btx
    | some (_, btx) => btx

/-- The quorums for a blink. -/
def quorumsFor (height : UInt64) : Option (Subquorum → Validators) := do
  let base ← node.lookup (quorumHeight height .base)
  let future ← node.lookup (quorumHeight height .future)
  return fun
    | .base => base
    | .future => future

/-- One blink of `parse_incoming_blinks`, which stays without signatures if the metadata is invalid
or the quorums are not known. -/
def parseBlink (data : BlinkMetadata) : BlinkTx :=
  let blink : BlinkTx := { height := data.height, txHash := data.txHash }
  if !shapeValid data then blink
  else
    match node.quorumsFor data.height with
    | none => blink
    | some validators => (listed data).foldl (node.addListed validators) blink

/-- `parse_incoming_blinks`. -/
def parseIncomingBlinks (blinks : List BlinkMetadata) : List BlinkTx :=
  if node.version < blinkFeature then []
  else (blinks.filter (fun data => node.wants data.txHash)).map node.parseBlink

/-- `add_blinks`, with `add_existing_blink`. -/
def addBlinks (blinks : List BlinkTx) : BlinkNode :=
  blinks.foldl (fun node btx =>
    if btx.approved && !node.hasBlink btx.txHash then { node with blinks := btx :: node.blinks }
    else node) node

end BlinkNode

/-! ## What is read -/

section

variable {node : BlinkNode} {btx : BlinkTx} {data : BlinkMetadata}

/-- The signature was made by the validator of its slot. -/
def verifiesBy (crypto : Crypto) (height : UInt64) (txHash : Hash)
    (validators : Subquorum → Validators) (x : PendingSignature) : Bool :=
  match (validators x.quorum).keys[x.position.val]? with
  | none => false
  | some key =>
    crypto.checkSignature (verdictHash crypto height txHash x.approval) key x.signature

theorem addListed_eq (validators : Subquorum → Validators) (btx : BlinkTx) (x : PendingSignature) :
    node.addListed validators btx x =
      if verifiesBy node.crypto btx.height btx.txHash validators x then btx.addAll [x]
      else btx := by
  unfold BlinkNode.addListed BlinkTx.addSignature verifiesBy
  cases (validators x.quorum).keys[x.position.val]? with
  | none => rfl
  | some key =>
    by_cases hcheck : node.crypto.checkSignature
        (verdictHash node.crypto btx.height btx.txHash x.approval) key x.signature = true
    · simp only [if_pos hcheck]
      rfl
    · simp only [if_neg hcheck]

/-- Reading adds the signatures that verify. -/
theorem foldl_addListed (validators : Subquorum → Validators) (btx : BlinkTx)
    (signatures : List PendingSignature) :
    signatures.foldl (node.addListed validators) btx =
      btx.addAll (signatures.filter
        (verifiesBy node.crypto btx.height btx.txHash validators)) := by
  induction signatures generalizing btx with
  | nil => rfl
  | cons x _ ih =>
    rw [foldl_cons, ih, addListed_eq, filter_cons]
    split
    · rw [(btx.addAll_height [x]).1, (btx.addAll_height [x]).2]
      rfl
    · rfl

/-- A blink as it is read: nothing, or the listed signatures that verify. -/
theorem parseBlink_cases {node : BlinkNode} {data : BlinkMetadata} :
    (node.parseBlink data).signatures = (fun _ _ => {}) ∨
      ∃ validators, quorumHeight data.height .base ≠ 0 ∧
        (∀ q, node.lookup (quorumHeight data.height q) = some (validators q)) ∧
        node.parseBlink data =
          BlinkTx.addAll { height := data.height, txHash := data.txHash }
            ((BlinkNode.listed data).filter
              (verifiesBy node.crypto data.height data.txHash validators)) := by
  unfold BlinkNode.parseBlink
  split
  · exact .inl rfl
  · rename_i hshape
    cases hquorums : node.quorumsFor data.height with
    | none => exact .inl rfl
    | some validators =>
      refine .inr ⟨validators, ?_, ?_, foldl_addListed _ _ _⟩
      · simp only [Bool.not_eq_true', Bool.not_eq_false, BlinkNode.shapeValid, Bool.and_eq_true,
          decide_eq_true_eq] at hshape
        exact hshape.1.1.2
      · unfold BlinkNode.quorumsFor at hquorums
        simp only [bind, Option.bind_eq_some_iff, pure, Option.some.injEq] at hquorums
        obtain ⟨base, hbase, future, hfuture, rfl⟩ := hquorums
        intro q
        cases q
        · exact hbase
        · exact hfuture

theorem parseBlink_names (node : BlinkNode) (data : BlinkMetadata) :
    (node.parseBlink data).height = data.height ∧ (node.parseBlink data).txHash = data.txHash := by
  unfold BlinkNode.parseBlink
  split
  · exact ⟨rfl, rfl⟩
  · split
    · exact ⟨rfl, rfl⟩
    · rw [foldl_addListed]
      exact BlinkTx.addAll_height _ _

/-! ## Held blinks -/

/-- Every approval of a blink was signed by the validator of its slot in these quorums. -/
def SignedBy (crypto : Crypto) (validators : Subquorum → Validators) (btx : BlinkTx) : Prop :=
  ∀ q position, btx.status q position = .approved →
    verifiesBy crypto btx.height btx.txHash validators
      ⟨true, q, position, (btx.signatures q position).sig⟩ = true

/-- A blink that a node holds: as a quorum member that has taken part in its verdict, or from
metadata that it has read. -/
inductive Held (crypto : Crypto) (lookup : UInt64 → Option Validators) (btx : BlinkTx) : Prop
  | signed {member : Member} {events : List Event} (hcrypto : member.crypto = crypto)
      (hlookup : member.lookup = lookup) (hbtx : (member.run events).btx = some btx)
  | received {node : BlinkNode} {blinks : List BlinkMetadata} (hcrypto : node.crypto = crypto)
      (hlookup : node.lookup = lookup) (hbtx : btx ∈ node.parseIncomingBlinks blinks)

/-- What `get_blink_quorums` has made sure of. -/
theorem Member.lookup_eq (member : Member) (q : Subquorum) :
    quorumHeight member.height q ≠ 0 ∧
      member.lookup (quorumHeight member.height q) = some (member.quorums q).toValidators := by
  have hone {q : Subquorum} {quorum : BlinkQuorum}
      (h : getBlinkQuorum member.lookup member.height q = .ok quorum) :
      quorumHeight member.height q ≠ 0 ∧
        member.lookup (quorumHeight member.height q) = some quorum.toValidators := by
    unfold getBlinkQuorum at h
    dsimp only at h
    split at h
    · cases h
    rename_i hheight
    split at h
    · cases h
    rename_i validators hlookup
    split at h
    · cases h
      exact ⟨hheight, hlookup⟩
    · cases h
  have hquorums := member.quorums_eq
  unfold getBlinkQuorums at hquorums
  simp only [Lib.except_bind_eq_ok_iff] at hquorums
  obtain ⟨base, hbase, future, hfuture, hquorums⟩ := hquorums
  split at hquorums
  · cases hquorums
  rw [← Except.ok.inj hquorums]
  cases q
  · exact hone hbase
  · exact hone hfuture

variable {x : PendingSignature} {validators : Subquorum → Validators}

theorem PendingSignature.eta_approval (h : x.approval = true) :
    (⟨true, x.quorum, x.position, x.signature⟩ : PendingSignature) = x := by
  rw [← h]

theorem listed_approval (hx : x ∈ BlinkNode.listed data) :
    x.approval = true ∧ x.signature ∈ data.signature := by
  obtain ⟨⟨qi, position, signature⟩, hmem, hx⟩ := mem_filterMap.mp hx
  obtain ⟨q, _, rfl⟩ := Option.map_eq_some_iff.mp hx
  exact ⟨rfl, (of_mem_zip (of_mem_zip hmem).2).2⟩

/-- An approval that was read is a listed signature that verifies. -/
theorem parseBlink_slot (node : BlinkNode) (data : BlinkMetadata) {q : Subquorum}
    {position : Fin blinkSubquorumSize}
    (h : (node.parseBlink data).status q position = .approved) :
    ∃ validators, quorumHeight data.height .base ≠ 0 ∧
      (∀ q, node.lookup (quorumHeight data.height q) = some (validators q)) ∧
      ((node.parseBlink data).signatures q position).sig ∈ data.signature ∧
      verifiesBy node.crypto data.height data.txHash validators
        ⟨true, q, position, ((node.parseBlink data).signatures q position).sig⟩ = true := by
  unfold BlinkTx.status at h
  obtain hnone | ⟨validators, hheight, hlookup, hread⟩ := parseBlink_cases
  · rw [hnone] at h
    cases h
  · refine ⟨validators, hheight, hlookup, ?_⟩
    rw [hread] at h ⊢
    obtain hsame | ⟨x, hx, rfl, rfl, hslot⟩ := BlinkTx.signatures_addAll
      { height := data.height, txHash := data.txHash }
      ((BlinkNode.listed data).filter
        (verifiesBy node.crypto data.height data.txHash validators)) q position
    · rw [hsame] at h
      cases h
    · obtain ⟨hlisted, hverifies⟩ := mem_filter.mp hx
      obtain ⟨happroval, hsignature⟩ := listed_approval hlisted
      rw [hslot]
      refine ⟨hsignature, ?_⟩
      rw [PendingSignature.eta_approval happroval]
      exact hverifies

/-- A blink with an approval in it. -/
theorem exists_approved_slot (h : btx.approved = true) (q : Subquorum) :
    ∃ position, btx.status q position = .approved := by
  have hcard := BlinkTx.approved_iff.mp h q
  obtain ⟨position, hposition⟩ := Finset.card_pos.mp (lt_of_lt_of_le (by decide) hcard)
  exact ⟨position, BlinkTx.mem_slots.mp hposition⟩

/-- The approvals of a blink that a node holds as approved were signed by the validators of the
quorums of its height. -/
theorem Held.signedBy {crypto : Crypto} {lookup : UInt64 → Option Validators}
    (h : Held crypto lookup btx) (happroved : btx.approved = true) :
    quorumHeight btx.height .base ≠ 0 ∧ ∃ validators,
      (∀ q, lookup (quorumHeight btx.height q) = some (validators q)) ∧
        SignedBy crypto validators btx := by
  obtain @⟨member, events, rfl, rfl, hbtx⟩ | @⟨node, blinks, rfl, rfl, hbtx⟩ := h
  · have htracked : Tracked member (fun _ => True) (member.run events) :=
      tracked_run fun _ _ _ _ => trivial
    obtain ⟨hheight, htxHash⟩ := htracked.named btx hbtx
    rw [hheight]
    refine ⟨(member.lookup_eq .base).1, fun q => (member.quorums q).toValidators,
      fun q => (member.lookup_eq q).2, fun q position hslot => ?_⟩
    rw [hheight, htxHash]
    obtain ⟨x, _, rfl, rfl, hverifies, happroval, hsig⟩ := htracked.approved_slot hbtx hslot
    rw [hsig, PendingSignature.eta_approval happroval]
    exact hverifies
  · unfold BlinkNode.parseIncomingBlinks at hbtx
    split at hbtx
    · cases hbtx
    obtain ⟨data, _, rfl⟩ := mem_map.mp hbtx
    obtain ⟨hheight, htxHash⟩ := parseBlink_names node data
    obtain ⟨position, hslot⟩ := exists_approved_slot happroved .base
    obtain ⟨validators, hbase, hlookup, _⟩ := parseBlink_slot node data hslot
    rw [hheight]
    refine ⟨hbase, validators, hlookup, fun q position hslot => ?_⟩
    obtain ⟨validators', _, hlookup', _, hverifies⟩ := parseBlink_slot node data hslot
    have hsame : validators' = validators := by
      funext q
      exact Option.some.inj ((hlookup' q).symm.trans (hlookup q))
    rw [hheight, htxHash, ← hsame]
    exact hverifies

/-! ## What is written is read -/

theorem mem_approvals :
    x ∈ btx.approvals ↔ x.approval = true ∧ btx.status x.quorum x.position = .approved ∧
      x.signature = (btx.signatures x.quorum x.position).sig := by
  unfold BlinkTx.approvals
  simp only [mem_flatMap, mem_map, mem_filter, mem_finRange, true_and, decide_eq_true_eq]
  constructor
  · rintro ⟨q, _, position, hslot, rfl⟩
    exact ⟨rfl, hslot, rfl⟩
  · rintro ⟨happroval, hslot, hsignature⟩
    refine ⟨x.quorum, Subquorum.mem_all _, x.position, hslot, ?_⟩
    rw [← hsignature, ← happroval]

/-- Reading the lists gives back what was written. -/
theorem listed_fillSerializationData (btx : BlinkTx) :
    BlinkNode.listed btx.fillSerializationData = btx.approvals := by
  unfold BlinkNode.listed BlinkTx.fillSerializationData
  rw [zip_map', zip_map', filterMap_map]
  have hread : ∀ x ∈ btx.approvals, ((fun t : UInt8 × UInt8 × Signature =>
      (Subquorum.ofIndex t.1).map (fun q =>
        (⟨true, q, Fin.ofNat blinkSubquorumSize t.2.1.toNat, t.2.2⟩ : PendingSignature))) ∘
      fun x : PendingSignature => (x.quorum.index, UInt8.ofNat x.position.val, x.signature)) x =
      some x := by
    intro x hx
    have hsmall : x.position.val < 256 := lt_trans x.position.isLt (by decide)
    have hposition : Fin.ofNat blinkSubquorumSize (UInt8.ofNat x.position.val).toNat =
        x.position := by
      rw [UInt8.toNat_ofNat', Nat.mod_eq_of_lt hsmall]
      exact Fin.ext (Nat.mod_eq_of_lt x.position.isLt)
    rw [Function.comp_apply, Subquorum.ofIndex_index, Option.map_some, hposition,
      ← (mem_approvals.mp hx).1]
  rw [filterMap_congr hread, filterMap_some]

theorem length_approvals (btx : BlinkTx) :
    btx.approvals.length = btx.sigCount .base .approved + btx.sigCount .future .approved := by
  unfold BlinkTx.approvals BlinkTx.sigCount
  simp only [Subquorum.all, flatMap_cons, flatMap_nil, append_nil,
    length_append, length_map, countP_eq_length_filter]

/-- The metadata of an approved blink has a valid shape. -/
theorem shapeValid_fillSerializationData (happroved : btx.approved = true)
    (hheight : quorumHeight btx.height .base ≠ 0) :
    BlinkNode.shapeValid btx.fillSerializationData = true := by
  have hcount (q : Subquorum) : blinkMinVotes ≤ btx.sigCount q .approved ∧
      btx.sigCount q .approved ≤ blinkSubquorumSize := by
    constructor
    · rw [BlinkTx.sigCount_eq_card]
      exact BlinkTx.approved_iff.mp happroved q
    · exact countP_le_length.trans (by rw [length_finRange])
  have hbase := hcount .base
  have hfuture := hcount .future
  have hlength := length_approvals btx
  have htwo : Subquorum.all.length = 2 := rfl
  unfold BlinkNode.shapeValid BlinkTx.fillSerializationData
  simp only [length_map, Bool.and_eq_true, decide_eq_true_eq, all_eq_true,
    mem_map, forall_exists_index, and_imp, forall_apply_eq_imp_iff₂, htwo]
  refine ⟨⟨⟨⟨⟨⟨trivial, trivial⟩, by omega⟩, by omega⟩, hheight⟩, fun x _ => ?_⟩, fun x _ => ?_⟩
  · rw [UInt8.toNat_ofNat', Nat.mod_eq_of_lt (lt_trans x.position.isLt (by decide))]
    exact x.position.isLt
  · cases x.quorum <;> decide

/-- The quorums that a node finds. -/
theorem quorumsFor_eq {height : UInt64}
    (h : ∀ q, node.lookup (quorumHeight height q) = some (validators q)) :
    node.quorumsFor height = some validators := by
  unfold BlinkNode.quorumsFor
  rw [h .base, h .future]
  simp only [bind, Option.bind_some, pure, Option.some.injEq]
  funext q
  cases q <;> rfl

/-- A blink whose approvals verify is read with these approvals and nothing else. -/
theorem parseBlink_fillSerializationData
    (happroved : btx.approved = true) (hheight : quorumHeight btx.height .base ≠ 0)
    (hlookup : ∀ q, node.lookup (quorumHeight btx.height q) = some (validators q))
    (hsigned : SignedBy node.crypto validators btx) :
    node.parseBlink btx.fillSerializationData =
      BlinkTx.addAll { height := btx.height, txHash := btx.txHash } btx.approvals := by
  have hall : btx.approvals.filter (verifiesBy node.crypto btx.height btx.txHash validators) =
      btx.approvals := by
    refine filter_eq_self.mpr fun x hx => ?_
    obtain ⟨happroval, hslot, hsignature⟩ := mem_approvals.mp hx
    have hverifies := hsigned x.quorum x.position hslot
    rwa [← hsignature, PendingSignature.eta_approval happroval] at hverifies
  unfold BlinkNode.parseBlink
  rw [shapeValid_fillSerializationData happroved hheight]
  change (match node.quorumsFor btx.height with
    | none => _
    | some validators => _) = _
  rw [quorumsFor_eq hlookup]
  dsimp only
  rw [foldl_addListed, listed_fillSerializationData]
  exact congrArg _ hall

/-- The approvals of a blink are those that it is read with. -/
theorem addAll_approvals (btx : BlinkTx) (q : Subquorum) (position : Fin blinkSubquorumSize) :
    (BlinkTx.addAll { height := btx.height, txHash := btx.txHash } btx.approvals).signatures q
        position =
      if btx.status q position = .approved then ⟨.approved, (btx.signatures q position).sig⟩
      else {} := by
  split
  · rename_i hslot
    have hmem : ⟨true, q, position, (btx.signatures q position).sig⟩ ∈ btx.approvals :=
      mem_approvals.mpr ⟨rfl, hslot, rfl⟩
    have htaken := BlinkTx.status_addAll_ne
      ({ height := btx.height, txHash := btx.txHash } : BlinkTx) hmem
    obtain hsame | ⟨x, hx, rfl, rfl, hentry⟩ := BlinkTx.signatures_addAll
      { height := btx.height, txHash := btx.txHash } btx.approvals q position
    · unfold BlinkTx.status at htaken
      rw [hsame] at htaken
      exact absurd rfl htaken
    · obtain ⟨happroval, _, hsignature⟩ := mem_approvals.mp hx
      rw [hentry, happroval, hsignature]
      rfl
  · rename_i hslot
    obtain hsame | ⟨x, hx, rfl, rfl, _⟩ := BlinkTx.signatures_addAll
      { height := btx.height, txHash := btx.txHash } btx.approvals q position
    · exact hsame
    · exact absurd (mem_approvals.mp hx).2.1 hslot

/-! ## What is stored -/

/-- What is stored was there or is approved. -/
theorem mem_addBlinks (node : BlinkNode) (blinks : List BlinkTx)
    (h : btx ∈ (node.addBlinks blinks).blinks) :
    btx ∈ node.blinks ∨ btx ∈ blinks ∧ btx.approved = true := by
  induction blinks generalizing node with
  | nil => exact .inl h
  | cons new blinks ih =>
    unfold BlinkNode.addBlinks at h
    rw [foldl_cons] at h
    obtain hold | ⟨hmem, happroved⟩ := ih _ h
    · split at hold
      · rename_i hnew
        obtain rfl | hold := mem_cons.mp hold
        · exact .inr ⟨mem_cons_self, (Bool.and_eq_true_iff.mp hnew).1⟩
        · exact .inl hold
      · exact .inl hold
    · exact .inr ⟨mem_cons_of_mem _ hmem, happroved⟩

/-- The validators behind a blink that was read as approved. -/
theorem parseBlink_signers (node : BlinkNode) (data : BlinkMetadata)
    (happroved : (node.parseBlink data).approved = true) (q : Subquorum) :
    ∃ validators, node.lookup (quorumHeight data.height q) = some validators ∧
      ∃ signers : Finset PublicKey, blinkMinVotes ≤ signers.card ∧ ∀ key ∈ signers,
        key ∈ validators.keys ∧ ∃ signature ∈ data.signature,
          node.crypto.checkSignature (verdictHash node.crypto data.height data.txHash true) key
            signature = true := by
  obtain ⟨position, hslot⟩ := exists_approved_slot happroved q
  obtain ⟨validators, _, hlookup, _⟩ := parseBlink_slot node data hslot
  refine ⟨validators q, hlookup q, BlinkTx.exists_signers happroved q (fun position hslot => ?_)⟩
  obtain ⟨validators', _, hlookup', hlisted, hverifies⟩ := parseBlink_slot node data hslot
  rw [Option.some.inj ((hlookup q).symm.trans (hlookup' q))]
  unfold verifiesBy at hverifies
  cases hvalidator : (validators' q).keys[position.val]? with
  | none => rw [hvalidator] at hverifies; cases hverifies
  | some key =>
    rw [hvalidator] at hverifies
    exact ⟨key, rfl, _, hlisted, hverifies⟩

end

/-- The metadata of a blink that some node holds as approved is read as approved, with the same
approvals, by every node that wants it and has the same quorums. And whatever the metadata is, a
blink is stored only with seven validators of each subquorum behind it. -/
theorem blink_metadata_read :
    (∀ crypto lookup btx, Held crypto lookup btx → btx.approved = true →
      ∀ node : BlinkNode, node.crypto = crypto → blinkFeature ≤ node.version →
      (∀ q, node.lookup (quorumHeight btx.height q) = lookup (quorumHeight btx.height q)) →
      node.wants btx.txHash = true → ∀ blinks, btx.fillSerializationData ∈ blinks →
      ∃ btx' ∈ node.parseIncomingBlinks blinks, btx'.height = btx.height ∧
        btx'.txHash = btx.txHash ∧ btx'.approved = true ∧
        ∀ q position,
          (btx'.status q position = .approved ↔ btx.status q position = .approved) ∧
          (btx.status q position = .approved →
            btx'.signatures q position = btx.signatures q position)) ∧
    ∀ (node : BlinkNode) blinks, ∀ btx ∈ (node.addBlinks (node.parseIncomingBlinks blinks)).blinks,
      btx ∈ node.blinks ∨ ∃ data ∈ blinks, btx.height = data.height ∧ btx.txHash = data.txHash ∧
        ∀ q, ∃ validators, node.lookup (quorumHeight btx.height q) = some validators ∧
          ∃ signers : Finset PublicKey, blinkMinVotes ≤ signers.card ∧ ∀ key ∈ signers,
            key ∈ validators.keys ∧ ∃ signature ∈ data.signature,
              node.crypto.checkSignature (verdictHash node.crypto btx.height btx.txHash true) key
                signature = true := by
  constructor
  · rintro crypto lookup btx hheld happroved node rfl hversion hsame hwants blinks hmem
    obtain ⟨hheight, validators, hlookup, hsigned⟩ := hheld.signedBy happroved
    have hread : node.parseBlink btx.fillSerializationData = _ :=
      parseBlink_fillSerializationData happroved hheight (fun q => (hsame q).trans (hlookup q))
        hsigned
    have hslot (q : Subquorum) (position : Fin blinkSubquorumSize) :
        ((node.parseBlink btx.fillSerializationData).status q position = .approved ↔
          btx.status q position = .approved) ∧
        (btx.status q position = .approved →
          (node.parseBlink btx.fillSerializationData).signatures q position =
            btx.signatures q position) := by
      unfold BlinkTx.status
      rw [hread, addAll_approvals]
      by_cases hstatus : btx.status q position = .approved
      · rw [if_pos hstatus]
        refine ⟨iff_of_true rfl hstatus, fun _ => ?_⟩
        rw [← hstatus]
        rfl
      · rw [if_neg hstatus]
        exact ⟨iff_of_false (by decide) hstatus, fun h => absurd h hstatus⟩
    obtain ⟨hheight', htxHash'⟩ := parseBlink_names node btx.fillSerializationData
    refine ⟨_, ?_, hheight', htxHash', ?_, hslot⟩
    · unfold BlinkNode.parseIncomingBlinks
      rw [if_neg (UInt8.not_lt.mpr hversion)]
      exact mem_map.mpr ⟨_, mem_filter.mpr ⟨hmem, hwants⟩, rfl⟩
    · rw [BlinkTx.approved_iff] at happroved ⊢
      intro q
      refine (happroved q).trans (Finset.card_le_card (fun position hposition => ?_))
      rw [BlinkTx.mem_slots] at hposition ⊢
      exact (hslot q position).1.mpr hposition
  · intro node blinks btx hbtx
    obtain hold | ⟨hmem, happroved⟩ := mem_addBlinks node _ hbtx
    · exact .inl hold
    · unfold BlinkNode.parseIncomingBlinks at hmem
      split at hmem
      · cases hmem
      obtain ⟨data, hdata, rfl⟩ := mem_map.mp hmem
      obtain ⟨hheight, htxHash⟩ := parseBlink_names node data
      refine .inr ⟨data, (mem_filter.mp hdata).1, hheight, htxHash, ?_⟩
      rw [hheight, htxHash]
      exact parseBlink_signers node data happroved

/-- A node that knows the quorums and nothing of the transaction. -/
def sampleNode : BlinkNode where
  crypto := acceptingCrypto
  version := Hf.hf19RewardBatching
  txHeight := fun _ => 0
  immutableHeight := 0
  blinks := []
  lookup := sampleMember.lookup

theorem blink_metadata_read_sample : ∃ btx, (sampleMember.run submissionFirst).btx = some btx ∧
    ∃ btx' ∈ sampleNode.parseIncomingBlinks [btx.fillSerializationData], btx'.approved = true := by
  have happroved : (sampleMember.run submissionFirst).btx.map BlinkTx.approved = some true := by
    decide +kernel
  obtain ⟨btx, hbtx, happroved⟩ := Option.map_eq_some_iff.mp happroved
  have hheld : Held acceptingCrypto sampleMember.lookup btx := .signed rfl rfl hbtx
  obtain ⟨btx', hmem, _, _, hread, _⟩ := blink_metadata_read.1 _ _ btx hheld happroved sampleNode
    rfl (by decide) (fun _ => rfl) rfl _ mem_cons_self
  exact ⟨btx, hbtx, btx', hmem, hread⟩

end Xeqm.Blink
