import Mathlib.Data.Finset.Basic
import Xeqm.Crypto.Types
import Xeqm.Lib.OrdSet
import Xeqm.Lib.Runs

/-!
# The queue of blocks to download

The class `block_queue`: spans of blocks that peers have been asked for or have sent, and
two sets of hashes that are kept beside them. Spans of different peers may list the same
hash, and a span takes its hashes out of the sets when it goes.
-/

namespace Xeqm.Protocol

open Lib List
open OrdSet (eq_of_key_eq forall_key_eq_iff not_mem_empty)

/-- `connection_id_t`. -/
abbrev ConnectionId := Blob 16

/-- `block_queue::span`, over the type of a complete block. -/
structure Span (β : Type) where
  startBlockHeight : ℕ
  hashes : List Hash := []
  blocks : List β := []
  connectionId : ConnectionId
  nblocks : ℕ

/-- `block_queue`. -/
structure BlockQueue (β : Type) where
  blocks : OrdSet (Span.startBlockHeight (β := β)) := OrdSet.empty
  requestedHashes : Finset Hash := ∅
  haveBlocks : Finset Hash := ∅

namespace BlockQueue

variable {β : Type}

variable (queue : BlockQueue β)

/-- `requested`. -/
def requested (hash : Hash) : Bool := hash ∈ queue.requestedHashes

/-- `have`. -/
def haveBlock (hash : Hash) : Bool := hash ∈ queue.haveBlocks

/-- `erase_block`. -/
def eraseBlock (span : Span β) : BlockQueue β where
  blocks := queue.blocks.erase span.startBlockHeight
  requestedHashes := queue.requestedHashes \ span.hashes.toFinset
  haveBlocks := queue.haveBlocks \ span.hashes.toFinset

/-- The loops that erase every span with some property. -/
def eraseWhere (p : Span β → Bool) : BlockQueue β :=
  (queue.blocks.toList.filter p).foldl eraseBlock queue

/-- `flush_spans`. -/
def flushSpans (connectionId : ConnectionId) (all : Bool) : BlockQueue β :=
  queue.eraseWhere (fun span => span.connectionId = connectionId && (all || span.blocks.isEmpty))

/-- `flush_stale_spans`. -/
def flushStaleSpans (liveConnections : List ConnectionId) : BlockQueue β :=
  queue.eraseWhere (fun span => span.blocks.isEmpty && span.connectionId ∉ liveConnections)

/-- `remove_spans`. -/
def removeSpans (connectionId : ConnectionId) (startBlockHeight : ℕ) : BlockQueue β :=
  queue.eraseWhere (fun span =>
    span.connectionId = connectionId && span.startBlockHeight ≤ startBlockHeight)

/-- `remove_span`, with the hashes of the span if there was one. -/
def removeSpan (startBlockHeight : ℕ) : Option (List Hash) × BlockQueue β :=
  match queue.blocks.find? startBlockHeight with
  | some span => (some span.hashes, queue.eraseBlock span)
  | none => (none, queue)

/-- `set_span_hashes`. -/
def setSpanHashes (startHeight : ℕ) (connectionId : ConnectionId) (hashes : List Hash) :
    BlockQueue β :=
  match queue.blocks.toList.find? (fun span =>
    span.startBlockHeight = startHeight && span.connectionId = connectionId) with
  | some span =>
    let queue := queue.eraseBlock span
    { queue with
      requestedHashes := queue.requestedHashes ∪ hashes.toFinset
      blocks := queue.blocks.insert { span with hashes } }
  | none => queue

/-- `add_blocks` for blocks that have arrived. -/
def addBlocks (height : ℕ) (bcel : List β) (connectionId : ConnectionId) : BlockQueue β :=
  let (hashes, queue) := queue.removeSpan height
  let queue := { queue with
    blocks := queue.blocks.insert
      { startBlockHeight := height, blocks := bcel, connectionId, nblocks := bcel.length } }
  match hashes with
  | some hashes =>
    let queue := { queue with
      requestedHashes := queue.requestedHashes ∪ hashes.toFinset
      haveBlocks := queue.haveBlocks ∪ hashes.toFinset }
    queue.setSpanHashes height connectionId hashes
  | none => queue

/-- `add_blocks` for blocks that are asked for, with an exception for an empty span. -/
def addSpan (height nblocks : ℕ) (connectionId : ConnectionId) : Option (BlockQueue β) :=
  if nblocks > 0 then
    some { queue with
      blocks := queue.blocks.insert { startBlockHeight := height, connectionId, nblocks } }
  else none

/-- The part of `reserve_span` before the span is added: where it starts, and the hashes from
the first one on that was not requested. -/
def spanToReserve (firstBlockHeight lastBlockHeight maxBlocks : ℕ) (blockHashes : List Hash) :
    Option (ℕ × List Hash) :=
  if lastBlockHeight < firstBlockHeight ∨ maxBlocks = 0 then none
  else if blockHashes.length > lastBlockHeight then none
  else
    let skipped := blockHashes.takeWhile queue.requested
    let spanStartHeight := lastBlockHeight - blockHashes.length + 1 + skipped.length
    let hashes := (blockHashes.dropWhile queue.requested).take maxBlocks
    if hashes.length = 0 then none else some (spanStartHeight, hashes)

/-- `reserve_span`, with the start and the length of the span. -/
def reserveSpan (firstBlockHeight lastBlockHeight maxBlocks : ℕ) (connectionId : ConnectionId)
    (blockHashes : List Hash) : (ℕ × ℕ) × BlockQueue β :=
  match queue.spanToReserve firstBlockHeight lastBlockHeight maxBlocks blockHashes with
  | none => ((0, 0), queue)
  | some (spanStartHeight, hashes) =>
    match queue.addSpan spanStartHeight hashes.length connectionId with
    | none => ((0, 0), queue)
    | some queue =>
      ((spanStartHeight, hashes.length), queue.setSpanHashes spanStartHeight connectionId hashes)

/-! ## What the operations do -/

variable {queue : BlockQueue β} {span : Span β} {hash : Hash} {blockHashes hashes : List Hash}
  {first last max start : ℕ}

@[simp]
theorem requested_iff : queue.requested hash = true ↔ hash ∈ queue.requestedHashes :=
  decide_eq_true_iff

@[simp]
theorem haveBlock_iff : queue.haveBlock hash = true ↔ hash ∈ queue.haveBlocks := decide_eq_true_iff

/-- What is left when spans are erased. -/
theorem foldl_eraseBlock_spec (spans : List (Span β)) :
    (∀ hash, hash ∈ (spans.foldl eraseBlock queue).requestedHashes ↔
        hash ∈ queue.requestedHashes ∧ ∀ s ∈ spans, hash ∉ s.hashes) ∧
      (∀ hash, hash ∈ (spans.foldl eraseBlock queue).haveBlocks ↔
        hash ∈ queue.haveBlocks ∧ ∀ s ∈ spans, hash ∉ s.hashes) ∧
      ∀ span, span ∈ (spans.foldl eraseBlock queue).blocks ↔
        span ∈ queue.blocks ∧ ∀ s ∈ spans, span.startBlockHeight ≠ s.startBlockHeight := by
  induction spans generalizing queue with
  | nil => simp
  | cons first _ ih =>
    obtain ⟨hrequested, hhave, hblocks⟩ := @ih (queue.eraseBlock first)
    refine ⟨fun hash => ?_, fun hash => ?_, fun span => ?_⟩
    · rw [foldl_cons, hrequested]
      simp [eraseBlock, and_assoc]
    · rw [foldl_cons, hhave]
      simp [eraseBlock, and_assoc]
    · rw [foldl_cons, hblocks]
      simp [eraseBlock, OrdSet.mem_erase, and_assoc]

/-- A span is erased and another put in its place. -/
theorem mem_replaced {new other : Span β} (hspan : span ∈ queue.blocks)
    (hstart : new.startBlockHeight = span.startBlockHeight) :
    other ∈ (queue.blocks.erase span.startBlockHeight).insert new ↔
      (other ∈ queue.blocks ∧ other ≠ span) ∨ other = new := by
  rw [OrdSet.mem_insert, OrdSet.mem_erase]
  refine or_congr (and_congr_right fun hother => not_congr ⟨?_, fun heq => by rw [heq]⟩) ?_
  · exact eq_of_key_eq hother hspan
  · exact ⟨And.left, fun h => ⟨h, fun c hc => hstart ▸ (OrdSet.mem_erase.mp hc).2⟩⟩

/-- What is left when new hashes are set for a span. -/
theorem setSpanHashes_spec (hspan : span ∈ queue.blocks) (hashes : List Hash) :
    let after := queue.setSpanHashes span.startBlockHeight span.connectionId hashes
    (∀ hash, hash ∈ after.requestedHashes ↔
        (hash ∈ queue.requestedHashes ∧ hash ∉ span.hashes) ∨ hash ∈ hashes) ∧
      (∀ hash, hash ∈ after.haveBlocks ↔ hash ∈ queue.haveBlocks ∧ hash ∉ span.hashes) ∧
      ∀ other, other ∈ after.blocks ↔
        (other ∈ queue.blocks ∧ other ≠ span) ∨ other = { span with hashes } := by
  have hfind : queue.blocks.toList.find? (fun s =>
      s.startBlockHeight = span.startBlockHeight && s.connectionId = span.connectionId) =
      some span := by
    cases hfound : queue.blocks.toList.find? (fun s =>
        s.startBlockHeight = span.startBlockHeight && s.connectionId = span.connectionId) with
    | none => simpa using find?_eq_none.mp hfound span hspan
    | some s =>
      have hs := find?_some hfound
      simp only [Bool.and_eq_true, decide_eq_true_eq] at hs
      rw [eq_of_key_eq (mem_of_find?_eq_some hfound) hspan hs.1]
  intro after
  have hafter : after = queue.setSpanHashes span.startBlockHeight span.connectionId hashes := rfl
  unfold setSpanHashes at hafter
  rw [hfind] at hafter
  rw [hafter]
  refine ⟨fun hash => ?_, fun hash => ?_, fun other => ?_⟩
  · simp [eraseBlock]
  · simp [eraseBlock]
  · exact mem_replaced hspan rfl

/-- Without a span of this start and peer there is nothing to set. -/
theorem setSpanHashes_of_none {startHeight : ℕ} {connectionId : ConnectionId}
    (h : ∀ s ∈ queue.blocks, s.startBlockHeight = startHeight → s.connectionId ≠ connectionId)
    (hashes : List Hash) : queue.setSpanHashes startHeight connectionId hashes = queue := by
  have hfind : queue.blocks.toList.find? (fun s =>
      s.startBlockHeight = startHeight && s.connectionId = connectionId) = none := by
    rw [find?_eq_none]
    intro s hs
    simpa using h s hs
  unfold setSpanHashes
  rw [hfind]

/-- The slice of the given hashes that a span from this height on covers, when the last hash is
the one of the last height. -/
def sliceFrom (lastBlockHeight : ℕ) (blockHashes : List Hash) (start length : ℕ) : List Hash :=
  (blockHashes.drop (start - (lastBlockHeight - blockHashes.length + 1))).take length

theorem spanToReserve_spec
    (h : queue.spanToReserve first last max blockHashes = some (start, hashes)) :
    0 < hashes.length ∧ hashes = sliceFrom last blockHashes start hashes.length := by
  unfold spanToReserve at h
  split at h
  · cases h
  split at h
  · cases h
  dsimp only at h
  split at h
  · cases h
  cases h
  refine ⟨by omega, ?_⟩
  have hdrop : blockHashes.drop (blockHashes.takeWhile queue.requested).length =
      blockHashes.dropWhile queue.requested := by
    have happend := takeWhile_append_dropWhile (p := queue.requested) (l := blockHashes)
    calc _ = (blockHashes.takeWhile queue.requested ++ blockHashes.dropWhile queue.requested).drop
          (blockHashes.takeWhile queue.requested).length := by rw [happend]
      _ = blockHashes.dropWhile queue.requested := drop_left
  unfold sliceFrom
  rw [Nat.add_sub_cancel_left, hdrop, take_eq_take_iff]
  simp

/-- What a reservation does when there is a span to reserve. -/
theorem reserveSpan_of_some {peer : ConnectionId}
    (h : queue.spanToReserve first last max blockHashes = some (start, hashes)) :
    queue.reserveSpan first last max peer blockHashes = ((start, hashes.length),
      setSpanHashes { queue with
        blocks := queue.blocks.insert
          { startBlockHeight := start, connectionId := peer, nblocks := hashes.length } }
        start peer hashes) := by
  unfold reserveSpan addSpan
  rw [h]
  dsimp only
  rw [if_pos (spanToReserve_spec h).1]

/-! ## Reserved spans -/

/-- The queue holds the span that was reserved for a peer. -/
def Holds (queue : BlockQueue β) (start : ℕ) (peer : ConnectionId) (hashes : List Hash) : Prop :=
  ∃ span ∈ queue.blocks, span.startBlockHeight = start ∧ span.nblocks = hashes.length ∧
    span.connectionId = peer ∧ span.hashes = hashes

/-- Setting hashes for a peer gives a span of that length exactly if there is one at the start
that is the peer's and has the length. -/
theorem holds_setSpanHashes_iff (hspan : span ∈ queue.blocks) {peer : ConnectionId}
    {hashes : List Hash} :
    Holds (queue.setSpanHashes span.startBlockHeight peer hashes) span.startBlockHeight peer
      hashes ↔ span.connectionId = peer ∧ span.nblocks = hashes.length := by
  by_cases hpeer : span.connectionId = peer
  · subst hpeer
    obtain ⟨-, -, hblocks⟩ := setSpanHashes_spec hspan hashes
    constructor
    · rintro ⟨held, hheld, hstart, hlength, -, -⟩
      rcases (hblocks held).mp hheld with ⟨hold, hne⟩ | rfl
      · exact absurd (eq_of_key_eq hold hspan hstart) hne
      · exact ⟨rfl, hlength⟩
    · rintro ⟨-, hlength⟩
      exact ⟨_, (hblocks _).mpr (.inr rfl), rfl, hlength, rfl, rfl⟩
  · -- the hashes are looked up by start and peer, and no other span has this start
    have hnone : ∀ s ∈ queue.blocks, s.startBlockHeight = span.startBlockHeight →
        s.connectionId ≠ peer := by
      intro s hs hstart
      rw [eq_of_key_eq hs hspan hstart]
      exact hpeer
    rw [setSpanHashes_of_none hnone]
    refine iff_of_false ?_ fun h => hpeer h.1
    rintro ⟨held, hheld, hstart, -, hheldPeer, -⟩
    exact hnone held hheld hstart hheldPeer

/-- A reservation that returns a span leaves it in the queue exactly if no span with that start
was there, apart from one of the same peer and length. -/
theorem reserveSpan_holds_iff {first last max start length : ℕ} {peer : ConnectionId}
    {blockHashes : List Hash} {after : BlockQueue β}
    (hreserve : queue.reserveSpan first last max peer blockHashes = ((start, length), after))
    (hlength : 0 < length) :
    (∃ span ∈ after.blocks, span.startBlockHeight = start ∧ span.nblocks = length ∧
        span.connectionId = peer ∧ span.hashes = sliceFrom last blockHashes start length) ↔
      ∀ span ∈ queue.blocks, span.startBlockHeight = start →
        span.connectionId = peer ∧ span.nblocks = length := by
  cases hspan : queue.spanToReserve first last max blockHashes with
  | none =>
    unfold reserveSpan at hreserve
    rw [hspan] at hreserve
    cases hreserve
    exact absurd hlength (lt_irrefl 0)
  | some reserved =>
    obtain ⟨start', hashes⟩ := reserved
    rw [reserveSpan_of_some hspan] at hreserve
    cases hreserve
    rw [← (spanToReserve_spec hspan).2]
    change Holds _ start peer hashes ↔ _
    by_cases hexists : ∃ span ∈ queue.blocks, span.startBlockHeight = start
    · obtain ⟨span, hold, rfl⟩ := hexists
      have hsame : queue.blocks.insert
          { startBlockHeight := span.startBlockHeight, connectionId := peer, nblocks := hashes.length }
          = queue.blocks := OrdSet.insert_eq_self hold rfl
      rw [hsame, holds_setSpanHashes_iff hold, forall_key_eq_iff hold]
    · have hnew : ∀ span ∈ queue.blocks, span.startBlockHeight ≠ start :=
        fun span hspan hstart => hexists ⟨span, hspan, hstart⟩
      refine iff_of_true ?_ fun span hspan hstart => absurd hstart (hnew span hspan)
      let new : Span β :=
        { startBlockHeight := start, connectionId := peer, nblocks := hashes.length }
      have hinserted : new ∈ queue.blocks.insert new := OrdSet.mem_insert.mpr (.inr ⟨rfl, hnew⟩)
      exact (@holds_setSpanHashes_iff _ { queue with blocks := queue.blocks.insert new } _
        hinserted peer hashes).mpr ⟨rfl, rfl⟩

/-- Peers 1 and 2 have spans of two blocks at heights 1 and 5. A third peer is given the two blocks
between them, and they are held for it. -/
theorem reserveSpan_between_holds :
    let queue := ((({} : BlockQueue Unit).reserveSpan 1 2 10 1 [1, 2]).2.reserveSpan 5 6 10 2
      [5, 6]).2
    ∃ span ∈ (queue.reserveSpan 1 4 10 3 [1, 2, 3, 4]).2.blocks,
      span.startBlockHeight = 3 ∧ span.nblocks = 2 ∧ span.connectionId = 3 ∧
        span.hashes = [3, 4] := by
  intro queue
  have hreturned : (queue.reserveSpan 1 4 10 3 [1, 2, 3, 4]).1 = (3, 2) := by
    decide +kernel
  have hfree : ∀ span ∈ queue.blocks.toList, span.startBlockHeight ≠ 3 := by decide +kernel
  exact (reserveSpan_holds_iff (Prod.ext hreturned rfl) (by decide)).mpr
    (fun span hspan hstart => absurd hstart (hfree span hspan))

/-- Peer 1 has been asked for hashes 1 and 2 at heights 1 and 2. Peer 2 announces hashes 3 and
4 for the same heights and the same span is returned to it, but the queue only holds the one of
peer 1. -/
theorem reserved_span_not_held :
    let queue := (({} : BlockQueue Unit).reserveSpan 1 2 10 1 [1, 2]).2
    let reserved := queue.reserveSpan 1 2 10 2 [3, 4]
    reserved.1 = (1, 2) ∧ reserved.2.blocks.toList.map
      (fun span => (span.startBlockHeight, span.connectionId, span.hashes)) = [(1, 1, [1, 2])] := by
  decide +kernel

/-! ## The two sets -/

/-- Some span lists the hash. -/
def Lists (queue : BlockQueue β) (hash : Hash) : Prop := ∃ span ∈ queue.blocks, hash ∈ span.hashes

/-- Some span whose blocks have arrived lists the hash. -/
def ListsFilled (queue : BlockQueue β) (hash : Hash) : Prop :=
  ∃ span ∈ queue.blocks, span.blocks ≠ [] ∧ hash ∈ span.hashes

/-- A hash is reported as requested if it is listed, and as held if it is listed by a filled
span. -/
structure Consistent (queue : BlockQueue β) : Prop where
  requested : ∀ hash, queue.requested hash = true ↔ queue.Lists hash
  haveBlock : ∀ hash, queue.haveBlock hash = true ↔ queue.ListsFilled hash

theorem consistent_empty : Consistent ({} : BlockQueue β) := by
  constructor
  · intro hash
    simp only [requested_iff, Finset.notMem_empty, false_iff]
    rintro ⟨span, hspan, -⟩
    exact not_mem_empty hspan
  · intro hash
    simp only [haveBlock_iff, Finset.notMem_empty, false_iff]
    rintro ⟨span, hspan, -⟩
    exact not_mem_empty hspan

/-- The spans that are erased share no hash with the ones that stay. -/
def Apart (queue : BlockQueue β) (spans : List (Span β)) : Prop :=
  ∀ erased ∈ spans, ∀ kept ∈ queue.blocks, kept ∉ spans → ∀ hash ∈ erased.hashes,
    hash ∉ kept.hashes

theorem consistent_foldl_eraseBlock_iff (hqueue : Consistent queue) {spans : List (Span β)}
    (hspans : ∀ s ∈ spans, s ∈ queue.blocks) :
    Consistent (spans.foldl eraseBlock queue) ↔ queue.Apart spans := by
  obtain ⟨hrequested, hhave, hkeys⟩ := @foldl_eraseBlock_spec _ queue spans
  have hblocks (span : Span β) : span ∈ (spans.foldl eraseBlock queue).blocks ↔
      span ∈ queue.blocks ∧ span ∉ spans := by
    rw [hkeys]
    refine and_congr_right fun hspan => ⟨fun hne hmem => hne span hmem rfl, fun hnot s hs heq => ?_⟩
    exact hnot (eq_of_key_eq hspan (hspans s hs) heq ▸ hs)
  constructor
  · intro hafter erased herased kept hkept hnot hash hhash hshared
    have hlisted := (hafter.requested hash).mpr ⟨kept, (hblocks kept).mpr ⟨hkept, hnot⟩, hshared⟩
    rw [requested_iff, hrequested] at hlisted
    exact hlisted.2 erased herased hhash
  · intro hapart
    have hkept (hash : Hash) (P : Span β → Prop) (hlists : ∀ span, P span → hash ∈ span.hashes) :
        ((∃ span ∈ queue.blocks, P span) ∧ ∀ s ∈ spans, hash ∉ s.hashes) ↔
          ∃ span ∈ (spans.foldl eraseBlock queue).blocks, P span := by
      constructor
      · rintro ⟨⟨span, hspan, h⟩, hnot⟩
        exact ⟨span, (hblocks span).mpr ⟨hspan, fun hmem => hnot span hmem (hlists span h)⟩, h⟩
      · rintro ⟨span, hspan, h⟩
        obtain ⟨hspan, hkept⟩ := (hblocks span).mp hspan
        exact ⟨⟨span, hspan, h⟩,
          fun s hs hmem => hapart s hs span hspan hkept hash hmem (hlists span h)⟩
    constructor
    · intro hash
      rw [requested_iff, hrequested, ← requested_iff, hqueue.requested]
      exact hkept hash _ fun _ h => h
    · intro hash
      rw [haveBlock_iff, hhave, ← haveBlock_iff, hqueue.haveBlock]
      exact hkept hash _ fun _ h => h.2

/-- New hashes may be set for a span: a hash that another span lists too is not lost, and a
filled span gets no hash that is not held. -/
def Replaceable (queue : BlockQueue β) (span : Span β) (hashes : List Hash) : Prop :=
  (∀ kept ∈ queue.blocks, kept ≠ span → ∀ hash ∈ span.hashes, hash ∈ kept.hashes →
    hash ∈ hashes ∧ kept.blocks = []) ∧
  (span.blocks ≠ [] → ∀ hash ∈ hashes,
    ∃ kept ∈ queue.blocks, kept ≠ span ∧ kept.blocks ≠ [] ∧ hash ∈ kept.hashes)

/-- A span but this one lists the hash. -/
def ListsElse (queue : BlockQueue β) (span : Span β) (hash : Hash) : Prop :=
  ∃ kept ∈ queue.blocks, kept ≠ span ∧ hash ∈ kept.hashes

/-- A filled span but this one lists the hash. -/
def HoldsElse (queue : BlockQueue β) (span : Span β) (hash : Hash) : Prop :=
  ∃ kept ∈ queue.blocks, kept ≠ span ∧ kept.blocks ≠ [] ∧ hash ∈ kept.hashes

/-- Where one span has taken the place of another, the sets are compared hash by hash. -/
theorem consistent_replaced_iff {after : BlockQueue β} {new : Span β}
    (hblocks : ∀ s, s ∈ after.blocks ↔ (s ∈ queue.blocks ∧ s ≠ span) ∨ s = new) :
    Consistent after ↔ ∀ hash,
      (hash ∈ after.requestedHashes ↔ queue.ListsElse span hash ∨ hash ∈ new.hashes) ∧
      (hash ∈ after.haveBlocks ↔ queue.HoldsElse span hash ∨
        new.blocks ≠ [] ∧ hash ∈ new.hashes) := by
  have hexists (P : Span β → Prop) : (∃ s ∈ after.blocks, P s) ↔
      (∃ s ∈ queue.blocks, s ≠ span ∧ P s) ∨ P new := by
    simp only [hblocks, or_and_right, and_assoc, exists_or, exists_eq_left]
  rw [forall_and]
  constructor
  · rintro ⟨hrequested, hhave⟩
    exact ⟨fun hash => requested_iff.symm.trans ((hrequested hash).trans (hexists _)),
      fun hash => haveBlock_iff.symm.trans ((hhave hash).trans (hexists _))⟩
  · rintro ⟨hrequested, hhave⟩
    exact ⟨fun hash => requested_iff.trans ((hrequested hash).trans (hexists _).symm),
      fun hash => haveBlock_iff.trans ((hhave hash).trans (hexists _).symm)⟩

/-- The sets of a queue, with one of its spans set apart. -/
theorem Consistent.apart (hqueue : Consistent queue) (hspan : span ∈ queue.blocks) (hash : Hash) :
    (hash ∈ queue.requestedHashes ↔ queue.ListsElse span hash ∨ hash ∈ span.hashes) ∧
      (hash ∈ queue.haveBlocks ↔ queue.HoldsElse span hash ∨
        span.blocks ≠ [] ∧ hash ∈ span.hashes) := by
  refine (consistent_replaced_iff fun s => ?_).mp hqueue hash
  by_cases hs : s = span
  · simp [hs, hspan]
  · simp [hs]

theorem replaceable_iff : queue.Replaceable span hashes ↔ ∀ hash,
    (hash ∈ span.hashes → (queue.ListsElse span hash → hash ∈ hashes) ∧
      ¬ queue.HoldsElse span hash) ∧
    (span.blocks ≠ [] → hash ∈ hashes → queue.HoldsElse span hash) := by
  constructor
  · rintro ⟨hshared, hfilled⟩ hash
    refine ⟨fun hin => ⟨?_, ?_⟩, fun hne => hfilled hne hash⟩
    · rintro ⟨kept, hkept, hne, hmem⟩
      exact (hshared kept hkept hne hash hin hmem).1
    · rintro ⟨kept, hkept, hne, hkeptFilled, hmem⟩
      exact hkeptFilled (hshared kept hkept hne hash hin hmem).2
  · intro h
    refine ⟨fun kept hkept hne hash hin hmem => ?_, fun hne hash => (h hash).2 hne⟩
    obtain ⟨hlisted, hheld⟩ := (h hash).1 hin
    refine ⟨hlisted ⟨kept, hkept, hne, hmem⟩, ?_⟩
    by_contra hkeptFilled
    exact hheld ⟨kept, hkept, hne, hkeptFilled, hmem⟩

theorem consistent_setSpanHashes_iff (hqueue : Consistent queue) (hspan : span ∈ queue.blocks)
    (hashes : List Hash) :
    Consistent (queue.setSpanHashes span.startBlockHeight span.connectionId hashes) ↔
      queue.Replaceable span hashes := by
  obtain ⟨hrequested, hhave, hblocks⟩ := setSpanHashes_spec hspan hashes
  rw [consistent_replaced_iff hblocks, replaceable_iff]
  refine forall_congr' fun hash => ?_
  obtain ⟨hlisted, hheld⟩ := hqueue.apart hspan hash
  rw [hrequested, hhave, hlisted, hheld]
  by_cases hin : hash ∈ span.hashes <;> simp [hin]
  tauto

/-- A span without hashes does not matter. -/
theorem Consistent.insert (hqueue : Consistent queue) {new : Span β} (hnew : new.hashes = []) :
    Consistent { queue with blocks := queue.blocks.insert new } := by
  have hmem : ∀ span, ∀ hash ∈ span.hashes, span ∈ queue.blocks.insert new ↔
      span ∈ queue.blocks := by
    intro span hash hhash
    rw [OrdSet.mem_insert]
    refine ⟨fun h => h.resolve_right ?_, .inl⟩
    rintro ⟨rfl, -⟩
    rw [hnew] at hhash
    cases hhash
  constructor
  · intro hash
    change queue.requested hash = true ↔ _
    rw [hqueue.requested]
    exact exists_congr fun span => and_congr_left fun h => (hmem span hash h).symm
  · intro hash
    change queue.haveBlock hash = true ↔ _
    rw [hqueue.haveBlock]
    exact exists_congr fun span => and_congr_left fun h => (hmem span hash h.2).symm

/-- The arrived blocks are some, or the hashes of their span are held by other spans. -/
def Arrives (queue : BlockQueue β) (span : Span β) (bcel : List β) : Prop :=
  bcel ≠ [] ∨ ∀ hash ∈ span.hashes,
    ∃ kept ∈ queue.blocks, kept ≠ span ∧ kept.blocks ≠ [] ∧ hash ∈ kept.hashes

/-- What is left when blocks arrive for a span. -/
theorem addBlocks_spec (hspan : span ∈ queue.blocks) (bcel : List β) (connectionId : ConnectionId) :
    let after := queue.addBlocks span.startBlockHeight bcel connectionId
    (∀ hash, hash ∈ after.requestedHashes ↔ hash ∈ queue.requestedHashes ∨ hash ∈ span.hashes) ∧
      (∀ hash, hash ∈ after.haveBlocks ↔ hash ∈ queue.haveBlocks ∨ hash ∈ span.hashes) ∧
      ∀ other, other ∈ after.blocks ↔ (other ∈ queue.blocks ∧ other ≠ span) ∨
        other = { startBlockHeight := span.startBlockHeight, blocks := bcel, connectionId,
                  nblocks := bcel.length, hashes := span.hashes } := by
  let new : Span β :=
    { startBlockHeight := span.startBlockHeight, blocks := bcel, connectionId,
      nblocks := bcel.length }
  let filled : BlockQueue β :=
    { blocks := (queue.blocks.erase span.startBlockHeight).insert new
      requestedHashes := queue.requestedHashes \ span.hashes.toFinset ∪ span.hashes.toFinset
      haveBlocks := queue.haveBlocks \ span.hashes.toFinset ∪ span.hashes.toFinset }
  have hrun : queue.addBlocks span.startBlockHeight bcel connectionId =
      filled.setSpanHashes span.startBlockHeight connectionId span.hashes := by
    unfold addBlocks removeSpan
    rw [OrdSet.find?_eq_some_iff.mpr ⟨hspan, rfl⟩]
    rfl
  have hfilled (other : Span β) : other ∈ filled.blocks ↔
      (other ∈ queue.blocks ∧ other ≠ span) ∨ other = new := mem_replaced hspan rfl
  obtain ⟨hrequested, hhave, hblocks⟩ :=
    setSpanHashes_spec ((hfilled new).mpr (.inr rfl)) span.hashes
  intro after
  have hafter : after = filled.setSpanHashes new.startBlockHeight new.connectionId span.hashes :=
    hrun
  rw [hafter]
  refine ⟨fun hash => ?_, fun hash => ?_, fun other => ?_⟩
  · rw [hrequested]
    by_cases hin : hash ∈ span.hashes <;> simp [filled, new, hin]
  · rw [hhave]
    by_cases hin : hash ∈ span.hashes <;> simp [filled, new, hin]
  · rw [hblocks, hfilled]
    refine or_congr_left ⟨fun h => h.1.resolve_right h.2, fun h => ⟨.inl h, fun heq => h.2 ?_⟩⟩
    exact eq_of_key_eq h.1 hspan (by rw [heq])

theorem consistent_addBlocks_iff (hqueue : Consistent queue) (hspan : span ∈ queue.blocks)
    (bcel : List β) (connectionId : ConnectionId) :
    Consistent (queue.addBlocks span.startBlockHeight bcel connectionId) ↔
      queue.Arrives span bcel := by
  obtain ⟨hrequested, hhave, hblocks⟩ := addBlocks_spec hspan bcel connectionId
  rw [consistent_replaced_iff hblocks, Arrives, ← forall_or_left]
  refine forall_congr' fun hash => ?_
  obtain ⟨hlisted, hheld⟩ := hqueue.apart hspan hash
  rw [hrequested, hhave, hlisted, hheld]
  change _ ↔ _ ∨ (_ → queue.HoldsElse span hash)
  by_cases hin : hash ∈ span.hashes <;> simp [hin]
  tauto

end BlockQueue

/-! ## Runs -/

/-- What is done to the queue. -/
inductive QueueStep (β : Type)
  | reserve (firstBlockHeight lastBlockHeight maxBlocks : ℕ) (connectionId : ConnectionId)
    (blockHashes : List Hash)
  | arrive (height : ℕ) (bcel : List β) (connectionId : ConnectionId)
  | ask (height nblocks : ℕ) (connectionId : ConnectionId)
  | setHashes (startHeight : ℕ) (connectionId : ConnectionId) (hashes : List Hash)
  | remove (startBlockHeight : ℕ)
  | removeAll (connectionId : ConnectionId) (startBlockHeight : ℕ)
  | flush (connectionId : ConnectionId) (all : Bool)
  | flushStale (liveConnections : List ConnectionId)

namespace QueueStep

open BlockQueue

variable {β : Type} {queue : BlockQueue β}

/-- The queue after a step. -/
def run (queue : BlockQueue β) : QueueStep β → BlockQueue β
  | .reserve first last max peer hashes => (queue.reserveSpan first last max peer hashes).2
  | .arrive height bcel peer => queue.addBlocks height bcel peer
  | .ask height nblocks peer => (queue.addSpan height nblocks peer).getD queue
  | .setHashes start peer hashes => queue.setSpanHashes start peer hashes
  | .remove start => (queue.removeSpan start).2
  | .removeAll peer start => queue.removeSpans peer start
  | .flush peer all => queue.flushSpans peer all
  | .flushStale live => queue.flushStaleSpans live

/-- The queue after some steps. -/
def runAll (queue : BlockQueue β) (steps : List (QueueStep β)) : BlockQueue β :=
  steps.foldl run queue

/-- New hashes may be set for the span of a peer that starts at a height, if there is one. -/
def MaySet (queue : BlockQueue β) (start : ℕ) (peer : ConnectionId) (hashes : List Hash) : Prop :=
  ∀ span ∈ queue.blocks, span.startBlockHeight = start → span.connectionId = peer →
    queue.Replaceable span hashes

/-- The spans with some property may go. -/
def MayErase (queue : BlockQueue β) (p : Span β → Bool) : Prop :=
  queue.Apart (queue.blocks.toList.filter p)

/-- The step shares no hash between a span that goes and one that stays, gives a filled span no
new hashes, and brings some blocks for a span. -/
def Keeps (queue : BlockQueue β) : QueueStep β → Prop
  | .reserve first last max peer blockHashes =>
    ∀ start hashes, queue.spanToReserve first last max blockHashes = some (start, hashes) →
      MaySet queue start peer hashes
  | .arrive height bcel _ =>
    ∀ span ∈ queue.blocks, span.startBlockHeight = height → queue.Arrives span bcel
  | .ask _ _ _ => True
  | .setHashes start peer hashes => MaySet queue start peer hashes
  | .remove start => ∀ span ∈ queue.blocks, span.startBlockHeight = start → queue.Apart [span]
  | .removeAll peer start =>
    MayErase queue (fun span => span.connectionId = peer && span.startBlockHeight ≤ start)
  | .flush peer all =>
    MayErase queue (fun span => span.connectionId = peer && (all || span.blocks.isEmpty))
  | .flushStale live =>
    MayErase queue (fun span => span.blocks.isEmpty && span.connectionId ∉ live)

section

variable (hqueue : Consistent queue)

include hqueue

theorem consistent_setSpanHashes {start : ℕ} {peer : ConnectionId} {hashes : List Hash} :
    Consistent (queue.setSpanHashes start peer hashes) ↔ MaySet queue start peer hashes := by
  by_cases hexists : ∃ span ∈ queue.blocks, span.startBlockHeight = start ∧ span.connectionId = peer
  · obtain ⟨span, hspan, rfl, rfl⟩ := hexists
    rw [consistent_setSpanHashes_iff hqueue hspan]
    exact ((forall_key_eq_iff hspan).trans (forall_prop_of_true rfl)).symm
  · have hnone : ∀ s ∈ queue.blocks, s.startBlockHeight = start → s.connectionId ≠ peer :=
      fun s hs hstart hpeer => hexists ⟨s, hs, hstart, hpeer⟩
    rw [setSpanHashes_of_none hnone]
    exact ⟨fun _ s hs hstart hpeer => absurd hpeer (hnone s hs hstart), fun _ => hqueue⟩

theorem consistent_eraseWhere (p : Span β → Bool) :
    Consistent (queue.eraseWhere p) ↔ MayErase queue p :=
  consistent_foldl_eraseBlock_iff hqueue fun _ hs => (mem_filter.mp hs).1

theorem consistent_reserve {first last max : ℕ} {peer : ConnectionId} {blockHashes : List Hash} :
    Consistent (queue.reserveSpan first last max peer blockHashes).2 ↔
      ∀ start hashes, queue.spanToReserve first last max blockHashes = some (start, hashes) →
        MaySet queue start peer hashes := by
  cases hspan : queue.spanToReserve first last max blockHashes with
  | none =>
    unfold reserveSpan
    rw [hspan]
    exact iff_of_true hqueue fun _ _ h => nomatch h
  | some reserved =>
    obtain ⟨start, hashes⟩ := reserved
    rw [reserveSpan_of_some hspan]
    have hkeeps : (∀ start' hashes', some (start, hashes) = some (start', hashes') →
        MaySet queue start' peer hashes') ↔ MaySet queue start peer hashes := by
      constructor
      · exact fun h => h start hashes rfl
      · rintro h _ _ ⟨⟩
        exact h
    rw [hkeeps]
    by_cases hexists : ∃ span ∈ queue.blocks, span.startBlockHeight = start
    · -- the span that is there stays, and is the one whose hashes are set
      obtain ⟨span, hspan, hstart⟩ := hexists
      rw [OrdSet.insert_eq_self hspan hstart]
      exact consistent_setSpanHashes hqueue
    · have hnew : ∀ span ∈ queue.blocks, span.startBlockHeight ≠ start :=
        fun span hspan hstart => hexists ⟨span, hspan, hstart⟩
      have hold : MaySet queue start peer hashes :=
        fun span hspan hstart => absurd hstart (hnew span hspan)
      refine iff_of_true ((consistent_setSpanHashes (hqueue.insert rfl)).mpr ?_) hold
      intro span hspan hstart _
      rcases OrdSet.mem_insert.mp hspan with hspan | ⟨rfl, -⟩
      · exact absurd hstart (hnew span hspan)
      constructor
      · intro kept _ _ hash hhash
        cases hhash
      · intro hfilled
        exact absurd rfl hfilled

/-- From a state in which the sets agree with the spans, exactly the steps that keep them lead
to another one. -/
theorem consistent_run_iff (step : QueueStep β) :
    Consistent (run queue step) ↔ Keeps queue step := by
  cases step with
  | reserve =>
    exact consistent_reserve hqueue
  | arrive height bcel peer =>
    change Consistent (queue.addBlocks height bcel peer) ↔
      ∀ span ∈ queue.blocks, span.startBlockHeight = height → queue.Arrives span bcel
    by_cases hexists : ∃ span ∈ queue.blocks, span.startBlockHeight = height
    · obtain ⟨span, hspan, rfl⟩ := hexists
      rw [consistent_addBlocks_iff hqueue hspan, forall_key_eq_iff hspan]
    · have hnone : queue.blocks.find? height = none :=
        OrdSet.find?_eq_none_iff.mpr fun span hspan hstart => hexists ⟨span, hspan, hstart⟩
      refine iff_of_true ?_ fun span hspan hstart => absurd ⟨span, hspan, hstart⟩ hexists
      unfold addBlocks removeSpan
      rw [hnone]
      exact hqueue.insert rfl
  | ask height nblocks peer =>
    refine iff_of_true ?_ trivial
    change Consistent ((queue.addSpan height nblocks peer).getD queue)
    unfold addSpan
    split
    · exact hqueue.insert rfl
    · exact hqueue
  | setHashes => exact consistent_setSpanHashes hqueue
  | remove start =>
    change Consistent (queue.removeSpan start).2 ↔
      ∀ span ∈ queue.blocks, span.startBlockHeight = start → queue.Apart [span]
    unfold removeSpan
    cases hfind : queue.blocks.find? start with
    | none =>
      refine iff_of_true hqueue fun span hspan hstart => ?_
      exact absurd hstart (OrdSet.find?_eq_none_iff.mp hfind span hspan)
    | some span =>
      obtain ⟨hspan, rfl⟩ := OrdSet.find?_eq_some_iff.mp hfind
      have herase := consistent_foldl_eraseBlock_iff hqueue
        (fun s hs => mem_singleton.mp hs ▸ hspan : ∀ s ∈ [span], s ∈ queue.blocks)
      rw [forall_key_eq_iff hspan]
      exact herase
  | removeAll | flush | flushStale => exact consistent_eraseWhere hqueue _

end

/-- Along every run of the queue, the two sets say what the spans list exactly if every step
keeps them. -/
theorem hash_sets_agree_iff (steps : List (QueueStep β)) :
    (∀ n, Consistent (runAll ({} : BlockQueue β) (steps.take n))) ↔
      AllAlong run Keeps ({} : BlockQueue β) steps := by
  have himp (queue : BlockQueue β) (h : Consistent queue) : Consistent queue := h
  exact forall_take_iff himp (fun _ step h => (consistent_run_iff h step).mpr)
    (fun _ step h => mt (consistent_run_iff h step).mp) consistent_empty steps

/-- Peer 1 is asked for hashes 1 and 2, and peer 2 for hashes 3 and 2. When peer 1 goes, hash 2
is no longer reported as requested, though the span of peer 2 lists it. -/
theorem listed_hash_not_requested :
    let queue := runAll ({} : BlockQueue Unit)
      [.reserve 1 2 10 1 [1, 2], .reserve 1 11 10 2 [3, 2], .flush 1 false]
    queue.requested 2 = false ∧
      queue.blocks.toList.map (fun span => (span.startBlockHeight, span.hashes)) = [(10, [3, 2])] := by
  decide +kernel

end QueueStep

end Xeqm.Protocol
