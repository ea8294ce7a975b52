import Xeqm.Pulse.Runs

/-!
# What the log records

Everything that a node recorded was brought to it or sent by it, and the data of its
stages and the blocks it signs come from what it recorded.
-/

namespace Xeqm.Pulse

open Cryptonote ServiceNodes Lib List

/-- The messages that were recorded have a property. -/
def AllRecorded (Q : CurrBlock → UInt8 → Message → Prop) (node : Node) : Prop :=
  ∀ curr number msg, .recorded curr number msg ∈ node.log → Q curr number msg

/-- What a step may add to the records has a property: a message with a good signature,
or the own message of the stage. -/
def Step.Brings (Q : CurrBlock → UInt8 → Message → Prop) (setup : Setup) (node : Node) :
    Step → Prop
  | .deliver msg => .waitForRound ≤ node.state →
    setup.lib.msgSignatureCheck msg node.currBlock.topHash node.round.quorum = true →
      Q node.currBlock node.round.number msg
  | .pass around => ∀ payload, node.Sends payload →
    Q node.currBlock node.round.number (node.ownMessage setup around payload)

/-- A block goes back to a template recorded for a height. -/
def FromTemplate (lib : Library) (log : List Event) (curr : CurrBlock) (block : PulseBlock) : Prop :=
  ∃ number msg blob txs parsed, .recorded curr number msg ∈ log ∧
    msg.payload = .blockTemplate blob txs ∧ lib.parseBlock blob = some parsed ∧
    block.prevId = parsed.prevId ∧ block.height = parsed.height

/-- The data of a round comes from what was recorded. -/
structure Logged (lib : Library) (node : Node) : Prop where
  bitsets : ∀ v bitset, node.transient.bitsets v = some bitset →
    ∃ msg, .recorded node.currBlock node.round.number msg ∈ node.log ∧
      msg.quorumPosition.toNat = v.val ∧ msg.payload = .handshakeBitset bitset
  template : node.transient.templateStage.msgsReceived = 1 →
    FromTemplate lib node.log node.currBlock node.transient.block

section

variable {lib : Library} {setup : Setup} {around : Surroundings} {M : Message → Prop}
  {Q : CurrBlock → UInt8 → Message → Prop} {msg : Message} {node node' : Node}
  {p : List Event → Event → Prop}

/-! ## Recorded messages -/

theorem Node.Handles.allRecorded (h : Node.Handles lib msg node node') (hnode : AllRecorded Q node)
    (hmsg : .waitForRound ≤ node.state →
      lib.msgSignatureCheck msg node.currBlock.topHash node.round.quorum = true →
        Q node.currBlock node.round.number msg) : AllRecorded Q node' := by
  cases h with
  | ignored | queued | rejected => exact hnode
  | recorded _ _ _ _ _ hready hcheck =>
    intro curr number msg' hmem
    rcases mem_append.mp hmem with hmem | hmem
    · exact hnode curr number msg' hmem
    · cases mem_singleton.mp hmem
      exact hmsg hready hcheck

theorem Hears.allRecorded (h : Hears lib M node node') (hnode : AllRecorded Q node)
    (hmsg : .waitForRound ≤ node.state → ∀ msg, M msg → Q node.currBlock node.round.number msg) :
    AllRecorded Q node' := by
  induction h with
  | refl => exact hnode
  | quiet _ hquiet ih =>
    rw [AllRecorded, hquiet.same.log]
    exact ih
  | handle hheard hM hhandles ih =>
    apply hhandles.allRecorded ih
    intro hready _
    rw [hheard.state_eq] at hready
    rw [hheard.currBlock_eq, hheard.round_eq]
    exact hmsg hready _ hM

/-- What a decision may add to the log, after other events that it adds. -/
def Node.MayEmit (setup : Setup) (around : Surroundings) (node : Node) (others : List Event) :
    Event → Prop
  | .recorded _ _ _ => False
  | .seeded values =>
    others = [] ∧ node.state = .sendAndWaitForRandomValue ∧ values = node.transient.randomValue.data
  | .signed curr block =>
    node.state = .sendAndWaitForRandomValue ∧ curr = node.currBlock ∧
      block = (node.finishBlock setup around).transient.block
  | .found quorum block =>
    node.state = .sendAndWaitForBlockSignatures ∧
      node.transient.blockSignatures.stage.bitset = node.participants ∧
      quorum = node.round.quorum ∧
      block = { node.transient.block with
        hashValid := false
        signatures := node.transient.block.signatures ++
          Node.firstSignatures node.transient.blockSignatures.data }
  | .relayed _ | .restarted | .cleared => True

theorem forall_singleton_split {event : Event} (h : p [] event)
    (es es' : List Event) (e : Event) (hsplit : [event] = es ++ e :: es') : p es e := by
  cases es with
  | nil =>
    cases hsplit
    exact h
  | cons _ es => cases es <;> cases hsplit

theorem forall_pair_split {event event' : Event} (h : p [] event)
    (h' : p [event] event') (es es' : List Event) (e : Event)
    (hsplit : [event, event'] = es ++ e :: es') : p es e := by
  cases es with
  | nil =>
    cases hsplit
    exact h
  | cons head es =>
    injection hsplit with hhead htail
    subst hhead
    exact forall_singleton_split (p := fun es => p (event :: es)) h' es es' e htail

section

variable (h : Decides setup around node node')

include h

/-- A decision adds events to the log. -/
theorem Decides.log_eq :
    ∃ events, node'.log = node.log ++ events ∧
      ∀ es es' event, events = es ++ event :: es' → node.MayEmit setup around es event := by
  have hnone : ∀ es es' event, ([] : List Event) = es ++ event :: es' →
      node.MayEmit setup around es event := fun es es' event h => by simp at h
  cases h with
  | proceeds hproceeds =>
    cases hproceeds with
    | prepares => exact ⟨[.cleared], rfl, forall_singleton_split trivial⟩
    | restarts => exact ⟨[.restarted], rfl, forall_singleton_split trivial⟩
    | finishes hready =>
      exact ⟨[.seeded _, .signed _ _], append_assoc _ _ _,
        forall_pair_split ⟨rfl, hready, rfl⟩ ⟨hready, rfl, rfl⟩⟩
    | _ => exact ⟨[], (append_nil _).symm, hnone⟩
  | submits hready hbits =>
    unfold Node.submitBlock
    dsimp only
    split
    · split
      · exact ⟨[.found _ _, .cleared], append_assoc _ _ _,
          forall_pair_split ⟨hready, hbits, rfl, rfl⟩ trivial⟩
      · exact ⟨[.found _ _], rfl, forall_singleton_split ⟨hready, hbits, rfl, rfl⟩⟩
    · exact ⟨[], (append_nil _).symm, hnone⟩
  | leaves => exact ⟨[.cleared], rfl, forall_singleton_split trivial⟩
  | leavesPreparing =>
    exact ⟨[.cleared, .cleared], append_assoc _ _ _, forall_pair_split trivial trivial⟩
  | relays msg => exact ⟨[.relayed msg], rfl, forall_singleton_split trivial⟩
  | _ => exact ⟨[], (append_nil _).symm, hnone⟩

/-- The log only grows. -/
theorem Decides.log_subset : node.log ⊆ node'.log := by
  obtain ⟨events, hlog, -⟩ := h.log_eq
  rw [hlog]
  exact subset_append_left _ _

theorem Decides.allRecorded (hnode : AllRecorded Q node) : AllRecorded Q node' := by
  obtain ⟨events, hlog, hemits⟩ := h.log_eq
  intro curr number msg hmem
  rw [hlog, mem_append] at hmem
  rcases hmem with hmem | hmem
  · exact hnode curr number msg hmem
  · obtain ⟨es, es', hsplit⟩ := append_of_mem hmem
    exact (hemits es es' _ hsplit).elim

end

/-- The messages that wait while a round goes on have a property that may depend on the
round. -/
def QueuesBring (Q : CurrBlock → UInt8 → Message → Prop) (node : Node) : Prop :=
  .waitForRound ≤ node.state → QueuesIn (Q node.currBlock node.round.number) node

theorem Decides.queuesBring (h : Decides setup around node node') (hnode : QueuesBring Q node) :
    QueuesBring Q node' := by
  intro hready
  cases h.proceeds_of_ready hready with
  | waits => exact hnode hready
  | prepares =>
    intro type v msg hslot
    cases type <;> cases hslot
  | moves _ hready' => exact hnode hready'
  | agrees _ _ _ hready' | finishes hready' =>
    intro type v msg hslot
    apply hnode (by rw [hready']; decide) type v msg
    cases type <;> exact hslot
  | accepts hready' | collects hready' => exact hnode (by rw [hready']; decide)
  | restarts _ hready' =>
    have hqueues := hnode (Nat.le_trans (by decide) (Nat.le_of_lt hready'))
    intro type v msg hslot
    cases type with
    | handshake => exact hqueues .handshake v msg hslot
    | handshakeBitset => exact hqueues .handshakeBitset v msg hslot
    | blockTemplate => exact hqueues .blockTemplate v msg hslot
    | _ => cases hslot

variable {P : Node → Step → Prop} {curr : CurrBlock}

/-- In a run whose steps bring only messages with a property, only such messages are
recorded. -/
theorem Run.allRecorded (h : Run setup P node)
    (hP : ∀ node step, P node step → step.Brings Q setup node) : AllRecorded Q node := by
  suffices AllRecorded Q node ∧ QueuesBring Q node from this.1
  induction h with
  | start =>
    exact ⟨fun _ _ _ hmem => absurd hmem not_mem_nil, fun hready => absurd hready (by decide)⟩
  | @step node step _ hstep ih =>
    obtain ⟨hlog, hqueues⟩ := ih
    have hbrings := hP node step hstep
    cases step with
    | deliver msg =>
      have hhandles := @Node.handleMessage_handles setup.lib msg node
      refine ⟨hhandles.allRecorded hlog hbrings, fun hready => ?_⟩
      change .waitForRound ≤ (Node.handleMessage setup.lib msg node).state at hready
      change QueuesIn (Q (Node.handleMessage setup.lib msg node).currBlock
        (Node.handleMessage setup.lib msg node).round.number) _
      rw [hhandles.state_eq] at hready
      rw [hhandles.currBlock_eq, hhandles.round_eq]
      exact hhandles.queuesIn (hqueues hready) hbrings
    | pass around =>
      obtain ⟨heard, hheard, hdecides⟩ := @Node.pass_passesTo setup around node
      -- what a pass handles waited in a queue or is its own message
      have hoffers : .waitForRound ≤ node.state → ∀ msg, node.Offers setup around msg →
          Q node.currBlock node.round.number msg := by
        rintro hready msg (⟨type, v, hslot⟩ | ⟨payload, hsends, rfl⟩)
        · exact hqueues hready type v msg hslot
        · exact hbrings payload hsends
      refine ⟨hdecides.allRecorded (hheard.allRecorded hlog hoffers), hdecides.queuesBring ?_⟩
      intro hready
      rw [hheard.state_eq] at hready
      rw [hheard.currBlock_eq, hheard.round_eq]
      intro type v msg hslot
      exact hoffers hready msg (hheard.queuesIn Node.queuesIn_offers type v msg hslot)

/-! ## Where the data comes from -/

theorem FromTemplate.mono {log log' : List Event} {block block' : PulseBlock}
    (h : FromTemplate lib log curr block) (hlog : log ⊆ log') (hprev : block'.prevId = block.prevId)
    (hheight : block'.height = block.height) : FromTemplate lib log' curr block' := by
  obtain ⟨number, msg, blob, txs, parsed, hmem, hpayload, hparsed, hprev', hheight'⟩ := h
  exact ⟨number, msg, blob, txs, parsed, hlog hmem, hpayload, hparsed, hprev.trans hprev',
    hheight.trans hheight'⟩

theorem getBlockHash_prevId {lib : Library} {block : PulseBlock} :
    (lib.getBlockHash block).2.prevId = block.prevId := by
  unfold Library.getBlockHash
  split <;> rfl

theorem getBlockHash_height {lib : Library} {block : PulseBlock} :
    (lib.getBlockHash block).2.height = block.height := by
  unfold Library.getBlockHash
  split <;> rfl

namespace Logged

section

variable (h : Logged lib node)

include h

theorem of_sameData (hsame : SameData node node') : Logged lib node' := by
  constructor
  · rw [hsame.bitsets, hsame.currBlock, hsame.round, hsame.log]
    exact h.bitsets
  · rw [hsame.templateReceived, hsame.log, hsame.currBlock, hsame.block]
    exact h.template

/-- More in the log, and the same bitsets and template. -/
theorem mono (hcurr : node'.currBlock = node.currBlock)
    (hround : node'.round = node.round) (hlog : node.log ⊆ node'.log)
    (hbitsets : node'.transient.bitsets = node.transient.bitsets)
    (hreceived :
      node'.transient.templateStage.msgsReceived = node.transient.templateStage.msgsReceived)
    (hprev : node'.transient.block.prevId = node.transient.block.prevId)
    (hheight : node'.transient.block.height = node.transient.block.height) : Logged lib node' := by
  constructor
  · intro v bitset hdata
    rw [hbitsets] at hdata
    obtain ⟨msg, hmem, hmsg⟩ := h.bitsets v bitset hdata
    exact ⟨msg, by rw [hcurr, hround]; exact hlog hmem, hmsg⟩
  · intro hone
    rw [hreceived] at hone
    rw [hcurr]
    exact (h.template hone).mono hlog hprev hheight

theorem handles (hhandles : node.Handles lib msg node') : Logged lib node' := by
  cases hhandles with
  | ignored => exact h
  | queued =>
    exact h.of_sameData .enqueue
  | rejected =>
    exact h.mono rfl rfl (.refl _) rfl rfl getBlockHash_prevId getBlockHash_height
  | recorded _ _ _ hposition hpayload _ _ _ _ hadds =>
    have hlog : node.log ⊆ node.log ++ [.recorded node.currBlock node.round.number msg] :=
      subset_append_left _ _
    cases hadds with
    | handshake | randomValueHash | randomValue => exact h.mono rfl rfl hlog rfl rfl rfl rfl
    | handshakeBitset =>
      constructor
      · intro v bitset' hdata
        rcases update_some_cases hdata with ⟨rfl, rfl⟩ | hdata
        · exact ⟨msg, mem_append_right _ (mem_singleton.mpr rfl), hposition.symm, hpayload⟩
        · obtain ⟨msg', hmem, hmsg'⟩ := h.bitsets v bitset' hdata
          exact ⟨msg', hlog hmem, hmsg'⟩
      · exact fun hone => (h.template hone).mono hlog rfl rfl
    | blockTemplate blob txs parsed _ _ hparsed =>
      constructor
      · intro v bitset hdata
        obtain ⟨msg', hmem, hmsg'⟩ := h.bitsets v bitset hdata
        exact ⟨msg', hlog hmem, hmsg'⟩
      · exact fun _ => ⟨node.round.number, msg, blob, txs, parsed,
          mem_append_right _ (mem_singleton.mpr rfl), hpayload, hparsed, rfl, rfl⟩
    | blockSignature =>
      exact h.mono rfl rfl hlog rfl rfl getBlockHash_prevId getBlockHash_height

theorem hears (hhears : Hears lib M node node') : Logged lib node' := by
  induction hhears with
  | refl => exact h
  | quiet _ hquiet ih => exact ih.of_sameData hquiet.same
  | handle _ _ hhandles ih => exact ih.handles hhandles

end

end Logged

theorem Decides.logged (h : Decides setup around node node')
    (hnode : .waitForRound ≤ node.state → Logged setup.lib node) :
    .waitForRound ≤ node'.state → Logged setup.lib node' := by
  have hlog := h.log_subset
  intro hready
  cases h.proceeds_of_ready hready with
  | waits => exact hnode hready
  | prepares =>
    constructor
    · intro v bitset hdata
      cases hdata
    · intro hone
      cases hone
  | moves _ hready' =>
    exact (hnode hready').mono rfl rfl hlog rfl rfl rfl rfl
  | agrees _ _ _ hready' | accepts hready' | collects hready' | finishes hready' =>
    exact (hnode (by rw [hready']; decide)).mono rfl rfl hlog rfl rfl rfl rfl
  | restarts _ hready' =>
    exact (hnode (Nat.le_trans (by decide) (Nat.le_of_lt hready'))).mono rfl rfl hlog
      rfl rfl rfl rfl

theorem Run.logged (h : Run setup P node) : .waitForRound ≤ node.state → Logged setup.lib node :=
  h.keeps (fun _ _ _ _ _ hhandles hnode => hnode.handles hhandles)
    (fun _ _ _ _ _ hhears hnode => hnode.hears hhears)
    (fun _ _ _ _ _ hdecides hheard => hdecides.logged hheard)

/-! ## Where events come from -/

/-- A message adds at most a record. -/
theorem Node.Handles.log_eq (h : Node.Handles lib msg node node') :
    ∃ records, node'.log = node.log ++ records ∧
      ∀ event ∈ records, ∃ curr number msg, event = .recorded curr number msg := by
  cases h with
  | recorded =>
    refine ⟨[_], rfl, fun event hmem => ?_⟩
    exact ⟨_, _, _, mem_singleton.mp hmem⟩
  | _ => exact ⟨[], (append_nil _).symm, by simp⟩

theorem Hears.log_eq (h : Hears lib M node node') :
    ∃ records, node'.log = node.log ++ records ∧
      ∀ event ∈ records, ∃ curr number msg, event = .recorded curr number msg := by
  induction h with
  | refl => exact ⟨[], (append_nil _).symm, by simp⟩
  | quiet _ hquiet ih =>
    rw [hquiet.same.log]
    exact ih
  | handle _ _ hhandles ih =>
    obtain ⟨records, hlog, hrecords⟩ := ih
    obtain ⟨records', hlog', hrecords'⟩ := hhandles.log_eq
    refine ⟨records ++ records', by rw [hlog', hlog, append_assoc], fun event hmem => ?_⟩
    exact (mem_append.mp hmem).elim (hrecords event) (hrecords' event)

/-- An event in a list is in its first or in its second part. -/
theorem append_cons_eq_append {α : Type} {pre post l new : List α} {event : α}
    (h : pre ++ event :: post = l ++ new) :
    (∃ rest, l = pre ++ event :: rest) ∨ ∃ rest, pre = l ++ rest ∧ new = rest ++ event :: post := by
  rcases append_eq_append_iff.mp h with ⟨rest, hl, hnew⟩ | ⟨rest, hpre, hnew⟩
  · cases rest with
    | nil => exact .inr ⟨[], by simpa using hl.symm, by simpa using hnew.symm⟩
    | cons head rest =>
      injection hnew with hhead _
      subst hhead
      exact .inl ⟨rest, hl⟩
  · exact .inr ⟨rest, hpre, hnew⟩

/-- Everything in the log that is not a record goes back to the pass that added it. -/
theorem Run.emitted (h : Run setup P node) {pre post : List Event} {event : Event}
    (hlog : node.log = pre ++ event :: post)
    (hevent : ∀ curr number msg, event ≠ .recorded curr number msg) :
    ∃ before around heard es, Run setup P before ∧ P before (.pass around) ∧
      Hears setup.lib (before.Offers setup around) before heard ∧ pre = heard.log ++ es ∧
      heard.MayEmit setup around es event := by
  induction h generalizing pre post with
  | start => simp at hlog
  | @step node step hrun hstep ih =>
    cases step with
    | deliver msg =>
      obtain ⟨records, heq, hrecords⟩ := (@Node.handleMessage_handles setup.lib msg node).log_eq
      rcases append_cons_eq_append (hlog.symm.trans heq) with ⟨rest, hold⟩ | ⟨rest, -, hnew⟩
      · exact ih hold
      · obtain ⟨curr, number, msg, hrecord⟩ := hrecords event (by simp [hnew])
        exact absurd hrecord (hevent curr number msg)
    | pass around =>
      obtain ⟨heard, hheard, hdecides⟩ := @Node.pass_passesTo setup around node
      obtain ⟨events, heq, hemits⟩ := hdecides.log_eq
      rcases append_cons_eq_append (hlog.symm.trans heq) with ⟨rest, hold⟩ | ⟨rest, hpre, hnew⟩
      · obtain ⟨records, heq', hrecords⟩ := hheard.log_eq
        rcases append_cons_eq_append (hold.symm.trans heq') with ⟨rest, hold⟩ | ⟨rest, -, hnew⟩
        · exact ih hold
        · obtain ⟨curr, number, msg, hrecord⟩ := hrecords event (by simp [hnew])
          exact absurd hrecord (hevent curr number msg)
      · exact ⟨node, around, heard, rest, hrun, hstep, hheard, hpre, hemits rest post event hnew⟩

/-- Every block that was signed goes back to a template recorded for its height. -/
theorem Run.signed_fromTemplate (h : Run setup P node) {block : PulseBlock}
    (hmem : .signed curr block ∈ node.log) :
    FromTemplate setup.lib node.log curr block := by
  obtain ⟨pre, post, hlog⟩ := append_of_mem hmem
  obtain ⟨before, around, heard, es, hrun, -, hheard, hpre, hstate, rfl, rfl⟩ :=
    h.emitted hlog (by simp)
  have hready : .waitForRound ≤ before.state := by
    rw [← hheard.state_eq, hstate]
    decide
  have hround := hheard.inRound (hrun.ready hready)
  have hone := (hround.template (by rw [hstate]; decide)).1
  apply (((hrun.logged hready).hears hheard).template hone).mono
  · rw [hlog, hpre, append_assoc]
    exact subset_append_left _ _
  · rfl
  · rfl

end

end Xeqm.Pulse
