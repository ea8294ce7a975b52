import Xeqm.Blink.Quorumnet

/-!
# Verdicts on blink transactions

Whatever messages come in and however the handlers interleave, a verdict rests on signatures that
came in and verify, and only the clean-up of the cache ends it. When all messages have been handled,
nothing was cleaned up and no validator has signed both verdicts, the slots tell who has signed what,
so the order has no part in it.
-/

namespace Xeqm.Blink

open Cryptonote ServiceNodes List

/-! ## Adding signatures -/

variable {x : PendingSignature}

namespace BlinkTx

variable {btx : BlinkTx} {signatures : List PendingSignature}

theorem addAll_cons (btx : BlinkTx) (x : PendingSignature) (signatures : List PendingSignature) :
    btx.addAll (x :: signatures) =
      (btx.addPrecheckedSignature x.quorum x.position x.approval x.signature).2.addAll
        signatures := rfl

theorem addAll_height (btx : BlinkTx) (signatures : List PendingSignature) :
    (btx.addAll signatures).height = btx.height ∧ (btx.addAll signatures).txHash = btx.txHash := by
  induction signatures generalizing btx with
  | nil => exact ⟨rfl, rfl⟩
  | cons _ _ ih =>
    rw [addAll_cons, (ih _).1, (ih _).2]
    unfold addPrecheckedSignature
    split <;> exact ⟨rfl, rfl⟩

theorem extends_addAll (btx : BlinkTx) (signatures : List PendingSignature) :
    (btx.addAll signatures).Extends btx := by
  induction signatures generalizing btx with
  | nil => exact Extends.refl btx
  | cons _ _ ih =>
    exact (ih _).trans extends_addPrecheckedSignature

/-- The slots of added signatures are taken. -/
theorem status_addAll_ne (btx : BlinkTx) (hx : x ∈ signatures) :
    (btx.addAll signatures).status x.quorum x.position ≠ .none := by
  induction signatures generalizing btx with
  | nil => cases hx
  | cons _ signatures ih =>
    rw [addAll_cons]
    obtain rfl | hx := mem_cons.mp hx
    · have htaken := status_addPrecheckedSignature_ne btx x.quorum x.position x.approval x.signature
      rwa [(extends_addAll _ signatures).status htaken]
    · exact ih _ hx

/-- A slot holds what it held before or one of the added signatures. -/
theorem signatures_addAll (btx : BlinkTx) (signatures : List PendingSignature) (q : Subquorum)
    (position : Fin blinkSubquorumSize) :
    (btx.addAll signatures).signatures q position = btx.signatures q position ∨
      ∃ x ∈ signatures, x.quorum = q ∧ x.position = position ∧
        (btx.addAll signatures).signatures q position = ⟨.ofVerdict x.approval, x.signature⟩ := by
  induction signatures generalizing btx with
  | nil => exact .inl rfl
  | cons x signatures ih =>
    rw [addAll_cons]
    obtain hsame | ⟨y, hy, hslot⟩ :=
      ih (btx.addPrecheckedSignature x.quorum x.position x.approval x.signature).2
    · rw [hsame, signatures_addPrecheckedSignature]
      split
      · rename_i h
        exact .inr ⟨x, mem_cons_self, h.1.1.symm, h.1.2.symm, rfl⟩
      · exact .inl rfl
    · exact .inr ⟨y, mem_cons_of_mem _ hy, hslot⟩

end BlinkTx

/-- The slots of a new transaction: free where there is a validator. -/
theorem Member.newBlink_status (member : Member) (q : Subquorum)
    (position : Fin blinkSubquorumSize) :
    member.newBlink.status q position =
      if (member.validatorAt q position).isSome then .none else .rejected := by
  have hiff : (member.validatorAt q position).isSome ↔
      position.val < (member.quorums q).keys.length := by
    simp [Member.validatorAt]
  by_cases h : position.val < (member.quorums q).keys.length
  · rw [if_pos (hiff.mpr h)]
    have hnot := Nat.not_le_of_lt h
    cases q <;> simp [Member.newBlink, BlinkTx.status, BlinkTx.limitSignatures, Subquorum.all, hnot]
  · rw [if_neg (fun hsome => h (hiff.mp hsome))]
    have hle := not_lt.mp h
    cases q <;> simp [Member.newBlink, BlinkTx.status, BlinkTx.limitSignatures, Subquorum.all, hle]

/-! ## The invariant -/

/-- A slot without a validator is a rejection. Any other is free or holds a signature that came in
and verifies. -/
def SlotSound (member : Member) (received : List PendingSignature) (q : Subquorum)
    (position : Fin blinkSubquorumSize) (entry : QuorumSignature) : Prop :=
  if (member.validatorAt q position).isSome then
    entry.status = .none ∨ ∃ x ∈ received, x.quorum = q ∧ x.position = position ∧
      member.verifies x = true ∧ entry = ⟨.ofVerdict x.approval, x.signature⟩
  else entry.status = .rejected

/-- What holds at a member at any time, if `Voted` tells which verdicts it may have voted for. -/
structure Tracked (member : Member) (Voted : Bool → Prop) (s : MemberState) : Prop where
  /-- The handlers hold signatures that came in. -/
  held : ∀ task ∈ s.tasks, ∀ x ∈ task.signatures, x ∈ s.received
  /-- What is about to be added was verified. -/
  verified : ∀ signatures tag, .record signatures tag ∈ s.tasks →
    ∀ x ∈ signatures, member.verifies x = true
  pending : ∀ x ∈ s.pending, x ∈ s.received
  pending_nil : s.btx.isSome → s.pending = []
  named : ∀ btx ∈ s.btx, btx.height = member.height ∧ btx.txHash = member.txHash
  slots : ∀ btx ∈ s.btx, ∀ q position,
    SlotSound member s.received q position (btx.signatures q position)
  /-- No signature is lost: it is kept for later, held by a handler, wrong, or its slot is taken. -/
  handled : ∀ x ∈ s.received, x ∈ s.pending ∨ (∃ task ∈ s.tasks, x ∈ task.signatures) ∨
    member.verifies x = false ∨ ∃ btx ∈ s.btx, btx.status x.quorum x.position ≠ .none
  /-- The member votes after it has stored the transaction. -/
  voted : s.btx.isSome → (∃ signatures tag, .vote signatures tag ∈ s.tasks) ∨
    ∃ approved, Voted approved ∧ ∀ x ∈ member.ownSignatures approved, x ∈ s.received

variable {events : List Event}

section

variable {member : Member} {Voted : Bool → Prop} {s s' : MemberState}
  {position : Fin blinkSubquorumSize}

/-- Handlers that have not looked for the transaction hold nothing. -/
theorem tracked_waiting (tasks : List Task) :
    Tracked member Voted { tasks := tasks.filter Task.isStore } := by
  have hstore {task : Task} (hmem : task ∈ tasks.filter Task.isStore) : ∃ tag, task = .store tag := by
    have his := (mem_filter.mp hmem).2
    cases task <;> first | exact ⟨_, rfl⟩ | cases his
  constructor
  · intro task hmem x hx
    obtain ⟨tag, rfl⟩ := hstore hmem
    cases hx
  · intro signatures tag hmem
    obtain ⟨tag, heq⟩ := hstore hmem
    cases heq
  · exact fun _ h => absurd h not_mem_nil
  · exact fun h => nomatch h
  · exact fun _ h => nomatch h
  · exact fun _ h => nomatch h
  · exact fun _ h => absurd h not_mem_nil
  · exact fun h => nomatch h

theorem SlotSound.mono {received received' : List PendingSignature} {q : Subquorum}
    {entry : QuorumSignature}
    (h : SlotSound member received q position entry) (hsub : ∀ x ∈ received, x ∈ received') :
    SlotSound member received' q position entry := by
  unfold SlotSound at h ⊢
  split
  · rename_i hsome
    rw [if_pos hsome] at h
    obtain hfree | ⟨x, hx, hslot⟩ := h
    · exact .inl hfree
    · exact .inr ⟨x, hsub x hx, hslot⟩
  · rename_i hnone
    rwa [if_neg hnone] at h

/-- A slot with a signature that verifies has a validator. -/
theorem validatorAt_of_verifies (h : member.verifies x = true) :
    (member.validatorAt x.quorum x.position).isSome := by
  unfold Member.verifies at h
  cases hkey : member.validatorAt x.quorum x.position with
  | none => rw [hkey] at h; cases h
  | some => rfl

/-- The invariant does not look at replies. -/
theorem Tracked.answered (h : Tracked member Voted s) (replies : List (UInt64 × Reply))
    (replyTag : UInt64) : Tracked member Voted { s with replies, replyTag } :=
  ⟨h.held, h.verified, h.pending, h.pending_nil, h.named, h.slots, h.handled, h.voted⟩

variable {task : Task} {signatures : List PendingSignature} {btx : BlinkTx}
  {events events' : List Event}

/-- Signatures come in for the next handler, some of the others go on, and each signature of those
that do not is taken care of. -/
theorem Tracked.handOver (h : Tracked member Voted s) (signatures : List PendingSignature)
    {next : Option Task} {rest : List Task} (hrest : rest ⊆ s.tasks)
    (hheld : ∀ task ∈ next, ∀ x ∈ task.signatures, x ∈ signatures ++ s.received)
    (hrecord : ∀ signatures tag, next = some (.record signatures tag) →
      ∀ x ∈ signatures, member.verifies x = true)
    (hnew : ∀ x ∈ signatures, ∃ task ∈ next, x ∈ task.signatures)
    (hdone : ∀ task ∈ s.tasks, task ∈ rest ∨ ∀ x ∈ task.signatures,
      (∃ task' ∈ next, x ∈ task'.signatures) ∨ member.verifies x = false ∨
        ∃ btx ∈ s.btx, btx.status x.quorum x.position ≠ .none)
    (hvoted : ∀ held tag, .vote held tag ∈ s.tasks → .vote held tag ∈ rest ∨
      ∃ approved, Voted approved ∧ ∀ x ∈ member.ownSignatures approved, x ∈ signatures) :
    Tracked member Voted
      { s with tasks := next.toList ++ rest, received := signatures ++ s.received } := by
  have hreceived (x : PendingSignature) (hx : x ∈ s.received) : x ∈ signatures ++ s.received :=
    mem_append_right _ hx
  have hnext {x : PendingSignature} (hx : ∃ task ∈ next, x ∈ task.signatures) :
      ∃ task ∈ next.toList ++ rest, x ∈ task.signatures := by
    obtain ⟨task, htask, hx⟩ := hx
    exact ⟨task, mem_append_left _ (Option.mem_toList.mpr htask), hx⟩
  constructor
  · intro task hmem x hx
    obtain hmem | hmem := mem_append.mp hmem
    · exact hheld task (Option.mem_toList.mp hmem) x hx
    · exact hreceived x (h.held task (hrest hmem) x hx)
  · intro signatures tag hmem
    obtain hmem | hmem := mem_append.mp hmem
    · exact hrecord signatures tag (Option.mem_toList.mp hmem)
    · exact h.verified signatures tag (hrest hmem)
  · exact fun x hx => hreceived x (h.pending x hx)
  · exact h.pending_nil
  · exact h.named
  · exact fun btx hbtx q position => (h.slots btx hbtx q position).mono hreceived
  · intro x hx
    obtain hx | hx := mem_append.mp hx
    · exact .inr (.inl (hnext (hnew x hx)))
    obtain hx | ⟨task, htask, hx⟩ | hx := h.handled x hx
    · exact .inl hx
    · obtain hmem | hdone := hdone task htask
      · exact .inr (.inl ⟨task, mem_append_right _ hmem, hx⟩)
      · exact .inr ((hdone x hx).imp_left hnext)
    · exact .inr (.inr hx)
  · intro hsome
    obtain ⟨held, tag, hmem⟩ | ⟨approved, happroved, hown⟩ := h.voted hsome
    · obtain hmem | ⟨approved, happroved, hown⟩ := hvoted held tag hmem
      · exact .inl ⟨held, tag, mem_append_right _ hmem⟩
      · exact .inr ⟨approved, happroved, fun x hx => mem_append_left _ (hown x hx)⟩
    · exact .inr ⟨approved, happroved, fun x hx => hreceived x (hown x hx)⟩

/-- A handler that does not vote goes on as another one or is over, with each of its signatures
taken care of. -/
theorem Tracked.replace (h : Tracked member Voted s) {next : Option Task}
    (hvote : ∀ signatures tag, task ≠ .vote signatures tag)
    (hheld : ∀ task' ∈ next, ∀ x ∈ task'.signatures, x ∈ s.received)
    (hrecord : ∀ signatures tag, next = some (.record signatures tag) →
      ∀ x ∈ signatures, member.verifies x = true)
    (hdone : ∀ x ∈ task.signatures, (∃ task' ∈ next, x ∈ task'.signatures) ∨
      member.verifies x = false ∨ ∃ btx ∈ s.btx, btx.status x.quorum x.position ≠ .none) :
    Tracked member Voted (s.replace task next) := by
  refine h.handOver [] erase_subset hheld hrecord (fun _ hx => absurd hx not_mem_nil)
    (fun task' hmem => ?_)
    (fun held tag hmem => .inl ((mem_erase_of_ne (hvote held tag).symm).mpr hmem))
  by_cases heq : task' = task
  · exact .inr (heq ▸ hdone)
  · exact .inl ((mem_erase_of_ne heq).mpr hmem)

/-! ## Steps -/

theorem reply_eq {s : MemberState} {tag : UInt64} {answer : Reply} :
    ∃ replies, s.reply tag answer = { s with replies } := by
  unfold MemberState.reply
  split
  · exact ⟨s.replies, rfl⟩
  · exact ⟨_, rfl⟩

/-- A submission is answered, or waits for the verdict, or starts a handler. -/
theorem handleBlink_cases {s : MemberState} {member : Member} {env : Surroundings}
    {msg : BlinkMessage} :
    (∃ answer, s.handleBlink member env msg = s.reply msg.tag answer) ∨
      s.handleBlink member env msg = { s with replyTag := msg.tag } ∨
      s.handleBlink member env msg = { s with tasks := .store msg.tag :: s.tasks } := by
  unfold MemberState.handleBlink
  split
  · exact .inl ⟨_, rfl⟩
  split
  · exact .inl ⟨_, rfl⟩
  split
  · exact .inl ⟨_, rfl⟩
  split
  · exact .inl ⟨_, rfl⟩
  split
  · split
    · next htag => exact .inl ⟨.good, (if_pos htag).symm⟩
    split
    · exact .inl ⟨_, rfl⟩
    split
    · exact .inl ⟨_, rfl⟩
    · exact .inr (.inl rfl)
  split
  · exact .inl ⟨_, rfl⟩
  split
  · exact .inl ⟨_, rfl⟩
  split
  · exact .inl ⟨_, rfl⟩
  split
  · exact .inl ⟨_, rfl⟩
  split
  · exact .inl ⟨_, rfl⟩
  · exact .inr (.inr rfl)

/-- Replies and handlers aside, a submission changes nothing. -/
theorem handleBlink_eq {s : MemberState} {member : Member} {env : Surroundings} {msg : BlinkMessage} :
    ∃ replies replyTag tasks,
      s.handleBlink member env msg = { s with replies, replyTag, tasks } := by
  obtain ⟨answer, heq⟩ | heq | heq := handleBlink_cases
  · obtain ⟨replies, hreply⟩ := reply_eq
    exact ⟨replies, s.replyTag, s.tasks, heq.trans hreply⟩
  · exact ⟨s.replies, msg.tag, s.tasks, heq⟩
  · exact ⟨s.replies, s.replyTag, .store msg.tag :: s.tasks, heq⟩

/-- A handler gives way to the next one for its tag, or stores the transaction, or records
signatures. -/
theorem advance_cases {s : MemberState} {member : Member} {task : Task} :
    s.advance member task = s ∨ task ∈ s.tasks ∧
      ((∃ next, s.advance member task = s.replace task next ∧ ∀ t ∈ next, t.tag = task.tag) ∨
      (∃ tag, task = .store tag ∧ s.btx = none ∧ s.advance member task =
        { s.replace task (some (.vote s.pending tag)) with
          btx := some member.newBlink
          pending := []
          replyTag := if tag > 0 then tag else s.replyTag }) ∨
      ∃ signatures tag btx, task = .record signatures tag ∧ s.btx = some btx ∧
        s.advance member task = (s.replace task none).recordSignatures btx signatures tag) := by
  unfold MemberState.advance
  split
  · exact .inl rfl
  next htask =>
  rw [not_not] at htask
  cases task with
  | store tag =>
    dsimp only
    split
    · exact .inr ⟨htask, .inl ⟨none, rfl, fun _ hnext => nomatch hnext⟩⟩
    · next hnone =>
      rw [Option.not_isSome_iff_eq_none] at hnone
      exact .inr ⟨htask, .inr (.inl ⟨tag, rfl, hnone, rfl⟩)⟩
  | vote => exact .inl rfl
  | filter =>
    dsimp only
    split
    · exact .inl rfl
    · refine .inr ⟨htask, .inl ⟨_, rfl, fun t hnext => ?_⟩⟩
      split at hnext <;> cases hnext
      rfl
  | verify =>
    refine .inr ⟨htask, .inl ⟨_, rfl, fun t hnext => ?_⟩⟩
    split at hnext <;> cases hnext
    rfl
  | record signatures tag =>
    dsimp only
    split
    · exact .inl rfl
    · next btx hbtx => exact .inr ⟨htask, .inr (.inr ⟨signatures, tag, btx, rfl, hbtx, rfl⟩)⟩

/-- Replies aside, a handler that records signatures only adds them. -/
theorem recordSignatures_eq {s : MemberState} {btx : BlinkTx} {signatures : List PendingSignature}
    {tag : UInt64} : ∃ replies, s.recordSignatures btx signatures tag =
      { s with btx := some (btx.addAll signatures), replies } := by
  unfold MemberState.recordSignatures
  dsimp only
  split
  · exact ⟨s.replies, rfl⟩
  split
  · exact reply_eq
  split
  · exact reply_eq
  · exact ⟨s.replies, rfl⟩

section

variable (h : Tracked member Voted s)

include h

theorem Tracked.handleBlink (env : Surroundings) (msg : BlinkMessage) :
    Tracked member Voted (s.handleBlink member env msg) := by
  obtain ⟨answer, heq⟩ | heq | heq := handleBlink_cases
  · obtain ⟨replies, hreply⟩ := reply_eq
    rw [heq, hreply]
    exact h.answered _ _
  · rw [heq]
    exact h.answered _ _
  · rw [heq]
    exact @Tracked.handOver _ _ _ h [] (some (.store msg.tag)) _ (.refl _)
      (by rintro _ ⟨⟩ x hx; cases hx) (fun _ _ heq => nomatch heq) (fun _ hx => absurd hx not_mem_nil)
      (fun _ hmem => .inl hmem) fun _ _ hmem => .inl hmem

theorem Tracked.handleBlinkSignature (msg : SignMessage) :
    Tracked member Voted (s.handleBlinkSignature member msg) := by
  unfold MemberState.handleBlinkSignature
  cases hparse : msg.parse member with
  | none => exact h
  | some signatures =>
    cases hbtx : s.btx with
    | none =>
      have hreceived (x : PendingSignature) (hx : x ∈ s.received) : x ∈ signatures ++ s.received :=
        mem_append_right _ hx
      dsimp only
      constructor
      · exact fun task htask x hx => hreceived x (h.held task htask x hx)
      · exact h.verified
      · intro x hx
        obtain hx | hx := mem_append.mp hx
        · exact hreceived x (h.pending x hx)
        · exact mem_append_left _ (mem_filter.mp hx).1
      · exact fun hsome => nomatch hsome
      · exact fun btx hmem => nomatch hmem
      · exact fun btx hmem => nomatch hmem
      · intro x hx
        by_cases hold : x ∈ s.pending
        · exact .inl (mem_append_left _ hold)
        obtain hx | hx := mem_append.mp hx
        · exact .inl (mem_append_right _ (mem_filter.mpr ⟨hx, by simpa using hold⟩))
        · exact .inr (hbtx ▸ (h.handled x hx).resolve_left hold)
      · exact fun hsome => nomatch hsome
    | some =>
      dsimp only
      rw [← hbtx]
      exact @Tracked.handOver _ _ _ h signatures (some (.filter signatures _)) _ (.refl _)
        (by rintro _ ⟨⟩ x hx; exact mem_append_left _ hx) (fun _ _ heq => nomatch heq)
        (fun x hx => ⟨_, rfl, hx⟩) (fun _ hmem => .inl hmem) (fun _ _ hmem => .inl hmem)

theorem Tracked.castVote (signatures : List PendingSignature) (tag : UInt64) {approved : Bool}
    (happroved : Voted approved) :
    Tracked member Voted (s.castVote member signatures tag approved) := by
  unfold MemberState.castVote
  dsimp only
  split
  · exact h
  rename_i htask
  rw [not_not] at htask
  refine h.handOver _ erase_subset ?_ (fun _ _ heq => nomatch heq)
    (fun x hx => ⟨_, rfl, mem_append_right _ hx⟩) (fun task hmem => ?_)
    (fun _ _ _ => .inr ⟨approved, happroved, fun x hx => hx⟩)
  · rintro _ ⟨⟩ x hx
    obtain hx | hx := mem_append.mp hx
    · exact mem_append_right _ (h.held _ htask x hx)
    · exact mem_append_left _ hx
  · by_cases heq : task = .vote signatures tag
    · subst heq
      exact .inr (fun x hx => .inl ⟨_, rfl, mem_append_left _ hx⟩)
    · exact .inl ((mem_erase_of_ne heq).mpr hmem)

end

theorem mem_next (h : task.signatures = signatures)
    (hx : x ∈ signatures) :
    ∃ task' ∈ (if signatures = [] then none else some task), x ∈ task'.signatures := by
  rw [if_neg (ne_nil_of_mem hx)]
  exact ⟨task, rfl, h ▸ hx⟩

section

variable (h : Tracked member Voted s)

include h

/-- The transaction is stored, and the handler holds what had come in before. -/
theorem Tracked.store (hnone : s.btx = none) (tag : UInt64) :
    Tracked member Voted
      { s with
        btx := some member.newBlink
        pending := []
        tasks := .vote s.pending tag :: s.tasks.erase (.store tag) } where
  held := forall_mem_cons.mpr
    ⟨h.pending, fun task hmem => h.held task (mem_of_mem_erase hmem)⟩
  verified := by
    intro signatures tag hmem
    obtain heq | hmem := mem_cons.mp hmem
    · cases heq
    · exact h.verified signatures tag (mem_of_mem_erase hmem)
  pending := fun _ hx => absurd hx not_mem_nil
  pending_nil := fun _ => rfl
  named := by
    rintro btx ⟨⟩
    exact ⟨rfl, rfl⟩
  slots := by
    rintro btx ⟨⟩ q position
    have hstatus := member.newBlink_status q position
    unfold SlotSound
    split
    · rename_i hsome
      rw [if_pos hsome] at hstatus
      exact .inl hstatus
    · rename_i hnot
      rwa [if_neg hnot] at hstatus
  handled := by
    intro x hx
    obtain hx | ⟨task, hmem, hx⟩ | hx | ⟨btx, hbtx, _⟩ := h.handled x hx
    · exact .inr (.inl ⟨_, mem_cons_self, hx⟩)
    · by_cases heq : task = .store tag
      · rw [heq] at hx
        exact absurd hx not_mem_nil
      · refine .inr (.inl ⟨task, mem_cons_of_mem _ ?_, hx⟩)
        exact (mem_erase_of_ne heq).mpr hmem
    · exact .inr (.inr (.inl hx))
    · rw [hnone] at hbtx
      cases hbtx
  voted := fun _ => .inl ⟨_, tag, mem_cons_self⟩

/-- Verified signatures are added. -/
theorem Tracked.record (hbtx : s.btx = some btx)
    {tag : UInt64} (htask : .record signatures tag ∈ s.tasks) :
    Tracked member Voted
      { s with
        btx := some (btx.addAll signatures)
        tasks := s.tasks.erase (.record signatures tag) } where
  held := fun task hmem => h.held task (mem_of_mem_erase hmem)
  verified := fun signatures tag hmem => h.verified signatures tag (mem_of_mem_erase hmem)
  pending := h.pending
  pending_nil := fun _ => h.pending_nil (by rw [hbtx]; rfl)
  named := by
    rintro btx' ⟨⟩
    rw [(btx.addAll_height signatures).1, (btx.addAll_height signatures).2]
    exact h.named btx hbtx
  slots := by
    rintro btx' ⟨⟩ q position
    obtain hsame | ⟨x, hx, rfl, rfl, hslot⟩ := btx.signatures_addAll signatures q position
    · rw [hsame]
      exact h.slots btx hbtx q position
    · have hverifies := h.verified signatures tag htask x hx
      unfold SlotSound
      rw [if_pos (validatorAt_of_verifies hverifies)]
      exact .inr ⟨x, h.held _ htask x hx, rfl, rfl, hverifies, hslot⟩
  handled := by
    intro x hx
    obtain hx | ⟨task, hmem, hx⟩ | hx | ⟨btx', hbtx', htaken⟩ := h.handled x hx
    · exact .inl hx
    · by_cases heq : task = .record signatures tag
      · subst heq
        exact .inr (.inr (.inr ⟨_, rfl, btx.status_addAll_ne hx⟩))
      · exact .inr (.inl ⟨task, (mem_erase_of_ne heq).mpr hmem, hx⟩)
    · exact .inr (.inr (.inl hx))
    · rw [hbtx] at hbtx'
      cases hbtx'
      refine .inr (.inr (.inr ⟨_, rfl, ?_⟩))
      rwa [(btx.extends_addAll signatures).status htaken]
  voted := by
    intro _
    obtain ⟨signatures', tag', hmem⟩ | hown := h.voted (by rw [hbtx]; rfl)
    · have hne : Task.vote signatures' tag' ≠ .record signatures tag := fun heq => nomatch heq
      exact .inl ⟨signatures', tag', (mem_erase_of_ne hne).mpr hmem⟩
    · exact .inr hown

theorem Tracked.advance (task : Task) : Tracked member Voted (s.advance member task) := by
  unfold MemberState.advance
  split
  · exact h
  rename_i htask
  rw [not_not] at htask
  cases task with
  | store tag =>
    dsimp only
    split
    · exact h.replace (fun _ _ heq => nomatch heq) (fun _ hmem => nomatch hmem)
        (fun _ _ heq => nomatch heq) fun _ hx => absurd hx not_mem_nil
    · rename_i hnone
      exact (h.store (Option.not_isSome_iff_eq_none.mp hnone) tag).answered _ _
  | vote => exact h
  | filter =>
    cases hbtx : s.btx with
    | none => exact h
    | some btx =>
      refine h.replace (fun _ _ heq => nomatch heq) ?_ ?_ ?_
      · intro task' hnext x hx
        split at hnext
        · cases hnext
        · cases hnext
          exact h.held _ htask x (mem_filter.mp hx).1
      · intro signatures' tag' heq
        split at heq <;> cases heq
      · intro x hx
        by_cases hkeep : (member.validatorAt x.quorum x.position).isSome ∧
            btx.status x.quorum x.position = .none
        · exact .inl (mem_next (by rfl) (mem_filter.mpr ⟨hx, decide_eq_true hkeep⟩))
        · by_cases hsome : (member.validatorAt x.quorum x.position).isSome
          · exact .inr (.inr ⟨btx, hbtx, fun hfree => hkeep ⟨hsome, hfree⟩⟩)
          · refine .inr (.inl (Bool.eq_false_iff.mpr fun hverifies => ?_))
            exact hsome (validatorAt_of_verifies hverifies)
  | verify =>
    refine h.replace (fun _ _ heq => nomatch heq) ?_ ?_ ?_
    · intro task' hnext x hx
      split at hnext
      · cases hnext
      · cases hnext
        exact h.held _ htask x (mem_filter.mp hx).1
    · intro signatures' tag' heq x hx
      split at heq
      · cases heq
      · cases heq
        exact (mem_filter.mp hx).2
    · intro x hx
      cases hverifies : member.verifies x with
      | true => exact .inl (mem_next (by rfl) (mem_filter.mpr ⟨hx, hverifies⟩))
      | false => exact .inr (.inl rfl)
  | record =>
    cases hbtx : s.btx with
    | none => exact h
    | some =>
      obtain ⟨replies, heq⟩ := recordSignatures_eq
      dsimp only
      rw [heq]
      exact (h.record hbtx htask).answered _ _

theorem Tracked.step {event : Event}
    (hvoted : ∀ signatures tag approved, event = .vote signatures tag approved → Voted approved) :
    Tracked member Voted (s.step member event) := by
  cases event with
  | blink env msg => exact h.handleBlink env msg
  | blinkSign msg => exact h.handleBlinkSignature msg
  | vote signatures tag approved =>
    exact h.castVote signatures tag (hvoted signatures tag approved rfl)
  | advance task => exact h.advance task

end

theorem Member.run_append (member : Member) (events : List Event) (event : Event) :
    member.run (events ++ [event]) = (member.run events).step member event := by
  unfold Member.run
  rw [foldl_append]
  rfl

theorem tracked_run (hvoted : ∀ signatures tag approved, .vote signatures tag approved ∈ events →
      Voted approved) : Tracked member Voted (member.run events) := by
  induction events using List.reverseRecOn with
  | nil => exact tracked_waiting []
  | append_singleton _ _ ih =>
    rw [Member.run_append]
    refine (ih fun signatures tag approved hmem => ?_).step fun signatures tag approved heq => ?_
    · exact hvoted signatures tag approved (mem_append_left _ hmem)
    · exact hvoted signatures tag approved (mem_append_right _ (heq ▸ mem_cons_self))

/-! ## Where signatures come from -/

theorem advance_received {s : MemberState} {member : Member} {task : Task} :
    (s.advance member task).received = s.received := by
  obtain heq | ⟨-, ⟨next, heq, -⟩ | ⟨tag, -, -, heq⟩ | ⟨signatures, tag, btx, -, -, heq⟩⟩ :=
    advance_cases
  · rw [heq]
  · rw [heq]
    rfl
  · rw [heq]
    rfl
  · obtain ⟨replies, hrecord⟩ := recordSignatures_eq
    rw [heq, hrecord]
    rfl

/-- One event adds the signatures of its message, or those of the member itself. -/
theorem step_received {s : MemberState} {member : Member} {event : Event} :
    (∀ x ∈ s.received, x ∈ (s.step member event).received) ∧
      ∀ x ∈ (s.step member event).received, x ∈ s.received ∨ Delivered member [event] x := by
  cases event with
  | blink env msg =>
    obtain ⟨replies, replyTag, tasks, heq⟩ := handleBlink_eq
    rw [MemberState.step, heq]
    exact ⟨fun _ hx => hx, fun _ hx => .inl hx⟩
  | blinkSign msg =>
    unfold MemberState.step MemberState.handleBlinkSignature
    dsimp only
    cases hparse : msg.parse member with
    | none => exact ⟨fun _ hx => hx, fun _ hx => .inl hx⟩
    | some signatures =>
      have hboth : (∀ x ∈ s.received, x ∈ signatures ++ s.received) ∧
          ∀ x ∈ signatures ++ s.received, x ∈ s.received ∨ Delivered member [.blinkSign msg] x := by
        refine ⟨fun x hx => mem_append_right _ hx, fun x hx => ?_⟩
        obtain hx | hx := mem_append.mp hx
        · exact .inr (.inl ⟨msg, mem_cons_self, signatures, hparse, hx⟩)
        · exact .inl hx
      dsimp only
      split <;> exact hboth
  | vote signatures tag approved =>
    unfold MemberState.step MemberState.castVote
    dsimp only
    split
    · exact ⟨fun _ hx => hx, fun _ hx => .inl hx⟩
    · refine ⟨fun x hx => mem_append_right _ hx, fun x hx => ?_⟩
      obtain hx | hx := mem_append.mp hx
      · exact .inr (.inr ⟨signatures, tag, approved, mem_cons_self, hx⟩)
      · exact .inl hx
  | advance task =>
    have hreceived : (s.advance member task).received = s.received := advance_received
    change (∀ x ∈ s.received, x ∈ (s.advance member task).received) ∧
      ∀ x ∈ (s.advance member task).received, _
    rw [hreceived]
    exact ⟨fun _ hx => hx, fun _ hx => .inl hx⟩

theorem Delivered.mono (h : Delivered member events x)
    (hsub : ∀ event ∈ events, event ∈ events') :
    Delivered member events' x := by
  obtain ⟨msg, hmsg, hparse⟩ | ⟨signatures, tag, approved, hvote, hown⟩ := h
  · exact .inl ⟨msg, hsub _ hmsg, hparse⟩
  · exact .inr ⟨signatures, tag, approved, hsub _ hvote, hown⟩

/-- All that came in was delivered. -/
theorem delivered_of_received (hx : x ∈ (member.run events).received) :
    Delivered member events x := by
  induction events using List.reverseRecOn with
  | nil => exact absurd hx not_mem_nil
  | append_singleton _ _ ih =>
    rw [Member.run_append] at hx
    obtain hx | hx := step_received.2 x hx
    · exact (ih hx).mono fun _ hmem => mem_append_left _ hmem
    · exact hx.mono fun _ hmem => mem_append_right _ hmem

/-- All signatures of the messages came in. -/
theorem received_of_message {msg : SignMessage}
    (hmsg : .blinkSign msg ∈ events) (hparse : msg.parse member = some signatures)
    (hx : x ∈ signatures) :
    x ∈ (member.run events).received := by
  induction events using List.reverseRecOn with
  | nil => exact absurd hmsg not_mem_nil
  | append_singleton _ _ ih =>
    rw [Member.run_append]
    obtain hmsg | hmsg := mem_append.mp hmsg
    · exact step_received.1 x (ih hmsg)
    · rw [← mem_singleton.mp hmsg]
      unfold MemberState.step MemberState.handleBlinkSignature
      dsimp only
      rw [hparse]
      dsimp only
      split <;> exact mem_append_left _ hx

/-! ## Verdicts -/

/-- One event keeps the slots that are taken. -/
theorem step_extends {member : Member} (hbtx : s.btx = some btx) {event : Event} :
    ∃ btx', (s.step member event).btx = some btx' ∧ btx'.Extends btx := by
  have hkeep (h : (s.step member event).btx = s.btx) :
      ∃ btx', (s.step member event).btx = some btx' ∧ btx'.Extends btx :=
    ⟨btx, h.trans hbtx, .refl btx⟩
  cases event with
  | blink =>
    apply hkeep
    obtain ⟨replies, replyTag, tasks, heq⟩ := handleBlink_eq
    rw [MemberState.step, heq]
  | blinkSign =>
    apply hkeep
    unfold MemberState.step MemberState.handleBlinkSignature
    dsimp only
    split
    · rfl
    · split <;> rfl
  | vote =>
    apply hkeep
    unfold MemberState.step MemberState.castVote
    dsimp only
    split <;> rfl
  | advance =>
    dsimp only [MemberState.step] at hkeep ⊢
    obtain heq | ⟨-, ⟨next, heq, -⟩ | ⟨tag, -, hnone, -⟩ | ⟨signatures, tag, btx', -, hbtx', heq⟩⟩ :=
      advance_cases
    · exact hkeep (congrArg MemberState.btx heq)
    · exact hkeep (heq ▸ rfl)
    · rw [hnone] at hbtx
      cases hbtx
    · rw [hbtx] at hbtx'
      cases hbtx'
      obtain ⟨replies, hrecord⟩ := recordSignatures_eq
      rw [heq, hrecord]
      exact ⟨_, rfl, btx.extends_addAll signatures⟩

/-- An approval has as many validators behind it as there are approved slots. -/
theorem BlinkTx.exists_signers (happroved : btx.approved = true) (q : Subquorum)
    {validators : Validators} {Signed : PublicKey → Prop}
    (hslot : ∀ position, btx.status q position = .approved →
      ∃ key, validators.keys[position.val]? = some key ∧ Signed key) :
    ∃ signers : Finset PublicKey, blinkMinVotes ≤ signers.card ∧
      ∀ key ∈ signers, key ∈ validators.keys ∧ Signed key := by
  refine ⟨(btx.slots q .approved).image (fun position => (validators.keys[position.val]?).getD 0),
    ?_, fun key hkey => ?_⟩
  · rw [Finset.card_image_of_injOn]
    · exact approved_iff.mp happroved q
    · intro position hposition position' hposition' heq
      obtain ⟨key, hkey, _⟩ := hslot position (mem_slots.mp hposition)
      obtain ⟨key', hkey', _⟩ := hslot position' (mem_slots.mp hposition')
      dsimp only at heq
      rw [hkey, hkey', Option.getD_some, Option.getD_some] at heq
      obtain ⟨hlt, hget⟩ := List.getElem?_eq_some_iff.mp hkey
      obtain ⟨hlt', hget'⟩ := List.getElem?_eq_some_iff.mp hkey'
      exact Fin.ext ((List.Nodup.getElem_inj_iff validators.nodup).mp
        (hget.trans (heq.trans hget'.symm)))
  · obtain ⟨position, hposition, rfl⟩ := Finset.mem_image.mp hkey
    obtain ⟨key, hkey, hsigned⟩ := hslot position (mem_slots.mp hposition)
    rw [hkey]
    exact ⟨mem_of_getElem? hkey, hsigned⟩

/-- The validators who made approved signatures that were delivered. -/
def ApprovedBy (member : Member) (events : List Event) (q : Subquorum) (key : PublicKey) : Prop :=
  key ∈ (member.quorums q).keys ∧ ∃ x, Delivered member events x ∧ x.approval = true ∧
    member.crypto.checkSignature
      (verdictHash member.crypto member.height member.txHash true) key x.signature = true

/-- An approved slot rests on a signature that came in and verifies. -/
theorem Tracked.approved_slot (h : Tracked member Voted s) (hbtx : s.btx = some btx)
    {q : Subquorum} (hslot : btx.status q position = .approved) :
    ∃ x ∈ s.received, x.quorum = q ∧ x.position = position ∧ member.verifies x = true ∧
      x.approval = true ∧ (btx.signatures q position).sig = x.signature := by
  have hsound := h.slots btx hbtx q position
  unfold BlinkTx.status at hslot
  unfold SlotSound at hsound
  split at hsound
  · obtain hfree | ⟨x, hx, hquorum, hposition, hverifies, hentry⟩ := hsound
    · rw [hfree] at hslot
      cases hslot
    · rw [hentry] at hslot ⊢
      refine ⟨x, hx, hquorum, hposition, hverifies, ?_, rfl⟩
      cases hx : x.approval with
      | true => rfl
      | false => rw [hx] at hslot; cases hslot
  · rw [hsound] at hslot
    cases hslot

/-- An approved transaction has enough validators behind it in each subquorum. -/
theorem exists_signers (h : Tracked member Voted s)
    (hreceived : ∀ x ∈ s.received, Delivered member events x) (happroved : s.Approved)
    (q : Subquorum) :
    ∃ signers : Finset PublicKey, blinkMinVotes ≤ signers.card ∧
      ∀ key ∈ signers, ApprovedBy member events q key := by
  obtain ⟨btx, hbtx, happroved⟩ := happroved
  refine BlinkTx.exists_signers happroved q fun position hslot => ?_
  obtain ⟨x, hx, rfl, rfl, hverifies, happroval, -⟩ := h.approved_slot hbtx hslot
  obtain ⟨key, hkey⟩ := Option.isSome_iff_exists.mp (validatorAt_of_verifies hverifies)
  unfold Member.verifies at hverifies
  rw [hkey, happroval] at hverifies
  exact ⟨key, hkey, x, hreceived x hx, happroval, hverifies⟩

/-! ## The order of messages -/

/-- A validator whose signatures for both verdicts were delivered. -/
def SignsBoth (member : Member) (events : List Event) (key : PublicKey) : Prop :=
  ∀ approved, ∃ x, Delivered member events x ∧ x.approval = approved ∧
    member.crypto.checkSignature
      (verdictHash member.crypto member.height member.txHash approved) key x.signature = true

/-- The same signature messages are among the events. -/
def SameMessages (events events' : List Event) : Prop :=
  ∀ msg, .blinkSign msg ∈ events ↔ .blinkSign msg ∈ events'

/-- Whenever the member votes, it votes like this. -/
def VotesFor (vote : Bool) (events : List Event) : Prop :=
  ∀ signatures tag approved, .vote signatures tag approved ∈ events → approved = vote

/-- When all is handled, the same signatures have come in. -/
theorem received_of_sameMessages {vote : Bool}
    (hsame : SameMessages events events') (hvote : VotesFor vote events)
    (hvote' : VotesFor vote events') (hsettled : (member.run events').Settled)
    (hx : x ∈ (member.run events).received) :
    x ∈ (member.run events').received := by
  obtain ⟨msg, hmsg, signatures, hparse, hx⟩ | ⟨signatures, tag, approved, hmem, hown⟩ :=
    delivered_of_received hx
  · exact received_of_message ((hsame msg).mp hmsg) hparse hx
  · obtain rfl := hvote signatures tag approved hmem
    have htracked : Tracked member (fun approved' => approved' = approved) (member.run events') :=
      tracked_run fun signatures tag approved' hmem => hvote' signatures tag approved' hmem
    obtain ⟨signatures, tag, htask⟩ | ⟨approved', rfl, hreceived⟩ := htracked.voted hsettled.1
    · rw [hsettled.2] at htask
      exact absurd htask not_mem_nil
    · exact hreceived x hown

/-- When all is handled, a slot with a validator is taken exactly if a signature came in for it that
verifies. -/
theorem settled_status (h : Tracked member Voted (member.run events))
    (hsettled : (member.run events).Settled)
    (hbtx : (member.run events).btx = some btx) (hx : x ∈ (member.run events).received)
    (hverifies : member.verifies x = true) :
    ∃ y ∈ (member.run events).received, y.quorum = x.quorum ∧ y.position = x.position ∧
      member.verifies y = true ∧
      btx.status x.quorum x.position = .ofVerdict y.approval := by
  have htaken : btx.status x.quorum x.position ≠ .none := by
    obtain hpending | ⟨task, htask, _⟩ | hwrong | ⟨btx', hbtx', htaken⟩ := h.handled x hx
    · rw [h.pending_nil hsettled.1] at hpending
      exact absurd hpending not_mem_nil
    · rw [hsettled.2] at htask
      exact absurd htask not_mem_nil
    · rw [hverifies] at hwrong
      cases hwrong
    · rw [hbtx] at hbtx'
      cases hbtx'
      exact htaken
  have hsound := h.slots btx hbtx x.quorum x.position
  unfold SlotSound at hsound
  rw [if_pos (validatorAt_of_verifies hverifies)] at hsound
  obtain hfree | ⟨y, hy, hquorum, hposition, hverifies', hentry⟩ := hsound
  · exact absurd hfree htaken
  · exact ⟨y, hy, hquorum, hposition, hverifies', congrArg QuorumSignature.status hentry⟩

/-- Two signatures for one slot are for the same verdict, unless their validator signs both. -/
theorem approval_eq (hboth : ∀ key, ¬SignsBoth member events key) {y : PendingSignature}
    (hx : Delivered member events x) (hy : Delivered member events y)
    (hquorum : y.quorum = x.quorum) (hposition : y.position = x.position)
    (hxv : member.verifies x = true) (hyv : member.verifies y = true) :
    y.approval = x.approval := by
  obtain ⟨key, hkey⟩ := Option.isSome_iff_exists.mp (validatorAt_of_verifies hxv)
  have hkey' : member.validatorAt y.quorum y.position = some key := by
    rw [hquorum, hposition, hkey]
  unfold Member.verifies at hxv hyv
  rw [hkey] at hxv
  rw [hkey'] at hyv
  by_contra hne
  refine hboth key fun approved => ?_
  by_cases happroved : x.approval = approved
  · exact ⟨x, hx, happroved, happroved ▸ hxv⟩
  · have hy' : y.approval = approved := by
      cases hxa : x.approval <;> cases hya : y.approval <;> cases approved <;> simp_all
    exact ⟨y, hy, hy', hy' ▸ hyv⟩

/-- The slots do not depend on the order in which everything was handled. -/
theorem status_eq_of_sameMessages {vote : Bool} (hsame : SameMessages events events')
    (hvote : VotesFor vote events) (hvote' : VotesFor vote events')
    (hsettled : (member.run events).Settled) (hsettled' : (member.run events').Settled)
    (hboth : ∀ key, ¬SignsBoth member events key) {btx' : BlinkTx}
    (hbtx : (member.run events).btx = some btx) (hbtx' : (member.run events').btx = some btx')
    (q : Subquorum) (position : Fin blinkSubquorumSize) :
    btx.status q position = btx'.status q position := by
  have htracked : Tracked member (fun _ => True) (member.run events) :=
    tracked_run fun _ _ _ _ => trivial
  have htracked' : Tracked member (fun _ => True) (member.run events') :=
    tracked_run fun _ _ _ _ => trivial
  have hto {x : PendingSignature} (hx : x ∈ (member.run events).received) :=
    received_of_sameMessages hsame hvote hvote' hsettled' hx
  have hfrom {x : PendingSignature} (hx : x ∈ (member.run events').received) :=
    received_of_sameMessages (fun msg => (hsame msg).symm) hvote' hvote hsettled hx
  have hslot := htracked.slots btx hbtx q position
  have hslot' := htracked'.slots btx' hbtx' q position
  unfold BlinkTx.status
  unfold SlotSound at hslot hslot'
  split at hslot
  · rename_i hsome
    rw [if_pos hsome] at hslot'
    obtain hfree | ⟨x, hx, rfl, rfl, hxv, hentry⟩ := hslot
    · obtain hfree' | ⟨y, hy, rfl, rfl, hyv, _⟩ := hslot'
      · rw [hfree, hfree']
      · obtain ⟨z, _, _, _, _, hstatus⟩ := settled_status htracked hsettled hbtx (hfrom hy) hyv
        rw [BlinkTx.status, hfree] at hstatus
        exact absurd hstatus.symm BlinkTx.ofVerdict_ne_none
    · obtain ⟨y, hy, hquorum, hposition, hyv, hstatus⟩ :=
        settled_status htracked' hsettled' hbtx' (hto hx) hxv
      have heq := approval_eq hboth (delivered_of_received hx) (delivered_of_received (hfrom hy))
        hquorum hposition hxv hyv
      rw [hentry, ← heq]
      exact hstatus.symm
  · rename_i hnone
    rw [if_neg hnone] at hslot'
    rw [hslot, hslot']

/-! ## The clean-up -/

/-- What is dropped goes on without the handlers that have not looked for it. -/
theorem Tracked.dropped (h : Tracked member Voted s) :
    Tracked member Voted { s with tasks := s.tasks.filter (fun task => !task.isStore) } := by
  refine @Tracked.handOver _ _ _ h [] none _ (filter_subset_self _) (fun _ hnext => nomatch hnext)
    (fun _ _ heq => nomatch heq) (fun _ hx => absurd hx not_mem_nil) (fun task hmem => ?_)
    (fun _ _ hmem => .inl (mem_filter.mpr ⟨hmem, rfl⟩))
  cases task with
  | store => exact .inr (fun _ hx => absurd hx not_mem_nil)
  | vote | filter | verify | record => exact .inl (mem_filter.mpr ⟨hmem, rfl⟩)

/-- The invariant, with all signatures from the events. -/
def Sourced (member : Member) (events : List Event) (s : MemberState) : Prop :=
  Tracked member (fun _ => True) s ∧ ∀ x ∈ s.received, Delivered member events x

theorem Sourced.mono (h : Sourced member events s) (hsub : events ⊆ events') :
    Sourced member events' s :=
  ⟨h.1, fun x hx => (h.2 x hx).mono fun _ hmem => hsub hmem⟩

theorem Sourced.step (h : Sourced member events s) (event : Event) :
    Sourced member (events ++ [event]) (s.step member event) := by
  refine ⟨h.1.step fun _ _ _ _ => trivial, fun x hx => ?_⟩
  obtain hx | hx := step_received.2 x hx
  · exact (h.2 x hx).mono fun _ hmem => mem_append_left _ hmem
  · exact hx.mono fun _ hmem => mem_append_right _ hmem

theorem Member.runCache_append (member : Member) (events : List CacheEvent) (event : CacheEvent) :
    member.runCache (events ++ [event]) = (member.runCache events).step member event := by
  unfold Member.runCache
  rw [foldl_append]
  rfl

/-- An event at a dropped entry leaves the others alone. -/
theorem mem_modify {states : List MemberState} {i : ℕ} {f : MemberState → MemberState}
    (h : s ∈ states.modify i f) : s ∈ states ∨ ∃ s' ∈ states, s = f s' := by
  obtain ⟨j, hj⟩ := mem_iff_getElem?.mp h
  rw [getElem?_modify] at hj
  obtain ⟨s', hs', heq⟩ := Option.map_eq_some_iff.mp hj
  have hmem := mem_of_getElem? hs'
  split at heq
  · exact .inr ⟨s', hmem, heq.symm⟩
  · exact .inl (heq ▸ hmem)

/-- The invariant holds of the entry and of everything that was dropped. -/
theorem sourced_runCache (member : Member) (events : List CacheEvent) :
    ∀ s ∈ (member.runCache events).states, Sourced member (events.filterMap CacheEvent.event) s := by
  induction events using List.reverseRecOn with
  | nil =>
    intro s hs
    rw [mem_singleton.mp hs]
    exact ⟨tracked_waiting [], fun _ hx => absurd hx not_mem_nil⟩
  | append_singleton events event ih =>
    rw [Member.runCache_append, filterMap_append]
    generalize member.runCache events = cache at ih ⊢
    obtain ⟨hentry, hdropped⟩ := forall_mem_cons.mp ih
    have hkeep {s : MemberState} (hs : Sourced member (events.filterMap CacheEvent.event) s) :
        Sourced member (events.filterMap CacheEvent.event ++ [event].filterMap CacheEvent.event) s :=
      hs.mono (subset_append_left _ _)
    -- A handler goes on with something that was dropped.
    have hlate {e : Event} (he : event.event = some e) (i : ℕ) :
        ∀ s ∈ cache.entry :: cache.dropped.modify i (·.step member e),
          Sourced member
            (events.filterMap CacheEvent.event ++ [event].filterMap CacheEvent.event) s := by
      refine forall_mem_cons.mpr ⟨hkeep hentry, fun s hs => ?_⟩
      obtain hs | ⟨s', hs', rfl⟩ := mem_modify hs
      · exact hkeep (hdropped s hs)
      · rw [filterMap_cons_some he]
        exact (hdropped s' hs').step e
    cases event with
    | entry event =>
      exact forall_mem_cons.mpr ⟨hentry.step event, fun s hs => hkeep (hdropped s hs)⟩
    | cleanup localHeight =>
      dsimp only [BlinkCache.step]
      split
      · refine forall_mem_cons.mpr ⟨⟨tracked_waiting _, fun _ hx => absurd hx not_mem_nil⟩, ?_⟩
        exact forall_mem_cons.mpr ⟨hkeep ⟨hentry.1.dropped, hentry.2⟩,
          fun s hs => hkeep (hdropped s hs)⟩
      · exact fun s hs => hkeep (ih s hs)
    | lateVote i => exact hlate rfl i
    | lateAdvance i => exact hlate rfl i

/-- One event keeps the slots that are taken, unless it drops the entry. -/
theorem cache_step_extends {member : Member} {cache : BlinkCache} {event : CacheEvent}
    (hkeep : ¬event.Drops member) (hbtx : cache.entry.btx = some btx) :
    ∃ btx', (cache.step member event).entry.btx = some btx' ∧ btx'.Extends btx := by
  cases event with
  | entry event => exact step_extends hbtx
  | cleanup =>
    dsimp only [BlinkCache.step]
    rw [if_neg hkeep]
    exact ⟨btx, hbtx, .refl btx⟩
  | lateVote | lateAdvance => exact ⟨btx, hbtx, .refl btx⟩

/-- A dropped entry leaves no transaction behind. -/
theorem cache_step_drops {member : Member} {cache : BlinkCache} {event : CacheEvent}
    (hdrops : event.Drops member) : (cache.step member event).entry.btx = none := by
  cases event with
  | cleanup =>
    dsimp only [BlinkCache.step]
    rw [if_pos hdrops]
    rfl
  | entry | lateVote | lateAdvance => cases hdrops

/-- What taken slots decide is decided after an event exactly if it does not drop the entry. -/
theorem cache_step_iff {member : Member} {cache : BlinkCache} {event : CacheEvent}
    {verdict : BlinkTx → Bool}
    (hextends : ∀ {btx btx' : BlinkTx}, btx'.Extends btx → verdict btx = true → verdict btx' = true)
    (hverdict : ∃ btx ∈ cache.entry.btx, verdict btx = true) :
    (∃ btx ∈ (cache.step member event).entry.btx, verdict btx = true) ↔ ¬event.Drops member := by
  obtain ⟨btx, hbtx, hverdict⟩ := hverdict
  refine ⟨fun ⟨btx', hbtx', _⟩ hdrops => ?_, fun hkeep => ?_⟩
  · rw [cache_step_drops hdrops] at hbtx'
    cases hbtx'
  · obtain ⟨btx', hbtx', hmore⟩ := cache_step_extends hkeep hbtx
    exact ⟨btx', hbtx', hextends hmore hverdict⟩

/-- As long as nothing is dropped, the cache is its entry. -/
theorem runCache_of_kept {member : Member} {events : List CacheEvent}
    (hkept : ∀ event ∈ events, ¬event.Drops member) :
    member.runCache events = { entry := member.run (events.filterMap CacheEvent.atEntry) } := by
  induction events using List.reverseRecOn with
  | nil => rfl
  | append_singleton events event ih =>
    obtain ⟨hevents, hlast⟩ := forall_mem_append.mp hkept
    rw [Member.runCache_append, ih hevents, filterMap_append]
    cases event with
    | entry event => exact congrArg (BlinkCache.mk · []) (member.run_append _ event).symm
    | cleanup =>
      have hkeep := hlast _ mem_cons_self
      rw [filterMap_cons_none rfl, filterMap_nil, append_nil]
      exact if_neg hkeep
    | lateVote i | lateAdvance i =>
      rw [filterMap_cons_none rfl, filterMap_nil, append_nil]
      dsimp only [BlinkCache.step]
      rw [modify_nil]

/-- A verdict on a blink transaction is one of the two, an approval has seven validators of each
subquorum behind it, a verdict ends exactly when its entry is dropped, and when all messages are
handled with nothing dropped the verdict depends on what they were, not on their order, unless a
validator signs both ways. -/
theorem blink_verdict (member : Member) :
    (∀ events,
      (∀ s ∈ (member.runCache events).states,
        ¬(s.Approved ∧ s.Rejected) ∧
        (s.Approved → ∀ q, ∃ signers : Finset PublicKey, blinkMinVotes ≤ signers.card ∧
          ∀ key ∈ signers, ApprovedBy member (events.filterMap CacheEvent.event) q key)) ∧
      ∀ event,
        ((member.runCache events).entry.Approved →
          ((member.runCache (events ++ [event])).entry.Approved ↔ ¬event.Drops member)) ∧
        ((member.runCache events).entry.Rejected →
          ((member.runCache (events ++ [event])).entry.Rejected ↔ ¬event.Drops member))) ∧
    ∀ events events' vote, (∀ event ∈ events ++ events', ¬event.Drops member) →
      SameMessages (events.filterMap CacheEvent.atEntry) (events'.filterMap CacheEvent.atEntry) →
      VotesFor vote (events.filterMap CacheEvent.atEntry) →
      VotesFor vote (events'.filterMap CacheEvent.atEntry) →
      (member.runCache events).entry.Settled → (member.runCache events').entry.Settled →
      (∀ key, ¬SignsBoth member (events.filterMap CacheEvent.atEntry) key) →
      ((member.runCache events).entry.Approved ↔ (member.runCache events').entry.Approved) ∧
        ((member.runCache events).entry.Rejected ↔ (member.runCache events').entry.Rejected) := by
  constructor
  · intro events
    refine ⟨fun s hs => ⟨?_, fun happroved q => ?_⟩, fun event => ?_⟩
    · rintro ⟨⟨btx, hbtx, happroved⟩, btx', hbtx', hrejected⟩
      obtain rfl := Option.mem_unique hbtx hbtx'
      exact BlinkTx.not_approved_and_rejected ⟨happroved, hrejected⟩
    · obtain ⟨htracked, hreceived⟩ := sourced_runCache member events s hs
      exact exists_signers htracked hreceived happroved q
    · rw [Member.runCache_append]
      exact ⟨cache_step_iff BlinkTx.Extends.approved, cache_step_iff BlinkTx.Extends.rejected⟩
  · intro events events' vote hkept hsame hvote hvote' hsettled hsettled' hboth
    obtain ⟨hkept, hkept'⟩ := forall_mem_append.mp hkept
    rw [runCache_of_kept hkept] at hsettled ⊢
    rw [runCache_of_kept hkept'] at hsettled' ⊢
    obtain ⟨btx, hbtx⟩ := Option.isSome_iff_exists.mp hsettled.1
    obtain ⟨btx', hbtx'⟩ := Option.isSome_iff_exists.mp hsettled'.1
    have hstatus := status_eq_of_sameMessages hsame hvote hvote' hsettled hsettled' hboth hbtx hbtx'
    have hcount (q : Subquorum) (status : SignatureStatus) :
        btx.sigCount q status = btx'.sigCount q status := by
      unfold BlinkTx.sigCount
      simp only [hstatus]
    have hverdict : btx.approved = btx'.approved ∧ btx.rejected = btx'.rejected := by
      unfold BlinkTx.approved BlinkTx.rejected
      simp only [hcount, and_self]
    unfold MemberState.Approved MemberState.Rejected
    rw [hbtx, hbtx']
    simp only [Option.mem_some_iff, exists_eq_left', hverdict, and_self]

end

/-! ## Two orders of the same messages -/

/-- Seven validators, the smallest quorum there is. -/
def sampleQuorum : BlinkQuorum where
  keys := [1, 2, 3, 4, 5, 6, 7]
  nodup := by decide
  min_le := by decide
  le_size := by decide

/-- The first of seven validators in both subquorums. -/
def sampleMember : Member where
  crypto := acceptingCrypto
  key := 1
  sign := fun _ => 1
  sign_valid := fun _ => rfl
  height := 100
  txHash := 5
  lookup := fun _ => some sampleQuorum.toValidators
  quorums := fun _ => sampleQuorum
  quorums_eq := by
    have hquorum (q : Subquorum) : getBlinkQuorum (fun _ => some sampleQuorum.toValidators) 100 q =
        .ok sampleQuorum := by
      cases q <;> rfl
    have harray : quorumArray sampleQuorum sampleQuorum = fun _ => sampleQuorum := by
      funext q
      cases q <;> rfl
    unfold getBlinkQuorums
    simp only [hquorum, harray, bind, Except.bind, ne_eq, not_true_eq_false, if_false]

/-- The approvals of the other validators. -/
def sampleSignatures : List PendingSignature :=
  [.base, .future].flatMap (fun q =>
    [1, 2, 3, 4, 5, 6].map (fun position => ⟨true, q, position, 1⟩))

/-- A message with them. -/
def sampleMessage : SignMessage where
  quorumIndices := sampleSignatures.map (fun x => x.quorum.index)
  positions := sampleSignatures.map (fun x => (x.position.val : ℤ))
  checksum := blinkChecksum sampleMember.quorums
  results := sampleSignatures.map PendingSignature.approval
  signatures := sampleSignatures.map (fun x => some x.signature)

/-- The submission of the transaction. -/
def sampleSubmission (localHeight : UInt64 := 100) : Event :=
  .blink ⟨localHeight, Hf.hf19RewardBatching, fun _ => some 5, true⟩
    { txData := some [], checksum := blinkChecksum sampleMember.quorums }

/-- A handler goes through to its end. -/
def finish (signatures : List PendingSignature) : List Event :=
  [.advance (.filter signatures 0), .advance (.verify signatures 0),
    .advance (.record signatures 0)]

/-- The signatures come in before the transaction. -/
def signaturesFirst : List Event :=
  [.blinkSign sampleMessage, sampleSubmission, .advance (.store 0),
    .vote sampleSignatures 0 true] ++
    finish (sampleSignatures ++ sampleMember.ownSignatures true)

/-- The signatures come in while the member is about to vote. -/
def submissionFirst : List Event :=
  [sampleSubmission, .advance (.store 0), .blinkSign sampleMessage, .vote [] 0 true] ++
    finish sampleSignatures ++ finish (sampleMember.ownSignatures true)

theorem sampleMessage_parse : sampleMessage.parse sampleMember = some sampleSignatures := by
  unfold SignMessage.parse
  have hquorums := sampleMember.quorums_eq
  change getBlinkQuorums sampleMember.lookup sampleMember.height sampleMessage.checksum = _
    at hquorums
  decide +kernel

/-- Nothing but approvals is delivered. -/
theorem sample_approvals (hmsg : ∀ msg, .blinkSign msg ∈ events →
    msg = sampleMessage) (hvote : VotesFor true events) (hx : Delivered sampleMember events x) :
    x.approval = true := by
  obtain ⟨msg, hmem, signatures, hparse, hx⟩ | ⟨signatures, tag, approved, hmem, hx⟩ := hx
  · rw [hmsg msg hmem, sampleMessage_parse] at hparse
    cases hparse
    have hall : ∀ x ∈ sampleSignatures, x.approval = true := by decide
    exact hall x hx
  · rw [hvote signatures tag approved hmem] at hx
    have hall : ∀ x ∈ sampleMember.ownSignatures true, x.approval = true := by decide
    exact hall x hx

/-- The clean-up of a submission at some height, and what happens at the entry before it. -/
def cleanedUp (events : List Event) (localHeight : UInt64) : List CacheEvent :=
  events.map .entry ++ [.cleanup localHeight]

theorem cleanedUp_atEntry (events : List Event) (localHeight : UInt64) :
    (cleanedUp events localHeight).filterMap CacheEvent.atEntry = events := by
  rw [cleanedUp, filterMap_append, filterMap_map]
  exact (append_nil _).trans (filterMap_some ..)

/-- In both orders the blink is approved, until the clean-up eleven blocks later. -/
theorem blink_verdict_sample :
    (sampleMember.runCache (cleanedUp signaturesFirst 110)).entry.Approved ∧
      (sampleMember.runCache (cleanedUp submissionFirst 110)).entry.Approved ∧
      ¬(sampleMember.runCache (cleanedUp submissionFirst 110 ++ [.cleanup 111])).entry.Approved := by
  have hkept : ∀ event ∈ cleanedUp signaturesFirst 110 ++ cleanedUp submissionFirst 110,
      ¬event.Drops sampleMember := by
    decide +kernel
  have happroved : (sampleMember.runCache (cleanedUp signaturesFirst 110)).entry.Approved := by
    decide +kernel
  have hmsg (msg : SignMessage) : .blinkSign msg ∈ signaturesFirst ↔ msg = sampleMessage := by
    simp [signaturesFirst, finish, sampleSubmission]
  have hmsg' (msg : SignMessage) : .blinkSign msg ∈ submissionFirst ↔ msg = sampleMessage := by
    simp [submissionFirst, finish, sampleSubmission]
  have hvote : VotesFor true signaturesFirst := by
    intro signatures tag approved hmem
    simp [signaturesFirst, finish, sampleSubmission] at hmem
    exact hmem.2.2
  have hvote' : VotesFor true submissionFirst := by
    intro signatures tag approved hmem
    simp [submissionFirst, finish, sampleSubmission] at hmem
    exact hmem.2.2
  have hboth (key : PublicKey) : ¬SignsBoth sampleMember signaturesFirst key := by
    intro hboth
    obtain ⟨x, hx, hreject, _⟩ := hboth false
    have happrove := sample_approvals (fun msg => (hmsg msg).mp) hvote hx
    rw [hreject] at happrove
    cases happrove
  have hsame : SameMessages signaturesFirst submissionFirst :=
    fun msg => (hmsg msg).trans (hmsg' msg).symm
  obtain ⟨hruns, horder⟩ := blink_verdict sampleMember
  have hiff := horder (cleanedUp signaturesFirst 110) (cleanedUp submissionFirst 110) true hkept
  rw [cleanedUp_atEntry, cleanedUp_atEntry] at hiff
  have happroved' := (hiff hsame hvote hvote' ⟨by decide +kernel, by decide +kernel⟩
    ⟨by decide +kernel, by decide +kernel⟩ hboth).1.mp happroved
  refine ⟨happroved, happroved', fun hstill => ?_⟩
  exact (((hruns _).2 (.cleanup 111)).1 happroved').mp hstill (by decide)

/-- A duplicate that comes eleven blocks later is refused, but not before the clean-up has dropped
the approved transaction. -/
theorem approval_dropped_by_duplicate :
    (sampleMember.runCache (signaturesFirst.map .entry)).entry.Approved ∧
      ¬(sampleMember.runCache (cleanedUp signaturesFirst 111 ++
        [.entry (sampleSubmission 111)])).entry.Approved := by
  decide +kernel

end Xeqm.Blink
