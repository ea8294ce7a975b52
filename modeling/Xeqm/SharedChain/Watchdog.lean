import Mathlib.Algebra.Order.Ring.Int
import Xeqm.Lib.Runs

/-!
# The fence watchdog

`fence_watchdog`: a thread of its own looks at the time since the last heartbeat of the writer, and
fences the writer if it is too long. Every load and store of an atomic and every reading of the clock
is a step, so that a run is an interleaving of the two threads.
-/

namespace Xeqm.SharedChain

open Lib List

/-! ## The threads -/

/-- Where the thread that calls `heartbeat` is. -/
inductive Beat
  | idle
  /-- The clock has been read. -/
  | timed (time : ℤ)
  /-- The time has been stored in `m_last_beat_ms`, before or after the watchdog has read it. -/
  | stored (time : ℤ) (afterLoad : Bool)
  deriving DecidableEq

/-- Where the watchdog is in `loop`. -/
inductive Watch
  /-- At the condition of the loop. -/
  | head
  | asleep
  /-- Before the second look at `m_run`. -/
  | awake
  /-- In a check, with what it has read of the clock and of `m_last_beat_ms`. The operands of the
  subtraction are evaluated in any order. -/
  | checking (clock lastBeat : Option ℤ)
  | done
  deriving DecidableEq

/-- A call of `on_fence`, with the time of the last read of its check and the times of the heartbeats
that were completed before. -/
structure Fence where
  readAt : ℤ
  beats : List ℤ
  deriving DecidableEq

/-- A `fence_watchdog` that has been started. -/
structure Watchdog where
  /-- The steady clock. -/
  now : ℤ
  /-- `m_last_beat_ms`. -/
  lastBeat : ℤ
  /-- `m_beaten`. -/
  beaten : Bool := false
  /-- `m_run`. -/
  running : Bool := true
  /-- `m_fenced`. -/
  fenced : Bool := false
  beat : Beat := .idle
  watch : Watch := .head
  /-- The times of all completed heartbeats. -/
  completed : List ℤ := []
  /-- The heartbeats that were stored and completed since the watchdog last read the time of the
  last one. -/
  late : List ℤ := []
  fences : List Fence := []
  deriving DecidableEq

/-- `start` at a time. -/
def Watchdog.start (now : ℤ) : Watchdog := { now, lastBeat := now }

/-- The steps of the two threads and of the clock. -/
inductive WatchdogStep
  | tick (elapsed : ℕ)
  /-- `now_ms` in `heartbeat`. -/
  | beatClock
  /-- `m_last_beat_ms.store`. -/
  | beatStore
  /-- `m_beaten.store`. -/
  | beatMark
  /-- `m_run.exchange(false)` in `stop`. -/
  | stop
  /-- The way of the watchdog to its next check. -/
  | watchNext
  /-- `now_ms` in a check. -/
  | watchClock
  /-- `m_last_beat_ms.load`. -/
  | watchLoad
  /-- `m_beaten.load`, and what follows from it. -/
  | watchBeaten
  deriving DecidableEq

namespace Watchdog

variable (timeout : ℤ)

variable (s : Watchdog)

/-- A check finds the writer stalled. -/
def Fires (clock lastBeat : ℤ) : Prop :=
  s.beaten = true ∧ clock - lastBeat > timeout
  deriving Decidable

/-- The end of a check. -/
def finishCheck (clock lastBeat : ℤ) : Watchdog :=
  if s.Fires timeout clock lastBeat then
    if s.fenced then { s with watch := .done }
    else
      { s with
        fenced := true
        watch := .done
        fences := ⟨s.now, s.completed⟩ :: s.fences }
  else { s with watch := .head }

/-- One step. A thread that is not at a step does nothing. -/
def step : WatchdogStep → Watchdog
  | .tick elapsed => { s with now := s.now + elapsed }
  | .beatClock =>
    match s.beat with
    | .idle => { s with beat := .timed s.now }
    | _ => s
  | .beatStore =>
    match s.beat with
    | .timed time => { s with lastBeat := time, beat := .stored time true }
    | _ => s
  | .beatMark =>
    match s.beat with
    | .stored time afterLoad =>
      { s with
        beaten := true
        beat := .idle
        completed := time :: s.completed
        late := if afterLoad then time :: s.late else s.late }
    | _ => s
  | .stop => { s with running := false }
  | .watchNext =>
    match s.watch with
    | .head => { s with watch := if s.running then .asleep else .done }
    | .asleep => { s with watch := .awake }
    | .awake => { s with watch := if s.running then .checking none none else .done }
    | _ => s
  | .watchClock =>
    match s.watch with
    | .checking none lastBeat => { s with watch := .checking (some s.now) lastBeat }
    | _ => s
  | .watchLoad =>
    match s.watch with
    | .checking clock none =>
      { s with
        watch := .checking clock (some s.lastBeat)
        late := []
        beat :=
          match s.beat with
          | .stored time _ => .stored time false
          | beat => beat }
    | _ => s
  | .watchBeaten =>
    match s.watch with
    | .checking (some clock) (some lastBeat) => s.finishCheck timeout clock lastBeat
    | _ => s

/-- `on_fence` is called at most once, and only by a check before whose last read no heartbeat was
completed that is not older than the timeout. -/
def FencesStalled : Prop :=
  s.fences.length ≤ 1 ∧ ∀ fence ∈ s.fences, ∀ time ∈ fence.beats, timeout < fence.readAt - time

/-- A check that fires has missed no recent heartbeat between its two loads. -/
def MissesNoBeat : WatchdogStep → Prop
  | .watchBeaten => ∀ clock lastBeat, s.watch = .checking (some clock) (some lastBeat) →
      s.Fires timeout clock lastBeat → ∀ time ∈ s.late, timeout < s.now - time
  | _ => True

/-! ## The invariant -/

/-- The heartbeats come one after the other. -/
structure BeatsOrdered (s : Watchdog) : Prop where
  last_le : s.lastBeat ≤ s.now
  completed_le : ∀ time ∈ s.completed, time ≤ s.lastBeat
  late_sub : ∀ time ∈ s.late, time ∈ s.completed
  timed : ∀ time, s.beat = .timed time → s.lastBeat ≤ time ∧ time ≤ s.now
  stored : ∀ time afterLoad, s.beat = .stored time afterLoad → s.lastBeat = time

/-- What a check has read: the clock is not ahead, and every heartbeat that the check does not know
was stored after it read the last one. -/
structure CheckRead (s : Watchdog) (clock lastBeat : Option ℤ) : Prop where
  clock_le : ∀ time, clock = some time → time ≤ s.now
  known : ∀ last, lastBeat = some last → ∀ time ∈ s.completed, time ≤ last ∨ time ∈ s.late
  storing : ∀ last, lastBeat = some last → ∀ time, s.beat = .stored time false → time ≤ last

/-- The invariant of a watchdog. -/
structure Sound (s : Watchdog) : Prop extends BeatsOrdered s where
  check : ∀ clock lastBeat, s.watch = .checking clock lastBeat → s.CheckRead clock lastBeat
  unfenced : s.watch ≠ .done → s.fenced = false ∧ s.fences = []
  stalled : s.FencesStalled timeout

variable {timeout} {s : Watchdog}

theorem sound_start (now : ℤ) : (start now).Sound timeout where
  last_le := le_refl _
  completed_le := by simp [start]
  late_sub := by simp [start]
  timed := by simp [start]
  stored := by simp [start]
  check := by simp [start]
  unfenced := by simp [start]
  stalled := by simp [start, FencesStalled]

section

variable (h : s.Sound timeout)

include h

theorem Sound.tick (elapsed : ℕ) : (s.step timeout (.tick elapsed)).Sound timeout where
  last_le := by
    have := h.last_le
    change s.lastBeat ≤ s.now + elapsed
    omega
  completed_le := h.completed_le
  late_sub := h.late_sub
  timed := by
    intro time hbeat
    have := h.timed time hbeat
    change s.lastBeat ≤ time ∧ time ≤ s.now + elapsed
    omega
  stored := h.stored
  check := by
    intro clock lastBeat hwatch
    have hcheck := h.check clock lastBeat hwatch
    refine { hcheck with clock_le := fun time htime => ?_ }
    have := hcheck.clock_le time htime
    change time ≤ s.now + elapsed
    omega
  unfenced := h.unfenced
  stalled := h.stalled

theorem Sound.beatClock : (s.step timeout .beatClock).Sound timeout := by
  unfold step
  dsimp only
  split
  · refine { h with timed := ?_, stored := ?_, check := ?_ }
    · rintro time hbeat
      cases hbeat
      exact ⟨h.last_le, le_refl _⟩
    · intro time afterLoad hbeat
      cases hbeat
    · intro clock lastBeat hwatch
      refine { h.check clock lastBeat hwatch with storing := ?_ }
      intro last _ time hbeat
      cases hbeat
  · exact h

theorem Sound.beatStore : (s.step timeout .beatStore).Sound timeout := by
  unfold step
  dsimp only
  split
  · rename_i time hbeat
    obtain ⟨hlast, hnow⟩ := h.timed time hbeat
    refine { h with last_le := hnow, completed_le := ?_, timed := ?_, stored := ?_, check := ?_ }
    · intro other hother
      exact (h.completed_le other hother).trans hlast
    · intro other hother
      cases hother
    · intro other afterLoad hother
      cases hother
      rfl
    · intro clock lastBeat hwatch
      refine { h.check clock lastBeat hwatch with storing := ?_ }
      intro last _ other hother
      cases hother
  · exact h

theorem Sound.beatMark : (s.step timeout .beatMark).Sound timeout := by
  unfold step
  dsimp only
  split
  · rename_i time afterLoad hbeat
    have htime := h.stored time afterLoad hbeat
    refine { h with completed_le := ?_, late_sub := ?_, timed := ?_, stored := ?_, check := ?_ }
    · intro other hother
      rcases mem_cons.mp hother with rfl | hother
      · exact htime.ge
      · exact h.completed_le other hother
    · intro other hother
      cases afterLoad with
      | false => exact mem_cons_of_mem _ (h.late_sub other hother)
      | true =>
        rcases mem_cons.mp hother with rfl | hother
        · exact mem_cons_self
        · exact mem_cons_of_mem _ (h.late_sub other hother)
    · intro other hother
      cases hother
    · intro other afterLoad hother
      cases hother
    · intro clock lastBeat hwatch
      have hcheck := h.check clock lastBeat hwatch
      refine ⟨hcheck.clock_le, fun last hlast other hother => ?_, fun _ _ other hother => ?_⟩
      · -- the new heartbeat was stored before the load or is now a late one
        cases afterLoad with
        | false =>
          rcases mem_cons.mp hother with rfl | hother
          · exact .inl (hcheck.storing last hlast other hbeat)
          · exact hcheck.known last hlast other hother
        | true =>
          rcases mem_cons.mp hother with rfl | hother
          · exact .inr mem_cons_self
          · exact (hcheck.known last hlast other hother).imp_right (mem_cons_of_mem _)
      · cases hother
  · exact h

/-- The watchdog is elsewhere, and not in a check that has read anything. -/
theorem Sound.moved (hwatch : s.watch ≠ .done) {watch : Watch}
    (hnext : ∀ clock lastBeat, watch = .checking clock lastBeat → clock = none ∧ lastBeat = none) :
    ({ s with watch } : Watchdog).Sound timeout := by
  refine { h with check := ?_, unfenced := fun _ => h.unfenced hwatch }
  intro clock lastBeat hchecking
  obtain ⟨rfl, rfl⟩ := hnext clock lastBeat hchecking
  refine ⟨?_, ?_, ?_⟩
  · intro time htime
    cases htime
  · intro last hlast
    cases hlast
  · intro last hlast
    cases hlast

theorem Sound.watchNext : (s.step timeout .watchNext).Sound timeout := by
  unfold step
  dsimp only
  split
  · rename_i hwatch
    refine h.moved (by rw [hwatch]; exact Watch.noConfusion) ?_
    intro clock lastBeat hchecking
    split at hchecking <;> cases hchecking
  · rename_i hwatch
    refine h.moved (by rw [hwatch]; exact Watch.noConfusion) ?_
    intro clock lastBeat hchecking
    cases hchecking
  · rename_i hwatch
    refine h.moved (by rw [hwatch]; exact Watch.noConfusion) ?_
    intro clock lastBeat hchecking
    split at hchecking
    · cases hchecking
      exact ⟨rfl, rfl⟩
    · cases hchecking
  · exact h

theorem Sound.watchClock : (s.step timeout .watchClock).Sound timeout := by
  unfold step
  dsimp only
  split
  · rename_i lastBeat hwatch
    have hcheck := h.check none lastBeat hwatch
    refine { h with check := ?_, unfenced := fun _ => h.unfenced (hwatch ▸ Watch.noConfusion) }
    intro clock last hchecking
    cases hchecking
    refine { hcheck with clock_le := fun time htime => ?_ }
    cases htime
    exact le_refl _
  · exact h

theorem Sound.watchLoad : (s.step timeout .watchLoad).Sound timeout := by
  unfold step
  dsimp only
  split
  · rename_i clock hwatch
    have hcheck := h.check clock none hwatch
    refine { h with
      late_sub := ?_, timed := ?_, stored := ?_, check := ?_
      unfenced := fun _ => h.unfenced (hwatch ▸ Watch.noConfusion) }
    · intro time htime
      cases htime
    · intro time hbeat
      split at hbeat
      · cases hbeat
      · exact h.timed time hbeat
    · intro time afterLoad hbeat
      split at hbeat
      · rename_i hstored
        cases hbeat
        exact h.stored time _ hstored
      · exact h.stored time afterLoad hbeat
    · intro clock' lastBeat hchecking
      cases hchecking
      refine ⟨hcheck.clock_le, fun last hlast time htime => ?_, fun last hlast time hbeat => ?_⟩
      · cases hlast
        exact .inl (h.completed_le time htime)
      · cases hlast
        split at hbeat
        · rename_i hstored
          cases hbeat
          exact (h.stored time _ hstored).ge
        · exact (h.stored time _ hbeat).ge
  · exact h

/-- A check that fires knows all heartbeats but the late ones to be old. -/
theorem Sound.beats_old {clock lastBeat : ℤ}
    (hwatch : s.watch = .checking (some clock) (some lastBeat))
    (hfires : s.Fires timeout clock lastBeat) (hlate : ∀ time ∈ s.late, timeout < s.now - time) :
    ∀ time ∈ s.completed, timeout < s.now - time := by
  intro time htime
  have hcheck := h.check _ _ hwatch
  have hclock := hcheck.clock_le clock rfl
  have hidle := hfires.2
  rcases hcheck.known lastBeat rfl time htime with hle | hmem
  · omega
  · exact hlate time hmem

theorem Sound.watchBeaten (hkeeps : s.MissesNoBeat timeout .watchBeaten) :
    (s.step timeout .watchBeaten).Sound timeout := by
  unfold step
  dsimp only
  split
  · rename_i clock lastBeat hwatch
    obtain ⟨hunfenced, hnone⟩ := h.unfenced (hwatch ▸ Watch.noConfusion)
    unfold finishCheck
    split
    · rename_i hfires
      rw [hunfenced, if_neg Bool.false_ne_true]
      refine { h with check := ?_, unfenced := fun hdone => absurd rfl hdone, stalled := ?_ }
      · intro clock lastBeat hchecking
        cases hchecking
      · refine ⟨by rw [hnone]; exact le_refl 1, fun fence hfence => ?_⟩
        rw [hnone] at hfence
        obtain rfl := mem_singleton.mp hfence
        exact h.beats_old hwatch hfires (hkeeps clock lastBeat hwatch hfires)
    · refine h.moved (hwatch ▸ Watch.noConfusion) ?_
      intro clock lastBeat hchecking
      cases hchecking
  · exact h

theorem Sound.step (step : WatchdogStep) (hkeeps : s.MissesNoBeat timeout step) :
    (s.step timeout step).Sound timeout := by
  cases step with
  | tick elapsed => exact h.tick elapsed
  | beatClock => exact h.beatClock
  | beatStore => exact h.beatStore
  | beatMark => exact h.beatMark
  | stop =>
    exact { h with check := fun clock last hwatch => { h.check clock last hwatch with } }
  | watchNext => exact h.watchNext
  | watchClock => exact h.watchClock
  | watchLoad => exact h.watchLoad
  | watchBeaten => exact h.watchBeaten hkeeps

/-- A check that misses a recent heartbeat fences a writer that is not stalled. -/
theorem Sound.fences_recent {step : WatchdogStep} (hmisses : ¬s.MissesNoBeat timeout step) :
    ¬(s.step timeout step).FencesStalled timeout := by
  cases step with
  | watchBeaten =>
    unfold MissesNoBeat at hmisses
    push Not at hmisses
    obtain ⟨clock, lastBeat, hwatch, hfires, time, htime, hrecent⟩ := hmisses
    obtain ⟨hunfenced, hnone⟩ := h.unfenced (hwatch ▸ Watch.noConfusion)
    unfold Watchdog.step
    rw [hwatch]
    dsimp only
    unfold finishCheck
    rw [if_pos hfires, hunfenced, if_neg Bool.false_ne_true]
    rintro ⟨-, hstalled⟩
    have hold := hstalled _ mem_cons_self time (h.late_sub time htime)
    dsimp only at hold
    omega
  | tick _ | beatClock | beatStore | beatMark | stop | watchNext | watchClock | watchLoad =>
    exact absurd trivial hmisses

end

/-- **The fence.** Along any interleaving of the watchdog with heartbeats, whenever it is started and
however long the first heartbeat takes, `on_fence` is called at most once and only for a writer whose
last heartbeat is older than the timeout, exactly if no check that fires has missed a heartbeat that
is not: one that was stored and completed between the two loads of the check. -/
theorem fences_stalled_iff (now : ℤ) (steps : List WatchdogStep) :
    (∀ n, ((steps.take n).foldl (step timeout) (start now)).FencesStalled timeout) ↔
      AllAlong (step timeout) (MissesNoBeat timeout) (start now) steps :=
  forall_take_iff (fun _ h => h.stalled) (fun _ a h hkeeps => h.step a hkeeps)
    (fun _ _ h hmisses => h.fences_recent hmisses) (sound_start now) steps

/-- The first heartbeat comes after two minutes of starting up, between the two loads of a check, and
the writer is fenced at once. -/
theorem first_beat_fenced :
    (([.tick 120000, .watchNext, .watchNext, .watchNext, .watchClock, .watchLoad, .beatClock,
      .beatStore, .beatMark, .watchBeaten] : List WatchdogStep).foldl (step 60000)
        (start 0)).fences = [⟨120000, [120000]⟩] ∧
    ¬(([.tick 120000, .watchNext, .watchNext, .watchNext, .watchClock, .watchLoad, .beatClock,
      .beatStore, .beatMark, .watchBeaten] : List WatchdogStep).foldl (step 60000)
        (start 0)).FencesStalled 60000 := by
  refine ⟨by decide, ?_⟩
  rintro ⟨-, hstalled⟩
  have hage := hstalled ⟨120000, [120000]⟩ (by decide) 120000 (by decide)
  dsimp only at hage
  omega

end Watchdog

end Xeqm.SharedChain
