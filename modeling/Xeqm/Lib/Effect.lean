import Mathlib.Order.Defs.Unbundled

/-!
# Computations with state and exceptions

Rules for what every run of an `EStateM` computation does to its state. A
computation that throws keeps the writes it made before, so a rule speaks about
the state a run ends in, whether it returns or throws.
-/

namespace Xeqm.Lib

open List

variable {ε σ α β : Type} {r : EStateM.Result ε σ α}

/-- The state a run ends in, by returning or by throwing. -/
def finalState : EStateM.Result ε σ α → σ
  | .ok _ s => s
  | .error _ s => s

@[simp]
theorem finalState_ok (a : α) (s : σ) : finalState (.ok a s : EStateM.Result ε σ α) = s := rfl

@[simp]
theorem finalState_error (e : ε) (s : σ) : finalState (.error e s : EStateM.Result ε σ α) = s := rfl

/-- Whether a run returns. -/
def returns : EStateM.Result ε σ α → Bool
  | .ok _ _ => true
  | .error _ _ => false

/-- A run that returns ends in the state it returns with. -/
theorem eq_ok_of_returns (h : returns r = true) :
    ∃ a, r = .ok a (finalState r) := by
  cases r with
  | ok a => exact ⟨a, rfl⟩
  | error => cases h

/-- The value a run returns. -/
def returned : EStateM.Result ε σ α → Option α
  | .ok a _ => some a
  | .error _ _ => none

/-- The exception a run ends with. -/
def thrown : EStateM.Result ε σ α → Option ε
  | .ok _ _ => none
  | .error e _ => some e

variable {e : ε}

/-- A run that throws ends in the state it throws with. -/
theorem eq_error_of_thrown (h : thrown r = some e) : r = .error e (finalState r) := by
  cases r with
  | ok => cases h
  | error =>
    cases h
    rfl

@[simp]
theorem pure_run (a : α) (s : σ) : (pure a : EStateM ε σ α) s = .ok a s := rfl

@[simp]
theorem throw_run (e : ε) (s : σ) : (throw e : EStateM ε σ α) s = .error e s := rfl

@[simp]
theorem get_bind_run (f : σ → EStateM ε σ β) (s : σ) :
    ((get : EStateM ε σ σ) >>= f) s = f s s := rfl

@[simp]
theorem modify_run (g : σ → σ) (s : σ) : (modify g : EStateM ε σ PUnit) s = .ok ⟨⟩ (g s) := rfl

@[simp]
theorem modify_bind_run (g : σ → σ) (f : PUnit → EStateM ε σ β) (s : σ) :
    ((modify g : EStateM ε σ PUnit) >>= f) s = f ⟨⟩ (g s) := rfl

@[simp]
theorem throw_bind_run (e : ε) (f : α → EStateM ε σ β) (s : σ) :
    ((throw e : EStateM ε σ α) >>= f) s = .error e s := rfl

variable {m : EStateM ε σ α} {f : α → EStateM ε σ β} {s s' : σ} {a : α}

/-- A sequence goes on from where its first part returns. -/
theorem bind_run_of_ok (h : m s = .ok a s') : (m >>= f) s = f a s' := by
  change EStateM.bind m f s = f a s'
  rw [EStateM.bind, h]

/-- A sequence ends where its first part throws. -/
theorem bind_run_of_error (h : m s = .error e s') : (m >>= f) s = .error e s' := by
  change EStateM.bind m f s = .error e s'
  rw [EStateM.bind, h]

variable {handler : ε → EStateM ε σ α} {m m' : EStateM ε σ α}

/-- A guarded computation that returns is not handled. -/
theorem tryCatch_run_of_ok (h : m s = .ok a s') : (tryCatch m handler) s = .ok a s' := by
  change EStateM.tryCatch m handler s = .ok a s'
  delta EStateM.tryCatch
  simp only [h]

/-- The handler goes on from where the guarded computation throws. -/
theorem tryCatch_run_of_error (h : m s = .error e s') : (tryCatch m handler) s = handler e s' := by
  change EStateM.tryCatch m handler s = handler e s'
  delta EStateM.tryCatch
  simp only [h]
  rfl

/-- Returning a value afterwards does not change the state a run ends in. -/
@[simp]
theorem finalState_bind_pure (m : EStateM ε σ α) (b : β) (s : σ) :
    finalState ((m >>= fun _ => pure b) s) = finalState (m s) := by
  change finalState (EStateM.bind m (fun _ => EStateM.pure b) s) = _
  unfold EStateM.bind
  cases m s <;> rfl

/-- A sequence ends where its first part throws or where its second part ends. -/
theorem finalState_bind {P : σ → Prop} (hfirst : P (finalState (m s)))
    (hsecond : ∀ a s', m s = .ok a s' → P (finalState (f a s'))) :
    P (finalState ((m >>= f) s)) := by
  cases hrun : m s with
  | ok a s' =>
    rw [bind_run_of_ok hrun]
    exact hsecond a s' hrun
  | error =>
    rw [bind_run_of_error hrun]
    rw [hrun] at hfirst
    exact hfirst

/-- Every run of `m` relates the state it starts in to the state it ends in. -/
def Keeps (R : σ → σ → Prop) (m : EStateM ε σ α) : Prop := ∀ s, R s (finalState (m s))

namespace Keeps

variable {R : σ → σ → Prop}

theorem pure [Std.Refl R] {a : α} : Keeps R (Pure.pure a : EStateM ε σ α) :=
  fun s => Std.Refl.refl s

theorem throw [Std.Refl R] {e : ε} : Keeps R (MonadExcept.throw e : EStateM ε σ α) :=
  fun s => Std.Refl.refl s

theorem modify {f : σ → σ} (h : ∀ s, R s (f s)) : Keeps R (modify f : EStateM ε σ PUnit) := h

/-- Sequencing composes what the two parts do, the first one in a given state. -/
theorem bind_at [IsTrans σ R] (hm : R s (finalState (m s))) (hf : ∀ a, Keeps R (f a)) :
    R s (finalState ((m >>= f) s)) := by
  apply finalState_bind hm
  intro a s' hrun
  rw [hrun] at hm
  exact IsTrans.trans _ _ _ hm (hf a s')

/-- Sequencing composes what the two parts do. -/
theorem bind [IsTrans σ R] (hm : Keeps R m) (hf : ∀ a, Keeps R (f a)) :
    Keeps R (m >>= f) := fun s => bind_at (hm s) hf

section

variable {c : Prop} [Decidable c] {a : α}

theorem ite (h : c → Keeps R m)
    (h' : ¬ c → Keeps R m') : Keeps R (if c then m else m') := by
  split
  · exact h ‹c›
  · exact h' ‹¬ c›

theorem ite_pure [Std.Refl R] (h : c → Keeps R m) : Keeps R (if c then m else Pure.pure a) :=
  ite h fun _ => pure

theorem pure_ite [Std.Refl R] (h : ¬ c → Keeps R m) : Keeps R (if c then Pure.pure a else m) :=
  ite (fun _ => pure) h

end

/-- Reading the state relates the start of a run to what it does with that state. -/
theorem get_bind {f : σ → EStateM ε σ β} (h : ∀ s, R s (finalState (f s s))) :
    Keeps R (MonadState.get >>= f) := h

theorem read {f : σ → EStateM ε σ β} (h : ∀ s, Keeps R (f s)) : Keeps R (MonadState.get >>= f) :=
  get_bind fun s => h s s

theorem tryCatch [IsTrans σ R] (hm : Keeps R m) (hhandler : ∀ e, Keeps R (handler e)) :
    Keeps R (MonadExcept.tryCatch m handler) := by
  intro s
  have hfirst := hm s
  change R s (finalState (EStateM.tryCatch m handler s))
  delta EStateM.tryCatch
  cases hrun : m s with
  | ok =>
    simpa [hrun] using hfirst
  | error e =>
    rw [hrun] at hfirst
    exact IsTrans.trans _ _ _ hfirst (hhandler e _)

theorem forM [Std.Refl R] [IsTrans σ R] {l : List α} {f : α → EStateM ε σ PUnit}
    (h : ∀ a ∈ l, Keeps R (f a)) : Keeps R (l.forM f) := by
  induction l with
  | nil => exact .pure
  | cons a _ ih =>
    exact .bind (h a mem_cons_self) fun _ => ih fun b hb => h b (mem_cons_of_mem a hb)

/-- A weaker relation is kept as well. -/
theorem mono {R' : σ → σ → Prop} (h : Keeps R m) (hR : ∀ s s', R s s' → R' s s') :
    Keeps R' m := fun s => hR _ _ (h s)

/-- What a run that returns did. -/
theorem of_ok (h : Keeps R m) (hrun : m s = .ok a s') : R s s' := by
  have := h s
  rwa [hrun] at this

end Keeps

/-- The parts of a sequence that returns return. -/
theorem bind_eq_ok_iff {s'' : σ} {b : β} :
    (m >>= f) s = .ok b s'' ↔ ∃ a s', m s = .ok a s' ∧ f a s' = .ok b s'' := by
  change EStateM.bind m f s = .ok b s'' ↔ _
  unfold EStateM.bind
  cases m s with
  | ok a s' =>
    constructor
    · intro h
      exact ⟨a, s', rfl, h⟩
    · rintro ⟨_, _, heq, h⟩
      cases heq
      exact h
  | error => simp

/-- The parts of a sequence without state that returns return. -/
theorem except_bind_eq_ok_iff {x : Except ε α} {f : α → Except ε β} {b : β} :
    (x >>= f) = .ok b ↔ ∃ a, x = .ok a ∧ f a = .ok b := by
  cases x with
  | ok a =>
    constructor
    · exact fun h => ⟨a, rfl, h⟩
    · rintro ⟨_, heq, h⟩
      cases heq
      exact h
  | error =>
    constructor
    · intro h
      cases h
    · rintro ⟨_, heq, _⟩
      cases heq

/-! ## Two runs side by side -/

/-- Two results with the same value, or the same exception, in related states. -/
inductive ResultRel (S : σ → σ → Prop) : EStateM.Result ε σ α → EStateM.Result ε σ α → Prop
  | ok {s s' : σ} (a : α) (h : S s s') : ResultRel S (.ok a s) (.ok a s')
  | error {s s' : σ} (e : ε) (h : S s s') : ResultRel S (.error e s) (.error e s')

/-- Started in related states, the two computations end the same way in related
states. -/
def Lockstep (S : σ → σ → Prop) (m m' : EStateM ε σ α) : Prop :=
  ∀ s s', S s s' → ResultRel S (m s) (m' s')

namespace Lockstep

variable {S : σ → σ → Prop}

theorem pure (a : α) : Lockstep S (Pure.pure a : EStateM ε σ α) (Pure.pure a) :=
  fun _ _ h => .ok a h

theorem throw (e : ε) : Lockstep S (MonadExcept.throw e : EStateM ε σ α) (MonadExcept.throw e) :=
  fun _ _ h => .error e h

theorem modify {f f' : σ → σ} (hf : ∀ s s', S s s' → S (f s) (f' s')) :
    Lockstep S (modify f : EStateM ε σ PUnit) (modify f') := by
  intro s s' h
  exact .ok _ (hf s s' h)

/-- Where one run returns, the other one does. -/
theorem of_ok (h : Lockstep S m m') {t : σ} (hs : S s s') (hrun : m s = .ok a t) :
    ∃ t', m' s' = .ok a t' ∧ S t t' := by
  have := h s s' hs
  rw [hrun] at this
  generalize m' s' = r at this
  cases this with
  | ok _ ht => exact ⟨_, rfl, ht⟩

/-- Where one run throws, the other one does. -/
theorem of_error (h : Lockstep S m m') {t : σ} (hs : S s s') (hrun : m s = .error e t) :
    ∃ t', m' s' = .error e t' ∧ S t t' := by
  have := h s s' hs
  rw [hrun] at this
  generalize m' s' = r at this
  cases this with
  | error _ ht => exact ⟨_, rfl, ht⟩

theorem bind {f' : α → EStateM ε σ β} (hm : Lockstep S m m') (hf : ∀ a, Lockstep S (f a) (f' a)) :
    Lockstep S (m >>= f) (m' >>= f') := by
  intro s s' h
  cases hrun : m s with
  | ok a t =>
    obtain ⟨t', hrun', ht⟩ := hm.of_ok h hrun
    rw [bind_run_of_ok hrun, bind_run_of_ok hrun']
    exact hf a t t' ht
  | error e =>
    obtain ⟨t', hrun', ht⟩ := hm.of_error h hrun
    rw [bind_run_of_error hrun, bind_run_of_error hrun']
    exact .error e ht

/-- Reading the state hands related states to what follows. -/
theorem get_bind {f f' : σ → EStateM ε σ β}
    (hf : ∀ s s', S s s' → ResultRel S (f s s) (f' s' s')) :
    Lockstep S (MonadState.get >>= f) (MonadState.get >>= f') := hf

theorem ite {c : Prop} [Decidable c] {n n' : EStateM ε σ α} (h : c → Lockstep S m m')
    (h' : ¬ c → Lockstep S n n') : Lockstep S (if c then m else n) (if c then m' else n') := by
  split
  · exact h ‹c›
  · exact h' ‹¬ c›

theorem forM {l : List α} {f f' : α → EStateM ε σ PUnit} (h : ∀ a ∈ l, Lockstep S (f a) (f' a)) :
    Lockstep S (l.forM f) (l.forM f') := by
  induction l with
  | nil => exact .pure _
  | cons a _ ih =>
    exact .bind (h a mem_cons_self) fun _ => ih fun b hb => h b (mem_cons_of_mem a hb)

end Lockstep

end Xeqm.Lib
