import Mathlib.Data.List.Basic

/-!
# Runs with an exact condition

A system takes one step after another. Where the steps that keep a property are known exactly, so
are the runs along which the property holds all the time.
-/

namespace Xeqm.Lib

variable {S A : Type*}

/-- Every step of a run meets a condition in the state that it is taken from. -/
def AllAlong (run : S → A → S) (Keeps : S → A → Prop) : S → List A → Prop
  | _, [] => True
  | s, a :: steps => Keeps s a ∧ AllAlong run Keeps (run s a) steps

instance decidableAllAlong (run : S → A → S) (Keeps : S → A → Prop)
    [∀ s a, Decidable (Keeps s a)] : ∀ s steps, Decidable (AllAlong run Keeps s steps)
  | _, [] => isTrue trivial
  | s, a :: steps =>
    haveI := decidableAllAlong run Keeps (run s a) steps
    inferInstanceAs (Decidable (_ ∧ _))

variable {run : S → A → S} {Keeps : S → A → Prop} {Inv P : S → Prop} {s : S}

/-- Two conditions that agree where an invariant holds are met along the same runs. -/
theorem allAlong_congr {Keeps' : S → A → Prop} (hkeep : ∀ s a, Inv s → Inv (run s a))
    (hiff : ∀ s a, Inv s → (Keeps s a ↔ Keeps' s a)) (hs : Inv s) (steps : List A) :
    AllAlong run Keeps s steps ↔ AllAlong run Keeps' s steps := by
  induction steps generalizing s with
  | nil => exact Iff.rfl
  | cons a _ ih => exact and_congr (hiff s a hs) (ih (hkeep s a hs))

/-- A condition carries over to the run of a related system. -/
theorem AllAlong.related {S' : Type*} {run' : S' → A → S'} {Keeps' : S' → A → Prop}
    {R : S → S' → Prop} (hstep : ∀ s s' a, R s s' → R (run s a) (run' s' a))
    (hkeeps : ∀ s s' a, R s s' → Keeps s a → Keeps' s' a) {s' : S'} (hR : R s s')
    {steps : List A} (h : AllAlong run Keeps s steps) : AllAlong run' Keeps' s' steps := by
  induction steps generalizing s s' with
  | nil => trivial
  | cons a _ ih => exact ⟨hkeeps s s' a hR h.1, ih (hstep s s' a hR) h.2⟩

theorem allAlong_append {steps later : List A} :
    AllAlong run Keeps s (steps ++ later) ↔
      AllAlong run Keeps s steps ∧ AllAlong run Keeps (steps.foldl run s) later := by
  induction steps generalizing s with
  | nil => exact (and_iff_right trivial).symm
  | cons a _ ih => exact (and_congr_right fun _ => ih).trans and_assoc.symm

/-- An invariant that the steps of a run keep holds at its end. -/
theorem AllAlong.foldl (hkeep : ∀ s a, Inv s → Keeps s a → Inv (run s a)) (hs : Inv s)
    {steps : List A} (h : AllAlong run Keeps s steps) : Inv (steps.foldl run s) := by
  induction steps generalizing s with
  | nil => exact hs
  | cons a _ ih => exact ih (hkeep s a hs h.1) h.2

/-- Along a run of allowed steps, a property holds all the time exactly if every step meets the
condition, when such a step keeps an invariant that implies the property and any other step ends
the property. -/
theorem AllAlong.forall_take_iff {Allowed : S → A → Prop} (himp : ∀ s, Inv s → P s)
    (hkeep : ∀ s a, Inv s → Allowed s a → Keeps s a → Inv (run s a))
    (hbreak : ∀ s a, Inv s → Allowed s a → ¬Keeps s a → ¬P (run s a)) (hs : Inv s)
    {steps : List A} (hallowed : AllAlong run Allowed s steps) :
    (∀ n, P ((steps.take n).foldl run s)) ↔ AllAlong run Keeps s steps := by
  induction steps generalizing s with
  | nil =>
    refine iff_of_true (fun n => ?_) trivial
    rw [List.take_nil]
    exact himp s hs
  | cons a _ ih =>
    constructor
    · intro hall
      have hone : Keeps s a := by
        by_contra hnot
        exact hbreak s a hs hallowed.1 hnot (hall 1)
      exact ⟨hone, (ih (hkeep s a hs hallowed.1 hone) hallowed.2).mp (fun n => hall (n + 1))⟩
    · rintro ⟨hone, hrest⟩ n
      cases n with
      | zero => exact himp s hs
      | succ n => exact (ih (hkeep s a hs hallowed.1 hone) hallowed.2).mpr hrest n

/-- The same where every step is allowed. -/
theorem forall_take_iff (himp : ∀ s, Inv s → P s)
    (hkeep : ∀ s a, Inv s → Keeps s a → Inv (run s a))
    (hbreak : ∀ s a, Inv s → ¬Keeps s a → ¬P (run s a)) (hs : Inv s) (steps : List A) :
    (∀ n, P ((steps.take n).foldl run s)) ↔ AllAlong run Keeps s steps := by
  have hallowed (s : S) (steps : List A) : AllAlong run (fun _ _ => True) s steps := by
    induction steps generalizing s with
    | nil => trivial
    | cons a _ ih => exact ⟨trivial, ih (run s a)⟩
  exact AllAlong.forall_take_iff himp (fun s a hinv _ => hkeep s a hinv)
    (fun s a hinv _ => hbreak s a hinv) hs (hallowed s steps)

end Xeqm.Lib
