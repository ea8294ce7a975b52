import Mathlib.Tactic.Ring

/-!
# Portable uniform draws

`common/random.cpp` turns the raw 64-bit outputs of a Mersenne twister into
uniform numbers below `n`: outputs at or above the largest multiple of `n` are
thrown away and the loop draws again. The twister itself comes from the
standard library (and from Boost, which implements the same generator), so it
is a parameter here, together with the one documented fact that makes the
rejection loop end.
-/

namespace Xeqm.Tools

/-- `rng.max()` of a 64-bit twister. -/
def rngMax : ℕ := 2 ^ 64 - 1

/-- The rejection loop: draw until an output falls below `limit`. `none` stands
for a loop that is still drawing after `fuel` outputs. -/
def drawBelow {σ : Type} (next : σ → UInt64 × σ) (limit : ℕ) : ℕ → σ → Option (ℕ × σ)
  | 0, _ => none
  | fuel + 1, state =>
    let (x, state) := next state
    if limit ≤ x.toNat then drawBelow next limit fuel state else some (x.toNat, state)

/-- `mt19937_64`: a seeded stream of 64-bit outputs. -/
structure Twister (σ : Type) where
  /-- The state a seed starts from. -/
  seeded : UInt64 → σ
  /-- The state a seed sequence of 32-bit words starts from. -/
  seededSeq : List UInt32 → σ
  /-- The next output and the state after it. -/
  next : σ → UInt64 × σ
  /-- How many outputs to wait at most for one in the lower half of the range. -/
  patience : σ → ℕ
  /-- Outputs in the lower half keep coming: the stream is equidistributed. -/
  lower_half : ∀ state, (drawBelow next (2 ^ 63) (patience state) state).isSome

/-- The largest multiple of `n` the loop accepts outputs below. -/
def secureMax (n : ℕ) : ℕ := rngMax - rngMax % n

/-- `uniform_distribution_portable`. `none` means that the call does not return,
which happens only for `n = 0`, where the source asserts. -/
def uniformDistributionPortable {σ : Type} (rng : Twister σ) (state : σ) (n : ℕ) :
    Option (ℕ × σ) :=
  (drawBelow rng.next (secureMax n) (rng.patience state) state).map
    (fun (x, state) => (x / (secureMax n / n), state))

/-- Whatever the loop returns lies below its limit. -/
theorem drawBelow_lt {σ : Type} {next : σ → UInt64 × σ} {limit fuel x : ℕ} {state state' : σ}
    (h : drawBelow next limit fuel state = some (x, state')) : x < limit := by
  induction fuel generalizing state with
  | zero => simp [drawBelow] at h
  | succ fuel ih =>
    simp only [drawBelow] at h
    split at h
    · exact ih h
    · cases h
      omega

/-- A higher limit accepts no later than a lower one. -/
theorem drawBelow_mono {σ : Type} {next : σ → UInt64 × σ} {limit limit' fuel : ℕ} {state : σ}
    (hle : limit ≤ limit') (h : (drawBelow next limit fuel state).isSome) :
    (drawBelow next limit' fuel state).isSome := by
  induction fuel generalizing state with
  | zero => simp [drawBelow] at h
  | succ fuel ih =>
    simp only [drawBelow] at h ⊢
    split
    · rw [if_pos (by omega)] at h
      exact ih h
    · rfl

variable {n : ℕ}

/-- The accepted range covers at least the lower half of the outputs. -/
theorem half_le_secureMax (hn : 0 < n) (hmax : n ≤ rngMax) : 2 ^ 63 ≤ secureMax n := by
  have hdiv := Nat.div_add_mod rngMax n
  have hmod := Nat.mod_lt rngMax hn
  have hquot : 1 ≤ rngMax / n := (Nat.one_le_div_iff hn).mpr hmax
  have hmul : n * 1 ≤ n * (rngMax / n) := Nat.mul_le_mul_left n hquot
  unfold secureMax rngMax at *
  omega

/-- The accepted range is `n` whole blocks of equal length. -/
theorem secureMax_eq : secureMax n = n * (rngMax / n) := by
  have hdiv := Nat.div_add_mod rngMax n
  unfold secureMax
  omega

/-- A draw among `n > 0` alternatives returns, and returns one of them. -/
theorem uniformDistributionPortable_spec {σ : Type} (rng : Twister σ) (state : σ)
    (hn : 0 < n) (hmax : n ≤ rngMax) :
    ∃ i state', uniformDistributionPortable rng state n = some (i, state') ∧ i < n := by
  have hsome := drawBelow_mono (half_le_secureMax hn hmax) (rng.lower_half state)
  obtain ⟨⟨x, state'⟩, hdraw⟩ := Option.isSome_iff_exists.mp hsome
  refine ⟨x / (secureMax n / n), state', ?_, ?_⟩
  · simp [uniformDistributionPortable, hdraw]
  · have hx := drawBelow_lt hdraw
    have hblock : secureMax n / n = rngMax / n := by
      rw [secureMax_eq, Nat.mul_div_cancel_left _ hn]
    rw [secureMax_eq] at hx
    rw [hblock]
    exact Nat.div_lt_of_lt_mul (by rwa [mul_comm] at hx)

end Xeqm.Tools
