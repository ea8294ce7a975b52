import Mathlib.Data.Int.DivMod
import Mathlib.Tactic.Linarith
import Mathlib.Tactic.Ring
import Xeqm.Cryptonote.HardFork

/-!
# Reward amounts

`reward_money`: an amount of coins with three more decimal places, kept as two
integers. The lemmas say what the operations do to the amount as one number of
thousandths. The source keeps both parts in machine words; the operations on words
give nothing where one of them overflows, and what the integers give elsewhere.
-/

namespace Xeqm.Rewards

open Cryptonote

/-- `BATCH_REWARD_FACTOR`. -/
def batchRewardFactor : ℤ := 1000

/-- `reward_money`. -/
structure RewardMoney where
  atomic : ℤ := 0
  subatomic : ℤ := 0
  deriving DecidableEq

namespace RewardMoney

variable (money : RewardMoney)

/-- `from_coin`. -/
def fromCoin (amount : ℤ) : RewardMoney := ⟨amount, 0⟩

/-- `from_db_amount`. -/
def fromDbAmount (amount : ℤ) (hfVersion : Hf) : RewardMoney :=
  if hfVersion ≥ Hf.hf22EthFixup then ⟨amount, 0⟩
  else ⟨amount.tdiv batchRewardFactor, amount.tmod batchRewardFactor⟩

/-- `from_intermediate`. -/
def fromIntermediate (amount : UInt64) : RewardMoney :=
  ⟨(amount.toNat : ℤ) / batchRewardFactor, (amount.toNat : ℤ) % batchRewardFactor⟩

/-- `negative`. -/
def negative : Bool := money.atomic < 0 || money.subatomic < 0

/-- `to_intermediate`: nothing for an amount that does not fit. -/
def toIntermediate : Option UInt64 :=
  if money.negative then none
  else if money.atomic < (2 ^ 64 - 1) / batchRewardFactor then
    some (UInt64.ofNat (money.atomic * batchRewardFactor + money.subatomic).toNat)
  else none

/-- `truncate`. -/
def truncate : RewardMoney := ⟨money.atomic, 0⟩

/-- `round`. -/
def round : RewardMoney :=
  if money.subatomic ≥ batchRewardFactor / 2 then ⟨money.atomic + 1, 0⟩
  else if money.subatomic ≤ -batchRewardFactor / 2 then ⟨money.atomic - 1, 0⟩
  else ⟨money.atomic, 0⟩

/-- `to_db_amount`. -/
def toDbAmount (hfVersion : Hf) : ℤ :=
  if hfVersion ≥ Hf.hf22EthFixup then money.round.atomic
  else money.atomic * batchRewardFactor + money.subatomic

/-- `to_coin` and `to_db_atomic`. -/
def toDbAtomic : ℤ := money.atomic

/-- `operator+=`. -/
def add (a b : RewardMoney) : RewardMoney :=
  let subatomic := a.subatomic + b.subatomic
  let atomic := a.atomic + b.atomic + subatomic.tdiv batchRewardFactor
  let subatomic := subatomic.tmod batchRewardFactor
  if atomic > 0 ∧ subatomic < 0 then ⟨atomic - 1, subatomic + batchRewardFactor⟩
  else if atomic < 0 ∧ subatomic > 0 then ⟨atomic + 1, subatomic - batchRewardFactor⟩
  else ⟨atomic, subatomic⟩

/-- `operator-`. -/
def sub (a b : RewardMoney) : RewardMoney := a.add ⟨-b.atomic, -b.subatomic⟩

/-- The unary `operator-`. -/
def neg : RewardMoney := ⟨-money.atomic, -money.subatomic⟩

/-- `operator/=`. -/
def div (n : ℤ) : RewardMoney :=
  ⟨money.atomic.tdiv n, (money.atomic.tmod n * 1000 + money.subatomic).tdiv n⟩

/-- `operator<=>`: the atomic part comes first. -/
def lt (a b : RewardMoney) : Bool :=
  a.atomic < b.atomic || (a.atomic = b.atomic && a.subatomic < b.subatomic)

/-- The amount in thousandths. -/
def milli : ℤ := money.atomic * batchRewardFactor + money.subatomic

@[simp]
theorem milli_fromCoin (amount : ℤ) : (fromCoin amount).milli = amount * 1000 := by
  simp [milli, fromCoin, batchRewardFactor]

@[simp]
theorem milli_zero : ({} : RewardMoney).milli = 0 := rfl

@[simp]
theorem milli_fromIntermediate (amount : UInt64) :
    (fromIntermediate amount).milli = amount.toNat := by
  simp only [milli, fromIntermediate, batchRewardFactor]
  omega

/-- Before the ETH fixup thousandths go into the database. -/
theorem toDbAmount_eq_milli {hfVersion : Hf} (hhf : hfVersion < Hf.hf22EthFixup) :
    money.toDbAmount hfVersion = money.milli := by
  rw [toDbAmount, if_neg (UInt8.not_le.mpr hhf), milli]

@[simp]
theorem milli_add (a b : RewardMoney) : (a.add b).milli = a.milli + b.milli := by
  have hsplit := Int.mul_tdiv_add_tmod (a.subatomic + b.subatomic) batchRewardFactor
  simp only [batchRewardFactor] at hsplit
  simp only [add]
  split_ifs <;> simp only [milli, batchRewardFactor] at * <;> linarith

@[simp]
theorem milli_sub (a b : RewardMoney) : (a.sub b).milli = a.milli - b.milli := by
  rw [sub, milli_add]
  simp only [milli, batchRewardFactor]
  ring

/-- An amount that is not negative, in its normal form. -/
structure Normal (money : RewardMoney) : Prop where
  atomic : 0 ≤ money.atomic
  subatomic : 0 ≤ money.subatomic
  lt : money.subatomic < 1000

theorem normal_fromCoin {amount : ℤ} (h : 0 ≤ amount) : (fromCoin amount).Normal :=
  ⟨h, le_refl _, by simp [fromCoin]⟩

theorem normal_fromIntermediate (amount : UInt64) : (fromIntermediate amount).Normal := by
  constructor <;> simp only [fromIntermediate, batchRewardFactor] <;> omega

/-- The two parts are of one sign and the smaller one is below one unit. -/
def Canonical : Prop :=
  -1000 < money.subatomic ∧ money.subatomic < 1000 ∧
    (0 ≤ money.atomic ∧ 0 ≤ money.subatomic ∨ money.atomic ≤ 0 ∧ money.subatomic ≤ 0)

@[simp]
theorem milli_neg : money.neg.milli = -money.milli := by
  simp only [milli, neg]
  ring

variable {money} {a b : RewardMoney} {n : ℤ}

theorem Normal.canonical (h : money.Normal) : money.Canonical :=
  ⟨by linarith [h.subatomic], h.lt, .inl ⟨h.atomic, h.subatomic⟩⟩

theorem Canonical.normal (h : money.Canonical) (hle : 0 ≤ money.milli) : money.Normal := by
  simp only [Canonical, milli, batchRewardFactor] at h hle
  constructor <;> omega

theorem Canonical.neg (h : money.Canonical) : money.neg.Canonical := by
  simp only [Canonical, RewardMoney.neg] at h ⊢
  omega

/-- A canonical amount is known from its thousandths. -/
theorem Canonical.eq (ha : a.Canonical) (hb : b.Canonical) (h : a.milli = b.milli) : a = b := by
  cases a
  cases b
  simp only [Canonical, milli, batchRewardFactor, mk.injEq] at ha hb h ⊢
  omega

/-- A canonical amount is in order with its thousandths. -/
theorem Canonical.lt_iff (ha : a.Canonical) (hb : b.Canonical) : a.lt b ↔ a.milli < b.milli := by
  simp only [Canonical, milli, batchRewardFactor, lt, Bool.or_eq_true, Bool.and_eq_true,
    decide_eq_true_eq] at ha hb ⊢
  omega

/-- The remainder has the sign of the whole part. -/
theorem canonical_split (x : ℤ) : Canonical ⟨x.tdiv 1000, x.tmod 1000⟩ := by
  unfold Canonical
  rcases le_total 0 x with h | h
  · rw [Int.tdiv_eq_ediv_of_nonneg h, Int.tmod_eq_emod_of_nonneg h]
    simp only
    omega
  · rw [← neg_neg x, Int.neg_tdiv, Int.neg_tmod, Int.tdiv_eq_ediv_of_nonneg (by omega),
      Int.tmod_eq_emod_of_nonneg (by omega)]
    simp only
    omega

/-- The carry and the borrow make every sum canonical. -/
theorem canonical_add (a b : RewardMoney) : (a.add b).Canonical := by
  have hcarry := canonical_split (a.subatomic + b.subatomic)
  unfold RewardMoney.add batchRewardFactor
  simp only [Canonical] at hcarry ⊢
  split_ifs <;> simp only <;> omega

/-- A difference is normal when nothing is missing. -/
theorem normal_sub (hle : b.milli ≤ a.milli) : (a.sub b).Normal := by
  have hcanonical : (a.sub b).Canonical := canonical_add _ _
  exact hcanonical.normal (by simpa using hle)

/-- A share in thousandths is the truncated share of the thousandths. -/
theorem Normal.milli_div (h : money.Normal) (hn : 0 < n) :
    (money.div n).milli = money.milli / n := by
  obtain ⟨hatomic, hsub, _⟩ := h
  have hrem := Int.emod_nonneg money.atomic hn.ne'
  have hsplit : money.milli =
      money.atomic % n * 1000 + money.subatomic + n * (money.atomic / n * 1000) := by
    rw [milli, batchRewardFactor]
    linarith [Int.mul_ediv_add_emod money.atomic n]
  rw [hsplit, Int.add_mul_ediv_left _ _ hn.ne', milli, div, Int.tdiv_eq_ediv_of_nonneg hatomic,
    Int.tmod_eq_emod_of_nonneg hatomic, Int.tdiv_eq_ediv_of_nonneg (by omega), add_comm]
  rfl

theorem Normal.div (h : money.Normal) (hn : 0 < n) : (money.div n).Normal := by
  obtain ⟨hatomic, hsub, hlt⟩ := h
  have hrem := Int.tmod_nonneg n hatomic
  have hrem' := Int.tmod_lt_of_pos money.atomic hn
  refine ⟨Int.tdiv_nonneg hatomic hn.le, Int.tdiv_nonneg (by omega) hn.le, ?_⟩
  simp only [RewardMoney.div]
  rw [Int.tdiv_eq_ediv_of_nonneg (by omega)]
  exact Int.ediv_lt_of_lt_mul hn (by nlinarith)

/-- Division is truncated division of the thousandths, whatever the signs. -/
theorem Canonical.div (h : money.Canonical) (hn : n ≠ 0) :
    (money.div n).Canonical ∧ (money.div n).milli = money.milli.tdiv n := by
  -- positive divisors first, where the sign of the amount is the sign of its share
  have hpos : ∀ n > 0, (money.div n).Canonical ∧ (money.div n).milli = money.milli.tdiv n := by
    intro n hn
    rcases le_total 0 money.milli with hle | hle
    · have hnormal := h.normal hle
      rw [hnormal.milli_div hn, Int.tdiv_eq_ediv_of_nonneg hle]
      exact ⟨(hnormal.div hn).canonical, rfl⟩
    · have hnormal := h.neg.normal (by simpa using hle)
      have hflip : money.div n = (money.neg.div n).neg := by
        simp only [RewardMoney.neg, RewardMoney.div, Int.neg_tmod, neg_mul, ← neg_add,
          Int.neg_tdiv, neg_neg]
      rw [hflip, milli_neg, hnormal.milli_div hn, milli_neg,
        ← Int.tdiv_eq_ediv_of_nonneg (Int.neg_nonneg.mpr hle), Int.neg_tdiv, neg_neg]
      exact ⟨(hnormal.div hn).canonical.neg, rfl⟩
  rcases lt_or_gt_of_ne hn with hn | hn
  · obtain ⟨hcanonical, hmilli⟩ := hpos (-n) (by omega)
    have hflip : money.div n = (money.div (-n)).neg := by
      simp only [RewardMoney.neg, RewardMoney.div, Int.tmod_neg, Int.tdiv_neg, neg_neg]
    rw [hflip, milli_neg, hmilli, Int.tdiv_neg, neg_neg]
    exact ⟨hcanonical.neg, rfl⟩
  · exact hpos n hn

/-- What fits as an intermediate amount is the amount. -/
theorem toIntermediate_spec {amount : UInt64}
    (hnormal : money.Normal) (hsome : money.toIntermediate = some amount) :
    (amount.toNat : ℤ) = money.milli := by
  obtain ⟨hatomic, hsub, hlt⟩ := hnormal
  unfold toIntermediate at hsome
  split at hsome
  · cases hsome
  split at hsome
  · rename_i hfit
    obtain rfl := Option.some.inj hsome
    simp only [batchRewardFactor] at hfit
    simp only [milli, batchRewardFactor, UInt64.toNat_ofNat']
    omega
  · cases hsome

/-- Shares of an amount add up to at most the amount. -/
theorem milli_div_le (hnormal : money.Normal) (hn : 0 < n) :
    (money.div n).milli * n ≤ money.milli := by
  rw [hnormal.milli_div hn]
  exact Int.ediv_mul_le _ hn.ne'

theorem canonical_fromCoin (amount : ℤ) : (fromCoin amount).Canonical := by
  simp only [Canonical, fromCoin]
  omega

theorem canonical_fromDbAmount (amount : ℤ) (hfVersion : Hf) :
    (fromDbAmount amount hfVersion).Canonical := by
  unfold fromDbAmount
  split
  · exact canonical_fromCoin amount
  · exact canonical_split amount

/-- Before the ETH fixup the database amount is read back as it was written. -/
theorem milli_fromDbAmount (amount : ℤ) {hfVersion : Hf} (hhf : hfVersion < Hf.hf22EthFixup) :
    (fromDbAmount amount hfVersion).milli = amount := by
  rw [fromDbAmount, if_neg (UInt8.not_le.mpr hhf), milli]
  exact Int.tdiv_mul_add_tmod _ _

/-! ## In machine words -/

/-- A result, if all values on the way to it are in the range of `int64_t`. The source has
undefined behaviour where one is not. -/
def inWords {α : Type} (values : List ℤ) (result : α) : Option α :=
  if ∀ x ∈ values, -2 ^ 63 ≤ x ∧ x < 2 ^ 63 then some result else none

theorem inWords_eq_some {α : Type} {values : List ℤ} {result result' : α} :
    inWords values result = some result' ↔
      (∀ x ∈ values, -2 ^ 63 ≤ x ∧ x < 2 ^ 63) ∧ result = result' := by
  simp [inWords]

/-- `operator+=` in machine words. What a borrow does to the atomic part is a step towards 0. -/
def checkedAdd (a b : RewardMoney) : Option RewardMoney :=
  let subatomic := a.subatomic + b.subatomic
  let atomic := a.atomic + b.atomic
  inWords [subatomic, atomic, atomic + subatomic.tdiv batchRewardFactor] (a.add b)

/-- The unary `operator-` in machine words. -/
def checkedNeg (money : RewardMoney) : Option RewardMoney :=
  inWords [-money.atomic, -money.subatomic] money.neg

/-- `operator-` in machine words. -/
def checkedSub (a b : RewardMoney) : Option RewardMoney := b.checkedNeg.bind a.checkedAdd

/-- `operator/=` in machine words. -/
def checkedDiv (money : RewardMoney) (n : ℤ) : Option RewardMoney :=
  let thousandths := money.atomic.tmod n * 1000
  inWords [money.atomic.tdiv n, thousandths, thousandths + money.subatomic,
    (thousandths + money.subatomic).tdiv n] (money.div n)

/-- `to_db_amount` in machine words. -/
def checkedDbAmount (money : RewardMoney) (hfVersion : Hf) : Option ℤ :=
  inWords (if hfVersion ≥ Hf.hf22EthFixup then [money.round.atomic]
    else [money.atomic * batchRewardFactor, money.milli]) (money.toDbAmount hfVersion)

/-- The amounts that the factories and the operators give in machine words. -/
inductive Built : RewardMoney → Prop
  | coin (amount : Int64) : Built (fromCoin amount.toInt)
  | dbAmount (amount : Int64) (hfVersion : Hf) : Built (fromDbAmount amount.toInt hfVersion)
  | intermediate (amount : UInt64) : Built (fromIntermediate amount)
  | add {a b c : RewardMoney} : Built a → Built b → a.checkedAdd b = some c → Built c
  | sub {a b c : RewardMoney} : Built a → Built b → a.checkedSub b = some c → Built c
  | neg {a c : RewardMoney} : Built a → a.checkedNeg = some c → Built c
  | div {a c : RewardMoney} {n : Int64} : Built a → n ≠ 0 → a.checkedDiv n.toInt = some c → Built c

variable {c : RewardMoney}

theorem eq_add_of_checkedAdd (h : a.checkedAdd b = some c) : c = a.add b :=
  (inWords_eq_some.mp h).2.symm

theorem eq_neg_of_checkedNeg (h : a.checkedNeg = some c) : c = a.neg :=
  (inWords_eq_some.mp h).2.symm

theorem eq_sub_of_checkedSub (h : a.checkedSub b = some c) : c = a.sub b := by
  obtain ⟨negated, hneg, hadd⟩ := Option.bind_eq_some_iff.mp h
  rw [eq_add_of_checkedAdd hadd, eq_neg_of_checkedNeg hneg]
  rfl

theorem eq_div_of_checkedDiv (h : a.checkedDiv n = some c) : c = a.div n :=
  (inWords_eq_some.mp h).2.symm

/-- Before the ETH fixup an amount has a database amount exactly if its thousandths fit. -/
theorem Canonical.checkedDbAmount_eq_some (h : money.Canonical) {hfVersion : Hf}
    (hhf : hfVersion < Hf.hf22EthFixup) {amount : ℤ} :
    money.checkedDbAmount hfVersion = some amount ↔
      (-2 ^ 63 ≤ money.milli ∧ money.milli < 2 ^ 63) ∧ money.milli = amount := by
  rw [checkedDbAmount, if_neg (UInt8.not_le.mpr hhf), inWords_eq_some, toDbAmount_eq_milli _ hhf]
  simp only [List.forall_mem_cons, List.not_mem_nil, false_implies, implies_true, and_true]
  -- the two parts are of one sign, so the product is between 0 and the thousandths
  refine and_congr_left' ⟨And.right, fun hmilli => ⟨?_, hmilli⟩⟩
  simp only [Canonical, milli, batchRewardFactor] at h hmilli ⊢
  omega

theorem toInt_ne_zero {n : Int64} (hn : n ≠ 0) : n.toInt ≠ 0 :=
  fun hzero => hn (Int64.toInt_inj.mp hzero)

theorem Built.canonical (h : Built money) : money.Canonical := by
  induction h with
  | coin amount => exact canonical_fromCoin _
  | dbAmount amount hfVersion => exact canonical_fromDbAmount _ hfVersion
  | intermediate amount => exact (normal_fromIntermediate amount).canonical
  | add _ _ hadd => exact eq_add_of_checkedAdd hadd ▸ canonical_add _ _
  | sub _ _ hsub => exact eq_sub_of_checkedSub hsub ▸ canonical_add _ _
  | neg _ hneg ih => exact eq_neg_of_checkedNeg hneg ▸ ih.neg
  | div _ hn hdiv ih => exact eq_div_of_checkedDiv hdiv ▸ (ih.div (toInt_ne_zero hn)).1

/-- Amounts are canonical and behave as the numbers of thousandths they stand for, as long as no
machine word overflows. -/
theorem built_as_milli (ha : Built a) (hb : Built b) {n : Int64} (hn : n ≠ 0) :
    a.Canonical ∧ (∀ c, a.checkedAdd b = some c → c.milli = a.milli + b.milli) ∧
    (∀ c, a.checkedSub b = some c → c.milli = a.milli - b.milli) ∧
    (∀ c, a.checkedNeg = some c → c.milli = -a.milli) ∧
    (∀ c, a.checkedDiv n.toInt = some c → c.milli = a.milli.tdiv n.toInt) ∧
    (a.lt b ↔ a.milli < b.milli) ∧ (a = b ↔ a.milli = b.milli) ∧
    ∀ hfVersion < Hf.hf22EthFixup,
      (∀ amount, a.checkedDbAmount hfVersion = some amount → fromDbAmount amount hfVersion = a) ∧
      (-2 ^ 63 ≤ a.milli → a.milli < 2 ^ 63 → (a.checkedDbAmount hfVersion).isSome) ∧
      ∀ amount : Int64, (fromDbAmount amount.toInt hfVersion).checkedDbAmount hfVersion =
        some amount.toInt := by
  have hcanonical := ha.canonical
  refine ⟨hcanonical, fun c hadd => ?_, fun c hsub => ?_, fun c hneg => ?_, fun c hdiv => ?_,
    hcanonical.lt_iff hb.canonical, ⟨congrArg _, hcanonical.eq hb.canonical⟩,
    fun hf hhf => ⟨fun amount hamount => ?_, fun hle hlt => ?_, fun amount => ?_⟩⟩
  · rw [eq_add_of_checkedAdd hadd, milli_add]
  · rw [eq_sub_of_checkedSub hsub, milli_sub]
  · rw [eq_neg_of_checkedNeg hneg, milli_neg]
  · rw [eq_div_of_checkedDiv hdiv, (hcanonical.div (toInt_ne_zero hn)).2]
  · obtain ⟨-, rfl⟩ := (hcanonical.checkedDbAmount_eq_some hhf).mp hamount
    exact (canonical_fromDbAmount _ hf).eq hcanonical (milli_fromDbAmount _ hhf)
  · rw [(hcanonical.checkedDbAmount_eq_some hhf).mpr ⟨⟨hle, hlt⟩, rfl⟩]
    rfl
  · rw [(canonical_fromDbAmount _ hf).checkedDbAmount_eq_some hhf, milli_fromDbAmount _ hhf]
    exact ⟨⟨amount.le_toInt, amount.toInt_lt⟩, rfl⟩

/-- Five coins, and a debt of one and a half, shared by -2. -/
theorem built_as_milli_five :
    let debt := fromDbAmount (-1500) Hf.hf21Eth
    ∃ rest share, (fromCoin 5).checkedAdd debt = some rest ∧ rest.milli = 3500 ∧
      debt.checkedDiv (-2) = some share ∧ share.milli = 750 ∧
      debt.checkedDbAmount Hf.hf21Eth = some (-1500) := by
  intro debt
  have hdebt : Built debt := .dbAmount (-1500) Hf.hf21Eth
  obtain ⟨-, hadd, -⟩ := built_as_milli (.coin 5) hdebt (n := 1) (by decide)
  obtain ⟨-, -, -, -, hdiv, -, -, hdb⟩ := built_as_milli hdebt hdebt (n := -2) (by decide)
  have hrest : (fromCoin 5).checkedAdd debt = some ⟨3, 500⟩ := by decide
  have hshare : debt.checkedDiv (-2) = some ⟨0, 750⟩ := by decide
  exact ⟨_, _, hrest, (hadd _ hrest).trans (by decide), hshare, (hdiv _ hshare).trans (by decide),
    (hdb Hf.hf21Eth (by decide)).2.2 (-1500)⟩

/-- The database amount of 2 ^ 62 coins overflows before the ETH fixup, and what two's complement
leaves of it is read back as nothing. -/
theorem fromDbAmount_overflow :
    Built (fromCoin (2 ^ 62)) ∧ (fromCoin (2 ^ 62)).checkedDbAmount Hf.hf21Eth = none ∧
      fromDbAmount (Int64.ofInt ((fromCoin (2 ^ 62)).toDbAmount Hf.hf21Eth)).toInt Hf.hf21Eth =
        fromCoin 0 :=
  ⟨(by decide +kernel : (2 ^ 62 : Int64).toInt = 2 ^ 62) ▸ .coin (2 ^ 62), by decide, by decide⟩

end RewardMoney

end Xeqm.Rewards
