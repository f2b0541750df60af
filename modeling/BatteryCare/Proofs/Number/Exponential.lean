import BatteryCare.Number.Exponential
import BatteryCare.Proofs.Number.Arithmetic
import Mathlib.Tactic.NormNum

/-!
# The exponential stays between zero and two

Taking out a multiple of the logarithm of two leaves an argument of at most a half
(`reduce_within`). From there every intermediate result is small, whatever the argument was, so
bounds on the magnitude carry through the rational approximation (`expOfNonpos_between`). The bounds
allow each operation an error of `1 / 100000`, far more than it makes. In exact numbers the
approximation is `1 + r + r * c / (2 - c)` for what is left of the argument, `r`, and a `c` very
close to `r - r ^ 2 / 6` (`fraction_close`).
-/

namespace BatteryCare

namespace Single

variable {x y : Single} {a b : ℚ}

/-- A finite single of magnitude `b` at most. -/
def Within (b : ℚ) (x : Single) : Prop := x.isFinite ∧ |x.value| ≤ b

theorem rounded_close {q : ℚ} (h : |q| < 256) :
    (rounded q).isFinite ∧ |(rounded q).value - q| ≤ 1 / 100000 := by
  obtain ⟨hfin, hnear⟩ := rounded_near (k := 8) (by decide) (h.trans_le (by norm_num))
  exact ⟨hfin, hnear.trans (by norm_num)⟩

theorem within_rounded {q : ℚ} (hb : b < 256) (h : |q| ≤ b) :
    Within (b + 1 / 100000) (rounded q) := by
  obtain ⟨hfin, hnear⟩ := rounded_close (h.trans_lt hb)
  refine ⟨hfin, ?_⟩
  calc |(rounded q).value| = |q + ((rounded q).value - q)| := by rw [add_sub_cancel]
    _ ≤ |q| + |(rounded q).value - q| := abs_add_le _ _
    _ ≤ b + 1 / 100000 := add_le_add h hnear

theorem Within.mono (h : Within a x) (hab : a ≤ b) : Within b x := ⟨h.1, h.2.trans hab⟩

theorem Within.neg (h : Within a x) : Within a (-x) := by
  refine ⟨by rw [isFinite_neg]; exact h.1, ?_⟩
  rw [value_neg, abs_neg]
  exact h.2

/-! ## Operations on numbers of known magnitude

The result has a known magnitude again, and is close to the exact one. -/

theorem Within.magnitude_add_le (hx : Within a x) (hy : Within b y) : |x.value + y.value| ≤ a + b :=
  (abs_add_le x.value y.value).trans (add_le_add hx.2 hy.2)

theorem Within.magnitude_mul_le (hx : Within a x) (hy : Within b y) :
    |x.value * y.value| ≤ a * b := by
  rw [abs_mul]
  exact mul_le_mul hx.2 hy.2 (abs_nonneg _) ((abs_nonneg _).trans hx.2)

theorem Within.magnitude_div_le (hx : Within a x) (hb : 0 < b) (hle : b ≤ y.value) :
    |x.value / y.value| ≤ a / b := by
  rw [abs_div, abs_of_pos (hb.trans_le hle)]
  exact div_le_div₀ ((abs_nonneg _).trans hx.2) hx.2 hb hle

theorem Within.add (hx : Within a x) (hy : Within b y) (hab : a + b < 256) :
    Within (a + b + 1 / 100000) (x + y) := by
  rw [add_eq_rounded hx.1 hy.1]
  exact within_rounded hab (hx.magnitude_add_le hy)

theorem Within.add_close (hx : Within a x) (hy : Within b y) (hab : a + b < 256) :
    |(x + y).value - (x.value + y.value)| ≤ 1 / 100000 := by
  rw [add_eq_rounded hx.1 hy.1]
  exact (rounded_close ((hx.magnitude_add_le hy).trans_lt hab)).2

theorem Within.sub (hx : Within a x) (hy : Within b y) (hab : a + b < 256) :
    Within (a + b + 1 / 100000) (x - y) := hx.add hy.neg hab

theorem Within.sub_close (hx : Within a x) (hy : Within b y) (hab : a + b < 256) :
    |(x - y).value - (x.value - y.value)| ≤ 1 / 100000 := by
  have h := hx.add_close hy.neg hab
  rwa [value_neg, ← sub_eq_add_neg] at h

theorem Within.mul (hx : Within a x) (hy : Within b y) (hab : a * b < 256) :
    Within (a * b + 1 / 100000) (x * y) := by
  rw [mul_eq_rounded hx.1 hy.1]
  exact within_rounded hab (hx.magnitude_mul_le hy)

theorem Within.mul_close (hx : Within a x) (hy : Within b y) (hab : a * b < 256) :
    |(x * y).value - x.value * y.value| ≤ 1 / 100000 := by
  rw [mul_eq_rounded hx.1 hy.1]
  exact (rounded_close ((hx.magnitude_mul_le hy).trans_lt hab)).2

theorem Within.div (hx : Within a x) (hy : y.isFinite) (hb : 0 < b) (hle : b ≤ y.value)
    (hab : a / b < 256) : Within (a / b + 1 / 100000) (x / y) := by
  rw [div_eq_rounded hx.1 hy (hb.trans_le hle).ne']
  exact within_rounded hab (hx.magnitude_div_le hb hle)

theorem Within.div_close (hx : Within a x) (hy : y.isFinite) (hb : 0 < b) (hle : b ≤ y.value)
    (hab : a / b < 256) : |(x / y).value - x.value / y.value| ≤ 1 / 100000 := by
  rw [div_eq_rounded hx.1 hy (hb.trans_le hle).ne']
  exact (rounded_close ((hx.magnitude_div_le hb hle).trans_lt hab)).2

theorem ofNat_within {n : Nat} (h : n < digitLimit) : Within n (ofNat n) := by
  obtain ⟨hfin, hval⟩ := ofNat_exact h
  exact ⟨hfin, by rw [hval, abs_of_nonneg (Nat.cast_nonneg n)]⟩

/-- A decimal literal below 128 stands for a number very close to what it says. -/
theorem decimal_between (digits places : Nat) {lo hi : ℚ}
    (hsize : (digits / 10 ^ places : ℚ) < 128)
    (hlo : lo + 1 / 100000 ≤ digits / 10 ^ places)
    (hhi : (digits / 10 ^ places : ℚ) + 1 / 100000 ≤ hi) :
    (ofDecimal digits true places).isFinite ∧ lo ≤ (ofDecimal digits true places).value
      ∧ (ofDecimal digits true places).value ≤ hi := by
  rw [ofDecimal_eq_rounded]
  obtain ⟨hfin, hnear⟩ := rounded_near (q := digits / 10 ^ places) (k := 7) (by decide) (by
    rw [abs_of_nonneg (by positivity)]
    exact hsize.trans_le (by norm_num))
  have herror : (2 ^ 7 / 2 ^ 25 : ℚ) ≤ 1 / 100000 := by norm_num
  rw [abs_le] at hnear
  exact ⟨hfin, by linarith [hnear.1], by linarith [hnear.2]⟩

theorem within_decimal (digits places : Nat) (hb : b ≤ 1)
    (h : (digits / 10 ^ places : ℚ) + 1 / 100000 ≤ b) :
    Within b (ofDecimal digits true places) := by
  have hnonneg : (0 : ℚ) ≤ digits / 10 ^ places := by positivity
  have hlow : -b + 1 / 100000 ≤ digits / 10 ^ places := by linarith
  obtain ⟨hfin, hlo, hhi⟩ := decimal_between digits places (by linarith) hlow h
  exact ⟨hfin, abs_le.mpr ⟨hlo, hhi⟩⟩

theorem lnTwoHigh_between :
    lnTwoHigh.isFinite ∧ 0.6931 ≤ lnTwoHigh.value ∧ lnTwoHigh.value ≤ 0.6932 :=
  decimal_between 693145751953125 15 (by norm_num) (by norm_num) (by norm_num)

theorem within_lnTwoHigh : Within 0.6932 lnTwoHigh :=
  within_decimal 693145751953125 15 (by norm_num) (by norm_num)

theorem invLnTwo_between :
    invLnTwo.isFinite ∧ 1.4426 ≤ invLnTwo.value ∧ invLnTwo.value ≤ 1.4428 :=
  decimal_between 144269502162933349609375 23 (by norm_num) (by norm_num) (by norm_num)

theorem within_lnTwoLow : Within 0.00002 lnTwoLow :=
  within_decimal 142860676533018704503775 29 (by norm_num) (by norm_num)

theorem within_expFirst : Within 0.167 expFirst :=
  within_decimal 16666625440 11 (by norm_num) (by norm_num)

theorem within_expSecond : Within 0.003 expSecond :=
  (within_decimal 27667332906 13 (by norm_num) (by norm_num)).neg

/-! ## Taking out the logarithm of two -/

theorem within_count {n : Nat} (hn : n ≤ 150) : Within 150 (ofNat n) :=
  (ofNat_within (Nat.lt_of_le_of_lt hn (by decide))).mono (by exact_mod_cast hn)

theorem within_argument (hx : x.isFinite) (hlo : -104 ≤ x.value) (hhi : x.value ≤ 0) :
    Within 104 x := ⟨hx, abs_le.mpr ⟨hlo, by linarith⟩⟩

/-- The nearest multiple of the logarithm of two leaves less than a half of an argument. -/
theorem within_high {n : Nat} (hx : x.isFinite) (hlo : -104 ≤ x.value) (hn : n ≤ 150)
    (hless : n ≤ 0.51 - 1.4428 * x.value) (hmore : -0.51 - 1.4426 * x.value ≤ n) :
    Within 0.5 (x + ofNat n * lnTwoHigh) := by
  obtain ⟨-, hlnlo, hlnhi⟩ := lnTwoHigh_between
  have hnval := (ofNat_exact (n := n) (Nat.lt_of_le_of_lt hn (by decide))).2
  have hnonneg : (0 : ℚ) ≤ n := Nat.cast_nonneg n
  have hmullo := mul_le_mul_of_nonneg_left hlnlo hnonneg
  have hmulhi := mul_le_mul_of_nonneg_left hlnhi hnonneg
  have hfin := ((within_count hn).mul within_lnTwoHigh (by norm_num)).1
  have hnear := (within_count hn).mul_close within_lnTwoHigh (by norm_num)
  rw [hnval, abs_le] at hnear
  rw [add_eq_rounded hx hfin]
  refine (within_rounded (b := 0.499) (by norm_num) ?_).mono (by norm_num)
  rw [abs_le]
  constructor
  · linarith [hnear.1]
  · linarith [hnear.2]

/-- The multiple that is counted is the nearest one. -/
theorem halvings_between (hx : x.isFinite) (hlo : -104 ≤ x.value) (hhi : x.value ≤ -1) :
    (-(invLnTwo * x - 0.5)).toNatUpTo 150 ≤ 0.51 - 1.4428 * x.value
      ∧ -0.51 - 1.4426 * x.value ≤ (-(invLnTwo * x - 0.5)).toNatUpTo 150 := by
  obtain ⟨hinv, hinvlo, hinvhi⟩ := invLnTwo_between
  obtain ⟨hhalf, hhalflo, hhalfhi⟩ : isFinite 0.5 ∧ 0.499 ≤ value 0.5 ∧ value 0.5 ≤ 0.501 :=
    decimal_between 5 1 (by norm_num) (by norm_num) (by norm_num)
  have hinvwithin : Within 1.4428 invLnTwo := ⟨hinv, abs_le.mpr ⟨by linarith, hinvhi⟩⟩
  have hhalfwithin : Within 0.501 0.5 := ⟨hhalf, abs_le.mpr ⟨by linarith, hhalfhi⟩⟩
  have hargument := within_argument hx hlo (by linarith)
  have hmullo := mul_le_mul_of_nonpos_right hinvlo (show x.value ≤ 0 by linarith)
  have hmulhi := mul_le_mul_of_nonpos_right hinvhi (show x.value ≤ 0 by linarith)
  have hproduct := hinvwithin.mul hargument (by norm_num)
  have hnear := hinvwithin.mul_close hargument (by norm_num)
  have hfin' := (hproduct.sub hhalfwithin (by norm_num)).1
  have hnear' := hproduct.sub_close hhalfwithin (by norm_num)
  rw [abs_le] at hnear hnear'
  rw [toNatUpTo_eq (by rwa [isFinite_neg]), value_neg, Nat.cast_min, Nat.cast_ofNat]
  generalize (invLnTwo * x - 0.5).value = u at *
  have hfloor := Nat.floor_le (show 0 ≤ -u by linarith [hnear.2, hnear'.2])
  have hfloor' := Nat.lt_floor_add_one (-u)
  constructor
  · refine (min_le_left _ _).trans ?_
    linarith [hnear.1, hnear'.1]
  · refine le_min ?_ ?_
    · linarith [hnear.2, hnear'.2]
    · linarith

/-- An argument either stays as it is or loses the nearest multiple of the logarithm of two. -/
theorem reduce_eq (hx : x.isFinite) (hlo : -104 ≤ x.value) (hhi : x.value ≤ 0) :
    (x.reduce = ⟨0, x, 0⟩ ∧ -0.5 ≤ x.value)
      ∨ ∃ n ≤ 150, x.reduce = ⟨n, x + ofNat n * lnTwoHigh, -(ofNat n * lnTwoLow)⟩
        ∧ n ≤ 0.51 - 1.4428 * x.value ∧ -0.51 - 1.4426 * x.value ≤ n := by
  obtain ⟨hsmall, hsmalllo, hsmallhi⟩ : isFinite 0.3465735912322998046875
      ∧ 0.3465 ≤ value 0.3465735912322998046875 ∧ value 0.3465735912322998046875 ≤ 0.3466 :=
    decimal_between 3465735912322998046875 22 (by norm_num) (by norm_num) (by norm_num)
  obtain ⟨hone, honelo, honehi⟩ : isFinite 1.03972077369689941406250
      ∧ 1.0397 ≤ value 1.03972077369689941406250 ∧ value 1.03972077369689941406250 ≤ 1.0398 :=
    decimal_between 103972077369689941406250 23 (by norm_num) (by norm_num) (by norm_num)
  obtain ⟨habs, habsval⟩ := abs_eq hx
  rw [abs_of_nonpos hhi] at habsval
  rw [reduce]
  split
  · rename_i hle
    rw [le_iff_value habs hsmall, habsval] at hle
    exact Or.inl ⟨rfl, by linarith⟩
  · rename_i hgt
    rw [le_iff_value habs hsmall, habsval, not_le] at hgt
    refine Or.inr ?_
    dsimp only
    split
    · rename_i hle
      rw [le_iff_value habs hone, habsval] at hle
      exact ⟨1, by decide, rfl, by rw [Nat.cast_one]; linarith, by rw [Nat.cast_one]; linarith⟩
    · rename_i hbig
      rw [le_iff_value habs hone, habsval, not_le] at hbig
      exact ⟨_, toNatUpTo_le _ _, rfl, halvings_between hx hlo (by linarith)⟩

/-- **What is left of an argument is small.** -/
theorem reduce_within (hx : x.isFinite) (hlo : -104 ≤ x.value) (hhi : x.value ≤ 0) :
    Within 0.5 x.reduce.high ∧ Within 0.005 x.reduce.low := by
  rcases reduce_eq hx hlo hhi with ⟨heq, hle⟩ | ⟨n, hn, heq, hless, hmore⟩
  · rw [heq]
    refine ⟨⟨hx, ?_⟩, (ofNat_within (n := 0) (by decide)).mono (by norm_num)⟩
    rw [abs_of_nonpos hhi]
    linarith
  · rw [heq]
    exact ⟨within_high hx hlo hn hless hmore,
      ((within_count hn).mul within_lnTwoLow (by norm_num)).neg.mono (by norm_num)⟩

/-! ## The approximation -/

/-- The rational approximation, from the two parts of what is left of the argument. -/
def fraction (high low : Single) : Single :=
  let rest := high - low
  let square := rest * rest
  let remainder := rest - square * (expFirst + square * expSecond)
  1 + (rest * remainder / (2 - remainder) - low + high)

/-- The remainder of an argument is close to what a sixth of its square leaves of it. -/
theorem remainder_close {rest : Single} (hrest : Within 0.506 rest) :
    Within 0.56 (rest - rest * rest * (expFirst + rest * rest * expSecond))
      ∧ |(rest - rest * rest * (expFirst + rest * rest * expSecond)).value
          - (rest.value - rest.value ^ 2 / 6)| ≤ 0.0006 := by
  have hsquare : Within 0.258 (rest * rest) := (hrest.mul hrest (by norm_num)).mono (by norm_num)
  have hsquareval := hrest.mul_close hrest (by norm_num)
  generalize rest * rest = square at *
  have hlast : Within 0.002 (square * expSecond) :=
    (hsquare.mul within_expSecond (by norm_num)).mono (by norm_num)
  have hfactor : Within 0.17 (expFirst + square * expSecond) :=
    (within_expFirst.add hlast (by norm_num)).mono (by norm_num)
  have hfactorval := within_expFirst.add_close hlast (by norm_num)
  obtain ⟨-, hfirstlo, hfirsthi⟩ :
      expFirst.isFinite ∧ 0.16665 ≤ expFirst.value ∧ expFirst.value ≤ 0.16668 :=
    decimal_between 16666625440 11 (by norm_num) (by norm_num) (by norm_num)
  have hsixth : |(expFirst + square * expSecond).value - 1 / 6| ≤ 0.0021 := by
    rw [abs_le] at hfactorval ⊢
    constructor
    · linarith [hfactorval.1, (abs_le.mp hlast.2).1]
    · linarith [hfactorval.2, (abs_le.mp hlast.2).2]
  generalize expFirst + square * expSecond = factor at *
  have hproduct : Within 0.045 (square * factor) :=
    (hsquare.mul hfactor (by norm_num)).mono (by norm_num)
  have hproductval := hsquare.mul_close hfactor (by norm_num)
  generalize square * factor = product at *
  refine ⟨(hrest.sub hproduct (by norm_num)).mono (by norm_num), ?_⟩
  have hval := hrest.sub_close hproduct (by norm_num)
  -- the coefficient is not quite a sixth, and the square keeps that small
  have hpart : |square.value * (factor.value - 1 / 6)| ≤ 0.258 * 0.0021 := by
    rw [abs_mul]
    exact mul_le_mul hsquare.2 hsixth (abs_nonneg _) (by norm_num)
  rw [abs_le] at *
  constructor
  · nlinarith [hval.1, hproductval.2, hpart.2, hsquareval.2]
  · nlinarith [hval.2, hproductval.1, hpart.1, hsquareval.1]

/-- The quotient is the exact one for a divisor that is very close to what the remainder leaves of
two. -/
theorem quotient_close {rest remainder : Single} (hrest : Within 0.506 rest)
    (hremainder : Within 0.56 remainder) :
    ∃ c : ℚ, |c - remainder.value| ≤ 1 / 100000 ∧ Within 0.21 (rest * remainder / (2 - remainder))
      ∧ |(rest * remainder / (2 - remainder)).value - rest.value * c / (2 - c)| ≤ 0.00003 := by
  have hwithin : Within 2 (2 : Single) := ⟨two_exact.1, by rw [two_exact.2]; norm_num⟩
  have hdivisor := hwithin.sub_close hremainder (by norm_num)
  rw [two_exact.2] at hdivisor
  have hfin := (hwithin.sub hremainder (by norm_num)).1
  -- the divisor stays clear of zero
  have hlo : 1.4 ≤ (2 - remainder).value := by
    linarith [(abs_le.mp hdivisor).1, (abs_le.mp hremainder.2).2]
  have hproduct : Within 0.29 (rest * remainder) :=
    (hrest.mul hremainder (by norm_num)).mono (by norm_num)
  have hproductval := hrest.mul_close hremainder (by norm_num)
  have hquotval := hproduct.div_close hfin (by norm_num) hlo (by norm_num)
  refine ⟨2 - (2 - remainder).value, ?_,
    (hproduct.div hfin (by norm_num) hlo (by norm_num)).mono (by norm_num), ?_⟩
  · rw [abs_le] at hdivisor ⊢
    constructor
    · linarith [hdivisor.2]
    · linarith [hdivisor.1]
  · rw [sub_sub_cancel]
    generalize rest * remainder / (2 - remainder) = quot at *
    generalize rest * remainder = product at *
    generalize (2 - remainder).value = divisor at *
    have hpos : 0 < divisor := by linarith
    have hchange : |rest.value * (divisor - (2 - remainder.value))| ≤ 0.506 * (1 / 100000) := by
      rw [abs_mul]
      exact mul_le_mul hrest.2 hdivisor (abs_nonneg _) (by norm_num)
    have hmeant : |product.value / divisor - rest.value * (2 - divisor) / divisor| ≤ 0.00002 := by
      rw [← sub_div, abs_div, abs_of_pos hpos, div_le_iff₀ hpos]
      rw [abs_le] at hchange hproductval
      refine (abs_le.mpr ⟨?_, ?_⟩ : _ ≤ (0.00002 : ℚ)).trans (by linarith)
      · linarith [hchange.1, hproductval.1]
      · linarith [hchange.2, hproductval.2]
    exact (abs_sub_le _ _ _).trans ((add_le_add hquotval hmeant).trans (by norm_num))

/-- **The approximation in exact numbers.** -/
theorem fraction_close {high low : Single} (hhigh : Within 0.5 high) (hlow : Within 0.005 low) :
    ∃ r c : ℚ, |r - (high.value - low.value)| ≤ 1 / 100000 ∧ |r| ≤ 0.506
      ∧ |c - (r - r ^ 2 / 6)| ≤ 0.001 ∧ (fraction high low).isFinite
      ∧ |(fraction high low).value - (1 + r + r * c / (2 - c))| ≤ 0.0002 := by
  have hwithin : Within 1 (1 : Single) := ⟨one_exact.1, by rw [one_exact.2]; norm_num⟩
  have hrest : Within 0.506 (high - low) := (hhigh.sub hlow (by norm_num)).mono (by norm_num)
  have hrestval := hhigh.sub_close hlow (by norm_num)
  rw [fraction]
  generalize high - low = rest at *
  obtain ⟨hremainder, hremainderval⟩ := remainder_close hrest
  generalize rest - rest * rest * (expFirst + rest * rest * expSecond) = remainder at *
  obtain ⟨c, hc, hquot, hquotval⟩ := quotient_close hrest hremainder
  generalize rest * remainder / (2 - remainder) = quot at *
  have hdiff : Within 0.216 (quot - low) := (hquot.sub hlow (by norm_num)).mono (by norm_num)
  have hdiffval := hquot.sub_close hlow (by norm_num)
  have hsum : Within 0.72 (quot - low + high) :=
    (hdiff.add hhigh (by norm_num)).mono (by norm_num)
  have hsumval := hdiff.add_close hhigh (by norm_num)
  have hval := hwithin.add_close hsum (by norm_num)
  rw [one_exact.2] at hval
  refine ⟨rest.value, c, hrestval, hrest.2, ?_, (hwithin.add hsum (by norm_num)).1, ?_⟩
  · exact (abs_sub_le _ _ _).trans ((add_le_add hc hremainderval).trans (by norm_num))
  · rw [abs_le] at *
    constructor
    · linarith [hval.1, hsumval.1, hdiffval.1, hquotval.1, hrestval.2]
    · linarith [hval.2, hsumval.2, hdiffval.2, hquotval.2, hrestval.1]

theorem fraction_between {high low : Single} (hhigh : Within 0.5 high) (hlow : Within 0.005 low) :
    (fraction high low).isFinite ∧ 0 ≤ (fraction high low).value
      ∧ (fraction high low).value ≤ 2 := by
  obtain ⟨r, c, -, hr, hc, hfin, hval⟩ := fraction_close hhigh hlow
  have hsquare : r ^ 2 ≤ 0.506 ^ 2 := sq_le_sq' (abs_le.mp hr).1 (abs_le.mp hr).2
  have hcbound : |c| ≤ 0.56 := by
    rw [abs_le] at hc hr ⊢
    constructor
    · linarith [hc.1, hr.1]
    · linarith [hc.2, hr.2, sq_nonneg r]
  have hdivisor : 1.4 ≤ 2 - c := by linarith [(abs_le.mp hcbound).2]
  have hpos : 0 < 2 - c := by linarith
  have hquot : |r * c / (2 - c)| ≤ 0.21 := by
    rw [abs_div, abs_of_pos hpos, div_le_iff₀ hpos, abs_mul]
    have hproduct := mul_le_mul hr hcbound (abs_nonneg c) (by norm_num)
    linarith
  rw [abs_le] at hr hval hquot
  refine ⟨hfin, ?_, ?_⟩
  · linarith [hval.1, hr.1, hquot.1]
  · linarith [hval.2, hr.2, hquot.2]

theorem scaleDown_eq_rounded (hx : x.isFinite) (places : Nat) :
    x.scaleDown places = rounded (x.value / 2 ^ places) := by
  obtain ⟨a, ha, rfl⟩ := eq_finite hx
  have hpow : ((1 <<< places : Nat) : ℚ) = 2 ^ places := by
    rw [Nat.one_shiftLeft, Nat.cast_pow, Nat.cast_ofNat]
  rw [value_finite, div_div, mul_comm (one : ℚ), ← hpow]
  exact nearest_eq_rounded a (by rw [Nat.one_shiftLeft]; exact Nat.two_pow_pos places)

theorem scaleDown_between (hx : x.isFinite) (hlo : 0 ≤ x.value) (hhi : x.value ≤ 2) (places : Nat) :
    (x.scaleDown places).isFinite ∧ 0 ≤ (x.scaleDown places).value
      ∧ (x.scaleDown places).value ≤ 2 := by
  have hpow : (1 : ℚ) ≤ 2 ^ places := one_le_pow₀ (by norm_num)
  rw [scaleDown_eq_rounded hx]
  have hnonneg : 0 ≤ x.value / 2 ^ places := div_nonneg hlo (by linarith)
  have hle : x.value / 2 ^ places ≤ 2 := (div_le_self hlo hpow).trans hhi
  have h := rounded_between (x.value / 2 ^ places) 0 2 (by decide) (by decide)
    (by rwa [Nat.cast_zero]) (by rwa [Nat.cast_ofNat])
  rwa [Nat.cast_zero, Nat.cast_ofNat] at h

/-- An argument whose exponential is not cut to zero is not far off. -/
theorem neg_le_of_not_far (hx : x.isFinite) (h : x.value ≤ 0)
    (hfar : ¬ 103.97208404541015625 ≤ x.abs) : -104 ≤ x.value := by
  obtain ⟨hlast, -, hlasthi⟩ : isFinite 103.97208404541015625
      ∧ 103 ≤ value 103.97208404541015625 ∧ value 103.97208404541015625 ≤ 104 :=
    decimal_between 10397208404541015625 17 (by norm_num) (by norm_num) (by norm_num)
  obtain ⟨habs, habsval⟩ := abs_eq hx
  rw [abs_of_nonpos h] at habsval
  rw [le_iff_value hlast habs, habsval, not_le] at hfar
  linarith

/-- An argument that is only added to one is small. -/
theorem neg_le_of_tiny (hx : x.isFinite) (h : x.value ≤ 0) (htiny : x.abs ≤ 0.0001220703125) :
    -0.001 ≤ x.value := by
  obtain ⟨hlimit, -, hlimithi⟩ : isFinite 0.0001220703125
      ∧ 0 ≤ value 0.0001220703125 ∧ value 0.0001220703125 ≤ 0.001 :=
    decimal_between 1220703125 13 (by norm_num) (by norm_num) (by norm_num)
  obtain ⟨habs, habsval⟩ := abs_eq hx
  rw [abs_of_nonpos h] at habsval
  rw [le_iff_value habs hlimit, habsval] at htiny
  linarith

/-- **The exponential of a number that is not positive lies between zero and two.** -/
theorem expOfNonpos_between (hx : x.isFinite) (h : x.value ≤ 0) :
    x.expOfNonpos.isFinite ∧ 0 ≤ x.expOfNonpos.value ∧ x.expOfNonpos.value ≤ 2 := by
  rw [expOfNonpos]
  split
  · exact ⟨zero_exact.1, by rw [zero_exact.2], by rw [zero_exact.2]; norm_num⟩
  · rename_i hfar
    split
    · rename_i htiny
      have hlo := neg_le_of_tiny hx h htiny
      rw [add_eq_rounded one_exact.1 hx, one_exact.2]
      exact_mod_cast rounded_between (1 + x.value) 0 2 (by decide) (by decide)
        (by rw [Nat.cast_zero]; linarith) (by rw [Nat.cast_ofNat]; linarith)
    · obtain ⟨hhigh, hlow⟩ := reduce_within hx (neg_le_of_not_far hx h hfar) h
      obtain ⟨hfin, hlo, hhi⟩ := fraction_between hhigh hlow
      exact scaleDown_between hfin hlo hhi x.reduce.halvings

end Single

end BatteryCare
