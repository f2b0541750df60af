import BatteryCare.Proofs.Number.Exponential
import Mathlib.Analysis.Complex.ExponentialBounds

/-!
# The exponential is within one percent

`expOfNonpos x` is the rounding of a number within one percent of `e ^ x` (`expOfNonpos_near`).
Three errors add up to less than that: that of the rational approximation in exact numbers
(`approximation_near`), that of its roundings (`fraction_close`), and that of the multiple of the
logarithm of two, which is not taken out exactly (`reduce_close`). The halvings that bring the
multiple back are exact, until the last rounding.

A thirtieth between two arguments makes more than three percent, so the exponential keeps the order
of arguments that are so far apart (`expOfNonpos_mono`). It does so also where another multiple of
the logarithm of two is taken out of one than of the other.
-/

namespace BatteryCare

namespace Single

variable {x y : Single}

/-! ## The approximation in exact numbers -/

theorem abs_cast_le {q b : ℚ} (h : |q| ≤ b) : |(q : ℝ)| ≤ b := by
  exact_mod_cast h

theorem pow_between {r b : ℝ} (hr : |r| ≤ b) (n : Nat) : -b ^ n ≤ r ^ n ∧ r ^ n ≤ b ^ n := by
  rw [← abs_le, abs_pow]
  exact pow_le_pow_left₀ (abs_nonneg r) hr n

/-- The exponential series is known to four parts in ten thousand from its first five terms. -/
theorem series_near {r : ℝ} (hr : |r| ≤ 0.506) :
    |Real.exp r - (1 + r + r ^ 2 / 2 + r ^ 3 / 6 + r ^ 4 / 24)| ≤ 0.0004 := by
  have hbound := Real.exp_bound (hr.trans (by norm_num)) (show 0 < 5 by norm_num)
  have hsum : ∑ m ∈ Finset.range 5, r ^ m / m.factorial
      = 1 + r + r ^ 2 / 2 + r ^ 3 / 6 + r ^ 4 / 24 := by
    simp [Finset.sum_range_succ, Nat.factorial]
  have hpow : |r| ^ 5 ≤ 0.506 ^ 5 := pow_le_pow_left₀ (abs_nonneg r) hr 5
  rw [hsum] at hbound
  refine hbound.trans ?_
  norm_num [Nat.factorial] at hpow ⊢
  linarith

/-- **The approximation is within `0.0014` of the exponential**, whatever small error `c` has. -/
theorem approximation_near {r c : ℝ} (hr : |r| ≤ 0.506) (hc : |c - (r - r ^ 2 / 6)| ≤ 0.001) :
    |1 + r + r * c / (2 - c) - Real.exp r| ≤ 0.0014 := by
  have hseries := series_near hr
  obtain ⟨-, htwo⟩ := pow_between hr 2
  obtain ⟨hthreelo, hthree⟩ := pow_between hr 3
  obtain ⟨hfourlo, hfour⟩ := pow_between hr 4
  obtain ⟨hfivelo, hfive⟩ := pow_between hr 5
  obtain ⟨hsixlo, hsix⟩ := pow_between hr 6
  have htwolo := sq_nonneg r
  have hclo : c ≤ 0.56 := by linarith [(abs_le.mp hc).2, (abs_le.mp hr).2]
  obtain ⟨w, hw⟩ : ∃ w, w = r ^ 2 / 2 + r ^ 3 / 6 + r ^ 4 / 24 := ⟨_, rfl⟩
  have hwsum : |r + w| ≤ 0.66 := by
    rw [abs_le] at hr ⊢
    constructor
    · linarith [hr.1]
    · linarith [hr.2]
  -- with `c` as it is meant, quotient and series agree up to the fourth power
  have hsplit : r * c - w * (2 - c)
      = (c - (r - r ^ 2 / 6)) * (r + w) + (r ^ 5 / 72 - r ^ 6 / 144) := by
    rw [hw]
    ring
  have hchange : |(c - (r - r ^ 2 / 6)) * (r + w)| ≤ 0.001 * 0.66 := by
    rw [abs_mul]
    exact mul_le_mul hc hwsum (abs_nonneg _) (by norm_num)
  have hpos : 0 < 2 - c := by linarith
  have hquot : |r * c / (2 - c) - w| ≤ 0.001 := by
    rw [div_sub' hpos.ne', abs_div, abs_of_pos hpos, div_le_iff₀ hpos, mul_comm (2 - c), hsplit]
    rw [abs_le] at hchange
    refine (abs_le.mpr ⟨?_, ?_⟩ : _ ≤ (0.0014 : ℝ)).trans (by linarith)
    · linarith [hchange.1]
    · linarith [hchange.2]
  rw [abs_le] at hquot hseries ⊢
  constructor
  · linarith [hquot.1, hseries.2]
  · linarith [hquot.2, hseries.1]

/-! ## What is left of an argument -/

theorem decimal_near (digits places : Nat) (h : (digits / 10 ^ places : ℚ) < 1) :
    |(ofDecimal digits true places).value - digits / 10 ^ places| ≤ 1 / 2 ^ 25 := by
  rw [ofDecimal_eq_rounded]
  have hsize : |(digits / 10 ^ places : ℚ)| < 2 ^ 0 := by
    rw [abs_of_nonneg (by positivity), pow_zero]
    exact h
  simpa only [pow_zero] using (rounded_near (by decide) hsize).2

/-- The logarithm of two, to eight places. -/
def lnTwo : ℚ := 0.69314718

theorem lnTwoHigh_near : |lnTwoHigh.value - lnTwo| ≤ 0.000002 := by
  have h := decimal_near 693145751953125 15 (by norm_num)
  change |lnTwoHigh.value - _| ≤ _ at h
  rw [abs_le] at h ⊢
  unfold lnTwo
  constructor
  · linarith [h.1]
  · linarith [h.2]

theorem lnTwoLow_small : Within 0.000002 lnTwoLow := by
  have h := decimal_near 142860676533018704503775 29 (by norm_num)
  change |lnTwoLow.value - _| ≤ _ at h
  refine ⟨within_lnTwoLow.1, ?_⟩
  rw [abs_le] at h ⊢
  constructor
  · linarith [h.1]
  · linarith [h.2]

/-- **What is left of an argument has lost a multiple of the logarithm of two, and little else.** -/
theorem reduce_close (hx : x.isFinite) (hlo : -104 ≤ x.value) (hhi : x.value ≤ 0) :
    |x.reduce.high.value - x.reduce.low.value - (x.value + x.reduce.halvings * lnTwo)| ≤ 0.0007
      ∧ x.reduce.halvings ≤ 150 := by
  rcases reduce_eq hx hlo hhi with ⟨heq, -⟩ | ⟨n, hn, heq, -, -⟩
  · rw [heq]
    refine ⟨?_, Nat.zero_le 150⟩
    rw [zero_exact.2, Nat.cast_zero, zero_mul, sub_zero, add_zero, sub_self, abs_zero]
    norm_num
  · rw [heq]
    refine ⟨?_, hn⟩
    dsimp only
    have hnval := (ofNat_exact (n := n) (Nat.lt_of_le_of_lt hn (by decide))).2
    have hcount := within_count hn
    have hargument := within_argument hx hlo hhi
    have hmultiple := hcount.mul_close within_lnTwoHigh (by norm_num)
    have hsum := hargument.add_close (hcount.mul within_lnTwoHigh (by norm_num)) (by norm_num)
    have hrest := hcount.mul_close lnTwoLow_small (by norm_num)
    have hwhole : |(ofNat n).value * (lnTwoHigh.value - lnTwo)| ≤ 150 * 0.000002 := by
      rw [abs_mul]
      exact mul_le_mul hcount.2 lnTwoHigh_near (abs_nonneg _) (by norm_num)
    have hpart : |(ofNat n).value * lnTwoLow.value| ≤ 150 * 0.000002 := by
      rw [abs_mul]
      exact mul_le_mul hcount.2 lnTwoLow_small.2 (abs_nonneg _) (by norm_num)
    rw [value_neg]
    rw [hnval] at *
    rw [abs_le] at *
    constructor
    · linarith [hsum.1, hmultiple.1, hwhole.1, hrest.1, hpart.1]
    · linarith [hsum.2, hmultiple.2, hwhole.2, hrest.2, hpart.2]

theorem reduce_near (hx : x.isFinite) (hlo : -104 ≤ x.value) (hhi : x.value ≤ 0) :
    |((x.reduce.high.value - x.reduce.low.value : ℚ) : ℝ)
      - (x.value + x.reduce.halvings * Real.log 2)| ≤ 0.0008 := by
  obtain ⟨hreduce, hcount⟩ := reduce_close hx hlo hhi
  have hln := Real.log_two_gt_d9
  have hln' := Real.log_two_lt_d9
  have hcount' : (x.reduce.halvings : ℝ) ≤ 150 := by exact_mod_cast hcount
  have hnonneg : (0 : ℝ) ≤ x.reduce.halvings := Nat.cast_nonneg _
  replace hreduce := abs_cast_le hreduce
  unfold lnTwo at hreduce
  push_cast at hreduce ⊢
  rw [abs_le] at hreduce ⊢
  constructor
  · nlinarith [hreduce.1]
  · nlinarith [hreduce.2]

/-! ## The exponential -/

/-- A change of the argument by less than a thousandth changes the exponential by less than two. -/
theorem exp_near {s t : ℝ} (h : |s - t| ≤ 0.001) :
    |Real.exp s - Real.exp t| ≤ 0.002 * Real.exp t := by
  have hone := Real.abs_exp_sub_one_le (h.trans (by norm_num))
  have hsplit : Real.exp s - Real.exp t = Real.exp t * (Real.exp (s - t) - 1) := by
    rw [mul_sub, ← Real.exp_add, add_sub_cancel, mul_one]
  rw [hsplit, abs_mul, abs_of_pos (Real.exp_pos t), mul_comm]
  exact mul_le_mul_of_nonneg_right (by linarith) (Real.exp_pos t).le

/-- The rational approximation is within one percent of the exponential of what it stands for. -/
theorem fraction_near {high low : Single} {t : ℝ} (hhigh : Within 0.5 high)
    (hlow : Within 0.005 low)
    (ht : |((high.value - low.value : ℚ) : ℝ) - t| ≤ 0.0008) :
    (fraction high low).isFinite
      ∧ |((fraction high low).value : ℝ) - Real.exp t| ≤ 0.01 * Real.exp t := by
  obtain ⟨r, c, hr, hrsmall, hc, hfin, hval⟩ := fraction_close hhigh hlow
  refine ⟨hfin, ?_⟩
  replace hr := abs_cast_le hr
  replace hrsmall := abs_cast_le hrsmall
  replace hc := abs_cast_le hc
  replace hval := abs_cast_le hval
  push_cast at hr hrsmall hc hval ht
  have hclose : |(r : ℝ) - t| ≤ 0.001 :=
    (abs_sub_le _ _ _).trans ((add_le_add hr ht).trans (by norm_num))
  have hexp := exp_near hclose
  have hbelow := Real.add_one_le_exp t
  have happrox := approximation_near hrsmall hc
  rw [abs_le] at hval happrox hexp hclose hrsmall ⊢
  constructor
  · linarith [hval.1, happrox.1, hexp.1, hclose.2, hrsmall.1]
  · linarith [hval.2, happrox.2, hexp.2, hclose.2, hrsmall.1]

theorem one_add_near {t : ℝ} (ht : |t| ≤ 0.001) : |1 + t - Real.exp t| ≤ 0.01 * Real.exp t := by
  have hseries := Real.abs_exp_sub_one_sub_id_le (ht.trans (by norm_num))
  have hsq := (pow_between ht 2).2
  have hbelow := Real.add_one_le_exp t
  rw [abs_le] at hseries ht ⊢
  constructor
  · linarith [hseries.2, ht.1]
  · linarith [hseries.1, ht.1]

/-- Halving gives back what the multiple of the logarithm of two took away. -/
theorem halved_near {f : ℚ} {t : ℝ} {n : Nat}
    (h : |(f : ℝ) - Real.exp (t + n * Real.log 2)| ≤ 0.01 * Real.exp (t + n * Real.log 2)) :
    |((f / 2 ^ n : ℚ) : ℝ) - Real.exp t| ≤ 0.01 * Real.exp t := by
  have hpow : (0 : ℝ) < 2 ^ n := by positivity
  have hexp : Real.exp (t + n * Real.log 2) = Real.exp t * 2 ^ n := by
    rw [Real.exp_add, Real.exp_nat_mul, Real.exp_log (by norm_num)]
  have hquot : ((f / 2 ^ n : ℚ) : ℝ) - Real.exp t = (f - Real.exp t * 2 ^ n) / 2 ^ n := by
    push_cast
    field_simp
  rw [hexp] at h
  rw [hquot, abs_div, abs_of_pos hpow, div_le_iff₀ hpow, mul_assoc]
  exact h

theorem expOfNonpos_of_far (h : 103.97208404541015625 ≤ x.abs) : x.expOfNonpos = 0 := if_pos h

/-- **The exponential of a number that is not positive is rounded from a number within one percent
of it**, unless the argument is so far off that the result is zero. -/
theorem expOfNonpos_near (hx : x.isFinite) (h : x.value ≤ 0)
    (hfar : ¬ 103.97208404541015625 ≤ x.abs) :
    ∃ q : ℚ, x.expOfNonpos = rounded q
      ∧ |(q : ℝ) - Real.exp x.value| ≤ 0.01 * Real.exp x.value := by
  rw [expOfNonpos, if_neg hfar]
  split
  · rename_i htiny
    have hsmall : |x.value| ≤ 0.001 := abs_le.mpr ⟨neg_le_of_tiny hx h htiny, by linarith⟩
    refine ⟨1 + x.value, by rw [add_eq_rounded one_exact.1 hx, one_exact.2], ?_⟩
    replace hsmall := abs_cast_le hsmall
    push_cast at hsmall ⊢
    exact one_add_near hsmall
  · have hlo := neg_le_of_not_far hx h hfar
    obtain ⟨hhigh, hlow⟩ := reduce_within hx hlo h
    obtain ⟨hfin, hnear⟩ := fraction_near hhigh hlow (reduce_near hx hlo h)
    exact ⟨(fraction x.reduce.high x.reduce.low).value / 2 ^ x.reduce.halvings,
      scaleDown_eq_rounded hfin x.reduce.halvings, halved_near hnear⟩

theorem zero_le_expOfNonpos (hx : x.isFinite) (h : x.value ≤ 0) : 0 ≤ x.expOfNonpos := by
  obtain ⟨hfin, hlo, -⟩ := expOfNonpos_between hx h
  rwa [le_iff_value zero_exact.1 hfin, zero_exact.2]

/-- A thirtieth less makes the exponential more than three percent less. -/
theorem exp_le_of_far {s t : ℝ} (h : s + 1 / 30 ≤ t) : Real.exp s ≤ 0.968 * Real.exp t := by
  have hstep := Real.abs_exp_sub_one_sub_id_le (x := -(1 / 30)) (by norm_num [abs_le])
  have hfactor : Real.exp (-(1 / 30)) ≤ 0.968 := by linarith [(abs_le.mp hstep).2]
  calc Real.exp s ≤ Real.exp (-(1 / 30) + t) := Real.exp_le_exp.mpr (by linarith)
    _ = Real.exp (-(1 / 30)) * Real.exp t := Real.exp_add _ _
    _ ≤ 0.968 * Real.exp t := mul_le_mul_of_nonneg_right hfactor (Real.exp_pos t).le

/-- **The exponential keeps the order of arguments that are a thirtieth apart.** -/
theorem expOfNonpos_mono (hx : x.isFinite) (hy : y.isFinite) (hgap : x.value + 1 / 30 ≤ y.value)
    (h : y.value ≤ 0) : x.expOfNonpos ≤ y.expOfNonpos := by
  have hxneg : x.value ≤ 0 := by linarith
  by_cases hfar : 103.97208404541015625 ≤ x.abs
  · rw [expOfNonpos_of_far hfar]
    exact zero_le_expOfNonpos hy h
  · -- the greater argument is the one that is less far off
    have hfar' : ¬ 103.97208404541015625 ≤ y.abs := by
      intro hle
      refine hfar (Single.le_trans hle ?_)
      obtain ⟨hxabs, hxval⟩ := abs_eq hx
      obtain ⟨hyabs, hyval⟩ := abs_eq hy
      rw [le_iff_value hyabs hxabs, hxval, hyval, abs_of_nonpos h, abs_of_nonpos hxneg]
      linarith
    obtain ⟨p, hp, hpnear⟩ := expOfNonpos_near hx hxneg hfar
    obtain ⟨q, hq, hqnear⟩ := expOfNonpos_near hy h hfar'
    have hcast : ((x.value + 1 / 30 : ℚ) : ℝ) ≤ y.value := Rat.cast_le.mpr hgap
    push_cast at hcast
    have hexp := exp_le_of_far hcast
    have hpos := Real.exp_pos (y.value : ℝ)
    have hle : (p : ℝ) ≤ q := by
      linarith [(abs_le.mp hpnear).2, (abs_le.mp hqnear).1]
    rw [hp, hq]
    exact rounded_mono (by exact_mod_cast hle)

end Single

end BatteryCare
