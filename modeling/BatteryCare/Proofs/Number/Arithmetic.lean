import BatteryCare.Proofs.Number.Rounding
import Mathlib.Algebra.Order.Floor.Semifield

/-!
# The operations as rounded exact ones

Each operation on finite singles is the exact operation on their values, rounded once. Whole numbers
of at most 24 places have an exact single, so counts and stored words go in and out unchanged, and
`round` moves a number that is not negative by a half at most.
-/

namespace BatteryCare

namespace Single

variable {x y : Single}

/-! ## Arithmetic -/

theorem add_eq_rounded (hx : x.isFinite) (hy : y.isFinite) :
    x + y = rounded (x.value + y.value) := by
  obtain ⟨a, ha, rfl⟩ := eq_finite hx
  obtain ⟨b, hb, rfl⟩ := eq_finite hy
  change nearest (a + b) 1 = _
  rw [nearest_eq_rounded _ Nat.one_pos, value_finite, value_finite, ← add_div, Int.cast_add,
    Nat.cast_one, one_mul]

@[simp] theorem isFinite_neg : (-x).isFinite = x.isFinite := by
  cases x <;> rfl

@[simp] theorem value_neg : (-x).value = -x.value := by
  cases x with
  | nan => exact neg_zero.symm
  | infinity _ => exact neg_zero.symm
  | finite a ha =>
    change ((-a : Int) : ℚ) / one = -(a / one)
    rw [Int.cast_neg, neg_div]

protected theorem sub_eq_add_neg (x y : Single) : x - y = x + -y := rfl

theorem sub_eq_rounded (hx : x.isFinite) (hy : y.isFinite) :
    x - y = rounded (x.value - y.value) := by
  rw [Single.sub_eq_add_neg, add_eq_rounded hx (by rwa [isFinite_neg]), value_neg, sub_eq_add_neg]

theorem mul_eq_rounded (hx : x.isFinite) (hy : y.isFinite) :
    x * y = rounded (x.value * y.value) := by
  obtain ⟨a, ha, rfl⟩ := eq_finite hx
  obtain ⟨b, hb, rfl⟩ := eq_finite hy
  change nearest (a * b) one = _
  rw [nearest_eq_rounded _ (by decide), value_finite, value_finite, div_mul_div_comm, Int.cast_mul]

theorem div_eq_rounded (hx : x.isFinite) (hy : y.isFinite) (hne : y.value ≠ 0) :
    x / y = rounded (x.value / y.value) := by
  obtain ⟨a, ha, rfl⟩ := eq_finite hx
  obtain ⟨b, hb, rfl⟩ := eq_finite hy
  have hb0 : b ≠ 0 := by
    rintro rfl
    exact hne (by rw [value_finite, Int.cast_zero, zero_div])
  change (if b = 0 then _ else nearest (a * b.sign * one) b.natAbs) = _
  rw [if_neg hb0, nearest_eq_rounded _ (Int.natAbs_pos.mpr hb0), value_finite, value_finite]
  have hmag : (b.natAbs : ℚ) ≠ 0 := Nat.cast_ne_zero.mpr (Int.natAbs_ne_zero.mpr hb0)
  have hsign : (b.sign : ℚ) * b = b.natAbs := by
    rw [Nat.cast_natAbs]
    exact_mod_cast Int.sign_mul_self b
  congr 1
  rw [div_div_div_cancel_right₀ one_pos.ne', Int.cast_mul, Int.cast_mul, Int.cast_natCast,
    mul_div_mul_right _ _ one_pos.ne', div_eq_div_iff hmag (Int.cast_ne_zero.mpr hb0), mul_assoc,
    hsign]

theorem abs_eq (hx : x.isFinite) : x.abs.isFinite ∧ x.abs.value = |x.value| := by
  obtain ⟨a, ha, rfl⟩ := eq_finite hx
  refine ⟨rfl, ?_⟩
  change ((a.natAbs : Int) : ℚ) / one = |(a : ℚ) / one|
  rw [abs_div, abs_of_pos one_pos, Int.natCast_natAbs, Int.cast_abs]

/-! ## Literals -/

theorem ofNat_eq_rounded (n : Nat) : ofNat n = rounded n := by
  rw [ofNat, nearest_eq_rounded _ Nat.one_pos, Int.cast_mul, Nat.cast_one, one_mul,
    Int.cast_natCast, Int.cast_natCast, mul_div_cancel_right₀ _ one_pos.ne']

theorem ofDecimal_eq_rounded (digits places : Nat) :
    ofDecimal digits true places = rounded (digits / 10 ^ places) := by
  have hpow : 0 < Nat.pow 10 places := Nat.pow_pos (by decide)
  rw [ofDecimal, if_pos rfl, nearest_eq_rounded _ hpow, Int.cast_mul, Int.cast_natCast,
    Int.cast_natCast, mul_div_mul_right _ _ one_pos.ne', Nat.pow_eq, Nat.cast_pow, Nat.cast_ofNat]

/-! ## Whole numbers -/

theorem representable_mul_one {n : Nat} (h : n < digitLimit) : Representable (n * one) := by
  have hone : n * one = n <<< 149 := by
    rw [one, Nat.shiftLeft_eq, Nat.shiftLeft_eq, Nat.one_mul]
  refine ⟨?_, n, 149, h, hone⟩
  calc n * one < digitLimit * one := Nat.mul_lt_mul_of_pos_right h (by decide)
    _ ≤ rangeLimit := by decide

/-- A whole number of at most 24 places is exact. -/
theorem ofNat_exact {n : Nat} (h : n < digitLimit) : (ofNat n).isFinite ∧ (ofNat n).value = n := by
  have hrep : Representable (n * one : Int).natAbs := by
    rw [Int.natAbs_mul, Int.natAbs_natCast, Int.natAbs_natCast]
    exact representable_mul_one h
  rw [ofNat, nearest_one hrep]
  refine ⟨rfl, ?_⟩
  rw [value_finite, Int.cast_mul, Int.cast_natCast, Int.cast_natCast,
    mul_div_cancel_right₀ _ one_pos.ne']

theorem zero_exact : isFinite 0 ∧ value 0 = 0 := by
  obtain ⟨hfin, hval⟩ := ofNat_exact (n := 0) (by decide)
  exact ⟨hfin, hval.trans Nat.cast_zero⟩

theorem one_exact : isFinite 1 ∧ value 1 = 1 := by
  obtain ⟨hfin, hval⟩ := ofNat_exact (n := 1) (by decide)
  exact ⟨hfin, hval.trans Nat.cast_one⟩

theorem two_exact : isFinite 2 ∧ value 2 = 2 := by
  obtain ⟨hfin, hval⟩ := ofNat_exact (n := 2) (by decide)
  exact ⟨hfin, hval.trans Nat.cast_ofNat⟩

theorem hundred_exact : isFinite 100 ∧ value 100 = 100 := by
  obtain ⟨hfin, hval⟩ := ofNat_exact (n := 100) (by decide)
  exact ⟨hfin, hval.trans Nat.cast_ofNat⟩

/-- Rounding stays within whole numbers. -/
theorem rounded_between (q : ℚ) (lo hi : Nat) (hlo : lo < digitLimit) (hhi : hi < digitLimit)
    (hle : lo ≤ q) (hge : q ≤ hi) :
    (rounded q).isFinite ∧ lo ≤ (rounded q).value ∧ (rounded q).value ≤ hi := by
  obtain ⟨hlofin, hloval⟩ := ofNat_exact hlo
  obtain ⟨hhifin, hhival⟩ := ofNat_exact hhi
  have hlower : ofNat lo ≤ rounded q := le_rounded hlofin (by rwa [hloval])
  have hupper : rounded q ≤ ofNat hi := rounded_le hhifin (by rwa [hhival])
  have hfin := isFinite_of_between hlower hupper hlofin hhifin
  rw [le_iff_value hlofin hfin, hloval] at hlower
  rw [le_iff_value hfin hhifin, hhival] at hupper
  exact ⟨hfin, hlower, hupper⟩

theorem toNatUpTo_eq (hx : x.isFinite) (limit : Nat) :
    x.toNatUpTo limit = min ⌊x.value⌋₊ limit := by
  obtain ⟨a, ha, rfl⟩ := eq_finite hx
  rw [value_finite, ← Int.floor_toNat, Rat.floor_intCast_div_natCast]
  rfl

theorem toNatUpTo_le (x : Single) (limit : Nat) : x.toNatUpTo limit ≤ limit := by
  cases x with
  | nan => exact Nat.zero_le limit
  | infinity negative => cases negative <;> simp [toNatUpTo]
  | finite a ha => exact Nat.min_le_right _ _

/-- A number that is not negative goes to the whole number nearest to it, a half upwards. -/
theorem round_eq_ofNat (hx : x.isFinite) (h : 0 ≤ x.value) :
    x.round = ofNat ⌊x.value + 1 / 2⌋₊ := by
  obtain ⟨a, ha, rfl⟩ := eq_finite hx
  have ha0 : 0 ≤ a := by
    rw [value_finite, div_nonneg_iff] at h
    rcases h with ⟨h, -⟩ | ⟨-, h⟩
    · exact_mod_cast h
    · exact absurd h one_pos.not_ge
  obtain ⟨n, rfl⟩ := Int.eq_ofNat_of_zero_le ha0
  have hhalf : ((n : Int) : ℚ) / one + 1 / 2
      = ((2 * n + one : Nat) : ℚ) / ((2 * one : Nat) : ℚ) := by
    rw [Int.cast_natCast, div_add_div _ _ one_pos.ne' two_ne_zero, Nat.cast_add, Nat.cast_mul,
      Nat.cast_mul, Nat.cast_ofNat]
    ring
  rw [value_finite, hhalf, Nat.floor_div_eq_div, ofNat]
  change nearest (Int.sign n * ((2 * n + one) / (2 * one) : Nat) * one) 1 = _
  rcases Nat.eq_zero_or_pos n with rfl | hpos
  · rw [Nat.mul_zero, Nat.zero_add, Nat.div_eq_of_lt (by decide)]
    rfl
  · rw [Int.sign_eq_one_of_pos (by omega), Int.one_mul]

theorem abs_floor_add_half_sub_le {q : ℚ} (h : 0 ≤ q) : |(⌊q + 1 / 2⌋₊ : ℚ) - q| ≤ 1 / 2 := by
  have hle := Nat.floor_le (show 0 ≤ q + 1 / 2 by linarith)
  have hlt := Nat.lt_floor_add_one (q + 1 / 2)
  rw [abs_le]
  constructor
  · linarith
  · linarith

/-- **A number that is not negative is rounded to a whole number within a half of it.** -/
theorem round_near (hx : x.isFinite) (h : 0 ≤ x.value) {limit : Nat} (hle : x.value ≤ limit) :
    ∃ n ≤ limit, x.round = ofNat n ∧ |(n : ℚ) - x.value| ≤ 1 / 2 := by
  refine ⟨_, ?_, round_eq_ofNat hx h, abs_floor_add_half_sub_le h⟩
  refine Nat.le_of_lt_succ ((Nat.floor_lt (by linarith)).mpr ?_)
  rw [Nat.cast_succ]
  linarith

theorem toNatUpTo_ofNat {n limit : Nat} (hn : n < digitLimit) (hle : n ≤ limit) :
    (ofNat n).toNatUpTo limit = n := by
  obtain ⟨hfin, hval⟩ := ofNat_exact hn
  rw [toNatUpTo_eq hfin, hval, Nat.floor_natCast, Nat.min_eq_left hle]

end Single

end BatteryCare
