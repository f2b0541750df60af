import BatteryCare.Number.Single
import Mathlib.Data.Rat.Floor
import Mathlib.Tactic.FieldSimp
import Mathlib.Tactic.Linarith
import Mathlib.Tactic.Positivity
import Mathlib.Tactic.Ring

/-!
# Exact, then rounded once

A finite single has an exact value, and every operation is the exact one on values followed by one
rounding (`value`, `rounded`). So what is known of rounding carries over to all operations: it keeps
the order (`rounded_mono`), leaves values of singles alone (`rounded_value`), and moves a number of
known size by a known part of that size at most (`rounded_near`).
-/

namespace BatteryCare

/-! ## Rounding to a whole number -/

/-- The rest of a quotient halfway between two whole numbers. -/
theorem two_mul_mod_of_half {num den m : Nat} (hden : 0 < den)
    (h : 2 * num = 2 * (den * m) + den) : 2 * (num % den) = den := by
  obtain ⟨rest, rfl⟩ : ∃ rest, num = rest + den * m := ⟨num - den * m, by omega⟩
  rw [Nat.add_mul_mod_self_left, Nat.mod_eq_of_lt (by omega)]
  omega

theorem roundHalfEven_mono {num num' den den' : Nat} (hden : 0 < den) (hden' : 0 < den')
    (h : num * den' ≤ num' * den) : roundHalfEven num den ≤ roundHalfEven num' den' := by
  by_contra hlt
  have hup := (@roundHalfEven_near num den hden).2
  have hdown := (@roundHalfEven_near num' den' hden').1
  have heven := @roundHalfEven_even_of_half num den
  have heven' := @roundHalfEven_even_of_half num' den'
  generalize roundHalfEven num den = m at *
  generalize roundHalfEven num' den' = m' at *
  have hsucc : m = m' + 1 := by
    have hle : den * den' * m ≤ den * den' * (m' + 1) := by nlinarith
    have := Nat.le_of_mul_le_mul_left hle (Nat.mul_pos hden hden')
    omega
  subst hsucc
  -- each rounding went as far as it can, so both quotients lie halfway, and one goes to the odd
  -- side
  have hhalf : 2 * num = 2 * (den * m') + den := by nlinarith
  have hhalf' : 2 * num' = 2 * (den' * m') + den' := by nlinarith
  have := heven (two_mul_mod_of_half hden hhalf)
  have := heven' (two_mul_mod_of_half hden' hhalf')
  omega

theorem le_roundHalfEven (n : Nat) {num den : Nat} (hden : 0 < den) (h : n * den ≤ num) :
    n ≤ roundHalfEven num den := by
  rw [← roundHalfEven_mul_left (n := n) hden]
  exact roundHalfEven_mono hden hden (Nat.mul_le_mul_right den h)

/-! ## Rounding to 24 places -/

theorem placesBelow_mono {m n : Nat} (h : m ≤ n) : placesBelow m ≤ placesBelow n := by
  rcases Nat.eq_zero_or_pos m with rfl | hpos
  · simp [placesBelow]
  · have hlog : m.log2 ≤ n.log2 :=
      (Nat.le_log2 (by omega)).mpr (Nat.le_trans (Nat.log2_self_le (by omega)) h)
    exact Nat.sub_le_sub_right hlog 23

/-- What is left of the leading places never passes 24 of them by more than a carry. -/
theorem roundHalfEven_le_digitLimit (num den : Nat) :
    roundHalfEven num (den <<< placesBelow (num / den)) ≤ digitLimit := by
  refine Nat.le_trans (roundHalfEven_le _ _) ?_
  rw [Nat.shiftLeft_eq, ← Nat.div_div_eq_div_mul, ← Nat.shiftRight_eq_div_pow]
  exact shiftRight_placesBelow_lt _

/-- Where places are cut, all of the leading 24 are in use. -/
theorem digitLimit_le_two_mul (num : Nat) {den : Nat} (hden : 0 < den)
    (hplaces : 0 < placesBelow (num / den)) :
    digitLimit ≤ 2 * roundHalfEven num (den <<< placesBelow (num / den)) := by
  have hlog : (num / den).log2 = 23 + placesBelow (num / den) := by
    rw [placesBelow] at hplaces ⊢
    omega
  have hne : num / den ≠ 0 := by
    intro hzero
    rw [hzero] at hplaces
    exact absurd hplaces (by decide)
  have hle : 2 ^ 23 * 2 ^ placesBelow (num / den) * den ≤ num := by
    rw [← Nat.pow_add, ← hlog]
    exact (Nat.le_div_iff_mul_le hden).mp (Nat.log2_self_le hne)
  have hshift : 0 < den <<< placesBelow (num / den) := by
    rw [Nat.shiftLeft_eq]
    exact Nat.mul_pos hden (Nat.two_pow_pos _)
  have hcut : 2 ^ 23 * den <<< placesBelow (num / den) ≤ num := by
    rw [Nat.shiftLeft_eq, Nat.mul_comm den, ← Nat.mul_assoc]
    exact hle
  exact Nat.mul_le_mul_left 2 (le_roundHalfEven (2 ^ 23) hshift hcut)

/-- **Rounding to 24 places keeps the order.** -/
theorem roundRatio_mono {num num' den den' : Nat} (hden : 0 < den) (hden' : 0 < den')
    (h : num * den' ≤ num' * den) : roundRatio num den ≤ roundRatio num' den' := by
  have hfloor : num / den ≤ num' / den' := by
    rw [Nat.le_div_iff_mul_le hden']
    refine Nat.le_of_mul_le_mul_right ?_ hden
    calc num / den * den' * den = num / den * den * den' := Nat.mul_right_comm _ _ _
      _ ≤ num * den' := Nat.mul_le_mul_right den' (Nat.div_mul_le_self num den)
      _ ≤ num' * den := h
  have hupper := roundHalfEven_le_digitLimit num den
  have hlower := digitLimit_le_two_mul num' hden'
  have hplaces := placesBelow_mono hfloor
  rw [roundRatio, roundRatio]
  generalize placesBelow (num / den) = places at *
  generalize placesBelow (num' / den') = places' at *
  simp only [Nat.shiftLeft_eq] at hupper hlower ⊢
  rcases Nat.eq_or_lt_of_le hplaces with rfl | hlt
  · -- the same places are cut, so the order is that of whole numbers
    refine Nat.mul_le_mul_right _ (roundHalfEven_mono ?_ ?_ ?_)
    · exact Nat.mul_pos hden (Nat.two_pow_pos _)
    · exact Nat.mul_pos hden' (Nat.two_pow_pos _)
    · rw [← Nat.mul_assoc, ← Nat.mul_assoc]
      exact Nat.mul_le_mul_right _ h
  · -- the greater one has a place more, and all its leading places are in use
    have hpos : 0 < places' := by omega
    have hpow : 2 * 2 ^ places ≤ 2 ^ places' := by
      rw [← Nat.pow_succ']
      exact Nat.pow_le_pow_right (by decide) hlt
    calc roundHalfEven num (den * 2 ^ places) * 2 ^ places
        ≤ 2 * roundHalfEven num' (den' * 2 ^ places') * 2 ^ places :=
          Nat.mul_le_mul_right _ (Nat.le_trans hupper (hlower hpos))
      _ = roundHalfEven num' (den' * 2 ^ places') * (2 * 2 ^ places) := by ring
      _ ≤ roundHalfEven num' (den' * 2 ^ places') * 2 ^ places' := Nat.mul_le_mul_left _ hpow

/-- Rounding moves a quotient by half of the last place that it keeps, at most. -/
theorem roundRatio_near {num den places : Nat} (hden : 0 < den)
    (h : num < den * 2 ^ (24 + places)) :
    2 * num ≤ 2 * (den * roundRatio num den) + den * 2 ^ places ∧
      2 * (den * roundRatio num den) ≤ 2 * num + den * 2 ^ places := by
  have hcut : placesBelow (num / den) ≤ places := by
    have hlt : num / den < 2 ^ (24 + places) := Nat.div_lt_of_lt_mul h
    rcases Nat.eq_zero_or_pos (num / den) with hzero | hpos
    · simp [hzero, placesBelow]
    · have := (Nat.log2_lt (by omega)).mpr hlt
      rw [placesBelow]
      omega
  have hpow : den * 2 ^ placesBelow (num / den) ≤ den * 2 ^ places :=
    Nat.mul_le_mul_left _ (Nat.pow_le_pow_right (by decide) hcut)
  have hnear := @roundHalfEven_near num (den <<< placesBelow (num / den)) (by
    rw [Nat.shiftLeft_eq]
    exact Nat.mul_pos hden (Nat.two_pow_pos _))
  rw [roundRatio]
  generalize placesBelow (num / den) = cut at *
  simp only [Nat.shiftLeft_eq] at hnear ⊢
  generalize roundHalfEven num (den * 2 ^ cut) = m at *
  have hmul : den * (m * 2 ^ cut) = den * 2 ^ cut * m := by ring
  rw [hmul]
  omega

/-- Rounding to 24 places on both sides of zero. -/
def roundSigned (num : Int) (den : Nat) : Int :=
  if num < 0 then -roundRatio num.natAbs den else roundRatio num.natAbs den

theorem roundSigned_mono {num num' : Int} {den den' : Nat} (hden : 0 < den) (hden' : 0 < den')
    (h : num * den' ≤ num' * den) : roundSigned num den ≤ roundSigned num' den' := by
  rw [roundSigned, roundSigned]
  split
  · rename_i hneg
    split
    · rename_i hneg'
      -- below zero the magnitudes come in the other order
      have hmag : roundRatio num'.natAbs den' ≤ roundRatio num.natAbs den := by
        refine roundRatio_mono hden' hden ?_
        zify
        rw [abs_of_neg hneg, abs_of_neg hneg']
        linarith
      omega
    · omega
  · rename_i hpos
    have hpos' : ¬ num' < 0 := by
      intro hneg'
      have h1 : 0 ≤ num * den' := Int.mul_nonneg (by omega) (by omega)
      have h2 : num' * den < 0 := Int.mul_neg_of_neg_of_pos hneg' (by omega)
      omega
    rw [if_neg hpos']
    have hmag : roundRatio num.natAbs den ≤ roundRatio num'.natAbs den' := by
      refine roundRatio_mono hden hden' ?_
      zify
      rwa [abs_of_nonneg (by omega), abs_of_nonneg (by omega)]
    omega

theorem roundSigned_near {num : Int} {den places : Nat} (hden : 0 < den)
    (h : num.natAbs < den * 2 ^ (24 + places)) :
    2 * num ≤ 2 * (den * roundSigned num den) + (den * 2 ^ places : Nat) ∧
      2 * (den * roundSigned num den) ≤ 2 * num + (den * 2 ^ places : Nat) := by
  have hnear := roundRatio_near hden h
  have hcast : ((den * roundRatio num.natAbs den : Nat) : Int)
      = den * roundRatio num.natAbs den := Nat.cast_mul _ _
  rw [roundSigned]
  split
  · rw [Int.mul_neg]
    omega
  · omega

namespace Single

/-! ## Order -/

/-- Where a single stands in the order. An infinity stands at the end of the finite range. -/
def place : Single → Int
  | nan => 0
  | infinity negative => if negative then -rangeLimit else rangeLimit
  | finite a _ => a

theorem place_finite_lt {a : Int} (h : Representable a.natAbs) :
    -rangeLimit < (finite a h).place ∧ (finite a h).place < rangeLimit := by
  have := h.1
  simp only [place]
  omega

theorem le_iff_place {x y : Single} : x ≤ y ↔ x ≠ nan ∧ y ≠ nan ∧ x.place ≤ y.place := by
  have hlimit : (0 : Int) < rangeLimit := by decide
  change x.ble y = true ↔ _
  cases x with
  | nan => simp [ble]
  | infinity negative =>
    cases y with
    | nan => simp [ble]
    | infinity negative' =>
      cases negative <;> cases negative' <;> simp [ble, place]
      omega
    | finite b hb =>
      have := place_finite_lt hb
      cases negative <;> simp [ble, place] at this ⊢ <;> omega
  | finite a ha =>
    have := place_finite_lt ha
    cases y with
    | nan => simp [ble]
    | infinity negative => cases negative <;> simp [ble, place] at this ⊢ <;> omega
    | finite b hb => simp [ble, place]

theorem ne_nan_of_le {x y : Single} (h : x ≤ y) : x ≠ nan ∧ y ≠ nan :=
  ⟨(le_iff_place.mp h).1, (le_iff_place.mp h).2.1⟩

protected theorem le_refl {x : Single} (h : x ≠ nan) : x ≤ x :=
  le_iff_place.mpr ⟨h, h, Int.le_refl _⟩

protected theorem le_trans {x y z : Single} (hxy : x ≤ y) (hyz : y ≤ z) : x ≤ z := by
  obtain ⟨hx, -, hxy⟩ := le_iff_place.mp hxy
  obtain ⟨-, hz, hyz⟩ := le_iff_place.mp hyz
  exact le_iff_place.mpr ⟨hx, hz, Int.le_trans hxy hyz⟩

protected theorem le_antisymm {x y : Single} (hxy : x ≤ y) (hyx : y ≤ x) : x = y := by
  obtain ⟨hx, hy, hle⟩ := le_iff_place.mp hxy
  have hplace := Int.le_antisymm hle (le_iff_place.mp hyx).2.2
  have hlimit : rangeLimit ≠ 0 := by decide
  cases x with
  | nan => exact absurd rfl hx
  | infinity negative =>
    cases y with
    | nan => exact absurd rfl hy
    | infinity negative' => cases negative <;> cases negative' <;> simp_all [place]
    | finite b hb =>
      have := place_finite_lt hb
      cases negative <;> simp [place] at * <;> omega
  | finite a ha =>
    have := place_finite_lt ha
    cases y with
    | nan => exact absurd rfl hy
    | infinity negative => cases negative <;> simp [place] at * <;> omega
    | finite b hb =>
      obtain rfl : a = b := hplace
      rfl

/-! ## The nearest single -/

theorem nearest_ne_nan (num : Int) (den : Nat) : nearest num den ≠ nan := by
  unfold nearest
  dsimp only
  split
  · split <;> simp
  · simp

/-- The nearest single stands where rounding leads, or at the end of the range. -/
theorem place_nearest (num : Int) (den : Nat) :
    (nearest num den).place = max (-rangeLimit : Int) (min rangeLimit (roundSigned num den)) := by
  have hlimit : (0 : Int) < rangeLimit := by decide
  unfold nearest roundSigned
  dsimp only
  split
  · split
    · simp only [place]
      omega
    · simp only [place]
      omega
  · by_cases hneg : num < 0
    · simp only [place, decide_eq_true hneg, if_pos, if_pos hneg]
      omega
    · simp only [place, decide_eq_false hneg, if_neg hneg, if_neg Bool.false_ne_true]
      omega

/-- **Rounding keeps the order.** -/
theorem nearest_mono {num num' : Int} {den den' : Nat} (hden : 0 < den) (hden' : 0 < den')
    (h : num * den' ≤ num' * den) : nearest num den ≤ nearest num' den' := by
  have hround := roundSigned_mono hden hden' h
  refine le_iff_place.mpr ⟨nearest_ne_nan _ _, nearest_ne_nan _ _, ?_⟩
  rw [place_nearest, place_nearest]
  omega

/-! ## Values -/

def isFinite : Single → Bool
  | finite _ _ => true
  | _ => false

/-- The exact value of a finite single. -/
def value : Single → ℚ
  | finite a _ => a / one
  | _ => 0

theorem one_pos : (0 : ℚ) < one := by
  rw [Nat.cast_pos, one, Nat.shiftLeft_eq]
  exact Nat.mul_pos Nat.one_pos (Nat.two_pow_pos 149)

theorem value_finite {a : Int} (h : Representable a.natAbs) : (finite a h).value = a / one := rfl

theorem eq_finite {x : Single} (h : x.isFinite) : ∃ a ha, x = finite a ha := by
  cases x with
  | nan => exact Bool.noConfusion h
  | infinity _ => exact Bool.noConfusion h
  | finite a ha => exact ⟨a, ha, rfl⟩

theorem le_iff_value {x y : Single} (hx : x.isFinite) (hy : y.isFinite) :
    x ≤ y ↔ x.value ≤ y.value := by
  obtain ⟨a, ha, rfl⟩ := eq_finite hx
  obtain ⟨b, hb, rfl⟩ := eq_finite hy
  rw [value_finite, value_finite, div_le_div_iff_of_pos_right one_pos, Int.cast_le]
  exact decide_eq_true_iff

/-- Between finite singles there are only finite ones. -/
theorem isFinite_of_between {x lo hi : Single} (hlo : lo ≤ x) (hhi : x ≤ hi)
    (hl : lo.isFinite) (hh : hi.isFinite) : x.isFinite := by
  obtain ⟨a, ha, rfl⟩ := eq_finite hl
  obtain ⟨b, hb, rfl⟩ := eq_finite hh
  have := place_finite_lt ha
  have := place_finite_lt hb
  obtain ⟨-, hx, hle⟩ := le_iff_place.mp hlo
  obtain ⟨-, -, hge⟩ := le_iff_place.mp hhi
  cases x with
  | nan => exact absurd rfl hx
  | infinity negative => cases negative <;> simp [place] at * <;> omega
  | finite c hc => rfl

/-! ## Rounding of values -/

/-- The single nearest to a rational. -/
def rounded (q : ℚ) : Single := nearest (q.num * one) q.den

theorem nearest_congr {num num' : Int} {den den' : Nat} (hden : 0 < den) (hden' : 0 < den')
    (h : num * den' = num' * den) : nearest num den = nearest num' den' :=
  Single.le_antisymm (nearest_mono hden hden' h.le) (nearest_mono hden' hden h.ge)

theorem nearest_eq_rounded (num : Int) {den : Nat} (hden : 0 < den) :
    nearest num den = rounded (num / (den * one)) := by
  refine nearest_congr hden (Rat.den_pos _) ?_
  generalize hq : (num / (den * one) : ℚ) = q
  have hden' : (den : ℚ) ≠ 0 := Nat.cast_ne_zero.mpr hden.ne'
  have hq' : (num : ℚ) = q * (den * one) := (div_eq_iff (mul_ne_zero hden' one_pos.ne')).mp hq
  have hsplit : q * q.den = q.num := Rat.mul_den_eq_num q
  have hnum : (num : ℚ) * q.den = q.num * one * den := by
    rw [hq', ← hsplit]
    ring
  generalize one = k at hnum ⊢
  exact_mod_cast hnum

/-- **Rounding keeps the order.** -/
theorem rounded_mono {p q : ℚ} (h : p ≤ q) : rounded p ≤ rounded q := by
  refine nearest_mono p.den_pos q.den_pos ?_
  have hnum : p.num * q.den ≤ q.num * p.den := (Rat.le_iff _ _).mp h
  calc p.num * one * q.den = p.num * q.den * one := by ring
    _ ≤ q.num * p.den * one := Int.mul_le_mul_of_nonneg_right hnum (by omega)
    _ = q.num * one * p.den := by ring

/-- **The value of a single is its own rounding.** -/
theorem rounded_value {x : Single} (h : x.isFinite) : rounded x.value = x := by
  obtain ⟨a, ha, rfl⟩ := eq_finite h
  rw [value_finite, ← nearest_one ha, nearest_eq_rounded a Nat.one_pos, Nat.cast_one, one_mul]

theorem rounded_le {q : ℚ} {x : Single} (hx : x.isFinite) (h : q ≤ x.value) : rounded q ≤ x := by
  rw [← rounded_value hx]
  exact rounded_mono h

theorem le_rounded {q : ℚ} {x : Single} (hx : x.isFinite) (h : x.value ≤ q) : x ≤ rounded q := by
  rw [← rounded_value hx]
  exact rounded_mono h

theorem nearest_eq_finite {num : Int} {den : Nat} (h : roundRatio num.natAbs den < rangeLimit) :
    ∃ hu, nearest num den = finite (roundSigned num den) hu := by
  unfold nearest roundSigned
  simp only [dif_pos h]
  split
  · exact ⟨by rw [Int.natAbs_neg]; exact representable_roundRatio h, rfl⟩
  · exact ⟨representable_roundRatio h, rfl⟩

theorem roundRatio_lt_rangeLimit {num den places : Nat} (hden : 0 < den) (hplaces : places ≤ 252)
    (h : num < den * 2 ^ (24 + places)) : roundRatio num den < rangeLimit := by
  have hnear := (roundRatio_near hden h).2
  have hpow : 2 ^ places ≤ 2 ^ (24 + places) := Nat.pow_le_pow_right (by decide) (by omega)
  have hpow' : 2 * 2 ^ (24 + places) ≤ rangeLimit := by
    obtain ⟨more, hmore⟩ := Nat.exists_eq_add_of_le (show 24 + places + 1 ≤ 277 by omega)
    rw [← Nat.pow_succ', rangeLimit, hmore, Nat.shiftLeft_eq, Nat.one_mul, Nat.pow_add _ _ more]
    exact Nat.le_mul_of_pos_right _ (Nat.two_pow_pos more)
  have := Nat.mul_le_mul_left den hpow
  have := Nat.mul_le_mul_left den hpow'
  refine Nat.lt_of_mul_lt_mul_left (a := den) ?_
  rw [Nat.mul_left_comm] at this
  omega

/-- **Rounding moves a number below `2 ^ k` by at most one part in `2 ^ 25` of that.** -/
theorem rounded_near {q : ℚ} {k : Nat} (hk : k ≤ 127) (h : |q| < 2 ^ k) :
    (rounded q).isFinite ∧ |(rounded q).value - q| ≤ 2 ^ k / 2 ^ 25 := by
  have hden : (0 : ℚ) < q.den := Nat.cast_pos.mpr q.den_pos
  have hsplit : q * q.den = q.num := Rat.mul_den_eq_num q
  have hone : one = 2 ^ 149 := by rw [one, Nat.shiftLeft_eq, Nat.one_mul]
  have hsize : (q.num * one).natAbs < q.den * 2 ^ (24 + (125 + k)) := by
    have hnum : |(q.num : ℚ)| < q.den * 2 ^ k := by
      rw [← hsplit, abs_mul, abs_of_pos hden, mul_comm]
      exact mul_lt_mul_of_pos_left h hden
    have hnat : q.num.natAbs < q.den * 2 ^ k := by
      rw [← Int.cast_abs, Int.abs_eq_natAbs] at hnum
      exact_mod_cast hnum
    rw [Int.natAbs_mul, Int.natAbs_natCast, hone, show 24 + (125 + k) = k + 149 by omega,
      Nat.pow_add, ← Nat.mul_assoc]
    exact Nat.mul_lt_mul_of_pos_right hnat (Nat.two_pow_pos 149)
  obtain ⟨hu, heq⟩ := nearest_eq_finite (roundRatio_lt_rangeLimit q.den_pos (by omega) hsize)
  have hnear := roundSigned_near q.den_pos hsize
  rw [rounded, heq]
  refine ⟨rfl, ?_⟩
  rw [value_finite]
  generalize roundSigned (q.num * one) q.den = s at hnear
  -- in units of the smallest single, where the rounding is one of integers
  have hclose : |(s : ℚ) - q * one| ≤ 2 ^ k / 2 ^ 25 * one := by
    have hunit : (2 : ℚ) ^ (125 + k) = 2 * (2 ^ k / 2 ^ 25 * one) := by
      rw [hone, Nat.cast_pow, Nat.cast_ofNat, pow_add]
      ring
    obtain ⟨hdown, hup⟩ := hnear
    have hdown' : (2 * (q.num * one) : ℚ) ≤ 2 * (q.den * s) + q.den * 2 ^ (125 + k) := by
      exact_mod_cast hdown
    have hup' : (2 * (q.den * s) : ℚ) ≤ 2 * (q.num * one) + q.den * 2 ^ (125 + k) := by
      exact_mod_cast hup
    rw [← hsplit, hunit] at hdown' hup'
    rw [abs_le]
    constructor
    · nlinarith
    · nlinarith
  have hquot : (s / one - q : ℚ) = (s - q * one) / one := by
    rw [sub_div, mul_div_cancel_right₀ _ one_pos.ne']
  rw [hquot, abs_div, abs_of_pos one_pos, div_le_iff₀ one_pos]
  exact hclose

end Single

end BatteryCare
