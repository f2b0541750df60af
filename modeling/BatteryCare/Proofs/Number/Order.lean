import BatteryCare.Proofs.Number.Arithmetic

/-!
# Operations that keep the order

To multiply or divide by a positive number, to round to a whole number and to count whole units all
keep the order of singles. They do so on the whole range: what leaves the finite range becomes an
infinity, and an infinity stays where it is. So it is enough to look at finite singles
(`mono_of_finite`), where each of the operations is an exact one that keeps the order, rounded once.
-/

namespace BatteryCare

namespace Single

variable {x y z : Single}

/-! ## From finite singles to all -/

theorem infinity_le (h : x ≠ nan) : infinity true ≤ x := by
  cases x with
  | nan => exact absurd rfl h
  | infinity negative => rfl
  | finite a ha => rfl

theorem le_infinity (h : x ≠ nan) : x ≤ infinity false := by
  cases x with
  | nan => exact absurd rfl h
  | infinity negative => cases negative <;> rfl
  | finite a ha => rfl

/-- **An operation that leaves the infinities where they are keeps the order of all singles if it
keeps the order of the finite ones.** -/
theorem mono_of_finite {f : Single → Single}
    (hinf : ∀ negative, f (infinity negative) = infinity negative)
    (hfin : ∀ x y, x.isFinite → y.isFinite → x ≤ y → f x ≤ f y) (h : x ≤ y) : f x ≤ f y := by
  obtain ⟨hx, hy⟩ := ne_nan_of_le h
  have hvalue : ∀ z, z ≠ nan → f z ≠ nan := by
    intro z hz
    cases z with
    | nan => exact absurd rfl hz
    | infinity negative => rw [hinf]; simp
    | finite c hc => exact (ne_nan_of_le (hfin _ _ rfl rfl (Single.le_refl hz))).1
  cases x with
  | nan => exact absurd rfl hx
  | infinity negative =>
    cases negative with
    | true => rw [hinf]; exact infinity_le (hvalue y hy)
    | false =>
      -- only the infinity itself lies above
      rw [Single.le_antisymm (le_infinity hy) h]
      exact Single.le_refl (hvalue _ (by simp))
  | finite a ha =>
    cases y with
    | nan => exact absurd rfl hy
    | infinity negative =>
      cases negative with
      | true => exact absurd (Single.le_antisymm h (infinity_le hx)) (by simp)
      | false => rw [hinf]; exact le_infinity (hvalue _ hx)
    | finite b hb => exact hfin _ _ rfl rfl h

/-! ## The operations -/

theorem units_pos (hz : z.isFinite) (hpos : 0 < z.value) : ∃ a ha, z = finite a ha ∧ 0 < a := by
  obtain ⟨a, ha, rfl⟩ := eq_finite hz
  refine ⟨a, ha, rfl, ?_⟩
  rw [value_finite, div_pos_iff_of_pos_right one_pos] at hpos
  exact_mod_cast hpos

theorem infinity_mul (hz : z.isFinite) (hpos : 0 < z.value) (negative : Bool) :
    infinity negative * z = infinity negative := by
  obtain ⟨a, ha, rfl, hlt⟩ := units_pos hz hpos
  change (if a = 0 then nan else infinity (negative != decide (a < 0))) = _
  rw [if_neg hlt.ne', decide_eq_false (by omega), Bool.bne_false]

theorem infinity_div (hz : z.isFinite) (hpos : 0 < z.value) (negative : Bool) :
    infinity negative / z = infinity negative := by
  obtain ⟨a, ha, rfl, hlt⟩ := units_pos hz hpos
  change infinity (negative != decide (a < 0)) = _
  rw [decide_eq_false (by omega), Bool.bne_false]

theorem add_mono (hx : x.isFinite) (hy : y.isFinite) (hz : z.isFinite) (h : y ≤ z) :
    x + y ≤ x + z := by
  rw [le_iff_value hy hz] at h
  rw [add_eq_rounded hx hy, add_eq_rounded hx hz]
  exact rounded_mono (by linarith)

theorem le_add (hx : x.isFinite) (hy : y.isFinite) (h : 0 ≤ y.value) : x ≤ x + y := by
  rw [add_eq_rounded hx hy]
  exact le_rounded hx (by linarith)

theorem mul_mono_finite (hx : x.isFinite) (hy : y.isFinite) (hz : z.isFinite) (hpos : 0 ≤ z.value)
    (h : x ≤ y) : x * z ≤ y * z := by
  rw [le_iff_value hx hy] at h
  rw [mul_eq_rounded hx hz, mul_eq_rounded hy hz]
  exact rounded_mono (mul_le_mul_of_nonneg_right h hpos)

theorem mul_mono (hz : z.isFinite) (hpos : 0 < z.value) (h : x ≤ y) : x * z ≤ y * z := by
  refine mono_of_finite (f := (· * z)) (infinity_mul hz hpos) ?_ h
  intro x y hx hy hle
  exact mul_mono_finite hx hy hz hpos.le hle

theorem div_mono (hz : z.isFinite) (hpos : 0 < z.value) (h : x ≤ y) : x / z ≤ y / z := by
  refine mono_of_finite (f := (· / z)) (infinity_div hz hpos) ?_ h
  intro x y hx hy hle
  rw [le_iff_value hx hy] at hle
  rw [div_eq_rounded hx hz hpos.ne', div_eq_rounded hy hz hpos.ne']
  exact rounded_mono (div_le_div_of_nonneg_right hle hpos.le)

/-- Whole numbers next to two numbers of units, a half going away from zero, come in their order. -/
theorem sign_mul_div_mono (k : Nat) {a b : Int} (h : a ≤ b) :
    a.sign * ((2 * a.natAbs + k) / (2 * k) : Nat)
      ≤ b.sign * ((2 * b.natAbs + k) / (2 * k) : Nat) := by
  rcases lt_trichotomy a 0 with ha | rfl | ha
  · rw [Int.sign_eq_neg_one_of_neg ha]
    rcases lt_or_ge b 0 with hb | hb
    · have hdiv : (2 * b.natAbs + k) / (2 * k) ≤ (2 * a.natAbs + k) / (2 * k) :=
        Nat.div_le_div_right (by omega)
      rw [Int.sign_eq_neg_one_of_neg hb]
      omega
    · -- zero lies between the two
      have hleft := Int.natCast_nonneg ((2 * a.natAbs + k) / (2 * k))
      have hright := Int.mul_nonneg (Int.sign_nonneg_iff.mpr hb)
        (Int.natCast_nonneg ((2 * b.natAbs + k) / (2 * k)))
      exact Int.le_trans (by rw [Int.neg_one_mul]; exact Int.neg_nonpos_of_nonneg hleft) hright
  · rw [Int.sign_zero, Int.zero_mul]
    exact Int.mul_nonneg (Int.sign_nonneg_iff.mpr h) (Int.natCast_nonneg _)
  · have hdiv : (2 * a.natAbs + k) / (2 * k) ≤ (2 * b.natAbs + k) / (2 * k) :=
      Nat.div_le_div_right (by omega)
    rw [Int.sign_eq_one_of_pos ha, Int.sign_eq_one_of_pos (by omega)]
    omega

theorem round_mono (h : x ≤ y) : x.round ≤ y.round := by
  refine mono_of_finite (f := round) (fun _ => rfl) ?_ h
  intro x y hx hy hle
  obtain ⟨a, ha, rfl⟩ := eq_finite hx
  obtain ⟨b, hb, rfl⟩ := eq_finite hy
  refine nearest_mono Nat.one_pos Nat.one_pos ?_
  refine Int.mul_le_mul_of_nonneg_right ?_ (Int.natCast_nonneg 1)
  exact Int.mul_le_mul_of_nonneg_right (sign_mul_div_mono one (of_decide_eq_true hle))
    (Int.natCast_nonneg one)

theorem toNatUpTo_mono (limit : Nat) (h : x ≤ y) : x.toNatUpTo limit ≤ y.toNatUpTo limit := by
  cases x with
  | nan => exact Nat.zero_le _
  | infinity negative =>
    cases negative with
    | true => exact Nat.zero_le _
    | false => rw [Single.le_antisymm (le_infinity (ne_nan_of_le h).2) h]
  | finite a ha =>
    cases y with
    | nan => exact absurd rfl (ne_nan_of_le h).2
    | infinity negative =>
      cases negative with
      | true => exact absurd (Single.le_antisymm h (infinity_le (by simp))) (by simp)
      | false => exact toNatUpTo_le _ limit
    | finite b hb =>
      have hdiv : a / one ≤ b / one :=
        Int.ediv_le_ediv (by decide) (of_decide_eq_true h)
      change min (a / one).toNat limit ≤ min (b / one).toNat limit
      omega

end Single

end BatteryCare
