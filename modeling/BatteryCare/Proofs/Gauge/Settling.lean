import BatteryCare.Proofs.Gauge.Moves
import BatteryCare.Proofs.Pack.Charge

/-!
# The estimate of the gauge is one that a pack can hold

A settling estimate moves by a step or arrives at the measured charge (`settleTowards_approaches`),
so it stays between where it was and the measured charge, however large a step the calibration
allows. Hence every estimate lies within the pack (`inPack_aim`), as long as the one before did, and
the words of its record can be read back: the charge word is the charge to the nearest whole unit.
-/

namespace BatteryCare

/-! ## The greater and the smaller of two -/

namespace Single

variable {x y : Single}

protected theorem le_total (hx : x ≠ nan) (hy : y ≠ nan) : x ≤ y ∨ y ≤ x :=
  (Int.le_total x.place y.place).imp (le_iff_place.mpr ⟨hx, hy, ·⟩) (le_iff_place.mpr ⟨hy, hx, ·⟩)

theorem le_of_not_lt (hx : x ≠ nan) (hy : y ≠ nan) (h : ¬ x < y) : y ≤ x := by
  change ¬ (x.ble y && !y.ble x) = true at h
  rw [Bool.and_eq_true, Bool.not_eq_true', not_and, Bool.not_eq_false] at h
  exact (Single.le_total hx hy).elim h id

theorem le_of_lt (h : x < y) : x ≤ y := (Bool.and_eq_true_iff.mp h).1

theorem max_cases (hx : x ≠ nan) (hy : y ≠ nan) :
    x.max y = y ∧ x ≤ y ∨ x.max y = x ∧ y ≤ x := by
  rw [Single.max, if_neg hx, if_neg hy]
  split
  · rename_i h
    exact .inl ⟨rfl, le_of_lt h⟩
  · rename_i h
    exact .inr ⟨rfl, le_of_not_lt hx hy h⟩

theorem min_cases (hx : x ≠ nan) (hy : y ≠ nan) :
    x.min y = y ∧ y ≤ x ∨ x.min y = x ∧ x ≤ y := by
  rw [Single.min, if_neg hx, if_neg hy]
  split
  · rename_i h
    exact .inl ⟨rfl, le_of_lt h⟩
  · rename_i h
    exact .inr ⟨rfl, le_of_not_lt hy hx h⟩

end Single

/-! ## Settling -/

open Single

theorem inPack_between {charge lo hi : Single} (hlo : InPack lo) (hhi : InPack hi)
    (hle : lo ≤ charge) (hge : charge ≤ hi) : InPack charge :=
  ⟨Single.le_trans hlo.1 hle, Single.le_trans hge hhi.2⟩

namespace Gauge

/-- A settling step is the charge of so many percent, rounded once. -/
theorem stepCharge_eq (c : GaugeConfig) :
    stepCharge c = rounded (176.4 * c.settleStep.toNat) := by
  obtain ⟨hfull, hfval⟩ := fullCharge_exact
  obtain ⟨hhundred, hhval⟩ := hundred_exact
  have hstep : c.settleStep.toNat ≤ 255 := Nat.le_of_lt_succ c.settleStep.toNat_lt
  obtain ⟨hsfin, hsval⟩ := ofNat_exact (Nat.lt_of_le_of_lt hstep (by decide))
  -- the product of the two whole numbers is still exact
  obtain ⟨hpfin, hpval⟩ := ofNat_exact (n := fullUnits * c.settleStep.toNat)
    (Nat.lt_of_le_of_lt (Nat.mul_le_mul_left _ hstep) (by decide))
  have hprod : fullCharge * ofNat c.settleStep.toNat = ofNat (fullUnits * c.settleStep.toNat) := by
    rw [mul_eq_rounded hfull hsfin, hfval, hsval, ofNat_eq_rounded, Nat.cast_mul, fullUnits,
      Nat.cast_ofNat]
  rw [stepCharge, hprod, div_eq_rounded hpfin hhundred (by rw [hhval]; norm_num), hpval, hhval,
    Nat.cast_mul, fullUnits, Nat.cast_ofNat]
  congr 1
  ring

theorem abs_step_le (c : GaugeConfig) : |(176.4 * c.settleStep.toNat : ℚ)| ≤ 45000 := by
  have hpercent : (c.settleStep.toNat : ℚ) ≤ 255 := by
    exact_mod_cast Nat.le_of_lt_succ c.settleStep.toNat_lt
  rw [abs_of_nonneg (by positivity)]
  linarith

theorem stepCharge_near (c : GaugeConfig) : (stepCharge c).isFinite
    ∧ |(stepCharge c).value - 176.4 * c.settleStep.toNat| ≤ 1 / 512 := by
  rw [stepCharge_eq]
  obtain ⟨hfin, hnear⟩ := rounded_near (q := 176.4 * c.settleStep.toNat) (k := 16) (by decide)
    ((abs_step_le c).trans_lt (by norm_num))
  exact ⟨hfin, hnear.trans (by norm_num)⟩

theorem stepCharge_nonneg (c : GaugeConfig) :
    (stepCharge c).isFinite ∧ 0 ≤ (stepCharge c).value := by
  obtain ⟨hfin, -⟩ := stepCharge_near c
  have hle : 0 ≤ stepCharge c := by
    rw [stepCharge_eq]
    refine le_rounded zero_exact.1 ?_
    rw [zero_exact.2]
    positivity
  rw [le_iff_value zero_exact.1 hfin, zero_exact.2] at hle
  exact ⟨hfin, hle⟩

theorem sub_stepCharge_le (c : GaugeConfig) {charge : Single} (h : InPack charge) :
    charge - stepCharge c ≤ charge := by
  obtain ⟨hstep, hnonneg⟩ := stepCharge_nonneg c
  have hfin := (inPack_iff.mp h).1
  rw [sub_eq_rounded hfin hstep]
  exact rounded_le hfin (by linarith)

theorem le_add_stepCharge (c : GaugeConfig) {charge : Single} (h : InPack charge) :
    charge ≤ charge + stepCharge c := by
  obtain ⟨hstep, hnonneg⟩ := stepCharge_nonneg c
  have hfin := (inPack_iff.mp h).1
  rw [add_eq_rounded hfin hstep]
  exact le_rounded hfin (by linarith)

/-- Where a charge can go that moves towards a measured one. -/
inductive Approaches (current measured step : Single) : Single → Prop
  /-- The measured charge is within a step. -/
  | arrive (hlo : current - step ≤ measured) (hhi : measured ≤ current + step) :
      Approaches current measured step measured
  | rise (h : current + step ≤ measured) : Approaches current measured step (current + step)
  | fall (h : measured ≤ current - step) : Approaches current measured step (current - step)

/-- **A settling charge moves by a step, or arrives.** -/
theorem settleTowards_approaches (c : GaugeConfig) {current measured : Single}
    (hcurrent : InPack current) (hmeasured : InPack measured) :
    Approaches current measured (stepCharge c) (settleTowards c current measured) := by
  have hdown := sub_stepCharge_le c hcurrent
  have hup := le_add_stepCharge c hcurrent
  have hne := (ne_nan_of_le hmeasured.1).2
  rw [settleTowards]
  obtain ⟨hmax, hle⟩ | ⟨hmax, hle⟩ := max_cases hne (ne_nan_of_le hdown).1
  · rw [hmax]
    obtain ⟨hmin, hle'⟩ | ⟨hmin, -⟩ := min_cases (ne_nan_of_le hdown).1 (ne_nan_of_le hup).2
    · -- the step is too small to make a difference
      rw [hmin, Single.le_antisymm hle' (Single.le_trans hdown hup)]
      exact .fall hle
    · rw [hmin]
      exact .fall hle
  · rw [hmax]
    obtain ⟨hmin, hle'⟩ | ⟨hmin, hle'⟩ := min_cases hne (ne_nan_of_le hup).2
    · rw [hmin]
      exact .rise hle'
    · rw [hmin]
      exact .arrive hle hle'

/-- A charge that moves towards a measured one does not pass it. -/
theorem Approaches.between {c : GaugeConfig} {current measured charge : Single}
    (h : Approaches current measured (stepCharge c) charge) (hcurrent : InPack current)
    (hmeasured : InPack measured) :
    current ≤ charge ∧ charge ≤ measured ∨ measured ≤ charge ∧ charge ≤ current := by
  have hne := (ne_nan_of_le hmeasured.1).2
  have hself := Single.le_refl hne
  cases h with
  | arrive _ _ =>
    exact (Single.le_total (ne_nan_of_le hcurrent.1).2 hne).imp (⟨·, hself⟩) (⟨hself, ·⟩)
  | rise h => exact .inl ⟨le_add_stepCharge c hcurrent, h⟩
  | fall h => exact .inr ⟨h, sub_stepCharge_le c hcurrent⟩

/-- **A settling charge stays within the pack.** -/
theorem inPack_settleTowards (c : GaugeConfig) {current measured : Single}
    (hcurrent : InPack current) (hmeasured : InPack measured) :
    InPack (settleTowards c current measured) := by
  obtain ⟨hlo, hhi⟩ | ⟨hlo, hhi⟩ :=
    (settleTowards_approaches c hcurrent hmeasured).between hcurrent hmeasured
  · exact inPack_between hcurrent hmeasured hlo hhi
  · exact inPack_between hmeasured hcurrent hlo hhi

/-- The charge that a gauge shows is one that a pack can hold. -/
def ShowsPack (g : Gauge) : Prop := ∀ e ∈ g.estimate?, e = .ofCharge e.charge ∧ InPack e.charge

theorem ShowsPack.charge {g : Gauge} (h : g.ShowsPack) : InPack g.charge := by
  rw [Gauge.charge]
  cases he : g.estimate? with
  | none => exact inPack_ofNat (Nat.zero_le _)
  | some e => exact (h e he).2

theorem ShowsPack.percent {g : Gauge} (h : g.ShowsPack) : g.percent = percentOf g.charge := by
  have hzero : percentOf 0 = 0 := by decide +kernel
  rw [Gauge.percent, Gauge.charge]
  cases he : g.estimate? with
  | none => exact hzero.symm
  | some e => exact congrArg Estimate.percent (h e he).1

theorem inPack_aim {g : Gauge} (h : g.ShowsPack) (voltage : UInt16) : InPack (g.aim voltage) := by
  rw [aim]
  split
  · exact inPack_settleTowards _ h.charge (inPack_chargeOf voltage)
  · exact inPack_chargeOf voltage

end Gauge

end BatteryCare
