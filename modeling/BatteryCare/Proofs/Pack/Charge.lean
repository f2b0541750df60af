import BatteryCare.Proofs.Number.Exponential
import BatteryCare.Proofs.Pack.Level

/-!
# A voltage always stands for a charge that a pack can hold

On the table every line rises from a charge of the pack to one of the pack, and a point of the line
lies between its ends, for rounding keeps the order. On the tail the knee's charge is taken times an
exponential of at most two. So the charge of any voltage lies within the pack (`inPack_chargeOf`).
-/

namespace BatteryCare

open Single

/-! ## The table -/

/-- A line of the table rises and stays within the pack. -/
def Rises (a b : CalibrationPoint) : Prop :=
  a.voltage < b.voltage ∧ InPack a.charge ∧ InPack (b.charge - a.charge)
    ∧ InPack (a.charge + (b.charge - a.charge))

instance (a b : CalibrationPoint) : Decidable (Rises a b) :=
  inferInstanceAs (Decidable (_ ∧ _))

theorem rises_calibration : calibration.IsChain Rises := by
  decide +kernel

theorem ofNat_div_between {m n : Nat} (hn : 0 < n) (hle : m ≤ n) (hlimit : n < digitLimit) :
    (ofNat m / ofNat n).isFinite ∧ 0 ≤ (ofNat m / ofNat n).value
      ∧ (ofNat m / ofNat n).value ≤ 1 := by
  obtain ⟨hmfin, hmval⟩ := ofNat_exact (Nat.lt_of_le_of_lt hle hlimit)
  obtain ⟨hnfin, hnval⟩ := ofNat_exact hlimit
  have hpos : (0 : ℚ) < n := Nat.cast_pos.mpr hn
  rw [div_eq_rounded hmfin hnfin (by rw [hnval]; exact hpos.ne'), hmval, hnval]
  exact_mod_cast rounded_between (m / n) 0 1 (by decide) (by decide)
    (by rw [Nat.cast_zero]; positivity)
    (by rw [Nat.cast_one, div_le_one hpos]; exact Nat.cast_le.mpr hle)

/-- The part of a line that lies below a voltage. -/
def lineShare (a b : CalibrationPoint) (voltage : UInt16) : Single :=
  ofNat (voltage - a.voltage).toNat / ofNat (b.voltage - a.voltage).toNat

theorem chargeBetween_eq (a b : CalibrationPoint) (voltage : UInt16) :
    chargeBetween a b voltage = a.charge + lineShare a b voltage * (b.charge - a.charge) := rfl

section Line

variable {a b : CalibrationPoint} {voltage : UInt16}

theorem lineShare_between (h : Rises a b) (ha : a.voltage ≤ voltage) (hb : voltage < b.voltage) :
    (lineShare a b voltage).isFinite ∧ 0 ≤ (lineShare a b voltage).value
      ∧ (lineShare a b voltage).value ≤ 1 := by
  have hab := UInt16.le_of_lt h.1
  rw [UInt16.lt_iff_toNat_lt] at hb
  have hpart : (voltage - a.voltage).toNat ≤ (b.voltage - a.voltage).toNat := by
    rw [UInt16.toNat_sub_of_le _ _ ha, UInt16.toNat_sub_of_le _ _ hab]
    omega
  have hwhole : 0 < (b.voltage - a.voltage).toNat := by
    rw [UInt16.toNat_sub_of_le _ _ hab]
    rw [UInt16.le_iff_toNat_le] at ha
    omega
  exact ofNat_div_between hwhole hpart (Nat.lt_trans (UInt16.toNat_lt _) (by decide))

/-- What a line has risen by is never more than its whole rise. -/
theorem lineRise_between (h : Rises a b) (ha : a.voltage ≤ voltage) (hb : voltage < b.voltage) :
    InPack (lineShare a b voltage * (b.charge - a.charge))
      ∧ lineShare a b voltage * (b.charge - a.charge) ≤ b.charge - a.charge := by
  obtain ⟨hfin, hlo, hhi⟩ := lineShare_between h ha hb
  obtain ⟨hrfin, hrlo, hrhi⟩ := inPack_iff.mp h.2.2.1
  have hle : (lineShare a b voltage).value * (b.charge - a.charge).value
      ≤ (b.charge - a.charge).value := mul_le_of_le_one_left hrlo hhi
  rw [mul_eq_rounded hfin hrfin]
  exact ⟨inPack_rounded (mul_nonneg hlo hrlo) (hle.trans hrhi), rounded_le hrfin hle⟩

theorem le_chargeBetween (h : Rises a b) (ha : a.voltage ≤ voltage) (hb : voltage < b.voltage) :
    a.charge ≤ chargeBetween a b voltage := by
  obtain ⟨hfin, hlo, -⟩ := inPack_iff.mp (lineRise_between h ha hb).1
  exact le_add (inPack_iff.mp h.2.1).1 hfin hlo

theorem chargeBetween_le (h : Rises a b) (ha : a.voltage ≤ voltage) (hb : voltage < b.voltage) :
    chargeBetween a b voltage ≤ a.charge + (b.charge - a.charge) := by
  obtain ⟨hpack, hle⟩ := lineRise_between h ha hb
  exact add_mono (inPack_iff.mp h.2.1).1 (inPack_iff.mp hpack).1 (inPack_iff.mp h.2.2.1).1 hle

theorem inPack_chargeBetween (h : Rises a b) (ha : a.voltage ≤ voltage) (hb : voltage < b.voltage) :
    InPack (chargeBetween a b voltage) :=
  ⟨Single.le_trans h.2.1.1 (le_chargeBetween h ha hb),
    Single.le_trans (chargeBetween_le h ha hb) h.2.2.2.2⟩

end Line

theorem inPack_fullCharge : InPack fullCharge := by
  decide +kernel

theorem inPack_chargeAlong {points : List CalibrationPoint} (h : points.IsChain Rises)
    {voltage : UInt16} (hfirst : ∀ p ∈ points.head?, p.voltage ≤ voltage) :
    InPack (chargeAlong voltage points) := by
  induction points with
  | nil => exact inPack_fullCharge
  | cons a rest ih =>
    cases rest with
    | nil => exact inPack_fullCharge
    | cons b rest =>
      obtain ⟨hline, hrest⟩ := List.isChain_cons_cons.mp h
      rw [chargeAlong]
      split
      · rename_i hlt
        exact inPack_chargeBetween hline (hfirst a rfl) hlt
      · rename_i hge
        refine ih hrest ?_
        rintro p ⟨⟩
        exact UInt16.not_lt.mp hge

/-! ## The tail -/

theorem kneeCharge_between :
    kneeCharge.isFinite ∧ 0 ≤ kneeCharge.value ∧ kneeCharge.value ≤ 1000 := by
  have hknee : InPack kneeCharge := by decide +kernel
  have hle : kneeCharge ≤ ofNat 1000 := by decide +kernel
  have hthousand := ofNat_exact (n := 1000) (by decide)
  obtain ⟨hfin, hlo, -⟩ := inPack_iff.mp hknee
  rw [le_iff_value hfin hthousand.1, hthousand.2, Nat.cast_ofNat] at hle
  exact ⟨hfin, hlo, hle⟩

theorem tailDecay_between :
    tailDecay.isFinite ∧ 0.0399 ≤ tailDecay.value ∧ tailDecay.value ≤ 0.04 :=
  decimal_between 39960194 9 (by norm_num) (by norm_num) (by norm_num)

/-- The exponent of the tail, `below` millivolts under the knee. -/
def tailExponent (below : Nat) : Single := -(ofNat below * tailDecay)

theorem tailCharge_eq (below : Nat) :
    tailCharge below = kneeCharge * (tailExponent below).expOfNonpos := rfl

theorem tailExponent_close {below : Nat} (h : below ≤ 6350) :
    (tailExponent below).isFinite ∧ (tailExponent below).value ≤ 0
      ∧ |(tailExponent below).value + below * tailDecay.value| ≤ 1 / 100000 := by
  obtain ⟨hdecay, hdecaylo, hdecayhi⟩ := tailDecay_between
  obtain ⟨hbelow, hbelowval⟩ := ofNat_exact (Nat.lt_of_le_of_lt h (by decide))
  have hle : (below : ℚ) ≤ 6350 := by exact_mod_cast h
  have hnonneg : 0 ≤ below * tailDecay.value := mul_nonneg (Nat.cast_nonneg _) (by linarith)
  have hless : below * tailDecay.value ≤ 254 := by nlinarith
  obtain ⟨hfin, hlo, -⟩ := rounded_between (below * tailDecay.value) 0 256
    (by decide) (by decide) (by rwa [Nat.cast_zero]) (by rw [Nat.cast_ofNat]; linarith)
  have hnear := (rounded_close (q := below * tailDecay.value) (by
    rw [abs_of_nonneg hnonneg]
    linarith)).2
  rw [← hbelowval, ← mul_eq_rounded hbelow hdecay] at hfin hlo hnear
  rw [Nat.cast_zero] at hlo
  rw [tailExponent, isFinite_neg, value_neg, ← hbelowval, ← abs_neg, neg_add, neg_neg,
    ← sub_eq_add_neg]
  exact ⟨hfin, neg_nonpos.mpr hlo, hnear⟩

theorem inPack_tailCharge {below : Nat} (h : below ≤ 6350) : InPack (tailCharge below) := by
  obtain ⟨hfin, hneg, -⟩ := tailExponent_close h
  obtain ⟨hexp, hexplo, hexphi⟩ := expOfNonpos_between hfin hneg
  obtain ⟨hknee, hkneelo, hkneehi⟩ := kneeCharge_between
  rw [tailCharge_eq, mul_eq_rounded hknee hexp]
  refine inPack_rounded (mul_nonneg hkneelo hexplo) ?_
  nlinarith

/-- **The charge of a voltage is one that a pack can hold.** -/
theorem inPack_chargeOf (voltage : UInt16) : InPack (chargeOf voltage) := by
  rw [chargeOf]
  split
  · rename_i hlt
    refine inPack_tailCharge ?_
    rw [UInt16.toNat_sub_of_le _ _ (UInt16.le_of_lt hlt)]
    exact Nat.sub_le _ _
  · rename_i hge
    refine inPack_chargeAlong rises_calibration ?_
    rintro p ⟨⟩
    exact UInt16.not_lt.mp hge

end BatteryCare
