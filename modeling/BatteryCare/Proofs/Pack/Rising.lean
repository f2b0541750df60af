import BatteryCare.Proofs.Number.Accuracy
import BatteryCare.Proofs.Pack.Charge

/-!
# A higher voltage never stands for a lower charge

The curve has three pieces. On the tail, a millivolt makes four percent of the charge, and the
exponential keeps the order of arguments that are that far apart, whatever its roundings do
(`tailCharge_anti`). The tail ends in the knee, where the table begins. On the table every line
keeps the order and ends in the point where the next one begins (`Meets`), so the whole table keeps
it (`chargeAlong_mono`). Past the table the charge is that of a full pack.

With the order of the levels (`percentOf_mono`) this gives the order of what a voltage reads as.
-/

namespace BatteryCare

open Single

/-! ## The table -/

/-- A line of the table ends exactly in its second point. -/
def Meets (a b : CalibrationPoint) : Prop := a.charge + (b.charge - a.charge) = b.charge

instance (a b : CalibrationPoint) : Decidable (Meets a b) := inferInstanceAs (Decidable (_ = _))

theorem meets_calibration : calibration.IsChain Meets := by
  decide +kernel

section Line

variable {a b : CalibrationPoint} {v w : UInt16}

theorem lineShare_mono (h : Rises a b) (ha : a.voltage ≤ v) (hvw : v ≤ w) :
    lineShare a b v ≤ lineShare a b w := by
  have hwhole : (b.voltage - a.voltage).toNat < digitLimit :=
    Nat.lt_trans (UInt16.toNat_lt _) (by decide)
  have hpos : 0 < (b.voltage - a.voltage).toNat := by
    rw [UInt16.toNat_sub_of_le _ _ (UInt16.le_of_lt h.1)]
    exact Nat.sub_pos_of_lt (UInt16.lt_iff_toNat_lt.mp h.1)
  obtain ⟨hfin, hval⟩ := ofNat_exact hwhole
  refine div_mono hfin (by rw [hval]; exact_mod_cast hpos) ?_
  rw [ofNat_eq_rounded, ofNat_eq_rounded]
  refine rounded_mono (Nat.cast_le.mpr ?_)
  rw [UInt16.toNat_sub_of_le _ _ ha, UInt16.toNat_sub_of_le _ _ (UInt16.le_trans ha hvw)]
  exact Nat.sub_le_sub_right (UInt16.le_iff_toNat_le.mp hvw) _

theorem chargeBetween_mono (h : Rises a b) (ha : a.voltage ≤ v) (hvw : v ≤ w)
    (hb : w < b.voltage) : chargeBetween a b v ≤ chargeBetween a b w := by
  have hv : v < b.voltage := UInt16.lt_of_le_of_lt hvw hb
  have hw : a.voltage ≤ w := UInt16.le_trans ha hvw
  obtain ⟨hrise, hriselo, -⟩ := inPack_iff.mp h.2.2.1
  have hproduct := mul_mono_finite (lineShare_between h ha hv).1 (lineShare_between h hw hb).1 hrise
    hriselo (lineShare_mono h ha hvw)
  rw [chargeBetween_eq, chargeBetween_eq]
  exact add_mono (inPack_iff.mp h.2.1).1 (inPack_iff.mp (lineRise_between h ha hv).1).1
    (inPack_iff.mp (lineRise_between h hw hb).1).1 hproduct

end Line

/-- The table starts at its first point and stays above it. -/
theorem le_chargeAlong {a : CalibrationPoint} {points : List CalibrationPoint}
    (hrises : (a :: points).IsChain Rises) (hmeets : (a :: points).IsChain Meets)
    (hfull : a.charge ≤ fullCharge) {voltage : UInt16} (ha : a.voltage ≤ voltage) :
    a.charge ≤ chargeAlong voltage (a :: points) := by
  induction points generalizing a with
  | nil => exact hfull
  | cons b rest ih =>
    obtain ⟨hline, hrest⟩ := List.isChain_cons_cons.mp hrises
    obtain ⟨hmeet, hrest'⟩ := List.isChain_cons_cons.mp hmeets
    rw [chargeAlong]
    split
    · rename_i hlt
      exact le_chargeBetween hline ha hlt
    · rename_i hge
      have hend := hline.2.2.2
      rw [hmeet] at hend
      have hstep : a.charge ≤ b.charge := by
        obtain ⟨hrise, hriselo, -⟩ := inPack_iff.mp hline.2.2.1
        have hle := le_add (inPack_iff.mp hline.2.1).1 hrise hriselo
        rwa [hmeet] at hle
      exact Single.le_trans hstep (ih hrest hrest' hend.2 (UInt16.not_lt.mp hge))

/-- **The table keeps the order of voltages.** -/
theorem chargeAlong_mono {points : List CalibrationPoint} (hrises : points.IsChain Rises)
    (hmeets : points.IsChain Meets) {v w : UInt16} (hvw : v ≤ w)
    (hfirst : ∀ p ∈ points.head?, p.voltage ≤ v) :
    chargeAlong v points ≤ chargeAlong w points := by
  induction points with
  | nil => exact Single.le_refl inPack_fullCharge.ne_nan
  | cons a rest ih =>
    cases rest with
    | nil => exact Single.le_refl inPack_fullCharge.ne_nan
    | cons b rest =>
      obtain ⟨hline, hrest⟩ := List.isChain_cons_cons.mp hrises
      obtain ⟨hmeet, hrest'⟩ := List.isChain_cons_cons.mp hmeets
      have ha : a.voltage ≤ v := hfirst a rfl
      by_cases hw : w < b.voltage
      · -- both lie on the first line
        have hv : v < b.voltage := UInt16.lt_of_le_of_lt hvw hw
        rw [chargeAlong, chargeAlong, if_pos hv, if_pos hw]
        exact chargeBetween_mono hline ha hvw hw
      · by_cases hv : v < b.voltage
        · -- the end of the first line lies between the two
          have hend := hline.2.2.2
          have hle := chargeBetween_le hline ha hv
          rw [hmeet] at hend hle
          have habove := le_chargeAlong hrest hrest' hend.2 (UInt16.not_lt.mp hw)
          rw [chargeAlong, if_pos hv, chargeAlong, if_neg hw]
          exact Single.le_trans hle habove
        · rw [chargeAlong, chargeAlong, if_neg hv, if_neg hw]
          refine ih hrest hrest' ?_
          rintro p ⟨⟩
          exact UInt16.not_lt.mp hv

/-! ## The tail -/

/-- A millivolt on the tail is more than a thirtieth of the exponent. -/
theorem tailExponent_gap {m n : Nat} (h : m < n) (hn : n ≤ 6350) :
    (tailExponent n).value + 1 / 30 ≤ (tailExponent m).value := by
  obtain ⟨-, hdecay, -⟩ := tailDecay_between
  obtain ⟨-, -, hm⟩ := tailExponent_close (show m ≤ 6350 by omega)
  obtain ⟨-, -, hn⟩ := tailExponent_close hn
  have hstep : (m : ℚ) + 1 ≤ n := by exact_mod_cast h
  have hmul := mul_le_mul_of_nonneg_right hstep (show 0 ≤ tailDecay.value by linarith)
  rw [abs_le] at hm hn
  linarith [hm.1, hn.2]

/-- **On the tail, further below the knee never means more charge.** -/
theorem tailCharge_anti {m n : Nat} (h : m ≤ n) (hn : n ≤ 6350) : tailCharge n ≤ tailCharge m := by
  rcases Nat.eq_or_lt_of_le h with rfl | hlt
  · exact Single.le_refl (inPack_tailCharge hn).ne_nan
  · obtain ⟨hnfin, hnneg, -⟩ := tailExponent_close hn
    obtain ⟨hmfin, hmneg, -⟩ := tailExponent_close (show m ≤ 6350 by omega)
    obtain ⟨hnexp, -, -⟩ := expOfNonpos_between hnfin hnneg
    obtain ⟨hmexp, -, -⟩ := expOfNonpos_between hmfin hmneg
    obtain ⟨hknee, hkneelo, -⟩ := kneeCharge_between
    have hexp := expOfNonpos_mono hnfin hmfin (tailExponent_gap hlt hn) hmneg
    rw [le_iff_value hnexp hmexp] at hexp
    rw [tailCharge_eq, tailCharge_eq, mul_eq_rounded hknee hnexp, mul_eq_rounded hknee hmexp]
    exact rounded_mono (mul_le_mul_of_nonneg_left hexp hkneelo)

theorem tailCharge_zero : tailCharge 0 = kneeCharge := by
  decide +kernel

/-! ## The whole curve -/

theorem kneeVoltage_sub {voltage : UInt16} (h : voltage < kneeVoltage) :
    (kneeVoltage - voltage).toNat = 6350 - voltage.toNat := by
  rw [UInt16.toNat_sub_of_le _ _ (UInt16.le_of_lt h)]
  rfl

/-- **A higher voltage never stands for a lower charge.** -/
theorem chargeOf_mono {v w : UInt16} (h : v ≤ w) : chargeOf v ≤ chargeOf w := by
  unfold chargeOf
  by_cases hw : w < kneeVoltage
  · have hv : v < kneeVoltage := UInt16.lt_of_le_of_lt h hw
    rw [if_pos hv, if_pos hw, kneeVoltage_sub hv, kneeVoltage_sub hw]
    exact tailCharge_anti (Nat.sub_le_sub_left (UInt16.le_iff_toNat_le.mp h) _) (Nat.sub_le _ _)
  · rw [if_neg hw]
    have hknee : kneeVoltage ≤ w := UInt16.not_lt.mp hw
    by_cases hv : v < kneeVoltage
    · -- the knee lies between the two
      have htail : tailCharge (6350 - v.toNat) ≤ kneeCharge := by
        rw [← tailCharge_zero]
        exact tailCharge_anti (Nat.zero_le _) (Nat.sub_le _ _)
      have hfull : kneeCharge ≤ fullCharge := by decide +kernel
      rw [if_pos hv, kneeVoltage_sub hv]
      exact Single.le_trans htail (le_chargeAlong rises_calibration meets_calibration hfull hknee)
    · rw [if_neg hv]
      refine chargeAlong_mono rises_calibration meets_calibration h ?_
      rintro p ⟨⟩
      exact UInt16.not_lt.mp hv

/--
**A higher voltage or charge never reads as a lower level.** Any two charges in order have levels in
order, infinities included, and what is no number reads as empty. Any two voltages in order stand
for charges of the pack in order, and so for levels in order.
-/
theorem readings_in_order :
    (∀ c d : Single, c ≤ d → percentOf c ≤ percentOf d ∧ percentOf d ≤ 100)
      ∧ percentOf .nan = 0
      ∧ ∀ v w : UInt16, v ≤ w →
        0 ≤ chargeOf v ∧ chargeOf v ≤ chargeOf w ∧ chargeOf w ≤ fullCharge
          ∧ percentOf (chargeOf v) ≤ percentOf (chargeOf w) := by
  refine ⟨?_, rfl, ?_⟩
  · intro c d h
    exact ⟨percentOf_mono h, percentOf_le_hundred d⟩
  · intro v w h
    have hcharge := chargeOf_mono h
    exact ⟨(inPack_chargeOf v).1, hcharge, (inPack_chargeOf w).2, percentOf_mono hcharge⟩

/-- The ends of the whole range, and the millivolt on which the tail goes over into the table. -/
theorem readings_in_order_knee :
    (infinity true ≤ infinity false
        ∧ percentOf (infinity true) ≤ percentOf (infinity false))
      ∧ (6349 : UInt16) ≤ 6350 ∧ chargeOf 6349 ≤ chargeOf 6350
        ∧ percentOf (chargeOf 6349) ≤ percentOf (chargeOf 6350) := by
  have hends : infinity true ≤ infinity false := by decide
  have hknee : (6349 : UInt16) ≤ 6350 := by decide
  obtain ⟨hlevels, -, hvoltages⟩ := readings_in_order
  obtain ⟨-, hcharge, -, hlevel⟩ := hvoltages 6349 6350 hknee
  exact ⟨⟨hends, (hlevels _ _ hends).1⟩, hknee, hcharge, hlevel⟩

end BatteryCare
