import BatteryCare.Pack.Curve
import BatteryCare.Proofs.Number.Order
import Mathlib.Data.Nat.Dist
import Mathlib.Tactic.NormNum

/-!
# The level of a charge

A level is within a little more than half a percent of the charge it stands for (`percentOf_near`),
and a higher charge never has a lower level (`percentOf_mono`). So a charge and the whole number
that it is rounded to are at most one percent apart, and there is a difference only where the
boundary between two levels comes between them.
-/

namespace BatteryCare

open Single

/-- A charge that a pack can hold. -/
def InPack (charge : Single) : Prop := 0 ≤ charge ∧ charge ≤ fullCharge

instance (charge : Single) : Decidable (InPack charge) := inferInstanceAs (Decidable (_ ∧ _))

/-- A full pack in whole units. -/
def fullUnits : Nat := 17640

theorem fullCharge_eq : fullCharge = ofNat fullUnits := rfl

theorem fullCharge_exact : fullCharge.isFinite ∧ fullCharge.value = 17640 := by
  obtain ⟨hfin, hval⟩ := ofNat_exact (n := fullUnits) (by decide)
  refine ⟨hfin, ?_⟩
  rw [fullCharge_eq, hval, fullUnits, Nat.cast_ofNat]

theorem inPack_iff {charge : Single} :
    InPack charge ↔ charge.isFinite ∧ 0 ≤ charge.value ∧ charge.value ≤ 17640 := by
  obtain ⟨hzero, hzval⟩ := zero_exact
  obtain ⟨hfull, hfval⟩ := fullCharge_exact
  constructor
  · rintro ⟨hlo, hhi⟩
    have hfin := isFinite_of_between hlo hhi hzero hfull
    rw [le_iff_value hzero hfin, hzval] at hlo
    rw [le_iff_value hfin hfull, hfval] at hhi
    exact ⟨hfin, hlo, hhi⟩
  · rintro ⟨hfin, hlo, hhi⟩
    rw [← hzval, ← le_iff_value hzero hfin] at hlo
    rw [← hfval, ← le_iff_value hfin hfull] at hhi
    exact ⟨hlo, hhi⟩

theorem InPack.ne_nan {charge : Single} (h : InPack charge) : charge ≠ nan :=
  (ne_nan_of_le h.1).2

/-- A number within the bounds of a pack is rounded to a charge that a pack can hold. -/
theorem inPack_rounded {q : ℚ} (hlo : 0 ≤ q) (hhi : q ≤ 17640) : InPack (rounded q) := by
  have h := rounded_between q 0 fullUnits (by decide) (by decide)
    (by rwa [Nat.cast_zero]) (by rwa [fullUnits, Nat.cast_ofNat])
  rw [Nat.cast_zero, fullUnits, Nat.cast_ofNat] at h
  exact inPack_iff.mpr h

theorem inPack_ofNat {n : Nat} (h : n ≤ fullUnits) : InPack (ofNat n) := by
  have hq : (n : ℚ) ≤ fullUnits := Nat.cast_le.mpr h
  rw [ofNat_eq_rounded]
  exact inPack_rounded (Nat.cast_nonneg n) (by rwa [fullUnits, Nat.cast_ofNat] at hq)

/-! ## The level -/

theorem div_fullCharge {charge : Single} (h : InPack charge) :
    charge / fullCharge = rounded (charge.value / 17640) := by
  obtain ⟨hfull, hfval⟩ := fullCharge_exact
  rw [div_eq_rounded (inPack_iff.mp h).1 hfull (by rw [hfval]; norm_num), hfval]

theorem div_fullCharge_near {charge : Single} (h : InPack charge) :
    (charge / fullCharge).isFinite ∧ 0 ≤ (charge / fullCharge).value
      ∧ (charge / fullCharge).value ≤ 1
      ∧ |(charge / fullCharge).value - charge.value / 17640| ≤ 1 / 2 ^ 24 := by
  obtain ⟨-, hlo, hhi⟩ := inPack_iff.mp h
  have hnonneg : 0 ≤ charge.value / 17640 := by positivity
  have hone : charge.value / 17640 ≤ 1 := by rwa [div_le_one (by norm_num)]
  rw [div_fullCharge h]
  obtain ⟨hfin, hge, hle⟩ := rounded_between (charge.value / 17640) 0 1
    (by decide) (by decide) (by rwa [Nat.cast_zero]) (by rwa [Nat.cast_one])
  rw [Nat.cast_zero] at hge
  rw [Nat.cast_one] at hle
  have hnear := (rounded_near (q := charge.value / 17640) (k := 1) (by decide) (by
    rw [abs_of_nonneg hnonneg]
    linarith)).2
  exact ⟨hfin, hge, hle, hnear.trans (by norm_num)⟩

/-- A charge in percent of a full pack, before it is rounded to a whole number. -/
def share (charge : Single) : Single := charge / fullCharge * 100

theorem share_eq {charge : Single} (h : InPack charge) :
    share charge = rounded ((charge / fullCharge).value * 100) := by
  obtain ⟨hhundred, hhval⟩ := hundred_exact
  rw [share, mul_eq_rounded (div_fullCharge_near h).1 hhundred, hhval]

theorem share_near {charge : Single} (h : InPack charge) :
    (share charge).isFinite ∧ 0 ≤ (share charge).value ∧ (share charge).value ≤ 100
      ∧ |(share charge).value - charge.value / 17640 * 100| ≤ 1 / 1000 := by
  obtain ⟨-, hqlo, hqhi, hquot⟩ := div_fullCharge_near h
  rw [share_eq h]
  generalize (charge / fullCharge).value = quot at *
  obtain ⟨hfin, hge, hle⟩ := rounded_between (quot * 100) 0 100
    (by decide) (by decide) (by rw [Nat.cast_zero]; linarith) (by rw [Nat.cast_ofNat]; linarith)
  rw [Nat.cast_zero] at hge
  rw [Nat.cast_ofNat] at hle
  have hnear := (rounded_near (q := quot * 100) (k := 7) (by decide) (by
    rw [abs_of_nonneg (by linarith)]
    linarith)).2
  refine ⟨hfin, hge, hle, ?_⟩
  rw [abs_le] at hquot hnear ⊢
  constructor
  · linarith [hquot.1, hnear.1]
  · linarith [hquot.2, hnear.2]

theorem toNat_percentOf_eq (charge : Single) :
    (percentOf charge).toNat = (share charge).round.toNatUpTo 100 :=
  UInt8.toNat_ofNat_of_lt' (Nat.lt_of_le_of_lt (toNatUpTo_le _ 100) (by decide))

theorem percentOf_le_hundred (charge : Single) : percentOf charge ≤ 100 := by
  rw [UInt8.le_iff_toNat_le, toNat_percentOf_eq]
  exact toNatUpTo_le _ 100

/-- **A higher charge never has a lower level**, whatever the charges are. -/
theorem percentOf_mono {c d : Single} (h : c ≤ d) : percentOf c ≤ percentOf d := by
  obtain ⟨hfull, hfval⟩ := fullCharge_exact
  obtain ⟨hhundred, hhval⟩ := hundred_exact
  have hquot : c / fullCharge ≤ d / fullCharge := div_mono hfull (by rw [hfval]; norm_num) h
  have hshare : share c ≤ share d := mul_mono hhundred (by rw [hhval]; norm_num) hquot
  rw [UInt8.le_iff_toNat_le, toNat_percentOf_eq, toNat_percentOf_eq]
  exact toNatUpTo_mono 100 (round_mono hshare)

/-- A level is its share rounded to a whole number. -/
theorem toNat_percentOf {charge : Single} (h : InPack charge) :
    (percentOf charge).toNat = ⌊(share charge).value + 1 / 2⌋₊ := by
  obtain ⟨hfin, hlo, hhi, -⟩ := share_near h
  have hle : ⌊(share charge).value + 1 / 2⌋₊ ≤ 100 := by
    refine Nat.le_of_lt_succ ((Nat.floor_lt (by linarith)).mpr ?_)
    rw [Nat.cast_succ, Nat.cast_ofNat]
    linarith
  rw [toNat_percentOf_eq, round_eq_ofNat hfin hlo,
    toNatUpTo_ofNat (Nat.lt_of_le_of_lt hle (by decide)) hle]

/-- **A level is within a little more than half a percent of its charge.** -/
theorem percentOf_near {charge : Single} (h : InPack charge) :
    |((percentOf charge).toNat : ℚ) - charge.value / 17640 * 100| ≤ 1 / 2 + 1 / 1000 := by
  obtain ⟨-, hlo, -, hnear⟩ := share_near h
  rw [toNat_percentOf h]
  calc |(⌊(share charge).value + 1 / 2⌋₊ : ℚ) - charge.value / 17640 * 100|
      ≤ |(⌊(share charge).value + 1 / 2⌋₊ : ℚ) - (share charge).value|
        + |(share charge).value - charge.value / 17640 * 100| := abs_sub_le _ _ _
    _ ≤ 1 / 2 + 1 / 1000 := add_le_add (abs_floor_add_half_sub_le hlo) hnear

/-- **Charges that are `n` percent of a full pack apart, or half a unit more, have levels that are
`n + 1` apart at most.** -/
theorem dist_percentOf_le {c d : Single} (hc : InPack c) (hd : InPack d) {n : Nat}
    (h : |c.value - d.value| ≤ 176.4 * n + 1 / 2) :
    Nat.dist (percentOf c).toNat (percentOf d).toNat ≤ n + 1 := by
  have hnc := percentOf_near hc
  have hnd := percentOf_near hd
  rw [abs_le] at h hnc hnd
  have hup : ((percentOf c).toNat : ℚ) < (percentOf d).toNat + n + 2 := by
    linarith [h.2, hnc.2, hnd.1]
  have hdown : ((percentOf d).toNat : ℚ) < (percentOf c).toNat + n + 2 := by
    linarith [h.1, hnc.1, hnd.2]
  have hup' : (percentOf c).toNat < (percentOf d).toNat + n + 2 := by exact_mod_cast hup
  have hdown' : (percentOf d).toNat < (percentOf c).toNat + n + 2 := by exact_mod_cast hdown
  rw [Nat.dist]
  omega

/-! ## Whole charges -/

theorem inPack_round {charge : Single} (h : InPack charge) : ∃ n : Nat, n ≤ fullUnits
    ∧ charge.round = ofNat n ∧ |(n : ℚ) - charge.value| ≤ 1 / 2 := by
  obtain ⟨hfin, hlo, hhi⟩ := inPack_iff.mp h
  exact round_near hfin hlo (by rwa [fullUnits, Nat.cast_ofNat])

theorem value_ofNat_units {n : Nat} (h : n ≤ fullUnits) : (ofNat n).value = n :=
  (ofNat_exact (Nat.lt_of_le_of_lt h (by decide))).2

/-- **Rounding a charge moves its level by one percent at most.** -/
theorem dist_percentOf_round {charge : Single} (h : InPack charge) :
    Nat.dist (percentOf charge.round).toNat (percentOf charge).toNat ≤ 1 := by
  obtain ⟨n, hn, hround, hnear⟩ := inPack_round h
  rw [← value_ofNat_units hn, ← hround] at hnear
  have hpack : InPack charge.round := hround ▸ inPack_ofNat hn
  refine dist_percentOf_le hpack h ?_
  rwa [Nat.cast_zero, mul_zero, zero_add]

/-- **Rounding a charge moves its level only where a level begins between the two whole charges that
the charge lies between.** -/
theorem percentOf_round_eq {charge : Single} (h : InPack charge) {n : Nat} (hn : n < fullUnits)
    (hlo : ofNat n ≤ charge) (hhi : charge ≤ ofNat (n + 1))
    (hsame : percentOf (ofNat n) = percentOf (ofNat (n + 1))) :
    percentOf charge.round = percentOf charge := by
  have hpack := inPack_ofNat (Nat.le_of_lt hn)
  have hpack' := inPack_ofNat (Nat.succ_le_of_lt hn)
  -- the level is the same at both ends, so it is the same in between
  have hlevel : percentOf charge = percentOf (ofNat n) :=
    UInt8.le_antisymm ((percentOf_mono hhi).trans_eq hsame.symm) (percentOf_mono hlo)
  obtain ⟨m, hm, hround, hnear⟩ := inPack_round h
  rw [le_iff_value (inPack_iff.mp hpack).1 (inPack_iff.mp h).1, value_ofNat_units hn.le] at hlo
  rw [le_iff_value (inPack_iff.mp h).1 (inPack_iff.mp hpack').1,
    value_ofNat_units (Nat.succ_le_of_lt hn), Nat.cast_succ] at hhi
  rw [abs_le] at hnear
  -- and the charge is rounded to one of the ends
  have hge : n ≤ m := by
    have : (n : ℚ) < m + 1 := by linarith [hnear.1]
    exact Nat.lt_succ_iff.mp (by exact_mod_cast this)
  have hle : m ≤ n + 1 := by
    have : (m : ℚ) < n + 1 + 1 := by linarith [hnear.2]
    exact Nat.lt_succ_iff.mp (by exact_mod_cast this)
  rw [hround, hlevel]
  rcases Nat.eq_or_lt_of_le hge with rfl | hlt
  · rfl
  · rw [show m = n + 1 by omega, hsame]

end BatteryCare
