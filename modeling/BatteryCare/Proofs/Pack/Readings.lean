import BatteryCare.Pack.Readings
import BatteryCare.Proofs.Number.Order
import Mathlib.Data.Finset.Max

/-!
# The charge current and its median

The charge current rises with the reading, over all readings that there are (`chargeCurrent_mono`),
so each of them is a number. Among numbers the middle one of a window exists, and it is a median: at
most half of the window lies below it, and more than half does not lie above it (`middle_spec`). So
up to two currents out of five that lie far off do not show.
-/

namespace BatteryCare

/-! ## The current of a reading -/

theorem Single.ofNat_mono {m n : Nat} (h : m ≤ n) : ofNat m ≤ ofNat n := by
  rw [ofNat_eq_rounded, ofNat_eq_rounded]
  exact rounded_mono (Nat.cast_le.mpr h)

/-- Output of the sense amplifier (mV). -/
def senseOutput (counts : Nat) : Single := .ofNat counts * referenceVoltage / converterRange

theorem senseOutput_mono {m n : Nat} (h : m ≤ n) : senseOutput m ≤ senseOutput n := by
  have hreference : referenceVoltage.isFinite ∧ referenceVoltage.value = (3300 : Nat) :=
    Single.ofNat_exact (n := 3300) (by decide)
  have hrange : converterRange.isFinite ∧ converterRange.value = (4096 : Nat) :=
    Single.ofNat_exact (n := 4096) (by decide)
  refine Single.div_mono hrange.1 (by rw [hrange.2]; norm_num) ?_
  exact Single.mul_mono hreference.1 (by rw [hreference.2]; norm_num) (Single.ofNat_mono h)

theorem isFinite_senseOutput (raw : UInt16) : (senseOutput raw.toNat).isFinite :=
  Single.isFinite_of_between (senseOutput_mono (Nat.zero_le _))
    (senseOutput_mono (Nat.le_of_lt_succ raw.toNat_lt)) (by decide) (by decide)

/-- **A higher reading is a higher current.** -/
theorem chargeCurrent_mono {raw raw' : UInt16} (h : raw ≤ raw') :
    chargeCurrent raw ≤ chargeCurrent raw' := by
  have hgain : senseGain.isFinite ∧ senseGain.value = (2 : Nat) :=
    Single.ofNat_exact (n := 2) (by decide)
  have hrest : senseRest.isFinite := (Single.ofNat_exact (n := 1650) (by decide)).1
  have houtput := senseOutput_mono (UInt16.le_iff_toNat_le.mp h)
  rw [Single.le_iff_value (isFinite_senseOutput raw) (isFinite_senseOutput raw')] at houtput
  refine Single.mul_mono hgain.1 (by rw [hgain.2]; norm_num) ?_
  change senseOutput raw.toNat - senseRest ≤ senseOutput raw'.toNat - senseRest
  rw [Single.sub_eq_rounded (isFinite_senseOutput raw) hrest,
    Single.sub_eq_rounded (isFinite_senseOutput raw') hrest]
  exact Single.rounded_mono (by linarith)

theorem chargeCurrent_ne_nan (raw : UInt16) : chargeCurrent raw ≠ .nan :=
  (Single.ne_nan_of_le (chargeCurrent_mono (UInt16.le_refl raw))).1

/-! ## The median -/

section Middle

variable {window : List Single}

/-- Among the numbers with a property there is a least one. -/
theorem exists_least {p : Single → Prop} [DecidablePred p] (hnum : ∀ x ∈ window, x ≠ .nan)
    (h : ∃ x ∈ window, p x) : ∃ x ∈ window, p x ∧ ∀ y ∈ window, p y → x ≤ y := by
  obtain ⟨x, hx, hp⟩ := h
  have hmem : x ∈ (window.filter (p ·)).toFinset := by simp [hx, hp]
  obtain ⟨least, hleast, hle⟩ := Finset.exists_min_image _ Single.place ⟨x, hmem⟩
  simp only [List.mem_toFinset, List.mem_filter, decide_eq_true_eq] at hleast hle
  refine ⟨least, hleast.1, hleast.2, fun y hy hpy => ?_⟩
  exact Single.le_iff_place.mpr ⟨hnum least hleast.1, hnum y hy, hle y ⟨hy, hpy⟩⟩

/-- And there is a greatest one. -/
theorem exists_greatest {p : Single → Prop} [DecidablePred p] (hnum : ∀ x ∈ window, x ≠ .nan)
    (h : ∃ x ∈ window, p x) : ∃ x ∈ window, p x ∧ ∀ y ∈ window, p y → y ≤ x := by
  obtain ⟨x, hx, hp⟩ := h
  have hmem : x ∈ (window.filter (p ·)).toFinset := by simp [hx, hp]
  obtain ⟨greatest, hgreatest, hge⟩ := Finset.exists_max_image _ Single.place ⟨x, hmem⟩
  simp only [List.mem_toFinset, List.mem_filter, decide_eq_true_eq] at hgreatest hge
  refine ⟨greatest, hgreatest.1, hgreatest.2, fun y hy hpy => ?_⟩
  exact Single.le_iff_place.mpr ⟨hnum y hy, hnum greatest hgreatest.1, hge y ⟨hy, hpy⟩⟩

/-- Some number of the window has at most half of it below, and more than half not above. -/
theorem exists_middle (hne : window ≠ []) (hnum : ∀ x ∈ window, x ≠ .nan) :
    ∃ x ∈ window, window.countP (· < x) ≤ window.length / 2
      ∧ window.length / 2 < window.countP (· ≤ x) := by
  have hpos : 0 < window.length := List.length_pos_iff.mpr hne
  -- nothing lies above the greatest number
  obtain ⟨x, hx, hmany, hleast⟩ := exists_least
    (p := fun x => window.length / 2 < window.countP (· ≤ x)) hnum (by
      obtain ⟨top, htop, -, hge⟩ := exists_greatest (p := fun _ => True) hnum
        ⟨_, List.head_mem hne, trivial⟩
      refine ⟨top, htop, ?_⟩
      rw [List.countP_eq_length.mpr fun y hy => decide_eq_true (hge y hy trivial)]
      omega)
  refine ⟨x, hx, ?_, hmany⟩
  by_contra hbelow
  -- the greatest number below `x` would do as well, and it is less
  obtain ⟨y, hy, hlt, hgreatest⟩ := exists_greatest (p := (· < x)) hnum (by
    have hcount : 0 < window.countP (· < x) := by omega
    simpa using List.countP_pos_iff.mp hcount)
  have hcount : window.countP (· < x) ≤ window.countP (· ≤ y) :=
    List.countP_mono_left fun z hz hzx => decide_eq_true (hgreatest z hz (of_decide_eq_true hzx))
  have hle : x ≤ y := hleast y hy (by omega)
  have hnot : (!x.ble y) = true := (Bool.and_eq_true_iff.mp hlt).2
  rw [show x.ble y = true from hle] at hnot
  cases hnot

/-- **The middle of a window is a median** of the numbers in it. -/
theorem middle_spec (hne : window ≠ []) (hnum : ∀ x ∈ window, x ≠ .nan) :
    middle window ∈ window ∧ window.countP (· < middle window) ≤ window.length / 2
      ∧ window.length / 2 < window.countP (· ≤ middle window) := by
  obtain ⟨x, hx, hbelow, hmany⟩ := exists_middle hne hnum
  have hsome : (window.find? fun x => window.countP (· < x) ≤ window.length / 2
      && window.length / 2 < window.countP (· ≤ x)).isSome :=
    List.find?_isSome.mpr
      ⟨x, hx, Bool.and_eq_true_iff.mpr ⟨decide_eq_true hbelow, decide_eq_true hmany⟩⟩
  obtain ⟨y, hy⟩ := Option.isSome_iff_exists.mp hsome
  have hmiddle : middle window = y := congrArg (Option.getD · 0) hy
  have hspec := List.find?_some hy
  rw [Bool.and_eq_true, decide_eq_true_iff, decide_eq_true_iff] at hspec
  rw [hmiddle]
  exact ⟨List.mem_of_find?_eq_some hy, hspec⟩

end Middle

/-- The middle current of some readings is that of one of them. -/
theorem middle_chargeCurrent {raws : List UInt16} (hne : raws ≠ []) :
    ∃ raw ∈ raws, middle (raws.map chargeCurrent) = chargeCurrent raw := by
  have hnum : ∀ x ∈ raws.map chargeCurrent, x ≠ .nan :=
    List.forall_mem_map.mpr fun raw _ => chargeCurrent_ne_nan raw
  obtain ⟨hmem, -, -⟩ := middle_spec (mt List.map_eq_nil_iff.mp hne) hnum
  obtain ⟨raw, hraw, heq⟩ := List.mem_map.mp hmem
  exact ⟨raw, hraw, heq.symm⟩

/-- A window of currents with an outlier. -/
example : middle [chargeCurrent 3000, 0, 0, 0, 0] = 0 := by decide

end BatteryCare
