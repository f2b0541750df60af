import BatteryCare.Proofs.Gauge.WriteCache
import Mathlib.Algebra.Order.Floor.Div

/-!
# How a settling estimate catches up

Each sample moves a settling estimate by one step towards the measured charge, and never past it
(`stepsTowards_of_settling`). The step and the sum with it are rounded, so the estimate may fall
short of a whole step; but it falls short by less than a unit over any number of samples that
settling can take, while a step is 176 units for each of its percent. So under samples of one
voltage settling is over after as many of them as it takes steps to cross a full pack, and one more,
and once it is over it stays so (`settles`).
-/

namespace BatteryCare

open Single

namespace Gauge

/-! ## One step -/

variable {c : GaugeConfig} {current measured charge : Single}

/-- A charge with a step on it, up or down, is rounded by little. -/
theorem add_near {step : Single} {q : ℚ} (h : InPack current) (hstep : step.isFinite)
    (hq : |q| ≤ 45000) (hnear : |step.value - q| ≤ 1 / 512) :
    (current + step).isFinite ∧ |(current + step).value - (current.value + q)| ≤ 1 / 256 := by
  obtain ⟨hfin, hlo, hhi⟩ := inPack_iff.mp h
  rw [abs_le] at hq hnear
  rw [add_eq_rounded hfin hstep]
  obtain ⟨hfin', hnear'⟩ := rounded_near (q := current.value + step.value) (k := 16) (by decide) (by
    rw [abs_lt]
    constructor
    · linarith [hq.1, hnear.1]
    · linarith [hq.2, hnear.2])
  rw [abs_le] at hnear'
  refine ⟨hfin', abs_le.mpr ⟨?_, ?_⟩⟩
  · linarith [hnear.1, hnear'.1]
  · linarith [hnear.2, hnear'.2]

theorem add_stepCharge_near (c : GaugeConfig) (h : InPack current) :
    (current + stepCharge c).isFinite
      ∧ |(current + stepCharge c).value - (current.value + 176.4 * c.settleStep.toNat)|
        ≤ 1 / 256 := by
  obtain ⟨hstep, hnear⟩ := stepCharge_near c
  exact add_near h hstep (abs_step_le c) hnear

theorem sub_stepCharge_near (c : GaugeConfig) (h : InPack current) :
    (current - stepCharge c).isFinite
      ∧ |(current - stepCharge c).value - (current.value - 176.4 * c.settleStep.toNat)|
        ≤ 1 / 256 := by
  obtain ⟨hstep, hnear⟩ := stepCharge_near c
  rw [Single.sub_eq_add_neg, sub_eq_add_neg current.value]
  exact add_near h (by rwa [isFinite_neg]) (by rw [abs_neg]; exact abs_step_le c)
    (by rwa [value_neg, neg_sub_neg, abs_sub_comm])

/-- A settling charge moves by a step at most. -/
theorem Approaches.near (h : Approaches current measured (stepCharge c) charge)
    (hcurrent : InPack current) (hmeasured : InPack measured) :
    |charge.value - current.value| ≤ 176.4 * c.settleStep.toNat + 1 / 256 := by
  obtain ⟨hup, hnearup⟩ := add_stepCharge_near c hcurrent
  obtain ⟨hdown, hneardown⟩ := sub_stepCharge_near c hcurrent
  have hstep : (0 : ℚ) ≤ c.settleStep.toNat := Nat.cast_nonneg _
  rw [abs_le] at hnearup hneardown ⊢
  cases h with
  | arrive hlo hhi =>
    have hfin := (inPack_iff.mp hmeasured).1
    rw [le_iff_value hdown hfin] at hlo
    rw [le_iff_value hfin hup] at hhi
    exact ⟨by linarith [hneardown.1], by linarith [hnearup.2]⟩
  | rise _ => exact ⟨by linarith [hnearup.1], by linarith [hnearup.2]⟩
  | fall _ => exact ⟨by linarith [hneardown.1], by linarith [hneardown.2]⟩

/-- **A settling charge that does not arrive comes closer by a step.** -/
theorem Approaches.closer (h : Approaches current measured (stepCharge c) charge)
    (hcurrent : InPack current) (hmeasured : InPack measured) (hne : charge ≠ measured) :
    |measured.value - charge.value| + 176.4 * c.settleStep.toNat
      ≤ |measured.value - current.value| + 1 / 256 := by
  have hfin := (inPack_iff.mp hmeasured).1
  cases h with
  | arrive _ _ => exact absurd rfl hne
  | rise h =>
    obtain ⟨hup, hnear⟩ := add_stepCharge_near c hcurrent
    rw [le_iff_value hup hfin] at h
    rw [abs_of_nonneg (sub_nonneg.mpr h)]
    linarith [(abs_le.mp hnear).1, le_abs_self (measured.value - current.value)]
  | fall h =>
    obtain ⟨hdown, hnear⟩ := sub_stepCharge_near c hcurrent
    rw [le_iff_value hfin hdown] at h
    rw [abs_of_nonpos (sub_nonpos.mpr h)]
    linarith [(abs_le.mp hnear).2, neg_abs_le (measured.value - current.value)]

/-! ## One sample -/

/-- What a sample does to a settling gauge. -/
structure StepsTowards (before after : Gauge) (voltage : UInt16) : Prop where
  /-- The charge moves by a step, or arrives where the measured one is within a step. -/
  charge : Approaches before.charge (chargeOf voltage) (stepCharge before.config) after.charge
  /-- It does not pass the measured charge. -/
  between : before.charge ≤ after.charge ∧ after.charge ≤ chargeOf voltage
    ∨ chargeOf voltage ≤ after.charge ∧ after.charge ≤ before.charge
  /-- The level does not pass the level of the measured charge. -/
  levels : before.percent ≤ after.percent ∧ after.percent ≤ percentOf (chargeOf voltage)
    ∨ percentOf (chargeOf voltage) ≤ after.percent ∧ after.percent ≤ before.percent
  /-- The level moves by the percent of a step and one more at most. -/
  close : Nat.dist before.percent.toNat after.percent.toNat ≤ before.config.settleStep.toNat + 1

theorem stepsTowards {before after : Gauge} {voltage : UInt16} (hbefore : before.ShowsPack)
    (hafter : after.ShowsPack)
    (h : Approaches before.charge (chargeOf voltage) (stepCharge before.config) after.charge) :
    StepsTowards before after voltage := by
  have hmeasured := inPack_chargeOf voltage
  have hbetween := h.between hbefore.charge hmeasured
  have hnear := h.near hbefore.charge hmeasured
  refine ⟨h, hbetween, ?_, ?_⟩
  · rw [hbefore.percent, hafter.percent]
    refine hbetween.imp ?_ ?_
    · rintro ⟨hlo, hhi⟩
      exact ⟨percentOf_mono hlo, percentOf_mono hhi⟩
    · rintro ⟨hlo, hhi⟩
      exact ⟨percentOf_mono hlo, percentOf_mono hhi⟩
  · rw [hbefore.percent, hafter.percent]
    exact dist_percentOf_le hbefore.charge hafter.charge (by rw [abs_sub_comm]; linarith)

end Gauge

namespace Instrument

section

variable {i : Instrument} {voltage : UInt16} (hv : Gauge.isPlausible i.gauge.config voltage = true)

include hv

theorem charge_act : (i.act (.sample voltage)).gauge.charge = i.gauge.aim voltage := by
  have hknown := ((Gauge.update_move i.gauge i.store voltage).measured hv).1
  change (i.gauge.update i.store voltage).gauge.charge = _
  rw [Gauge.charge, Gauge.estimate?, hknown]
  rfl

theorem settling_act : (i.act (.sample voltage)).gauge.settling
    = (i.gauge.settling && i.gauge.aim voltage ≠ chargeOf voltage) :=
  ((Gauge.update_move i.gauge i.store voltage).measured hv).2

end

theorem Sound.stepsTowards {i : Instrument} (h : i.Sound) (hsettling : i.gauge.settling = true)
    {voltage : UInt16} (hv : Gauge.isPlausible i.gauge.config voltage = true) :
    Gauge.StepsTowards i.gauge (i.act (.sample voltage)).gauge voltage := by
  refine Gauge.stepsTowards h.shows (h.act _).shows ?_
  rw [charge_act hv, Gauge.aim, if_pos hsettling]
  exact Gauge.settleTowards_approaches _ h.shows.charge (inPack_chargeOf voltage)

/-- **A settling gauge moves towards the measured charge by one step, and never past it.** -/
theorem stepsTowards_of_settling (config : GaugeConfig) (store : Store) (incidents : List Incident)
    (hsettling : ((start config store).run incidents).gauge.settling = true) (voltage : UInt16)
    (hv : Gauge.isPlausible config voltage = true) :
    Gauge.StepsTowards ((start config store).run incidents).gauge
      (((start config store).run incidents).act (.sample voltage)).gauge voltage := by
  refine (sound_run config store incidents).stepsTowards hsettling ?_
  rwa [config_run_start]

theorem stepsTowards_of_settling_down :
    ((start {} { image := [Estimate.marker, 8820, 50] }).run [.sample 7200]).gauge.settling = true
      ∧ Gauge.isPlausible {} 6000 = true
      ∧ Gauge.StepsTowards
          ((start {} { image := [Estimate.marker, 8820, 50] }).run [.sample 7200]).gauge
          (((start {} { image := [Estimate.marker, 8820, 50] }).run [.sample 7200]).act
            (.sample 6000)).gauge 6000 :=
  ⟨by decide +kernel, by decide +kernel,
    stepsTowards_of_settling {} _ _ (by decide +kernel) 6000 (by decide +kernel)⟩

end Instrument

/-! ## Any number of samples -/

/-- The voltages of the samples that are accepted. -/
def Incident.voltages (config : GaugeConfig) (incidents : List Incident) : List UInt16 :=
  incidents.filterMap fun
    | .sample voltage => if Gauge.isPlausible config voltage then some voltage else none
    | _ => none

theorem Incident.voltages_append (config : GaugeConfig) (xs ys : List Incident) :
    voltages config (xs ++ ys) = voltages config xs ++ voltages config ys :=
  List.filterMap_append

/-- As long as the gauge is not replaced, an incident is a sample that it accepts or leaves it as it
is. -/
theorem Incident.accepted_or_quiet (config : GaugeConfig) {x : Incident} (hx : x ≠ .restart) :
    (∃ voltage, x = .sample voltage ∧ Gauge.isPlausible config voltage = true
        ∧ voltages config [x] = [voltage])
      ∨ x.IsQuiet config ∧ voltages config [x] = [] := by
  cases x with
  | faults _ _ => exact .inr ⟨trivial, rfl⟩
  | receive _ => exact .inr ⟨trivial, rfl⟩
  | restart => exact absurd rfl hx
  | sample voltage =>
    cases hv : Gauge.isPlausible config voltage with
    | true => exact .inl ⟨voltage, rfl, hv, by simp [voltages, hv]⟩
    | false => exact .inr ⟨hv, by simp [voltages, hv]⟩

namespace Gauge

/-- The gauge is on its way to the charge of `voltage`, after `n` samples of it. -/
structure Nears (g : Gauge) (voltage : UInt16) (n : Nat) : Prop where
  /-- While it is settling, each sample has brought it closer, by 176 units for each percent of a
  step. -/
  gap : g.settling = true → |(chargeOf voltage).value - g.charge.value|
    ≤ 17640 - 176 * (g.config.settleStep.toNat * n)
  arrived : g.settling = false → 0 < n → g.charge = chargeOf voltage

theorem nears_zero {g : Gauge} (h : g.ShowsPack) (voltage : UInt16) : g.Nears voltage 0 := by
  refine ⟨fun _ => ?_, fun _ hpos => absurd hpos (Nat.lt_irrefl 0)⟩
  obtain ⟨-, hlo, hhi⟩ := inPack_iff.mp h.charge
  obtain ⟨-, hlo', hhi'⟩ := inPack_iff.mp (inPack_chargeOf voltage)
  rw [Nat.cast_zero, mul_zero, mul_zero, sub_zero, abs_le]
  exact ⟨by linarith, by linarith⟩

/-- Steps enough for a full pack, and one more, leave nothing to settle. -/
theorem Nears.settled {g : Gauge} {voltage : UInt16} {n : Nat} (h : g.Nears voltage n)
    (hstep : 1 ≤ g.config.settleStep.toNat) (hn : 100 ⌈/⌉ g.config.settleStep.toNat + 1 ≤ n) :
    g.settling = false := by
  rw [Bool.eq_false_iff]
  intro hsettling
  have hgap := (abs_nonneg _).trans (h.gap hsettling)
  have hfull : 100 ≤ g.config.settleStep.toNat * (100 ⌈/⌉ g.config.settleStep.toNat) := by
    rw [← smul_eq_mul]
    exact le_smul_ceilDiv hstep
  have hcovered : 100 + g.config.settleStep.toNat ≤ g.config.settleStep.toNat * n :=
    calc 100 + g.config.settleStep.toNat
        ≤ g.config.settleStep.toNat * (100 ⌈/⌉ g.config.settleStep.toNat)
          + g.config.settleStep.toNat := Nat.add_le_add_right hfull _
      _ = g.config.settleStep.toNat * (100 ⌈/⌉ g.config.settleStep.toNat + 1) :=
          (Nat.mul_succ _ _).symm
      _ ≤ g.config.settleStep.toNat * n := Nat.mul_le_mul_left _ hn
  have hone : (1 : ℚ) ≤ g.config.settleStep.toNat := by exact_mod_cast hstep
  -- a hundred percent at 176 units leave 40 units of a full pack, which the one more step covers
  have hcovered' : (100 + g.config.settleStep.toNat : ℚ) ≤ g.config.settleStep.toNat * n := by
    exact_mod_cast hcovered
  linarith

end Gauge

namespace Instrument

/-- **Each accepted sample brings a settling gauge closer by a step.** -/
theorem Sound.nears {i : Instrument} (hsound : i.Sound)
    (hstep : 1 ≤ i.gauge.config.settleStep.toNat) {voltage : UInt16} {n : Nat}
    (h : i.gauge.Nears voltage n) (hv : Gauge.isPlausible i.gauge.config voltage = true) :
    (i.act (.sample voltage)).gauge.Nears voltage (n + 1) := by
  have hmeasured := inPack_chargeOf voltage
  cases hsettling : i.gauge.settling with
  | false =>
    -- a gauge that is not settling shows the measured charge at once
    refine ⟨fun hafter => ?_, fun _ _ => ?_⟩
    · rw [settling_act hv, hsettling] at hafter
      exact absurd hafter (by simp)
    · rw [charge_act hv, Gauge.aim, hsettling, if_neg Bool.false_ne_true]
  | true =>
    refine ⟨fun hafter => ?_, fun hafter _ => ?_⟩
    · rw [settling_act hv, hsettling, Bool.true_and, decide_eq_true_eq] at hafter
      rw [charge_act hv, config_act]
      rw [Gauge.aim, if_pos hsettling] at hafter ⊢
      have hcloser := (Gauge.settleTowards_approaches _ hsound.shows.charge hmeasured).closer
        hsound.shows.charge hmeasured hafter
      have hgap := h.gap hsettling
      have hone : (1 : ℚ) ≤ i.gauge.config.settleStep.toNat := by exact_mod_cast hstep
      -- the 0.4 units of each percent that are not counted make up for the rounding
      rw [Nat.cast_succ, mul_add, mul_one]
      linarith
    · rw [settling_act hv, hsettling, Bool.true_and, decide_eq_false_iff_not, not_not] at hafter
      rw [charge_act hv, hafter]

theorem nears_run {config : GaugeConfig} (hstep : 1 ≤ config.settleStep.toNat) (store : Store)
    {voltage : UInt16} {incidents : List Incident} (hsame : .restart ∉ incidents)
    (hvoltages : ∀ v ∈ Incident.voltages config incidents, v = voltage) :
    ((start config store).run incidents).gauge.Nears voltage
      (Incident.voltages config incidents).length := by
  -- from the end of the run, since only its last incident tells whether there is a sample to count
  induction incidents using List.reverseRecOn with
  | nil => exact Gauge.nears_zero (sound_start config store).shows voltage
  | append_singleton xs x ih =>
    rw [List.mem_append, not_or, List.mem_singleton] at hsame
    rw [Incident.voltages_append] at hvoltages ⊢
    rw [List.forall_mem_append] at hvoltages
    have hpast := ih hsame.1 hvoltages.1
    have hsound := sound_run config store xs
    have hconfig := config_run_start config store xs
    rw [run_append, run_cons, run_nil]
    generalize (start config store).run xs = i at *
    subst hconfig
    obtain ⟨v, rfl, hv, hcount⟩ | ⟨hquiet, hcount⟩ :=
      Incident.accepted_or_quiet i.gauge.config (Ne.symm hsame.2)
    · rw [hcount] at hvoltages
      obtain rfl := hvoltages.2 v (List.mem_singleton.mpr rfl)
      rw [hcount, List.length_append, List.length_singleton]
      exact hsound.nears hstep hpast hv
    · rw [hcount, List.append_nil, gauge_act_of_quiet hquiet]
      exact hpast

theorem settled_run {i : Instrument} (h : i.gauge.settling = false) {later : List Incident}
    (hsame : .restart ∉ later) : (i.run later).gauge.settling = false := by
  induction later generalizing i with
  | nil => exact h
  | cons x rest ih =>
    rw [List.mem_cons, not_or] at hsame
    refine ih ?_ hsame.2
    obtain ⟨v, rfl, hv, -⟩ | ⟨hquiet, -⟩ :=
      Incident.accepted_or_quiet i.gauge.config (Ne.symm hsame.1)
    · rw [settling_act hv, h, Bool.false_and]
    · rw [gauge_act_of_quiet hquiet]
      exact h

/-- What settling comes to on a store, with any record in it. -/
structure Settles (config : GaugeConfig) (store : Store) : Prop where
  /-- Under samples of one voltage settling is over after as many of them as it takes steps to cross
  a full pack, and one more. Rejected samples and failed writes in between do not matter. -/
  arrives : 1 ≤ config.settleStep.toNat → ∀ voltage : UInt16, ∀ incidents : List Incident,
    .restart ∉ incidents → (∀ v ∈ Incident.voltages config incidents, v = voltage) →
    100 ⌈/⌉ config.settleStep.toNat + 1 ≤ (Incident.voltages config incidents).length →
    ((start config store).run incidents).gauge.settling = false
      ∧ ((start config store).run incidents).gauge.charge = chargeOf voltage
  /-- Once settling is over it stays so as long as the gauge is not replaced, and the gauge follows
  the samples. -/
  follows : ∀ past later : List Incident, .restart ∉ later →
    ((start config store).run past).gauge.settling = false →
    ((start config store).run (past ++ later)).gauge.settling = false
      ∧ ∀ voltage : UInt16, Gauge.isPlausible config voltage = true →
        (((start config store).run (past ++ later)).act (.sample voltage)).gauge.charge
            = chargeOf voltage
          ∧ (((start config store).run (past ++ later)).act (.sample voltage)).gauge.percent
            = percentOf (chargeOf voltage)

/-- **Settling ends, and for good.** -/
theorem settles (config : GaugeConfig) (store : Store) : Settles config store := by
  refine ⟨?_, ?_⟩
  · intro hstep voltage incidents hsame hvoltages hn
    have hnears := nears_run hstep store hsame hvoltages
    have hconfig := config_run_start config store incidents
    have hsettled := hnears.settled (by rwa [hconfig]) (by rwa [hconfig])
    exact ⟨hsettled, hnears.arrived hsettled (Nat.lt_of_lt_of_le (Nat.succ_pos _) hn)⟩
  · intro past later hsame hsettled
    have hlater := settled_run hsettled hsame
    rw [← run_append] at hlater
    refine ⟨hlater, fun voltage hv => ?_⟩
    have hsound := sound_run config store (past ++ later)
    have hconfig := config_run_start config store (past ++ later)
    generalize (start config store).run (past ++ later) = i at *
    subst hconfig
    have hcharge : (i.act (.sample voltage)).gauge.charge = chargeOf voltage := by
      rw [charge_act hv, Gauge.aim, hlater, if_neg Bool.false_ne_true]
    exact ⟨hcharge, by rw [(hsound.act _).shows.percent, hcharge]⟩

/-- A full pack that turns out to be nearly empty, in steps of 30 percent, with a voltage that is
turned away and a charge that cannot be written in between. -/
def draining : List Incident :=
  [.sample 5900, .faults [] [1], .sample 5900, .sample 0, .sample 5900, .faults [] [], .sample 5900,
    .sample 5900]

theorem settles_draining :
    (start { settleStep := 30 } { image := [Estimate.marker, 17640, 3] }).gauge.settling = true
      ∧ .restart ∉ draining
      ∧ Incident.voltages { settleStep := 30 } draining = List.replicate (100 ⌈/⌉ 30 + 1) 5900
      ∧ ((start { settleStep := 30 } { image := [Estimate.marker, 17640, 3] }).run
          draining).gauge.settling = false
      ∧ ((start { settleStep := 30 } { image := [Estimate.marker, 17640, 3] }).run
          draining).gauge.charge = chargeOf 5900 := by
  have hsame : .restart ∉ draining := by decide
  have hvoltages : Incident.voltages { settleStep := 30 } draining
      = List.replicate (100 ⌈/⌉ 30 + 1) 5900 := by decide +kernel
  refine ⟨by decide +kernel, hsame, hvoltages, ?_⟩
  refine (settles { settleStep := 30 } { image := [Estimate.marker, 17640, 3] }).arrives (by decide)
    5900 draining hsame (fun v hv => ?_) ?_
  · rw [hvoltages] at hv
    exact List.eq_of_mem_replicate hv
  · rw [hvoltages, List.length_replicate]
    exact Nat.le_refl _

end Instrument

end BatteryCare
