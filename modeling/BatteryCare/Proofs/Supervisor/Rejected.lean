import BatteryCare.Proofs.Charger.Recall
import BatteryCare.Proofs.Gauge.Moves
import BatteryCare.Supervisor
import Mathlib.Data.List.Induction

/-!
# Samples that the gauge turns away

Gauge and charger judge the same voltage, each by limits of its own. Both turn away what is too low,
and there the charger stops in the same tick. Only the gauge has a limit at the upper end: what it
takes for a sensor fault there is a full pack to the charger (`not_stops_overvoltage`).

So a fault at the lower end stops the charger at once, and one at the upper end does so after the
ticks that a full pack has to last (`stops_of_rejected`).
-/

namespace BatteryCare

/-- A supervisor and the store of its gauge. -/
structure Supervision where
  supervisor : Supervisor
  store : Store

/-- What can happen to a supervisor and its store. -/
inductive Duty where
  /-- A control tick on a sample taken at `now` (ms). -/
  | tick (s : Sample) (now : UInt32)
  /-- The power state at `now` (ms). -/
  | power (power : PowerState) (now : UInt32)
  /-- From now on these addresses cannot be read, and those not be written. -/
  | faults (reads writes : List UInt16)
  /-- Up to `n` writes are taken off the queue. -/
  | receive (n : Nat)

/-- The charger is off after the tick, and no pack was told to be full. -/
def Tick.Stops (t : Tick) : Prop := t.report.status ≠ .active ∧ .fullCharge ∉ t.calls

instance (t : Tick) : Decidable t.Stops := inferInstanceAs (Decidable (_ ∧ _))

namespace Supervision

def start (config : SupervisorConfig) (store : Store) : Supervision := ⟨.start config store, store⟩

def tick (v : Supervision) (s : Sample) (now : UInt32) : Tick := v.supervisor.tick v.store s now

def act (v : Supervision) : Duty → Supervision
  | .tick s now => ⟨(v.tick s now).supervisor, (v.tick s now).store⟩
  | .power power now => { v with supervisor := v.supervisor.setPower power now }
  | .faults reads writes =>
    { v with store := { v.store with faultyReads := reads, faultyWrites := writes } }
  | .receive n => { v with store := (v.store.receive n).2 }

def run (v : Supervision) (duties : List Duty) : Supervision := duties.foldl act v

/-- The ticks of a run, each with its sample. -/
def ticks (v : Supervision) : List Duty → List (Sample × Tick)
  | [] => []
  | .tick s now :: rest => (s, v.tick s now) :: (v.act (.tick s now)).ticks rest
  | .power power now :: rest => (v.act (.power power now)).ticks rest
  | .faults reads writes :: rest => (v.act (.faults reads writes)).ticks rest
  | .receive n :: rest => (v.act (.receive n)).ticks rest

/-- The samples of a run. -/
def samples (v : Supervision) (duties : List Duty) : List Sample := (v.ticks duties).map Prod.fst

theorem config_act (v : Supervision) (duty : Duty) :
    (v.act duty).supervisor.gauge.config = v.supervisor.gauge.config
      ∧ (v.act duty).supervisor.charger.config = v.supervisor.charger.config := by
  cases duty with
  | tick s now =>
    exact ⟨(Gauge.update_move v.supervisor.gauge v.store s.voltage).config_eq,
      (Charger.step_move v.supervisor.charger s).config_eq⟩
  | power power now => exact ⟨rfl, rfl⟩
  | faults reads writes => exact ⟨rfl, rfl⟩
  | receive n => exact ⟨rfl, rfl⟩

/-- What holds of every single tick under a configuration holds of the ticks of a run. -/
theorem forall_mem_ticks {v : Supervision} {duties : List Duty} {P : Sample × Tick → Prop}
    (h : ∀ v' : Supervision, v'.supervisor.gauge.config = v.supervisor.gauge.config →
      v'.supervisor.charger.config = v.supervisor.charger.config →
      ∀ s now, P (s, v'.tick s now)) :
    ∀ t ∈ v.ticks duties, P t := by
  induction duties generalizing v with
  | nil => exact fun t ht => absurd ht (by simp [ticks])
  | cons duty rest ih =>
    have hrest : ∀ t ∈ (v.act duty).ticks rest, P t := by
      obtain ⟨hgauge, hcharger⟩ := v.config_act duty
      refine ih fun v' hg hc => h v' (hg.trans hgauge) (hc.trans hcharger)
    cases duty with
    | tick s now =>
      intro t ht
      rcases List.mem_cons.mp ht with rfl | ht
      · exact h v rfl rfl s now
      · exact hrest t ht
    | power power now => exact hrest
    | faults reads writes => exact hrest
    | receive n => exact hrest

/-- The charger sees the samples, and nothing else reaches it. -/
theorem charger_run (v : Supervision) (duties : List Duty) :
    (v.run duties).supervisor.charger = v.supervisor.charger.after (v.samples duties) := by
  induction duties generalizing v with
  | nil => rfl
  | cons duty rest ih =>
    have hrest := ih (v.act duty)
    cases duty with
    | tick s now => exact hrest
    | power power now => exact hrest
    | faults reads writes => exact hrest
    | receive n => exact hrest

theorem run_append (v : Supervision) (xs ys : List Duty) :
    v.run (xs ++ ys) = (v.run xs).run ys :=
  List.foldl_append

end Supervision

/-! ## The lower end -/

theorem Gauge.isPlausible_eq_false_iff {c : GaugeConfig} {voltage : UInt16} :
    isPlausible c voltage = false
      ↔ voltage = 0 ∨ voltage < c.minVoltage ∨ c.maxVoltage < voltage := by
  rw [isPlausible, Bool.and_eq_false_iff, Bool.and_eq_false_iff]
  simp [or_assoc]

theorem Supervisor.report_voltage_eq_none_iff {v : Supervisor} {store : Store} {s : Sample}
    {now : UInt32} :
    (v.tick store s now).report.voltage = none
      ↔ Gauge.isPlausible v.gauge.config s.voltage = false := by
  change (if Gauge.isPlausible v.gauge.config s.voltage then some s.voltage else none) = none ↔ _
  split
  · simp [*]
  · simp [*]

/-- A tick on an unsafe sample stops the charger. -/
theorem Supervisor.stops_of_not_safe {v : Supervisor} {s : Sample}
    (hs : ¬ s.Safe v.charger.config) (store : Store) (now : UInt32) :
    (v.tick store s now).Stops := by
  have hmove := v.charger.step_move s
  change (v.charger.step s).1.status ≠ .active ∧ .fullCharge ∉ (v.charger.step s).2
  refine ⟨fun hactive => hs (hmove.safe_of_active hactive), ?_⟩
  generalize (v.charger.step s).1 = c' at hmove
  generalize (v.charger.step s).2 = calls at hmove
  cases hmove with
  | finish hc hs' hq => exact absurd (Charger.isSafe_iff.mp hs') hs
  | reset hc => simp
  | unplug hc hs' => simp
  | start hc hs' hq => simp
  | hold hc hs' hq => simp
  | cut hc hs' => simp
  | charge hc hs' hq => simp

/-! ## The upper end -/

/-- While ticks speak for a full pack and against a new cycle, an active charger counts them. -/
theorem length_le_streak {config : ChargerConfig} (past : List Sample) {samples : List Sample}
    (h : ∀ s ∈ samples, Charger.mayStart config s = false ∧ Charger.isFull config s = true)
    (ha : (({ config } : Charger).after (past ++ samples)).status = .active) :
    samples.length ≤ streak (Processed.Fills config)
      (memory (({ config } : Charger).run (past ++ samples))) := by
  induction samples using List.reverseRecOn with
  | nil => exact Nat.zero_le _
  | append_singleton xs s ih =>
    obtain ⟨hstart, hfull⟩ := h s (by simp)
    have hconfig := ({ config } : Charger).after_config (past ++ xs)
    rw [← List.append_assoc, Charger.after_concat] at ha
    rw [← List.append_assoc, Charger.run_concat, memory_concat]
    have hmove := (({ config } : Charger).after (past ++ xs)).step_move s
    generalize hc' : ((({ config } : Charger).after (past ++ xs)).step s).1 = c' at hmove ha
    generalize ((({ config } : Charger).after (past ++ xs)).step s).2 = calls at hmove
    -- the charger is active after the tick only if the tick started the cycle or counted on
    cases hmove with
    | start hc hs hq =>
      have hmay := Debounce.condition_of_commit hq
      rw [hconfig] at hmay
      exact absurd (hmay.symm.trans hstart) (by simp)
    | charge hc hs hq =>
      rw [hc, streak_cons_of_pos (isFull_iff_fills.mp hfull), List.length_append,
        List.length_singleton]
      exact Nat.add_le_add_right (ih (fun s hs => h s (by simp [hs])) hc) 1
    | reset hc => exact absurd ha (by simp [Charger.enter])
    | unplug hc hs => exact absurd ha (by simp [Charger.enter])
    | hold hc hs hq => exact absurd (hc.symm.trans ha) (by simp)
    | cut hc hs => exact absurd ha (by simp [Charger.enter])
    | finish hc hs hq => exact absurd ha (by simp [Charger.enter])

/-- Enough such ticks leave no charger active. -/
theorem not_active_of_full {config : ChargerConfig} (past : List Sample) {samples : List Sample}
    (h : ∀ s ∈ samples, Charger.mayStart config s = false ∧ Charger.isFull config s = true)
    (hlength : config.ticksNeeded ≤ samples.length) :
    (({ config } : Charger).after (past ++ samples)).status ≠ .active := by
  intro ha
  have hstreak := length_le_streak past h ha
  have hcounts := (mirrors_after (mirrors_new config) (past ++ samples)).full ha
  rw [after_config, after_past (mirrors_new config), List.append_nil] at hcounts
  change Counts _ config.ticksNeeded (Processed.Fills config) _ at hcounts
  -- a counter that had come so far would have ended the cycle
  have hcount := hcounts.count
  have hlt := hcounts.lt
  omega

namespace Supervision

/--
**When a rejected sample stops the charger.** At the lower end it does so in its own tick, whatever
the charger was at: it is off afterwards, and no full pack is told. Above the upper limit the
charger goes by the sample as by any other; if a full pack needs no more than that limit, it is off
once `ticksNeeded` of them have come in a row.
-/
theorem stops_of_rejected (config : SupervisorConfig)
    (hmin : config.gauge.minVoltage ≤ config.charger.minVoltage) (store : Store)
    (duties : List Duty) :
    (∀ t ∈ (start config store).ticks duties, t.2.report.voltage = none →
      t.1.voltage ≤ config.gauge.maxVoltage →
      (t.1.voltage = 0 → config.charger.minVoltage ≠ 0) → t.2.Stops)
    ∧ ∀ later, (∀ s ∈ ((start config store).run duties).samples later,
          config.gauge.maxVoltage < s.voltage) →
        config.charger.recharge ≤ config.gauge.maxVoltage →
        (∀ mode, config.charger.termination mode ≤ config.gauge.maxVoltage) →
        config.charger.taper = none →
        config.charger.ticksNeeded ≤ (((start config store).run duties).samples later).length →
        ((start config store).run (duties ++ later)).supervisor.charger.status ≠ .active := by
  refine ⟨?_, ?_⟩
  · refine forall_mem_ticks fun v hgauge hcharger s now hnone hmax hzero => ?_
    replace hgauge : v.supervisor.gauge.config = config.gauge :=
      hgauge.trans (Gauge.restore_config config.gauge store)
    replace hcharger : v.supervisor.charger.config = config.charger := hcharger
    refine Supervisor.stops_of_not_safe ?_ _ _
    rintro ⟨-, -, hvoltage⟩
    rw [hcharger] at hvoltage
    have hrejected := Supervisor.report_voltage_eq_none_iff.mp hnone
    rw [hgauge, Gauge.isPlausible_eq_false_iff] at hrejected
    rcases hrejected with hv | hlow | hhigh
    · -- no reading at all: not too low only for a charger that takes everything
      rw [hv] at hvoltage
      exact hzero hv (UInt16.le_zero_iff.mp hvoltage)
    · exact absurd (UInt16.le_trans hmin hvoltage) (UInt16.not_le.mpr hlow)
    · exact absurd hmax (UInt16.not_le.mpr hhigh)
  · intro later hhigh hrecharge htermination htaper hlength
    have hbefore : ((start config store).run duties).supervisor.charger
        = ({ config := config.charger } : Charger).after ((start config store).samples duties) :=
      charger_run _ _
    rw [run_append, charger_run, hbefore, ← Charger.after_append]
    refine not_active_of_full _ (fun s hs => ⟨?_, ?_⟩) hlength
    · have hnot := UInt16.not_lt.mpr (UInt16.le_trans hrecharge (UInt16.le_of_lt (hhigh s hs)))
      simp [Charger.mayStart, hnot]
    · have hreached := UInt16.le_trans (htermination s.mode) (UInt16.le_of_lt (hhigh s hs))
      simp [Charger.isFull, hreached, htaper]

/-- Ticks of a pack with these voltages, the supply plugged in. -/
def plugged (voltages : List UInt16) : List Duty :=
  voltages.map fun voltage => .tick { voltage, thermalAllowed := true, plugged := true } 0

/-- No reading at all in the middle of a cycle, and a lasting one above the limit. -/
theorem stops_of_rejected_both_ends :
    ({} : SupervisorConfig).gauge.minVoltage ≤ ({} : SupervisorConfig).charger.minVoltage
      ∧ ((start {} (.erased 8)).run (plugged [7000, 7000, 7000])).supervisor.charger.status
          = .active
      ∧ (∃ t ∈ (start {} (.erased 8)).ticks (plugged [7000, 7000, 7000, 0]),
          t.1.voltage = 0 ∧ t.2.report.voltage = none ∧ t.2.Stops)
      ∧ ((start {} (.erased 8)).run
          (plugged [7000, 7000, 7000] ++ plugged [12000, 12000])).supervisor.charger.status
          ≠ .active := by
  have hmin : ({} : SupervisorConfig).gauge.minVoltage
      ≤ ({} : SupervisorConfig).charger.minVoltage := by decide
  obtain ⟨hlow, -⟩ := stops_of_rejected {} hmin (.erased 8) (plugged [7000, 7000, 7000, 0])
  obtain ⟨-, hhigh⟩ := stops_of_rejected {} hmin (.erased 8) (plugged [7000, 7000, 7000])
  refine ⟨hmin, by decide +kernel, ?_, ?_⟩
  · obtain ⟨t, ht, hzero, hnone⟩ :
        ∃ t ∈ (start {} (.erased 8)).ticks (plugged [7000, 7000, 7000, 0]),
          t.1.voltage = 0 ∧ t.2.report.voltage = none := by decide +kernel
    exact ⟨t, ht, hzero, hnone, hlow t ht hnone (by rw [hzero]; decide) fun _ => by decide⟩
  · refine hhigh (plugged [12000, 12000]) ?_ (by decide) ?_ rfl ?_
    · decide +kernel
    · intro mode
      cases mode with
      | fast => decide
      | friendly => decide
    · decide +kernel

/-- **A sample above the upper limit does not stop the charger**: the gauge turns it away, the
charger goes on, and the next one ends the cycle as on a full pack. -/
theorem not_stops_overvoltage :
    ({} : SupervisorConfig).gauge.minVoltage ≤ ({} : SupervisorConfig).charger.minVoltage
      ∧ ((start {} (.erased 8)).ticks (plugged [7000, 7000, 7000, 12000, 12000])).map
          (fun t => (t.2.report.voltage, t.2.report.status, t.2.calls))
        = [(some 7000, .inactive, [.disable]), (some 7000, .inactive, []),
          (some 7000, .active, [.enable .fast]), (none, .active, []),
          (none, .inactive, [.disable, .fullCharge])]
      ∧ ¬ ∀ t ∈ (start {} (.erased 8)).ticks (plugged [7000, 7000, 7000, 12000, 12000]),
          t.2.report.voltage = none → t.2.Stops := by
  refine ⟨by decide, by decide +kernel, ?_⟩
  decide +kernel

end Supervision

end BatteryCare
