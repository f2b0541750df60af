import BatteryCare.Proofs.Alarm.Memory
import BatteryCare.Proofs.Supervisor.Rejected

/-!
# Alerts and charge cycles

The alarm under a supervisor is told the charger status on every tick, right after the charger has
moved. So it always knows the status, and what arms its alerts, a change to active, is a tick that
starts the charger circuit. A flag therefore tells whether its alert was raised since the circuit
was started last (`Watches.flags`).

From this follows that no alert comes twice in a discharge cycle and that none is left out
(`alertsPerCycle_run`), whatever the gauge knows, and whatever its store and the charger are at.
-/

namespace BatteryCare

/-- The tick starts the charger circuit. -/
def Tick.Starts (t : Tick) : Prop := ∃ mode, .enable mode ∈ t.calls

/-- The alert has been raised since the circuit was started last, or since the beginning. -/
def RaisedInCycle (level : AlertLevel) (ticks : List (Sample × Tick)) : Prop :=
  ∃ past t later, ticks = past ++ t :: later ∧ level ∈ t.2.alerts ∧ ∀ u ∈ later, ¬ u.2.Starts

theorem raisedInCycle_concat_iff {level : AlertLevel} {ticks : List (Sample × Tick)}
    {t : Sample × Tick} :
    RaisedInCycle level (ticks ++ [t])
      ↔ level ∈ t.2.alerts ∨ RaisedInCycle level ticks ∧ ¬ t.2.Starts := by
  constructor
  · rintro ⟨past, u, later, hsplit, hu, hlater⟩
    obtain ⟨rfl, rfl, rfl⟩ | ⟨rest, rfl, rfl⟩ := split_concat hsplit
    · exact Or.inl hu
    · exact Or.inr ⟨⟨past, u, rest, rfl, hu, fun k hk => hlater k (by simp [hk])⟩,
        hlater t (by simp)⟩
  · rintro (ht | ⟨⟨past, u, later, rfl, hu, hlater⟩, ht⟩)
    · exact ⟨ticks, t, [], rfl, ht, by simp⟩
    · refine ⟨past, u, later ++ [t], by simp, hu, ?_⟩
      intro k hk
      rcases List.mem_append.mp hk with hk | hk
      · exact hlater k hk
      · rw [List.mem_singleton.mp hk]
        exact ht

/-- The power states of a series of duties. -/
def Duty.power? : Duty → Option (PowerState × UInt32)
  | .power p now => some (p, now)
  | .tick _ _ | .faults _ _ | .receive _ => none

def Duty.powers (duties : List Duty) : List (PowerState × UInt32) := duties.filterMap power?

/-! ## One tick -/

/-- A move starts the circuit if and only if it brings the charger to active. -/
theorem Charger.Move.enable_iff {c c' : Charger} {s : Sample} {calls : List CircuitCall}
    (h : Move c s c' calls) :
    (∃ mode, .enable mode ∈ calls) ↔ c'.status = .active ∧ c.status ≠ .active := by
  cases h with
  | start hc hs hq => simp [enter, hc]
  | reset hc => simp [enter]
  | unplug hc hs => simp [enter]
  | hold hc hs hq => simp [hc]
  | cut hc hs => simp [enter]
  | finish hc hs hq => simp [enter]
  | charge hc hs hq => simp [hc]

namespace Supervisor

variable (v : Supervisor) (store : Store) (s : Sample) (now : UInt32)

theorem starts_tick_iff :
    (v.tick store s now).Starts
      ↔ (v.tick store s now).report.status = .active ∧ v.charger.status ≠ .active :=
  (v.charger.step_move s).enable_iff

/-- What the alarm hears in a tick: the charger status, and the level if there is an estimate. -/
theorem tick_alarm :
    ((v.tick store s now).supervisor.alarm, (v.tick store s now).alerts)
      = if (v.tick store s now).supervisor.gauge.estimate?.isSome then
          (v.alarm.setCharger (v.tick store s now).report.status).check
            (v.tick store s now).report.percent now
        else (v.alarm.setCharger (v.tick store s now).report.status, []) := by
  rw [tick]

theorem mem_alerts_iff (level : AlertLevel) :
    level ∈ (v.tick store s now).alerts
      ↔ (v.tick store s now).supervisor.gauge.estimate?.isSome = true
        ∧ (v.alarm.setCharger (v.tick store s now).report.status).isWatching now = true
        ∧ (v.tick store s now).report.percent ≤ v.alarm.config.threshold level
        ∧ (v.alarm.setCharger (v.tick store s now).report.status).raised level = false := by
  have halerts := congrArg Prod.snd (v.tick_alarm store s now)
  change (v.tick store s now).alerts = _ at halerts
  rw [halerts]
  split
  · rename_i hsome
    rw [Alarm.mem_check_iff]
    simp only [hsome, true_and]
    rfl
  · rename_i hnone
    simp [hnone]

theorem raised_tick_iff (level : AlertLevel) :
    (v.tick store s now).supervisor.alarm.raised level = true
      ↔ (v.alarm.setCharger (v.tick store s now).report.status).raised level = true
        ∨ level ∈ (v.tick store s now).alerts := by
  have halarm := congrArg Prod.fst (v.tick_alarm store s now)
  have halerts := congrArg Prod.snd (v.tick_alarm store s now)
  change (v.tick store s now).supervisor.alarm = _ at halarm
  change (v.tick store s now).alerts = _ at halerts
  rw [halarm, halerts]
  split
  · exact Alarm.raised_check _ level _ now
  · simp

/-- A tick leaves power and calibration of the alarm as they are, and tells it the charger. -/
theorem alarm_tick :
    (v.tick store s now).supervisor.alarm.config = v.alarm.config
      ∧ (v.tick store s now).supervisor.alarm.power = v.alarm.power
      ∧ (v.tick store s now).supervisor.alarm.poweredOnAt = v.alarm.poweredOnAt
      ∧ (v.tick store s now).supervisor.alarm.charger = (v.tick store s now).report.status := by
  have halarm := congrArg Prod.fst (v.tick_alarm store s now)
  change (v.tick store s now).supervisor.alarm = _ at halarm
  rw [halarm]
  split
  · exact Alarm.check_memory _ _ now
  · exact ⟨rfl, rfl, rfl, rfl⟩

end Supervisor

/-! ## What the alarm of a run knows -/

/-- What the alarm of a supervisor knows, once it was told these power states and has run these
ticks. -/
structure Watches (config : AlarmConfig) (v : Supervisor) (powers : List (PowerState × UInt32))
    (ticks : List (Sample × Tick)) : Prop where
  config_eq : v.alarm.config = config
  power : v.alarm.KnowsPower id powers
  charger : v.alarm.charger = v.charger.status
  flags : ∀ level, v.alarm.raised level = true ↔ RaisedInCycle level ticks

namespace Watches

variable {config : AlarmConfig} {v : Supervisor} {powers : List (PowerState × UInt32)}
  {ticks : List (Sample × Tick)}

/-- A tick that starts the circuit finds its alerts armed again. -/
theorem raised_setCharger (h : Watches config v powers ticks) (store : Store) (s : Sample)
    (now : UInt32) (level : AlertLevel) :
    (v.alarm.setCharger (v.tick store s now).report.status).raised level = true
      ↔ RaisedInCycle level ticks ∧ ¬ (v.tick store s now).Starts := by
  rw [Alarm.raised_setCharger, Supervisor.starts_tick_iff, h.charger, ← h.flags level]
  split
  · rename_i hstart
    simp [hstart]
  · rename_i hstart
    simp only [hstart, not_false_eq_true, and_true]

theorem tick (h : Watches config v powers ticks) (store : Store) (s : Sample) (now : UInt32) :
    Watches config (v.tick store s now).supervisor powers
      (ticks ++ [(s, v.tick store s now)]) := by
  obtain ⟨hconfig, hpower, hat, hcharger⟩ := v.alarm_tick store s now
  refine ⟨hconfig.trans h.config_eq, h.power.congr hpower hat, hcharger, fun level => ?_⟩
  rw [v.raised_tick_iff, h.raised_setCharger, raisedInCycle_concat_iff]
  exact or_comm

theorem setPower (h : Watches config v powers ticks) (power : PowerState) (now : UInt32) :
    Watches config (v.setPower power now) (powers ++ [(power, now)]) ticks where
  config_eq := h.config_eq
  power := h.power.setPower power now
  charger := h.charger
  flags := by
    intro level
    rw [← h.flags level]
    cases level <;> rfl

/-- When the alarm lets a tick raise alerts. -/
theorem isWatching_iff (h : Watches config v powers ticks) (status : ChargerStatus)
    (now : UInt32) :
    (v.alarm.setCharger status).isWatching now = true
      ↔ status ≠ .active ∧ ∃ since, OnSince powers since ∧ config.grace ≤ now - since := by
  have hpower : (v.alarm.setCharger status).KnowsPower id powers := h.power.congr rfl rfl
  rw [hpower.isWatching_iff, ← h.config_eq]
  rfl

end Watches

namespace Supervision

theorem ticks_append (v : Supervision) (xs ys : List Duty) :
    v.ticks (xs ++ ys) = v.ticks xs ++ (v.run xs).ticks ys := by
  induction xs generalizing v with
  | nil => rfl
  | cons duty xs ih =>
    have hrest := ih (v.act duty)
    cases duty with
    | tick s now => rw [List.cons_append, ticks, hrest, ticks, List.cons_append]; rfl
    | power power now => exact hrest
    | faults reads writes => exact hrest
    | receive n => exact hrest

theorem ticks_split {v : Supervision} {duties : List Duty} {past rest : List (Sample × Tick)}
    {t : Sample × Tick} (h : v.ticks duties = past ++ t :: rest) :
    ∃ xs now ys, duties = xs ++ .tick t.1 now :: ys ∧ past = v.ticks xs
      ∧ t.2 = (v.run xs).tick t.1 now := by
  induction duties generalizing v past with
  | nil => exact absurd h (by simp [ticks])
  | cons duty duties ih =>
    -- past the first duty the split is one of the rest
    have later : ∀ past', (v.act duty).ticks duties = past' ++ t :: rest →
        ∃ xs now ys, duty :: duties = (duty :: xs) ++ .tick t.1 now :: ys
          ∧ past' = (v.act duty).ticks xs ∧ t.2 = (v.run (duty :: xs)).tick t.1 now := by
      intro past' h'
      obtain ⟨xs, now, ys, rfl, hpast, ht⟩ := ih h'
      exact ⟨xs, now, ys, rfl, hpast, ht⟩
    cases duty with
    | tick s now =>
      cases past with
      | nil =>
        obtain ⟨rfl, -⟩ := List.cons.inj h
        exact ⟨[], now, duties, rfl, rfl, rfl⟩
      | cons p past =>
        obtain ⟨rfl, htail⟩ := List.cons.inj h
        obtain ⟨xs, now', ys, hduties, hpast, ht⟩ := later past htail
        exact ⟨.tick s now :: xs, now', ys, hduties, by rw [hpast, ticks], ht⟩
    | power power now =>
      obtain ⟨xs, now', ys, hduties, hpast, ht⟩ := later past h
      exact ⟨.power power now :: xs, now', ys, hduties, hpast, ht⟩
    | faults reads writes =>
      obtain ⟨xs, now', ys, hduties, hpast, ht⟩ := later past h
      exact ⟨.faults reads writes :: xs, now', ys, hduties, hpast, ht⟩
    | receive n =>
      obtain ⟨xs, now', ys, hduties, hpast, ht⟩ := later past h
      exact ⟨.receive n :: xs, now', ys, hduties, hpast, ht⟩

/-- **The alarm of a supervisor knows its power states and its ticks.** -/
theorem watches_run (config : SupervisorConfig) (store : Store) (duties : List Duty) :
    Watches config.alarm ((start config store).run duties).supervisor (Duty.powers duties)
      ((start config store).ticks duties) := by
  induction duties using List.reverseRecOn with
  | nil =>
    refine ⟨rfl, Alarm.knowsPower_new config.alarm, rfl, fun level => ?_⟩
    refine iff_of_false (by cases level <;> simp [Alarm.raised, run, start, Supervisor.start]) ?_
    rintro ⟨past, t, later, h, -⟩
    exact absurd h (by simp [ticks])
  | append_singleton duties duty ih =>
    have hpowers : Duty.powers (duties ++ [duty]) = Duty.powers duties ++ duty.power?.toList := by
      rw [Duty.powers, List.filterMap_append, Duty.powers]
      cases duty <;> rfl
    rw [run_append, ticks_append, hpowers]
    cases duty with
    | tick s now =>
      change Watches _ _ (_ ++ []) _
      rw [List.append_nil]
      exact ih.tick _ s now
    | power power now =>
      rw [ticks, ticks, List.append_nil]
      exact ih.setPower power now
    | faults reads writes =>
      change Watches _ _ (_ ++ []) _
      rw [ticks, ticks, List.append_nil, List.append_nil]
      exact ih
    | receive n =>
      change Watches _ _ (_ ++ []) _
      rw [ticks, ticks, List.append_nil, List.append_nil]
      exact ih

end Supervision

/-- What holds of the alerts of a supervisor over its charge cycles. -/
structure AlertsPerCycle (config : SupervisorConfig) (v : Supervision) (duties : List Duty) :
    Prop where
  /-- Between two ticks that raise the same alert the circuit was started. -/
  between : ∀ xs t ys t' zs level, v.ticks duties = xs ++ t :: ys ++ t' :: zs →
    level ∈ t.2.alerts → level ∈ t'.2.alerts → ∃ u ∈ ys, u.2.Starts
  /-- No tick raises an alert twice, and the low one comes first. -/
  once : ∀ t ∈ v.ticks duties, t.2.alerts.Sublist [.low, .critical]
  /-- A tick raises an alert only on an estimate at or below its threshold, and not while the
  battery charges. -/
  only : ∀ t ∈ v.ticks duties, ∀ level ∈ t.2.alerts,
    t.2.report.status ≠ .active ∧ t.2.report.percent ≤ config.alarm.threshold level
      ∧ t.2.supervisor.gauge.estimate?.isSome = true
  /-- Such a tick leaves no alert out, once the speaker has been on for the grace time. -/
  reached : ∀ xs s now ys t, duties = xs ++ .tick s now :: ys → (v.run xs).tick s now = t →
    (∃ since, OnSince (Duty.powers xs) since ∧ config.alarm.grace ≤ now - since) →
    t.report.status ≠ .active → t.supervisor.gauge.estimate?.isSome = true →
    ∀ level, t.report.percent ≤ config.alarm.threshold level →
      RaisedInCycle level (v.ticks (xs ++ [.tick s now]))

/--
**Every alert is raised once per discharge cycle**, for every calibration and store and every series
of ticks, power states, faults and receives.
-/
theorem alertsPerCycle_run (config : SupervisorConfig) (store : Store) (duties : List Duty) :
    AlertsPerCycle config (.start config store) duties where
  between := by
    intro xs t ys t' zs level hsplit ht ht'
    obtain ⟨duties', now, _, -, hpast, htick⟩ := Supervision.ticks_split hsplit
    have hw := Supervision.watches_run config store duties'
    rw [← hpast] at hw
    rw [htick, Supervision.tick, Supervisor.mem_alerts_iff] at ht'
    obtain ⟨-, hwatch, -, hfresh⟩ := ht'
    -- the alert was raised, so only a start of the circuit can have armed it again
    have hcycle : ¬ RaisedInCycle level (xs ++ t :: ys) := by
      intro hraised
      have hflag := (hw.raised_setCharger _ t'.1 now level).not.mp (by rw [hfresh]; simp)
      rw [Supervisor.starts_tick_iff] at hflag
      exact hflag ⟨hraised, fun hstart => ((hw.isWatching_iff _ now).mp hwatch).1 hstart.1⟩
    by_contra hnone
    exact hcycle ⟨xs, t, ys, rfl, ht, fun u hu hstart => hnone ⟨u, hu, hstart⟩⟩
  once := by
    refine Supervision.forall_mem_ticks fun v _ _ s now => ?_
    have halerts := congrArg Prod.snd (v.supervisor.tick_alarm v.store s now)
    change (v.tick s now).alerts = _ at halerts
    change (v.tick s now).alerts.Sublist _
    rw [halerts]
    split
    · exact Alarm.check_sublist _ _ now
    · exact List.nil_sublist _
  only := by
    intro t ht level hlevel
    obtain ⟨past, rest, hsplit⟩ := List.append_of_mem ht
    obtain ⟨xs, now, _, -, -, htick⟩ := Supervision.ticks_split hsplit
    have hw := Supervision.watches_run config store xs
    rw [htick, Supervision.tick] at hlevel ⊢
    obtain ⟨hsome, hwatch, hlow, -⟩ := (Supervisor.mem_alerts_iff _ _ t.1 now level).mp hlevel
    rw [hw.config_eq] at hlow
    exact ⟨((hw.isWatching_iff _ now).mp hwatch).1, hlow, hsome⟩
  reached := by
    intro xs s now ys t _ ht hon hidle hsome level hlow
    have hw := Supervision.watches_run config store xs
    have hticks : (Supervision.start config store).ticks (xs ++ [.tick s now])
        = (Supervision.start config store).ticks xs ++ [(s, t)] := by
      rw [Supervision.ticks_append, ← ht]
      rfl
    subst ht
    rw [hticks, raisedInCycle_concat_iff]
    by_cases hraised : RaisedInCycle level ((Supervision.start config store).ticks xs)
    · right
      refine ⟨hraised, fun hstart => hidle ?_⟩
      exact ((Supervisor.starts_tick_iff _ _ s now).mp hstart).1
    · left
      refine (Supervisor.mem_alerts_iff _ _ s now level).mpr ⟨hsome, ?_, ?_, ?_⟩
      · exact (hw.isWatching_iff _ now).mpr ⟨hidle, hon⟩
      · rw [hw.config_eq]
        exact hlow
      · rw [← Bool.not_eq_true, hw.raised_setCharger]
        exact fun h => hraised h.1

end BatteryCare
