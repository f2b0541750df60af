import BatteryCare.Proofs.Device.Moments
import BatteryCare.Proofs.Device.Sleep
import BatteryCare.Proofs.Supervisor.Alerts

/-!
# The grace time on a device

The alarm keeps its grace time for the power states that it is told, and the monitor tells them once
a tick. So the alarm measures from the tick that first saw the speaker on. This is never before the
speaker was switched on, but what happens between two ticks is not seen at all: if the speaker goes
off and on again there, the alarm goes on measuring from the time before
(`not_keepsGrace_briefOff`).

Every turn keeps what the monitor knows about the moments in the journal (`Recounts`). So every
alert is either raised after the grace time or comes after an off-time that no tick has seen
(`graced_chronicle`).
-/

namespace BatteryCare

open Moment (powers)

/-! ## Turns -/

namespace Monitor

theorem informed_alarm (now : Nat) (status : Status) (v : Supervisor) (told : PowerState) :
    (informed now status v told).alarm = v.alarm.sample told status.power now := by
  unfold informed Alarm.sample
  split
  · rfl
  · rfl

theorem moments_pins (calls : List CircuitCall) :
    (calls.flatMap pins).filterMap Entry.moment? = [] := by
  induction calls with
  | nil => rfl
  | cons call rest ih =>
    rw [List.flatMap_cons, List.filterMap_append, ih]
    cases call with
    | enable mode => rfl
    | disable => rfl
    | fullCharge => rfl

/-- What is sent tells the same moments whether or not there is room for it. -/
theorem moments_sendAll (queue : Fifo Event) (events : List Event) :
    (sendAll queue events).2.filterMap Entry.moment?
      = events.filterMap fun event => (Entry.sent event true).moment? := by
  have hroom : ∀ event, (Entry.sent event false).moment? = (Entry.sent event true).moment? := by
    intro event
    cases event <;> rfl
  induction events generalizing queue with
  | nil => rfl
  | cons event rest ih =>
    rw [sendAll]
    split
    · rw [List.filterMap_cons, List.filterMap_cons, ih]
    · rw [List.filterMap_cons, List.filterMap_cons, ih, hroom]

theorem moments_alerts (alerts : List AlertLevel) :
    (alerts.map Event.lowBattery).filterMap (fun event => (Entry.sent event true).moment?)
      = alerts.map Moment.raised := by
  rw [List.filterMap_map]
  exact congrFun List.filterMap_eq_map alerts

/-- The moments of a tick: the tick itself, and the alerts that it raises. -/
theorem moments_tick (now : Nat) (sensed : Sensed) (status : Status) (store : Store)
    (events : Fifo Event) (v : Supervisor) (told : PowerState) :
    (tick now sensed status store events v told).entries.filterMap Entry.moment?
      = .ticked :: (outcome now sensed status store v told).alerts.map Moment.raised := by
  have hsent : (eventsOf (outcome now sensed status store v told)).filterMap
      (fun event => (Entry.sent event true).moment?)
        = (outcome now sensed status store v told).alerts.map Moment.raised := by
    rw [eventsOf, List.filterMap_append, List.filterMap_append, moments_alerts]
    split
    · simp [Entry.moment?]
    · simp [Entry.moment?]
  rw [tick]
  dsimp only
  rw [List.cons_append, List.filterMap_cons, List.filterMap_append, moments_pins, moments_sendAll,
    List.nil_append]
  exact congrArg _ hsent

end Monitor

namespace Device

/-- What holds of a device between any two turns, after these moments. -/
structure Recounts (d : Device) (past : List (Moment × Nat)) : Prop where
  power : lastPower (powers past) = d.status.power
  times : ∀ since, OnSince (powers past) since → since ≤ d.clock
  wishes : d.button.Wishes
  loaded : d.flashWriter ≠ .unloaded → d.store.isSome = true
  /-- No tick is late, and the alarm knows what the ticks have seen. -/
  sampled : ∀ v told due window, d.monitor = .waiting v told due window →
    .monitor ∈ d.roles ∧ d.store.isSome = true ∧ Sampled past d.clock v.alarm told due
  graced : Graced past

variable {d d' : Device} {past : List (Moment × Nat)}

theorem recounts_boot (roles : List Role) (board : Board) (clock : Nat) (journal : List Stamped)
    (hpower : lastPower (powers past) = .off) (hgraced : Graced past) :
    Recounts (boot roles board clock journal) past where
  power := hpower
  times := fun since h => absurd (h.lastPower_eq.symm.trans hpower) (by simp)
  wishes := fun _ he => absurd he (by simp [boot])
  loaded := fun h => absurd rfl h
  sampled := fun _ _ _ _ h => absurd h (by simp [boot])
  graced := hgraced

/-- A change that leaves alone what the grace time depends on. -/
theorem Recounts.frame (h : Recounts d past) (hpower : d'.status.power = d.status.power)
    (hclock : d'.clock = d.clock) (hroles : d'.roles = d.roles) (hmonitor : d'.monitor = d.monitor)
    (hstore : d.store.isSome = true → d'.store.isSome = true) (hwishes : d'.button.Wishes)
    (hloaded : d'.flashWriter ≠ .unloaded → d'.store.isSome = true) : Recounts d' past where
  power := h.power.trans hpower.symm
  times := by rw [hclock]; exact h.times
  wishes := hwishes
  loaded := hloaded
  sampled := by
    rw [hmonitor, hroles, hclock]
    intro v told due window heq
    obtain ⟨hrole, hsome, hsampled⟩ := h.sampled v told due window heq
    exact ⟨hrole, hstore hsome, hsampled⟩
  graced := h.graced

/-- The status takes over a power state. -/
theorem Recounts.powered (h : Recounts d past) (status : Status) :
    Recounts { d with status } (past ++ [(.powered status.power, d.clock)]) where
  power := by rw [powers_concat_powered, lastPower_concat]
  times := by
    intro since hsince
    rw [powers_concat_powered] at hsince
    obtain ⟨-, hcase⟩ := onSince_concat_iff.mp hsince
    split at hcase
    · exact h.times since hcase
    · exact Nat.le_of_eq hcase
  wishes := h.wishes
  loaded := h.loaded
  sampled := by
    intro v told due window heq
    obtain ⟨hrole, hsome, hsampled⟩ := h.sampled v told due window heq
    refine ⟨hrole, hsome, hsampled.concat fun seen hmemory => ?_⟩
    exact hmemory.powered hsampled.ahead hsampled.near status.power
  graced := h.graced.concat fun level hlevel => absurd hlevel (by simp)

/-- The monitor raises an alert that may be raised. -/
theorem Recounts.raised (h : Recounts d past) (hmay : MayRaise past d.clock) (level : AlertLevel) :
    Recounts d (past ++ [(.raised level, d.clock)]) where
  power := by rw [powers_concat_of_none rfl]; exact h.power
  times := by rw [powers_concat_of_none rfl]; exact h.times
  wishes := h.wishes
  loaded := h.loaded
  sampled := by
    intro v told due window heq
    obtain ⟨hrole, hsome, hsampled⟩ := h.sampled v told due window heq
    exact ⟨hrole, hsome, hsampled.concat fun _ hmemory => hmemory.raised level⟩
  graced := h.graced.concat fun _ _ => hmay

theorem Recounts.raisedAll (h : Recounts d past) {alerts : List AlertLevel}
    (hmay : ∀ level ∈ alerts, MayRaise past d.clock) :
    Recounts d (past ++ (alerts.map Moment.raised).map (·, d.clock)) := by
  induction alerts generalizing past with
  | nil => simpa using h
  | cons level rest ih =>
    have hfirst := hmay level List.mem_cons_self
    have hrest := ih (h.raised hfirst level) fun _ _ => hfirst.concat rfl
    simpa using hrest

theorem Recounts.hear (h : Recounts d past) (event : Event) :
    Recounts { d with status := d.status.hear event }
      (past ++ (Entry.handled event).moment?.toList.map (·, d.clock)) := by
  have quiet : ∀ status : Status, status.power = d.status.power →
      Recounts { d with status } (past ++ []) := by
    intro status hpower
    rw [List.append_nil]
    exact h.frame hpower rfl rfl rfl id h.wishes h.loaded
  cases event with
  | powerSet power => exact h.powered { d.status with power }
  | measured report => exact quiet _ rfl
  | fullyCharged => exact quiet _ rfl
  | lowBattery level => exact quiet _ rfl
  | chargeTypeSet chargeType => exact quiet _ rfl

theorem Recounts.hearAll (h : Recounts d past) (events : List Event) :
    Recounts { d with status := events.foldl Status.hear d.status }
      (past ++ ((events.map Entry.handled).filterMap Entry.moment?).map (·, d.clock)) := by
  induction events generalizing d past with
  | nil => simpa using h
  | cons event rest ih =>
    have hrest := ih (h.hear event)
    rw [List.map_cons, List.filterMap_cons]
    cases hmoment : (Entry.handled event).moment? with
    | none => simpa [hmoment] using hrest
    | some m => simpa [hmoment] using hrest

/-- The device has noted entries, and with their moments `d'` still recounts what happened. -/
def GoesOn (d : Device) (past : List (Moment × Nat)) (d' : Device) : Prop :=
  ∃ entries : List Entry, d'.journal = (entries.map (Stamped.mk d.clock)).reverse ++ d.journal
    ∧ Recounts d' (past ++ (entries.filterMap Entry.moment?).map (·, d.clock))

theorem Recounts.goesOn_of_quiet {entries : List Entry} (h : Recounts d' past)
    (hjournal : d'.journal = (entries.map (Stamped.mk d.clock)).reverse ++ d.journal)
    (hquiet : ∀ e ∈ entries, e.moment? = none) : GoesOn d past d' := by
  refine ⟨entries, hjournal, ?_⟩
  rw [List.filterMap_eq_nil_iff.mpr hquiet, List.map_nil, List.append_nil]
  exact h

theorem Recounts.pollDispatcher (h : Recounts d past) : GoesOn d past d.pollDispatcher := by
  rw [pollDispatcher_eq]
  refine ⟨d.events.toList.map Entry.handled, rfl, ?_⟩
  exact (h.hearAll d.events.toList).frame rfl rfl rfl rfl id h.wishes h.loaded

theorem Recounts.pollFlashWriter (h : Recounts d past) : GoesOn d past d.pollFlashWriter := by
  have hstore : d.pollFlashWriter.store.isSome = true := (FlashWriter.store_poll h.loaded).1
  have hnext : Recounts d.pollFlashWriter past :=
    h.frame rfl rfl rfl rfl (fun _ => hstore) h.wishes fun _ => hstore
  obtain ⟨entries, hjournal, hupkeep⟩ := upkeep_pollFlashWriter d
  exact hnext.goesOn_of_quiet hjournal fun e he => (hupkeep e he).moment?_eq_none

theorem Recounts.pollLamp (h : Recounts d past) : GoesOn d past d.pollLamp := by
  have hnext : Recounts d.pollLamp past := h.frame rfl rfl rfl rfl id h.wishes h.loaded
  obtain ⟨entries, hjournal, hupkeep⟩ := upkeep_pollLamp d
  exact hnext.goesOn_of_quiet hjournal fun e he => (hupkeep e he).moment?_eq_none

theorem Recounts.pollButton (h : Recounts d past) : GoesOn d past d.pollButton := by
  have hturn : Button.Wished d.events (d.button.poll d.board.button d.clock d.status d.events) :=
    Button.wished_poll h.wishes
  have hnext : Recounts d.pollButton past := h.frame rfl rfl rfl rfl id hturn.wishes h.loaded
  refine hnext.goesOn_of_quiet rfl fun e he => ?_
  obtain ⟨event, hevent, rfl⟩ := List.mem_map.mp he
  obtain ⟨-, hnone⟩ | ⟨wish, hwish, -, hsome⟩ := hturn.events
  · rw [hnone] at hevent
    exact absurd hevent (by simp)
  · rw [hsome] at hevent
    obtain rfl : event = wish := by simpa using hevent
    cases event with
    | powerSet _ | chargeTypeSet _ => rfl
    | measured _ | lowBattery _ | fullyCharged => exact hwish.elim

/-- A tick tells the alarm what the status shows, and raises only what may be raised. -/
theorem Recounts.tick (h : Recounts d past) {v : Supervisor} {told : PowerState} {due : Nat}
    {window : List Single} (hmonitor : d.monitor = .waiting v told due window) {store : Store}
    {t : Tick}
    (ht : Monitor.outcome d.clock (d.board.sense window) d.status store v told = t) :
    Recounts
      { d with
        monitor := .waiting t.supervisor d.status.power (d.clock + tickInterval)
          (d.board.sense window).window
        store := some t.store }
      (past ++ (Moment.ticked :: t.alerts.map Moment.raised).map (·, d.clock)) := by
  obtain ⟨hrole, hsome, hsampled⟩ := h.sampled v told due window hmonitor
  have hpowers : powers (past ++ [(.ticked, d.clock)]) = powers past := powers_concat_of_none rfl
  have halarm := Monitor.informed_alarm d.clock d.status v told
  rw [Monitor.outcome] at ht
  generalize Monitor.informed d.clock d.status v told = w at ht halarm
  have hticked : Recounts
      { d with
        monitor := .waiting t.supervisor d.status.power (d.clock + tickInterval)
          (d.board.sense window).window
        store := some t.store } (past ++ [(.ticked, d.clock)]) := by
    refine ⟨by rw [hpowers]; exact h.power, by rw [hpowers]; exact h.times, h.wishes,
      fun _ => rfl, ?_, h.graced.concat fun _ hlevel => absurd hlevel (by simp)⟩
    intro v' told' due' window' heq
    cases heq
    have hnext := hsampled.ticked h.times
    rw [h.power, ← halarm] at hnext
    obtain ⟨hconfig, hpower, hat, -⟩ :=
      w.alarm_tick store ((d.board.sense window).sample d.status.chargeType.mode) (.ofNat d.clock)
    rw [ht] at hconfig hpower hat
    exact ⟨hrole, rfl, hnext.congr hconfig hpower hat⟩
  -- the tick stands in the past already when its alerts are raised
  have hmay : ∀ level ∈ t.alerts, MayRaise (past ++ [(.ticked, d.clock)]) d.clock := by
    intro level hlevel
    rw [← ht, Supervisor.mem_alerts_iff, halarm, ← h.power] at hlevel
    exact (hsampled.mayRaise hlevel.2.1).concat rfl
  simpa using hticked.raisedAll hmay

/-- The supervisor starts, if there is an image. -/
theorem Recounts.begins (h : Recounts d past) (hrole : .monitor ∈ d.roles) :
    Recounts { d with monitor := Monitor.begin d.clock d.store } past
      ∧ NotDue { d with monitor := Monitor.begin d.clock d.store } := by
  have hbegin : ∀ v told due window, Monitor.begin d.clock d.store = .waiting v told due window →
      d.store.isSome = true ∧ v.alarm = {} ∧ told = .off ∧ due = d.clock + settleTime := by
    intro v told due window heq
    cases hs : d.store with
    | none => rw [hs] at heq; exact absurd heq (by simp [Monitor.begin])
    | some s =>
      rw [hs, Monitor.begin] at heq
      cases heq
      exact ⟨rfl, rfl, rfl, rfl⟩
  refine ⟨⟨h.power, h.times, h.wishes, h.loaded, ?_, h.graced⟩, ?_⟩
  · intro v told due window heq
    obtain ⟨hsome, halarm, rfl, rfl⟩ := hbegin v told due window heq
    have hahead : d.clock ≤ d.clock + settleTime := Nat.le_add_right _ _
    have hnear : d.clock + settleTime ≤ d.clock + tickInterval :=
      Nat.add_le_add_left (by decide) _
    refine ⟨hrole, hsome, by rw [halarm], by rw [halarm], hahead, hnear, fun hon => ?_⟩
    exact absurd hon (by simp)
  · intro v told due window heq
    obtain ⟨-, -, -, rfl⟩ := hbegin v told due window heq
    exact Nat.lt_add_of_pos_right (by decide)

/-- **A turn of the monitor** raises only what may be raised, and leaves the next tick ahead. -/
theorem Recounts.pollMonitor (h : Recounts d past) (hrole : .monitor ∈ d.roles) :
    GoesOn d past d.pollMonitor ∧ NotDue d.pollMonitor := by
  obtain ⟨hbegins, hahead⟩ := h.begins hrole
  have hmove := Monitor.poll_move d.clock d.board d.status d.store d.events d.monitor
  rw [Device.pollMonitor]
  generalize Monitor.poll d.clock d.board d.status d.store d.events d.monitor = turn
    at hmove ⊢
  generalize hm : d.monitor = m at hmove
  cases hmove with
  | start =>
    refine ⟨Recounts.goesOn_of_quiet ?_ rfl (by simp [Entry.moment?]), hahead⟩
    exact hbegins.frame rfl rfl rfl rfl id h.wishes h.loaded
  | await =>
    refine ⟨Recounts.goesOn_of_quiet ?_ rfl (by simp), hahead⟩
    exact hbegins.frame rfl rfl rfl rfl id h.wishes h.loaded
  | wait v told due window hwait =>
    refine ⟨Recounts.goesOn_of_quiet ?_ rfl (by simp), fun v' told' due' window' heq => ?_⟩
    · exact h.frame rfl rfl rfl hm.symm id h.wishes h.loaded
    · cases heq
      rcases hwait with hlt | hnone
      · exact hlt
      · have hsome := (h.sampled v told due window hm).2.1
        exact absurd hsome (by rw [hnone]; simp)
  | tick v told due window s hs hdue =>
    refine ⟨⟨_, rfl, ?_⟩, fun v' told' due' window' heq => ?_⟩
    · rw [Monitor.moments_tick]
      exact (h.tick hm rfl).frame rfl rfl rfl rfl id h.wishes fun _ => rfl
    · cases heq
      exact Nat.lt_add_of_pos_right (by decide)

theorem Recounts.turn (h : Recounts d past) (r : Role) : GoesOn d past (d.turn r) := by
  by_cases hrole : r ∈ d.roles
  · rw [turn_of_mem hrole]
    cases r with
    | dispatcher => exact h.pollDispatcher
    | flashWriter => exact h.pollFlashWriter
    | monitor => exact (h.pollMonitor hrole).1
    | lamp => exact h.pollLamp
    | button => exact h.pollButton
  · rw [turn_of_not_mem hrole]
    have hnone : ∀ e ∈ ([] : List Entry), e.moment? = none := by simp
    exact h.goesOn_of_quiet rfl hnone

/-! ## Runs -/

/-- The journal of the device goes on from `base`, and it recounts the moments since. -/
def Follows (base : List Stamped) (past : List (Moment × Nat)) (d : Device) : Prop :=
  ∃ new, d.journal = new ++ base ∧ Recounts d (past ++ new.reverse.filterMap Stamped.moment?)

variable {base : List Stamped}

theorem Follows.goesOn (h : Follows base past d)
    (hstep : ∀ past, Recounts d past → GoesOn d past d') : Follows base past d' := by
  obtain ⟨new, hjournal, hrecounts⟩ := h
  obtain ⟨entries, hjournal', hrecounts'⟩ := hstep _ hrecounts
  refine ⟨(entries.map (Stamped.mk d.clock)).reverse ++ new, ?_, ?_⟩
  · rw [hjournal', hjournal, List.append_assoc]
  · have hmoments : (entries.map (Stamped.mk d.clock)).filterMap Stamped.moment?
        = (entries.filterMap Entry.moment?).map (·, d.clock) := by
      rw [List.filterMap_map, List.map_filterMap]
      rfl
    rw [List.reverse_append, List.reverse_reverse, List.filterMap_append, hmoments,
      ← List.append_assoc]
    exact hrecounts'

theorem Follows.turn (h : Follows base past d) (r : Role) : Follows base past (d.turn r) :=
  h.goesOn fun _ hrecounts => hrecounts.turn r

/-- After a round no tick is due. -/
theorem Follows.round (h : Follows base past d) : Follows base past d.round ∧ NotDue d.round := by
  have hbefore := (h.turn .dispatcher).turn .flashWriter
  have hmonitor := hbefore.turn .monitor
  have hahead : NotDue (((d.turn .dispatcher).turn .flashWriter).turn .monitor) := by
    obtain ⟨new, -, hrecounts⟩ := hbefore
    by_cases hrole : .monitor ∈ ((d.turn .dispatcher).turn .flashWriter).roles
    · rw [turn_of_mem hrole]
      exact (hrecounts.pollMonitor hrole).2
    · rw [turn_of_not_mem hrole]
      intro v told due window heq
      exact absurd (hrecounts.sampled v told due window heq).1 hrole
  refine ⟨(hmonitor.turn .lamp).turn .button, ?_⟩
  rw [Device.round, NotDue, turn_monitor_of_ne _ (by simp), turn_monitor_of_ne _ (by simp),
    turn_clock, turn_clock]
  exact hahead

theorem Follows.run (h : Follows base past d) (ms : Nat) : Follows base past (d.run ms) := by
  refine (run_settled_until (P := Follows base past) (Q := NotDue) ?_ ?_ h
    (Nat.le_refl (d.clock + ms))).1
  · intro d h
    exact h.round.1.round
  · rintro d ⟨new, hjournal, h⟩ hahead -
    refine ⟨new, hjournal, h.power, fun since hsince => Nat.le_succ_of_le (h.times since hsince),
      h.wishes, h.loaded, fun v told due window heq => ?_, h.graced⟩
    obtain ⟨hrole, hsome, hsampled⟩ := h.sampled v told due window heq
    exact ⟨hrole, hsome, hsampled.wait (hahead v told due window heq)⟩

theorem Follows.entriesSince (h : Follows d.journal past d') :
    Recounts d' (past ++ (d'.entriesSince d).filterMap Stamped.moment?) := by
  obtain ⟨new, hjournal, hrecounts⟩ := h
  rw [entriesSince_of_append hjournal]
  exact hrecounts

/-- A device recounts what happens to it. -/
theorem Recounts.act (h : Recounts d past) (a : Action) :
    Recounts (d.act a).1
      (past ++ (a.moments d.clock
        ++ ((d.act a).1.entriesSince d).filterMap Stamped.moment?)) := by
  -- most actions leave alone what the grace time depends on
  have quiet : ∀ d' : Device, a.moments d.clock = [] → d'.journal = d.journal →
      Recounts d' past → Recounts d'
        (past ++ (a.moments d.clock ++ (d'.entriesSince d).filterMap Stamped.moment?)) := by
    intro d' hmoments hjournal hnext
    rw [hmoments, entriesSince_of_eq hjournal]
    simpa using hnext
  cases a with
  | run ms =>
    have hstart : Follows d.journal past d := ⟨[], rfl, by simpa using h⟩
    exact (hstart.run ms).entriesSince
  | setVoltage _ | setCurrent _ | setThermistor _ | plug _ | button _ | setFaults _ _ _ | receive
  | raise _ =>
    exact quiet _ rfl rfl (h.frame rfl rfl rfl rfl id h.wishes h.loaded)
  | send event =>
    rw [Device.act]
    cases d.events.push? event with
    | none => exact quiet _ rfl rfl h
    | some queue => exact quiet _ rfl rfl (h.frame rfl rfl rfl rfl id h.wishes h.loaded)
  | setStatus change =>
    cases hpower : change.power with
    | none =>
      have hmoments : (Action.setStatus change).moments d.clock = [] := by
        rw [Action.moments, hpower]
        rfl
      refine quiet _ hmoments rfl (h.frame ?_ rfl rfl rfl id h.wishes h.loaded)
      simp [Device.act, Status.change, hpower]
    | some power =>
      have hnext := h.powered (d.status.change change)
      have hstatus : (d.status.change change).power = power := by simp [Status.change, hpower]
      rw [hstatus] at hnext
      have hjournal : (d.act (.setStatus change)).1.journal = d.journal := rfl
      rw [Action.moments, hpower, entriesSince_of_eq hjournal]
      exact hnext
  | restart =>
    have hentries : d.restart.entriesSince d = [⟨0, .booted⟩] := by
      simp [entriesSince, Device.restart, boot]
    rw [Device.act, hentries]
    refine recounts_boot _ _ _ _ ?_ (h.graced.concat fun _ hlevel => absurd hlevel (by simp))
    exact (powers_concat (m := (.booted, 0))).symm ▸ lastPower_concat _ _

theorem Recounts.chronicle (h : Recounts d past) (actions : List Action) :
    Graced (past ++ d.chronicle actions) := by
  induction actions generalizing d past with
  | nil =>
    rw [Device.chronicle, List.append_nil]
    exact h.graced
  | cons a rest ih =>
    rw [Device.chronicle, ← List.append_assoc]
    exact ih (h.act a)

/--
**Every alert comes after the grace time, or after an off-time that no tick has seen**, whatever
happens to the device, as long as its clock has not wrapped since it was switched on.
-/
theorem graced_chronicle (roles : List Role) (board : Board) (clock : Nat) (journal : List Stamped)
    (actions : List Action) : Graced ((boot roles board clock journal).chronicle actions) :=
  (recounts_boot roles board clock journal rfl graced_nil).chronicle actions

/-! ## An off-time that no tick sees -/

/-- No alert comes within the grace time after the speaker was switched on. -/
def KeepsGrace (moments : List (Moment × Nat)) : Prop :=
  ∀ before level now after, moments = before ++ (.raised level, now) :: after → now < UInt32.size →
    ∀ since, OnSince (powers before) since → since + ({} : AlarmConfig).grace.toNat ≤ now

/-- The chronicle, where time passes in leaps. -/
def leapChronicle (fuel : Nat) (d : Device) : List Action → List (Moment × Nat)
  | [] => []
  | a :: rest =>
    a.moments d.clock ++ ((d.leapAct fuel a).entriesSince d).filterMap Stamped.moment?
      ++ (d.leapAct fuel a).leapChronicle fuel rest

theorem leapChronicle_eq (fuel : Nat) (d : Device) (actions : List Action) :
    d.leapChronicle fuel actions = d.chronicle actions := by
  induction actions generalizing d with
  | nil => rfl
  | cons a rest ih => rw [leapChronicle, Device.chronicle, ih, leapAct_eq]

/-- The button is pressed shortly. -/
def shortPress : List Action := [.button true, .run 60, .button false]

/-- On a nearly empty pack the speaker is switched on, and between two ticks off and on again. -/
def briefOff : List Action :=
  [.setVoltage (some 2607), .run 100] ++ shortPress ++ [.run 4440] ++ shortPress ++ [.run 140]
    ++ shortPress ++ [.run 640]

theorem chronicle_briefOff :
    (boot [.dispatcher, .flashWriter, .monitor, .lamp, .button] {} 0 []).chronicle briefOff
      = [(.powered .on, 190), (.ticked, 500), (.ticked, 1500), (.ticked, 2500), (.ticked, 3500),
        (.ticked, 4500), (.powered .off, 4690), (.powered .on, 4890), (.ticked, 5500),
        (.raised .low, 5500), (.raised .critical, 5500)] := by
  rw [← leapChronicle_eq 20]
  decide +kernel

/-- The speaker is on for 610 ms when the alerts come. -/
theorem not_keepsGrace_briefOff :
    ¬ KeepsGrace ((boot [.dispatcher, .flashWriter, .monitor, .lamp, .button] {} 0 []).chronicle
      briefOff) := by
  intro h
  have hsince : OnSince (powers [(.powered .on, 190), (.ticked, 500), (.ticked, 1500),
      (.ticked, 2500), (.ticked, 3500), (.ticked, 4500), (.powered .off, 4690),
      (.powered .on, 4890), (.ticked, 5500)]) 4890 :=
    ⟨[(.on, 190), (.off, 4690)], [], rfl, by decide, by simp⟩
  have hgrace :=
    h _ .low 5500 [(.raised .critical, 5500)] chronicle_briefOff (by decide) 4890 hsince
  exact absurd hgrace (by decide)

end Device

end BatteryCare
