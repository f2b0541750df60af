import BatteryCare.Proofs.Charger.Moves
import BatteryCare.Proofs.Device.Turns
import BatteryCare.Proofs.Gauge.Moves

/-!
# Pin, charger and status agree

The enable pin is switched by the monitor, in the middle of a tick; the status is brought up to date
by the dispatcher, from the report that the tick has sent. Between the two the status is behind. So
the invariant is not about the status but about what it will be once the events that wait are heard
(`Device.heard`), and that agrees with the charger after every turn (`Agrees`).

A round starts with the dispatcher, so the monitor finds the queue empty and a tick, with four
events at most, always finds room for its report: no report is lost. After the first round of an
instant no tick is due, so the second one ends without a report in the queue. There the status has
heard everything, and the agreement holds of the status itself (`failSafe_run`).
-/

namespace BatteryCare

/-! ## Readings -/

namespace Readings

/-- The voltage that a tick accepts (mV). -/
def accepted? (r : Readings) : Option UInt16 :=
  (r.voltage.map batteryVoltage).filter (Gauge.isPlausible {} ·)

/-- The readings allow charging: the supply is there, and both conversions have succeeded with a
value inside their limits. -/
structure Safe (r : Readings) : Prop where
  plugged : r.plugged = true
  voltage : ∃ raw, r.voltage = some raw ∧ 1000 ≤ batteryVoltage raw
  thermistor : ∃ raw, r.thermistor = some raw ∧ hotLimit ≤ raw ∧ raw ≤ coldLimit

/-- A sample is safe only if both of its conversions have succeeded. -/
theorem safe_of_sample {r : Readings} {current : Int16} {mode : ChargeMode}
    (h : (r.sample current mode).Safe {}) : r.Safe := by
  obtain ⟨hplug, hthermal, hvoltage⟩ := h
  refine ⟨hplug, ?_, ?_⟩
  · cases hv : r.voltage with
    | none =>
      rw [sample, hv] at hvoltage
      exact absurd hvoltage (show ¬ (1000 : UInt16) ≤ 0 by decide)
    | some raw =>
      rw [sample, hv] at hvoltage
      exact ⟨raw, rfl, hvoltage⟩
  · cases ht : r.thermistor with
    | none =>
      rw [sample, ht] at hthermal
      exact absurd hthermal (by simp)
    | some raw =>
      rw [sample, ht] at hthermal
      have hwindow : inChargingWindow raw = true := hthermal
      rw [inChargingWindow, Bool.and_eq_true, decide_eq_true_iff, decide_eq_true_iff] at hwindow
      exact ⟨raw, rfl, hwindow⟩

theorem accepted?_eq (r : Readings) (current : Int16) (mode : ChargeMode) :
    (if Gauge.isPlausible {} (r.sample current mode).voltage then
        some (r.sample current mode).voltage else none)
      = r.accepted? := by
  rw [accepted?, sample]
  cases r.voltage with
  | none => rfl
  | some raw => rfl

end Readings

/-! ## What the status shows -/

/-- The battery values of a status. -/
structure BatteryView where
  charger : ChargerStatus
  level : UInt8
  voltage : Option UInt16

def Status.battery (s : Status) : BatteryView := ⟨s.charger, s.level, s.voltage⟩

/-- The event is the report of a tick. -/
def Event.IsReport : Event → Prop
  | .measured _ => True
  | .fullyCharged | .lowBattery _ | .powerSet _ | .chargeTypeSet _ => False

theorem Event.IsWish.not_isReport {event : Event} (h : event.IsWish) : ¬ event.IsReport := by
  cases event with
  | measured report => exact h.elim
  | fullyCharged | lowBattery _ | powerSet _ | chargeTypeSet _ => exact id

theorem Status.battery_hear {s : Status} {event : Event} (h : ¬ event.IsReport) :
    (s.hear event).battery = s.battery := by
  cases event with
  | measured report => exact absurd trivial h
  | fullyCharged | lowBattery _ | powerSet _ | chargeTypeSet _ => rfl

theorem Status.battery_foldl_hear {s : Status} {events : List Event}
    (h : ∀ event ∈ events, ¬ event.IsReport) :
    (events.foldl Status.hear s).battery = s.battery := by
  induction events generalizing s with
  | nil => rfl
  | cons event rest ih =>
    rw [List.foldl_cons, ih fun e he => h e (List.mem_cons_of_mem event he)]
    exact battery_hear (h event List.mem_cons_self)

/-! ## What a tick tells -/

/-- The calls of a tick bring the pin to where the charger is. -/
theorem Charger.Move.pin_iff {c c' : Charger} {s : Sample} {calls : List CircuitCall}
    (h : Move c s c' calls) {l : Ledger} (hl : l.pin = true ↔ c.status = .active) :
    ((calls.flatMap Monitor.pins).foldl Ledger.add l).pin = true ↔ c'.status = .active := by
  have idle : ∀ c' : Charger, c'.status ≠ .active → (false = true ↔ c'.status = .active) :=
    fun c' hc' => ⟨fun h => absurd h (by simp), fun h => absurd h hc'⟩
  cases h with
  | reset hc => exact idle _ (by simp [enter])
  | unplug hc hs =>
    rw [hc] at hl
    exact hl.trans ⟨fun h => absurd h (by simp), fun h => absurd h (by simp [enter])⟩
  | start hc hs hq => exact ⟨fun _ => rfl, fun _ => rfl⟩
  | hold hc hs hq => exact hl
  | cut hc hs => exact idle _ (by simp [enter])
  | finish hc hs hq => exact idle _ (by simp [enter])
  | charge hc hs hq => exact hl

/-- What pin and battery values are to a supervisor that has run the given ticks. -/
structure Shows (v : Supervisor) (pin : Bool) (ticks : List TickRecord) (shown : BatteryView) :
    Prop where
  gauge : v.gauge.config = {}
  charger : v.charger.config = {}
  pin : pin = true ↔ v.charger.status = .active
  status : shown.charger = v.charger.status
  level : ticks ≠ [] → shown.level = v.gauge.percent
  voltage : shown.voltage = ticks.findSome? (·.readings.accepted?)
  /-- The charger is active on the readings of the latest tick only. -/
  safe : v.charger.status = .active → ∃ t, ticks.head? = some t ∧ t.readings.Safe

theorem shows_start (store : Store) {shown : BatteryView} (hc : shown.charger = .notConnected)
    (hv : shown.voltage = none) : Shows (.start {} store) false [] shown where
  gauge := Gauge.restore_config {} store
  charger := rfl
  pin := ⟨fun h => absurd h (by simp), fun h => absurd h (by simp [Supervisor.start])⟩
  status := hc
  level := fun h => absurd rfl h
  voltage := hv
  safe := fun h => absurd h (by simp [Supervisor.start])

theorem Shows.setPower {v : Supervisor} {pin : Bool} {ticks : List TickRecord}
    {shown : BatteryView} (h : Shows v pin ticks shown) (power : PowerState) (now : UInt32) :
    Shows (v.setPower power now) pin ticks shown :=
  ⟨h.gauge, h.charger, h.pin, h.status, h.level, h.voltage, h.safe⟩

/-- A tick of the supervisor keeps the agreement, once its calls are made and its report is
heard. -/
theorem Shows.tick {v : Supervisor} {l : Ledger} {status : Status} {record : TickRecord}
    (h : Shows v l.pin l.ticks status.battery) (store : Store) {current : Int16} (mode : ChargeMode)
    (now : UInt32) {t : Tick} (ht : v.tick store (record.readings.sample current mode) now = t) :
    Shows t.supervisor
      ((t.calls.flatMap Monitor.pins).foldl Ledger.add (l.add (.ticked record))).pin
      ((t.calls.flatMap Monitor.pins).foldl Ledger.add (l.add (.ticked record))).ticks
      (status.applyReport t.report).battery := by
  subst ht
  have hmove := Charger.step_move v.charger (record.readings.sample current mode)
  have hticks : (((v.tick store (record.readings.sample current mode) now).calls.flatMap
      Monitor.pins).foldl Ledger.add (l.add (.ticked record))).ticks = record :: l.ticks := by
    obtain ⟨high, hpins⟩ := Monitor.foldl_pins _ (l.add (.ticked record))
    rw [hpins]
    rfl
  rw [hticks]
  refine ⟨?_, ?_, ?_, rfl, fun _ => rfl, ?_, ?_⟩
  · exact (Gauge.update_move v.gauge store _).config_eq.trans h.gauge
  · exact hmove.config_eq.trans h.charger
  · exact hmove.pin_iff (l := l.add (.ticked record)) h.pin
  · have hreport : (v.tick store (record.readings.sample current mode) now).report.voltage
        = record.readings.accepted? := by
      rw [← record.readings.accepted?_eq current mode, ← h.gauge]
      rfl
    change ((v.tick store (record.readings.sample current mode) now).report.voltage
      <|> status.voltage) = _
    -- a tick that accepts no voltage leaves the last one standing
    rw [hreport, show status.voltage = _ from h.voltage]
    rw [List.findSome?_cons]
    cases record.readings.accepted? <;> rfl
  · -- whatever the charger was before, it is active now only on a safe sample
    intro hactive
    have hsafe := hmove.safe_of_active hactive
    rw [h.charger] at hsafe
    exact ⟨record, rfl, Readings.safe_of_sample hsafe⟩

/-- **A tick keeps the agreement**: its report finds room, so it will be heard. -/
theorem Shows.monitor_tick {v : Supervisor} {l : Ledger} {status : Status} {queue : Fifo Event}
    (h : Shows v l.pin l.ticks status.battery) (hempty : queue.toList = [])
    (hroom : queue.capacity = eventCapacity) (now : Nat) (sensed : Sensed) (store : Store)
    (told : PowerState) {turn : Monitor.Turn}
    (hturn : Monitor.tick now sensed status store queue v told = turn) :
    ∃ v', turn.monitor = .waiting v' status.power (now + tickInterval) sensed.window
      ∧ turn.events.capacity = eventCapacity
      ∧ Shows v' (turn.entries.foldl Ledger.add l).pin (turn.entries.foldl Ledger.add l).ticks
          (turn.events.toList.foldl Status.hear status).battery := by
  subst hturn
  -- a new power state reaches the alarm, which the agreement does not look at
  obtain ⟨v', hv', hshows⟩ : ∃ v', v' = (if status.power = told then v
      else v.setPower status.power (.ofNat now)) ∧ Shows v' l.pin l.ticks status.battery := by
    refine ⟨_, rfl, ?_⟩
    split
    · exact h
    · exact h.setPower _ _
  rw [Monitor.tick, ← hv']
  dsimp only
  generalize ht : v'.tick store (sensed.sample status.chargeType.mode) (.ofNat now) = t
  have hlength : (Monitor.eventsOf t).length ≤ 4 := by
    rw [← ht]
    exact Monitor.length_eventsOf_tick _ _ _ _
  -- so the report, which comes last, is not dropped
  have hspace : queue.toList.length + (Monitor.eventsOf t).length ≤ queue.capacity := by
    rw [hempty, hroom, eventCapacity, List.length_nil]
    omega
  obtain ⟨hsent, hcapacity⟩ := Monitor.sendAll_of_room hspace
  refine ⟨t.supervisor, rfl, hcapacity.trans hroom, ?_⟩
  rw [List.cons_append, List.foldl_cons, List.foldl_append,
    (Monitor.unnoticed_sendAll queue (Monitor.eventsOf t)).foldl, hsent, hempty, List.nil_append,
    Monitor.foldl_hear_eventsOf]
  exact hshows.tick store _ _ ht

/-! ## The invariant -/

namespace Device

/-- The battery values that the status shows once the events that wait are heard. -/
def heard (d : Device) : BatteryView := (d.events.toList.foldl Status.hear d.status).battery

/-- What holds of a device between any two turns. -/
structure Agrees (d : Device) : Prop where
  room : d.events.capacity = eventCapacity
  wishes : d.button.Wishes
  store : d.flashWriter ≠ .unloaded → d.store.isSome = true
  /-- The monitor puts the pin low before it waits for anything. -/
  low : d.monitor = .awaitingImage → d.ledger.pin = false
  /-- Nothing is shown before the supervisor runs. -/
  fresh : d.monitor.supervisor? = none →
    d.ledger.ticks = [] ∧ d.heard.charger = .notConnected ∧ d.heard.voltage = none
  shows : ∀ v, d.monitor.supervisor? = some v → Shows v d.ledger.pin d.ledger.ticks d.heard

/-- No report waits for the dispatcher. -/
def NoReport (d : Device) : Prop := ∀ event ∈ d.events.toList, ¬ event.IsReport

/-- A change that leaves the monitor alone keeps the agreement, if it also leaves alone what the
monitor has noted and what will be heard. -/
theorem Agrees.frame {d d' : Device} (h : Agrees d) (hmonitor : d'.monitor = d.monitor)
    (hpin : d'.ledger.pin = d.ledger.pin) (hticks : d'.ledger.ticks = d.ledger.ticks)
    (hheard : d'.heard = d.heard) (hroom : d'.events.capacity = eventCapacity)
    (hwishes : d'.button.Wishes)
    (hstore : d'.flashWriter ≠ .unloaded → d'.store.isSome = true) : Agrees d' where
  room := hroom
  wishes := hwishes
  store := hstore
  low := by
    rw [hmonitor, hpin]
    exact h.low
  fresh := by
    rw [hmonitor, hticks, hheard]
    exact h.fresh
  shows := by
    rw [hmonitor, hpin, hticks, hheard]
    exact h.shows

theorem agrees_boot (roles : List Role) (board : Board) (clock : Nat) (journal : List Stamped) :
    Agrees (boot roles board clock journal) where
  room := rfl
  wishes := fun _ he => absurd he (by simp [boot])
  store := fun h => absurd rfl h
  low := fun h => absurd h (by simp [boot])
  fresh := fun _ => ⟨rfl, rfl, rfl⟩
  shows := fun _ hv => absurd hv (by simp [boot, Monitor.supervisor?])

theorem Agrees.pollDispatcher {d : Device} (h : Agrees d) :
    Agrees d.pollDispatcher ∧ d.pollDispatcher.events.toList = [] := by
  rw [pollDispatcher_eq]
  refine ⟨h.frame rfl ?_ ?_ rfl h.room h.wishes h.store, rfl⟩
  · rw [← pollDispatcher_eq, ledger_pollDispatcher]
  · rw [← pollDispatcher_eq, ledger_pollDispatcher]

theorem Agrees.pollFlashWriter {d : Device} (h : Agrees d) :
    Agrees d.pollFlashWriter ∧ d.pollFlashWriter.store.isSome = true := by
  obtain ⟨hpin, hticks⟩ := ledger_pollFlashWriter d
  have hstore : d.pollFlashWriter.store.isSome = true := (FlashWriter.store_poll h.store).1
  exact ⟨h.frame rfl hpin hticks rfl h.room h.wishes fun _ => hstore, hstore⟩

theorem Agrees.pollLamp {d : Device} (h : Agrees d) : Agrees d.pollLamp :=
  h.frame rfl (by rw [ledger_pollLamp]) (by rw [ledger_pollLamp]) rfl h.room h.wishes h.store

theorem heard_push {d d' : Device} {event : Event} (hstatus : d'.status = d.status)
    (hpush : d.events.push? event = some d'.events) (hevent : ¬ event.IsReport) :
    d'.heard = d.heard := by
  rw [heard, heard, hstatus, (Fifo.toList_push? hpush).1, List.foldl_append]
  exact Status.battery_hear hevent

theorem Agrees.pollButton {d : Device} (h : Agrees d) : Agrees d.pollButton := by
  have hturn : Button.Wished d.events (d.button.poll d.board.button d.clock d.status d.events) :=
    Button.wished_poll h.wishes
  obtain ⟨hwishes, hevents⟩ := hturn
  have hpin : d.pollButton.ledger.pin = d.ledger.pin := by rw [ledger_pollButton]
  have hticks : d.pollButton.ledger.ticks = d.ledger.ticks := by rw [ledger_pollButton]
  obtain ⟨hsame, _⟩ | ⟨event, hwish, hpush, _⟩ := hevents
  · have hqueue : d.pollButton.events = d.events := hsame
    refine h.frame rfl hpin hticks ?_ ?_ hwishes h.store
    · rw [heard, hqueue]
      rfl
    · rw [hqueue]
      exact h.room
  · have hqueue : d.events.push? event = some d.pollButton.events := hpush
    refine h.frame rfl hpin hticks ?_ ?_ hwishes h.store
    · exact heard_push rfl hqueue hwish.not_isReport
    · rw [(Fifo.toList_push? hqueue).2]
      exact h.room

/-- The supervisor starts with the pin low. -/
theorem Agrees.begin {d d' : Device} (h : Agrees d) (hnone : d.monitor.supervisor? = none)
    {s : Store} (hmonitor : d'.monitor = Monitor.begin d.clock (some s))
    (hpin : d'.ledger.pin = false) (hticks : d'.ledger.ticks = d.ledger.ticks)
    (hheard : d'.heard = d.heard) (hroom : d'.events.capacity = eventCapacity)
    (hwishes : d'.button.Wishes)
    (hstore : d'.flashWriter ≠ .unloaded → d'.store.isSome = true) : Agrees d' where
  room := hroom
  wishes := hwishes
  store := hstore
  low := fun _ => hpin
  fresh := fun hfresh => absurd hfresh (by rw [hmonitor]; simp [Monitor.begin, Monitor.supervisor?])
  shows := by
    obtain ⟨hnoTicks, hcharger, hvoltage⟩ := h.fresh hnone
    intro v hv
    rw [hmonitor] at hv
    cases hv
    rw [hpin, hticks, hnoTicks, hheard]
    exact shows_start s hcharger hvoltage

/-- Once there is a store, a turn of the monitor leaves the next tick ahead. -/
theorem Agrees.pollMonitor {d : Device} (h : Agrees d) (hempty : d.events.toList = [])
    (hstore : d.store.isSome = true) : Agrees d.pollMonitor ∧ TickAhead d.pollMonitor := by
  obtain ⟨s, hs⟩ := Option.isSome_iff_exists.mp hstore
  have hmove := Monitor.poll_move d.clock d.board d.status d.store d.events d.monitor
  rw [Device.pollMonitor]
  generalize Monitor.poll d.clock d.board d.status d.store d.events d.monitor = turn
    at hmove ⊢
  generalize hm : d.monitor = m at hmove
  cases hmove with
  | start =>
    have hnone : d.monitor.supervisor? = none := by rw [hm]; rfl
    refine ⟨h.begin hnone (by rw [hs]; rfl) ?_ ?_ rfl h.room h.wishes h.store, ?_⟩
    · rw [ledger_note]
      rfl
    · rw [ledger_note]
      rfl
    · rw [hs]
      exact ⟨_, _, _, _, rfl, Nat.lt_add_of_pos_right (by decide)⟩
  | await =>
    have hnone : d.monitor.supervisor? = none := by rw [hm]; rfl
    refine ⟨h.begin hnone (by rw [hs]; rfl) ?_ ?_ rfl h.room h.wishes h.store, ?_⟩
    · rw [ledger_note]
      exact h.low hm
    · rw [ledger_note]
      rfl
    · rw [hs]
      exact ⟨_, _, _, _, rfl, Nat.lt_add_of_pos_right (by decide)⟩
  | tick v told due window s' hs' hdue =>
    -- with no event in the way the status is what the user hears, so it is what the last tick told
    have hshows : Shows v d.ledger.pin d.ledger.ticks d.status.battery := by
      have hheard : d.heard = d.status.battery := by rw [heard, hempty]; rfl
      rw [← hheard]
      exact h.shows v (by rw [hm]; rfl)
    generalize hturn : Monitor.tick d.clock (d.board.sense window) d.status s' d.events v told
      = turn
    obtain ⟨v', hmonitor, hroom, hshows'⟩ := hshows.monitor_tick hempty h.room _ _ _ _ hturn
    refine ⟨⟨hroom, h.wishes, fun _ => ?_, fun hlow => ?_, fun hfresh => ?_, fun w hw => ?_⟩, ?_⟩
    · rw [← hturn]
      rfl
    · exact absurd (hmonitor.symm.trans hlow) (by simp)
    · exact absurd ((congrArg Monitor.supervisor? hmonitor).symm.trans hfresh)
        (by simp [Monitor.supervisor?])
    · have hwv : some v' = some w := (congrArg Monitor.supervisor? hmonitor).symm.trans hw
      cases hwv
      rw [ledger_note]
      exact hshows'
    · exact ⟨v', d.status.power, _, _, hmonitor, Nat.lt_add_of_pos_right (by decide)⟩
  | wait v told due window hwait =>
    have hahead : d.clock < due := by
      rcases hwait with hlt | hnone
      · exact hlt
      · exact absurd (hnone.symm.trans hs) (by simp)
    refine ⟨h.frame hm.symm ?_ ?_ rfl h.room h.wishes h.store, ⟨v, told, due, window, rfl, hahead⟩⟩
    · rw [ledger_note]
      rfl
    · rw [ledger_note]
      rfl

/-! ## Rounds -/

end Device

/-- The parts that the battery is in the hands of are all there. -/
structure ControlsBattery (roles : List Role) : Prop where
  dispatcher : .dispatcher ∈ roles
  flashWriter : .flashWriter ∈ roles
  monitor : .monitor ∈ roles

namespace Device

/-- The turns of a round that the battery depends on. -/
theorem round_eq {d : Device} (hr : ControlsBattery d.roles) :
    d.round
      = (d.pollDispatcher.pollFlashWriter.pollMonitor.turn .lamp).turn .button := by
  have hdispatcher : d.turn .dispatcher = d.pollDispatcher := turn_of_mem hr.dispatcher
  have hroles : d.pollDispatcher.roles = d.roles := poll_roles d .dispatcher
  have hwriter : d.pollDispatcher.turn .flashWriter = d.pollDispatcher.pollFlashWriter :=
    turn_of_mem (by rw [hroles]; exact hr.flashWriter)
  have hmonitor : d.pollDispatcher.pollFlashWriter.turn .monitor
      = d.pollDispatcher.pollFlashWriter.pollMonitor :=
    turn_of_mem (by
      rw [show d.pollDispatcher.pollFlashWriter.roles = _ from hroles]
      exact hr.monitor)
  rw [round, hdispatcher, hwriter, hmonitor]

/-- The lamp and the button keep the agreement and the tick ahead. -/
theorem Agrees.lamp_button {d : Device} (h : Agrees d) (ha : TickAhead d) :
    Agrees ((d.turn .lamp).turn .button) ∧ TickAhead ((d.turn .lamp).turn .button) := by
  have hlamp : Agrees (d.turn .lamp) ∧ TickAhead (d.turn .lamp) := by
    rcases turn_eq_or d .lamp with heq | heq
    · rw [heq]
      exact ⟨h.pollLamp, ha.frame rfl rfl⟩
    · rw [heq]
      exact ⟨h, ha⟩
  rcases turn_eq_or (d.turn .lamp) .button with heq | heq
  · rw [heq]
    exact ⟨hlamp.1.pollButton, hlamp.2.frame rfl rfl⟩
  · rw [heq]
    exact hlamp

theorem Agrees.round {d : Device} (h : Agrees d) (hr : ControlsBattery d.roles) :
    Agrees d.round ∧ TickAhead d.round := by
  rw [round_eq hr]
  obtain ⟨hdispatched, hempty⟩ := h.pollDispatcher
  obtain ⟨hwritten, hstore⟩ := hdispatched.pollFlashWriter
  obtain ⟨hticked, hahead⟩ := hwritten.pollMonitor hempty hstore
  exact hticked.lamp_button hahead

theorem NoReport.pollButton {d : Device} (h : NoReport d) (hw : d.button.Wishes) :
    NoReport d.pollButton := by
  have hturn : Button.Wished d.events (d.button.poll d.board.button d.clock d.status d.events) :=
    Button.wished_poll hw
  obtain ⟨_, ⟨hsame, _⟩ | ⟨event, hwish, hpush, _⟩⟩ := hturn
  · have hqueue : d.pollButton.events = d.events := hsame
    rw [NoReport, hqueue]
    exact h
  · have hqueue : d.events.push? event = some d.pollButton.events := hpush
    rw [NoReport, (Fifo.toList_push? hqueue).1]
    intro e he
    rcases List.mem_append.mp he with he | he
    · exact h e he
    · rw [List.mem_singleton.mp he]
      exact hwish.not_isReport

/-- With the tick ahead, a round sends nothing but wishes. -/
theorem noReport_round {d : Device} (h : Agrees d) (hr : ControlsBattery d.roles)
    (ha : TickAhead d) : NoReport d.round := by
  obtain ⟨hdispatched, hempty⟩ := h.pollDispatcher
  obtain ⟨hwritten, hstore⟩ := hdispatched.pollFlashWriter
  obtain ⟨hticked, hahead⟩ := hwritten.pollMonitor hempty hstore
  have hwriter : TickAhead d.pollDispatcher.pollFlashWriter :=
    ha.frame (by rw [pollDispatcher_eq]; rfl) (poll_clock d .dispatcher)
  -- the queue that the dispatcher has emptied is still empty after the monitor
  have hmonitor : NoReport d.pollDispatcher.pollFlashWriter.pollMonitor := by
    rw [NoReport, hwriter.pollMonitor_eq]
    intro e he
    exact absurd (show e ∈ d.pollDispatcher.events.toList from he) (by simp [hempty])
  rw [round_eq hr]
  generalize d.pollDispatcher.pollFlashWriter.pollMonitor = d' at hticked hmonitor
  have hlamp : NoReport (d'.turn .lamp) ∧ (d'.turn .lamp).button.Wishes := by
    rcases turn_eq_or d' .lamp with heq | heq
    · rw [heq]
      exact ⟨hmonitor, hticked.wishes⟩
    · rw [heq]
      exact ⟨hmonitor, hticked.wishes⟩
  rcases turn_eq_or (d'.turn .lamp) .button with heq | heq
  · rw [heq]
    exact hlamp.1.pollButton hlamp.2
  · rw [heq]
    exact hlamp.1

/-- **Settling keeps the agreement, and nothing is left unheard.** -/
theorem Agrees.settle {d : Device} (h : Agrees d) (hr : ControlsBattery d.roles) :
    Agrees d.settle ∧ TickAhead d.settle ∧ NoReport d.settle := by
  obtain ⟨hfirst, hahead⟩ := h.round hr
  have hr' : ControlsBattery d.round.roles := by rw [round_roles]; exact hr
  obtain ⟨hsecond, hahead'⟩ := hfirst.round hr'
  exact ⟨hsecond, hahead', noReport_round hfirst hr' hahead⟩

/-! ## Actions -/

end Device

/-- The action leaves the battery values of the status to the device. -/
def Action.LeavesBattery : Action → Prop
  | .send event => ¬ event.IsReport
  | .setStatus change => change.charger = none ∧ change.level = none ∧ change.voltage = none
  | .run _ | .setVoltage _ | .setCurrent _ | .setThermistor _ | .plug _ | .button _
  | .setFaults _ _ _ | .receive | .raise _ | .restart => True

namespace Device

/-- What holds of a device between two actions. -/
structure Coherent (d : Device) : Prop where
  roles : ControlsBattery d.roles
  agrees : Agrees d
  noReport : NoReport d

theorem NoReport.heard_eq {d : Device} (h : NoReport d) : d.heard = d.status.battery :=
  Status.battery_foldl_hear h

/-- A device is coherent at every settled instant. -/
theorem coherent_run {d : Device} (hr : ControlsBattery d.roles) (h : Agrees d) (ms : Nat) :
    Coherent (d.run ms) ∧ TickAhead (d.run ms) := by
  have hsettle : ∀ d : Device, ControlsBattery d.roles ∧ Agrees d →
      (ControlsBattery d.settle.roles ∧ Agrees d.settle)
        ∧ TickAhead d.settle ∧ NoReport d.settle := by
    rintro d ⟨hr, h⟩
    have hr' : ControlsBattery d.settle.roles := by
      rw [Device.settle, round_roles, round_roles]
      exact hr
    exact ⟨⟨hr', (h.settle hr).1⟩, (h.settle hr).2⟩
  have hwait : ∀ d : Device, ControlsBattery d.roles ∧ Agrees d →
      ControlsBattery ({ d with clock := d.clock + 1 } : Device).roles
        ∧ Agrees { d with clock := d.clock + 1 } := by
    rintro d ⟨hr, h⟩
    exact ⟨hr, h.frame rfl rfl rfl rfl h.room h.wishes h.store⟩
  obtain ⟨⟨hr', h'⟩, hahead, hnoReport⟩ :=
    run_settled (P := fun d => ControlsBattery d.roles ∧ Agrees d)
      (Q := fun d => TickAhead d ∧ NoReport d) hsettle hwait ⟨hr, h⟩ ms
  exact ⟨⟨hr', h', hnoReport⟩, hahead⟩

/-- Whatever leaves the battery values alone keeps a device coherent. -/
theorem Coherent.act {d : Device} (h : Coherent d) {a : Action} (ha : a.LeavesBattery) :
    Coherent (d.act a).1 := by
  have onBoard : ∀ change, Coherent (d.onBoard change) := fun change =>
    ⟨h.roles, h.agrees.frame rfl rfl rfl rfl h.agrees.room h.agrees.wishes h.agrees.store,
      h.noReport⟩
  have hheard : d.heard = d.status.battery := h.noReport.heard_eq
  cases a with
  | run ms => exact (coherent_run h.roles h.agrees ms).1
  | setVoltage raw =>
    simp only [Device.act]
    exact onBoard _
  | setCurrent raw =>
    simp only [Device.act]
    exact onBoard _
  | setThermistor raw =>
    simp only [Device.act]
    exact onBoard _
  | plug high =>
    simp only [Device.act]
    exact onBoard _
  | button high =>
    simp only [Device.act]
    exact onBoard _
  | setFaults stalled readFails writeFails =>
    simp only [Device.act]
    exact onBoard _
  | send event =>
    rw [Device.act]
    cases hpush : d.events.push? event with
    | none => exact h
    | some queue =>
      refine ⟨h.roles, ?_, ?_⟩
      · refine h.agrees.frame rfl rfl rfl ?_ ?_ h.agrees.wishes h.agrees.store
        · exact heard_push rfl hpush ha
        · exact (Fifo.toList_push? hpush).2.trans h.agrees.room
      · intro e he
        rcases List.mem_append.mp ((Fifo.toList_push? hpush).1 ▸ he) with he | he
        · exact h.noReport e he
        · rw [List.mem_singleton.mp he]
          exact ha
  | receive =>
    refine ⟨h.roles, ?_, fun e he => absurd he (by simp [Device.act, Fifo.clear])⟩
    refine h.agrees.frame rfl rfl rfl ?_ h.agrees.room h.agrees.wishes h.agrees.store
    rw [hheard]
    rfl
  | raise level =>
    exact ⟨h.roles, h.agrees.frame rfl rfl rfl rfl h.agrees.room h.agrees.wishes h.agrees.store,
      h.noReport⟩
  | setStatus change =>
    -- the events that wait are heard on top of the change, and none of them is a report
    obtain ⟨hcharger, hlevel, hvoltage⟩ := ha
    refine ⟨h.roles, ?_, h.noReport⟩
    refine h.agrees.frame rfl rfl rfl ?_ h.agrees.room h.agrees.wishes h.agrees.store
    have hchange : (d.status.change change).battery = d.status.battery := by
      simp [Status.change, Status.battery, hcharger, hlevel, hvoltage]
    rw [hheard, ← hchange]
    exact Status.battery_foldl_hear h.noReport
  | restart =>
    refine ⟨h.roles, agrees_boot _ _ _ _, fun e he => absurd he ?_⟩
    simp [Device.act, restart, boot, noEvents]

/-- Pin, charger and status of a device whose battery is in the hands of the supervisor `v`. -/
structure FailSafe (d : Device) (v : Supervisor) : Prop where
  supervisor : d.monitor.supervisor? = some v
  pin : d.ledger.pin = true ↔ v.charger.status = .active
  status : d.status.charger = v.charger.status
  level : d.ledger.ticks ≠ [] → d.status.level = v.gauge.percent
  /-- The status shows the last voltage accepted since boot. -/
  voltage : d.status.voltage = d.ledger.ticks.findSome? (·.readings.accepted?)
  /-- The pin is high on the readings of the latest tick only. -/
  safe : d.ledger.pin = true → ∃ t, d.ledger.ticks.head? = some t ∧ t.readings.Safe

/--
**Pin, charger and status agree at every settled instant**, whatever happens to the device before,
as long as nobody else writes the battery values of the status.
-/
theorem failSafe_run {roles : List Role} (hr : ControlsBattery roles) (board : Board) (clock : Nat)
    (journal : List Stamped) {actions : List Action} (ha : ∀ a ∈ actions, a.LeavesBattery)
    (ms : Nat) :
    ∃ v, FailSafe (((boot roles board clock journal).actAll actions).run ms) v := by
  have hboot : Coherent (boot roles board clock journal) :=
    ⟨hr, agrees_boot _ _ _ _, fun e he => absurd he (by simp [boot, noEvents])⟩
  have hrest : Coherent ((boot roles board clock journal).actAll actions) :=
    actAll_induction (fun d hd a hmem => hd.act (ha a hmem)) hboot
  obtain ⟨hlater, v, told, due, window, hmonitor, _⟩ := coherent_run hrest.roles hrest.agrees ms
  have hsupervisor : (((boot roles board clock journal).actAll actions).run ms).monitor.supervisor?
      = some v := by
    rw [hmonitor]
    rfl
  have hshows := hlater.agrees.shows v hsupervisor
  rw [hlater.noReport.heard_eq] at hshows
  exact ⟨v, hsupervisor, hshows.pin, hshows.status, hshows.level, hshows.voltage,
    fun hpin => hshows.safe (hshows.pin.mp hpin)⟩

/-- A device that is plugged in on an empty pack, told to go on, and switched off and on again. -/
theorem failSafe_run_replug :
    ∃ v, FailSafe
      (((boot [.dispatcher, .flashWriter, .monitor, .lamp, .button] {} 0 []).actAll
        [.setVoltage (some 3000), .setThermistor (some 2000), .plug true, .run 4000,
          .send (.powerSet .on), .setStatus { chargeType := some .batteryFriendly }, .restart]).run
        3000) v :=
  failSafe_run ⟨by decide, by decide, by decide⟩ {} 0 []
    (by simp [Action.LeavesBattery, Event.IsReport]) 3000

end Device

end BatteryCare
