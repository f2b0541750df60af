import BatteryCare.Proofs.Device.Blind
import BatteryCare.Proofs.Device.Log
import BatteryCare.Proofs.Gauge.Moves

/-!
# A device without its storage

Flash, word store and flash writer are covered, and with them what the gauge knows of the store and
which writes a tick has tried (`Device.withoutStorage`). Each turn does to what is left the same on
every store, so once the supervisor runs the view is blind to the faults (`blind_withoutStorage`).
Before that it is not: the supervisor starts with what the image says.
-/

namespace BatteryCare

/-! ## The supervisor without its cache -/

def Gauge.withoutCache (g : Gauge) : Gauge := { g with cache := [] }

def Supervisor.withoutCache (v : Supervisor) : Supervisor :=
  { v with gauge := v.gauge.withoutCache }

theorem Gauge.withoutCache_estimate? (g : Gauge) : g.withoutCache.estimate? = g.estimate? := rfl

theorem Gauge.withoutCache_percent (g : Gauge) : g.withoutCache.percent = g.percent := rfl

/-- What a gauge makes of a sample does not depend on what it knows of the store. -/
theorem Gauge.update_withoutCache (g : Gauge) (store store' : Store) (voltage : UInt16) :
    (g.withoutCache.update store' voltage).gauge.withoutCache
      = (g.update store voltage).gauge.withoutCache := by
  have hmove := g.update_move store voltage
  have hmove' := g.withoutCache.update_move store' voltage
  generalize g.update store voltage = outcome at hmove ⊢
  generalize g.withoutCache.update store' voltage = outcome' at hmove' ⊢
  cases hmove with
  | reject hv =>
    cases hmove' with
    | reject => rfl
    | keep hv' => exact absurd (hv.symm.trans hv') (by simp)
    | save hv' => exact absurd (hv.symm.trans hv') (by simp)
  | keep hv =>
    cases hmove' with
    | reject hv' => exact absurd (hv.symm.trans hv') (by simp)
    | keep => rfl
    | save => rfl
  | save hv =>
    cases hmove' with
    | reject hv' => exact absurd (hv.symm.trans hv') (by simp)
    | keep => rfl
    | save => rfl

/-- Two ticks are the same but for what they do to the store. -/
structure Tick.SameButStorage (t t' : Tick) : Prop where
  supervisor : t'.supervisor.withoutCache = t.supervisor.withoutCache
  report : t'.report = t.report
  calls : t'.calls = t.calls
  alerts : t'.alerts = t.alerts

theorem Supervisor.tick_withoutCache (v : Supervisor) (store store' : Store) (s : Sample)
    (now : UInt32) :
    Tick.SameButStorage (v.tick store s now) (v.withoutCache.tick store' s now) := by
  have hgauge := v.gauge.update_withoutCache store store' s.voltage
  have hestimate : (v.gauge.withoutCache.update store' s.voltage).gauge.estimate?
      = (v.gauge.update store s.voltage).gauge.estimate? := by
    rw [← Gauge.withoutCache_estimate?, hgauge, Gauge.withoutCache_estimate?]
  have hpercent : (v.gauge.withoutCache.update store' s.voltage).gauge.percent
      = (v.gauge.update store s.voltage).gauge.percent := by
    rw [← Gauge.withoutCache_percent, hgauge, Gauge.withoutCache_percent]
  constructor
  · simp only [tick, withoutCache, hgauge, hestimate, hpercent]
  · simp only [tick, withoutCache, hpercent]
    rfl
  · rfl
  · simp only [tick, withoutCache, hestimate, hpercent]

theorem Monitor.informed_withoutCache (now : Nat) (status : Status) (v : Supervisor)
    (told : PowerState) :
    informed now status v.withoutCache told = (informed now status v told).withoutCache := by
  rw [informed, informed]
  split
  · rfl
  · rfl

/-! ## The device without its storage -/

def Monitor.withoutCache : Monitor → Monitor
  | .starting => .starting
  | .awaitingImage => .awaitingImage
  | .waiting v told due window => .waiting v.withoutCache told due window

/-- The entry, unless the flash writer made it, without the writes that a tick tries. -/
def Entry.withoutStorage? : Entry → Option Entry
  | .loaded _ | .committed _ _ => none
  | .ticked t => some (.ticked { t with attempts := [] })
  | e => some e

theorem Entry.withoutStorage?_idem (e e' : Entry) (h : e.withoutStorage? = some e') :
    e'.withoutStorage? = some e' := by
  cases e with
  | loaded _ | committed _ _ => exact absurd h (by simp [withoutStorage?])
  | ticked _ | booted | enablePin _ | modePin _ | lamp _ | sent _ _ | handled _ | shown _ =>
    cases h
    rfl

/-- Turns of the monitor that are the same but for what they do to the store. -/
structure Monitor.Turn.SameButStorage (turn turn' : Turn) : Prop where
  monitor : turn'.monitor.withoutCache = turn.monitor.withoutCache
  events : turn'.events = turn.events
  entries : turn'.entries.filterMap Entry.withoutStorage?
    = turn.entries.filterMap Entry.withoutStorage?

theorem Monitor.tick_withoutCache (now : Nat) (sensed : Sensed) (status : Status)
    (store store' : Store) (events : Fifo Event) (v : Supervisor) (told : PowerState) :
    Turn.SameButStorage (tick now sensed status store events v told)
      (tick now sensed status store' events v.withoutCache told) := by
  have htick : Tick.SameButStorage (outcome now sensed status store v told)
      (outcome now sensed status store' v.withoutCache told) := by
    rw [outcome, outcome, informed_withoutCache]
    exact Supervisor.tick_withoutCache _ _ _ _ _
  have hevents : eventsOf (outcome now sensed status store' v.withoutCache told)
      = eventsOf (outcome now sensed status store v told) := by
    rw [eventsOf, eventsOf, htick.calls, htick.alerts, htick.report]
  have hrecord :
      Entry.withoutStorage? (.ticked
        (recordOf sensed status (outcome now sensed status store' v.withoutCache told)))
      = Entry.withoutStorage? (.ticked
        (recordOf sensed status (outcome now sensed status store v told))) := by
    simp [Entry.withoutStorage?, recordOf, htick.report, htick.calls, htick.alerts]
  constructor
  · exact congrArg (Monitor.waiting · status.power (now + tickInterval) sensed.window)
      htick.supervisor
  · exact congrArg (fun sent => (sendAll events sent).1) hevents
  · rw [tick_entries, tick_entries, List.filterMap_cons, List.filterMap_cons, hrecord, hevents,
      htick.calls]

namespace Device

/-- The device with all of its storage covered. -/
def withoutStorage (d : Device) : Device :=
  { d with
    board := { d.board with flash := {} }
    store := some { image := [] }
    flashWriter := .idle
    monitor := d.monitor.withoutCache
    journal := keepEntries Entry.withoutStorage? d.journal }

variable {d e : Device}

theorem withoutStorage_note (d : Device) (entries : List Entry) :
    (d.note entries).withoutStorage
      = d.withoutStorage.note (entries.filterMap Entry.withoutStorage?) := by
  rw [note, withoutStorage, keepEntries_note]
  rfl

theorem withoutStorage_idem (d : Device) : d.withoutStorage.withoutStorage = d.withoutStorage := by
  have hmonitor : d.monitor.withoutCache.withoutCache = d.monitor.withoutCache := by
    cases d.monitor with
    | starting | awaitingImage | waiting _ _ _ _ => rfl
  rw [withoutStorage, withoutStorage, hmonitor, keepEntries_idem Entry.withoutStorage?_idem]

theorem withoutStorage_pollDispatcher (d : Device) :
    d.pollDispatcher.withoutStorage = d.withoutStorage.pollDispatcher := by
  rw [pollDispatcher_eq, pollDispatcher_eq, withoutStorage_note, filterMap_eq_self]
  · rfl
  · intro e he
    obtain ⟨event, -, rfl⟩ := List.mem_map.mp he
    rfl

theorem withoutStorage_pollFlashWriter (d : Device) :
    d.pollFlashWriter.withoutStorage = d.withoutStorage := by
  have hnone : (d.flashWriter.poll d.board.flash d.store).entries.filterMap Entry.withoutStorage?
      = [] := by
    refine List.filterMap_eq_nil_iff.mpr fun e he => ?_
    have hentry := FlashWriter.isEntry_poll _ _ _ e he
    cases e with
    | loaded _ | committed _ _ => rfl
    | ticked _ | booted | enablePin _ | modePin _ | lamp _ | sent _ _ | handled _ | shown _ =>
      exact hentry.elim
  rw [pollFlashWriter, written, withoutStorage_note, hnone]
  rfl

theorem withoutStorage_pollLamp (d : Device) :
    d.pollLamp.withoutStorage = d.withoutStorage.pollLamp := by
  rw [pollLamp, withoutStorage_note, filterMap_eq_self]
  · rfl
  · intro e he
    rcases List.mem_append.mp he with he | he
    · obtain ⟨level, -, rfl⟩ := List.mem_map.mp he
      rfl
    · obtain ⟨output, -, rfl⟩ := List.mem_map.mp he
      rfl

theorem withoutStorage_pollButton (d : Device) :
    d.pollButton.withoutStorage = d.withoutStorage.pollButton := by
  rw [pollButton, withoutStorage_note, filterMap_eq_self]
  · rfl
  · intro e he
    obtain ⟨event, -, rfl⟩ := List.mem_map.mp he
    rfl

theorem pollMonitor_of_due {v : Supervisor} {told : PowerState} {due : Nat}
    {window : List Single} {s : Store} (hmonitor : d.monitor = .waiting v told due window)
    (hs : d.store = some s) (hdue : due ≤ d.clock) :
    d.pollMonitor = ({ d with
      monitor := (Monitor.tick d.clock (d.board.sense window) d.status s d.events v told).monitor
      store := (Monitor.tick d.clock (d.board.sense window) d.status s d.events v told).store
      events := (Monitor.tick d.clock (d.board.sense window) d.status s d.events v told).events }
        : Device).note
      (Monitor.tick d.clock (d.board.sense window) d.status s d.events v told).entries := by
  rw [pollMonitor, hmonitor, hs, Monitor.poll, if_pos hdue]

/-- The monitor shows the same whatever store it works on. -/
theorem withoutStorage_pollMonitor {v : Supervisor} {told : PowerState} {due : Nat}
    {window : List Single} {s : Store} (hmonitor : d.monitor = .waiting v told due window)
    (hs : d.store = some s) :
    d.pollMonitor.withoutStorage = d.withoutStorage.pollMonitor.withoutStorage := by
  have hcovered : d.withoutStorage.monitor = .waiting v.withoutCache told due window := by
    rw [withoutStorage, hmonitor]
    rfl
  by_cases hdue : due ≤ d.clock
  · have hsame := Monitor.tick_withoutCache d.clock (d.board.sense window) d.status s
      { image := [] } d.events v told
    rw [pollMonitor_of_due hmonitor hs hdue, pollMonitor_of_due hcovered rfl hdue,
      withoutStorage_note, withoutStorage_note]
    refine (congrArg₂ note ?_ hsame.entries).symm
    -- what the second look covers is covered already
    rw [withoutStorage, withoutStorage, withoutStorage,
      keepEntries_idem Entry.withoutStorage?_idem]
    exact congrArg₂ (fun monitor events => ({ d.withoutStorage with monitor, events } : Device))
      hsame.monitor hsame.events
  · have hwait : d.pollMonitor = d :=
      TickAhead.pollMonitor_eq ⟨v, told, due, window, hmonitor, Nat.lt_of_not_le hdue⟩
    have hwait' : d.withoutStorage.pollMonitor = d.withoutStorage :=
      TickAhead.pollMonitor_eq ⟨_, told, due, window, hcovered, Nat.lt_of_not_le hdue⟩
    rw [hwait, hwait', withoutStorage_idem]

/-- Every part but the monitor does the same on devices that look the same. -/
theorem withoutStorage_turn (hd : ∀ r, r ∈ d.roles) (he : ∀ r, r ∈ e.roles)
    (hview : d.withoutStorage = e.withoutStorage) {r : Role} (hr : r ≠ .monitor) :
    (d.turn r).withoutStorage = (e.turn r).withoutStorage := by
  rw [turn_of_mem (hd r), turn_of_mem (he r)]
  cases r with
  | dispatcher =>
    rw [poll, poll, withoutStorage_pollDispatcher, withoutStorage_pollDispatcher, hview]
  | flashWriter =>
    rw [poll, poll, withoutStorage_pollFlashWriter, withoutStorage_pollFlashWriter, hview]
  | monitor => exact absurd rfl hr
  | lamp => rw [poll, poll, withoutStorage_pollLamp, withoutStorage_pollLamp, hview]
  | button => rw [poll, poll, withoutStorage_pollButton, withoutStorage_pollButton, hview]

/-- A device with all its parts, on which the supervisor runs. -/
structure InService (d : Device) : Prop where
  ready : Ready d
  roles : ∀ r, r ∈ d.roles
  running : ∃ v told due window, d.monitor = .waiting v told due window

theorem InService.withoutStorage_round (h : InService d) (h' : InService e)
    (hview : d.withoutStorage = e.withoutStorage) :
    d.round.withoutStorage = e.round.withoutStorage := by
  have hmonitor : d.atMonitor.withoutStorage = e.atMonitor.withoutStorage :=
    withoutStorage_turn (by simpa using h.roles) (by simpa using h'.roles)
      (withoutStorage_turn h.roles h'.roles hview (by simp)) (by simp)
  have hticked : ∀ {d : Device}, InService d →
      (d.atMonitor.turn .monitor).withoutStorage
        = d.atMonitor.withoutStorage.pollMonitor.withoutStorage := by
    intro d h
    obtain ⟨v, told, due, window, hwaiting⟩ := h.running
    obtain ⟨s, hs⟩ := h.ready.store_atMonitor (h.roles _)
    rw [turn_of_mem (by simpa using h.roles _), poll]
    exact withoutStorage_pollMonitor ((atMonitor_monitor d).trans hwaiting) hs
  have hlamp : (d.atMonitor.turn .monitor).withoutStorage
      = (e.atMonitor.turn .monitor).withoutStorage := by
    rw [hticked h, hticked h', hmonitor]
  have hbutton : d.atButton.withoutStorage = e.atButton.withoutStorage :=
    withoutStorage_turn (by simpa using h.roles) (by simpa using h'.roles) hlamp (by simp)
  rw [round_eq_button, round_eq_button]
  exact withoutStorage_turn (by simpa using h.roles) (by simpa using h'.roles) hbutton (by simp)

theorem InService.round (h : InService d) : InService d.round where
  ready := h.ready.round
  roles := by simpa using h.roles
  running := by
    obtain ⟨v, told, due, window, hmonitor, -⟩ := h.ready.tickAhead_round (h.roles _) (h.roles _)
    exact ⟨v, told, due, window, hmonitor⟩

/-- Settling again shows nothing, since only the flash writer has anything to do. -/
theorem withoutStorage_resettle (h : Settled d) (hahead : TickAhead d) :
    d.settle.withoutStorage = d.withoutStorage := by
  have hwritten : ∀ d : Device, (d.turn .flashWriter).withoutStorage = d.withoutStorage := by
    intro d
    rcases turn_eq_or d .flashWriter with heq | heq
    · rw [heq, poll, withoutStorage_pollFlashWriter]
    · rw [heq]
  rw [h.settle_eq hahead, hwritten, hwritten]

/-- Inputs do the same to devices that look the same. -/
theorem withoutStorage_act (d : Device) {a : Action} (ha : a ≠ .restart) (hinput : a.IsInput) :
    (d.act a).1.withoutStorage = (d.withoutStorage.act a).1 := by
  cases a with
  | run _ | setFaults _ _ _ => exact hinput.elim
  | restart => exact absurd rfl ha
  | send event =>
    have hevents : d.withoutStorage.events = d.events := rfl
    rw [Device.act, Device.act, hevents]
    cases d.events.push? event with
    | none => rfl
    | some queue => rfl
  | setVoltage _ | setCurrent _ | setThermistor _ | plug _ | button _ | receive | raise _
  | setStatus _ => rfl

/-- **Once the image is loaded, nothing but the storage shows the faults.** -/
theorem blind_withoutStorage : Blind (· ≠ .restart) InService withoutStorage where
  run := fun _ => by simp
  keeps_settle := fun _ h => h.round.round
  keeps_wait := fun _ h => ⟨h.ready.frame rfl rfl rfl rfl rfl rfl, h.roles, h.running⟩
  keeps_act := by
    intro d a ha hrun h
    have hsame := ((d.act_cases a).resolve_left fun ⟨ms, hms⟩ => hrun ms hms).resolve_left ha
    refine ⟨h.ready.act a, fun r => ?_, ?_⟩
    · rw [act_roles]
      exact h.roles r
    · rw [hsame.monitor]
      exact h.running
  settle := fun d e h h' hview =>
    h.round.withoutStorage_round h'.round (h.withoutStorage_round h' hview)
  wait := fun d e hview =>
    congrArg (fun d : Device => ({ d with clock := d.clock + 1 } : Device)) hview
  input := by
    intro d e a ha hinput h h' hview
    rw [withoutStorage_act d ha hinput, withoutStorage_act e ha hinput, hview]
  faults := fun _ _ _ _ => rfl
  resettle := fun d ms h =>
    withoutStorage_resettle (h.ready.settled_run (h.roles _) ms)
      (h.ready.tickAhead_run (h.roles _) (h.roles _) ms)

end Device

end BatteryCare
