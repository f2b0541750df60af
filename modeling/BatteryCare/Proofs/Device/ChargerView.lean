import BatteryCare.Proofs.Device.StorageView

/-!
# A device as its charger sees it

The charger decides on the readings and the charge type, which the user chooses with the button. A
view that shows no more than that (`Device.chargerOnly`) is blind to the flash from the start
(`blind_chargerOnly`): gauge and alarm may know different things on different flashes, and the
queue may hold different alerts, but wishes pass it without delay in any case.
-/

namespace BatteryCare

/-! ## What charging depends on -/

/-- Items of a queue. -/
def Fifo.filter {α : Type} (p : α → Bool) (q : Fifo α) : Fifo α :=
  ⟨q.capacity, q.toList.filter p, Nat.le_trans (List.length_filter_le p q.toList) q.length_le⟩

theorem Fifo.eq_of_toList {α : Type} {q r : Fifo α} (hcapacity : q.capacity = r.capacity)
    (hlist : q.toList = r.toList) : q = r := by
  cases q
  cases r
  cases hcapacity
  cases hlist
  rfl

/-- The events that are wishes. -/
def wishesOf (events : Fifo Event) : Fifo Event := events.filter fun event => event.IsWish

/-- What the user chose. -/
def Status.chosen (s : Status) : Status := { power := s.power, chargeType := s.chargeType }

theorem Status.chosen_hear (s : Status) (event : Event) :
    (s.hear event).chosen = if event.IsWish then s.chosen.hear event else s.chosen := by
  cases event with
  | powerSet _ | chargeTypeSet _ | measured _ | fullyCharged | lowBattery _ => rfl

/-- Only wishes change what the user chose. -/
theorem Status.chosen_foldl_hear (events : List Event) (s : Status) :
    (events.foldl hear s).chosen
      = (events.filter fun event => event.IsWish).foldl hear s.chosen := by
  induction events generalizing s with
  | nil => rfl
  | cons event rest ih =>
    rw [List.foldl_cons, ih, chosen_hear, List.filter_cons]
    by_cases hwish : event.IsWish
    · simp [hwish]
    · simp [hwish]

def Supervisor.chargerOnly (v : Supervisor) : Supervisor where
  gauge := { config := {} }
  charger := v.charger
  alarm := {}

def Monitor.chargerOnly : Monitor → Monitor
  | .starting => .starting
  | .awaitingImage => .awaitingImage
  | .waiting v _ due window => .waiting v.chargerOnly .off due window

/-- A charger pin is set. -/
def Entry.isPin : Entry → Bool
  | .enablePin _ | .modePin _ => true
  | _ => false

def Entry.pin? (e : Entry) : Option Entry := if e.isPin then some e else none

theorem Entry.pin?_idem (e e' : Entry) (h : e.pin? = some e') : e'.pin? = some e' := by
  rw [pin?] at h
  split at h
  · rename_i hpin
    cases h
    rw [pin?, if_pos hpin]
  · cases h

/-- Turns of the monitor that are the same to the charger. -/
structure Monitor.Turn.SameForCharger (turn turn' : Turn) : Prop where
  monitor : turn'.monitor.chargerOnly = turn.monitor.chargerOnly
  events : wishesOf turn'.events = wishesOf turn.events
  entries : turn'.entries.filterMap Entry.pin? = turn.entries.filterMap Entry.pin?

theorem Monitor.wishesOf_sendAll {queue : Fifo Event} {events : List Event}
    (h : ∀ event ∈ events, ¬ event.IsWish) :
    wishesOf (sendAll queue events).1 = wishesOf queue := by
  induction events generalizing queue with
  | nil => rfl
  | cons event rest ih =>
    have hrest : ∀ event' ∈ rest, ¬ event'.IsWish :=
      fun event' he => h event' (List.mem_cons_of_mem event he)
    rw [sendAll]
    cases hpush : queue.push? event with
    | none => exact ih hrest
    | some q =>
      obtain ⟨hlist, hcapacity⟩ := Fifo.toList_push? hpush
      refine (ih hrest).trans (Fifo.eq_of_toList hcapacity ?_)
      show q.toList.filter _ = queue.toList.filter _
      rw [hlist, List.filter_append, List.filter_singleton]
      simp [h event List.mem_cons_self]

theorem Monitor.pins_tick (now : Nat) (sensed : Sensed) (status : Status)
    (store : Store) (events : Fifo Event) (v : Supervisor) (told : PowerState) :
    (tick now sensed status store events v told).entries.filterMap Entry.pin?
      = (outcome now sensed status store v told).calls.flatMap pins := by
  have hpins : ∀ e ∈ (outcome now sensed status store v told).calls.flatMap pins,
      e.pin? = some e := by
    intro e he
    obtain ⟨high, rfl | rfl⟩ := mem_pins he
    · rfl
    · rfl
  have hsent : (sendAll events (eventsOf (outcome now sensed status store v told))).2.filterMap
      Entry.pin? = [] := by
    refine List.filterMap_eq_nil_iff.mpr fun e he => ?_
    obtain ⟨event, -, queued, rfl⟩ := eq_sent_of_mem_sendAll he
    rfl
  rw [tick_entries, List.filterMap_cons, List.filterMap_append, filterMap_eq_self hpins, hsent,
    List.append_nil]
  rfl

theorem wishesOf_idem (events : Fifo Event) : wishesOf (wishesOf events) = wishesOf events :=
  Fifo.eq_of_toList rfl (by simp [wishesOf, Fifo.filter])

/-- **The charger works on the readings and the charge type**, and on nothing else. -/
theorem Monitor.tick_sameForCharger (now : Nat) (sensed : Sensed) (status : Status)
    (store store' : Store) (events : Fifo Event) (v : Supervisor) (told : PowerState) :
    Turn.SameForCharger (tick now sensed status store events v told)
      (tick now sensed status.chosen store' (wishesOf events) v.chargerOnly .off) := by
  have hcharger : (informed now status.chosen v.chargerOnly .off).charger
      = (informed now status v told).charger := by
    rw [informed_charger, informed_charger]
    rfl
  have hstep : (informed now status.chosen v.chargerOnly .off).charger.step
        (sensed.sample status.chosen.chargeType.mode)
      = (informed now status v told).charger.step (sensed.sample status.chargeType.mode) := by
    rw [hcharger]
    rfl
  constructor
  · exact congrArg (fun step => Monitor.waiting ⟨{ config := {} }, step.1, {}⟩ .off
      (now + tickInterval) sensed.window) hstep
  · show wishesOf (sendAll _ _).1 = wishesOf (sendAll _ _).1
    rw [wishesOf_sendAll fun _ => not_isWish_of_mem_eventsOf,
      wishesOf_sendAll fun _ => not_isWish_of_mem_eventsOf, wishesOf_idem]
  · rw [pins_tick, pins_tick]
    exact congrArg (fun step => step.2.flatMap pins) hstep

/-- What is sensed does not come from the flash. -/
theorem Monitor.poll_sameForCharger (now : Nat) (board : Board) (status : Status)
    (store store' : Store) (events : Fifo Event) (m : Monitor) :
    Turn.SameForCharger (poll now board status (some store) events m)
      (poll now { board with flash := {} } status.chosen (some store') (wishesOf events)
        m.chargerOnly) := by
  cases m with
  | starting => exact ⟨rfl, wishesOf_idem events, rfl⟩
  | awaitingImage => exact ⟨rfl, wishesOf_idem events, rfl⟩
  | waiting v told due window =>
    rw [chargerOnly, poll, poll]
    split
    · exact tick_sameForCharger now (board.sense window) status store store' events v told
    · exact ⟨rfl, wishesOf_idem events, rfl⟩

/-! ## What the button sends -/

namespace Button

variable {events events' : Fifo Event}

/-- With room in the queue a turn of the button does not depend on what waits there, nor on what
the user did not choose. -/
theorem poll_chosen (hroom : events.toList.length < events.capacity)
    (hroom' : events'.toList.length < events'.capacity) (pin : InputPin) (b : Button) (now : Nat)
    (status : Status) :
    (b.poll pin now status.chosen events').button = (b.poll pin now status events).button
      ∧ (b.poll pin now status.chosen events').sent = (b.poll pin now status events).sent := by
  have hsend : ∀ event, (send pin events' event).button = (send pin events event).button
      ∧ (send pin events' event).sent = (send pin events event).sent := by
    intro event
    obtain ⟨q, hq⟩ := push?_of_room hroom event
    obtain ⟨q', hq'⟩ := push?_of_room hroom' event
    rw [send, send, hq, hq']
    cases event with
    | chargeTypeSet _ | powerSet _ | measured _ | fullyCharged | lowBattery _ => exact ⟨rfl, rfl⟩
  cases b with
  | unread => exact ⟨rfl, rfl⟩
  | up watch =>
    rw [poll, poll]
    split
    · exact ⟨rfl, rfl⟩
    · exact ⟨rfl, rfl⟩
  | down due watch =>
    rw [poll, poll]
    split
    · exact hsend _
    · split
      · exact hsend _
      · exact ⟨rfl, rfl⟩
  | sending event => exact hsend event
  | releasing => exact ⟨rfl, rfl⟩

/-- What is sent is added to the wishes that wait. -/
theorem wishesOf_poll (pin : InputPin) (events : Fifo Event) {b : Button} (h : b.Wishes)
    (now : Nat) (status : Status) :
    (wishesOf (b.poll pin now status events).events).toList
        = (wishesOf events).toList ++ (b.poll pin now status events).sent.toList
      ∧ (b.poll pin now status events).events.capacity = events.capacity := by
  have hturn : Wished events (b.poll pin now status events) := wished_poll h
  obtain ⟨hsame, hnone⟩ | ⟨event, hwish, hpush, hsome⟩ := hturn.events
  · rw [hsame, hnone]
    exact ⟨(List.append_nil _).symm, rfl⟩
  · obtain ⟨hlist, hcapacity⟩ := Fifo.toList_push? hpush
    rw [hsome]
    refine ⟨?_, hcapacity⟩
    show List.filter _ (Fifo.toList _) = _
    rw [hlist, List.filter_append, List.filter_singleton]
    simp [hwish, wishesOf, Fifo.filter]

end Button

/-! ## The view -/

namespace Device

/-- The device with all covered that does not matter to its charger. -/
def chargerOnly (d : Device) : Device where
  roles := d.roles
  clock := d.clock
  board := { d.board with flash := {} }
  status := d.status.chosen
  events := wishesOf d.events
  store := some { image := [] }
  flashWriter := .idle
  monitor := d.monitor.chargerOnly
  button := d.button
  journal := keepEntries Entry.pin? d.journal

variable {d e : Device}

theorem chargerOnly_note (d : Device) (entries : List Entry) :
    (d.note entries).chargerOnly = d.chargerOnly.note (entries.filterMap Entry.pin?) := by
  rw [note, chargerOnly, keepEntries_note]
  rfl

theorem chargerOnly_idem (d : Device) : d.chargerOnly.chargerOnly = d.chargerOnly := by
  have hmonitor : d.monitor.chargerOnly.chargerOnly = d.monitor.chargerOnly := by
    cases d.monitor with
    | starting | awaitingImage | waiting _ _ _ _ => rfl
  show ({ d.chargerOnly with
    events := wishesOf (wishesOf d.events)
    monitor := d.monitor.chargerOnly.chargerOnly
    journal := keepEntries Entry.pin? (keepEntries Entry.pin? d.journal) } : Device) = _
  rw [hmonitor, wishesOf_idem, keepEntries_idem Entry.pin?_idem]
  rfl

/-- Entries that do not set a pin are covered. -/
theorem chargerOnly_note_of_none {entries : List Entry} (h : ∀ e ∈ entries, e.pin? = none)
    (d : Device) : (d.note entries).chargerOnly = d.chargerOnly := by
  rw [chargerOnly_note, List.filterMap_eq_nil_iff.mpr h]
  rfl

theorem chargerOnly_pollDispatcher (d : Device) :
    d.pollDispatcher.chargerOnly = { d.chargerOnly with
      events := d.chargerOnly.events.clear
      status := d.chargerOnly.events.toList.foldl Status.hear d.chargerOnly.status } := by
  rw [pollDispatcher_eq, chargerOnly_note_of_none]
  · exact congrArg (fun status => ({ d.chargerOnly with
      events := d.chargerOnly.events.clear, status } : Device)) (Status.chosen_foldl_hear _ _)
  · intro e he
    obtain ⟨event, -, rfl⟩ := List.mem_map.mp he
    rfl

theorem chargerOnly_pollFlashWriter (d : Device) :
    d.pollFlashWriter.chargerOnly = d.chargerOnly := by
  rw [pollFlashWriter, written, chargerOnly_note_of_none]
  · rfl
  · intro e he
    have hentry := FlashWriter.isEntry_poll _ _ _ e he
    cases e with
    | loaded _ | committed _ _ => rfl
    | ticked _ | booted | enablePin _ | modePin _ | lamp _ | sent _ _ | handled _ | shown _ =>
      exact hentry.elim

theorem chargerOnly_pollLamp (d : Device) : d.pollLamp.chargerOnly = d.chargerOnly := by
  rw [pollLamp, chargerOnly_note_of_none]
  · rfl
  · intro e he
    rcases List.mem_append.mp he with he | he
    · obtain ⟨level, -, rfl⟩ := List.mem_map.mp he
      rfl
    · obtain ⟨output, -, rfl⟩ := List.mem_map.mp he
      rfl

theorem chargerOnly_pollMonitor {s : Store} (hs : d.store = some s) :
    d.pollMonitor.chargerOnly = d.chargerOnly.pollMonitor.chargerOnly := by
  have hsame := Monitor.poll_sameForCharger d.clock d.board d.status s { image := [] } d.events
    d.monitor
  rw [pollMonitor, pollMonitor, hs, chargerOnly_note, chargerOnly_note]
  have hcovered : ∀ monitor events,
      ({ d.chargerOnly with monitor, events } : Device).chargerOnly
        = { d.chargerOnly with monitor := monitor.chargerOnly, events := wishesOf events } :=
    fun monitor events => congrArg (fun covered : Device =>
      ({ covered with monitor := monitor.chargerOnly, events := wishesOf events } : Device))
        d.chargerOnly_idem
  refine (congrArg₂ note ((hcovered _ _).trans ?_) hsame.entries).symm
  exact congrArg₂ (fun monitor events => ({ d.chargerOnly with monitor, events } : Device))
    hsame.monitor hsame.events

theorem chargerOnly_pollButton (hroom : d.events.toList.length < d.events.capacity)
    (hwishes : d.button.Wishes) :
    d.pollButton.chargerOnly = d.chargerOnly.pollButton.chargerOnly := by
  have hroom' : (wishesOf d.events).toList.length < (wishesOf d.events).capacity :=
    Nat.lt_of_le_of_lt (List.length_filter_le _ _) hroom
  obtain ⟨hbutton, hsent⟩ :=
    Button.poll_chosen hroom hroom' d.board.button d.button d.clock d.status
  obtain ⟨hlist, hcapacity⟩ :=
    Button.wishesOf_poll d.board.button d.events hwishes d.clock d.status
  obtain ⟨hlist', hcapacity'⟩ :=
    Button.wishesOf_poll d.board.button (wishesOf d.events) hwishes d.clock d.status.chosen
  have hevents : wishesOf (d.button.poll d.board.button d.clock d.status.chosen
        (wishesOf d.events)).events
      = wishesOf (d.button.poll d.board.button d.clock d.status d.events).events := by
    refine Fifo.eq_of_toList (hcapacity'.trans hcapacity.symm) ?_
    rw [hlist', hlist, hsent, wishesOf_idem]
  have hnone : ∀ sent : Option Event, ∀ e ∈ sent.toList.map (Entry.sent · true), e.pin? = none := by
    intro sent e he
    obtain ⟨event, -, rfl⟩ := List.mem_map.mp he
    rfl
  rw [pollButton, pollButton, chargerOnly_note_of_none (hnone _),
    chargerOnly_note_of_none (hnone _)]
  have hcovered : ∀ button events,
      ({ d.chargerOnly with button, events } : Device).chargerOnly
        = { d.chargerOnly with button, events := wishesOf events } :=
    fun button events => congrArg (fun covered : Device =>
      ({ covered with button, events := wishesOf events } : Device)) d.chargerOnly_idem
  exact ((hcovered _ _).trans (congrArg₂ (fun button events =>
    ({ d.chargerOnly with button, events } : Device)) hbutton hevents)).symm

/-- A device with all its parts. -/
structure Manned (d : Device) : Prop where
  ready : Ready d
  roles : ∀ r, r ∈ d.roles

/-- **In a round the charger sees what follows from what it sees**, since the flash writer has a
store ready for the monitor and the button finds room in the queue. -/
theorem Manned.chargerOnly_round (h : Manned d) (h' : Manned e)
    (hview : d.chargerOnly = e.chargerOnly) : d.round.chargerOnly = e.round.chargerOnly := by
  have hmonitor : ∀ d : Device, Manned d → d.atMonitor.chargerOnly = { d.chargerOnly with
      events := d.chargerOnly.events.clear
      status := d.chargerOnly.events.toList.foldl Status.hear d.chargerOnly.status } := by
    intro d h
    rw [Device.atMonitor, turn_of_mem (by simpa using h.roles _), poll, chargerOnly_pollFlashWriter,
      turn_of_mem (h.roles _), poll, chargerOnly_pollDispatcher]
  have hbutton : ∀ d : Device, Manned d →
      d.atButton.chargerOnly = d.atMonitor.chargerOnly.pollMonitor.chargerOnly := by
    intro d h
    obtain ⟨s, hs⟩ := h.ready.store_atMonitor (h.roles _)
    rw [Device.atButton, turn_of_mem (by simpa using h.roles _), poll, chargerOnly_pollLamp,
      turn_of_mem (by simpa using h.roles _), poll, chargerOnly_pollMonitor hs]
  have hround : ∀ d : Device, Manned d →
      d.round.chargerOnly = d.atButton.chargerOnly.pollButton.chargerOnly := by
    intro d h
    rw [round_eq_button, turn_of_mem (by simpa using h.roles _), poll]
    exact chargerOnly_pollButton (h.ready.room_atButton (h.roles _))
      (h.ready.atButton (h.roles _)).1.wishes
  rw [hround d h, hround e h', hbutton d h, hbutton e h', hmonitor d h, hmonitor e h', hview]

theorem Manned.round (h : Manned d) : Manned d.round :=
  ⟨h.ready.round, by simpa using h.roles⟩

theorem chargerOnly_resettle (h : Settled d) (hahead : TickAhead d) :
    d.settle.chargerOnly = d.chargerOnly ∧ d.settle.events = d.events := by
  have hwritten : ∀ d : Device, (d.turn .flashWriter).chargerOnly = d.chargerOnly := by
    intro d
    rcases turn_eq_or d .flashWriter with heq | heq
    · rw [heq, poll, chargerOnly_pollFlashWriter]
    · rw [heq]
  rw [h.settle_eq hahead]
  exact ⟨by rw [hwritten, hwritten],
    by rw [turn_events_of_upkeep _ (.inl rfl), turn_events_of_upkeep _ (.inl rfl)]⟩

theorem chargerOnly_act {a : Action} (hinput : a.IsInput) (h : Ready d) (h' : Ready e)
    (hview : d.chargerOnly = e.chargerOnly) (hevents : d.events.toList = e.events.toList) :
    (d.act a).1.chargerOnly = (e.act a).1.chargerOnly
      ∧ (d.act a).1.events.toList = (e.act a).1.events.toList := by
  cases a with
  | run _ | setFaults _ _ _ => exact hinput.elim
  | send event =>
    have hqueue : d.events = e.events := Fifo.eq_of_toList (h.room.trans h'.room.symm) hevents
    rw [Device.act, Device.act, hqueue]
    cases e.events.push? event with
    | none => exact ⟨hview, hevents⟩
    | some queue =>
      exact ⟨congrArg (fun d : Device => ({ d with events := wishesOf queue } : Device)) hview, rfl⟩
  | receive => exact ⟨congrArg (fun d : Device => (d.act .receive).1) hview, rfl⟩
  | raise level => exact ⟨hview, hevents⟩
  | setStatus change =>
    exact ⟨congrArg (fun covered : Device =>
      ({ covered with status := (covered.status.change change).chosen } : Device)) hview, hevents⟩
  | restart =>
    exact ⟨congrArg (fun covered : Device => ({
      roles := covered.roles
      clock := 0
      board := covered.board
      store := covered.store
      flashWriter := covered.flashWriter
      journal := covered.journal } : Device)) hview, rfl⟩
  | setVoltage raw =>
    exact ⟨congrArg (fun d : Device => (d.act (.setVoltage raw)).1) hview, hevents⟩
  | setCurrent raw =>
    exact ⟨congrArg (fun d : Device => (d.act (.setCurrent raw)).1) hview, hevents⟩
  | setThermistor raw =>
    exact ⟨congrArg (fun d : Device => (d.act (.setThermistor raw)).1) hview, hevents⟩
  | plug high => exact ⟨congrArg (fun d : Device => (d.act (.plug high)).1) hview, hevents⟩
  | button high => exact ⟨congrArg (fun d : Device => (d.act (.button high)).1) hview, hevents⟩

/-- **The charger sees nothing of the flash**, be it before the image is loaded or after. -/
theorem blind_chargerOnly :
    Blind (fun _ => True) Manned fun d => (d.chargerOnly, d.events.toList) where
  run := fun _ => trivial
  keeps_settle := fun _ h => h.round.round
  keeps_wait := fun _ h => ⟨h.ready.frame rfl rfl rfl rfl rfl rfl, h.roles⟩
  keeps_act := fun d a _ _ h => ⟨h.ready.act a, fun r => by rw [act_roles]; exact h.roles r⟩
  settle := by
    intro d e h h' hview
    have hround := h.chargerOnly_round h' (congrArg Prod.fst hview)
    rw [(h.ready.settle (h.roles _)).2.events, (h'.ready.settle (h'.roles _)).2.events]
    exact congrArg (·, []) (h.round.chargerOnly_round h'.round hround)
  wait := fun d e hview =>
    congrArg (fun (covered, events) =>
      (({ covered with clock := covered.clock + 1 } : Device), events)) hview
  input := by
    intro d e a _ hinput h h' hview
    obtain ⟨hcharger, hevents⟩ := chargerOnly_act hinput h.ready h'.ready (congrArg Prod.fst hview)
      (congrArg Prod.snd hview)
    exact congrArg₂ Prod.mk hcharger hevents
  faults := fun _ _ _ _ => rfl
  resettle := by
    intro d ms h
    obtain ⟨hcharger, hevents⟩ := chargerOnly_resettle (h.ready.settled_run (h.roles _) ms)
      (h.ready.tickAhead_run (h.roles _) (h.roles _) ms)
    rw [hcharger, hevents]

end Device

end BatteryCare
