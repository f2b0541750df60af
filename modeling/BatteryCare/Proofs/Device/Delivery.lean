import BatteryCare.Proofs.Charger.Moves
import BatteryCare.Proofs.Device.Log
import BatteryCare.Proofs.Device.Settled

/-!
# No event is lost

The event queue is first in, first out: what waits before a turn and what is sent in it are, in this
order, what is handled in it and what waits after it (`Passes.order`). This holds of every turn, so
it holds of a round, of settling and of a run.

With a dispatcher two things more are known. The others find room for all that they send, and after
settling nothing waits. So within each instant the events handled are those that waited and then
those that were sent, each once and in order (`losesNoEvent_run`), and the status is what they make
of it.
-/

namespace BatteryCare

/-! ## Entries without events -/

/-- The entry tells neither of events nor of ticks. -/
structure Entry.Silent (e : Entry) : Prop where
  sent : e.sent? = none
  handled : e.handled? = none
  ticked : e.ticked? = none

theorem Entry.IsOf.silent {e : Entry} (h : e.IsOf .flashWriter ∨ e.IsOf .lamp) : e.Silent := by
  cases e with
  | loaded _ | committed _ _ | shown _ | lamp _ => exact ⟨rfl, rfl, rfl⟩
  | booted | enablePin _ | modePin _ | ticked _ | sent _ _ | handled _ => simp [IsOf] at h

theorem Monitor.silent_of_mem_pins {calls : List CircuitCall} {e : Entry}
    (h : e ∈ calls.flatMap pins) : e.Silent := by
  obtain ⟨high, rfl | rfl⟩ := mem_pins h
  · exact ⟨rfl, rfl, rfl⟩
  · exact ⟨rfl, rfl, rfl⟩

section Silent

variable {entries : List Entry} (h : ∀ e ∈ entries, e.Silent)

include h

theorem filterMap_sent?_of_silent : entries.filterMap Entry.sent? = [] :=
  List.filterMap_eq_nil_iff.mpr fun e he => (h e he).sent

theorem filterMap_handled?_of_silent : entries.filterMap Entry.handled? = [] :=
  List.filterMap_eq_nil_iff.mpr fun e he => (h e he).handled

theorem filterMap_ticked?_of_silent : entries.filterMap Entry.ticked? = [] :=
  List.filterMap_eq_nil_iff.mpr fun e he => (h e he).ticked

end Silent

/-- The events that a tick has to send: one for each end of a charge cycle, one for each alert, and
the report last. -/
def TickRecord.events (t : TickRecord) : List Event :=
  List.replicate (t.calls.count .fullCharge) .fullyCharged ++ t.alerts.map .lowBattery
    ++ [.measured t.report]

/-! ## What a tick sends -/

/-- A tick of the charger ends one cycle at most. -/
theorem Charger.Move.count_fullCharge {c c' : Charger} {s : Sample} {calls : List CircuitCall}
    (h : Move c s c' calls) :
    calls.count .fullCharge = if .fullCharge ∈ calls then 1 else 0 := by
  cases h with
  | reset _ | unplug _ _ | hold _ _ _ | cut _ _ | finish _ _ _ | charge _ _ _ => decide
  | start _ _ _ => simp

namespace Monitor

/-- A tick sends what it has to send. -/
theorem events_recordOf (sensed : Sensed) (status : Status) (v : Supervisor) (store : Store)
    (s : Sample) (now : UInt32) :
    (recordOf sensed status (v.tick store s now)).events = eventsOf (v.tick store s now) := by
  have hcount : (v.tick store s now).calls.count .fullCharge
      = if .fullCharge ∈ (v.tick store s now).calls then 1 else 0 :=
    (Charger.step_move v.charger s).count_fullCharge
  rw [TickRecord.events, eventsOf, recordOf, hcount]
  split
  · rfl
  · rfl

theorem sendAll_entries_of_room {queue : Fifo Event} {events : List Event}
    (h : queue.toList.length + events.length ≤ queue.capacity) :
    (sendAll queue events).2 = events.map (Entry.sent · true) := by
  induction events generalizing queue with
  | nil => rfl
  | cons event rest ih =>
    rw [List.length_cons] at h
    obtain ⟨q, hq⟩ := push?_of_room (by omega : queue.toList.length < queue.capacity) event
    obtain ⟨hlist, hcap⟩ := Fifo.toList_push? hq
    have hroom : q.toList.length + rest.length ≤ q.capacity := by
      rw [hlist, hcap, List.length_append, List.length_singleton]
      omega
    rw [sendAll, hq]
    exact congrArg _ (ih hroom)

/-- The entries of a tick whose events all find room. -/
theorem entries_tick (now : Nat) (sensed : Sensed) (status : Status) (store : Store)
    (v : Supervisor) (told : PowerState) {queue : Fifo Event}
    (h : queue.toList.length + (eventsOf (outcome now sensed status store v told)).length
      ≤ queue.capacity) :
    (tick now sensed status store queue v told).entries
      = .ticked (recordOf sensed status (outcome now sensed status store v told))
        :: ((outcome now sensed status store v told).calls.flatMap pins
          ++ (eventsOf (outcome now sensed status store v told)).map (Entry.sent · true)) := by
  rw [tick_entries, sendAll_entries_of_room h]

/-- What the events of a tick come to in its entries. -/
structure Tells (entries : List Entry) (events : List Event) : Prop where
  sent : entries.filterMap Entry.sent? = events
  handled : entries.filterMap Entry.handled? = []
  /-- All of them found room. -/
  queued : ∀ event queued, .sent event queued ∈ entries → queued = true

/-- The tick itself and what it does to the pins tell nothing of events. -/
theorem tells_tick (record : TickRecord) (calls : List CircuitCall) (events : List Event) :
    Tells (.ticked record :: (calls.flatMap pins ++ events.map (Entry.sent · true))) events := by
  have hpins : ∀ e ∈ calls.flatMap pins, e.Silent := fun e he => silent_of_mem_pins he
  refine ⟨?_, ?_, ?_⟩
  · rw [List.filterMap_cons, List.filterMap_append, filterMap_sent?_of_silent hpins,
      List.filterMap_map]
    exact List.filterMap_some
  · rw [List.filterMap_cons, List.filterMap_append, filterMap_handled?_of_silent hpins,
      List.filterMap_map]
    exact List.filterMap_eq_nil_iff.mpr fun _ _ => rfl
  · intro event queued he
    rw [List.mem_cons, List.mem_append, List.mem_map] at he
    obtain heq | hpin | ⟨_, -, heq⟩ := he
    · exact absurd heq (by simp)
    · exact absurd (hpins _ hpin).sent (by simp [Entry.sent?])
    · cases heq
      rfl

end Monitor

/-! ## One instant -/

namespace Device

/-- What happens to events while the clock stands still: a device has noted these entries. -/
structure Passes (d d' : Device) (entries : List Entry) : Prop extends Noted d d' entries where
  /-- What waited and what was sent is handled or waits. -/
  order : d.events.toList ++ entries.filterMap Entry.sent?
    = entries.filterMap Entry.handled? ++ d'.events.toList
  room : ∀ event queued, .sent event queued ∈ entries → queued = true
  /-- Wishes apart, the ticks say what is sent. -/
  ticks : (entries.filterMap Entry.sent?).filter (¬ ·.IsWish)
    = (entries.filterMap Entry.ticked?).flatMap TickRecord.events
  status : d'.status = (entries.filterMap Entry.handled?).foldl Status.hear d.status

variable {d d' d'' : Device} {xs ys : List Entry}

theorem Passes.refl (d : Device) : Passes d d [] :=
  ⟨.refl d, List.append_nil _, fun _ _ h => absurd h List.not_mem_nil, rfl, rfl⟩

theorem Passes.trans (h : Passes d d' xs) (h' : Passes d' d'' ys) : Passes d d'' (xs ++ ys) where
  toNoted := h.toNoted.trans h'.toNoted
  order := by
    rw [List.filterMap_append, List.filterMap_append, ← List.append_assoc, h.order,
      List.append_assoc, h'.order, List.append_assoc]
  room := by
    intro event queued he
    rcases List.mem_append.mp he with he | he
    · exact h.room event queued he
    · exact h'.room event queued he
  ticks := by
    rw [List.filterMap_append, List.filterMap_append, List.filter_append, List.flatMap_append,
      h.ticks, h'.ticks]
  status := by rw [List.filterMap_append, List.foldl_append, ← h.status, h'.status]

/-- A change that leaves queue and status alone. -/
theorem passes_of_silent (hnoted : Noted d d' xs) (hsilent : ∀ e ∈ xs, e.Silent)
    (hevents : d'.events = d.events) (hstatus : d'.status = d.status) : Passes d d' xs where
  toNoted := hnoted
  order := by
    rw [filterMap_sent?_of_silent hsilent, filterMap_handled?_of_silent hsilent, hevents,
      List.append_nil, List.nil_append]
  room := fun _ _ he => absurd (hsilent _ he).sent (by simp [Entry.sent?])
  ticks := by
    rw [filterMap_sent?_of_silent hsilent, filterMap_ticked?_of_silent hsilent]
    rfl
  status := by
    rw [filterMap_handled?_of_silent hsilent, hstatus]
    rfl

/-! ## Turns -/

theorem passes_dispatcher (d : Device) :
    Passes d d.pollDispatcher (d.events.toList.map Entry.handled) := by
  have hhandled : (d.events.toList.map Entry.handled).filterMap Entry.handled?
      = d.events.toList := by
    rw [List.filterMap_map]
    exact List.filterMap_some
  have hsent : (d.events.toList.map Entry.handled).filterMap Entry.sent? = [] := by
    rw [List.filterMap_map]
    exact List.filterMap_eq_nil_iff.mpr fun _ _ => rfl
  have hticked : (d.events.toList.map Entry.handled).filterMap Entry.ticked? = [] := by
    rw [List.filterMap_map]
    exact List.filterMap_eq_nil_iff.mpr fun _ _ => rfl
  rw [pollDispatcher_eq]
  refine ⟨⟨rfl, rfl⟩, ?_, ?_, ?_, ?_⟩
  · rw [hsent, hhandled]
    rfl
  · intro event queued he
    obtain ⟨_, -, heq⟩ := List.mem_map.mp he
    exact absurd heq (by simp)
  · rw [hsent, hticked]
    rfl
  · rw [hhandled]
    rfl

/-- A monitor that finds the queue empty finds room for all that its tick sends. -/
theorem passes_monitor (hempty : d.events.toList = []) (hroom : d.events.capacity = eventCapacity) :
    ∃ entries, Passes d d.pollMonitor entries := by
  have hmove := Monitor.poll_move d.clock d.board d.status d.store d.events d.monitor
  rw [pollMonitor]
  generalize Monitor.poll d.clock d.board d.status d.store d.events d.monitor = turn
    at hmove ⊢
  generalize d.monitor = m at hmove
  cases hmove with
  | start =>
    refine ⟨_, passes_of_silent ⟨rfl, rfl⟩ (fun e he => ?_) rfl rfl⟩
    simp only [List.mem_cons, List.not_mem_nil, or_false] at he
    rcases he with rfl | rfl
    · exact ⟨rfl, rfl, rfl⟩
    · exact ⟨rfl, rfl, rfl⟩
  | await => exact ⟨_, passes_of_silent ⟨rfl, rfl⟩ (by simp) rfl rfl⟩
  | wait v told due window hwait => exact ⟨_, passes_of_silent ⟨rfl, rfl⟩ (by simp) rfl rfl⟩
  | tick v told due window s hs hdue =>
    obtain ⟨hqueue, -, hfew⟩ :=
      Monitor.events_tick d.clock (d.board.sense window) d.status s v told hempty hroom
    -- a report, an alert or two and a full pack at the most, in an empty queue
    have hfits : d.events.toList.length
        + (Monitor.eventsOf
            (Monitor.outcome d.clock (d.board.sense window) d.status s v told)).length
          ≤ d.events.capacity := by
      rw [hempty, hroom, eventCapacity, List.length_nil]
      omega
    have hentries := Monitor.entries_tick d.clock (d.board.sense window) d.status s v told hfits
    have hevents : (Monitor.recordOf (d.board.sense window) d.status
        (Monitor.outcome d.clock (d.board.sense window) d.status s v told)).events
        = Monitor.eventsOf (Monitor.outcome d.clock (d.board.sense window) d.status s v told) :=
      Monitor.events_recordOf _ _ _ _ _ _
    have hticked := Monitor.ticked_tick d.clock (d.board.sense window) d.status s d.events v told
    generalize Monitor.tick d.clock (d.board.sense window) d.status s d.events v told = turn
      at hqueue hentries hticked ⊢
    generalize Monitor.outcome d.clock (d.board.sense window) d.status s v told = t
      at hqueue hentries hticked hevents
    have htells : Monitor.Tells turn.entries (Monitor.eventsOf t) :=
      hentries ▸ Monitor.tells_tick _ _ _
    refine ⟨turn.entries, ⟨rfl, rfl⟩, ?_, htells.queued, ?_, ?_⟩
    · rw [htells.sent, htells.handled, hempty]
      exact hqueue.symm
    · rw [htells.sent, hticked, List.flatMap_singleton, hevents]
      exact List.filter_eq_self.mpr fun e he => by
        simpa using Monitor.not_isWish_of_mem_eventsOf he
    · rw [htells.handled]
      rfl

/-- A button that finds room tells its wishes. -/
theorem passes_button (h : d.button.Wishes) :
    Passes d d.pollButton
      ((d.button.poll d.board.button d.clock d.status d.events).sent.toList.map
        (Entry.sent · true)) := by
  have hturn : Button.Wished d.events (d.button.poll d.board.button d.clock d.status d.events) :=
    Button.wished_poll h
  rw [pollButton]
  generalize d.button.poll d.board.button d.clock d.status d.events = turn at hturn ⊢
  obtain ⟨hsame, hnone⟩ | ⟨event, hwish, hpush, hsome⟩ := hturn.events
  · rw [hnone]
    exact passes_of_silent ⟨rfl, rfl⟩ (by simp) hsame rfl
  · rw [hsome]
    refine ⟨⟨rfl, rfl⟩, (Fifo.toList_push? hpush).1.symm, by simp, ?_, rfl⟩
    simp [Entry.sent?, Entry.ticked?, hwish]

/-- Flash writer and lamp have nothing to do with events. -/
theorem passes_of_upkeep (d : Device) {r : Role} (h : r = .flashWriter ∨ r = .lamp) :
    ∃ entries, Passes d (d.turn r) entries := by
  obtain ⟨entries, hnoted, hof⟩ := noted_turn d r
  refine ⟨entries, passes_of_silent hnoted (fun e he => Entry.IsOf.silent ?_)
    (turn_events_of_upkeep d h) ?_⟩
  · rcases h with rfl | rfl
    · exact .inl (hof e he)
    · exact .inr (hof e he)
  · rcases turn_eq_or d r with heq | heq
    · rw [heq]
      rcases h with rfl | rfl
      · rfl
      · rfl
    · rw [heq]

/-! ## Rounds -/

/-- **A round of a device with a dispatcher** loses no event. -/
theorem Ready.passes_round (h : Ready d) (hd : .dispatcher ∈ d.roles) :
    ∃ entries, Passes d d.round entries := by
  obtain ⟨writes, hwrites⟩ := passes_of_upkeep (d.turn .dispatcher) (.inl rfl)
  have hdispatched : Passes d (d.turn .dispatcher) (d.events.toList.map Entry.handled) := by
    rw [turn_of_mem hd]
    exact passes_dispatcher d
  obtain ⟨ticks, hticks⟩ : ∃ entries, Passes d.atMonitor (d.atMonitor.turn .monitor) entries := by
    rcases turn_eq_or d.atMonitor .monitor with heq | heq
    · rw [heq]
      exact passes_monitor (events_atMonitor hd) h.atMonitor.room
    · rw [heq]
      exact ⟨[], Passes.refl _⟩
  obtain ⟨lights, hlights⟩ := passes_of_upkeep (d.atMonitor.turn .monitor) (.inr rfl)
  obtain ⟨wishes, hwishes⟩ : ∃ entries, Passes d.atButton (d.atButton.turn .button) entries := by
    rcases turn_eq_or d.atButton .button with heq | heq
    · rw [heq]
      exact ⟨_, passes_button (h.atButton hd).1.wishes⟩
    · rw [heq]
      exact ⟨[], Passes.refl _⟩
  exact ⟨_, (((hdispatched.trans hwrites).trans hticks).trans hlights).trans hwishes⟩

/-! ## Time -/

/-- What becomes of events from one device to a later one that has noted this log since. -/
structure Delivered (d d' : Device) (log : List Stamped) : Prop where
  journal : d'.journal = log.reverse ++ d.journal
  /-- Whatever was sent found room. -/
  room : ∀ stamped ∈ log, ∀ event queued, stamped.entry = .sent event queued → queued = true
  /-- The events that waited are handled at once, and those that are sent at the time of sending:
  each once, and in this order. -/
  inOrder : timed Entry.handled? log
    = d.events.toList.map (d.clock, ·) ++ timed Entry.sent? log
  /-- Wishes apart, the events that are sent are those of the ticks. -/
  ofTicks : (timed Entry.sent? log).filter (¬ ·.2.IsWish)
    = (timed Entry.ticked? log).flatMap fun t => t.2.events.map (t.1, ·)
  status : d'.status = ((timed Entry.handled? log).map Prod.snd).foldl Status.hear d.status

theorem Passes.delivered (h : Passes d d' xs) (hempty : d'.events.toList = []) :
    Delivered d d' (xs.map (Stamped.mk d.clock)) where
  journal := h.journal
  room := by
    intro stamped hs event queued heq
    obtain ⟨entry, he, rfl⟩ := List.mem_map.mp hs
    exact h.room event queued (heq ▸ he)
  inOrder := by
    have horder := h.order
    rw [hempty, List.append_nil] at horder
    rw [timed_stamped, timed_stamped, ← List.map_append, horder]
  ofTicks := by
    rw [timed_stamped, timed_stamped, List.filter_map, List.flatMap_map]
    refine (congrArg _ h.ticks).trans ?_
    rw [List.map_flatMap]
  status := by
    rw [timed_stamped, List.map_map]
    refine h.status.trans ?_
    exact congrArg (List.foldl _ _) (List.map_id _).symm

/-- A device without events can wait. -/
theorem Delivered.wait {log : List Stamped} (hempty : d.events.toList = [])
    (h : Delivered { d with clock := d.clock + 1 } d' log) : Delivered d d' log where
  journal := h.journal
  room := h.room
  inOrder := by
    have horder := h.inOrder
    rw [hempty] at horder ⊢
    exact horder
  ofTicks := h.ofTicks
  status := h.status

theorem Delivered.trans {log log' : List Stamped} (h : Delivered d d' log)
    (hempty : d'.events.toList = []) (h' : Delivered d' d'' log') :
    Delivered d d'' (log ++ log') where
  journal := by rw [h'.journal, h.journal, List.reverse_append, List.append_assoc]
  room := by
    intro stamped hs
    rcases List.mem_append.mp hs with hs | hs
    · exact h.room stamped hs
    · exact h'.room stamped hs
  inOrder := by
    have horder := h'.inOrder
    rw [hempty, List.map_nil, List.nil_append] at horder
    rw [timed_append, timed_append, h.inOrder, horder, List.append_assoc]
  ofTicks := by
    rw [timed_append, timed_append, List.filter_append, List.flatMap_append, h.ofTicks, h'.ofTicks]
  status := by rw [timed_append, List.map_append, List.foldl_append, ← h.status, h'.status]

/-- Settling hands on all events. -/
theorem Ready.delivered_settle (h : Ready d) (hd : .dispatcher ∈ d.roles) :
    ∃ log, Delivered d d.settle log := by
  have hempty := (h.settle hd).2.events
  obtain ⟨first, hfirst⟩ := h.passes_round hd
  obtain ⟨second, hsecond⟩ := h.round.passes_round (by rwa [round_roles])
  rw [Device.settle] at hempty ⊢
  exact ⟨_, (hfirst.trans hsecond).delivered hempty⟩

/-- **So does any time.** -/
theorem Ready.delivered_run (h : Ready d) (hd : .dispatcher ∈ d.roles) (ms : Nat) :
    Delivered d (d.run ms) ((d.run ms).entriesSince d) := by
  have hlog : ∃ log, Delivered d (d.run ms) log := by
    induction ms with
    | zero => exact h.delivered_settle hd
    | succ ms ih =>
      obtain ⟨log, hlog⟩ := ih
      have hempty := (h.settled_run hd ms).events
      have hroles : (d.run ms).roles = d.roles := kept_roles.run rfl ms
      have hready := h.run ms
      rw [run_succ, advance_eq]
      generalize d.run ms = later at hlog hempty hroles hready ⊢
      have hwaited : Ready { later with clock := later.clock + 1 } :=
        hready.frame rfl rfl rfl rfl rfl rfl
      obtain ⟨log', hlog'⟩ := hwaited.delivered_settle (hroles ▸ hd)
      exact ⟨_, hlog.trans hempty (hlog'.wait hempty)⟩
  obtain ⟨log, hlog⟩ := hlog
  rw [entriesSince_of_append hlog.journal, List.reverse_reverse]
  exact hlog

/-! ## The button never waits -/

/-- The device before the first turn of a round and after each turn. -/
def roundStages (d : Device) : List Device :=
  [.dispatcher, .flashWriter, .monitor, .lamp, .button].scanl turn d

/-- The device between the turns while it settles. -/
def settleStages (d : Device) : List Device := d.roundStages ++ d.round.roundStages

/-- The device between the turns of a run. -/
def runStages (d : Device) : Nat → List Device
  | 0 => d.settleStages
  | ms + 1 => d.runStages ms ++ ({ d.run ms with clock := (d.run ms).clock + 1 }).settleStages

/-- The button has no event that waits for room. -/
def Unhindered (d : Device) : Prop := ∀ event, d.button ≠ .sending event

/-- The other parts leave the button alone. -/
theorem Unhindered.turn (h : Unhindered d) {r : Role} (hr : r ≠ .button) :
    Unhindered (d.turn r) := by
  rw [Unhindered, turn_button_of_ne d hr]
  exact h

/-- A button that finds room does not wait. -/
theorem Ready.unhindered_round (h : Ready d) (hd : .dispatcher ∈ d.roles)
    (hbutton : Unhindered d.atButton) : Unhindered d.round := by
  rw [round_eq_button]
  by_cases hrole : .button ∈ d.atButton.roles
  · have hsleeps : (d.atButton.turn .button).button.sleeps d.atButton.board.button
        (d.atButton.clock + 1) = true := by
      rw [turn_of_mem hrole]
      exact Button.sleeps_poll _ _ _ (h.room_atButton hd)
    intro event heq
    rw [heq] at hsleeps
    exact absurd hsleeps (by simp [Button.sleeps])
  · rw [turn_of_not_mem hrole]
    exact hbutton

theorem Ready.unhindered_roundStages (h : Ready d) (hd : .dispatcher ∈ d.roles)
    (hstart : Unhindered d) : ∀ stage ∈ d.roundStages, Unhindered stage := by
  have hdispatched : Unhindered (d.turn .dispatcher) := hstart.turn (by simp)
  have hmonitor : Unhindered d.atMonitor := hdispatched.turn (by simp)
  have hlamp : Unhindered (d.atMonitor.turn .monitor) := hmonitor.turn (by simp)
  have hbutton : Unhindered d.atButton := hlamp.turn (by simp)
  intro stage hstage
  simp only [roundStages, List.scanl_cons, List.scanl_nil, List.mem_cons, List.not_mem_nil,
    or_false] at hstage
  rcases hstage with rfl | rfl | rfl | rfl | rfl | rfl
  · exact hstart
  · exact hdispatched
  · exact hmonitor
  · exact hlamp
  · exact hbutton
  · exact h.unhindered_round hd hbutton

theorem Ready.unhindered_settleStages (h : Ready d) (hd : .dispatcher ∈ d.roles)
    (hstart : Unhindered d) :
    (∀ stage ∈ d.settleStages, Unhindered stage) ∧ Unhindered d.settle := by
  have hfirst := h.unhindered_roundStages hd hstart
  have hround : Unhindered d.round := hfirst _ (by simp [roundStages, Device.round])
  have hsecond := h.round.unhindered_roundStages (by rwa [round_roles]) hround
  refine ⟨fun stage hstage => ?_, hsecond _ (by simp [roundStages, Device.settle, Device.round])⟩
  rcases List.mem_append.mp hstage with hstage | hstage
  · exact hfirst stage hstage
  · exact hsecond stage hstage

/-- **The button never waits for room** while a device with a dispatcher runs. -/
theorem Ready.unhindered_runStages (h : Ready d) (hd : .dispatcher ∈ d.roles)
    (hstart : Unhindered d) (ms : Nat) :
    (∀ stage ∈ d.runStages ms, Unhindered stage) ∧ Unhindered (d.run ms) := by
  induction ms with
  | zero => exact h.unhindered_settleStages hd hstart
  | succ ms ih =>
    have hroles : (d.run ms).roles = d.roles := kept_roles.run rfl ms
    have hready := h.run ms
    rw [runStages, run_succ, advance_eq]
    generalize d.run ms = later at ih hroles hready ⊢
    have hwaited : Ready { later with clock := later.clock + 1 } :=
      hready.frame rfl rfl rfl rfl rfl rfl
    obtain ⟨hstages, hend⟩ := hwaited.unhindered_settleStages (hroles ▸ hd) ih.2
    refine ⟨fun stage hstage => ?_, hend⟩
    rcases List.mem_append.mp hstage with hstage | hstage
    · exact ih.1 stage hstage
    · exact hstages stage hstage

theorem Unhindered.act (hstart : Unhindered d) (h : Ready d) (hd : .dispatcher ∈ d.roles)
    (a : Action) : Unhindered (d.act a).1 := by
  cases a with
  | run ms => exact (h.unhindered_runStages hd hstart ms).2
  | send event =>
    rw [Device.act]
    cases d.events.push? event with
    | none => exact hstart
    | some queue => exact hstart
  | restart => exact fun event heq => absurd heq (by simp [Device.act, Device.restart, boot])
  | setVoltage _ | setCurrent _ | setThermistor _ | plug _ | button _ | setFaults _ _ _ | receive
  | raise _ | setStatus _ => exact hstart

/-! ## Whole runs -/

/-- No event is lost while a device runs for some time (ms). -/
structure LosesNoEvent (d : Device) (ms : Nat) : Prop where
  delivered : Delivered d (d.run ms) ((d.run ms).entriesSince d)
  /-- Between any two turns, the button has no event that waits for room. -/
  unhindered : ∀ stage ∈ d.runStages ms, Unhindered stage
  /-- Whenever the device has settled, the queue is empty. -/
  empty : ∀ n ≤ ms, (d.run n).events.toList = []

variable {roles : List Role}

/-- **With a dispatcher no event is lost.** Whatever happened to the device before, in any time that
it runs the queue takes all that the others send, and the dispatcher handles it in order and without
delay. -/
theorem losesNoEvent_run (hdispatcher : .dispatcher ∈ roles) (board : Board) (clock : Nat)
    (journal : List Stamped) (actions : List Action) (ms : Nat) :
    LosesNoEvent ((boot roles board clock journal).actAll actions) ms := by
  have hroles : ((boot roles board clock journal).actAll actions).roles = roles :=
    actAll_roles _ actions
  obtain ⟨⟨hready, hstart⟩, hd⟩ :
      (Ready ((boot roles board clock journal).actAll actions)
        ∧ Unhindered ((boot roles board clock journal).actAll actions))
        ∧ .dispatcher ∈ ((boot roles board clock journal).actAll actions).roles := by
    refine actAll_induction (P := fun d => (Ready d ∧ Unhindered d) ∧ .dispatcher ∈ d.roles) ?_ ?_
    · rintro d ⟨⟨h, hstart⟩, hd⟩ a -
      exact ⟨⟨h.act a, hstart.act h hd a⟩, by rwa [act_roles]⟩
    · exact ⟨⟨ready_boot _ _ _ _, fun event heq => absurd heq (by simp [boot])⟩, hdispatcher⟩
  exact ⟨hready.delivered_run hd ms, (hready.unhindered_runStages hd hstart ms).1,
    fun n _ => (hready.settled_run hd n).events⟩

/-- Even with a full queue just before a tick. -/
theorem losesNoEvent_full :
    Role.dispatcher ∈ [Role.dispatcher, .flashWriter, .monitor, .lamp, .button]
      ∧ LosesNoEvent ((boot [.dispatcher, .flashWriter, .monitor, .lamp, .button] {} 0 []).actAll
          (.run 499 :: .setVoltage (some 3000)
            :: List.replicate eventCapacity (.send (.lowBattery .low)))) 1 :=
  ⟨by decide, losesNoEvent_run (by decide) {} 0 [] _ 1⟩

end Device

end BatteryCare
