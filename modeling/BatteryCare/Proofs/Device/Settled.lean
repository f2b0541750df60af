import BatteryCare.Proofs.Device.Serving

/-!
# What settling leaves behind

A turn leaves its part with nothing to do at this instant: lamp and button wait for later, and no
tick is due (`Lamp.sleeps_poll`, `Button.sleeps_poll`, `Ready.pollMonitor`). For the button
this needs room in the event queue, and with a dispatcher there is room: it empties the queue before
all others have their turns, and what these send in one round is half of what the queue can take.

So the first round leaves nothing to do but events, and the second one sends none. A device with a
dispatcher is settled with an empty queue (`Ready.settle`), whatever it was before.
-/

namespace BatteryCare

/-! ## What a turn leaves to wait for -/

theorem EdgeWatch.sleeps_poll (watch : EdgeWatch) (pin : InputPin) (now : Nat) :
    (watch.poll pin now).1.sleeps pin (now + 1) = true := by
  cases watch with
  | waiting high changes =>
    rw [poll]
    split
    · rename_i hsame
      exact decide_eq_true hsame
    · exact decide_eq_true (Nat.lt_add_of_pos_right bounceTime_pos)
  | settling high due =>
    rw [poll]
    split
    · rename_i hlt
      exact decide_eq_true hlt
    · exact sleeps_start pin (now + 1)

namespace Button

theorem sleeps_release (pin : InputPin) (wake : Nat) : (release pin).sleeps pin wake = true := by
  rw [release]
  split
  · rename_i hhigh
    exact hhigh
  · exact EdgeWatch.sleeps_start pin wake

section Room

variable {pin : InputPin} {events : Fifo Event}

theorem sleeps_send (hroom : events.toList.length < events.capacity) (event : Event) (wake : Nat) :
    (send pin events event).button.sleeps pin wake = true := by
  obtain ⟨queue, hpush⟩ := push?_of_room hroom event
  rw [send, hpush]
  cases event with
  | chargeTypeSet _ => exact sleeps_release pin wake
  | measured _ | fullyCharged | lowBattery _ | powerSet _ => exact EdgeWatch.sleeps_start pin wake

/-- **A turn of the button**, if the queue has room, leaves it nothing to do at this instant. -/
theorem sleeps_poll (b : Button) (now : Nat) (status : Status)
    (hroom : events.toList.length < events.capacity) :
    (b.poll pin now status events).button.sleeps pin (now + 1) = true := by
  cases b with
  | unread => exact EdgeWatch.sleeps_start pin (now + 1)
  | up watch =>
    have hwatch := watch.sleeps_poll pin now
    rw [poll]
    split
    · exact sleeps_down (Nat.lt_add_of_pos_right (by decide)) (EdgeWatch.sleeps_start pin _)
    · rename_i watch' level hpolled
      rw [hpolled] at hwatch
      exact hwatch
  | down due watch =>
    have hwatch := watch.sleeps_poll pin now
    rw [poll]
    split
    · exact sleeps_send hroom _ _
    · rename_i hdue
      split
      · exact sleeps_send hroom _ _
      · rename_i watch' hpolled
        rw [hpolled] at hwatch
        exact sleeps_down (Nat.lt_of_not_le hdue) hwatch
  | sending event => exact sleeps_send hroom event _
  | releasing => exact sleeps_release pin _

end Room

end Button

namespace Lamp

theorem start_ne_dark (lamp : Lamp) (pwm : Pwm) (now : Nat) : (lamp.start pwm now).lamp ≠ dark := by
  cases lamp with
  | dark | watching _ | lit _ _ _ | unlit _ _ _ => simp [start, wait]

theorem phase_pos (level : AlertLevel) : 0 < level.burst.phase := by cases level <;> decide

/-- What is due is done, so the lamp waits for a later instant. -/
theorem lt_due_advance {lamp : Lamp} (h : lamp ≠ dark) (pwm : Pwm) (now : Nat) (charging : Bool) :
    ∃ due, (lamp.advance pwm now charging).lamp.due? = some due ∧ now < due := by
  have hrefresh : now < now + refreshInterval := Nat.lt_add_of_pos_right (by decide)
  cases lamp with
  | dark => exact absurd rfl h
  | watching due =>
    rw [advance]
    split
    · exact ⟨_, rfl, hrefresh⟩
    · exact ⟨due, rfl, by omega⟩
  | lit level left due =>
    rw [advance]
    split
    · exact ⟨_, rfl, Nat.lt_add_of_pos_right (phase_pos level)⟩
    · exact ⟨due, rfl, by omega⟩
  | unlit level left due =>
    by_cases hdue : due ≤ now
    · cases left with
      | zero =>
        rw [advance, if_pos hdue]
        exact ⟨_, rfl, hrefresh⟩
      | succ left =>
        rw [advance, if_pos hdue]
        exact ⟨_, rfl, Nat.lt_add_of_pos_right (phase_pos level)⟩
    · cases left with
      | zero =>
        rw [advance, if_neg hdue]
        exact ⟨due, rfl, by omega⟩
      | succ left =>
        rw [advance, if_neg hdue]
        exact ⟨due, rfl, by omega⟩

theorem sleeps_notice {lamp : Lamp} {now due : Nat} (hdue : lamp.due? = some due) (h : now < due)
    (pwm : Pwm) (alert : Option AlertLevel) :
    (lamp.notice pwm now alert).lamp.sleeps
      (if (lamp.notice pwm now alert).taken.isSome then none else alert) (now + 1) = true := by
  cases lamp with
  | dark => exact absurd hdue (by simp [due?])
  | watching due' =>
    cases hdue
    cases alert with
    | none => simpa [notice, wait, sleeps] using Nat.succ_le_of_lt h
    | some level => simpa [notice, sleeps] using Nat.succ_le_of_lt (phase_pos level)
  | lit level left due' =>
    cases hdue
    simpa [notice, wait, sleeps] using Nat.succ_le_of_lt h
  | unlit level left due' =>
    cases hdue
    simpa [notice, wait, sleeps] using Nat.succ_le_of_lt h

/-- **A turn of the lamp** leaves it nothing to do at this instant. -/
theorem sleeps_poll (lamp : Lamp) (pwm : Pwm) (now : Nat) (charging : Bool)
    (alert : Option AlertLevel) :
    (lamp.poll pwm now charging alert).lamp.sleeps
      (if (lamp.poll pwm now charging alert).taken.isSome then none else alert) (now + 1)
      = true := by
  obtain ⟨due, hdue, hlt⟩ :=
    lt_due_advance (lamp.start_ne_dark pwm now) pwm now charging
  exact sleeps_notice hdue hlt pwm alert

end Lamp

/-! ## Between two turns -/

theorem Monitor.capacity_sendAll (queue : Fifo Event) (events : List Event) :
    (sendAll queue events).1.capacity = queue.capacity := by
  induction events generalizing queue with
  | nil => rfl
  | cons event rest ih =>
    rw [sendAll]
    split
    · rename_i q hq
      exact (ih q).trans (Fifo.toList_push? hq).2
    · exact ih queue

namespace Device

/-- What holds of every device between any two turns. -/
structure Ready (d : Device) : Prop where
  room : d.events.capacity = eventCapacity
  /-- What the button waits to send is a wish. -/
  wishes : d.button.Wishes
  loaded : d.flashWriter ≠ .unloaded → d.store.isSome = true
  /-- The supervisor runs in the monitor, on a store. -/
  fed : d.monitor.supervisor?.isSome = true → .monitor ∈ d.roles ∧ d.store.isSome = true

variable {d d' : Device}

theorem Ready.frame (h : Ready d) (hroles : d'.roles = d.roles)
    (hroom : d'.events.capacity = d.events.capacity) (hbutton : d'.button = d.button)
    (hwriter : d'.flashWriter = d.flashWriter) (hmonitor : d'.monitor = d.monitor)
    (hstore : d'.store = d.store) : Ready d' where
  room := hroom.trans h.room
  wishes := by rw [hbutton]; exact h.wishes
  loaded := by rw [hwriter, hstore]; exact h.loaded
  fed := by rw [hmonitor, hroles, hstore]; exact h.fed

theorem ready_boot (roles : List Role) (board : Board) (clock : Nat) (journal : List Stamped) :
    Ready (boot roles board clock journal) where
  room := rfl
  wishes := fun _ he => absurd he (by simp [boot])
  loaded := fun h => absurd rfl h
  fed := fun h => absurd h (by simp [boot, Monitor.supervisor?])

/-- A turn of the monitor leaves no tick due. -/
theorem Ready.pollMonitor (h : Ready d) (hrole : .monitor ∈ d.roles) :
    Ready d.pollMonitor ∧ NotDue d.pollMonitor := by
  have hmove := Monitor.poll_move d.clock d.board d.status d.store d.events d.monitor
  have hbegin : (Monitor.begin d.clock d.store).supervisor?.isSome = true
      → .monitor ∈ d.roles ∧ d.store.isSome = true := by
    cases d.store with
    | none => exact fun h => absurd h (by simp [Monitor.begin, Monitor.supervisor?])
    | some s => exact fun _ => ⟨hrole, rfl⟩
  -- the first tick is not due at once, so a turn that starts the supervisor leaves none either
  have hahead : ∀ v told due window,
      Monitor.begin d.clock d.store = .waiting v told due window → d.clock < due := by
    intro v told due window heq
    cases hs : d.store with
    | none => rw [hs] at heq; exact absurd heq (by simp [Monitor.begin])
    | some s =>
      rw [hs] at heq
      cases heq
      exact Nat.lt_add_of_pos_right (by decide)
  rw [Device.pollMonitor]
  generalize Monitor.poll d.clock d.board d.status d.store d.events d.monitor = turn
    at hmove ⊢
  generalize hm : d.monitor = m at hmove
  cases hmove with
  | start => exact ⟨⟨h.room, h.wishes, h.loaded, hbegin⟩, hahead⟩
  | await => exact ⟨⟨h.room, h.wishes, h.loaded, hbegin⟩, hahead⟩
  | wait v told due window hwait =>
    refine ⟨h.frame rfl rfl rfl rfl hm.symm rfl, fun v' told' due' window' heq => ?_⟩
    cases heq
    rcases hwait with hlt | hnone
    · exact hlt
    · exact absurd (h.fed (by rw [hm]; rfl)).2 (by simp [hnone])
  | tick v told due window s hs hdue =>
    refine ⟨⟨(Monitor.capacity_sendAll _ _).trans h.room, h.wishes, fun _ => rfl,
      fun _ => ⟨hrole, rfl⟩⟩, fun v' told' due' window' heq => ?_⟩
    cases heq
    exact Nat.lt_add_of_pos_right (by decide)

theorem Ready.pollButton (h : Ready d) : Ready d.pollButton := by
  have hturn : Button.Wished d.events (d.button.poll d.board.button d.clock d.status d.events) :=
    Button.wished_poll h.wishes
  refine ⟨?_, hturn.wishes, h.loaded, h.fed⟩
  obtain ⟨hsame, -⟩ | ⟨event, -, hpush, -⟩ := hturn.events
  · exact (congrArg Fifo.capacity hsame).trans h.room
  · exact (Fifo.toList_push? hpush).2.trans h.room

/-- **Every turn keeps a device ready.** -/
theorem Ready.turn (h : Ready d) (r : Role) : Ready (d.turn r) := by
  by_cases hrole : r ∈ d.roles
  · rw [turn_of_mem hrole]
    cases r with
    | dispatcher =>
      rw [poll, pollDispatcher_eq]
      exact h.frame rfl rfl rfl rfl rfl rfl
    | flashWriter =>
      have hstore : d.pollFlashWriter.store.isSome = true := (FlashWriter.store_poll h.loaded).1
      exact ⟨h.room, h.wishes, fun _ => hstore, fun hv => ⟨(h.fed hv).1, hstore⟩⟩
    | monitor => exact (h.pollMonitor hrole).1
    | lamp => exact h.frame rfl rfl rfl rfl rfl rfl
    | button => exact h.pollButton
  · rw [turn_of_not_mem hrole]
    exact h

theorem Ready.round (h : Ready d) : Ready d.round :=
  ((((h.turn .dispatcher).turn .flashWriter).turn .monitor).turn .lamp).turn .button

theorem Ready.run (h : Ready d) (ms : Nat) : Ready (d.run ms) :=
  (run_settled (P := Ready) (Q := fun _ => True) (fun _ h => ⟨h.round.round, trivial⟩)
    (fun _ h => h.frame rfl rfl rfl rfl rfl rfl) h ms).1

theorem Ready.act (h : Ready d) (a : Action) : Ready (d.act a).1 := by
  cases a with
  | run ms => exact h.run ms
  | send event =>
    rw [Device.act]
    cases hpush : d.events.push? event with
    | none => exact h
    | some queue => exact h.frame rfl (Fifo.toList_push? hpush).2 rfl rfl rfl rfl
  | restart => exact ready_boot _ _ _ _
  | setVoltage _ | setCurrent _ | setThermistor _ | plug _ | button _ | setFaults _ _ _ | receive
  | raise _ | setStatus _ => exact h.frame rfl rfl rfl rfl rfl rfl

theorem ready_actAll (roles : List Role) (board : Board) (clock : Nat) (journal : List Stamped)
    (actions : List Action) : Ready ((boot roles board clock journal).actAll actions) :=
  actAll_induction (fun _ h a _ => h.act a) (ready_boot roles board clock journal)

/-! ## Rounds -/

/-- The device in a round when the monitor has its turn. -/
def atMonitor (d : Device) : Device := (d.turn .dispatcher).turn .flashWriter

/-- The device in a round when the button has its turn. -/
def atButton (d : Device) : Device := (d.atMonitor.turn .monitor).turn .lamp

theorem round_eq_button (d : Device) : d.round = d.atButton.turn .button := rfl

@[simp] theorem atMonitor_roles (d : Device) : d.atMonitor.roles = d.roles := by simp [atMonitor]

@[simp] theorem atMonitor_clock (d : Device) : d.atMonitor.clock = d.clock := by simp [atMonitor]

@[simp] theorem atMonitor_monitor (d : Device) : d.atMonitor.monitor = d.monitor := by
  rw [atMonitor, turn_monitor_of_ne _ (by simp), turn_monitor_of_ne _ (by simp)]

@[simp] theorem atButton_roles (d : Device) : d.atButton.roles = d.roles := by simp [atButton]

@[simp] theorem atButton_clock (d : Device) : d.atButton.clock = d.clock := by simp [atButton]

@[simp] theorem atButton_pin (d : Device) : d.atButton.board.button = d.board.button := by
  simp [atButton, atMonitor]

@[simp] theorem atButton_button (d : Device) : d.atButton.button = d.button := by
  rw [atButton, atMonitor, turn_button_of_ne _ (by simp), turn_button_of_ne _ (by simp),
    turn_button_of_ne _ (by simp), turn_button_of_ne _ (by simp)]

theorem round_monitor (d : Device) : d.round.monitor = (d.atMonitor.turn .monitor).monitor := by
  rw [round_eq_button, turn_monitor_of_ne _ (by simp), Device.atButton,
    turn_monitor_of_ne _ (by simp)]

/-- The flash writer loads an image before the monitor looks for it. -/
theorem Ready.store_atMonitor (h : Ready d) (hwriter : .flashWriter ∈ d.roles) :
    ∃ s, d.atMonitor.store = some s := by
  have hrole : .flashWriter ∈ (d.turn .dispatcher).roles := by rwa [turn_roles]
  rw [Device.atMonitor, turn_of_mem hrole]
  exact Option.isSome_iff_exists.mp (FlashWriter.store_poll (h.turn .dispatcher).loaded).1

/-- The flash writer and the lamp leave the queue alone. -/
theorem turn_events_of_upkeep (d : Device) {r : Role} (h : r = .flashWriter ∨ r = .lamp) :
    (d.turn r).events = d.events := by
  rcases turn_eq_or d r with heq | heq
  · rw [heq]
    rcases h with rfl | rfl
    · rfl
    · rfl
  · rw [heq]

/-- The dispatcher leaves an empty queue to the others. -/
theorem events_atMonitor (hd : .dispatcher ∈ d.roles) : d.atMonitor.events.toList = [] := by
  rw [atMonitor, turn_events_of_upkeep _ (.inl rfl), turn_of_mem hd, poll, pollDispatcher_eq]
  rfl

theorem Ready.atMonitor (h : Ready d) : Ready d.atMonitor :=
  (h.turn .dispatcher).turn .flashWriter

/-- The monitor has had its turn, so no tick is due. -/
theorem Ready.notDue_turn (h : Ready d) : NotDue (d.turn .monitor) := by
  by_cases hrole : .monitor ∈ d.roles
  · rw [turn_of_mem hrole]
    exact (h.pollMonitor hrole).2
  · rw [turn_of_not_mem hrole]
    intro v told due window heq
    exact absurd (h.fed (by rw [heq]; rfl)).1 hrole

/-- With flash writer and monitor, the supervisor runs after a round, and its tick is ahead. -/
theorem Ready.tickAhead_round (h : Ready d) (hwriter : .flashWriter ∈ d.roles)
    (hrole : .monitor ∈ d.roles) : TickAhead d.round := by
  obtain ⟨s, hs⟩ := h.store_atMonitor hwriter
  have hmove := Monitor.poll_move d.atMonitor.clock d.atMonitor.board d.atMonitor.status
    d.atMonitor.store d.atMonitor.events d.atMonitor.monitor
  have hnext : d.round.monitor = (Monitor.poll d.atMonitor.clock d.atMonitor.board
      d.atMonitor.status d.atMonitor.store d.atMonitor.events d.atMonitor.monitor).monitor := by
    rw [round_monitor, turn_of_mem (by rwa [atMonitor_roles])]
    rfl
  generalize Monitor.poll d.atMonitor.clock d.atMonitor.board d.atMonitor.status
    d.atMonitor.store d.atMonitor.events d.atMonitor.monitor = turn at hmove hnext
  generalize d.atMonitor.monitor = m at hmove
  rw [TickAhead, hnext, round_clock, ← atMonitor_clock d]
  have hsettle : d.atMonitor.clock < d.atMonitor.clock + settleTime :=
    Nat.lt_add_of_pos_right (by decide)
  cases hmove with
  | start => exact ⟨_, _, _, _, by rw [hs]; rfl, hsettle⟩
  | await => exact ⟨_, _, _, _, by rw [hs]; rfl, hsettle⟩
  | tick v told due window s' hs' hdue =>
    exact ⟨_, _, _, _, rfl, Nat.lt_add_of_pos_right (by decide)⟩
  | wait v told due window hwait =>
    refine ⟨_, _, _, _, rfl, hwait.resolve_right ?_⟩
    rw [hs]
    exact Option.some_ne_none s

theorem NotDue.frame (h : NotDue d) (hmonitor : d'.monitor = d.monitor)
    (hclock : d'.clock = d.clock) : NotDue d' := by
  rw [NotDue, hmonitor, hclock]
  exact h

/-- Before the button has its turn, a few events of the monitor wait at most. -/
theorem Ready.atButton (h : Ready d) (hd : .dispatcher ∈ d.roles) :
    Ready d.atButton ∧ d.atButton.events.toList.length ≤ 4 := by
  refine ⟨(h.atMonitor.turn .monitor).turn .lamp, ?_⟩
  rw [Device.atButton, turn_events_of_upkeep _ (.inr rfl)]
  rcases turn_eq_or d.atMonitor .monitor with heq | heq
  · rw [heq]
    exact (pollMonitor_events (events_atMonitor hd) h.atMonitor.room).2.1
  · rw [heq, events_atMonitor hd]
    exact Nat.zero_le 4

/-- So the button finds room. -/
theorem Ready.room_atButton (h : Ready d) (hd : .dispatcher ∈ d.roles) :
    d.atButton.events.toList.length < d.atButton.events.capacity := by
  obtain ⟨hready, hfew⟩ := h.atButton hd
  rw [hready.room, eventCapacity]
  omega

/-- **After a round, no tick is due and the button has nothing to do.** -/
theorem Ready.quiet_round (h : Ready d) (hd : .dispatcher ∈ d.roles) :
    NotDue d.round ∧ (.button ∈ d.roles → ButtonSleeps d.round) := by
  constructor
  · refine (h.atMonitor.notDue_turn).frame ?_ ?_
    · rw [round_eq_button, turn_monitor_of_ne _ (by simp), Device.atButton,
        turn_monitor_of_ne _ (by simp)]
    · simp
  · intro hrole
    rw [round_eq_button, turn_of_mem (by rwa [atButton_roles])]
    exact Button.sleeps_poll _ _ _ (h.room_atButton hd)

/-- After a round the lamp has nothing to do. -/
theorem lampSleeps_round (hrole : .lamp ∈ d.roles) :
    d.round.lamp.sleeps d.round.alert (d.clock + 1) = true := by
  have hbutton : ∀ d : Device,
      (d.turn .button).lamp = d.lamp ∧ (d.turn .button).alert = d.alert := by
    intro d
    rcases turn_eq_or d .button with heq | heq
    · rw [heq]
      exact ⟨rfl, rfl⟩
    · rw [heq]
      exact ⟨rfl, rfl⟩
  have hclock : (d.atMonitor.turn .monitor).clock = d.clock := by simp
  rw [round_eq_button, (hbutton _).1, (hbutton _).2, Device.atButton,
    turn_of_mem (by simpa using hrole), ← hclock]
  exact Lamp.sleeps_poll _ _ _ _ _

/-- A monitor without a tick that is due sends nothing. -/
theorem NotDue.turn_events (h : NotDue d) : (d.turn .monitor).events = d.events := by
  rcases turn_eq_or d .monitor with heq | heq
  · have hmove := Monitor.poll_move d.clock d.board d.status d.store d.events d.monitor
    rw [heq, poll, pollMonitor]
    generalize Monitor.poll d.clock d.board d.status d.store d.events d.monitor = turn
      at hmove ⊢
    generalize hm : d.monitor = m at hmove
    cases hmove with
    | start => rfl
    | await => rfl
    | wait v told due window hwait => rfl
    | tick v told due window s hs hdue =>
      exact absurd hdue (Nat.not_le.mpr (h v told due window hm))
  · rw [heq]

/-- A round in which no tick is due and the button has nothing to do leaves no event behind. -/
theorem events_round_of_quiet (hd : .dispatcher ∈ d.roles) (hdue : NotDue d)
    (hbutton : .button ∈ d.roles → ButtonSleeps d) : d.round.events.toList = [] := by
  have hmonitor : NotDue d.atMonitor := hdue.frame (by simp) (by simp)
  have hempty : d.atButton.events.toList = [] := by
    rw [Device.atButton, turn_events_of_upkeep _ (.inr rfl), hmonitor.turn_events]
    exact events_atMonitor hd
  rw [round_eq_button]
  by_cases hrole : .button ∈ d.roles
  · have hsleeps : d.atButton.button.sleeps d.atButton.board.button (d.atButton.clock + 1)
        = true := by
      simpa [ButtonSleeps] using hbutton hrole
    rw [turn_of_mem (by rwa [atButton_roles]), poll, pollButton,
      Button.poll_of_sleeps hsleeps (Nat.lt_succ_self _)]
    exact hempty
  · rw [turn_of_not_mem (by rwa [atButton_roles])]
    exact hempty

/-- What a device has come to when it is settled. -/
structure Settled (d : Device) : Prop where
  /-- No event waits. -/
  events : d.events.toList = []
  notDue : NotDue d
  lamp : .lamp ∈ d.roles → d.lamp.sleeps d.alert (d.clock + 1) = true
  button : .button ∈ d.roles → ButtonSleeps d

/-- **A device with a dispatcher is settled after two rounds**: the second one hears what the first
one has sent, and sends nothing itself. -/
theorem Ready.settle (h : Ready d) (hd : .dispatcher ∈ d.roles) :
    Ready d.settle ∧ Settled d.settle := by
  obtain ⟨hdue, hbutton⟩ := h.quiet_round hd
  have hd' : .dispatcher ∈ d.round.roles := by rwa [round_roles]
  obtain ⟨hdue', hbutton'⟩ := h.round.quiet_round hd'
  rw [Device.settle]
  refine ⟨h.round.round, ?_, hdue', fun hrole => ?_, fun hrole => hbutton' ?_⟩
  · exact events_round_of_quiet hd' hdue fun hrole => hbutton (by rwa [round_roles] at hrole)
  · rw [round_clock]
    exact lampSleeps_round (by rwa [round_roles] at hrole)
  · rwa [round_roles] at hrole

theorem Ready.settled_run (h : Ready d) (hd : .dispatcher ∈ d.roles) (ms : Nat) :
    Settled (d.run ms) := by
  refine (run_settled (P := fun d => Ready d ∧ .dispatcher ∈ d.roles) (Q := Settled) ?_ ?_
    ⟨h, hd⟩ ms).2
  · rintro d ⟨h, hd⟩
    obtain ⟨hready, hsettled⟩ := h.settle hd
    exact ⟨⟨hready, by rwa [Device.settle, round_roles, round_roles]⟩, hsettled⟩
  · rintro d ⟨h, hd⟩
    exact ⟨h.frame rfl rfl rfl rfl rfl rfl, hd⟩

/-- With flash writer and monitor, the next tick of a device that has run is ahead. -/
theorem Ready.tickAhead_run (h : Ready d) (hwriter : .flashWriter ∈ d.roles)
    (hrole : .monitor ∈ d.roles) (ms : Nat) : TickAhead (d.run ms) := by
  refine (run_settled (P := fun d => Ready d ∧ .flashWriter ∈ d.roles ∧ .monitor ∈ d.roles)
    (Q := TickAhead) ?_ ?_ ⟨h, hwriter, hrole⟩ ms).2
  · rintro d ⟨h, hwriter, hrole⟩
    rw [Device.settle]
    exact ⟨⟨h.round.round, by simpa using hwriter, by simpa using hrole⟩,
      h.round.tickAhead_round (by simpa using hwriter) (by simpa using hrole)⟩
  · rintro d ⟨h, hwriter, hrole⟩
    exact ⟨h.frame rfl rfl rfl rfl rfl rfl, hwriter, hrole⟩

end Device

end BatteryCare
