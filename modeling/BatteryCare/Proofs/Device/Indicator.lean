import BatteryCare.Proofs.Device.Log
import BatteryCare.Proofs.Device.Settled
import BatteryCare.Proofs.Lamp.Bursts
import BatteryCare.Proofs.Lamp.Signal

/-!
# The lamp of a device

Two series are read off the journal of a device since it was switched on: what was done to the
lights, and what happened to the alert that waits for the lamp (`Device.signalHistory`). The
dispatcher and the world outside raise alerts and the lamp takes them, each in turns of their own,
so both series go on turn by turn (`Shows`).

The timetable of a burst is kept because the lamp is never late: after every round what it waits for
is still ahead (`LampSleeps`). So at the end of a run, red has shown of each alert that was taken
just what was due by then (`indicates_actAll`).
-/

namespace BatteryCare

/-! ## What is read off the journal -/

def Entry.output? : Entry → Option LampOutput
  | .lamp output => some output
  | _ => none

def Entry.signalMove? : Entry → Option SignalMove
  | .handled event => event.signalMove?
  | .shown level => some (.taken level)
  | _ => none

/-- What an action from outside does to the alert that waits. -/
def Action.signalMoves (now : Nat) : Action → List (Nat × SignalMove)
  | .raise level => [(now, .raised level)]
  | _ => []

/-- What happens to the alert that waits under a series of actions, in order. -/
def Device.signalHistory (d : Device) : List Action → List (Nat × SignalMove)
  | [] => []
  | a :: rest =>
    a.signalMoves d.clock ++ timed Entry.signalMove? ((d.act a).1.entriesSince d)
      ++ (d.act a).1.signalHistory rest

namespace Lamp

theorem Turn.outputs_noted (turn : Turn) :
    (turn.taken.toList.map Entry.shown ++ turn.outputs.map Entry.lamp).filterMap Entry.output?
      = turn.outputs := by
  rw [List.filterMap_append, List.filterMap_map, List.filterMap_map]
  cases turn.taken with
  | none => exact List.filterMap_some
  | some level => exact List.filterMap_some

theorem Turn.moves_noted (turn : Turn) :
    (turn.taken.toList.map Entry.shown ++ turn.outputs.map Entry.lamp).filterMap Entry.signalMove?
      = turn.taken.toList.map .taken := by
  have hnone : (turn.outputs.map Entry.lamp).filterMap Entry.signalMove? = [] := by
    refine List.filterMap_eq_nil_iff.mpr fun e he => ?_
    obtain ⟨output, -, rfl⟩ := List.mem_map.mp he
    rfl
  rw [List.filterMap_append, hnone, List.append_nil]
  cases turn.taken with
  | none => rfl
  | some level => rfl

end Lamp

namespace Device

/-- The lamp has nothing to do at this instant. -/
def LampSleeps (d : Device) : Prop := d.lamp.sleeps d.alert (d.clock + 1) = true

/-- Nothing that the lamp waits for is due. -/
def LampNotDue (d : Device) : Prop := ∀ due, d.lamp.due? = some due → d.clock < due

theorem LampSleeps.notDue {d : Device} (h : LampSleeps d) : LampNotDue d := by
  obtain ⟨due, heq, hahead⟩ := Lamp.due?_of_sleeps h
  intro due' heq'
  rw [heq] at heq'
  cases heq'
  exact hahead

/-! ## Turns -/

/-- What holds of a device at any instant, after this log since it was switched on at `boot` under a
system clock of `hz`. -/
structure Shows (boot hz : Nat) (d : Device) (log : List Stamped)
    (moves : List (Nat × SignalMove)) : Prop where
  clockHz : d.board.clockHz = hz
  recorded : Recorded boot (Pwm.ofClock hz).top d.clock d.lamp (timed Entry.output? log)
    (takesOf moves)
  accounted : Accounted moves d.alert

/-- The device has noted entries, and with them `d'` still shows what it should. -/
def ShowsOn (boot hz : Nat) (d : Device) (log : List Stamped) (moves : List (Nat × SignalMove))
    (d' : Device) : Prop :=
  ∃ entries, Noted d d' entries
    ∧ Shows boot hz d' (log ++ entries.map (Stamped.mk d.clock))
      (moves ++ timed Entry.signalMove? (entries.map (Stamped.mk d.clock)))

section Shows

variable {boot hz : Nat} {d d' : Device} {log : List Stamped} {moves : List (Nat × SignalMove)}

theorem Shows.frame (h : Shows boot hz d log moves) (hboard : d'.board.clockHz = d.board.clockHz)
    (hclock : d'.clock = d.clock) (hlamp : d'.lamp = d.lamp) (halert : d'.alert = d.alert) :
    Shows boot hz d' log moves where
  clockHz := hboard.trans h.clockHz
  recorded := by
    rw [hclock, hlamp]
    exact h.recorded
  accounted := by
    rw [halert]
    exact h.accounted

/-- A part that has to do with neither the lights nor the alert. -/
theorem Shows.showsOn_of_other {r : Role} {entries : List Entry} (h : Shows boot hz d' log moves)
    (hnoted : Noted d d' entries) (hof : ∀ e ∈ entries, e.IsOf r) (hdispatcher : r ≠ .dispatcher)
    (hlamp : r ≠ .lamp) : ShowsOn boot hz d log moves d' := by
  have hnone : ∀ e ∈ entries, e.output? = none ∧ e.signalMove? = none := by
    intro e he
    have hrole := hof e he
    cases e with
    | handled _ => exact absurd hrole hdispatcher
    | lamp _ | shown _ => exact absurd hrole hlamp
    | booted | loaded _ | committed _ _ | enablePin _ | modePin _ | ticked _ | sent _ _ =>
      exact ⟨rfl, rfl⟩
  refine ⟨entries, hnoted, h.clockHz, ?_, ?_⟩
  · rw [timed_append, timed_stamped, timed_stamped,
      List.filterMap_eq_nil_iff.mpr fun e he => (hnone e he).1,
      List.filterMap_eq_nil_iff.mpr fun e he => (hnone e he).2, List.map_nil, List.map_nil,
      List.append_nil, List.append_nil]
    exact h.recorded
  · rw [timed_stamped, List.filterMap_eq_nil_iff.mpr fun e he => (hnone e he).2, List.map_nil,
      List.append_nil]
    exact h.accounted

/-- The dispatcher raises the alerts among the events. -/
theorem Shows.pollDispatcher (h : Shows boot hz d log moves) :
    ShowsOn boot hz d log moves d.pollDispatcher := by
  have houtput : (d.events.toList.map Entry.handled).filterMap Entry.output? = [] := by
    refine List.filterMap_eq_nil_iff.mpr fun e he => ?_
    obtain ⟨event, -, rfl⟩ := List.mem_map.mp he
    rfl
  have hmoves : (d.events.toList.map Entry.handled).filterMap Entry.signalMove?
      = d.events.toList.filterMap Event.signalMove? := List.filterMap_map
  rw [pollDispatcher_eq]
  refine ⟨d.events.toList.map .handled, ⟨rfl, rfl⟩, h.clockHz, ?_, ?_⟩
  · rw [timed_append, timed_stamped, timed_stamped, houtput, hmoves, takesOf_append, takesOf_hear,
      List.map_nil, List.append_nil, List.append_nil]
    exact h.recorded
  · rw [timed_stamped, hmoves]
    exact h.accounted.hear _ _

/-- The lamp shows the next part of a burst, or takes the alert that waits. -/
theorem Shows.pollLamp (h : Shows boot hz d log moves) :
    ShowsOn boot hz d log moves d.pollLamp := by
  have hrecorded := h.recorded.poll (d.status.charger = .active) d.alert
  have htaken : ∀ level, (d.lamp.poll (.ofClock hz) d.clock (d.status.charger = .active)
      d.alert).taken = some level → d.alert = some level := fun _ => Lamp.alert_of_taken
  rw [Device.pollLamp, h.clockHz]
  generalize d.lamp.poll (.ofClock hz) d.clock (d.status.charger = .active) d.alert = turn
    at hrecorded htaken ⊢
  refine ⟨turn.taken.toList.map .shown ++ turn.outputs.map .lamp, ⟨rfl, rfl⟩, h.clockHz, ?_, ?_⟩
  · rw [timed_append, timed_stamped, timed_stamped, turn.outputs_noted, turn.moves_noted,
      takesOf_append, takesOf_poll]
    exact hrecorded
  · rw [timed_stamped, turn.moves_noted]
    exact h.accounted.poll d.clock htaken

theorem Shows.showsOn_self (h : Shows boot hz d log moves) : ShowsOn boot hz d log moves d := by
  refine ⟨[], .refl d, ?_⟩
  show Shows boot hz d (log ++ []) (moves ++ [])
  rw [List.append_nil, List.append_nil]
  exact h

/-- **Every turn shows what it should**, and takes and raises what it notes. -/
theorem Shows.turn (h : Shows boot hz d log moves) (r : Role) :
    ShowsOn boot hz d log moves (d.turn r) := by
  by_cases hrole : r ∈ d.roles
  · have other : r ≠ .dispatcher → r ≠ .lamp → Shows boot hz (d.poll r) log moves →
        ShowsOn boot hz d log moves (d.poll r) := by
      intro hdispatcher hlamp hnext
      obtain ⟨entries, hnoted, hof⟩ := noted_turn d r
      rw [turn_of_mem hrole] at hnoted
      exact hnext.showsOn_of_other hnoted hof hdispatcher hlamp
    rw [turn_of_mem hrole]
    cases r with
    | dispatcher => exact h.pollDispatcher
    | flashWriter => exact other (by simp) (by simp) (h.frame rfl rfl rfl rfl)
    | monitor => exact other (by simp) (by simp) (h.frame rfl rfl rfl rfl)
    | lamp => exact h.pollLamp
    | button => exact other (by simp) (by simp) (h.frame rfl rfl rfl rfl)
  · rw [turn_of_not_mem hrole]
    exact h.showsOn_self

end Shows

/-! ## Runs -/

/-- The journal of the device goes on from `base`, and it shows what it should. -/
def KeepsShowing (boot hz : Nat) (base : List Stamped) (log : List Stamped)
    (moves : List (Nat × SignalMove)) (d : Device) : Prop :=
  ∃ new, d.journal = new.reverse ++ base
    ∧ Shows boot hz d (log ++ new) (moves ++ timed Entry.signalMove? new)

section KeepsShowing

variable {boot hz : Nat} {base log : List Stamped} {d : Device} {moves : List (Nat × SignalMove)}

theorem KeepsShowing.turn (h : KeepsShowing boot hz base log moves d) (r : Role) :
    KeepsShowing boot hz base log moves (d.turn r) := by
  obtain ⟨new, hjournal, hshows⟩ := h
  obtain ⟨entries, hnoted, hnext⟩ := hshows.turn r
  refine ⟨new ++ entries.map (Stamped.mk d.clock), ?_, ?_⟩
  · rw [hnoted.journal, hjournal, List.reverse_append, List.append_assoc]
  · rw [timed_append, ← List.append_assoc, ← List.append_assoc]
    exact hnext

theorem KeepsShowing.round (h : KeepsShowing boot hz base log moves d) :
    KeepsShowing boot hz base log moves d.round :=
  ((((h.turn .dispatcher).turn .flashWriter).turn .monitor).turn .lamp).turn .button

/-- A device with a lamp keeps showing what it should while it runs. -/
theorem KeepsShowing.run (h : KeepsShowing boot hz base log moves d) (hlamp : .lamp ∈ d.roles)
    (ms : Nat) : KeepsShowing boot hz base log moves (d.run ms) ∧ LampSleeps (d.run ms) := by
  have hrun := run_settled_until
    (P := fun d => KeepsShowing boot hz base log moves d ∧ .lamp ∈ d.roles) (Q := LampSleeps) ?_ ?_
    ⟨h, hlamp⟩ (Nat.le_refl (d.clock + ms))
  · exact ⟨hrun.1.1, hrun.2⟩
  · rintro d ⟨h, hlamp⟩
    have hrole : .lamp ∈ d.round.roles := by rwa [round_roles]
    refine ⟨⟨h.round.round, by rwa [Device.settle, round_roles]⟩, ?_⟩
    rw [Device.settle, LampSleeps, round_clock d.round]
    exact lampSleeps_round hrole
  · rintro d ⟨⟨new, hjournal, hclockHz, hrecorded, haccounted⟩, hlamp⟩ hsleeps -
    obtain ⟨due, hdue, hahead⟩ := Lamp.due?_of_sleeps hsleeps
    exact ⟨⟨new, hjournal, hclockHz, hrecorded.wait hdue hahead, haccounted⟩, hlamp⟩

end KeepsShowing

section Act

variable {boot hz : Nat} {d : Device} {log : List Stamped} {moves : List (Nat × SignalMove)}

theorem Shows.run (h : Shows boot hz d log moves) (hlamp : .lamp ∈ d.roles) (ms : Nat) :
    ∃ new, (d.run ms).journal = new.reverse ++ d.journal
      ∧ Shows boot hz (d.run ms) (log ++ new) (moves ++ timed Entry.signalMove? new)
      ∧ LampSleeps (d.run ms) := by
  have hstart : KeepsShowing boot hz d.journal log moves d := by
    refine ⟨[], rfl, ?_⟩
    show Shows boot hz d (log ++ []) (moves ++ [])
    rw [List.append_nil, List.append_nil]
    exact h
  obtain ⟨⟨new, hjournal, hnext⟩, hsleeps⟩ := hstart.run hlamp ms
  exact ⟨new, hjournal, hnext, hsleeps⟩

/-- An action goes on showing what it should, unless it is a power cycle. -/
theorem Shows.act (h : Shows boot hz d log moves) (hlamp : .lamp ∈ d.roles) (hdue : LampNotDue d)
    {a : Action} (hrestart : a ≠ .restart) :
    ∃ new, (d.act a).1.journal = new.reverse ++ d.journal
      ∧ Shows boot hz (d.act a).1 (log ++ new)
        (moves ++ (a.signalMoves d.clock ++ timed Entry.signalMove? new))
      ∧ LampNotDue (d.act a).1 := by
  -- nothing happens to the journal as long as no time passes
  have still : ∀ d' : Device, d'.journal = d.journal → d'.lamp = d.lamp → d'.clock = d.clock →
      Shows boot hz d' log (moves ++ a.signalMoves d.clock) →
      ∃ new, d'.journal = new.reverse ++ d.journal
        ∧ Shows boot hz d' (log ++ new)
          (moves ++ (a.signalMoves d.clock ++ timed Entry.signalMove? new)) ∧ LampNotDue d' := by
    intro d' hjournal hlamp' hclock' hnext
    refine ⟨[], hjournal, ?_, ?_⟩
    · show Shows boot hz d' (log ++ []) (moves ++ (a.signalMoves d.clock ++ []))
      rw [List.append_nil, List.append_nil]
      exact hnext
    · rw [LampNotDue, hlamp', hclock']
      exact hdue
  have frame : ∀ d' : Device, a.signalMoves d.clock = [] →
      d'.board.clockHz = d.board.clockHz → d'.clock = d.clock → d'.lamp = d.lamp →
      d'.alert = d.alert → Shows boot hz d' log (moves ++ a.signalMoves d.clock) := by
    intro d' hmoves hboard hclock' hlamp' halert
    rw [hmoves, List.append_nil]
    exact h.frame hboard hclock' hlamp' halert
  cases a with
  | run ms =>
    obtain ⟨new, hjournal, hnext, hsleeps⟩ := h.run hlamp ms
    exact ⟨new, hjournal, hnext, hsleeps.notDue⟩
  | raise level =>
    have htakes : takesOf (moves ++ [(d.clock, .raised level)]) = takesOf moves :=
      (takesOf_append _ _).trans (List.append_nil _)
    refine still _ rfl rfl rfl ⟨h.clockHz, ?_, h.accounted.raise d.clock level⟩
    rw [Action.signalMoves, htakes]
    exact h.recorded
  | send event =>
    rw [Device.act]
    cases d.events.push? event with
    | none => exact still _ rfl rfl rfl (frame _ rfl rfl rfl rfl rfl)
    | some queue => exact still _ rfl rfl rfl (frame _ rfl rfl rfl rfl rfl)
  | setVoltage _ | setCurrent _ | setThermistor _ | plug _ | button _ | setFaults _ _ _ | receive
  | setStatus _ =>
    exact still _ rfl rfl rfl (frame _ rfl rfl rfl rfl rfl)
  | restart => exact absurd rfl hrestart

theorem Shows.actAll (h : Shows boot hz d log moves) (hlamp : .lamp ∈ d.roles)
    (hdue : LampNotDue d) {actions : List Action} (hrestart : .restart ∉ actions) :
    ∃ new, (d.actAll actions).journal = new.reverse ++ d.journal
      ∧ Shows boot hz (d.actAll actions) (log ++ new) (moves ++ d.signalHistory actions)
      ∧ LampNotDue (d.actAll actions) := by
  induction actions generalizing d log moves with
  | nil =>
    refine ⟨[], rfl, ?_, hdue⟩
    rw [Device.signalHistory, List.append_nil, List.append_nil]
    exact h
  | cons a rest ih =>
    have ha : a ≠ .restart := fun heq => hrestart (heq ▸ List.mem_cons_self)
    obtain ⟨first, hfirst, hact, hdueAct⟩ := h.act hlamp hdue ha
    have hrole : .lamp ∈ (d.act a).1.roles := by rwa [act_roles]
    obtain ⟨later, hlater, hnext, hdueNext⟩ :=
      ih hact hrole hdueAct fun hmem => hrestart (List.mem_cons_of_mem a hmem)
    refine ⟨first ++ later, ?_, ?_, hdueNext⟩
    · rw [actAll_cons, hlater, hfirst, List.reverse_append, List.append_assoc]
    · have hsince : (d.act a).1.entriesSince d = first := by
        rw [entriesSince_of_append hfirst, List.reverse_reverse]
      rw [actAll_cons, Device.signalHistory, hsince, ← List.append_assoc, ← List.append_assoc]
      exact hnext

end Act

/-- What the lights have shown since a device was switched on, and what became of the alerts. -/
structure Indicates (booted d : Device) (moves : List (Nat × SignalMove)) : Prop where
  /-- Red and green are never on together. -/
  apart : Apart ((timed Entry.output? (d.entriesSince booted)).map Prod.snd)
  /-- After it is turned off at the start, red shows the bursts of the alerts that the lamp took,
  one after the other, up to now. -/
  red : redDuties (timed Entry.output? (d.entriesSince booted))
    = (if d.lamp = .dark then [] else [(booted.clock, 0)])
      ++ ((takesOf moves).flatMap (burstLog (Pwm.ofClock booted.board.clockHz).top)).filter
        (·.1 ≤ d.clock)
  /-- Each of these bursts has begun, -/
  begun : ∀ take ∈ takesOf moves, take.1 ≤ d.clock
  /-- and is over before the next one begins, so none but the last one is unfinished. -/
  spaced : (takesOf moves).Pairwise fun first second => burstEnd first ≤ second.1
  /-- Each alert that was raised was taken, waits or was replaced before the lamp took it, and none
  was taken that was not raised. -/
  accounted : Accounted moves d.alert
  /-- Once time has passed, an alert waits for nothing but the end of a burst. -/
  prompt : ∀ ms level, (d.run ms).alert = some level →
    ∃ take ∈ takesOf (moves ++ timed Entry.signalMove? ((d.run ms).entriesSince d)),
      (d.run ms).clock < burstEnd take

/--
**The lights conserve alerts.** From one power cycle to the next, whatever happens to a device with
a lamp: red and green are never on together, red shows the bursts of the alerts that the lamp took
and nothing else, and each alert that was raised is accounted for. An alert waits no longer than to
the end of a burst.
-/
theorem indicates_actAll {roles : List Role} (hlamp : .lamp ∈ roles) (board : Board) (clock : Nat)
    (journal : List Stamped) {actions : List Action} (hrestart : .restart ∉ actions) :
    Indicates (boot roles board clock journal) ((boot roles board clock journal).actAll actions)
      ((boot roles board clock journal).signalHistory actions) := by
  have hstart : Shows clock board.clockHz (boot roles board clock journal) [] [] :=
    ⟨rfl, recorded_dark clock _, accounted_nil⟩
  obtain ⟨log, hjournal, hshows, hdue⟩ :=
    hstart.actAll hlamp (fun due hdue => absurd hdue (by simp [boot, Lamp.due?])) hrestart
  have hlog : ((boot roles board clock journal).actAll actions).entriesSince
      (boot roles board clock journal) = log := by
    rw [entriesSince_of_append hjournal, List.reverse_reverse]
  rw [List.nil_append, List.nil_append] at hshows
  have hrecorded := hshows.recorded
  refine ⟨?_, ?_, hrecorded.begun, hrecorded.spaced, hshows.accounted, fun ms level halert => ?_⟩
  · rw [hlog]
    exact hrecorded.apart
  · rw [hlog]
    exact hrecorded.redDuties_eq hdue
  · have hrole : .lamp ∈ ((boot roles board clock journal).actAll actions).roles := by
      rwa [actAll_roles]
    obtain ⟨new, hnew, hnext, hsleeps⟩ := hshows.run hrole ms
    rw [LampSleeps, halert] at hsleeps
    rw [entriesSince_of_append hnew, List.reverse_reverse]
    exact hnext.recorded.busy hsleeps

/-- A critical alert replaces a low one, and during its burst another low one is raised. -/
theorem indicates_actAll_replaced :
    Role.lamp ∈ [Role.dispatcher, .flashWriter, .monitor, .lamp, .button]
      ∧ Indicates (boot [.dispatcher, .flashWriter, .monitor, .lamp, .button] {} 0 [])
          ((boot [.dispatcher, .flashWriter, .monitor, .lamp, .button] {} 0 []).actAll
            [.raise .low, .raise .critical, .run 0, .raise .low])
          [(0, .raised .low), (0, .raised .critical), (0, .taken .critical), (0, .raised .low)] :=
  ⟨by decide, indicates_actAll (by decide) {} 0 [] (by simp)⟩

end Device

end BatteryCare
