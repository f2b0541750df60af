import BatteryCare.Proofs.Device.Rest

/-!
# A device asleep

Every part waits for an instant of its own: the monitor for its next tick, the lamp for its next
change, the button for a level to settle or a hold to be over. Until the earliest of these instants
only the clock goes on (`Asleep.pass_eq`), as long as nobody touches the device from outside.

So a run can be told by the instants at which something happens (`Device.leap`). That is how runs of
many seconds are computed here.
-/

namespace BatteryCare

/-! ## What the parts wait for -/

/-- The watch sees nothing before `wake`. -/
def EdgeWatch.sleeps (pin : InputPin) (wake : Nat) : EdgeWatch → Bool
  | waiting _ changes => pin.changes = changes
  | settling _ due => wake ≤ due

/-- The button does nothing before `wake`. -/
def Button.sleeps (pin : InputPin) (wake : Nat) : Button → Bool
  | unread | sending _ => false
  | up watch => watch.sleeps pin wake
  | down due watch => wake ≤ due && watch.sleeps pin wake
  | releasing => pin.high

/-- The lamp does nothing before `wake`. -/
def Lamp.sleeps (alert : Option AlertLevel) (wake : Nat) : Lamp → Bool
  | dark => false
  | watching due => wake ≤ due && alert.isNone
  | lit _ _ due | unlit _ _ due => wake ≤ due

/-- The monitor does nothing before `wake`. -/
def Monitor.sleeps (wake : Nat) : Monitor → Bool
  | starting | awaitingImage => false
  | waiting _ _ due _ => wake ≤ due

/-- The instant that the watch waits for. -/
def EdgeWatch.due? : EdgeWatch → Option Nat
  | waiting _ _ => none
  | settling _ due => some due

/-- The instants that the button waits for. -/
def Button.dues : Button → List Nat
  | up watch => watch.due?.toList
  | down due watch => due :: watch.due?.toList
  | unread | sending _ | releasing => []

/-- The instant that the lamp waits for. -/
def Lamp.due? : Lamp → Option Nat
  | dark => none
  | watching due | lit _ _ due | unlit _ _ due => some due

section Sleeps

variable {pin : InputPin} {now wake : Nat}

theorem EdgeWatch.poll_of_sleeps {watch : EdgeWatch} (h : watch.sleeps pin wake = true)
    (hlt : now < wake) : watch.poll pin now = (watch, none) := by
  cases watch with
  | waiting high changes =>
    rw [sleeps, decide_eq_true_iff] at h
    rw [poll, if_pos h]
  | settling high due =>
    rw [sleeps, decide_eq_true_iff] at h
    rw [poll, if_pos (by omega)]

theorem Button.poll_of_sleeps {b : Button} (h : b.sleeps pin wake = true) (hlt : now < wake)
    (status : Status) (events : Fifo Event) :
    b.poll pin now status events = { button := b, events } := by
  cases b with
  | unread => exact absurd h (by simp [sleeps])
  | sending event => exact absurd h (by simp [sleeps])
  | up watch =>
    rw [sleeps] at h
    rw [poll, EdgeWatch.poll_of_sleeps h hlt]
  | down due watch =>
    rw [sleeps, Bool.and_eq_true, decide_eq_true_iff] at h
    rw [poll, if_neg (by omega), EdgeWatch.poll_of_sleeps h.2 hlt]
  | releasing =>
    rw [sleeps] at h
    rw [poll, release, if_pos h]

theorem Lamp.poll_of_sleeps {lamp : Lamp} {alert : Option AlertLevel}
    (h : lamp.sleeps alert wake = true) (hlt : now < wake) (pwm : Pwm) (charging : Bool) :
    lamp.poll pwm now charging alert = wait lamp := by
  cases lamp with
  | dark => exact absurd h (by simp [sleeps])
  | watching due =>
    rw [sleeps, Bool.and_eq_true, decide_eq_true_iff, Option.isNone_iff_eq_none] at h
    have hdue : ¬ due ≤ now := by omega
    simp [poll, start, advance, notice, wait, hdue, h.2]
  | lit level left due =>
    rw [sleeps, decide_eq_true_iff] at h
    have hdue : ¬ due ≤ now := by omega
    simp [poll, start, advance, notice, wait, hdue]
  | unlit level left due =>
    rw [sleeps, decide_eq_true_iff] at h
    have hdue : ¬ due ≤ now := by omega
    simp [poll, start, advance, notice, wait, hdue]

end Sleeps

namespace Device

/-! ## Sleep -/

/-- No part that runs has anything to do before `wake`. -/
structure Asleep (d : Device) (wake : Nat) : Prop where
  events : d.events.toList = []
  idle : d.flashWriter = .idle
  pending : d.pendingWrites = 0
  monitor : .monitor ∈ d.roles → d.monitor.sleeps wake = true
  lamp : .lamp ∈ d.roles → d.lamp.sleeps d.alert wake = true
  button : .button ∈ d.roles → d.button.sleeps d.board.button wake = true

variable {d : Device} {wake : Nat}

instance (d : Device) (wake : Nat) : Decidable (Asleep d wake) :=
  decidable_of_iff (d.events.toList = [] ∧ d.flashWriter = .idle ∧ d.pendingWrites = 0
      ∧ (.monitor ∈ d.roles → d.monitor.sleeps wake = true)
      ∧ (.lamp ∈ d.roles → d.lamp.sleeps d.alert wake = true)
      ∧ (.button ∈ d.roles → d.button.sleeps d.board.button wake = true))
    ⟨fun ⟨h1, h2, h3, h4, h5, h6⟩ => ⟨h1, h2, h3, h4, h5, h6⟩,
      fun h => ⟨h.events, h.idle, h.pending, h.monitor, h.lamp, h.button⟩⟩

theorem Asleep.turn_monitor (h : Asleep d wake) (hlt : d.clock < wake) : d.turn .monitor = d := by
  by_cases hrole : .monitor ∈ d.roles
  · have hsleeps := h.monitor hrole
    have hahead : TickAhead d := by
      unfold TickAhead
      cases hmonitor : d.monitor with
      | starting => rw [hmonitor] at hsleeps; exact absurd hsleeps (by simp [Monitor.sleeps])
      | awaitingImage => rw [hmonitor] at hsleeps; exact absurd hsleeps (by simp [Monitor.sleeps])
      | waiting v told due window =>
        rw [hmonitor, Monitor.sleeps, decide_eq_true_iff] at hsleeps
        exact ⟨v, told, due, window, rfl, by omega⟩
    exact hahead.turn_monitor
  · exact turn_of_not_mem hrole

theorem Asleep.turn_lamp (h : Asleep d wake) (hlt : d.clock < wake) : d.turn .lamp = d := by
  by_cases hrole : .lamp ∈ d.roles
  · rw [turn_of_mem hrole, poll, pollLamp, Lamp.poll_of_sleeps (h.lamp hrole) hlt]
    rfl
  · exact turn_of_not_mem hrole

theorem Asleep.turn_button (h : Asleep d wake) (hlt : d.clock < wake) : d.turn .button = d := by
  by_cases hrole : .button ∈ d.roles
  · rw [turn_of_mem hrole, poll, pollButton, Button.poll_of_sleeps (h.button hrole) hlt]
    rfl
  · exact turn_of_not_mem hrole

/-- A sleeping device is settled. -/
theorem Asleep.settle_eq (h : Asleep d wake) (hlt : d.clock < wake) : d.settle = d := by
  have hround : d.round = d := by
    rw [round, turn_dispatcher_of_empty h.events, turn_flashWriter_of_idle h.idle h.pending,
      h.turn_monitor hlt, h.turn_lamp hlt, h.turn_button hlt]
  rw [settle, hround, hround]

theorem Asleep.wait (h : Asleep d wake) (ms : Nat) :
    Asleep { d with clock := d.clock + ms } wake :=
  ⟨h.events, h.idle, h.pending, h.monitor, h.lamp, h.button⟩

/-- **A sleeping device lets time pass until it wakes.** -/
theorem Asleep.pass_eq (h : Asleep d wake) {ms : Nat} (hlt : d.clock + ms < wake) :
    d.pass ms = { d with clock := d.clock + ms } := by
  induction ms generalizing d with
  | zero => rfl
  | succ ms ih =>
    have hnext : Asleep { d with clock := d.clock + 1 } wake := h.wait 1
    rw [pass_succ, advance_eq, hnext.settle_eq (by show d.clock + 1 < wake; omega),
      ih hnext (by show d.clock + 1 + ms < wake; omega)]
    simp only [Nat.add_assoc, Nat.add_comm 1 ms]

/-- The next thing to happen to a sleeping device is that it wakes. -/
theorem Asleep.pass_wake (h : Asleep d wake) (hlt : d.clock < wake) (ms : Nat) :
    d.pass (wake - d.clock + ms) = ({ d with clock := wake } : Device).settle.pass ms := by
  obtain ⟨before, hbefore⟩ : ∃ before, wake = d.clock + before + 1 := ⟨wake - d.clock - 1, by omega⟩
  have hms : wake - d.clock + ms = before + (ms + 1) := by omega
  rw [hms, pass_add, h.pass_eq (by omega), pass_succ, advance_eq, hbefore]

/-! ## Leaps -/

/-- The next instant that a part waits for. -/
def wake? (d : Device) : Option Nat :=
  (d.monitor.due?.toList ++ d.lamp.due?.toList ++ d.button.dues).min?

/-- Passes time in leaps from one instant that a part waits for to the next; after `fuel` leaps, and
where the device does not sleep, time passes as usual. -/
def leap : Nat → Device → Nat → Device
  | 0, d, ms => d.pass ms
  | fuel + 1, d, ms =>
    match d.wake? with
    | none => d.pass ms
    | some wake =>
      if d.clock < wake ∧ Asleep d wake then
        if d.clock + ms < wake then { d with clock := d.clock + ms }
        else leap fuel ({ d with clock := wake } : Device).settle (d.clock + ms - wake)
      else d.pass ms

/-- **Leaps leave nothing out.** -/
theorem leap_eq (fuel : Nat) (d : Device) (ms : Nat) : leap fuel d ms = d.pass ms := by
  -- each leap stands for the stretch of sleep up to the next instant that a part waits for
  induction fuel generalizing d ms with
  | zero => rfl
  | succ fuel ih =>
    rw [leap]
    split
    · rfl
    · rename_i wake _
      by_cases hsleep : d.clock < wake ∧ Asleep d wake
      · rw [if_pos hsleep]
        by_cases hshort : d.clock + ms < wake
        · rw [if_pos hshort, hsleep.2.pass_eq hshort]
        · have hms : ms = wake - d.clock + (d.clock + ms - wake) := by omega
          rw [if_neg hshort, ih, ← hsleep.2.pass_wake hsleep.1, ← hms]
      · rw [if_neg hsleep]

/-- The device after an action, where time passes in leaps. -/
def leapAct (fuel : Nat) (d : Device) : Action → Device
  | .run ms => leap fuel d.settle ms
  | a => (d.act a).1

theorem leapAct_eq (fuel : Nat) (d : Device) (a : Action) : d.leapAct fuel a = (d.act a).1 := by
  cases a with
  | run ms => exact leap_eq fuel d.settle ms
  | setVoltage _ | setCurrent _ | setThermistor _ | plug _ | button _ | setFaults _ _ _ | send _
  | receive | raise _ | setStatus _ | restart => rfl

theorem foldl_leapAct (fuel : Nat) (d : Device) (actions : List Action) :
    actions.foldl (leapAct fuel) d = d.actAll actions :=
  congrArg (fun act => actions.foldl act d)
    (funext fun d => funext fun a => leapAct_eq fuel d a)

end Device

end BatteryCare
