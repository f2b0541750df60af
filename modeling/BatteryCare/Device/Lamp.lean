import BatteryCare.Alarm

/-!
# Indicator lamp

A red and a green light. Green is on, dimmed, while the battery charges; this is looked up once a
second. A low-battery alert turns green off and blinks red, a few times for the low alert and faster
for the critical one.

The lamp is a state machine with one deadline. An alert that comes during a burst waits for its end.
When the refresh is due at the instant of an alert, the refresh comes first.
-/

namespace BatteryCare

/-- The two lights. -/
inductive Light where
  | red
  | green
  deriving DecidableEq, Repr

/-- Set-up of the pulse width modulation. -/
structure Pwm where
  /-- Divider of the system clock. -/
  divider : UInt8
  /-- Last count of a period, the duty of a light that is fully on. -/
  top : UInt16
  deriving DecidableEq, Repr

/-- Frequency of the lights (Hz). -/
def lampFrequency : Nat := 100

/-- The set-up for the lamp frequency under a system clock (Hz): the smallest divider that keeps the
period within sixteen bits. -/
def Pwm.ofClock (clockHz : Nat) : Pwm :=
  let divider := UInt8.ofNat (clockHz / lampFrequency / 65535 + 1)
  let period := UInt16.ofNat (clockHz / (lampFrequency * divider.toNat))
  ⟨divider, period - 1⟩

/-- Duty of a light dimmed to `percent`. -/
def Pwm.dimmed (p : Pwm) (percent : Nat) : UInt16 := UInt16.ofNat (p.top.toNat * percent / 100)

/-- What is done to a light. -/
inductive LampOutput where
  | setUp (light : Light) (pwm : Pwm)
  | duty (light : Light) (duty : UInt16)
  deriving DecidableEq, Repr

/-- How an alert blinks. -/
structure Burst where
  /-- Length of a phase, lit or unlit (ms). -/
  phase : Nat
  /-- Flashes in the burst. -/
  flashes : Nat

/-- The burst of an alert. -/
def AlertLevel.burst : AlertLevel → Burst
  | low => ⟨400, 3⟩
  | critical => ⟨150, 8⟩

/-- Time between two looks at the charger status (ms). -/
def refreshInterval : Nat := 1000

/-- Brightness of green while charging (%). -/
def chargingBrightness : Nat := 30

/-- What the lamp is waiting for. -/
inductive Lamp where
  /-- The lights are not set up. -/
  | dark
  /-- The next refresh is due, unless an alert comes before. -/
  | watching (due : Nat)
  /-- Red is on until `due`; after this flash, `left` more are to come. -/
  | lit (level : AlertLevel) (left : Nat) (due : Nat)
  /-- Red is off until `due`; `left` flashes are to come. -/
  | unlit (level : AlertLevel) (left : Nat) (due : Nat)
  deriving DecidableEq, Repr

namespace Lamp

/-- The lamp after a turn. -/
structure Turn where
  lamp : Lamp
  /-- What was done to the lights, in order. -/
  outputs : List LampOutput
  /-- The alert whose burst began. -/
  taken : Option AlertLevel := none

/-- Nothing is done. -/
def wait (lamp : Lamp) : Turn := { lamp, outputs := [] }

/-- Sets both lights up and turns them off. -/
def start (pwm : Pwm) (now : Nat) : Lamp → Turn
  | dark =>
    { lamp := watching (now + refreshInterval)
      outputs := [.setUp .red pwm, .setUp .green pwm, .duty .red 0, .duty .green 0] }
  | lamp => wait lamp

/-- Shows the charger status on green and watches on. -/
def refresh (pwm : Pwm) (now : Nat) (charging : Bool) : Turn where
  lamp := watching (now + refreshInterval)
  outputs := [.duty .green (if charging then pwm.dimmed chargingBrightness else 0)]

/-- Does what is due. -/
def advance (pwm : Pwm) (now : Nat) (charging : Bool) : Lamp → Turn
  | dark => wait dark
  | watching due => if due ≤ now then refresh pwm now charging else wait (watching due)
  | lit level left due =>
    if due ≤ now then
      { lamp := unlit level left (now + level.burst.phase), outputs := [.duty .red 0] }
    else wait (lit level left due)
  | unlit level left due =>
    if due ≤ now then
      match left with
      | 0 => refresh pwm now charging
      | left + 1 =>
        { lamp := lit level left (now + level.burst.phase), outputs := [.duty .red pwm.top] }
    else wait (unlit level left due)

/-- Begins the burst of an alert, unless the lamp is busy. -/
def notice (pwm : Pwm) (now : Nat) (alert : Option AlertLevel) : Lamp → Turn
  | watching due =>
    match alert with
    | none => wait (watching due)
    | some level =>
      { lamp := lit level (level.burst.flashes - 1) (now + level.burst.phase)
        outputs := [.duty .green 0, .duty .red pwm.top]
        taken := some level }
  | lamp => wait lamp

/-- Goes on from where the lamp is: sets up, does what is due, takes an alert. -/
def poll (pwm : Pwm) (now : Nat) (charging : Bool) (alert : Option AlertLevel) (lamp : Lamp) :
    Turn :=
  let started := lamp.start pwm now
  let advanced := started.lamp.advance pwm now charging
  let noticed := advanced.lamp.notice pwm now alert
  { noticed with outputs := started.outputs ++ advanced.outputs ++ noticed.outputs }

end Lamp

end BatteryCare
