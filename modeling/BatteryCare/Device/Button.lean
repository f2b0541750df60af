import BatteryCare.Device.Board
import BatteryCare.Device.Event
import BatteryCare.Device.Status

/-!
# Power button

A short press asks for the speaker to be switched on or off, and holding the button asks for the
other charge type.

The contacts bounce. After an edge the level is read again once it has had time to settle, and
counts only if it differs from the level before the edge. A press that is still down when the hold
time ends is a hold; its release is then waited for.
-/

namespace BatteryCare

/-- Time for the contacts to settle (ms). -/
def bounceTime : Nat := 30

/-- How long a press lasts before it is a hold (ms). -/
def holdTime : Nat := 1500

/-- Watches a pin for a change of its settled level. -/
inductive EdgeWatch where
  /-- Waits for an edge after `changes` changes, at level `high`. -/
  | waiting (high : Bool) (changes : Nat)
  /-- An edge came; the level is read again at `due`. -/
  | settling (high : Bool) (due : Nat)
  deriving DecidableEq, Repr

namespace EdgeWatch

/-- A watch that begins now. -/
def start (pin : InputPin) : EdgeWatch := waiting pin.high pin.changes

/-- Goes on watching. Answers the new level once it has settled on another one. -/
def poll (pin : InputPin) (now : Nat) : EdgeWatch → EdgeWatch × Option Bool
  | waiting high changes =>
    if pin.changes = changes then (waiting high changes, none)
    else (settling high (now + bounceTime), none)
  | settling high due =>
    if now < due then (settling high due, none)
    else (start pin, if pin.high = high then none else some pin.high)

end EdgeWatch

/-- What the button is waiting for. -/
inductive Button where
  /-- The pin has not been looked at. -/
  | unread
  /-- The button is up; a press is waited for. -/
  | up (watch : EdgeWatch)
  /-- The button is down; it is a hold from `due` on, unless its level changes before. -/
  | down (due : Nat) (watch : EdgeWatch)
  /-- The event queue has no room for the event. -/
  | sending (event : Event)
  /-- The hold is told, and the button still has to go up. -/
  | releasing
  deriving DecidableEq, Repr

namespace Button

/-- What the button does at an instant. -/
structure Turn where
  button : Button
  events : Fifo Event
  /-- The event that went into the queue. -/
  sent : Option Event := none

/-- Waits for a press. -/
def rest (pin : InputPin) : Button := up (.start pin)

/-- Waits for a press, once the button is up. -/
def release (pin : InputPin) : Button := if pin.high then releasing else rest pin

/-- Sends an event, or waits for room in the queue. -/
def send (pin : InputPin) (events : Fifo Event) (event : Event) : Turn :=
  match events.push? event with
  | none => { button := sending event, events }
  | some events =>
    match event with
    | .chargeTypeSet _ => { button := release pin, events, sent := some event }
    | _ => { button := rest pin, events, sent := some event }

/-- Goes on from where the button is. -/
def poll (pin : InputPin) (now : Nat) (status : Status) (events : Fifo Event) : Button → Turn
  | unread => { button := rest pin, events }
  | up watch =>
    match watch.poll pin now with
    | (_, some true) => { button := down (now + holdTime) (.start pin), events }
    | (watch, _) => { button := up watch, events }
  | down due watch =>
    if due ≤ now then send pin events (.chargeTypeSet status.chargeType.toggled)
    else
      match watch.poll pin now with
      | (_, some _) => send pin events (.powerSet status.power.pressed)
      | (watch, none) => { button := down due watch, events }
  | sending event => send pin events event
  | releasing => { button := release pin, events }

end Button

end BatteryCare
