import BatteryCare.Device.Machine

/-!
# What happens to a device

The actions from outside: time passes, the hardware changes, someone else sends an event, raises an
alert or sets the status, and the power is cycled. Only the passing of time lets the device do
anything.
-/

namespace BatteryCare

/-- Something that happens to a device. -/
inductive Action where
  /-- It runs for some time (ms). -/
  | run (ms : Nat)
  /-- The converter input of the battery voltage changes. -/
  | setVoltage (raw : Option UInt16)
  /-- The converter input of the charge current changes. -/
  | setCurrent (raw : Option UInt16)
  /-- The converter input of the thermistor changes. -/
  | setThermistor (raw : Option UInt16)
  /-- The supply is plugged in or out. -/
  | plug (high : Bool)
  /-- The pin of the button is driven. -/
  | button (high : Bool)
  /-- The faults of the flash change. -/
  | setFaults (stalled readFails writeFails : Bool)
  /-- An event is sent from outside. -/
  | send (event : Event)
  /-- All events are taken from the queue. -/
  | receive
  /-- An alert is raised from outside. -/
  | raise (level : AlertLevel)
  /-- The status is changed from outside. -/
  | setStatus (change : StatusChange)
  /-- The power is cycled. -/
  | restart

/-- What an action answers. -/
inductive Reply where
  | done
  /-- What could be seen of the device while it ran, in order. -/
  | log (entries : List Stamped)
  /-- Whether the event found room in the queue. -/
  | sent (queued : Bool)
  /-- The events taken, in order. -/
  | received (events : List Event)

namespace Device

/-- What could be seen of a device since an earlier moment, in order. -/
def visibleSince (d earlier : Device) : List Stamped :=
  (d.journal.take (d.journal.length - earlier.journal.length)).reverse.filter (·.entry.isVisible)

/-- An action on the hardware. -/
def onBoard (d : Device) (change : Board → Board) : Device := { d with board := change d.board }

/-- The device after an action, and the answer. -/
def act (d : Device) : Action → Device × Reply
  | .run ms =>
    let later := d.run ms
    (later, .log (later.visibleSince d))
  | .setVoltage raw => (d.onBoard ({ · with voltage := raw }), .done)
  | .setCurrent raw => (d.onBoard ({ · with current := raw }), .done)
  | .setThermistor raw => (d.onBoard ({ · with thermistor := raw }), .done)
  | .plug high => (d.onBoard ({ · with plugged := high }), .done)
  | .button high => (d.onBoard fun b => { b with button := b.button.drive high }, .done)
  | .setFaults stalled readFails writeFails =>
    (d.onBoard fun b => { b with flash := { b.flash with stalled, readFails, writeFails } }, .done)
  | .send event =>
    match d.events.push? event with
    | some events => ({ d with events }, .sent true)
    | none => (d, .sent false)
  | .receive => ({ d with events := d.events.clear }, .received d.events.toList)
  | .raise level => ({ d with alert := some level }, .done)
  | .setStatus change => ({ d with status := d.status.change change }, .done)
  | .restart => (d.restart, .done)

/-- The device after a series of actions. -/
def actAll (d : Device) (actions : List Action) : Device :=
  actions.foldl (fun d a => (d.act a).1) d

end Device

end BatteryCare
