import BatteryCare.Device.Journal
import BatteryCare.Device.Status
import BatteryCare.Supervisor

/-!
# Battery monitor

Runs one control tick a second. It waits for the image of the word store first, since the stored
estimate has to be known before the first tick, and then gives the analog front end time to settle.

A tick never waits for anyone: an event that finds the queue full is dropped. There are two things
that it would have to wait for, and both are assumed to be there at once: the lock of the shared
status, which no part holds while it waits, and the conversions of the inputs. So a tick takes no
time, and nothing comes between what it reads and what it does.
-/

namespace BatteryCare

/-- Time for the analog front end to settle (ms). -/
def settleTime : Nat := 500

/-- Time between two control ticks (ms). -/
def tickInterval : Nat := 1000

/-- What the monitor is at. -/
inductive Monitor where
  /-- The charger pins are not set up. -/
  | starting
  /-- The image of the word store is not loaded. -/
  | awaitingImage
  /-- The next tick is due; the supervisor was last told of the power state `told`, and `window` is
  in the filter of the charge current. -/
  | waiting (supervisor : Supervisor) (told : PowerState) (due : Nat) (window : List Single)

namespace Monitor

/-- The monitor and what it shares after a turn. -/
structure Turn where
  monitor : Monitor
  store : Option Store
  events : Fifo Event
  entries : List Entry := []

/-- The supervisor, where it runs. -/
def supervisor? : Monitor → Option Supervisor
  | waiting v _ _ _ => some v
  | _ => none

/-- What a call does to the charger pins. The mode is set before charging starts. -/
def pins : CircuitCall → List Entry
  | .enable mode => [.modePin (mode = .friendly), .enablePin true]
  | .disable => [.enablePin false]
  | .fullCharge => []

/-- The events of a tick, in order: the end of a charge cycle, the alerts, the report. -/
def eventsOf (t : Tick) : List Event :=
  (if .fullCharge ∈ t.calls then [.fullyCharged] else []) ++
    t.alerts.map .lowBattery ++ [.measured t.report]

/-- Sends events in order; one that finds no room is dropped. -/
def sendAll : Fifo Event → List Event → Fifo Event × List Entry
  | events, [] => (events, [])
  | events, e :: rest =>
    match events.push? e with
    | some events =>
      let (events, entries) := sendAll events rest
      (events, .sent e true :: entries)
    | none =>
      let (events, entries) := sendAll events rest
      (events, .sent e false :: entries)

/-- One control tick. Neither the lock of the status nor a conversion makes it wait. -/
def tick (now : Nat) (sensed : Sensed) (status : Status) (store : Store) (events : Fifo Event)
    (v : Supervisor) (told : PowerState) : Turn :=
  let clock := UInt32.ofNat now
  let v := if status.power = told then v else v.setPower status.power clock
  let t := v.tick store (sensed.sample status.chargeType.mode) clock
  let (events, sent) := sendAll events (eventsOf t)
  { monitor := waiting t.supervisor status.power (now + tickInterval) sensed.window
    store := some t.store
    events
    entries :=
      .ticked
        { readings := sensed.readings
          current := sensed.current
          chargeType := status.chargeType
          report := t.report
          calls := t.calls
          alerts := t.alerts
          attempts := t.attempts } ::
      t.calls.flatMap pins ++ sent }

/-- Waits for the first tick, once there is an image. -/
def begin (now : Nat) (store : Option Store) : Monitor :=
  match store with
  | none => awaitingImage
  | some store => waiting (.start {} store) .off (now + settleTime) []

/-- Goes on from where the monitor is. -/
def poll (now : Nat) (board : Board) (status : Status) (store : Option Store)
    (events : Fifo Event) (monitor : Monitor) : Turn :=
  match monitor, store with
  | starting, store =>
    { monitor := begin now store, store, events, entries := [.enablePin false, .modePin false] }
  | awaitingImage, store => { monitor := begin now store, store, events }
  | waiting v told due window, some store =>
    if due ≤ now then tick now (board.sense window) status store events v told
    else { monitor := waiting v told due window, store := some store, events }
  | monitor, none => { monitor, store := none, events }

end Monitor

end BatteryCare
