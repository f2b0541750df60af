import BatteryCare.Device.Button
import BatteryCare.Device.FlashWriter
import BatteryCare.Device.Lamp
import BatteryCare.Device.Monitor

/-!
# The device

Five parts share a status, an event queue, a pending alert and a word store: the dispatcher, the
flash writer, the battery monitor, the lamp and the power button. They are tasks of the executor
`embassy-executor`, which is not part of this library. It documents that tasks cooperate: one of
them runs at a time, and goes on until it has to wait; and a task that can go on again gets another
turn. In which order it polls the tasks that can go on at the same instant it leaves open, so that
order is an assumption: here they take turns in the order above, and the turns are repeated at the
same instant until none of them can go on.

Two rounds are enough for that. In the first one every part does what is due. What this leaves to be
done is for parts that had their turn before: events for the dispatcher and writes for the flash
writer, both of which are done with in the second round, where they can leave an alert for the lamp
that comes after them. The lamp leaves nothing behind.

Time passes in whole milliseconds. A power cycle starts everything over, the clock included, while
the hardware keeps its state.
-/

namespace BatteryCare

/-- The parts of a device. -/
inductive Role where
  | dispatcher
  | flashWriter
  | monitor
  | lamp
  | button
  deriving DecidableEq, Repr

/-- A device. -/
structure Device where
  /-- The parts that run. -/
  roles : List Role
  /-- The clock (ms); a power cycle sets it to zero. -/
  clock : Nat
  board : Board
  status : Status := {}
  events : Fifo Event := noEvents
  /-- The alert that waits for the lamp; a later one replaces it. -/
  alert : Option AlertLevel := none
  /-- The word store, once its image is loaded. -/
  store : Option Store := none
  flashWriter : FlashWriter := .unloaded
  monitor : Monitor := .starting
  lamp : Lamp := .dark
  button : Button := .unread
  /-- What the device has done, the latest first. -/
  journal : List Stamped := []

namespace Device

/-- A device that is switched on, with what its hardware keeps. -/
def boot (roles : List Role) (board : Board) (clock : Nat) (journal : List Stamped) : Device :=
  { roles, clock, board, journal := ⟨clock, .booted⟩ :: journal }

/-- Notes entries in the order in which they were made. -/
def note (d : Device) (entries : List Entry) : Device :=
  { d with journal := (entries.map (Stamped.mk d.clock)).reverse ++ d.journal }

/-! ## Turns -/

/-- Takes an event into the status, or raises its alert. -/
def handle (d : Device) (event : Event) : Device :=
  let d := d.note [.handled event]
  match event with
  | .measured report => { d with status := d.status.applyReport report }
  | .fullyCharged => d
  | .lowBattery level => { d with alert := some level }
  | .powerSet power => { d with status := { d.status with power } }
  | .chargeTypeSet chargeType => { d with status := { d.status with chargeType } }

/-- The dispatcher handles all events that wait. -/
def pollDispatcher (d : Device) : Device :=
  d.events.toList.foldl handle { d with events := d.events.clear }

/-- The device after a turn of the flash writer, or after a step of it. -/
def written (d : Device) (turn : FlashWriter.Turn) : Device :=
  { d with
    flashWriter := turn.writer
    board := { d.board with flash := turn.flash }
    store := turn.store }.note turn.entries

/-- The next step of the flash writer, if it does not have to wait. -/
def stepFlashWriter? (d : Device) : Option Device :=
  (d.flashWriter.step d.board.flash d.store).map d.written

/-- The flash writer loads the image or brings writes to flash. -/
def pollFlashWriter (d : Device) : Device :=
  d.written (d.flashWriter.poll d.board.flash d.store)

/-- The monitor runs a tick that is due. -/
def pollMonitor (d : Device) : Device :=
  let turn := d.monitor.poll d.clock d.board d.status d.store d.events
  { d with monitor := turn.monitor, store := turn.store, events := turn.events }.note turn.entries

/-- The lamp goes on, and may take the alert that waits. -/
def pollLamp (d : Device) : Device :=
  let turn := d.lamp.poll (.ofClock d.board.clockHz) d.clock (d.status.charger = .active) d.alert
  { d with
    lamp := turn.lamp
    alert := if turn.taken.isSome then none else d.alert }.note
    (turn.taken.toList.map Entry.shown ++ turn.outputs.map Entry.lamp)

/-- The button follows its pin. -/
def pollButton (d : Device) : Device :=
  let turn := d.button.poll d.board.button d.clock d.status d.events
  { d with button := turn.button, events := turn.events }.note
    (turn.sent.toList.map fun event => .sent event true)

/-- The turn of one part. -/
def poll (d : Device) : Role → Device
  | .dispatcher => d.pollDispatcher
  | .flashWriter => d.pollFlashWriter
  | .monitor => d.pollMonitor
  | .lamp => d.pollLamp
  | .button => d.pollButton

/-- The turn of a part that runs; no turn of one that does not. -/
def turn (d : Device) (r : Role) : Device := if r ∈ d.roles then d.poll r else d

/-! ## Time -/

/-- One turn of every part. -/
def round (d : Device) : Device :=
  ((((d.turn .dispatcher).turn .flashWriter).turn .monitor).turn .lamp).turn .button

/-- All that can be done at this instant. -/
def settle (d : Device) : Device := d.round.round

/-- One millisecond passes. -/
def advance (d : Device) : Device := { d with clock := d.clock + 1 }.settle

/-- Milliseconds pass. -/
def pass (d : Device) : Nat → Device
  | 0 => d
  | ms + 1 => d.advance.pass ms

/-- The device settles and runs on for a while (ms). -/
def run (d : Device) (ms : Nat) : Device := d.settle.pass ms

/-- A power cycle. -/
def restart (d : Device) : Device := boot d.roles d.board 0 d.journal

/-- Writes on their way to flash, without the one that the flash writer holds. -/
def pendingWrites (d : Device) : Nat := d.store.elim 0 Store.waiting

end Device

end BatteryCare
