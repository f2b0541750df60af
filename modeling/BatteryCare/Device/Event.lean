import BatteryCare.Alarm
import BatteryCare.Fifo
import BatteryCare.Report

/-!
# Events

What the parts of the device tell its dispatcher.
-/

namespace BatteryCare

/-- An event of the device. -/
inductive Event where
  /-- A control tick is done. -/
  | measured (report : Report)
  /-- A charge cycle ended on a full pack. -/
  | fullyCharged
  /-- The battery fell to a low-battery threshold. -/
  | lowBattery (level : AlertLevel)
  /-- A power state is asked for. -/
  | powerSet (power : PowerState)
  /-- A charge type is asked for. -/
  | chargeTypeSet (chargeType : ChargeType)
  deriving DecidableEq, Repr

/-- Events that can wait for the dispatcher. -/
def eventCapacity : Nat := 10

/-- The queue of events on a fresh device. -/
def noEvents : Fifo Event := .empty eventCapacity

end BatteryCare
