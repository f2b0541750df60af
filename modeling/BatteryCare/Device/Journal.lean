import BatteryCare.Device.Board
import BatteryCare.Device.Event
import BatteryCare.Device.Lamp

/-!
# Journal

What a device has done, entry by entry. The charger pins and the lights can be seen from outside;
the other entries record what the parts of the device told each other.
-/

namespace BatteryCare

/-- A control tick as the journal keeps it. -/
structure TickRecord where
  readings : Readings
  /-- The charge current that it was fed (mA). -/
  current : Int16
  /-- Charge type in the status. -/
  chargeType : ChargeType
  report : Report
  calls : List CircuitCall
  alerts : List AlertLevel
  attempts : List WriteAttempt
  deriving DecidableEq

/-- One thing that a device did. -/
inductive Entry where
  /-- It was switched on. -/
  | booted
  /-- The enable pin of the charger circuit was set. -/
  | enablePin (high : Bool)
  /-- The mode pin of the charger circuit was set; high selects the friendly mode. -/
  | modePin (high : Bool)
  | lamp (output : LampOutput)
  /-- The image of the word store was loaded from flash. -/
  | loaded (image : List UInt16)
  /-- A control tick ran. -/
  | ticked (tick : TickRecord)
  /-- An event was sent; it is lost where the queue had no room. -/
  | sent (event : Event) (queued : Bool)
  /-- The dispatcher took an event. -/
  | handled (event : Event)
  /-- A write to flash came to its end. -/
  | committed (write : WordWrite) (stored : Bool)
  /-- The lamp took an alert. -/
  | shown (level : AlertLevel)
  deriving DecidableEq

/-- Whether an entry can be seen from outside. -/
def Entry.isVisible : Entry → Bool
  | enablePin _ | modePin _ | lamp _ => true
  | _ => false

/-- An entry with the clock (ms) at which it was made. -/
structure Stamped where
  time : Nat
  entry : Entry
  deriving DecidableEq

end BatteryCare
