/-!
# Words of the charger

What the charger is told, what it is asked and what it can be: the charge modes, a sample of the
sensors, the three states, the calls to the charger circuit, and the thresholds.
-/

namespace BatteryCare

/-- Termination target of a charge cycle. -/
inductive ChargeMode where
  /-- Up to the full termination voltage. -/
  | fast
  /-- Up to a reduced termination voltage, which wears the cells less. -/
  | friendly
  deriving DecidableEq, Repr

namespace ChargeMode

/-- The name shown for a mode. -/
def name : ChargeMode → String
  | fast => "Fast"
  | friendly => "Friendly"

/-- The mode that spares the battery if that is wanted, else the fast one. -/
def ofFriendly (wanted : Bool) : ChargeMode := if wanted then friendly else fast

end ChargeMode

/-- Charge type selected by the user for the next charge cycle. -/
inductive ChargeType where
  | fastCharge
  | batteryFriendly
  deriving DecidableEq, Repr

namespace ChargeType

/-- The name shown for a type. -/
def name : ChargeType → String
  | fastCharge => "FastCharge"
  | batteryFriendly => "BatteryFriendly"

def isFriendly : ChargeType → Bool
  | fastCharge => false
  | batteryFriendly => true

/-- The mode in which a cycle of this type charges. -/
def mode : ChargeType → ChargeMode
  | fastCharge => .fast
  | batteryFriendly => .friendly

/-- The type that holding the power button switches to. -/
def toggled : ChargeType → ChargeType
  | fastCharge => batteryFriendly
  | batteryFriendly => fastCharge

end ChargeType

/-- State of the charger. -/
inductive ChargerStatus where
  /-- No supply is plugged in, or the state is unknown after boot. -/
  | notConnected
  /-- The supply is plugged in and the battery is not charging. -/
  | inactive
  /-- The battery is charging. -/
  | active
  deriving DecidableEq, Repr

/-- The name shown for a status. -/
def ChargerStatus.name : ChargerStatus → String
  | notConnected => "NotConnected"
  | inactive => "Inactive"
  | active => "Active"

/-- What the sensors say in one control tick. The default is the safe one: nothing plugged in,
charging not allowed. -/
structure Sample where
  /-- Battery terminal voltage (mV). -/
  voltage : UInt16 := 0
  /-- Current into the battery (mA). -/
  current : Int16 := 0
  /-- The battery temperature lies inside the charging window. -/
  thermalAllowed : Bool := false
  /-- The charger supply is plugged in. -/
  plugged : Bool := false
  /-- The mode that a cycle started now would use. -/
  mode : ChargeMode := .fast
  deriving DecidableEq, Repr

/-- A call to the charger circuit. -/
inductive CircuitCall where
  /-- Start charging towards the termination voltage of `mode`. -/
  | enable (mode : ChargeMode)
  /-- Stop charging. -/
  | disable
  /-- Tell that a cycle ended on a full pack. -/
  | fullCharge
  deriving DecidableEq, Repr

/-- Thresholds of the charger. -/
structure ChargerConfig where
  /-- Consecutive qualifying ticks before a charge cycle starts or ends on a full pack. -/
  debounceTicks : UInt8 := 2
  /-- A fast cycle terminates at or above this voltage (mV). -/
  fastTermination : UInt16 := 8350
  /-- A friendly cycle terminates at or above this voltage (mV). -/
  friendlyTermination : UInt16 := 8100
  /-- A cycle of either mode starts only below this voltage (mV). -/
  recharge : UInt16 := 8050
  /-- Where set, a cycle terminates only once the current has fallen to this value (mA). -/
  taper : Option Int16 := none
  /-- A voltage below this is a sensor fault and never allows charging (mV). -/
  minVoltage : UInt16 := 1000
  deriving DecidableEq, Repr

/-- Termination voltage of a mode (mV). -/
def ChargerConfig.termination (c : ChargerConfig) : ChargeMode → UInt16
  | .fast => c.fastTermination
  | .friendly => c.friendlyTermination

end BatteryCare
