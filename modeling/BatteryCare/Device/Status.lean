import BatteryCare.PowerState
import BatteryCare.Report

/-!
# Device status

What the parts of the device share: the power state and charge type that the user chose, and the
battery values of the last reports.
-/

namespace BatteryCare

/-- The status shared on the device. -/
structure Status where
  power : PowerState := .off
  charger : ChargerStatus := .notConnected
  /-- Charge type asked for. -/
  chargeType : ChargeType := .fastCharge
  /-- Battery level in percent, `0` while unknown. -/
  level : UInt8 := 0
  /-- The last accepted voltage (mV). -/
  voltage : Option UInt16 := none
  deriving DecidableEq, Repr

/-- New values for some of the fields of a status. -/
structure StatusChange where
  power : Option PowerState := none
  charger : Option ChargerStatus := none
  chargeType : Option ChargeType := none
  level : Option UInt8 := none
  voltage : Option UInt16 := none
  deriving DecidableEq, Repr

namespace Status

/-- Takes over the battery values of a report. A report without a voltage keeps the last one. -/
def applyReport (s : Status) (r : Report) : Status :=
  { s with level := r.percent, charger := r.status, voltage := r.voltage <|> s.voltage }

/-- Whether a report shows anything new. -/
def isNews (s : Status) (r : Report) : Bool := s.applyReport r ≠ s

/-- Sets the fields that are given. -/
def change (s : Status) (c : StatusChange) : Status where
  power := c.power.getD s.power
  charger := c.charger.getD s.charger
  chargeType := c.chargeType.getD s.chargeType
  level := c.level.getD s.level
  voltage := c.voltage <|> s.voltage

/-- Forgets the voltage. -/
def clearVoltage (s : Status) : Status := { s with voltage := none }

end Status

end BatteryCare
