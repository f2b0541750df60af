import BatteryCare.Charger.Basic

/-!
# Battery report

The outcome of one control tick, as it is told to the rest of the device and to the companion
computer.
-/

namespace BatteryCare

/-- The outcome of one control tick. -/
structure Report where
  /-- Battery level in percent, `0` while unknown. -/
  percent : UInt8
  status : ChargerStatus
  /-- The mode of the sample that the tick ran on. -/
  mode : ChargeMode
  /-- The voltage sample (mV), unless it was rejected. -/
  voltage : Option UInt16
  deriving DecidableEq, Repr

/-- The code told to the companion computer: `1` while charging, `2` for a full battery that is not
charging, else `0`. -/
def chargingCode (status : ChargerStatus) (percent : UInt8) : UInt8 :=
  if status = .active then 1 else if 100 ≤ percent then 2 else 0

end BatteryCare
