import BatteryCare.Number.Exponential

/-!
# Discharge curve of the pack

The charge of the two-cell pack as a function of its terminal voltage. In the middle of the curve
the cells sit on a plateau, so the curve is a calibration table with straight lines between its
points. Below the first point, the knee, the charge decays exponentially; from the last point on
the pack is full.

Charge is counted in the units of the calibration, `fullCharge` of them in a full pack.
-/

namespace BatteryCare

/-- Charge of a full pack. -/
def fullCharge : Single := 17640

/-- Below this voltage (mV) the pack is on the exponential tail. -/
def kneeVoltage : UInt16 := 6350

/-- From this voltage (mV) on the pack is full. -/
def fullVoltage : UInt16 := 8400

/-- Charge at the knee. -/
def kneeCharge : Single := 997.396973

/-- Decay of the tail for each millivolt below the knee. -/
def tailDecay : Single := 0.039960194

/-- A measured point of the discharge curve. -/
structure CalibrationPoint where
  /-- Terminal voltage (mV). -/
  voltage : UInt16
  charge : Single

/-- The calibration, rising in both columns. -/
def calibration : List CalibrationPoint :=
  [⟨kneeVoltage, kneeCharge⟩,
   ⟨6500, 1650⟩,
   ⟨6700, 2800⟩,
   ⟨6900, 4300⟩,
   ⟨7100, 6350⟩,
   ⟨7300, 9100⟩,
   ⟨7500, 11900⟩,
   ⟨7650, 13600⟩,
   ⟨7752, 14593.574⟩,
   ⟨7900, 15650⟩,
   ⟨8050, 16500⟩,
   ⟨8200, 17120⟩,
   ⟨fullVoltage, fullCharge⟩]

/-- The charge on the straight line from `a` to `b`. -/
def chargeBetween (a b : CalibrationPoint) (voltage : UInt16) : Single :=
  let share := Single.ofNat (voltage - a.voltage).toNat / Single.ofNat (b.voltage - a.voltage).toNat
  a.charge + share * (b.charge - a.charge)

/-- The charge on the first line of the table that ends above `voltage`; past the table, a full
pack. -/
def chargeAlong (voltage : UInt16) : List CalibrationPoint → Single
  | a :: b :: rest =>
    if voltage < b.voltage then chargeBetween a b voltage else chargeAlong voltage (b :: rest)
  | _ => fullCharge

/-- The charge on the tail, `below` millivolts under the knee. -/
def tailCharge (below : Nat) : Single :=
  kneeCharge * (-(Single.ofNat below * tailDecay)).expOfNonpos

/-- The charge in the pack at a terminal voltage (mV). -/
def chargeOf (voltage : UInt16) : Single :=
  if voltage < kneeVoltage then tailCharge (kneeVoltage - voltage).toNat
  else chargeAlong voltage calibration

/-- A charge in whole percent of a full pack, held within `0` and `100`. -/
def percentOf (charge : Single) : UInt8 :=
  UInt8.ofNat ((charge / fullCharge * 100).round.toNatUpTo 100)

end BatteryCare
