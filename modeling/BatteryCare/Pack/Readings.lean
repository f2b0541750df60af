import BatteryCare.Number.Single

/-!
# Readings of the analog front end

What the raw counts of the 12-bit converter mean. The battery voltage reaches it through a 3:1
divider, the charge current through a sense amplifier whose output rests at half the reference, and
the temperature as the reading of a thermistor that falls as the pack gets warmer.
-/

namespace BatteryCare

/-- Reference voltage of the converter (mV). -/
def referenceVoltage : Single := 3300

/-- Counts of the converter over its whole range. -/
def converterRange : Single := 4096

/-- Ratio of the divider between pack and converter. -/
def dividerRatio : Single := 3

/-- Output of the sense amplifier without a current (mV). -/
def senseRest : Single := 1650

/-- Current for each millivolt of the sense amplifier (mA). -/
def senseGain : Single := 2

/-- Thermistor reading at the hot end of the charging window. -/
def hotLimit : UInt16 := 1347

/-- Thermistor reading at the cold end of the charging window. -/
def coldLimit : UInt16 := 3135

/-- Battery voltage of a reading, in whole millivolts. -/
def batteryVoltage (raw : UInt16) : UInt16 :=
  let millivolts := Single.ofNat raw.toNat * referenceVoltage * dividerRatio / converterRange
  UInt16.ofNat (millivolts.toNatUpTo 65535)

/-- Charge current of a reading (mA), negative while the pack discharges. -/
def chargeCurrent (raw : UInt16) : Single :=
  (Single.ofNat raw.toNat * referenceVoltage / converterRange - senseRest) * senseGain

/-- Currents in the window of the filter. -/
def filterWindow : Nat := 5

/-- The middle one of some numbers in the order of their size, the greater of two. -/
def middle (window : List Single) : Single :=
  (window.find? fun x =>
    window.countP (· < x) ≤ window.length / 2 && window.length / 2 < window.countP (· ≤ x)).getD 0

/-- Whether a thermistor reading allows charging. -/
def inChargingWindow (raw : UInt16) : Bool :=
  hotLimit ≤ raw && raw ≤ coldLimit

end BatteryCare
