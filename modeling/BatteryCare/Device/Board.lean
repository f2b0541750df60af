import BatteryCare.Charger.Basic
import BatteryCare.Device.Flash
import BatteryCare.Pack.Readings

/-!
# Board

The hardware around the device, which keeps its state over a power cycle: input pins, the inputs of
the converter and the flash memory. A converter input either has a raw value or fails.

The charge current goes through a moving median, the other inputs are taken as they are. That filter
comes from a library that is not part of this one, so it is a parameter of the board; what is
assumed of it is that it goes by the latest currents, `filterWindow` of them at most.
-/

namespace BatteryCare

/-- An input pin. -/
structure InputPin where
  high : Bool := false
  /-- How often the level has changed. -/
  changes : Nat := 0
  deriving DecidableEq, Repr

/-- The pin driven to a level. -/
def InputPin.drive (p : InputPin) (high : Bool) : InputPin :=
  if high = p.high then p else ⟨high, p.changes + 1⟩

/-- The hardware. -/
structure Board where
  button : InputPin := {}
  /-- The supply is plugged in. -/
  plugged : Bool := false
  /-- Converter input of the battery voltage. -/
  voltage : Option UInt16 := some 0
  /-- Converter input of the charge current. -/
  current : Option UInt16 := some 0
  /-- Converter input of the thermistor. -/
  thermistor : Option UInt16 := some 0
  /-- What the filter of the charge current makes of the currents in it, the latest first. -/
  filter : List Single → Single := middle
  flash : Flash := {}
  /-- System clock (Hz). -/
  clockHz : Nat := 150000000

/-- Raw readings of one control tick. -/
structure Readings where
  voltage : Option UInt16
  current : Option UInt16
  thermistor : Option UInt16
  plugged : Bool
  deriving DecidableEq, Repr

/-- The readings that the board gives now. -/
def Board.readings (b : Board) : Readings := ⟨b.voltage, b.current, b.thermistor, b.plugged⟩

/-- The window of the filter after these readings. A current that cannot be read is not filtered. -/
def Readings.window (r : Readings) (window : List Single) : List Single :=
  match r.current with
  | none => window
  | some raw => (chargeCurrent raw :: window).take filterWindow

/-- The sample of a control tick that is fed a `current` (mA). A voltage that cannot be read counts
as none at all, and a temperature that cannot be read never allows charging. -/
def Readings.sample (r : Readings) (current : Int16) (mode : ChargeMode) : Sample where
  voltage := r.voltage.elim 0 batteryVoltage
  current := current
  thermalAllowed := r.thermistor.any inChargingWindow
  plugged := r.plugged
  mode := mode

/-- What the monitor has of its sensors in one control tick. -/
structure Sensed where
  readings : Readings
  /-- The window of the filter, with the current of this tick. -/
  window : List Single
  /-- The charge current that the tick is fed (mA). -/
  current : Int16
  deriving DecidableEq

/-- What the sensors give now, with `window` in the filter. A current that cannot be read counts as
none. -/
def Board.sense (b : Board) (window : List Single) : Sensed where
  readings := b.readings
  window := b.readings.window window
  current := if b.current.isSome then (b.filter (b.readings.window window)).toInt16 else 0

def Sensed.sample (s : Sensed) (mode : ChargeMode) : Sample := s.readings.sample s.current mode

end BatteryCare
