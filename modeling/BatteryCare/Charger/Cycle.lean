import BatteryCare.Charger.Basic
import BatteryCare.Charger.Debounce

/-!
# The charge cycle

`Charger.step` decides once per control tick whether the charger circuit runs.

* From `notConnected` the next tick disables the circuit, which may be in any state after boot or a
  replug, and goes to `inactive`.
* From `inactive` an unplugged supply leads back at once. A cycle starts after `debounceTicks`
  consecutive samples that allow it.
* From `active` an unsafe sample stops the circuit on that very tick. A full pack stops it after
  `debounceTicks` consecutive samples, and is then told.

Both counters start over with every change of the status.
-/

namespace BatteryCare

/-- The charger with its pending transitions. -/
structure Charger where
  config : ChargerConfig
  status : ChargerStatus := .notConnected
  /-- Ticks that would start a cycle. -/
  start : Debounce := {}
  /-- Ticks that would end the cycle on a full pack. -/
  full : Debounce := {}
  deriving DecidableEq, Repr

namespace Charger

/-- The sample allows charging at all: temperature and voltage are fine and the supply is there. -/
def isSafe (c : ChargerConfig) (s : Sample) : Bool :=
  s.thermalAllowed && c.minVoltage ≤ s.voltage && s.plugged

/-- The sample allows a new cycle. -/
def mayStart (c : ChargerConfig) (s : Sample) : Bool :=
  isSafe c s && s.voltage < c.recharge

/-- The sample shows a full pack: the termination voltage of its mode is reached and, where that is
asked for, the current has tapered off. -/
def isFull (c : ChargerConfig) (s : Sample) : Bool :=
  c.termination s.mode ≤ s.voltage && c.taper.all (s.current ≤ ·)

/-- The charger in a new status, with both counters at zero. -/
def enter (c : Charger) (status : ChargerStatus) : Charger :=
  { config := c.config, status }

/-- One control tick: the charger after it and the calls to the circuit, in order. -/
def step (c : Charger) (s : Sample) : Charger × List CircuitCall :=
  match c.status with
  | .notConnected => (c.enter .inactive, [.disable])
  | .inactive =>
    if !s.plugged then (c.enter .notConnected, [])
    else
      let (start, commits) := c.start.qualify (mayStart c.config s) c.config.debounceTicks
      if commits then (c.enter .active, [.enable s.mode]) else ({ c with start }, [])
  | .active =>
    if !isSafe c.config s then (c.enter .inactive, [.disable])
    else
      let (full, commits) := c.full.qualify (isFull c.config s) c.config.debounceTicks
      if commits then (c.enter .inactive, [.disable, .fullCharge]) else ({ c with full }, [])

end Charger

end BatteryCare
