import BatteryCare.PowerState
import BatteryCare.Charger.Basic

/-!
# Low-battery alarm

While the speaker is on, one alert is raised when the battery level falls to the low threshold and
one when it falls to the critical threshold. Each is raised at most once per discharge cycle: both
are armed again when charging starts.

No alert is raised while the battery charges, nor within a grace time after power-on, when the first
readings have not settled yet. Times are the low 32 bits of a millisecond clock, and the time since
power-on is their wrapping difference.
-/

namespace BatteryCare

/-- The two low-battery alerts. -/
inductive AlertLevel where
  | low
  | critical
  deriving DecidableEq, Repr

/-- Thresholds of the alarm. -/
structure AlarmConfig where
  /-- The low alert is raised at or below this level (%). -/
  lowThreshold : UInt8 := 10
  /-- The critical alert is raised at or below this level (%). -/
  criticalThreshold : UInt8 := 5
  /-- Time after power-on without alerts (ms). -/
  grace : UInt32 := 5000
  deriving DecidableEq, Repr

/-- What has been raised, and what the alarm knows of power and charger. -/
structure Alarm where
  config : AlarmConfig := {}
  /-- The low alert has been raised in this discharge cycle. -/
  lowRaised : Bool := false
  /-- The critical alert has been raised in this discharge cycle. -/
  criticalRaised : Bool := false
  /-- When the speaker was last switched on (ms). -/
  poweredOnAt : Option UInt32 := none
  power : PowerState := .off
  charger : ChargerStatus := .notConnected
  deriving DecidableEq, Repr

namespace Alarm

/-- Takes note of the power state at an instant. -/
def setPower (a : Alarm) (power : PowerState) (now : UInt32) : Alarm :=
  { a with
    power
    poweredOnAt := if power = .on ∧ a.power ≠ .on then some now else a.poweredOnAt }

/-- Takes note of the charger status. Both alerts are armed again when charging starts. -/
def setCharger (a : Alarm) (charger : ChargerStatus) : Alarm :=
  let starts := charger = .active ∧ a.charger ≠ .active
  { a with
    charger
    lowRaised := if starts then false else a.lowRaised
    criticalRaised := if starts then false else a.criticalRaised }

/-- Whether an alert may be raised at an instant. -/
def isWatching (a : Alarm) (now : UInt32) : Bool :=
  a.power = .on && a.charger ≠ .active &&
    a.poweredOnAt.any fun poweredOn => a.config.grace ≤ now - poweredOn

/-- Checks a battery level (%) taken at an instant. Answers the alerts raised, in order. -/
def check (a : Alarm) (level : UInt8) (now : UInt32) : Alarm × List AlertLevel :=
  if a.isWatching now then
    let low := level ≤ a.config.lowThreshold && !a.lowRaised
    let critical := level ≤ a.config.criticalThreshold && !a.criticalRaised
    ({ a with
        lowRaised := a.lowRaised || low
        criticalRaised := a.criticalRaised || critical },
      (if low then [.low] else []) ++ (if critical then [.critical] else []))
  else (a, [])

end Alarm

end BatteryCare
