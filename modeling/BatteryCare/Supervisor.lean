import BatteryCare.Alarm
import BatteryCare.Charger.Cycle
import BatteryCare.Gauge
import BatteryCare.Report

/-!
# Battery supervisor

Gauge, charger and alarm under one control tick. The charger decides from the raw sample and not
from the level. The alarm hears of the charger before it sees the level, and sees no level while
none is known, since an unknown level reads as `0` percent.
-/

namespace BatteryCare

/-- Calibration of the battery subsystem. -/
structure SupervisorConfig where
  gauge : GaugeConfig := {}
  charger : ChargerConfig := {}
  alarm : AlarmConfig := {}
  deriving DecidableEq, Repr

/-- The battery subsystem. -/
structure Supervisor where
  gauge : Gauge
  charger : Charger
  alarm : Alarm

/-- Everything that one control tick leads to. -/
structure Tick where
  supervisor : Supervisor
  store : Store
  report : Report
  /-- Calls to the charger circuit, in order. -/
  calls : List CircuitCall
  /-- Alerts raised, in order. -/
  alerts : List AlertLevel
  /-- Writes tried, in order. -/
  attempts : List WriteAttempt

namespace Supervisor

/-- The subsystem on a store, with the stored estimate. -/
def start (config : SupervisorConfig) (store : Store) : Supervisor where
  gauge := .restore config.gauge store
  charger := { config := config.charger }
  alarm := { config := config.alarm }

/-- Takes note of the power state at an instant (ms). -/
def setPower (v : Supervisor) (power : PowerState) (now : UInt32) : Supervisor :=
  { v with alarm := v.alarm.setPower power now }

/-- One control tick on a sample taken at `now` (ms). -/
def tick (v : Supervisor) (store : Store) (s : Sample) (now : UInt32) : Tick :=
  let accepted := Gauge.isPlausible v.gauge.config s.voltage
  let outcome := v.gauge.update store s.voltage
  let (charger, calls) := v.charger.step s
  let alarm := v.alarm.setCharger charger.status
  let (alarm, alerts) :=
    if outcome.gauge.estimate?.isSome then alarm.check outcome.gauge.percent now else (alarm, [])
  { supervisor := ⟨outcome.gauge, charger, alarm⟩
    store := outcome.store
    report :=
      { percent := outcome.gauge.percent
        status := charger.status
        mode := s.mode
        voltage := if accepted then some s.voltage else none }
    calls
    alerts
    attempts := outcome.attempts }

end Supervisor

end BatteryCare
