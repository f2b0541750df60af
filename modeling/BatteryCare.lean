import BatteryCare.Device.Action
import BatteryCare.Pack.Readings
import BatteryCare.Supervisor
import BatteryCare.Proofs.Charger.Moves
import BatteryCare.Proofs.Charger.CallLog
import BatteryCare.Proofs.Charger.Recall
import BatteryCare.Proofs.Device.Turns
import BatteryCare.Proofs.Device.FailSafe
import BatteryCare.Proofs.Store.Writes
import BatteryCare.Proofs.Device.Persistence
import BatteryCare.Proofs.Device.Rest
import BatteryCare.Proofs.Gauge.Restart
import BatteryCare.Proofs.Gauge.Torn
import BatteryCare.Proofs.Store.Handover
import BatteryCare.Proofs.Device.ModePin
import BatteryCare.Proofs.Supervisor.Rejected
import BatteryCare.Proofs.Device.Provenance
import BatteryCare.Proofs.Alarm.History
import BatteryCare.Proofs.Supervisor.Alerts
import BatteryCare.Proofs.Device.Sleep
import BatteryCare.Proofs.Device.Steps
import BatteryCare.Proofs.Device.Moments
import BatteryCare.Proofs.Device.Grace
import BatteryCare.Proofs.Button.Phases
import BatteryCare.Proofs.Device.Serving
import BatteryCare.Proofs.Device.Presses
import BatteryCare.Proofs.Device.Settled
import BatteryCare.Proofs.Device.Delivery
import BatteryCare.Proofs.Device.Timetable
import BatteryCare.Proofs.Device.Blind
import BatteryCare.Proofs.Device.ChargerView
import BatteryCare.Proofs.Device.Isolation
import BatteryCare.Proofs.Device.Indicator
import BatteryCare.Proofs.Gauge.CatchingUp
import BatteryCare.Proofs.Gauge.Range
import BatteryCare.Proofs.Gauge.Wear
import BatteryCare.Proofs.Charger.Counters
import BatteryCare.Proofs.Lamp.Pwm
import BatteryCare.Proofs.Pack.Rising
