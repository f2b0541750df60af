/-!
# Power state of the speaker
-/

namespace BatteryCare

/-- Power states of the speaker. -/
inductive PowerState where
  | off
  /-- The power-up sequence is running. -/
  | preOn
  | on
  /-- The power-down sequence is running. -/
  | preOff
  | transition
  deriving DecidableEq, Repr

namespace PowerState

/-- The name shown for a state. -/
def name : PowerState → String
  | off => "Off"
  | preOn => "PreOn"
  | on => "On"
  | preOff => "PreOff"
  | transition => "Transition"

/-- The state that a short press of the power button asks for. -/
def pressed : PowerState → PowerState
  | off | preOff => on
  | on | preOn | transition => off

end PowerState

end BatteryCare
