/-!
# Debounce counters

A counter of consecutive ticks on which a condition held. A transition that waits for several such
ticks commits once the count reaches the required number, and a tick without the condition starts
over.

The count is a byte and saturates. `qualify?` is the checked form, which refuses to count past the
last value; a counter that is reset whenever it commits never comes that far.
-/

namespace BatteryCare

/-- Consecutive ticks on which the condition of one pending transition held. -/
structure Debounce where
  count : UInt8 := 0
  deriving DecidableEq, Repr

/-- Why a tick was not counted. -/
inductive DebounceError where
  /-- The count has no next value. -/
  | overflow
  deriving DecidableEq, Repr

/-- The wording of a refusal. -/
def DebounceError.message : DebounceError → String
  | overflow => "debounce counter overflow"

namespace Debounce

/-- The largest count. -/
def limit : UInt8 := 255

/-- Counts one tick. Says whether the condition has held for `required` consecutive ticks. -/
def qualify (d : Debounce) (condition : Bool) (required : UInt8) : Debounce × Bool :=
  if condition then
    let count := if d.count < limit then d.count + 1 else limit
    (⟨count⟩, required ≤ count)
  else ({}, false)

/-- `qualify`, refused where the condition holds and the count is at its last value. -/
def qualify? (d : Debounce) (condition : Bool) (required : UInt8) :
    Except DebounceError (Debounce × Bool) :=
  if condition && d.count == limit then .error .overflow
  else .ok (d.qualify condition required)

end Debounce

end BatteryCare
