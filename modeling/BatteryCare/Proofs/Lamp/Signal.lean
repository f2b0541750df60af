import BatteryCare.Proofs.Alarm.Memory
import BatteryCare.Proofs.Device.Turns

/-!
# The alert that waits for the lamp

One alert at most waits for the lamp: a later one replaces it, and the lamp takes it when it has
time. So of what is raised nothing gets lost unseen (`Accounted`): the next thing that happens after
an alert is raised is that the lamp takes it or that another one takes its place, and if nothing
happens, it waits. And the lamp takes nothing but what was raised last.
-/

namespace BatteryCare

/-- What happens to the alert that waits. -/
inductive SignalMove where
  /-- It is set to this level, be it that none waited or another one. -/
  | raised (level : AlertLevel)
  /-- The lamp takes it. -/
  | taken (level : AlertLevel)
  deriving DecidableEq

def SignalMove.taken? : SignalMove → Option AlertLevel
  | raised _ => none
  | taken level => some level

/-- The alerts that the lamp took, with the times at which it did. -/
def takesOf (moves : List (Nat × SignalMove)) : List (Nat × AlertLevel) :=
  moves.filterMap fun m => m.2.taken?.map (m.1, ·)

/-- Every alert of a history is accounted for once. -/
structure Accounted (moves : List (Nat × SignalMove)) (waiting : Option AlertLevel) : Prop where
  /-- It waits, the lamp took it, or another one took its place. -/
  raised : ∀ before time level after, moves = before ++ (time, .raised level) :: after →
    after = [] ∧ waiting = some level
      ∨ (∃ later rest, after = (later, .taken level) :: rest)
      ∨ ∃ later next rest, after = (later, .raised next) :: rest
  /-- What the lamp took was raised right before. -/
  taken : ∀ before time level after, moves = before ++ (time, .taken level) :: after →
    ∃ rest earlier, before = rest ++ [(earlier, .raised level)]
  /-- So was what waits. -/
  waiting : ∀ level, waiting = some level →
    ∃ rest earlier, moves = rest ++ [(earlier, .raised level)]

theorem takesOf_append (xs ys : List (Nat × SignalMove)) :
    takesOf (xs ++ ys) = takesOf xs ++ takesOf ys :=
  List.filterMap_append

section Accounted

variable {moves : List (Nat × SignalMove)} {waiting : Option AlertLevel} {level : AlertLevel}

theorem accounted_nil : Accounted [] none where
  raised := fun before _ _ _ h => absurd h.symm (by simp)
  taken := fun before _ _ _ h => absurd h.symm (by simp)
  waiting := fun _ h => absurd h (by simp)

/-- A raised alert takes the place of the one that waits. -/
theorem Accounted.raise (h : Accounted moves waiting) (now : Nat) (level : AlertLevel) :
    Accounted (moves ++ [(now, .raised level)]) (some level) where
  raised := by
    intro before time old after hsplit
    obtain ⟨rfl, -, heq⟩ | ⟨rest, rfl, hmoves⟩ := split_concat hsplit
    · cases heq
      exact .inl ⟨rfl, rfl⟩
    · -- the one that stood last is replaced, and all others stay as they are
      obtain ⟨rfl, -⟩ | ⟨later, rest', rfl⟩ | ⟨later, next, rest', rfl⟩ :=
        h.raised before time old rest hmoves
      · exact .inr (.inr ⟨now, level, [], rfl⟩)
      · exact .inr (.inl ⟨later, _, rfl⟩)
      · exact .inr (.inr ⟨later, next, _, rfl⟩)
  taken := by
    intro before time old after hsplit
    obtain ⟨-, -, heq⟩ | ⟨rest, -, hmoves⟩ := split_concat hsplit
    · cases heq
    · exact h.taken before time old rest hmoves
  waiting := by
    intro next heq
    cases heq
    exact ⟨moves, now, rfl⟩

/-- The lamp takes the alert that waits, and none waits any more. -/
theorem Accounted.take (h : Accounted moves (some level)) (now : Nat) :
    Accounted (moves ++ [(now, .taken level)]) none where
  raised := by
    intro before time old after hsplit
    obtain ⟨-, -, heq⟩ | ⟨rest, rfl, hmoves⟩ := split_concat hsplit
    · cases heq
    · obtain ⟨rfl, heq⟩ | ⟨later, rest', rfl⟩ | ⟨later, next, rest', rfl⟩ :=
        h.raised before time old rest hmoves
      · cases heq
        exact .inr (.inl ⟨now, [], rfl⟩)
      · exact .inr (.inl ⟨later, _, rfl⟩)
      · exact .inr (.inr ⟨later, next, _, rfl⟩)
  taken := by
    intro before time old after hsplit
    obtain ⟨-, rfl, heq⟩ | ⟨rest, -, hmoves⟩ := split_concat hsplit
    · cases heq
      exact h.waiting level rfl
    · exact h.taken before time old rest hmoves
  waiting := fun _ h => absurd h (by simp)

def Event.signalMove? : Event → Option SignalMove
  | .lowBattery level => some (.raised level)
  | .measured _ | .powerSet _ | .chargeTypeSet _ | .fullyCharged => none

/-- The lamp may take the alert that waits, and takes no other. -/
theorem Accounted.poll {taken : Option AlertLevel} (h : Accounted moves waiting) (now : Nat)
    (htaken : ∀ level, taken = some level → waiting = some level) :
    Accounted (moves ++ (taken.toList.map SignalMove.taken).map (now, ·))
      (if taken.isSome then none else waiting) := by
  cases taken with
  | none =>
    show Accounted (moves ++ []) waiting
    rw [List.append_nil]
    exact h
  | some level =>
    rw [htaken level rfl] at h
    exact h.take now

theorem takesOf_poll (now : Nat) (taken : Option AlertLevel) :
    takesOf ((taken.toList.map SignalMove.taken).map (now, ·)) = taken.toList.map (now, ·) := by
  cases taken with
  | none => rfl
  | some level => rfl

/-- What is heard takes no alert. -/
theorem takesOf_hear (now : Nat) (events : List Event) :
    takesOf ((events.filterMap Event.signalMove?).map (now, ·)) = [] := by
  refine List.filterMap_eq_nil_iff.mpr fun m hm => ?_
  obtain ⟨move, hmove, rfl⟩ := List.mem_map.mp hm
  obtain ⟨event, -, hevent⟩ := List.mem_filterMap.mp hmove
  cases event with
  | lowBattery level =>
    cases hevent
    rfl
  | measured _ | powerSet _ | chargeTypeSet _ | fullyCharged => cases hevent

/-- Each alert among the events that are heard is raised. -/
theorem Accounted.hear (h : Accounted moves waiting) (now : Nat) (events : List Event) :
    Accounted (moves ++ (events.filterMap Event.signalMove?).map (now, ·))
      (events.foldl hearAlert waiting) := by
  induction events generalizing moves waiting with
  | nil =>
    rw [List.filterMap_nil, List.map_nil, List.append_nil]
    exact h
  | cons event rest ih =>
    cases event with
    | lowBattery level =>
      rw [List.filterMap_cons, List.foldl_cons]
      have hnext := ih (h.raise now level)
      rwa [List.append_assoc] at hnext
    | measured _ | powerSet _ | chargeTypeSet _ | fullyCharged => exact ih h

end Accounted

end BatteryCare
