import BatteryCare.Proofs.Device.Turns
import Mathlib.Data.List.Basic

/-!
# Reading the journal

A journal is read for one kind of entry at a time, with the times at which they were made
(`timed`). Each kind is made by few parts of a device (`Entry.IsOf`), and a part adds to the journal
in its turn and changes nothing that is written already (`noted_turn`).
-/

namespace BatteryCare

/-! ## Kinds of entries -/

instance : DecidablePred Event.IsWish := fun event =>
  match event with
  | .powerSet _ | .chargeTypeSet _ => isTrue trivial
  | .measured _ | .lowBattery _ | .fullyCharged => isFalse id

def Entry.sent? : Entry → Option Event
  | .sent event _ => some event
  | _ => none

def Entry.handled? : Entry → Option Event
  | .handled event => some event
  | _ => none

def Entry.ticked? : Entry → Option TickRecord
  | .ticked tick => some tick
  | _ => none

/-- The entries of one kind in a part of a journal, with their times. -/
def timed {α : Type} (f : Entry → Option α) (log : List Stamped) : List (Nat × α) :=
  log.filterMap fun s => (f s.entry).map (s.time, ·)

section Timed

variable {α : Type} (f : Entry → Option α)

theorem timed_append (xs ys : List Stamped) : timed f (xs ++ ys) = timed f xs ++ timed f ys :=
  List.filterMap_append

/-- Entries noted at one instant have its time. -/
theorem timed_stamped (entries : List Entry) (now : Nat) :
    timed f (entries.map (Stamped.mk now)) = (entries.filterMap f).map (now, ·) := by
  rw [timed, List.filterMap_map, List.map_filterMap]
  rfl

end Timed

/-- What is left of the entries of a journal. -/
def keepEntries (f : Entry → Option Entry) (journal : List Stamped) : List Stamped :=
  journal.filterMap fun s => (f s.entry).map (Stamped.mk s.time)

theorem keepEntries_note (f : Entry → Option Entry) (entries : List Entry) (now : Nat)
    (journal : List Stamped) :
    keepEntries f ((entries.map (Stamped.mk now)).reverse ++ journal)
      = ((entries.filterMap f).map (Stamped.mk now)).reverse ++ keepEntries f journal := by
  rw [keepEntries, List.filterMap_append, List.filterMap_reverse, List.filterMap_map,
    List.map_filterMap]
  rfl

/-- What is kept once stays as it is. -/
theorem keepEntries_idem {f : Entry → Option Entry} (h : ∀ e e', f e = some e' → f e' = some e')
    (journal : List Stamped) : keepEntries f (keepEntries f journal) = keepEntries f journal := by
  rw [keepEntries, keepEntries, List.filterMap_filterMap]
  refine List.filterMap_congr fun s _ => ?_
  cases hf : f s.entry with
  | none => rfl
  | some e' => simp [h _ _ hf]

theorem filterMap_eq_self {f : Entry → Option Entry} {entries : List Entry}
    (h : ∀ e ∈ entries, f e = some e) : entries.filterMap f = entries :=
  (List.filterMap_congr h).trans List.filterMap_some

/-- The part of a device makes such entries. -/
def Entry.IsOf (r : Role) : Entry → Prop
  | .booted => False
  | .handled _ => r = .dispatcher
  | .loaded _ | .committed _ _ => r = .flashWriter
  | .enablePin _ | .modePin _ | .ticked _ => r = .monitor
  | .shown _ | .lamp _ => r = .lamp
  | .sent _ _ => r = .monitor ∨ r = .button

theorem Entry.IsOf.ticked?_eq_none {r : Role} {e : Entry} (h : e.IsOf r) (hr : r ≠ .monitor) :
    e.ticked? = none := by
  cases e with
  | ticked _ => exact absurd h hr
  | booted | handled _ | loaded _ | committed _ _ | enablePin _ | modePin _ | shown _ | lamp _
  | sent _ _ => rfl

theorem FlashWriter.IsEntry.isOf {e : Entry} (h : IsEntry e) : e.IsOf .flashWriter := by
  cases e with
  | loaded _ | committed _ _ => rfl
  | booted | enablePin _ | modePin _ | lamp _ | ticked _ | sent _ _ | handled _ | shown _ =>
    exact h.elim

namespace Monitor

/-- What the calls of a tick do to the pins. -/
theorem mem_pins {calls : List CircuitCall} {e : Entry} (h : e ∈ calls.flatMap pins) :
    ∃ high, e = .enablePin high ∨ e = .modePin high := by
  obtain ⟨call, -, h⟩ := List.mem_flatMap.mp h
  cases call with
  | enable mode =>
    simp only [pins, List.mem_cons, List.not_mem_nil, or_false] at h
    rcases h with rfl | rfl
    · exact ⟨_, .inr rfl⟩
    · exact ⟨_, .inl rfl⟩
  | disable => exact ⟨_, .inl (List.mem_singleton.mp h)⟩
  | fullCharge => exact absurd h List.not_mem_nil

/-- A tick notes itself, what it does to the pins and what it sends. -/
theorem tick_entries (now : Nat) (sensed : Sensed) (status : Status) (store : Store)
    (events : Fifo Event) (v : Supervisor) (told : PowerState) :
    (tick now sensed status store events v told).entries
      = .ticked (recordOf sensed status (outcome now sensed status store v told))
        :: ((outcome now sensed status store v told).calls.flatMap pins
          ++ (sendAll events (eventsOf (outcome now sensed status store v told))).2) := rfl

/-- A tick is noted once. -/
theorem ticked_tick (now : Nat) (sensed : Sensed) (status : Status)
    (store : Store) (events : Fifo Event) (v : Supervisor) (told : PowerState) :
    (tick now sensed status store events v told).entries.filterMap Entry.ticked?
      = [recordOf sensed status (outcome now sensed status store v told)] := by
  have hrest : ∀ e ∈ (outcome now sensed status store v told).calls.flatMap pins
      ++ (sendAll events (eventsOf (outcome now sensed status store v told))).2,
      e.ticked? = none := by
    intro e he
    rcases List.mem_append.mp he with he | he
    · obtain ⟨high, rfl | rfl⟩ := mem_pins he
      · rfl
      · rfl
    · obtain ⟨event, -, queued, rfl⟩ := eq_sent_of_mem_sendAll he
      rfl
  rw [tick_entries, List.filterMap_cons, List.filterMap_eq_nil_iff.mpr hrest]
  rfl

theorem isOf_of_mem_tick {now : Nat} {sensed : Sensed} {status : Status} {store : Store}
    {events : Fifo Event} {v : Supervisor} {told : PowerState} {e : Entry}
    (h : e ∈ (tick now sensed status store events v told).entries) : e.IsOf .monitor := by
  rw [tick_entries] at h
  rcases List.mem_cons.mp h with rfl | h
  · rfl
  · rcases List.mem_append.mp h with h | h
    · obtain ⟨high, rfl | rfl⟩ := mem_pins h
      · rfl
      · rfl
    · obtain ⟨event, -, queued, rfl⟩ := eq_sent_of_mem_sendAll h
      exact .inl rfl

theorem isOf_of_mem_poll {now : Nat} {board : Board} {status : Status} {store : Option Store}
    {events : Fifo Event} {monitor : Monitor} {e : Entry}
    (h : e ∈ (poll now board status store events monitor).entries) : e.IsOf .monitor := by
  have hmove := poll_move now board status store events monitor
  generalize poll now board status store events monitor = turn at hmove h
  cases hmove with
  | start =>
    simp only [List.mem_cons, List.not_mem_nil, or_false] at h
    rcases h with rfl | rfl
    · rfl
    · rfl
  | await => exact absurd h List.not_mem_nil
  | tick v told due window s hs hdue => exact isOf_of_mem_tick h
  | wait v told due window hwait => exact absurd h List.not_mem_nil

end Monitor

/-! ## Additions to the journal -/

namespace Device

/-- While the clock stands still, the entries are added to the journal. -/
structure Noted (d d' : Device) (entries : List Entry) : Prop where
  journal : d'.journal = (entries.map (Stamped.mk d.clock)).reverse ++ d.journal
  clock : d'.clock = d.clock

variable {d d' d'' : Device} {xs ys : List Entry}

theorem Noted.refl (d : Device) : Noted d d [] := ⟨rfl, rfl⟩

theorem Noted.trans (h : Noted d d' xs) (h' : Noted d' d'' ys) : Noted d d'' (xs ++ ys) where
  journal := by
    rw [h'.journal, h.journal, h.clock, List.map_append, List.reverse_append, List.append_assoc]
  clock := h'.clock.trans h.clock

/-- **A part adds its own entries** in its turn. -/
theorem noted_turn (d : Device) (r : Role) :
    ∃ entries, Noted d (d.turn r) entries ∧ ∀ e ∈ entries, e.IsOf r := by
  rcases turn_eq_or d r with heq | heq
  · rw [heq]
    cases r with
    | dispatcher =>
      refine ⟨d.events.toList.map .handled, ⟨by rw [poll, pollDispatcher_eq]; rfl,
        by rw [poll, pollDispatcher_eq]; rfl⟩, fun e he => ?_⟩
      obtain ⟨event, -, rfl⟩ := List.mem_map.mp he
      rfl
    | flashWriter =>
      exact ⟨(d.flashWriter.poll d.board.flash d.store).entries, ⟨rfl, rfl⟩,
        fun e he => (FlashWriter.isEntry_poll _ _ _ e he).isOf⟩
    | monitor => exact ⟨_, ⟨rfl, rfl⟩, fun e he => Monitor.isOf_of_mem_poll he⟩
    | lamp =>
      refine ⟨_, ⟨rfl, rfl⟩, fun e he => ?_⟩
      rcases List.mem_append.mp he with he | he
      · obtain ⟨level, -, rfl⟩ := List.mem_map.mp he
        rfl
      · obtain ⟨output, -, rfl⟩ := List.mem_map.mp he
        rfl
    | button =>
      refine ⟨_, ⟨rfl, rfl⟩, fun e he => ?_⟩
      obtain ⟨event, -, rfl⟩ := List.mem_map.mp he
      exact .inr rfl
  · rw [heq]
    exact ⟨[], .refl d, fun _ he => absurd he List.not_mem_nil⟩

end Device

end BatteryCare
