import BatteryCare.Proofs.Device.Turns

/-!
# A device at rest

Dispatcher and flash writer have nothing to do where nothing waits for them, and the monitor has
nothing to do until its next tick. Between two ticks only the clock goes on (`AtRest.pass_eq`), so
what happens in a second is what happens at its tick.
-/

namespace BatteryCare

/-- When the next tick is due. -/
def Monitor.due? : Monitor → Option Nat
  | waiting _ _ due _ => some due
  | starting | awaitingImage => none

/-! ## Nothing to take -/

theorem Fifo.clear_of_empty {α : Type} {q : Fifo α} (h : q.toList = []) : q.clear = q := by
  obtain ⟨capacity, items, hle⟩ := q
  cases h
  rfl

/-- With nothing to write, the flash writer waits. -/
theorem FlashWriter.poll_of_none {flash : Flash} {store : Option Store}
    (h : ∀ s, store = some s → s.waiting = 0) :
    idle.poll flash store = { writer := idle, flash, store } := by
  have hleft : idle.stepsLeft store = 0 := by
    cases store with
    | none => rfl
    | some s => rw [stepsLeft, Option.elim_some, h s rfl]
  rw [poll, hleft, goOn]

namespace Device

theorem turn_dispatcher_of_empty {d : Device} (h : d.events.toList = []) :
    d.turn .dispatcher = d := by
  rcases turn_eq_or d .dispatcher with heq | heq
  · rw [heq, poll, pollDispatcher_eq, h, Fifo.clear_of_empty h]
    rfl
  · exact heq

theorem turn_flashWriter_of_idle {d : Device} (hidle : d.flashWriter = .idle)
    (hpending : d.pendingWrites = 0) : d.turn .flashWriter = d := by
  have hpoll : d.flashWriter.poll d.board.flash d.store
      = { writer := d.flashWriter, flash := d.board.flash, store := d.store } := by
    rw [hidle]
    refine FlashWriter.poll_of_none fun s hs => ?_
    rw [pendingWrites, hs] at hpending
    exact hpending
  rcases turn_eq_or d .flashWriter with heq | heq
  · rw [heq, poll, pollFlashWriter, hpoll]
    rfl
  · exact heq

/-! ## Rest -/

/-- Nothing is left to do before the tick that is due at `due`. -/
structure AtRest (d : Device) (due : Nat) : Prop where
  lamp : .lamp ∉ d.roles
  button : .button ∉ d.roles
  events : d.events.toList = []
  idle : d.flashWriter = .idle
  pending : d.pendingWrites = 0
  tick : d.monitor.due? = some due

variable {d : Device} {due : Nat}

instance (d : Device) (due : Nat) : Decidable (AtRest d due) :=
  decidable_of_iff (.lamp ∉ d.roles ∧ .button ∉ d.roles ∧ d.events.toList = []
      ∧ d.flashWriter = .idle ∧ d.pendingWrites = 0 ∧ d.monitor.due? = some due)
    ⟨fun ⟨h1, h2, h3, h4, h5, h6⟩ => ⟨h1, h2, h3, h4, h5, h6⟩,
      fun h => ⟨h.lamp, h.button, h.events, h.idle, h.pending, h.tick⟩⟩

theorem AtRest.turn_dispatcher (h : AtRest d due) : d.turn .dispatcher = d :=
  turn_dispatcher_of_empty h.events

theorem AtRest.turn_flashWriter (h : AtRest d due) : d.turn .flashWriter = d :=
  turn_flashWriter_of_idle h.idle h.pending

theorem AtRest.tickAhead (h : AtRest d due) (hlt : d.clock < due) : TickAhead d := by
  have htick := h.tick
  cases hmonitor : d.monitor with
  | starting => exact absurd (hmonitor ▸ htick) (by simp [Monitor.due?])
  | awaitingImage => exact absurd (hmonitor ▸ htick) (by simp [Monitor.due?])
  | waiting v told due' window =>
    rw [hmonitor] at htick
    cases htick
    exact ⟨v, told, due, window, hmonitor, hlt⟩

/-- A device at rest is settled. -/
theorem AtRest.settle_eq (h : AtRest d due) (hlt : d.clock < due) : d.settle = d := by
  have hround : d.round = d := by
    rw [round, h.turn_dispatcher, h.turn_flashWriter, (h.tickAhead hlt).turn_monitor,
      turn_of_not_mem h.lamp, turn_of_not_mem h.button]
  rw [settle, hround, hround]

theorem AtRest.wait (h : AtRest d due) (ms : Nat) :
    AtRest { d with clock := d.clock + ms } due :=
  ⟨h.lamp, h.button, h.events, h.idle, h.pending, h.tick⟩

/-- **A device at rest lets time pass until its next tick.** -/
theorem AtRest.pass_eq (h : AtRest d due) {ms : Nat} (hlt : d.clock + ms < due) :
    d.pass ms = { d with clock := d.clock + ms } := by
  induction ms generalizing d with
  | zero => rfl
  | succ ms ih =>
    have hnext : AtRest { d with clock := d.clock + 1 } due := h.wait 1
    rw [pass_succ, advance_eq, hnext.settle_eq (by show d.clock + 1 < due; omega),
      ih hnext (by show d.clock + 1 + ms < due; omega)]
    simp only [Nat.add_assoc, Nat.add_comm 1 ms]

/-- The next thing to happen to a device at rest is its tick. -/
theorem AtRest.pass_tick (h : AtRest d due) (hlt : d.clock < due) (ms : Nat) :
    d.pass (due - d.clock + ms) = ({ d with clock := due } : Device).settle.pass ms := by
  obtain ⟨before, hbefore⟩ : ∃ before, due = d.clock + before + 1 := ⟨due - d.clock - 1, by omega⟩
  have hms : due - d.clock + ms = before + (ms + 1) := by omega
  rw [hms, pass_add, h.pass_eq (by omega), pass_succ, advance_eq, hbefore]

/-- **A run over one tick** is that tick with time before and after it. -/
theorem run_tick {d : Device} {due due' total : Nat} (h : AtRest d.settle due)
    (hlt : d.settle.clock < due)
    (h' : AtRest ({ d.settle with clock := due } : Device).settle due') (ms : Nat)
    (htotal : total = due - d.settle.clock + ms) (hms : due + ms < due') :
    d.run total
      = { ({ d.settle with clock := due } : Device).settle with clock := due + ms } := by
  have hclock : ({ d.settle with clock := due } : Device).settle.clock = due := by
    rw [settle, round_clock, round_clock]
  rw [run, htotal, h.pass_tick hlt, h'.pass_eq (by rw [hclock]; exact hms), hclock]

end Device

end BatteryCare
