import BatteryCare.Proofs.Device.Rest

/-!
# The steps of a device

A run lets every part go on until it has to wait, but the power can fail in the middle of it, when
the flash writer has brought one word of a record to flash and not the next. So a device is taken
here by the smallest steps in which something happens to it (`Step`): a part has its turn, the flash
writer goes one step on, a millisecond passes, something happens from outside, or the power is
cycled. They come in any order, which is more than the parts can do; whatever holds after all series
of steps holds at every instant of a run.

A run is such a series (`leads_run`), and so is a series of actions (`exists_steps_actAll`).
-/

namespace BatteryCare

/-- The action comes from outside: it neither lets time pass nor cycles the power. -/
def Action.IsOutside (a : Action) : Prop := (∀ ms, a ≠ .run ms) ∧ a ≠ .restart

/-- The smallest step in which something happens to a device. -/
inductive Step where
  /-- Another part than the flash writer has its turn, if it runs. -/
  | turn (r : Role) (h : r ≠ .flashWriter)
  /-- The flash writer goes one step on, if it runs and does not have to wait. -/
  | write
  /-- A millisecond passes. -/
  | wait
  /-- Something happens from outside. -/
  | act (a : Action) (h : a.IsOutside)
  /-- The power is cycled. -/
  | restart

namespace Device

/-- The device after a step. -/
def step (d : Device) : Step → Device
  | .turn r _ => d.turn r
  | .write => if .flashWriter ∈ d.roles then d.stepFlashWriter?.getD d else d
  | .wait => { d with clock := d.clock + 1 }
  | .act a _ => (d.act a).1
  | .restart => d.restart

/-- The device after a series of steps. -/
def stepAll (d : Device) (steps : List Step) : Device := steps.foldl step d

theorem stepAll_cons (d : Device) (s : Step) (rest : List Step) :
    d.stepAll (s :: rest) = (d.step s).stepAll rest := rfl

@[simp] theorem stepAll_append (d : Device) (xs ys : List Step) :
    d.stepAll (xs ++ ys) = (d.stepAll xs).stepAll ys :=
  List.foldl_append

theorem stepAll_wait (d : Device) (ms : Nat) :
    d.stepAll (List.replicate ms .wait) = { d with clock := d.clock + ms } := by
  induction ms generalizing d with
  | zero => rfl
  | succ ms ih =>
    rw [List.replicate_succ, stepAll_cons, ih]
    simp only [step, Nat.add_assoc, Nat.add_comm 1 ms]

/-! ## Boots -/

/-- The device at its last boot, if it was booted as `booted` and is `d` before the steps. -/
def bootBefore (booted d : Device) : List Step → Device
  | [] => booted
  | .restart :: rest => bootBefore d.restart d.restart rest
  | s :: rest => bootBefore booted (d.step s) rest

theorem bootBefore_cons_of_ne (booted d : Device) {s : Step} (hs : s ≠ .restart)
    (rest : List Step) : bootBefore booted d (s :: rest) = bootBefore booted (d.step s) rest := by
  cases s with
  | restart => exact absurd rfl hs
  | turn _ _ | write | wait | act _ _ => rfl

theorem bootBefore_append (booted d : Device) {steps : List Step} (h : .restart ∉ steps)
    (more : List Step) :
    bootBefore booted d (steps ++ more) = bootBefore booted (d.stepAll steps) more := by
  induction steps generalizing d with
  | nil => rfl
  | cons s rest ih =>
    rw [List.mem_cons, not_or] at h
    rw [List.cons_append, bootBefore_cons_of_ne booted d (Ne.symm h.1), ih _ h.2, stepAll_cons]

/-- The device at its last boot, if it was booted as `booted` and is `d` before the actions. -/
def lastBoot (booted d : Device) : List Action → Device
  | [] => booted
  | .restart :: rest => lastBoot d.restart d.restart rest
  | a :: rest => lastBoot booted (d.act a).1 rest

theorem lastBoot_cons_of_ne (booted d : Device) {a : Action} (ha : a ≠ .restart)
    (rest : List Action) : lastBoot booted d (a :: rest) = lastBoot booted (d.act a).1 rest := by
  cases a with
  | restart => exact absurd rfl ha
  | run _ | setVoltage _ | setCurrent _ | setThermistor _ | plug _ | button _ | setFaults _ _ _
  | send _ | receive | raise _ | setStatus _ => rfl

/-! ## Runs are made of steps -/

/-- Steps without a power cycle lead from one device to the other. -/
def Leads (d d' : Device) : Prop := ∃ steps : List Step, .restart ∉ steps ∧ d.stepAll steps = d'

theorem Leads.refl (d : Device) : Leads d d := ⟨[], by simp, rfl⟩

theorem Leads.trans {d d' d'' : Device} (h : Leads d d') (h' : Leads d' d'') : Leads d d'' := by
  obtain ⟨xs, hxs, rfl⟩ := h
  obtain ⟨ys, hys, rfl⟩ := h'
  exact ⟨xs ++ ys, by simp [hxs, hys], stepAll_append d xs ys⟩

theorem leads_step (d : Device) {s : Step} (hs : s ≠ .restart) : Leads d (d.step s) :=
  ⟨[s], by simpa using Ne.symm hs, rfl⟩

theorem step_write {d : Device} (hr : .flashWriter ∈ d.roles) {next : FlashWriter.Turn}
    (h : d.flashWriter.step d.board.flash d.store = some next) :
    d.step .write = d.written next := by
  rw [step, if_pos hr, stepFlashWriter?, h]
  rfl

/-- A step of the flash writer changes nothing where it does not run or has to wait. -/
theorem step_write_cases (d : Device) :
    d.step .write = d ∨ ∃ next, d.flashWriter.step d.board.flash d.store = some next
      ∧ d.step .write = d.written next := by
  by_cases hr : .flashWriter ∈ d.roles
  · cases hnext : d.flashWriter.step d.board.flash d.store with
    | none =>
      left
      rw [step, if_pos hr, stepFlashWriter?, hnext]
      rfl
    | some next => exact .inr ⟨next, rfl, step_write hr hnext⟩
  · exact .inl (if_neg hr)

theorem written_written (d : Device) (t next : FlashWriter.Turn) :
    (d.written t).written next = d.written { next with entries := t.entries ++ next.entries } := by
  simp [written, note]

/-- **A turn of the flash writer is made of its steps.** -/
theorem leads_pollFlashWriter {d : Device} (hr : .flashWriter ∈ d.roles) :
    Leads d d.pollFlashWriter := by
  refine FlashWriter.poll_induction (P := fun t => Leads d (d.written t)) (Leads.refl d) ?_
  intro t next h hnext
  have hstep : (d.written t).step .write = (d.written t).written next :=
    step_write (d := d.written t) hr hnext
  rw [← written_written, ← hstep]
  exact h.trans (leads_step _ (by simp))

theorem leads_turn (d : Device) (r : Role) : Leads d (d.turn r) := by
  -- only the flash writer takes more than one step in its turn
  by_cases hne : r = .flashWriter
  · subst hne
    by_cases hr : .flashWriter ∈ d.roles
    · rw [turn_of_mem hr]
      exact leads_pollFlashWriter hr
    · rw [turn_of_not_mem hr]
      exact Leads.refl d
  · exact leads_step d (s := .turn r hne) (by simp)

theorem leads_settle (d : Device) : Leads d d.settle := by
  have round : ∀ d : Device, Leads d d.round := fun d =>
    ((((leads_turn d .dispatcher).trans (leads_turn _ .flashWriter)).trans
      (leads_turn _ .monitor)).trans (leads_turn _ .lamp)).trans (leads_turn _ .button)
  exact (round d).trans (round _)

/-- **A run is made of steps.** -/
theorem leads_run (d : Device) (ms : Nat) : Leads d (d.run ms) := by
  induction ms with
  | zero => exact leads_settle d
  | succ ms ih =>
    rw [run_succ, advance_eq]
    exact (ih.trans (leads_step _ (s := .wait) (by simp))).trans (leads_settle _)

/-- **A series of actions is made of steps**, with the same last boot. -/
theorem exists_steps_actAll (d : Device) (actions : List Action) :
    ∃ steps, d.stepAll steps = d.actAll actions
      ∧ ∀ booted, bootBefore booted d steps = lastBoot booted d actions := by
  induction actions generalizing d with
  | nil => exact ⟨[], rfl, fun _ => rfl⟩
  | cons a rest ih =>
    obtain ⟨steps, hsteps, hboot⟩ := ih (d.act a).1
    by_cases ha : a = .restart
    · subst ha
      exact ⟨.restart :: steps, hsteps, fun _ => hboot _⟩
    · -- a run takes many steps, and everything else one
      obtain ⟨first, hfirst, hstep⟩ : Leads d (d.act a).1 := by
        by_cases hrun : ∃ ms, a = .run ms
        · obtain ⟨ms, rfl⟩ := hrun
          rw [act_run]
          exact leads_run d ms
        · exact leads_step d (s := .act a ⟨not_exists.mp hrun, ha⟩) (by simp)
      refine ⟨first ++ steps, ?_, fun booted => ?_⟩
      · rw [stepAll_append, hstep, hsteps, actAll_cons]
      · rw [bootBefore_append booted d hfirst, hstep, hboot, lastBoot_cons_of_ne booted d ha]

end Device

end BatteryCare
