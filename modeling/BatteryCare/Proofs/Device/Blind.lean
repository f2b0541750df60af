import BatteryCare.Proofs.Device.Settled

/-!
# Views without faults

What is left of a device where some of it is covered is a view of it. A view in which neither the
flash nor its faults show, and in which the device goes on in a way that depends on the view alone
(`Blind`), cannot tell whether and when the faults change: two devices that look the same go on
looking the same under actions that differ in changes of the faults (`Blind.actAll_eq`).

Changing the faults parts a run in two, and the second half settles the device once more before it
goes on. So in such a view a settled device has to stay as it is when it settles again, which is so
where only the flash writer may have something left to do (`Settled.settle_eq`).
-/

namespace BatteryCare

/-! ## Actions without changes of the faults -/

/-- The action neither lets time pass nor changes the faults. -/
def Action.IsInput : Action → Prop
  | .run _ | .setFaults _ _ _ => False
  | .setVoltage _ | .setCurrent _ | .setThermistor _ | .plug _ | .button _ | .send _ | .receive
  | .raise _ | .setStatus _ | .restart => True

/-- The action before others, where runs that follow one another are one run. -/
def Action.before : Action → List Action → List Action
  | .run ms, .run more :: rest => .run (ms + more) :: rest
  | a, rest => a :: rest

/-- The actions without the changes of the faults. -/
def withoutFaults : List Action → List Action
  | [] => []
  | .setFaults _ _ _ :: rest => withoutFaults rest
  | a :: rest => a.before (withoutFaults rest)

example : withoutFaults [.run 3, .setFaults true false false, .run 4, .restart, .run 5]
    = [.run 7, .restart, .run 5] := by rfl

theorem Action.before_cases (a : Action) (rest : List Action) :
    a.before rest = a :: rest
      ∨ ∃ ms more later, a = .run ms ∧ rest = .run more :: later
        ∧ a.before rest = .run (ms + more) :: later := by
  cases a with
  | run ms =>
    cases rest with
    | nil => exact .inl rfl
    | cons c later =>
      cases c with
      | run more => exact .inr ⟨ms, more, later, rfl, rfl, rfl⟩
      | setVoltage _ | setCurrent _ | setThermistor _ | plug _ | button _ | setFaults _ _ _ | send _
      | receive | raise _ | setStatus _ | restart => exact .inl rfl
  | setVoltage _ | setCurrent _ | setThermistor _ | plug _ | button _ | setFaults _ _ _ | send _
  | receive | raise _ | setStatus _ | restart => exact .inl rfl

theorem Action.mem_before {a b : Action} {rest : List Action} (h : b ∈ a.before rest) :
    (∃ ms, b = .run ms) ∨ b = a ∨ b ∈ rest := by
  rcases a.before_cases rest with heq | ⟨ms, more, later, -, rfl, heq⟩
  · rw [heq] at h
    exact .inr (List.mem_cons.mp h)
  · rw [heq] at h
    rcases List.mem_cons.mp h with rfl | h
    · exact .inl ⟨_, rfl⟩
    · exact .inr (.inr (List.mem_cons_of_mem _ h))

/-- Leaving out changes of the faults adds nothing but longer runs. -/
theorem mem_withoutFaults {b : Action} {actions : List Action} (h : b ∈ withoutFaults actions) :
    (∃ ms, b = .run ms) ∨ b ∈ actions := by
  induction actions with
  | nil => exact absurd h List.not_mem_nil
  | cons a rest ih =>
    have later : b ∈ withoutFaults rest → (∃ ms, b = .run ms) ∨ b ∈ a :: rest :=
      fun h => (ih h).imp_right (List.mem_cons_of_mem a)
    have kept : b ∈ a.before (withoutFaults rest) → (∃ ms, b = .run ms) ∨ b ∈ a :: rest := by
      intro h
      rcases Action.mem_before h with hrun | rfl | h
      · exact .inl hrun
      · exact .inr List.mem_cons_self
      · exact later h
    cases a with
    | setFaults _ _ _ => exact later h
    | run _ | setVoltage _ | setCurrent _ | setThermistor _ | plug _ | button _ | send _ | receive
    | raise _ | setStatus _ | restart => exact kept h

namespace Device

variable {d e : Device}

/-! ## Settling once more -/

theorem Settled.turn_lamp (h : Settled d) : d.turn .lamp = d := by
  by_cases hrole : .lamp ∈ d.roles
  · rw [turn_of_mem hrole, poll, pollLamp, Lamp.poll_of_sleeps (h.lamp hrole) (Nat.lt_succ_self _)]
    rfl
  · exact turn_of_not_mem hrole

theorem Settled.turn_button (h : Settled d) : d.turn .button = d := by
  by_cases hrole : .button ∈ d.roles
  · rw [turn_of_mem hrole, poll, pollButton,
      Button.poll_of_sleeps (h.button hrole) (Nat.lt_succ_self _)]
    rfl
  · exact turn_of_not_mem hrole

/-- What the flash writer does leaves the others with nothing to do. -/
theorem Settled.turn_flashWriter (h : Settled d) : Settled (d.turn .flashWriter) := by
  rcases turn_eq_or d .flashWriter with heq | heq
  · rw [heq]
    exact ⟨h.events, h.notDue, h.lamp, h.button⟩
  · rw [heq]
    exact h

/-- **Only the flash writer has anything to do** where a settled device settles again. -/
theorem Settled.settle_eq (h : Settled d) (hahead : TickAhead d) :
    d.settle = (d.turn .flashWriter).turn .flashWriter := by
  have hround : ∀ d : Device, Settled d → TickAhead d →
      d.round = d.turn .flashWriter ∧ TickAhead (d.turn .flashWriter) := by
    intro d h hahead
    have hwritten := h.turn_flashWriter
    have hstill : TickAhead (d.turn .flashWriter) :=
      hahead.frame (turn_monitor_of_ne _ (by simp)) (turn_clock _ _)
    refine ⟨?_, hstill⟩
    rw [Device.round, turn_dispatcher_of_empty h.events, hstill.turn_monitor, hwritten.turn_lamp,
      hwritten.turn_button]
  obtain ⟨hfirst, hstill⟩ := hround d h hahead
  rw [settle, hfirst, (hround _ h.turn_flashWriter hstill).1]

/-! ## Blind views -/

/-- **A view in which faults do not show**, on devices with the property under actions that are
allowed: what happens to it depends on it alone. -/
structure Blind {α : Type} (Allowed : Action → Prop) (P : Device → Prop) (view : Device → α) :
    Prop where
  run : ∀ ms, Allowed (.run ms)
  keeps_settle : ∀ d, P d → P d.settle
  keeps_wait : ∀ d : Device, P d → P { d with clock := d.clock + 1 }
  keeps_act : ∀ d a, Allowed a → (∀ ms, a ≠ .run ms) → P d → P (d.act a).1
  settle : ∀ d e, P d → P e → view d = view e → view d.settle = view e.settle
  wait : ∀ d e : Device, view d = view e →
    view { d with clock := d.clock + 1 } = view { e with clock := e.clock + 1 }
  input : ∀ d e a, Allowed a → a.IsInput → P d → P e → view d = view e →
    view (d.act a).1 = view (e.act a).1
  /-- Faults do not show. -/
  faults : ∀ d stalled readFails writeFails,
    view (d.act (.setFaults stalled readFails writeFails)).1 = view d
  /-- Nor does it show that a device that has run settles again. -/
  resettle : ∀ d ms, P d → view (d.run ms).settle = view (d.run ms)

namespace Blind

variable {α : Type} {Allowed : Action → Prop} {P : Device → Prop} {view : Device → α}
  {actions others : List Action}

theorem pass_eq (h : Blind Allowed P view) (hd : P d) (he : P e) (hview : view d = view e)
    (ms : Nat) : view (d.pass ms) = view (e.pass ms) ∧ P (d.pass ms) := by
  induction ms generalizing d e with
  | zero => exact ⟨hview, hd⟩
  | succ ms ih =>
    have hd' := h.keeps_wait d hd
    have he' := h.keeps_wait e he
    rw [pass_succ, pass_succ, advance_eq, advance_eq]
    exact ih (h.keeps_settle _ hd') (h.keeps_settle _ he')
      (h.settle _ _ hd' he' (h.wait d e hview))

theorem keeps_run (h : Blind Allowed P view) (hd : P d) (ms : Nat) : P (d.run ms) :=
  (h.pass_eq (h.keeps_settle d hd) (h.keeps_settle d hd) rfl ms).2

theorem keeps (h : Blind Allowed P view) {a : Action} (ha : Allowed a) (hd : P d) :
    P (d.act a).1 := by
  by_cases hrun : ∃ ms, a = .run ms
  · obtain ⟨ms, rfl⟩ := hrun
    exact h.keeps_run hd ms
  · exact h.keeps_act d a ha (fun ms hms => hrun ⟨ms, hms⟩) hd

/-- Devices that look the same look the same after an action. -/
theorem act_eq (h : Blind Allowed P view) {a : Action} (ha : Allowed a) (hd : P d) (he : P e)
    (hview : view d = view e) : view (d.act a).1 = view (e.act a).1 := by
  cases a with
  | run ms =>
    exact (h.pass_eq (h.keeps_settle d hd) (h.keeps_settle e he) (h.settle d e hd he hview) ms).1
  | setFaults stalled readFails writeFails =>
    rw [h.faults d, h.faults e, hview]
  | setVoltage _ | setCurrent _ | setThermistor _ | plug _ | button _ | send _ | receive | raise _
  | setStatus _ | restart => exact h.input d e _ ha trivial hd he hview

theorem actAll_congr (h : Blind Allowed P view) (hactions : ∀ a ∈ actions, Allowed a) (hd : P d)
    (he : P e) (hview : view d = view e) : view (d.actAll actions) = view (e.actAll actions) := by
  induction actions generalizing d e with
  | nil => exact hview
  | cons a rest ih =>
    have ha : Allowed a := hactions a List.mem_cons_self
    exact ih (fun b hb => hactions b (List.mem_cons_of_mem a hb)) (h.keeps ha hd) (h.keeps ha he)
      (h.act_eq ha hd he hview)

/-- Two runs look like one. -/
theorem run_run (h : Blind Allowed P view) (hd : P d) (ms more : Nat) :
    view ((d.run ms).run more) = view (d.run (ms + more)) := by
  have hrun := h.keeps_run hd ms
  have hpass : d.run (ms + more) = (d.run ms).pass more := pass_add _ _ _
  rw [hpass]
  exact (h.pass_eq (h.keeps_settle _ hrun) hrun (h.resettle d ms hd) more).1

theorem before_eq (h : Blind Allowed P view) {a : Action} (ha : Allowed a)
    (hactions : ∀ b ∈ actions, Allowed b) (hd : P d) :
    view (d.actAll (a.before actions)) = view (d.actAll (a :: actions)) := by
  rcases a.before_cases actions with heq | ⟨ms, more, later, rfl, rfl, heq⟩
  · rw [heq]
  · have hlater : ∀ b ∈ later, Allowed b := fun b hb => hactions b (List.mem_cons_of_mem _ hb)
    rw [heq, actAll_cons, actAll_cons, actAll_cons, act_run, act_run, act_run]
    exact h.actAll_congr hlater (h.keeps_run hd _) (h.keeps_run (h.keeps_run hd ms) more)
      (h.run_run hd ms more).symm

/-- Changes of the faults can be left out. -/
theorem withoutFaults_eq (h : Blind Allowed P view) (hactions : ∀ a ∈ actions, Allowed a)
    (hd : P d) : view (d.actAll (withoutFaults actions)) = view (d.actAll actions) := by
  induction actions generalizing d with
  | nil => rfl
  | cons a rest ih =>
    have ha : Allowed a := hactions a List.mem_cons_self
    have hrest : ∀ b ∈ rest, Allowed b := fun b hb => hactions b (List.mem_cons_of_mem a hb)
    have hshort : ∀ b ∈ withoutFaults rest, Allowed b := by
      intro b hb
      rcases mem_withoutFaults hb with ⟨ms, rfl⟩ | hb
      · exact h.run ms
      · exact hrest b hb
    have kept : view (d.actAll (a.before (withoutFaults rest))) = view (d.actAll (a :: rest)) :=
      (h.before_eq ha hshort hd).trans (ih hrest (h.keeps ha hd))
    cases a with
    | setFaults stalled readFails writeFails =>
      exact (ih hrest hd).trans (h.actAll_congr hrest hd (h.keeps ha hd)
        (h.faults d stalled readFails writeFails).symm)
    | run _ | setVoltage _ | setCurrent _ | setThermistor _ | plug _ | button _ | send _ | receive
    | raise _ | setStatus _ | restart => exact kept

/-- **Devices that look the same go on looking the same** under actions that differ in changes of
the faults only. -/
theorem actAll_eq (h : Blind Allowed P view) (hactions : ∀ a ∈ actions, Allowed a)
    (hothers : ∀ a ∈ others, Allowed a) (hsame : withoutFaults actions = withoutFaults others)
    (hd : P d) (he : P e) (hview : view d = view e) :
    view (d.actAll actions) = view (e.actAll others) := by
  have hshort : ∀ b ∈ withoutFaults actions, Allowed b := by
    intro b hb
    rcases mem_withoutFaults hb with ⟨ms, rfl⟩ | hb
    · exact h.run ms
    · exact hactions b hb
  calc view (d.actAll actions)
      = view (d.actAll (withoutFaults actions)) := (h.withoutFaults_eq hactions hd).symm
    _ = view (e.actAll (withoutFaults actions)) := h.actAll_congr hshort hd he hview
    _ = view (e.actAll (withoutFaults others)) := by rw [hsame]
    _ = view (e.actAll others) := h.withoutFaults_eq hothers he

end Blind

end Device

end BatteryCare
