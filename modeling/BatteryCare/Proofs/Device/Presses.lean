import BatteryCare.Proofs.Device.Serving
import Mathlib.Algebra.Ring.Parity

/-!
# Every press counts once

Whatever happens to a device besides, it serves its button as long as nobody else asks for power
states or charge types (`Attentive.act`). So in every run from boot each press has become one wish
in time, the contacts' bounce has become none, and the status goes by how many presses and holds
there were (`countsPresses_run`).
-/

namespace BatteryCare

/-! ## Actions -/

/-- The changes of the button pin under a series of actions without a power cycle. -/
def pinChanges (now : Nat) (high : Bool) : List Action → List (Nat × Bool)
  | [] => []
  | .run ms :: rest => pinChanges (now + ms) high rest
  | .button level :: rest =>
    if level = high then pinChanges now high rest else (now, level) :: pinChanges now level rest
  | _ :: rest => pinChanges now high rest

/-- The pin stays low until the device runs. -/
def StartsLow : List Action → Prop
  | [] => True
  | .run _ :: _ => True
  | .button high :: rest => high = false ∧ StartsLow rest
  | _ :: rest => StartsLow rest

/-- The action leaves power state and charge type to the button, and the device switched on. -/
def Action.LeavesWishes : Action → Prop
  | .send event => ¬ event.IsWish
  | .setStatus change => change.power = none ∧ change.chargeType = none
  | .restart => False
  | .run _ | .setVoltage _ | .setCurrent _ | .setThermistor _ | .plug _ | .button _
  | .setFaults _ _ _ | .receive | .raise _ => True

theorem le_of_mem_pinChanges {now : Nat} {high : Bool} {actions : List Action} :
    ∀ c ∈ pinChanges now high actions, now ≤ c.1 := by
  induction actions generalizing now high with
  | nil => simp [pinChanges]
  | cons a rest ih =>
    intro c hc
    cases a with
    | run ms =>
      have := ih c (show c ∈ pinChanges (now + ms) high rest from hc)
      omega
    | button level =>
      rw [pinChanges] at hc
      split at hc
      · exact ih c hc
      · rcases List.mem_cons.mp hc with rfl | hc
        · exact Nat.le_refl _
        · exact ih c hc
    | setVoltage _ | setCurrent _ | setThermistor _ | plug _ | setFaults _ _ _ | send _ | receive
    | raise _ | setStatus _ | restart => exact ih c hc

namespace Device

/-- What holds of a device between two actions, with those to come. -/
structure Attentive (base : List Stamped) (all : List (Nat × Wish)) (rest : List Action)
    (d : Device) : Prop where
  serving : Serving base (pinChanges d.clock d.board.button.high rest) all d
  noWish : NoWish d
  dues : ∀ due ∈ d.button.dues, d.clock < due
  start : d.button = .unread → StartsLow rest

variable {d d' : Device} {base : List Stamped} {all : List (Nat × Wish)} {rest : List Action}
  {ms : Nat}

/-- An action that leaves clock, pin and button alone. -/
theorem Attentive.frame {a : Action} (h : Attentive base all (a :: rest) d)
    (hchanges : ∀ now high, pinChanges now high (a :: rest) = pinChanges now high rest)
    (hstart : StartsLow (a :: rest) = StartsLow rest) (hroles : d'.roles = d.roles)
    (hclock : d'.clock = d.clock) (hpin : d'.board.button = d.board.button)
    (hbutton : d'.button = d.button) (hroom : d'.events.capacity = d.events.capacity)
    (hjournal : d'.journal = d.journal) (hnone : NoWish d')
    (hpower : d'.status.power = d.status.power)
    (htype : d'.status.chargeType = d.status.chargeType) : Attentive base all rest d' := by
  obtain ⟨told, pending, hall, hserves⟩ := h.serving
  rw [hchanges] at hserves
  refine ⟨⟨told, pending, hall, ?_⟩, hnone, by rw [hbutton, hclock]; exact h.dues, ?_⟩
  · rw [hclock, hpin]
    refine hserves.frame hroles hclock hpin hbutton (hroom.trans hserves.room) ?_ ?_
      (wishless_of_eq hjournal)
    · rw [hnone.outlook_eq.1, h.noWish.outlook_eq.1, hpower]
    · rw [hnone.outlook_eq.2, h.noWish.outlook_eq.2, htype]
  · rw [hbutton, ← hstart]
    exact h.start

theorem Attentive.run (h : Attentive base all (.run ms :: rest) d) :
    Attentive base all rest (d.run ms) := by
  obtain ⟨⟨hserving, hpin⟩, hsleeps, hnone⟩ :=
    h.serving.run ms fun c hc => le_of_mem_pinChanges c hc
  refine ⟨?_, hnone, Button.dues_of_sleeps hsleeps, fun hunread => ?_⟩
  · rw [run_clock, hpin]
    exact hserving
  · rw [ButtonSleeps, hunread] at hsleeps
    exact absurd hsleeps (by simp [Button.sleeps])

/-- The pin is driven to a level, which changes it or not. -/
theorem Attentive.drive {level : Bool} (h : Attentive base all (.button level :: rest) d) :
    Attentive base all rest (d.act (.button level)).1 := by
  obtain ⟨told, pending, hall, hserves⟩ := h.serving
  by_cases hsame : level = d.board.button.high
  · have hdrive : (d.act (.button level)).1.board.button = d.board.button := if_pos hsame
    have hchanges : pinChanges d.clock d.board.button.high (.button level :: rest)
        = pinChanges d.clock d.board.button.high rest := if_pos hsame
    rw [hchanges] at hserves
    refine ⟨⟨told, pending, hall, ?_⟩, h.noWish, h.dues, fun hunread => (h.start hunread).2⟩
    rw [hdrive]
    exact hserves.frame rfl rfl hdrive rfl hserves.room rfl rfl (wishless_of_eq rfl)
  · have hdrive : (d.act (.button level)).1.board.button
        = ⟨level, d.board.button.changes + 1⟩ := if_neg hsame
    have hchanges : pinChanges d.clock d.board.button.high (.button level :: rest)
        = (d.clock, level) :: pinChanges d.clock level rest := if_neg hsame
    rw [hchanges] at hserves
    -- before the device runs, the pin stays low
    have hread : d.button ≠ .unread := by
      intro hunread
      have hphase := hserves.phase
      rw [hunread] at hphase
      cases hphase with
      | unread hbouncing =>
        have hlow := hbouncing.settled hserves.later (by simp)
        exact hsame ((h.start hunread).1.trans hlow.symm)
    have hphase := hserves.phase.change hread h.dues
    refine ⟨⟨told, pending, hall, ?_⟩, h.noWish, h.dues, fun hunread => absurd hunread hread⟩
    rw [hdrive]
    exact ⟨hserves.dispatcher, hserves.button, hserves.room, hserves.journal, hserves.past,
      fun c hc => hserves.later c (List.mem_cons_of_mem _ hc), by rw [hdrive]; exact hphase,
      hserves.power, hserves.chargeType⟩

/-- Others may send what is not a wish. -/
theorem Attentive.send {event : Event} (h : Attentive base all (.send event :: rest) d)
    (hevent : ¬ event.IsWish) : Attentive base all rest (d.act (.send event)).1 := by
  have same : ∀ now high, pinChanges now high (.send event :: rest) = pinChanges now high rest :=
    fun _ _ => rfl
  rw [Device.act]
  cases hpush : d.events.push? event with
  | none => exact h.frame same rfl rfl rfl rfl rfl rfl rfl h.noWish rfl rfl
  | some queue =>
    obtain ⟨hqueue, hcapacity⟩ := Fifo.toList_push? hpush
    refine h.frame same rfl rfl rfl rfl rfl hcapacity rfl (fun e he => ?_) rfl rfl
    rcases List.mem_append.mp (hqueue ▸ he) with he | he
    · exact h.noWish e he
    · rw [List.mem_singleton.mp he]
      exact hevent

/-- **Whatever happens besides**, the device goes on serving its button. -/
theorem Attentive.act {a : Action} (h : Attentive base all (a :: rest) d) (ha : a.LeavesWishes) :
    Attentive base all rest (d.act a).1 := by
  cases a with
  | run ms =>
    rw [act_run]
    exact h.run
  | button level => exact h.drive
  | send event => exact h.send ha
  | receive =>
    refine h.frame (fun _ _ => rfl) rfl rfl rfl rfl rfl rfl rfl (fun e he => ?_) rfl rfl
    exact absurd he (by simp [Device.act, Fifo.clear])
  | setStatus change =>
    obtain ⟨hpower, htype⟩ := ha
    refine h.frame (fun _ _ => rfl) rfl rfl rfl rfl rfl rfl rfl h.noWish ?_ ?_
    · simp [Device.act, Status.change, hpower]
    · simp [Device.act, Status.change, htype]
  | restart => exact ha.elim
  | setVoltage _ | setCurrent _ | setThermistor _ | plug _ | setFaults _ _ _ | raise _ =>
    exact h.frame (fun _ _ => rfl) rfl rfl rfl rfl rfl rfl rfl h.noWish rfl rfl

theorem Attentive.actAll {actions : List Action} (h : Attentive base all actions d)
    (ha : ∀ a ∈ actions, a.LeavesWishes) : Attentive base all [] (d.actAll actions) := by
  induction actions generalizing d with
  | nil => exact h
  | cons a rest ih =>
    rw [actAll_cons]
    exact ih (h.act (ha a List.mem_cons_self)) fun a' ha' => ha a' (List.mem_cons_of_mem a ha')

/-! ## Counting -/

/-- How a device has counted the presses of its button since an earlier moment. -/
structure CountsPresses (edges : List Nat) (earlier d : Device) : Prop where
  /-- Each wish that is due has become one event, in time, and there are no others. -/
  told : d.wishesSince earlier = (wishes edges).filter (·.1 ≤ d.clock)
  power : d.status.power = powerAfter (d.wishesSince earlier)
  chargeType : d.status.chargeType = chargeTypeAfter (d.wishesSince earlier)
  /-- Once all presses are over and have settled, each of them has become one event, and the status
  goes by how many short presses and holds there were. -/
  settled : ∀ presses : List Press, edges = presses.flatMap Press.edges →
    (∀ p ∈ presses, p.up + bounceTime ≤ d.clock) →
    (d.wishesSince earlier).map Prod.snd = presses.map Press.wish
      ∧ (d.status.power = .on ↔ Odd (presses.countP fun p => p.IsShort))
      ∧ (d.status.chargeType = .batteryFriendly ↔ Odd (presses.countP fun p => ¬ p.IsShort))

theorem powerAfter_eq_on_iff (told : List (Nat × Wish)) :
    powerAfter told = .on ↔ Odd (timesAsked .power told) := by
  rw [powerAfter, Nat.odd_iff]
  split
  · simp [*]
  · simp [*]

theorem chargeTypeAfter_eq_friendly_iff (told : List (Nat × Wish)) :
    chargeTypeAfter told = .batteryFriendly ↔ Odd (timesAsked .chargeType told) := by
  rw [chargeTypeAfter, Nat.odd_iff]
  split
  · simp [*]
  · simp [*]

theorem attentive_boot {roles : List Role} (hdispatcher : .dispatcher ∈ roles)
    (hbutton : .button ∈ roles) {board : Board} (hlow : board.button.high = false) (clock : Nat)
    (journal : List Stamped) {actions : List Action} (hstart : StartsLow actions)
    {edges : List Nat} (hw : Waveform false none edges (pinChanges clock false actions)) :
    Attentive (boot roles board clock journal).journal (wishes edges) actions
      (boot roles board clock journal) := by
  have hbouncing : Bouncing false none edges board.button.high
      (pinChanges clock board.button.high actions) := by
    rw [hlow]
    exact hw.bouncing
  refine ⟨⟨[], wishes edges, rfl, ?_⟩, fun e he => absurd he (by simp [boot, noEvents]),
    fun due hdue => absurd hdue (by simp [boot, Button.dues]), fun _ => hstart⟩
  exact ⟨hdispatcher, hbutton, rfl, ⟨[], rfl, rfl⟩, by simp,
    fun c hc => le_of_mem_pinChanges c hc, .unread hbouncing, rfl, rfl⟩

/--
**Every press counts exactly once, and bounce does not count**, in every run from boot with
dispatcher and button, and for every waveform of the pin that starts low and goes back to edges far
enough apart, as long as nobody else asks for power states or charge types.
-/
theorem countsPresses_run {roles : List Role} (hdispatcher : .dispatcher ∈ roles)
    (hbutton : .button ∈ roles) {board : Board} (hlow : board.button.high = false) (clock : Nat)
    (journal : List Stamped) {actions : List Action} (hstart : StartsLow actions)
    (ha : ∀ a ∈ actions, a.LeavesWishes) {edges : List Nat}
    (hw : Waveform false none edges (pinChanges clock false actions)) (ms : Nat) :
    CountsPresses edges (boot roles board clock journal)
      (((boot roles board clock journal).actAll actions).run ms) := by
  have hend := (attentive_boot hdispatcher hbutton hlow clock journal hstart hw).actAll ha
  obtain ⟨⟨⟨told, pending, hall, hserves⟩, -⟩, hsleeps, hnone⟩ :=
    hend.serving.run ms fun c hc => absurd hc (by simp [pinChanges])
  generalize ((boot roles board clock journal).actAll actions).run ms = d at *
  have hsince : d.wishesSince (boot roles board clock journal) = told := by
    obtain ⟨new, hnew, htold⟩ := hserves.journal
    rw [wishesSince, entriesSince_of_append hnew, htold]
  -- the wishes told are those whose time has come
  have htold : told = (wishes edges).filter (·.1 ≤ d.clock) := by
    have hdues := Button.dues_of_sleeps hsleeps
    have hlater := hserves.phase.later hdues hserves.later
    have hpast : told.filter (·.1 ≤ d.clock) = told :=
      List.filter_eq_self.mpr fun w hw => decide_eq_true (hserves.past w hw)
    have hfuture : pending.filter (·.1 ≤ d.clock) = [] :=
      List.filter_eq_nil_iff.mpr fun w hw => by simpa using hlater w hw
    rw [← hall, List.filter_append, hpast, hfuture, List.append_nil]
  have hpower : d.status.power = powerAfter told := hnone.outlook_eq.1.symm.trans hserves.power
  have htype : d.status.chargeType = chargeTypeAfter told :=
    hnone.outlook_eq.2.symm.trans hserves.chargeType
  rw [← hsince] at htold hpower htype
  refine ⟨htold, hpower, htype, fun presses hedges hsettled => ?_⟩
  have hall : d.wishesSince (boot roles board clock journal)
      = wishes (presses.flatMap Press.edges) := by
    rw [htold, hedges]
    exact List.filter_eq_self.mpr fun w hw =>
      decide_eq_true (le_of_mem_wishes_presses hsettled w hw)
  have hwishes := map_wishes_presses presses
  rw [hpower, htype, powerAfter_eq_on_iff, chargeTypeAfter_eq_friendly_iff, hall, timesAsked,
    timesAsked, hwishes, count_power, count_chargeType]
  exact ⟨rfl, Iff.rfl, Iff.rfl⟩

/-- A press of 1499 ms with much bounce, then one of 1500 ms. -/
def twoPresses : List Action :=
  [.run 100, .button true, .run 3, .button false, .run 5, .button true, .run 1491, .button false,
    .run 1, .button true, .run 28, .button false, .run 72, .button true, .run 1500, .button false]

theorem waveform_twoPresses :
    Waveform false none [100, 1599, 1700, 3200] (pinChanges 0 false twoPresses) := by
  have hlast : Waveform true (some 1700) [3200] ((3200, !true) :: [] ++ []) :=
    .edge (by simp [bounceTime]) (by simp) rfl .still
  have hhold : Waveform false (some 1599) [1700, 3200] ((1700, !false) :: [] ++ [(3200, false)]) :=
    .edge (by simp [bounceTime]) (by simp) rfl hlast
  have hrelease : Waveform true (some 100) [1599, 1700, 3200]
      ((1599, !true) :: [(1600, true), (1628, false)] ++ [(1700, true), (3200, false)]) :=
    .edge (by simp [bounceTime]) (by simp [bounceTime]) rfl hhold
  show Waveform false none [100, 1599, 1700, 3200] ((100, !false) :: [(103, false), (108, true)]
    ++ [(1599, false), (1600, true), (1628, false), (1700, true), (3200, false)])
  exact .edge (by simp) (by simp [bounceTime]) rfl hrelease

theorem countsPresses_run_twoPresses :
    CountsPresses [100, 1599, 1700, 3200]
      (boot [.dispatcher, .flashWriter, .monitor, .lamp, .button] {} 0 [])
      (((boot [.dispatcher, .flashWriter, .monitor, .lamp, .button] {} 0 []).actAll twoPresses).run
        30) :=
  countsPresses_run (by decide) (by decide) rfl 0 [] (show StartsLow twoPresses from trivial)
    (by simp [twoPresses, Action.LeavesWishes]) waveform_twoPresses 30

end Device

end BatteryCare
