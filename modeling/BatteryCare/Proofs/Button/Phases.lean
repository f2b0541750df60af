import BatteryCare.Proofs.Button.Waveform
import BatteryCare.Proofs.Device.Sleep

/-!
# What the button knows of the finger

The button follows a finger whose waveform goes back to edges far enough apart. This module says,
for everything the button can be waiting for, where the finger is, and which wishes are still to be
told (`Phase`). A turn of the button keeps this (`Phase.poll`), and so do the passing of a
millisecond (`Phase.wait`) and a change of the pin (`Phase.change`).

Two things need care. A release shortly before the hold time ends settles only after it, and by
then it is a hold. And the rest of a bounce after a hold makes the button look at the pin once more,
which is over before the next edge.
-/

namespace BatteryCare

/-- Where the finger is while the button waits for something, with the wishes still to be told. `c`
is the number of changes that the button has seen. -/
inductive Phase (pin : InputPin) (now : Nat) (changes : List (Nat × Bool)) :
    Button → List (Nat × Wish) → Prop
  /-- The device has just been switched on. -/
  | unread {edges : List Nat} (h : Bouncing false none edges pin.high changes) :
      Phase pin now changes .unread (wishes edges)
  /-- The button is up, and the pin shows that. -/
  | idle {edges : List Nat} {prev : Option Nat} (h : Bouncing false prev edges pin.high changes)
      (hlow : pin.high = false) (hprev : ∀ p ∈ prev, p ≤ now) :
      Phase pin now changes (.up (.waiting false pin.changes)) (wishes edges)
  /-- The button is up, but the contacts still bounce from its release. -/
  | trembling {edges : List Nat} {up c : Nat}
      (h : Bouncing false (some up) edges pin.high changes) (hnew : c < pin.changes)
      (hup : up ≤ now) (hnow : now < up + bounceTime) :
      Phase pin now changes (.up (.waiting false c)) (wishes edges)
  /-- The button looks at the pin because of that, before the next edge. -/
  | shaken {edges : List Nat} {up due : Nat}
      (h : Bouncing false (some up) edges pin.high changes) (hdue : up + bounceTime ≤ due)
      (hdue' : due < up + 2 * bounceTime) (hup : up ≤ now) (hnow : now ≤ due) :
      Phase pin now changes (.up (.settling false due)) (wishes edges)
  /-- The finger has pressed. -/
  | pressed {edges : List Nat} {down c : Nat}
      (h : Bouncing true (some down) edges pin.high changes) (hnew : c < pin.changes)
      (hnow : now = down) : Phase pin now changes (.up (.waiting false c)) (wishes (down :: edges))
  /-- The press settles. -/
  | pressing {edges : List Nat} {down : Nat}
      (h : Bouncing true (some down) edges pin.high changes) (hnow : now ≤ down + bounceTime) :
      Phase pin now changes (.up (.settling false (down + bounceTime))) (wishes (down :: edges))
  /-- The button is down, and this is not yet a hold. -/
  | held {edges : List Nat} {down : Nat} (h : Bouncing true (some down) edges pin.high changes)
      (hdown : down + bounceTime ≤ now) (hnow : now ≤ down + bounceTime + holdTime) :
      Phase pin now changes (.down (down + bounceTime + holdTime) (.waiting true pin.changes))
        (wishes (down :: edges))
  /-- The finger has gone up before this was a hold. -/
  | lifted {edges : List Nat} {down up c : Nat}
      (h : Bouncing false (some up) edges pin.high changes) (hnew : c < pin.changes)
      (hnow : now = up) (hshort : now < down + bounceTime + holdTime) :
      Phase pin now changes (.down (down + bounceTime + holdTime) (.waiting true c))
        (wishes (down :: up :: edges))
  /-- The release settles. -/
  | lifting {edges : List Nat} {down up : Nat}
      (h : Bouncing false (some up) edges pin.high changes) (hup : up ≤ now)
      (hnow : now ≤ up + bounceTime) (hshort : now ≤ down + bounceTime + holdTime) :
      Phase pin now changes
        (.down (down + bounceTime + holdTime) (.settling true (up + bounceTime)))
        (wishes (down :: up :: edges))
  /-- The hold is told, and the finger is still down. -/
  | told {edges : List Nat} {down : Nat} (h : Bouncing true (some down) edges pin.high changes)
      (hnow : down + bounceTime ≤ now) : Phase pin now changes .releasing (wishes edges.tail)
  /-- The hold is told, and the finger has gone up. -/
  | letGo {edges : List Nat} {up : Nat} (h : Bouncing false (some up) edges pin.high changes)
      (hup : up ≤ now) (hnow : now ≤ up + bounceTime) :
      Phase pin now changes .releasing (wishes edges)

/-- The event that a wish comes to. -/
def Wish.event (status : Status) : Wish → Event
  | power => .powerSet status.power.pressed
  | chargeType => .chargeTypeSet status.chargeType.toggled

/-- What a turn of the button comes to. -/
inductive Button.Polled (pin : InputPin) (now : Nat) (changes : List (Nat × Bool)) (status : Status)
    (events : Fifo Event) : List (Nat × Wish) → Turn → Prop
  /-- Nothing is told. -/
  | quiet {b : Button} {pending : List (Nat × Wish)} (h : Phase pin now changes b pending)
      (hsleeps : b.sleeps pin (now + 1) = true) :
      Polled pin now changes status events pending { button := b, events }
  /-- The first of the wishes is told, in time. -/
  | sent {b : Button} {w : Wish} {pending : List (Nat × Wish)} {queue : Fifo Event}
      (hpush : events.push? (w.event status) = some queue) (h : Phase pin now changes b pending)
      (hsleeps : b.sleeps pin (now + 1) = true) :
      Polled pin now changes status events ((now, w) :: pending)
        { button := b, events := queue, sent := some (w.event status) }

section Phase

variable {pin : InputPin} {now : Nat} {changes : List (Nat × Bool)} {b : Button}
  {pending : List (Nat × Wish)} {status : Status} {events : Fifo Event}

/-! ## The hold -/

/-- What a hold tells is the first of the wishes if no release comes too early. -/
theorem wishes_hold {down : Nat} {edges : List Nat} (h : ∀ e ∈ edges, down + holdTime ≤ e) :
    wishes (down :: edges) = (down + bounceTime + holdTime, .chargeType) :: wishes edges.tail := by
  cases edges with
  | nil => rfl
  | cons up edges =>
    have := h up List.mem_cons_self
    rw [wishes, if_neg (by omega)]
    rfl

theorem wishes_short {down up : Nat} {edges : List Nat} (h : up < down + holdTime) :
    wishes (down :: up :: edges) = (up + bounceTime, .power) :: wishes edges := by
  rw [wishes, if_pos h]

theorem push?_of_room (hroom : events.toList.length < events.capacity) (event : Event) :
    ∃ queue, events.push? event = some queue := by
  rw [← Option.isSome_iff_exists, Fifo.push?, dif_pos hroom]
  rfl

/-! ## What the button waits for next -/

theorem EdgeWatch.sleeps_start (pin : InputPin) (wake : Nat) :
    (EdgeWatch.start pin).sleeps pin wake = true :=
  decide_eq_true rfl

theorem Button.sleeps_up_settling {high : Bool} {due : Nat} (h : now < due) :
    (Button.up (.settling high due)).sleeps pin (now + 1) = true :=
  decide_eq_true h

theorem Button.sleeps_down {due : Nat} {watch : EdgeWatch} (h : now < due)
    (hwatch : watch.sleeps pin (now + 1) = true) :
    (Button.down due watch).sleeps pin (now + 1) = true := by
  rw [sleeps, hwatch, Bool.and_true]
  exact decide_eq_true h

/-- After a change the pin is read again once it has settled. -/
theorem EdgeWatch.poll_changed {high : Bool} {c : Nat} (h : c < pin.changes) :
    (EdgeWatch.waiting high c).poll pin now = (.settling high (now + bounceTime), none) := by
  rw [poll, if_neg (by omega)]

theorem Button.poll_up_changed {c : Nat} (h : c < pin.changes) (status : Status)
    (events : Fifo Event) :
    Button.poll pin now status events (.up (.waiting false c))
      = { button := .up (.settling false (now + bounceTime)), events } := by
  rw [poll, EdgeWatch.poll_changed h]

/-- The button waits for a press once the pin is low. -/
theorem Phase.rest (now : Nat) {edges : List Nat} {prev : Option Nat}
    (h : Bouncing false prev edges pin.high changes) (hlow : pin.high = false)
    (hprev : ∀ p ∈ prev, p ≤ now) :
    Phase pin now changes (.rest pin) (wishes edges)
      ∧ (Button.rest pin).sleeps pin (now + 1) = true := by
  refine ⟨?_, EdgeWatch.sleeps_start pin (now + 1)⟩
  rw [Button.rest, EdgeWatch.start, hlow]
  exact .idle h hlow hprev

/-- With the finger down, the button waits for its release. -/
theorem Phase.release_told {edges : List Nat} {down : Nat}
    (h : Bouncing true (some down) edges pin.high changes) (hlater : ∀ c ∈ changes, now ≤ c.1)
    (hnow : down + bounceTime ≤ now) :
    Phase pin now changes (.release pin) (wishes edges.tail)
      ∧ (Button.release pin).sleeps pin (now + 1) = true := by
  have hhigh : pin.high = true := h.settled hlater (by simpa using hnow)
  rw [Button.release, if_pos hhigh]
  exact ⟨.told h hnow, hhigh⟩

/-- After a release, the button waits for the pin to show it. -/
theorem Phase.release_letGo {edges : List Nat} {up : Nat}
    (h : Bouncing false (some up) edges pin.high changes) (hup : up ≤ now)
    (hnow : now ≤ up + bounceTime) :
    Phase pin now changes (.release pin) (wishes edges)
      ∧ (Button.release pin).sleeps pin (now + 1) = true := by
  by_cases hhigh : pin.high = true
  · rw [Button.release, if_pos hhigh]
    exact ⟨.letGo h hup hnow, hhigh⟩
  · rw [Button.release, if_neg hhigh]
    exact Phase.rest now h (by simpa using hhigh) (by simpa using hup)

/-! ## Turns -/

/-- A button that sleeps stays in its phase. -/
theorem Phase.still (h : Phase pin now changes b pending)
    (hsleeps : b.sleeps pin (now + 1) = true) :
    Button.Polled pin now changes status events pending (b.poll pin now status events) := by
  rw [Button.poll_of_sleeps hsleeps (Nat.lt_succ_self now)]
  exact .quiet h hsleeps

/-- A button that is up takes notice of a change. -/
theorem Button.Polled.notice {c : Nat} (hnew : c < pin.changes)
    (h : Phase pin now changes (.up (.settling false (now + bounceTime))) pending) :
    Button.Polled pin now changes status events pending
      (Button.poll pin now status events (.up (.waiting false c))) := by
  rw [Button.poll_up_changed hnew]
  exact .quiet h (Button.sleeps_up_settling (Nat.lt_add_of_pos_right bounceTime_pos))

/-- A hold is told, at its time. -/
theorem Button.Polled.hold {due : Nat} {watch : EdgeWatch} (hdue : due ≤ now)
    (hroom : events.toList.length < events.capacity)
    (h : Phase pin now changes (.release pin) pending
      ∧ (Button.release pin).sleeps pin (now + 1) = true) :
    Button.Polled pin now changes status events ((now, .chargeType) :: pending)
      (Button.poll pin now status events (.down due watch)) := by
  obtain ⟨queue, hpush⟩ := push?_of_room hroom (Wish.chargeType.event status)
  have hturn : Button.poll pin now status events (.down due watch)
      = { button := .release pin
          events := queue
          sent := some (Wish.chargeType.event status) } := by
    rw [Wish.event] at hpush
    rw [Button.poll, if_pos hdue, Button.send, hpush]
    rfl
  rw [hturn]
  exact .sent hpush h.1 h.2

/-- A short press is told when its release has settled. -/
theorem Button.Polled.press {due settled : Nat} (hdue : now < due) (hsettled : settled ≤ now)
    (hroom : events.toList.length < events.capacity) (hlow : pin.high = false)
    (h : Phase pin now changes (.rest pin) pending
      ∧ (Button.rest pin).sleeps pin (now + 1) = true) :
    Button.Polled pin now changes status events ((now, .power) :: pending)
      (Button.poll pin now status events (.down due (.settling true settled))) := by
  obtain ⟨queue, hpush⟩ := push?_of_room hroom (Wish.power.event status)
  have hturn : Button.poll pin now status events (.down due (.settling true settled))
      = { button := .rest pin, events := queue, sent := some (Wish.power.event status) } := by
    rw [Wish.event] at hpush
    rw [Button.poll, if_neg (by omega), EdgeWatch.poll, if_neg (by omega),
      if_neg (by rw [hlow]; simp)]
    dsimp only
    rw [Button.send, hpush]
    rfl
  rw [hturn]
  exact .sent hpush h.1 h.2

/-- **A turn of the button** tells the first of its wishes if it is due, and nothing else. -/
theorem Phase.poll (h : Phase pin now changes b pending) (hlater : ∀ c ∈ changes, now ≤ c.1)
    (status : Status) (hroom : events.toList.length < events.capacity) :
    Button.Polled pin now changes status events pending (b.poll pin now status events) := by
  cases h with
  | unread h =>
    obtain ⟨hrest, hsleeps⟩ := Phase.rest now h (h.settled hlater (by simp)) (by simp)
    exact .quiet hrest hsleeps
  | idle h hlow hprev => exact (Phase.idle h hlow hprev).still (decide_eq_true rfl)
  | @trembling edges up c h hnew hup hnow =>
    -- this look at the pin is over before the next edge
    refine .notice hnew (.shaken h ?_ ?_ hup (Nat.le_add_right _ _))
    · omega
    · omega
  | @shaken edges up due h hdue hdue' hup hnow =>
    by_cases hlt : now < due
    · exact (Phase.shaken h hdue hdue' hup hnow).still (Button.sleeps_up_settling hlt)
    · have hlow : pin.high = false := h.settled hlater (by simp; omega)
      have hpoll : Button.poll pin now status events (.up (.settling false due))
          = { button := .rest pin, events } := by
        rw [Button.poll, EdgeWatch.poll, if_neg hlt, if_pos hlow]
        rfl
      obtain ⟨hrest, hsleeps⟩ := Phase.rest now h hlow (by simpa using hup)
      rw [hpoll]
      exact .quiet hrest hsleeps
  | @pressed edges down c h hnew hnow =>
    subst hnow
    exact .notice hnew (.pressing h (Nat.le_add_right _ _))
  | @pressing edges down h hnow =>
    by_cases hlt : now < down + bounceTime
    · exact (Phase.pressing h hnow).still (Button.sleeps_up_settling hlt)
    · -- the press has settled, and the hold time begins
      have hat : now = down + bounceTime := by omega
      have hhigh : pin.high = true := h.settled hlater (by simp; omega)
      have hpoll : Button.poll pin now status events (.up (.settling false (down + bounceTime)))
          = { button := .down (down + bounceTime + holdTime) (.start pin), events } := by
        rw [Button.poll, EdgeWatch.poll, if_neg hlt, hhigh, hat]
        rfl
      have hdue : now < down + bounceTime + holdTime := by
        rw [hat]
        exact Nat.lt_add_of_pos_right (by decide)
      have hheld := Phase.held h (Nat.le_of_eq hat.symm) (Nat.le_of_lt hdue)
      rw [hpoll]
      refine .quiet ?_ (Button.sleeps_down hdue (EdgeWatch.sleeps_start pin _))
      rwa [EdgeWatch.start, hhigh]
  | @held edges down h hdown hnow =>
    by_cases hlt : now < down + bounceTime + holdTime
    · exact (Phase.held h hdown hnow).still (Button.sleeps_down hlt (decide_eq_true rfl))
    · have hat : now = down + bounceTime + holdTime := by omega
      have hedges : ∀ e ∈ edges, down + holdTime ≤ e := by
        intro e he
        have := h.edges_later hlater e he
        omega
      rw [wishes_hold hedges, ← hat]
      exact .hold (Nat.le_refl now) hroom (Phase.release_told h hlater hdown)
  | @lifted edges down up c h hnew hnow hshort =>
    subst hnow
    have hpoll : Button.poll pin now status events
        (.down (down + bounceTime + holdTime) (.waiting true c))
        = { button := .down (down + bounceTime + holdTime) (.settling true (now + bounceTime))
            events } := by
      rw [Button.poll, if_neg (Nat.not_le.mpr hshort), EdgeWatch.poll_changed hnew]
    have hsettling : now < now + bounceTime := Nat.lt_add_of_pos_right bounceTime_pos
    rw [hpoll]
    refine .quiet ?_ (Button.sleeps_down hshort (decide_eq_true hsettling))
    exact .lifting h (Nat.le_refl _) (Nat.le_add_right _ _) (Nat.le_of_lt hshort)
  | @lifting edges down up h hup hnow hshort =>
    by_cases hdue : down + bounceTime + holdTime ≤ now
    · -- the hold is over before the release has settled
      have hat : now = down + bounceTime + holdTime := by omega
      have hlong : ∀ e ∈ up :: edges, down + holdTime ≤ e := by
        intro e he
        rcases List.mem_cons.mp he with rfl | he
        · omega
        · have := h.edges_later hlater e he
          omega
      rw [wishes_hold hlong, ← hat]
      exact .hold (Nat.le_refl now) hroom (Phase.release_letGo h hup hnow)
    · have hdue' : now < down + bounceTime + holdTime := Nat.lt_of_not_le hdue
      by_cases hlt : now < up + bounceTime
      · refine (Phase.lifting h hup hnow hshort).still ?_
        exact Button.sleeps_down hdue' (decide_eq_true hlt)
      · have hat : now = up + bounceTime := by omega
        have hlow : pin.high = false := h.settled hlater (by simp; omega)
        rw [wishes_short (by omega), ← hat]
        exact .press hdue' (Nat.le_refl now) hroom hlow (Phase.rest now h hlow (by simpa using hup))
  | @told edges down h hnow =>
    obtain ⟨hphase, hsleeps⟩ := Phase.release_told h hlater hnow
    exact .quiet hphase hsleeps
  | @letGo edges up h hup hnow =>
    obtain ⟨hphase, hsleeps⟩ := Phase.release_letGo h hup hnow
    exact .quiet hphase hsleeps

/-! ## Time and the pin -/

/-- **A millisecond passes**, where the button has nothing left to do. -/
theorem Phase.wait (h : Phase pin now changes b pending) (hsleeps : b.sleeps pin (now + 1) = true)
    (hlater : ∀ c ∈ changes, now ≤ c.1) : Phase pin (now + 1) changes b pending := by
  cases h with
  | unread h => exact absurd hsleeps (by simp [Button.sleeps])
  | idle h hlow hprev =>
    exact .idle h hlow fun p hp => Nat.le_succ_of_le (hprev p hp)
  | trembling h hnew hup hnow =>
    simp [Button.sleeps, EdgeWatch.sleeps] at hsleeps
    omega
  | shaken h hdue hdue' hup hnow =>
    simp [Button.sleeps, EdgeWatch.sleeps] at hsleeps
    exact .shaken h hdue hdue' (by omega) hsleeps
  | pressed h hnew hnow =>
    simp [Button.sleeps, EdgeWatch.sleeps] at hsleeps
    omega
  | pressing h hnow =>
    simp [Button.sleeps, EdgeWatch.sleeps] at hsleeps
    exact .pressing h hsleeps
  | held h hdown hnow =>
    simp [Button.sleeps, EdgeWatch.sleeps] at hsleeps
    exact .held h (by omega) hsleeps
  | lifted h hnew hnow hshort =>
    simp [Button.sleeps, EdgeWatch.sleeps] at hsleeps
    omega
  | lifting h hup hnow hshort =>
    simp [Button.sleeps, EdgeWatch.sleeps] at hsleeps
    exact .lifting h (by omega) (by omega) (by omega)
  | told h hnow => exact .told h (by omega)
  | @letGo edges up h hup hnow =>
    by_cases hlt : now < up + bounceTime
    · exact .letGo h (by omega) hlt
    · -- a pin that has settled is low, and then the button would have gone on
      have hlow := h.settled hlater (by simp; omega)
      rw [Button.sleeps, hlow] at hsleeps
      exact absurd hsleeps (by simp)

/-- **The pin changes**, at an instant for which the button has nothing due. -/
theorem Phase.change {high : Bool}
    (h : Phase pin now ((now, high) :: changes) b pending) (hread : b ≠ .unread)
    (hdues : ∀ due ∈ b.dues, now < due) :
    Phase ⟨high, pin.changes + 1⟩ now changes b pending := by
  have hbounce := bounceTime_pos
  -- within twice the bounce time after an edge the finger does not move
  cases h with
  | unread h => exact absurd rfl hread
  | idle h hlow hprev =>
    obtain ⟨⟨up, hup, hnow⟩, hrest⟩ | ⟨edges, rfl, -, -, hrest⟩ := h.change
    · obtain rfl := hup
      exact .trembling hrest (Nat.lt_succ_self _) (hprev up rfl) hnow
    · exact .pressed hrest (Nat.lt_succ_self _) rfl
  | trembling h hnew hup hnow =>
    exact .trembling (h.bounce (by omega)) (Nat.lt_succ_of_lt hnew) hup hnow
  | shaken h hdue hdue' hup hnow => exact .shaken (h.bounce (by omega)) hdue hdue' hup hnow
  | pressed h hnew hnow => exact .pressed (h.bounce (by omega)) (Nat.lt_succ_of_lt hnew) hnow
  | pressing h hnow => exact .pressing (h.bounce (by omega)) hnow
  | held h hdown hnow =>
    obtain ⟨⟨down, hdown', hlt⟩, -⟩ | ⟨edges, rfl, -, -, hrest⟩ := h.change
    · cases hdown'
      omega
    · exact .lifted hrest (Nat.lt_succ_self _) rfl (hdues _ (by simp [Button.dues]))
  | lifted h hnew hnow hshort =>
    exact .lifted (h.bounce (by omega)) (Nat.lt_succ_of_lt hnew) hnow hshort
  | lifting h hup hnow hshort => exact .lifting (h.bounce (by omega)) hup hnow hshort
  | told h hnow =>
    obtain ⟨⟨down, hdown, hlt⟩, -⟩ | ⟨edges, rfl, -, -, hrest⟩ := h.change
    · cases hdown
      omega
    · exact .letGo hrest (Nat.le_refl _) (Nat.le_add_right _ _)
  | letGo h hup hnow => exact .letGo (h.bounce (by omega)) hup hnow

/-- What is due for a button that sleeps comes later. -/
theorem Button.dues_of_sleeps {wake : Nat} (h : b.sleeps pin wake = true) :
    ∀ due ∈ b.dues, wake ≤ due := by
  cases b with
  | unread | sending event | releasing => simp [dues]
  | up watch =>
    cases watch with
    | waiting high c => simp [dues, EdgeWatch.due?]
    | settling high due => simpa [dues, EdgeWatch.due?, sleeps, EdgeWatch.sleeps] using h
  | down due watch =>
    cases watch with
    | waiting high c =>
      simp only [sleeps, Bool.and_eq_true, decide_eq_true_iff] at h
      simpa [dues, EdgeWatch.due?] using h.1
    | settling high due' =>
      simpa [dues, EdgeWatch.due?, sleeps, EdgeWatch.sleeps] using h

/-- The wishes still to be told come later. -/
theorem Phase.later (h : Phase pin now changes b pending) (hdues : ∀ due ∈ b.dues, now < due)
    (hlater : ∀ c ∈ changes, now ≤ c.1) : ∀ w ∈ pending, now < w.1 := by
  have hbounce := bounceTime_pos
  -- a press without its release: every edge to come is later
  have press : ∀ {down : Nat} {edges : List Nat}, now < down + bounceTime + holdTime →
      (∀ e ∈ edges, now ≤ e) → ∀ w ∈ wishes (down :: edges), now < w.1 := by
    intro down edges hdown hedges
    refine lt_of_mem_wishes_cons hdown ?_ ?_
    · intro up hup
      have := hedges up (List.mem_of_mem_head? hup)
      omega
    · exact lt_of_mem_wishes fun e he => hedges e (List.mem_of_mem_tail he)
  have release : ∀ {down up : Nat} {edges : List Nat}, now < down + bounceTime + holdTime →
      now < up + bounceTime → (∀ e ∈ edges, now ≤ e) →
      ∀ w ∈ wishes (down :: up :: edges), now < w.1 := by
    intro down up edges hdown hup hedges
    refine lt_of_mem_wishes_cons hdown ?_ (lt_of_mem_wishes hedges)
    intro up' hup'
    cases hup'
    exact hup
  cases h with
  | unread h => exact lt_of_mem_wishes (h.edges_later hlater)
  | idle h hlow hprev => exact lt_of_mem_wishes (h.edges_later hlater)
  | trembling h hnew hup hnow => exact lt_of_mem_wishes (h.edges_later hlater)
  | shaken h hdue hdue' hup hnow => exact lt_of_mem_wishes (h.edges_later hlater)
  | pressed h hnew hnow => exact press (by omega) (h.edges_later hlater)
  | @pressing edges down h hnow =>
    have hlt := hdues (down + bounceTime) (by simp [Button.dues, EdgeWatch.due?])
    exact press (by omega) (h.edges_later hlater)
  | @held edges down h hdown hnow =>
    have hlt := hdues (down + bounceTime + holdTime) (by simp [Button.dues])
    exact press hlt (h.edges_later hlater)
  | lifted h hnew hnow hshort => exact release hshort (by omega) (h.edges_later hlater)
  | @lifting edges down up h hup hnow hshort =>
    have hlt := hdues (down + bounceTime + holdTime) (by simp [Button.dues, EdgeWatch.due?])
    have hlt' := hdues (up + bounceTime) (by simp [Button.dues, EdgeWatch.due?])
    exact release hlt hlt' (h.edges_later hlater)
  | told h hnow =>
    exact lt_of_mem_wishes fun e he => h.edges_later hlater e (List.mem_of_mem_tail he)
  | letGo h hup hnow => exact lt_of_mem_wishes (h.edges_later hlater)

end Phase

end BatteryCare
