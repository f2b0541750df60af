import BatteryCare.Device.Button

/-!
# What a finger does to the button

The button is meant to be pressed and released at certain instants, its edges. What the pin shows is
something else: every edge bounces for a while. A waveform is a series of pin changes that goes back
to edges in this way (`Waveform`). `Bouncing` is what is left of one while it passes: the rest of
the bounce after the last edge, and the edges to come.

What the user asks for is a matter of the edges alone (`wishes`).
-/

namespace BatteryCare

theorem bounceTime_pos : 0 < bounceTime := by decide

/-! ## Wishes -/

/-- What the user asks for with a press. -/
inductive Wish where
  /-- The speaker shall be switched on or off. -/
  | power
  /-- The other charge type shall be used. -/
  | chargeType
  deriving DecidableEq, Repr

/-- The wishes of a series of edges, the first of them a press, and when the device gets to know
them: a short press once its release has settled, a hold once its time is over. The last press may
still go on. -/
def wishes : List Nat → List (Nat × Wish)
  | [] => []
  | [down] => [(down + bounceTime + holdTime, .chargeType)]
  | down :: up :: edges =>
    (if up < down + holdTime then (up + bounceTime, .power)
      else (down + bounceTime + holdTime, .chargeType)) :: wishes edges

/-- A press that is over. -/
structure Press where
  down : Nat
  up : Nat
  deriving DecidableEq, Repr

namespace Press

def edges (p : Press) : List Nat := [p.down, p.up]

/-- A short press, not a hold. -/
def IsShort (p : Press) : Prop := p.up < p.down + holdTime

instance (p : Press) : Decidable p.IsShort := inferInstanceAs (Decidable (_ < _))

/-- What a press asks for. -/
def wish (p : Press) : Wish := if p.IsShort then .power else .chargeType

end Press

/-- Every press that is over has one wish. -/
theorem map_wishes_presses (presses : List Press) :
    (wishes (presses.flatMap Press.edges)).map Prod.snd = presses.map Press.wish := by
  induction presses with
  | nil => rfl
  | cons p rest ih =>
    have hsplit : (p :: rest).flatMap Press.edges
        = p.down :: p.up :: rest.flatMap Press.edges := rfl
    rw [hsplit, wishes, List.map_cons, List.map_cons, ih, Press.wish]
    by_cases hshort : p.IsShort
    · rw [if_pos hshort, if_pos (show p.up < p.down + holdTime from hshort)]
    · rw [if_neg hshort, if_neg (show ¬ p.up < p.down + holdTime from hshort)]

/-- A press is known once its release has settled. -/
theorem le_of_mem_wishes_presses {presses : List Press} {now : Nat}
    (h : ∀ p ∈ presses, p.up + bounceTime ≤ now) :
    ∀ w ∈ wishes (presses.flatMap Press.edges), w.1 ≤ now := by
  induction presses with
  | nil => exact fun w hw => absurd hw (by simp [wishes])
  | cons p rest ih =>
    intro w hw
    have hp := h p List.mem_cons_self
    have hsplit : (p :: rest).flatMap Press.edges
        = p.down :: p.up :: rest.flatMap Press.edges := rfl
    rw [hsplit, wishes] at hw
    rcases List.mem_cons.mp hw with rfl | hw
    · by_cases hshort : p.up < p.down + holdTime
      · rw [if_pos hshort]
        exact hp
      · rw [if_neg hshort]
        show p.down + bounceTime + holdTime ≤ now
        omega
    · exact ih (fun q hq => h q (List.mem_cons_of_mem p hq)) w hw

theorem count_power (presses : List Press) :
    (presses.map Press.wish).count .power = presses.countP fun p => p.IsShort := by
  rw [List.count_eq_countP, List.countP_map]
  refine List.countP_congr fun p _ => ?_
  by_cases hshort : p.IsShort
  · simp [Press.wish, hshort]
  · simp [Press.wish, hshort]

theorem count_chargeType (presses : List Press) :
    (presses.map Press.wish).count .chargeType = presses.countP fun p => ¬ p.IsShort := by
  rw [List.count_eq_countP, List.countP_map]
  refine List.countP_congr fun p _ => ?_
  by_cases hshort : p.IsShort
  · simp [Press.wish, hshort]
  · simp [Press.wish, hshort]

theorem lt_of_mem_wishes_cons {down now : Nat} {edges : List Nat}
    (hdown : now < down + bounceTime + holdTime) (hup : ∀ up ∈ edges.head?, now < up + bounceTime)
    (hrest : ∀ w ∈ wishes edges.tail, now < w.1) : ∀ w ∈ wishes (down :: edges), now < w.1 := by
  intro w hw
  cases edges with
  | nil =>
    rw [wishes] at hw
    rw [List.mem_singleton.mp hw]
    exact hdown
  | cons up edges =>
    rw [wishes] at hw
    rcases List.mem_cons.mp hw with rfl | hw
    · by_cases hshort : up < down + holdTime
      · rw [if_pos hshort]
        exact hup up rfl
      · rw [if_neg hshort]
        exact hdown
    · exact hrest w hw

/-- No wish is known before its press begins. -/
theorem lt_of_mem_wishes {edges : List Nat} {now : Nat} (h : ∀ e ∈ edges, now ≤ e) :
    ∀ w ∈ wishes edges, now < w.1 := by
  have hbounce := bounceTime_pos
  induction edges using wishes.induct with
  | case1 => exact fun w hw => absurd hw (by simp [wishes])
  | case2 down =>
    have hdown := h down List.mem_cons_self
    exact lt_of_mem_wishes_cons (by omega) (by simp) (by simp [wishes])
  | case3 down up edges ih =>
    have hdown := h down List.mem_cons_self
    have hup := h up (by simp)
    refine lt_of_mem_wishes_cons (by omega) ?_ (ih fun e he => h e (by simp [he]))
    intro up' hup'
    cases hup'
    omega

/-! ## Waveforms -/

/-- The level of a pin after some changes. -/
def levelAfter (high : Bool) (changes : List (Nat × Bool)) : Bool :=
  changes.foldl (fun _ change => change.2) high

/-- The changes of a pin that is meant to be at `level`, with its last edge at `prev`, and that goes
through these edges. They are at least twice the bounce time apart. Each of them bounces: more
changes may follow it, all within less than the bounce time, and end at the level it leads to. -/
inductive Waveform : Bool → Option Nat → List Nat → List (Nat × Bool) → Prop
  | still {level : Bool} {prev : Option Nat} : Waveform level prev [] []
  | edge {level : Bool} {prev : Option Nat} {e : Nat} {edges : List Nat}
      {bounce changes : List (Nat × Bool)} (hgap : ∀ p ∈ prev, p + 2 * bounceTime ≤ e)
      (hbounce : ∀ c ∈ bounce, c.1 < e + bounceTime)
      (hlevel : levelAfter (!level) bounce = !level)
      (h : Waveform (!level) (some e) edges changes) :
      Waveform level prev (e :: edges) ((e, !level) :: bounce ++ changes)

/-- What is left of a waveform when the pin is at `high`: the rest of a bounce, then the edges to
come. -/
def Bouncing (level : Bool) (prev : Option Nat) (edges : List Nat) (high : Bool)
    (changes : List (Nat × Bool)) : Prop :=
  ∃ bounce rest, changes = bounce ++ rest ∧ (∀ c ∈ bounce, ∃ p ∈ prev, c.1 < p + bounceTime)
    ∧ levelAfter high bounce = level ∧ Waveform level prev edges rest

section Bouncing

variable {level high : Bool} {prev : Option Nat} {edges : List Nat} {c : Nat × Bool}
  {changes : List (Nat × Bool)} {now : Nat}

theorem Waveform.bouncing (h : Waveform level prev edges changes) :
    Bouncing level prev edges level changes :=
  ⟨[], changes, rfl, by simp, rfl, h⟩

theorem Waveform.mem_changes (h : Waveform level prev edges changes) :
    ∀ e ∈ edges, ∃ c ∈ changes, c.1 = e := by
  induction h with
  | still => simp
  | edge hgap hbounce hlevel h ih =>
    intro e' he'
    rcases List.mem_cons.mp he' with rfl | he'
    · exact ⟨_, List.mem_append_left _ List.mem_cons_self, rfl⟩
    · obtain ⟨c, hc, hce⟩ := ih e' he'
      exact ⟨c, List.mem_append_right _ hc, hce⟩

theorem Bouncing.edges_later (h : Bouncing level prev edges high changes)
    (hlater : ∀ c ∈ changes, now ≤ c.1) : ∀ e ∈ edges, now ≤ e := by
  obtain ⟨bounce, rest, rfl, -, -, hrest⟩ := h
  intro e he
  obtain ⟨c, hc, rfl⟩ := hrest.mem_changes e he
  exact hlater c (List.mem_append_right _ hc)

/-- Once the bounce time is over, the pin shows its level. -/
theorem Bouncing.settled (h : Bouncing level prev edges high changes)
    (hlater : ∀ c ∈ changes, now ≤ c.1) (hprev : ∀ p ∈ prev, p + bounceTime ≤ now) :
    high = level := by
  obtain ⟨bounce, rest, rfl, hbounce, hlevel, -⟩ := h
  cases bounce with
  | nil => exact hlevel
  | cons c bounce =>
    obtain ⟨p, hp, hc⟩ := hbounce c List.mem_cons_self
    have := hlater c (by simp)
    have := hprev p hp
    omega

/-- **A change is a bounce or an edge**, and its time tells which. -/
theorem Bouncing.change (h : Bouncing level prev edges high (c :: changes)) :
    (∃ p ∈ prev, c.1 < p + bounceTime) ∧ Bouncing level prev edges c.2 changes
      ∨ ∃ edges', edges = c.1 :: edges' ∧ (∀ p ∈ prev, p + 2 * bounceTime ≤ c.1) ∧ high = level
        ∧ Bouncing (!level) (some c.1) edges' c.2 changes := by
  obtain ⟨bounce, rest, hsplit, hbounce, hlevel, hrest⟩ := h
  cases bounce with
  | cons b bounce =>
    obtain ⟨rfl, rfl⟩ := List.cons.inj hsplit
    exact Or.inl ⟨hbounce c List.mem_cons_self,
      ⟨bounce, rest, rfl, fun b hb => hbounce b (List.mem_cons_of_mem c hb), hlevel, hrest⟩⟩
  | nil =>
    rw [List.nil_append] at hsplit
    subst hsplit
    cases hrest with
    | edge hgap hbounce' hlevel' hrest' =>
      refine Or.inr ⟨_, rfl, hgap, hlevel, ?_⟩
      exact ⟨_, _, rfl, fun b hb => ⟨_, rfl, hbounce' b hb⟩, hlevel', hrest'⟩

/-- A change too early for an edge is a bounce. -/
theorem Bouncing.bounce {prev : Nat} (h : Bouncing level (some prev) edges high (c :: changes))
    (hearly : c.1 < prev + 2 * bounceTime) : Bouncing level (some prev) edges c.2 changes := by
  obtain ⟨-, hrest⟩ | ⟨edges', -, hgap, -⟩ := h.change
  · exact hrest
  · have := hgap prev rfl
    omega

end Bouncing

end BatteryCare
