import BatteryCare.Charger.Cycle

/-!
# What the charger can do in one tick

`Charger.step` is taken apart once, here. Seven moves cover every tick (`step_move`): five of them
change the status, and two leave it and wait for a counter. Whatever is claimed of a tick is read
off the moves, and whatever is claimed of a run follows by induction over `Charger.run`.

The counters never pass the number of ticks they wait for, so the saturation of the byte in
`Debounce.qualify` is out of reach (`qualify_count`).
-/

namespace BatteryCare

/-- Ticks that a pending transition waits for. The tick that commits it counts too. -/
def ChargerConfig.ticksNeeded (c : ChargerConfig) : Nat := max c.debounceTicks.toNat 1

/-- The sample lets a cycle go on: the supply is there, temperature and voltage are fine. -/
def Sample.Safe (c : ChargerConfig) (s : Sample) : Prop :=
  s.plugged = true ∧ s.thermalAllowed = true ∧ c.minVoltage ≤ s.voltage

instance (c : ChargerConfig) (s : Sample) : Decidable (s.Safe c) :=
  inferInstanceAs (Decidable (_ ∧ _))

theorem ChargerConfig.ticksNeeded_le (c : ChargerConfig) : c.ticksNeeded ≤ 255 := by
  have := c.debounceTicks.toNat_lt
  unfold ChargerConfig.ticksNeeded
  omega

theorem ChargerConfig.ticksNeeded_pos (c : ChargerConfig) : 1 ≤ c.ticksNeeded :=
  Nat.le_max_right _ _

/-! ## Counters -/

namespace Debounce

theorem condition_of_commit {d : Debounce} {condition : Bool} {required : UInt8}
    (h : (d.qualify condition required).2 = true) : condition = true := by
  cases condition with
  | false => exact absurd h (by simp [qualify])
  | true => rfl

/-- Below the last value a counter counts on, and commits once it has the required number. -/
theorem qualify_count {d : Debounce} (required : UInt8) (h : d.count.toNat < 255) :
    (d.qualify true required).1.count.toNat = d.count.toNat + 1
      ∧ ((d.qualify true required).2 = true ↔ max required.toNat 1 ≤ d.count.toNat + 1) := by
  have hlt : d.count < limit := UInt8.lt_iff_toNat_lt.mpr h
  have hadd : (d.count + 1).toNat = d.count.toNat + 1 := by
    rw [UInt8.toNat_add]
    exact Nat.mod_eq_of_lt (by change d.count.toNat + 1 < 256; omega)
  have hrw : d.qualify true required = (⟨d.count + 1⟩, decide (required ≤ d.count + 1)) := by
    simp [qualify, hlt]
  refine ⟨by rw [hrw]; exact hadd, ?_⟩
  rw [hrw, decide_eq_true_iff, UInt8.le_iff_toNat_le, hadd]
  omega

/-- A count below the number of ticks it waits for stays below it unless it commits. -/
theorem qualify_lt {c : ChargerConfig} {d : Debounce} {condition : Bool}
    (h : d.count.toNat < c.ticksNeeded)
    (hq : (d.qualify condition c.debounceTicks).2 = false) :
    (d.qualify condition c.debounceTicks).1.count.toNat < c.ticksNeeded := by
  cases condition with
  | false => exact c.ticksNeeded_pos
  | true =>
    obtain ⟨hcount, hcommit⟩ :=
      qualify_count c.debounceTicks (Nat.lt_of_lt_of_le h c.ticksNeeded_le)
    have hshort : ¬ c.ticksNeeded ≤ d.count.toNat + 1 := by
      intro hle
      exact absurd (hcommit.mpr hle) (by simp [hq])
    rw [hcount]
    omega

end Debounce

/-! ## Moves -/

namespace Charger

/-- The moves of the charger on one sample, each with the charger after it and its calls. -/
inductive Move (c : Charger) (s : Sample) : Charger → List CircuitCall → Prop
  /-- The circuit may be in any state after boot or a replug. -/
  | reset (hc : c.status = .notConnected) : Move c s (c.enter .inactive) [.disable]
  /-- The supply is gone while nothing charges. -/
  | unplug (hc : c.status = .inactive) (hs : s.plugged = false) :
      Move c s (c.enter .notConnected) []
  /-- A cycle starts. -/
  | start (hc : c.status = .inactive) (hs : s.plugged = true)
      (hq : (c.start.qualify (mayStart c.config s) c.config.debounceTicks).2 = true) :
      Move c s (c.enter .active) [.enable s.mode]
  /-- No cycle starts yet. -/
  | hold (hc : c.status = .inactive) (hs : s.plugged = true)
      (hq : (c.start.qualify (mayStart c.config s) c.config.debounceTicks).2 = false) :
      Move c s
        { c with start := (c.start.qualify (mayStart c.config s) c.config.debounceTicks).1 } []
  /-- An unsafe sample ends the cycle. -/
  | cut (hc : c.status = .active) (hs : isSafe c.config s = false) :
      Move c s (c.enter .inactive) [.disable]
  /-- The cycle ends on a full pack. -/
  | finish (hc : c.status = .active) (hs : isSafe c.config s = true)
      (hq : (c.full.qualify (isFull c.config s) c.config.debounceTicks).2 = true) :
      Move c s (c.enter .inactive) [.disable, .fullCharge]
  /-- The cycle goes on. -/
  | charge (hc : c.status = .active) (hs : isSafe c.config s = true)
      (hq : (c.full.qualify (isFull c.config s) c.config.debounceTicks).2 = false) :
      Move c s
        { c with full := (c.full.qualify (isFull c.config s) c.config.debounceTicks).1 } []

/-- **Every tick is one of the moves.** -/
theorem step_move (c : Charger) (s : Sample) : Move c s (c.step s).1 (c.step s).2 := by
  unfold step
  split
  · rename_i hc
    exact Move.reset hc
  · rename_i hc
    split
    · rename_i hs
      exact Move.unplug hc (by simpa using hs)
    · rename_i hs
      have hs' : s.plugged = true := by simpa using hs
      dsimp only
      split
      · rename_i hq
        exact Move.start hc hs' hq
      · rename_i hq
        exact Move.hold hc hs' (by simpa using hq)
  · rename_i hc
    split
    · rename_i hs
      exact Move.cut hc (by simpa using hs)
    · rename_i hs
      have hs' : isSafe c.config s = true := by simpa using hs
      dsimp only
      split
      · rename_i hq
        exact Move.finish hc hs' hq
      · rename_i hq
        exact Move.charge hc hs' (by simpa using hq)

theorem Move.config_eq {c c' : Charger} {s : Sample} {calls : List CircuitCall}
    (h : Move c s c' calls) : c'.config = c.config := by
  cases h <;> rfl

theorem isSafe_iff {c : ChargerConfig} {s : Sample} : isSafe c s = true ↔ s.Safe c := by
  simp only [isSafe, Sample.Safe, Bool.and_eq_true, decide_eq_true_eq]
  constructor
  · rintro ⟨⟨h1, h2⟩, h3⟩
    exact ⟨h3, h1, h2⟩
  · rintro ⟨h1, h2, h3⟩
    exact ⟨⟨h2, h3⟩, h1⟩

theorem isSafe_of_mayStart {c : ChargerConfig} {s : Sample} (h : mayStart c s = true) :
    isSafe c s = true := by
  simp only [mayStart, Bool.and_eq_true] at h
  exact h.1

/-- **A tick that ends active ran on a safe sample.** -/
theorem Move.safe_of_active {c c' : Charger} {s : Sample} {calls : List CircuitCall}
    (h : Move c s c' calls) (ha : c'.status = .active) : s.Safe c.config := by
  cases h with
  | reset hc => exact absurd ha (by simp [enter])
  | unplug hc hs => exact absurd ha (by simp [enter])
  | start hc hs hq => exact isSafe_iff.mp (isSafe_of_mayStart (Debounce.condition_of_commit hq))
  | hold hc hs hq => exact absurd (hc.symm.trans ha) (by simp)
  | cut hc hs => exact absurd ha (by simp [enter])
  | finish hc hs hq => exact absurd ha (by simp [enter])
  | charge hc hs hq => exact isSafe_iff.mp hs

end Charger

/-! ## Runs -/

/-- One tick of a run, seen from outside. -/
structure ChargerTick where
  /-- The status in which the sample was processed. -/
  before : ChargerStatus
  sample : Sample
  calls : List CircuitCall
  after : ChargerStatus
  deriving DecidableEq, Repr

namespace Charger

def tick (c : Charger) (s : Sample) : ChargerTick :=
  ⟨c.status, s, (c.step s).2, (c.step s).1.status⟩

/-- The ticks on a series of samples. -/
def run (c : Charger) : List Sample → List ChargerTick
  | [] => []
  | s :: rest => c.tick s :: (c.step s).1.run rest

/-- The charger after a series of samples. -/
def after (c : Charger) : List Sample → Charger
  | [] => c
  | s :: rest => (c.step s).1.after rest

theorem after_config (c : Charger) (samples : List Sample) :
    (c.after samples).config = c.config := by
  induction samples generalizing c with
  | nil => rfl
  | cons s rest ih => rw [after, ih, (step_move c s).config_eq]

theorem run_concat (c : Charger) (xs : List Sample) (s : Sample) :
    c.run (xs ++ [s]) = c.run xs ++ [(c.after xs).tick s] := by
  induction xs generalizing c with
  | nil => rfl
  | cons x xs ih => rw [List.cons_append, run, ih, run, after, List.cons_append]

theorem after_append (c : Charger) (xs ys : List Sample) :
    c.after (xs ++ ys) = (c.after xs).after ys := by
  induction xs generalizing c with
  | nil => rfl
  | cons x xs ih => rw [List.cons_append, after, ih, after]

theorem after_concat (c : Charger) (xs : List Sample) (s : Sample) :
    c.after (xs ++ [s]) = ((c.after xs).step s).1 := by
  rw [after_append]
  rfl

theorem run_split {c : Charger} {samples : List Sample} {past rest : List ChargerTick}
    {t : ChargerTick} (h : c.run samples = past ++ t :: rest) :
    ∃ xs s ys, samples = xs ++ s :: ys ∧ past = c.run xs ∧ t = (c.after xs).tick s := by
  induction samples generalizing c past with
  | nil => exact absurd h (by simp [run])
  | cons x samples ih =>
    cases past with
    | nil =>
      obtain ⟨ht, _⟩ := List.cons.inj h
      exact ⟨[], x, samples, rfl, rfl, ht.symm⟩
    | cons p past =>
      obtain ⟨hp, htail⟩ := List.cons.inj h
      obtain ⟨xs, s, ys, hsamples, hpast, ht⟩ := ih htail
      refine ⟨x :: xs, s, ys, by rw [hsamples]; rfl, ?_, ht⟩
      rw [run, ← hp, hpast]

/-- A property of every single tick holds of every tick of a run. -/
theorem forall_mem_run {c : Charger} {samples : List Sample} {P : ChargerTick → Prop}
    (h : ∀ c' : Charger, c'.config = c.config → ∀ s, P (c'.tick s)) :
    ∀ t ∈ c.run samples, P t := by
  intro t ht
  obtain ⟨past, rest, hsplit⟩ := List.append_of_mem ht
  obtain ⟨xs, s, _, _, _, rfl⟩ := run_split hsplit
  exact h _ (after_config c xs) s

end Charger

end BatteryCare
