import BatteryCare.Proofs.Device.Sleep
import Mathlib.Data.List.Basic

/-!
# Bursts

What the lamp has done is read off its outputs with their times: the duties of the two lights, and
of the red one the series of its changes. The lamp takes an alert at some instant, and from then on
its burst runs by a timetable (`burstLog`), phase after phase, whatever happens in between. So the
state of the lamp says which bursts are over, and how many phases of the running one have begun
(`Blinks`).
-/

namespace BatteryCare

/-! ## The two lights -/

/-- The duties of the lights. -/
structure Lights where
  red : UInt16 := 0
  green : UInt16 := 0
  deriving DecidableEq

/-- The lights after an output. A light that is set up is off. -/
def Lights.after (l : Lights) : LampOutput → Lights
  | .setUp .red _ => { l with red := 0 }
  | .setUp .green _ => { l with green := 0 }
  | .duty .red duty => { l with red := duty }
  | .duty .green duty => { l with green := duty }

def lightsAfter (outputs : List LampOutput) : Lights := outputs.foldl Lights.after {}

/-- At no point are both lights on. -/
def Apart (outputs : List LampOutput) : Prop :=
  ∀ earlier, earlier <+: outputs → (lightsAfter earlier).red = 0 ∨ (lightsAfter earlier).green = 0

section Lights

variable {outputs : List LampOutput}

theorem lightsAfter_concat (outputs : List LampOutput) (output : LampOutput) :
    lightsAfter (outputs ++ [output]) = (lightsAfter outputs).after output :=
  List.foldl_append

theorem apart_nil : Apart [] := by
  intro earlier h
  rw [List.prefix_nil.mp h]
  exact .inl rfl

theorem Apart.concat (h : Apart outputs) {output : LampOutput}
    (hlights : ((lightsAfter outputs).after output).red = 0
      ∨ ((lightsAfter outputs).after output).green = 0) : Apart (outputs ++ [output]) := by
  intro earlier hearlier
  rcases List.prefix_concat_iff.mp hearlier with rfl | hearlier
  · rw [lightsAfter_concat]
    exact hlights
  · exact h earlier hearlier

end Lights

/-! ## The timetable of a burst -/

def LampOutput.red? : LampOutput → Option UInt16
  | .duty .red value => some value
  | .duty .green _ | .setUp _ _ => none

/-- The duties of the red light among outputs with their times. -/
def redDuties (outputs : List (Nat × LampOutput)) : List (Nat × UInt16) :=
  outputs.filterMap fun o => o.2.red?.map (o.1, ·)

/-- Flashes from a time on, each with red on for a phase and off for another one. -/
def flashes (top : UInt16) (start phase count : Nat) : List (Nat × UInt16) :=
  (List.range count).flatMap fun i =>
    [(start + 2 * i * phase, top), (start + (2 * i + 1) * phase, 0)]

/-- The burst of an alert that is taken at a time. -/
def burstLog (top : UInt16) : Nat × AlertLevel → List (Nat × UInt16)
  | (start, .low) => flashes top start 400 3
  | (start, .critical) => flashes top start 150 8

example : burstLog 9 (100, .low)
    = [(100, 9), (500, 0), (900, 9), (1300, 0), (1700, 9), (2100, 0)] := by rfl

/-- When a burst is over. -/
def burstEnd (take : Nat × AlertLevel) : Nat :=
  take.1 + 2 * take.2.burst.flashes * take.2.burst.phase

theorem start_le_burstEnd (take : Nat × AlertLevel) : take.1 ≤ burstEnd take :=
  Nat.le_add_right _ _

/-- The first phases of a burst: red on and off in turn. -/
def phasesOf (top : UInt16) (take : Nat × AlertLevel) (count : Nat) : List (Nat × UInt16) :=
  (List.range count).map fun i => (take.1 + i * take.2.burst.phase, if i % 2 = 0 then top else 0)

/-- A burst consists of its phases. -/
theorem burstLog_eq (top : UInt16) (start : Nat) (level : AlertLevel) :
    burstLog top (start, level) = phasesOf top (start, level) (2 * level.burst.flashes) := by
  cases level with
  | low => rfl
  | critical => rfl

theorem phasesOf_succ (top : UInt16) (take : Nat × AlertLevel) (count : Nat) :
    phasesOf top take (count + 1) = phasesOf top take count
      ++ [(take.1 + count * take.2.burst.phase, if count % 2 = 0 then top else 0)] := by
  rw [phasesOf, List.range_succ, List.map_append]
  rfl

theorem redDuties_append (xs ys : List (Nat × LampOutput)) :
    redDuties (xs ++ ys) = redDuties xs ++ redDuties ys :=
  List.filterMap_append

section Emit

variable {outputs : List (Nat × LampOutput)}

theorem redDuties_emit (outputs : List (Nat × LampOutput)) (now : Nat) (value : UInt16) :
    redDuties (outputs ++ [(now, .duty .red value)]) = redDuties outputs ++ [(now, value)] :=
  redDuties_append _ _

/-- The lights after one more output. -/
theorem lightsAfter_emit (outputs : List (Nat × LampOutput)) (now : Nat) (output : LampOutput) :
    lightsAfter ((outputs ++ [(now, output)]).map Prod.snd)
      = (lightsAfter (outputs.map Prod.snd)).after output := by
  rw [List.map_append]
  exact lightsAfter_concat _ _

theorem Apart.emit (h : Apart (outputs.map Prod.snd)) (now : Nat) {output : LampOutput}
    (hlights : ((lightsAfter (outputs.map Prod.snd)).after output).red = 0
      ∨ ((lightsAfter (outputs.map Prod.snd)).after output).green = 0) :
    Apart ((outputs ++ [(now, output)]).map Prod.snd) := by
  rw [List.map_append]
  exact h.concat hlights

end Emit

/-- So many phases of the last burst have begun, after the bursts that are done, and the next change
is due. -/
structure InBurst (boot : Nat) (top : UInt16) (now : Nat) (outputs : List (Nat × LampOutput))
    (done : List (Nat × AlertLevel)) (start : Nat) (level : AlertLevel) (count due : Nat) :
    Prop where
  due_eq : due = start + count * level.burst.phase
  ahead : now ≤ due
  begun : due ≤ now + level.burst.phase
  red : redDuties outputs
    = (boot, 0) :: (done.flatMap (burstLog top) ++ phasesOf top (start, level) count)
  past : ∀ take ∈ done, burstEnd take ≤ start

/-- Where a lamp is in its bursts: the lights, the changes of the red one, and what is over and what
has begun of the alerts that it took. -/
inductive Blinks (boot : Nat) (top : UInt16) (now : Nat) (outputs : List (Nat × LampOutput))
    (takes : List (Nat × AlertLevel)) : Lamp → Prop
  /-- The lamp has not had a turn. -/
  | dark (hboot : now = boot) (houtputs : outputs = []) (htakes : takes = []) :
      Blinks boot top now outputs takes .dark
  /-- All bursts are over. -/
  | watching (due : Nat) (hnow : now ≤ due)
      (hred : redDuties outputs = (boot, 0) :: takes.flatMap (burstLog top))
      (hover : ∀ take ∈ takes, burstEnd take ≤ now)
      (hoff : (lightsAfter (outputs.map Prod.snd)).red = 0) :
      Blinks boot top now outputs takes (.watching due)
  /-- After `i` flashes of the last burst, the next one is on. -/
  | lit (done : List (Nat × AlertLevel)) (start : Nat) (level : AlertLevel) (i left due : Nat)
      (htakes : takes = done ++ [(start, level)]) (hleft : i + 1 + left = level.burst.flashes)
      (hburst : InBurst boot top now outputs done start level (2 * i + 1) due)
      (hgreen : (lightsAfter (outputs.map Prod.snd)).green = 0) :
      Blinks boot top now outputs takes (.lit level left due)
  /-- Red is off after the flash that follows `i` others. -/
  | unlit (done : List (Nat × AlertLevel)) (start : Nat) (level : AlertLevel) (i left due : Nat)
      (htakes : takes = done ++ [(start, level)]) (hleft : i + 1 + left = level.burst.flashes)
      (hburst : InBurst boot top now outputs done start level (2 * i + 2) due)
      (hoff : lightsAfter (outputs.map Prod.snd) = {}) :
      Blinks boot top now outputs takes (.unlit level left due)

/-- What is on record of a lamp. -/
structure Recorded (boot : Nat) (top : UInt16) (now : Nat) (lamp : Lamp)
    (outputs : List (Nat × LampOutput)) (takes : List (Nat × AlertLevel)) : Prop where
  apart : Apart (outputs.map Prod.snd)
  /-- A burst is over before a later one begins. -/
  spaced : takes.Pairwise fun first second => burstEnd first ≤ second.1
  blinks : Blinks boot top now outputs takes lamp

section InBurst

variable {boot now start count due : Nat} {top : UInt16} {level : AlertLevel}
  {outputs : List (Nat × LampOutput)} {done : List (Nat × AlertLevel)}

/-- The change that is due begins the next phase, at the very instant at which it was to begin. -/
theorem InBurst.next (h : InBurst boot top now outputs done start level count due)
    (hdue : due ≤ now) :
    InBurst boot top now
      (outputs ++ [(now, .duty .red (if count % 2 = 0 then top else 0))]) done start level
      (count + 1) (now + level.burst.phase) := by
  have hnow : now = start + count * level.burst.phase := by
    rw [← h.due_eq]
    exact Nat.le_antisymm h.ahead hdue
  refine ⟨?_, Nat.le_add_right _ _, Nat.le_refl _, ?_, h.past⟩
  · rw [Nat.succ_mul, ← Nat.add_assoc, ← hnow]
  · rw [redDuties_emit, h.red, phasesOf_succ, ← hnow, List.cons_append, List.append_assoc]

theorem InBurst.wait (h : InBurst boot top now outputs done start level count due)
    (hahead : now < due) : InBurst boot top (now + 1) outputs done start level count due :=
  ⟨h.due_eq, hahead, Nat.le_trans h.begun (by omega), h.red, h.past⟩

theorem InBurst.start_le (h : InBurst boot top now outputs done start level (count + 1) due) :
    start ≤ now := by
  have hbegun := h.begun
  rw [h.due_eq, Nat.succ_mul] at hbegun
  omega

theorem InBurst.take_le (h : InBurst boot top now outputs done start level (count + 1) due) :
    ∀ take ∈ done ++ [(start, level)], take.1 ≤ now := by
  intro take htake
  rcases List.mem_append.mp htake with htake | htake
  · calc take.1 ≤ burstEnd take := start_le_burstEnd take
      _ ≤ start := h.past take htake
      _ ≤ now := h.start_le
  · rw [List.mem_singleton.mp htake]
    exact h.start_le

/-- A phase ends by the end of the burst. -/
theorem InBurst.due_le (h : InBurst boot top now outputs done start level count due)
    (hcount : count ≤ 2 * level.burst.flashes) : due ≤ burstEnd (start, level) := by
  rw [h.due_eq]
  exact Nat.add_le_add_left (Nat.mul_le_mul_right _ hcount) start

end InBurst

section Recorded

variable {boot now : Nat} {pwm : Pwm} {lamp : Lamp} {outputs : List (Nat × LampOutput)}
  {takes : List (Nat × AlertLevel)}

theorem recorded_dark (boot : Nat) (top : UInt16) : Recorded boot top boot .dark [] [] :=
  ⟨apart_nil, .nil, .dark rfl rfl rfl⟩

/-- A lamp that has not had a turn turns both lights off. -/
theorem Recorded.start (h : Recorded boot pwm.top now lamp outputs takes) :
    Recorded boot pwm.top now (lamp.start pwm now).lamp
      (outputs ++ (lamp.start pwm now).outputs.map (now, ·)) takes := by
  obtain ⟨hapart, hspaced, hblinks⟩ := h
  have still : Recorded boot pwm.top now lamp (outputs ++ []) takes := by
    rw [List.append_nil]
    exact ⟨hapart, hspaced, hblinks⟩
  cases hblinks with
  | dark hboot houtputs htakes =>
    subst houtputs htakes
    have hfirst : Apart [.setUp .red pwm, .setUp .green pwm, .duty .red 0, .duty .green 0] :=
      (((apart_nil.concat (.inl rfl)).concat (.inl rfl)).concat (.inl rfl)).concat (.inl rfl)
    refine ⟨hfirst, .nil, .watching _ (Nat.le_add_right _ _) ?_ (by simp) rfl⟩
    rw [hboot]
    rfl
  | watching | lit | unlit => exact still

/-- Green shows the charger status while red is off. -/
theorem Recorded.refresh (hapart : Apart (outputs.map Prod.snd))
    (hspaced : takes.Pairwise fun first second => burstEnd first ≤ second.1)
    (hred : redDuties outputs = (boot, 0) :: takes.flatMap (burstLog pwm.top))
    (hover : ∀ take ∈ takes, burstEnd take ≤ now)
    (hoff : (lightsAfter (outputs.map Prod.snd)).red = 0) (charging : Bool) :
    Recorded boot pwm.top now (Lamp.refresh pwm now charging).lamp
      (outputs ++ (Lamp.refresh pwm now charging).outputs.map (now, ·)) takes := by
  refine ⟨hapart.emit now (.inl hoff), hspaced, .watching _ (Nat.le_add_right _ _) ?_ hover ?_⟩
  · rw [redDuties_append, hred]
    exact List.append_nil _
  · exact (congrArg Lights.red (lightsAfter_emit _ _ _)).trans hoff

/-- A flash ends. -/
theorem Recorded.darken {done : List (Nat × AlertLevel)} {start i left due : Nat}
    {level : AlertLevel} (h : Recorded boot pwm.top now (.lit level left due) outputs takes)
    (htakes : takes = done ++ [(start, level)]) (hleft : i + 1 + left = level.burst.flashes)
    (hburst : InBurst boot pwm.top now outputs done start level (2 * i + 1) due)
    (hgreen : (lightsAfter (outputs.map Prod.snd)).green = 0) (hdue : due ≤ now) :
    Recorded boot pwm.top now (.unlit level left (now + level.burst.phase))
      (outputs ++ [(now, .duty .red 0)]) takes := by
  have hlights : (lightsAfter (outputs.map Prod.snd)).after (.duty .red 0) = {} := by
    rw [Lights.after, hgreen]
  have hnext := hburst.next hdue
  rw [if_neg (by omega)] at hnext
  exact ⟨h.apart.emit now (.inl (by rw [hlights])), h.spaced, .unlit done start level i left _
    htakes hleft hnext ((lightsAfter_emit _ _ _).trans hlights)⟩

/-- The next flash begins. -/
theorem Recorded.relight {done : List (Nat × AlertLevel)} {start i left due : Nat}
    {level : AlertLevel} (h : Recorded boot pwm.top now (.unlit level (left + 1) due) outputs takes)
    (htakes : takes = done ++ [(start, level)]) (hleft : i + 1 + (left + 1) = level.burst.flashes)
    (hburst : InBurst boot pwm.top now outputs done start level (2 * i + 2) due)
    (hoff : lightsAfter (outputs.map Prod.snd) = {}) (hdue : due ≤ now) :
    Recorded boot pwm.top now (.lit level left (now + level.burst.phase))
      (outputs ++ [(now, .duty .red pwm.top)]) takes := by
  have hlights : (lightsAfter (outputs.map Prod.snd)).after (.duty .red pwm.top)
      = { red := pwm.top } := by
    rw [hoff]
    rfl
  have hnext := hburst.next hdue
  rw [if_pos (by omega)] at hnext
  exact ⟨h.apart.emit now (.inr (by rw [hlights])), h.spaced, .lit done start level (i + 1) left _
    htakes (by omega) hnext (congrArg Lights.green ((lightsAfter_emit _ _ _).trans hlights))⟩

/-- After the last flash the burst is over, and green shows the charger status again. -/
theorem Recorded.finish {done : List (Nat × AlertLevel)} {start i due : Nat} {level : AlertLevel}
    (h : Recorded boot pwm.top now (.unlit level 0 due) outputs takes)
    (htakes : takes = done ++ [(start, level)]) (hlast : i + 1 = level.burst.flashes)
    (hburst : InBurst boot pwm.top now outputs done start level (2 * i + 2) due)
    (hoff : lightsAfter (outputs.map Prod.snd) = {}) (hdue : due ≤ now) (charging : Bool) :
    Recorded boot pwm.top now (Lamp.refresh pwm now charging).lamp
      (outputs ++ (Lamp.refresh pwm now charging).outputs.map (now, ·)) takes := by
  -- none are left, so the phases that have begun are all of them
  have hlength : 2 * i + 2 = 2 * level.burst.flashes := by omega
  refine Recorded.refresh h.apart h.spaced ?_ ?_ (by rw [hoff]) charging
  · rw [hburst.red, hlength, ← burstLog_eq, htakes, List.flatMap_append, List.flatMap_singleton]
  · have hend : start + 2 * level.burst.flashes * level.burst.phase ≤ now := by
      rw [← hlength, ← hburst.due_eq]
      exact hdue
    intro take htake
    rw [htakes] at htake
    rcases List.mem_append.mp htake with htake | htake
    · exact Nat.le_trans (hburst.past take htake) hburst.start_le
    · rw [List.mem_singleton.mp htake]
      exact hend

/-- What is due is the end of a phase, or the next look at the charger. -/
theorem Recorded.advance (h : Recorded boot pwm.top now lamp outputs takes) (charging : Bool) :
    Recorded boot pwm.top now (lamp.advance pwm now charging).lamp
      (outputs ++ (lamp.advance pwm now charging).outputs.map (now, ·)) takes := by
  have still : Recorded boot pwm.top now lamp (outputs ++ []) takes := by
    rw [List.append_nil]
    exact h
  -- one case for each state of the lamp, and in each the time is up or nothing happens
  cases h.blinks with
  | dark => exact still
  | watching due hnow hred hover hoff =>
    rw [Lamp.advance]
    split
    · exact Recorded.refresh h.apart h.spaced hred hover hoff charging
    · exact still
  | lit done start level i left due htakes hleft hburst hgreen =>
    rw [Lamp.advance]
    split
    · rename_i hdue
      exact h.darken htakes hleft hburst hgreen hdue
    · exact still
  | unlit done start level i left due htakes hleft hburst hoff =>
    cases left with
    | zero =>
      rw [Lamp.advance]
      split
      · rename_i hdue
        exact h.finish htakes hleft hburst hoff hdue charging
      · exact still
    | succ left =>
      rw [Lamp.advance]
      split
      · rename_i hdue
        exact h.relight htakes hleft hburst hoff hdue
      · exact still

/-- An alert is taken while the lamp watches: green goes off before red goes on. -/
theorem Recorded.take {due : Nat}
    (h : Recorded boot pwm.top now (.watching due) outputs takes)
    (hred : redDuties outputs = (boot, 0) :: takes.flatMap (burstLog pwm.top))
    (hover : ∀ take ∈ takes, burstEnd take ≤ now)
    (hoff : (lightsAfter (outputs.map Prod.snd)).red = 0) (level : AlertLevel) :
    Recorded boot pwm.top now
      (.lit level (level.burst.flashes - 1) (now + level.burst.phase))
      ((outputs ++ [(now, .duty .green 0)]) ++ [(now, .duty .red pwm.top)])
      (takes ++ [(now, level)]) := by
  have hoffBoth : (lightsAfter (outputs.map Prod.snd)).after (.duty .green 0) = {} := by
    rw [Lights.after, hoff]
  have hon : (lightsAfter ((outputs ++ [(now, LampOutput.duty .green 0)]).map Prod.snd)).after
      (.duty .red pwm.top) = { red := pwm.top } := by
    rw [lightsAfter_emit, hoffBoth]
    rfl
  -- a burst of which no phase has begun
  have hburst : InBurst boot pwm.top now (outputs ++ [(now, .duty .green 0)]) takes now level 0
      now := by
    refine ⟨?_, Nat.le_refl _, Nat.le_add_right _ _, ?_, hover⟩
    · rw [Nat.zero_mul, Nat.add_zero]
    · rw [redDuties_append, hred]
      rfl
  have hflashes : 0 + 1 + (level.burst.flashes - 1) = level.burst.flashes := by
    cases level with
    | low | critical => rfl
  refine ⟨(h.apart.emit now (.inl (by rw [hoffBoth]))).emit now (.inr (by rw [hon])), ?_,
    .lit takes now level 0 _ _ rfl hflashes (hburst.next (Nat.le_refl _))
      (congrArg Lights.green ((lightsAfter_emit _ _ _).trans hon))⟩
  refine List.pairwise_append.mpr ⟨h.spaced, List.pairwise_singleton _ _, ?_⟩
  intro take htake next hnext
  rw [List.mem_singleton.mp hnext]
  exact hover take htake

/-- An alert that the lamp takes begins its burst. -/
theorem Recorded.notice (h : Recorded boot pwm.top now lamp outputs takes)
    (alert : Option AlertLevel) :
    Recorded boot pwm.top now (lamp.notice pwm now alert).lamp
      (outputs ++ (lamp.notice pwm now alert).outputs.map (now, ·))
      (takes ++ (lamp.notice pwm now alert).taken.toList.map (now, ·)) := by
  have still : Recorded boot pwm.top now lamp (outputs ++ []) (takes ++ []) := by
    rw [List.append_nil, List.append_nil]
    exact h
  cases h.blinks with
  | dark | lit | unlit => exact still
  | watching due hnow hred hover hoff =>
    cases alert with
    | none => exact still
    | some level =>
      have htake := h.take hred hover hoff level
      rw [List.append_assoc] at htake
      exact htake

/-- **A turn of the lamp** keeps to the timetables of the bursts. -/
theorem Recorded.poll (h : Recorded boot pwm.top now lamp outputs takes) (charging : Bool)
    (alert : Option AlertLevel) :
    Recorded boot pwm.top now (lamp.poll pwm now charging alert).lamp
      (outputs ++ (lamp.poll pwm now charging alert).outputs.map (now, ·))
      (takes ++ (lamp.poll pwm now charging alert).taken.toList.map (now, ·)) := by
  have hnoticed := (h.start.advance charging).notice alert
  rw [List.append_assoc, List.append_assoc, ← List.map_append, ← List.map_append,
    ← List.append_assoc] at hnoticed
  exact hnoticed

/-- The lamp takes no alert but the one that waits. -/
theorem Lamp.alert_of_taken {now : Nat} {pwm : Pwm} {lamp : Lamp} {charging : Bool}
    {alert : Option AlertLevel} {level : AlertLevel}
    (h : (lamp.poll pwm now charging alert).taken = some level) : alert = some level := by
  have hnotice : ∀ lamp : Lamp, (lamp.notice pwm now alert).taken = some level →
      alert = some level := by
    intro lamp h
    cases lamp with
    | watching due =>
      cases alert with
      | none => exact absurd h (by simp [notice, wait])
      | some next => exact h
    | dark | lit _ _ _ | unlit _ _ _ => exact absurd h (by simp [notice, wait])
  exact hnotice _ h

/-- What a lamp that sleeps waits for is ahead. -/
theorem Lamp.due?_of_sleeps {alert : Option AlertLevel}
    (h : lamp.sleeps alert (now + 1) = true) : ∃ due, lamp.due? = some due ∧ now < due := by
  cases lamp with
  | dark => exact absurd h (by simp [sleeps])
  | watching due =>
    rw [sleeps, Bool.and_eq_true, decide_eq_true_iff] at h
    exact ⟨due, rfl, h.1⟩
  | lit level left due =>
    rw [sleeps, decide_eq_true_iff] at h
    exact ⟨due, rfl, h⟩
  | unlit level left due =>
    rw [sleeps, decide_eq_true_iff] at h
    exact ⟨due, rfl, h⟩

/-- Where the lamp sleeps and an alert waits, a burst is not over. -/
theorem Recorded.busy {alert : AlertLevel} (h : Recorded boot pwm.top now lamp outputs takes)
    (hsleeps : lamp.sleeps (some alert) (now + 1) = true) :
    ∃ take ∈ takes, now < burstEnd take := by
  obtain ⟨due, hdue, hahead⟩ := Lamp.due?_of_sleeps hsleeps
  cases h.blinks with
  | dark => exact absurd hdue (by simp [Lamp.due?])
  | watching due' hnow hred hover hoff => exact absurd hsleeps (by simp [Lamp.sleeps])
  | lit done start level i left due' htakes hleft hburst hgreen =>
    cases hdue
    refine ⟨(start, level), by simp [htakes], ?_⟩
    exact Nat.lt_of_lt_of_le hahead (hburst.due_le (by omega))
  | unlit done start level i left due' htakes hleft hburst hoff =>
    cases hdue
    refine ⟨(start, level), by simp [htakes], ?_⟩
    exact Nat.lt_of_lt_of_le hahead (hburst.due_le (by omega))

/-- Time passes where nothing is due. -/
theorem Recorded.wait {top : UInt16} {due : Nat} (h : Recorded boot top now lamp outputs takes)
    (hdue : lamp.due? = some due) (hahead : now < due) :
    Recorded boot top (now + 1) lamp outputs takes := by
  refine ⟨h.apart, h.spaced, ?_⟩
  cases h.blinks with
  | dark => exact absurd hdue (by simp [Lamp.due?])
  | watching due' hnow hred hover hoff =>
    cases hdue
    exact .watching _ hahead hred (fun take htake => Nat.le_succ_of_le (hover take htake)) hoff
  | lit done start level i left due' htakes hleft hburst hgreen =>
    cases hdue
    exact .lit done start level i left _ htakes hleft (hburst.wait hahead) hgreen
  | unlit done start level i left due' htakes hleft hburst hoff =>
    cases hdue
    exact .unlit done start level i left _ htakes hleft (hburst.wait hahead) hoff

end Recorded

/-! ## What is due has been shown -/

section Due

variable {boot now start due count total : Nat} {top : UInt16} {level : AlertLevel} {lamp : Lamp}
  {outputs : List (Nat × LampOutput)} {takes : List (Nat × AlertLevel)}

/-- The phases that have begun are those that were to begin by now. -/
theorem filter_phasesOf (hcount : count ≤ total)
    (hbegun : start + count * level.burst.phase ≤ now + level.burst.phase)
    (hnext : now < start + count * level.burst.phase) :
    (phasesOf top (start, level) total).filter (·.1 ≤ now) = phasesOf top (start, level) count := by
  -- each phase after the first `count` begins at the next change or later
  obtain ⟨ahead, rfl⟩ := Nat.exists_eq_add_of_le hcount
  induction ahead with
  | zero =>
    refine List.filter_eq_self.mpr fun e he => ?_
    obtain ⟨i, hi, rfl⟩ := List.mem_map.mp he
    have hle : (i + 1) * level.burst.phase ≤ count * level.burst.phase :=
      Nat.mul_le_mul_right _ (List.mem_range.mp hi)
    rw [Nat.succ_mul] at hle
    simp only [decide_eq_true_eq]
    omega
  | succ ahead ih =>
    have hle : count * level.burst.phase ≤ (count + ahead) * level.burst.phase :=
      Nat.mul_le_mul_right _ (Nat.le_add_right _ _)
    have hahead : ¬ start + (count + ahead) * level.burst.phase ≤ now := by omega
    rw [← Nat.add_assoc, phasesOf_succ, List.filter_append, ih (Nat.le_add_right _ _),
      List.filter_cons_of_neg (by simpa using hahead), List.filter_nil, List.append_nil]

/-- A burst that is over has been shown in full. -/
theorem filter_burstLog_of_over (h : ∀ take ∈ takes, burstEnd take ≤ now) :
    (takes.flatMap (burstLog top)).filter (·.1 ≤ now) = takes.flatMap (burstLog top) := by
  refine List.filter_eq_self.mpr fun e he => ?_
  obtain ⟨⟨start, level⟩, htake, he⟩ := List.mem_flatMap.mp he
  rw [burstLog_eq] at he
  obtain ⟨i, hi, rfl⟩ := List.mem_map.mp he
  have hle : i * level.burst.phase ≤ 2 * level.burst.flashes * level.burst.phase :=
    Nat.mul_le_mul_right _ (Nat.le_of_lt (List.mem_range.mp hi))
  have hover : start + 2 * level.burst.flashes * level.burst.phase ≤ now := h _ htake
  simp only [decide_eq_true_eq]
  omega

/-- Of the last burst, the phases up to now have been shown, and all of the bursts before. -/
theorem InBurst.shown_eq {done : List (Nat × AlertLevel)}
    (h : InBurst boot top now outputs done start level (count + 1) due) (hahead : now < due)
    (hcount : count + 1 ≤ 2 * level.burst.flashes) :
    redDuties outputs = [(boot, 0)]
      ++ ((done ++ [(start, level)]).flatMap (burstLog top)).filter (·.1 ≤ now) := by
  have hover : ∀ take ∈ done, burstEnd take ≤ now := fun take htake =>
    Nat.le_trans (h.past take htake) h.start_le
  rw [h.red, List.flatMap_append, List.flatMap_singleton, List.filter_append,
    filter_burstLog_of_over hover, burstLog_eq,
    filter_phasesOf hcount (h.due_eq ▸ h.begun) (h.due_eq ▸ hahead)]
  rfl

/-- **Red shows the bursts of the alerts that the lamp took**, each phase of them that is due, and
nothing else. -/
theorem Recorded.redDuties_eq (h : Recorded boot top now lamp outputs takes)
    (hahead : ∀ due, lamp.due? = some due → now < due) :
    redDuties outputs = (if lamp = .dark then [] else [(boot, 0)])
      ++ (takes.flatMap (burstLog top)).filter (·.1 ≤ now) := by
  cases h.blinks with
  | dark hboot houtputs htakes =>
    rw [houtputs, htakes]
    rfl
  | watching due hnow hred hover hoff =>
    rw [if_neg (by simp), filter_burstLog_of_over hover]
    exact hred
  | lit done start level i left due htakes hleft hburst hgreen =>
    rw [if_neg (by simp), htakes]
    exact hburst.shown_eq (hahead due rfl) (by omega)
  | unlit done start level i left due htakes hleft hburst hoff =>
    rw [if_neg (by simp), htakes]
    exact hburst.shown_eq (hahead due rfl) (by omega)

/-- A burst has begun when its alert is taken. -/
theorem Recorded.begun (h : Recorded boot top now lamp outputs takes) :
    ∀ take ∈ takes, take.1 ≤ now := by
  cases h.blinks with
  | dark hboot houtputs htakes =>
    rw [htakes]
    exact List.forall_mem_nil _
  | watching due hnow hred hover hoff =>
    exact fun take htake => Nat.le_trans (start_le_burstEnd take) (hover take htake)
  | lit done start level i left due htakes hleft hburst hgreen =>
    rw [htakes]
    exact hburst.take_le
  | unlit done start level i left due htakes hleft hburst hoff =>
    rw [htakes]
    exact hburst.take_le

end Due

end BatteryCare
