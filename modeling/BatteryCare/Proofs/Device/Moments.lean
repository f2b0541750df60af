import BatteryCare.Proofs.Alarm.Memory
import BatteryCare.Proofs.Device.Turns

/-!
# Moments

What matters to the grace time, read off the journal as a series of moments (`Device.chronicle`):
when the power state was set, when the ticks ran, and when alerts were raised. An alarm that is told
of the power state once a tick knows one of three things about these moments (`Memory`): the speaker
was on all the time, it was off and is on again, or it is off and the next tick will see that.

So an alarm that watches either has waited for the grace time, or was not told of an off-time
between two ticks (`Sampled.mayRaise`).
-/

namespace BatteryCare

/-! ## Moments -/

/-- What matters to the grace time. -/
inductive Moment where
  /-- The device is switched on, with the speaker off. -/
  | booted
  /-- The status has this power state from now on. -/
  | powered (power : PowerState)
  | ticked
  /-- The monitor raises an alert. -/
  | raised (level : AlertLevel)
  deriving DecidableEq, Repr

namespace Moment

/-- The power state that a moment brings. -/
def power? : Moment → Option PowerState
  | booted => some .off
  | powered power => some power
  | ticked | raised _ => none

/-- The power states of a series of moments, with their times. -/
def powers (moments : List (Moment × Nat)) : List (PowerState × Nat) :=
  moments.filterMap fun m => m.1.power?.map (·, m.2)

/-- A speaker that is off before the moment is off after it, and no tick has seen that. -/
def Hides : Moment → Prop
  | powered power => power ≠ .on
  | raised _ => True
  | booted | ticked => False

end Moment

open Moment (powers)

def Entry.moment? : Entry → Option Moment
  | .booted => some .booted
  | .handled (.powerSet power) => some (.powered power)
  | .ticked _ => some .ticked
  | .sent (.lowBattery level) _ => some (.raised level)
  | _ => none

theorem Entry.IsUpkeep.moment?_eq_none {e : Entry} (h : e.IsUpkeep) : e.moment? = none := by
  cases e with
  | loaded _ | committed _ _ | shown _ | lamp _ => rfl
  | booted | enablePin _ | modePin _ | ticked _ | sent _ _ | handled _ => exact h.elim

def Stamped.moment? (s : Stamped) : Option (Moment × Nat) := s.entry.moment?.map (·, s.time)

/-- What an action from outside means for the power state. -/
def Action.moments (now : Nat) : Action → List (Moment × Nat)
  | .setStatus change => change.power.toList.map fun power => (.powered power, now)
  | _ => []

/-- The moments of a device under a series of actions, in order. -/
def Device.chronicle (d : Device) : List Action → List (Moment × Nat)
  | [] => []
  | a :: rest =>
    a.moments d.clock ++ ((d.act a).1.entriesSince d).filterMap Stamped.moment?
      ++ (d.act a).1.chronicle rest

/-! ## Off-times between two ticks -/

/-- The speaker went off at `off`, and no tick has seen it since. -/
inductive OffUnseen : List (Moment × Nat) → Nat → Prop
  | start {past : List (Moment × Nat)} {power : PowerState} {off : Nat}
      (hon : lastPower (powers past) = .on) (hoff : power ≠ .on) :
      OffUnseen (past ++ [(.powered power, off)]) off
  | more {past : List (Moment × Nat)} {off : Nat} {m : Moment × Nat} (h : OffUnseen past off)
      (hm : m.1.Hides) : OffUnseen (past ++ [m]) off

/-- The speaker was last switched on at `since`, after an off-time that no tick has seen and that
was no longer than the time between two ticks. -/
def BackUnseen (past : List (Moment × Nat)) (since : Nat) : Prop :=
  ∃ before off after, past = before ++ (.powered .on, since) :: after ∧ OffUnseen before off
    ∧ since ≤ off + tickInterval ∧ ∀ p ∈ powers after, p.1 = .on

/-- An alert may be raised: the grace time is over, or the monitor cannot know that it is not. -/
def MayRaise (past : List (Moment × Nat)) (now : Nat) : Prop :=
  now < UInt32.size → ∃ since, OnSince (powers past) since
    ∧ (since + ({} : AlarmConfig).grace.toNat ≤ now ∨ BackUnseen past since)

/-- Every alert comes when it may. -/
def Graced (past : List (Moment × Nat)) : Prop :=
  ∀ before level now after, past = before ++ (.raised level, now) :: after → MayRaise before now

section Moments

variable {past : List (Moment × Nat)} {m : Moment × Nat} {power : PowerState} {since now : Nat}

@[simp] theorem powers_concat :
    powers (past ++ [m]) = powers past ++ (m.1.power?.map (·, m.2)).toList := by
  cases hpower : m.1.power? with
  | none => simp [powers, hpower]
  | some power => simp [powers, hpower]

theorem powers_concat_of_none (h : m.1.power? = none) : powers (past ++ [m]) = powers past := by
  rw [powers_concat, h]
  exact List.append_nil _

theorem powers_concat_powered :
    powers (past ++ [(.powered power, now)]) = powers past ++ [(power, now)] := by
  rw [powers_concat]
  rfl

theorem OffUnseen.lastPower_ne {off : Nat} (h : OffUnseen past off) :
    lastPower (powers past) ≠ .on := by
  induction h with
  | start hon hoff => rwa [powers_concat_powered, lastPower_concat]
  | @more past off m h hm ih =>
    obtain ⟨m, at_⟩ := m
    cases m with
    | powered power => rwa [powers_concat_powered, lastPower_concat]
    | raised level => rwa [powers_concat_of_none rfl]
    | booted => exact hm.elim
    | ticked => exact hm.elim

theorem BackUnseen.concat (h : BackUnseen past since)
    (hm : ∀ power, m.1.power? = some power → power = .on) : BackUnseen (past ++ [m]) since := by
  obtain ⟨before, off, after, rfl, hoff, hshort, hafter⟩ := h
  refine ⟨before, off, after ++ [m], by simp, hoff, hshort, ?_⟩
  intro p hp
  rw [powers_concat] at hp
  rcases List.mem_append.mp hp with hp | hp
  · exact hafter p hp
  · cases hpower : m.1.power? with
    | none => rw [hpower] at hp; exact absurd hp (by simp)
    | some q =>
      rw [hpower] at hp
      rw [List.mem_singleton.mp hp]
      exact hm q hpower

theorem BackUnseen.concat_of_none (h : BackUnseen past since) (hm : m.1.power? = none) :
    BackUnseen (past ++ [m]) since :=
  h.concat fun power hpower => absurd (hm.symm.trans hpower) (by simp)

theorem MayRaise.concat (h : MayRaise past now) (hm : m.1.power? = none) :
    MayRaise (past ++ [m]) now := by
  intro hwrap
  obtain ⟨since, hsince, hwhy⟩ := h hwrap
  refine ⟨since, by rw [powers_concat_of_none hm]; exact hsince, ?_⟩
  rcases hwhy with hgrace | hunseen
  · exact Or.inl hgrace
  · exact Or.inr (hunseen.concat_of_none hm)

theorem graced_nil : Graced [] := by
  intro before level now after h
  exact absurd h (by simp)

theorem Graced.concat (h : Graced past) (hm : ∀ level, m.1 = .raised level → MayRaise past m.2) :
    Graced (past ++ [m]) := by
  intro before level now after hsplit
  obtain ⟨rfl, rfl, rfl⟩ | ⟨rest, -, rfl⟩ := split_concat hsplit
  · exact hm level rfl
  · exact h before level now rest rfl

end Moments

/-! ## What the monitor knows -/

/-- What there is to know about the power state for an alarm that has seen the speaker on since
`seen`, before a tick that is due at `due`. -/
inductive Memory (past : List (Moment × Nat)) (seen due : Nat) : Prop
  /-- The speaker has been on all the time. -/
  | on (hon : lastPower (powers past) = .on) (hseen : ∀ since, OnSince (powers past) since →
      since ≤ seen)
  /-- The speaker was off, and is on again. -/
  | back (since : Nat) (hsince : OnSince (powers past) since) (hunseen : BackUnseen past since)
  /-- The speaker is off, and the tick that will see this is still to come. -/
  | off (off : Nat) (hunseen : OffUnseen past off) (hdue : due ≤ off + tickInterval)

/-- What holds of an alarm that was last told `told`, before a tick that is due at `due`. -/
structure Sampled (past : List (Moment × Nat)) (now : Nat) (a : Alarm) (told : PowerState)
    (due : Nat) : Prop where
  config : a.config = {}
  power : a.power = told
  ahead : now ≤ due
  near : due ≤ now + tickInterval
  memory : told = .on → ∃ seen, seen ≤ now ∧ a.poweredOnAt = some (.ofNat seen)
    ∧ Memory past seen due

section Sampled

variable {past : List (Moment × Nat)} {now due seen : Nat} {a : Alarm} {told : PowerState}

theorem Memory.powered (h : Memory past seen due) (hahead : now ≤ due)
    (hnear : due ≤ now + tickInterval) (power : PowerState) :
    Memory (past ++ [(.powered power, now)]) seen due := by
  by_cases hpower : power = .on
  · subst hpower
    cases h with
    | on hon hseen =>
      refine .on (by rw [powers_concat_powered, lastPower_concat]) fun since hsince => ?_
      rw [powers_concat_powered] at hsince
      obtain ⟨-, hcase⟩ := onSince_concat_iff.mp hsince
      rw [if_pos hon] at hcase
      exact hseen since hcase
    | back since hsince hunseen =>
      refine .back since ?_ (hunseen.concat fun _ hp => (Option.some.inj hp).symm)
      rw [powers_concat_powered]
      exact onSince_concat_iff.mpr ⟨rfl, by rw [if_pos hsince.lastPower_eq]; exact hsince⟩
    | off off hunseen hdue =>
      -- the off-time ends here, before the tick that would have seen it
      refine .back now ?_ ⟨past, off, [], rfl, hunseen, by omega, by simp [powers]⟩
      rw [powers_concat_powered]
      exact onSince_concat_iff.mpr ⟨rfl, by rw [if_neg hunseen.lastPower_ne]⟩
  · cases h with
    | on hon hseen => exact .off now (.start hon hpower) hnear
    | back since hsince hunseen => exact .off now (.start hsince.lastPower_eq hpower) hnear
    | off off hunseen hdue => exact .off off (.more hunseen hpower) hdue

theorem Memory.raised (h : Memory past seen due) (level : AlertLevel) :
    Memory (past ++ [(.raised level, now)]) seen due := by
  have hpowers : powers (past ++ [(.raised level, now)]) = powers past := powers_concat_of_none rfl
  cases h with
  | on hon hseen => exact .on (by rw [hpowers]; exact hon) (by rw [hpowers]; exact hseen)
  | back since hsince hunseen =>
    exact .back since (by rw [hpowers]; exact hsince) (hunseen.concat_of_none rfl)
  | off off hunseen hdue => exact .off off (.more hunseen trivial) hdue

/-- A tick that finds the speaker on learns nothing. -/
theorem Memory.ticked {due' : Nat} (h : Memory past seen due)
    (hon : lastPower (powers past) = .on) : Memory (past ++ [(.ticked, now)]) seen due' := by
  have hpowers : powers (past ++ [(.ticked, now)]) = powers past := powers_concat_of_none rfl
  cases h with
  | on _ hseen => exact .on (by rw [hpowers]; exact hon) (by rw [hpowers]; exact hseen)
  | back since hsince hunseen =>
    exact .back since (by rw [hpowers]; exact hsince) (hunseen.concat_of_none rfl)
  | off off hunseen _ => exact absurd hon hunseen.lastPower_ne

theorem Sampled.concat {m : Moment × Nat} (h : Sampled past now a told due)
    (hm : ∀ seen, Memory past seen due → Memory (past ++ [m]) seen due) :
    Sampled (past ++ [m]) now a told due where
  config := h.config
  power := h.power
  ahead := h.ahead
  near := h.near
  memory := by
    intro htold
    obtain ⟨seen, hseen, hat, hmemory⟩ := h.memory htold
    exact ⟨seen, hseen, hat, hm seen hmemory⟩

theorem Sampled.congr {a' : Alarm} (h : Sampled past now a told due)
    (hconfig : a'.config = a.config) (hpower : a'.power = a.power)
    (hat : a'.poweredOnAt = a.poweredOnAt) :
    Sampled past now a' told due :=
  ⟨hconfig.trans h.config, hpower.trans h.power, h.ahead, h.near, by rw [hat]; exact h.memory⟩

theorem Sampled.wait (h : Sampled past now a told due) (hlt : now < due) :
    Sampled past (now + 1) a told due where
  config := h.config
  power := h.power
  ahead := hlt
  near := by have := h.near; omega
  memory := by
    intro htold
    obtain ⟨seen, hseen, hmemory⟩ := h.memory htold
    exact ⟨seen, by omega, hmemory⟩

/-- What a tick tells the alarm of the power state. -/
def Alarm.sample (a : Alarm) (told power : PowerState) (now : Nat) : Alarm :=
  if power = told then a else a.setPower power (.ofNat now)

/-- A tick tells the alarm of the power state that it finds. -/
theorem Sampled.ticked (h : Sampled past now a told due)
    (htimes : ∀ since, OnSince (powers past) since → since ≤ now) :
    Sampled (past ++ [(.ticked, now)]) now (a.sample told (lastPower (powers past)) now)
      (lastPower (powers past)) (now + tickInterval) := by
  have hpowers : powers (past ++ [(.ticked, now)]) = powers past := powers_concat_of_none rfl
  rw [Alarm.sample]
  by_cases hsame : lastPower (powers past) = told
  · rw [if_pos hsame]
    refine ⟨h.config, by rw [hsame]; exact h.power, by omega, Nat.le_refl _, fun hon => ?_⟩
    obtain ⟨seen, hseen, hat, hmemory⟩ := h.memory (hsame.symm.trans hon)
    exact ⟨seen, hseen, hat, hmemory.ticked hon⟩
  · rw [if_neg hsame]
    refine ⟨h.config, rfl, by omega, Nat.le_refl _, fun hon => ?_⟩
    -- the alarm measures from this tick on
    refine ⟨now, Nat.le_refl _, ?_, .on ?_ ?_⟩
    · rw [Alarm.setPower, if_pos ⟨hon, by rw [h.power, ← hon]; exact fun heq => hsame heq.symm⟩]
    · rw [hpowers]
      exact hon
    · rw [hpowers]
      exact htimes

/-- An alarm watches only where the speaker was on for the grace time, as far as it knows. -/
theorem Alarm.powered_of_isWatching {clock : UInt32} (h : a.isWatching clock = true) :
    a.power = .on ∧ ∃ poweredOn, a.poweredOnAt = some poweredOn
      ∧ a.config.grace ≤ clock - poweredOn := by
  rw [isWatching, Bool.and_eq_true, Bool.and_eq_true, decide_eq_true_iff] at h
  obtain ⟨⟨hon, -⟩, hgrace⟩ := h
  cases hat : a.poweredOnAt with
  | none =>
    rw [hat] at hgrace
    exact absurd hgrace (by simp)
  | some poweredOn =>
    rw [hat] at hgrace
    exact ⟨hon, poweredOn, rfl, of_decide_eq_true hgrace⟩

/-- **An alarm that watches at a tick may raise its alerts.** -/
theorem Sampled.mayRaise (h : Sampled past now a told due) {charger : ChargerStatus}
    (hwatch : ((a.sample told (lastPower (powers past)) now).setCharger charger).isWatching
      (.ofNat now) = true) : MayRaise past now := by
  intro hwrap
  obtain ⟨hon, poweredOn, hat, hgrace⟩ := Alarm.powered_of_isWatching hwatch
  change (a.sample told (lastPower (powers past)) now).power = .on at hon
  change (a.sample told (lastPower (powers past)) now).poweredOnAt = some poweredOn at hat
  change (a.sample told (lastPower (powers past)) now).config.grace ≤ _ at hgrace
  rw [Alarm.sample] at hon hat hgrace
  by_cases hsame : lastPower (powers past) = told
  · rw [if_pos hsame] at hon hat hgrace
    have htold : told = .on := h.power.symm.trans hon
    obtain ⟨seen, hseen, hat', hmemory⟩ := h.memory htold
    obtain rfl : UInt32.ofNat seen = poweredOn := Option.some.inj (hat'.symm.trans hat)
    rw [h.config, UInt32.le_iff_toNat_le, toNat_ofNat_sub_ofNat hseen (by omega)] at hgrace
    cases hmemory with
    | on hlast hall =>
      obtain ⟨since, hsince⟩ := exists_onSince hlast
      have := hall since hsince
      exact ⟨since, hsince, Or.inl (by omega)⟩
    | back since hsince hunseen => exact ⟨since, hsince, Or.inr hunseen⟩
    | off off hunseen _ => exact absurd (hsame.trans htold) hunseen.lastPower_ne
  · -- the alarm hears only now that the speaker is on
    rw [if_neg hsame] at hon hat hgrace
    have hlast : lastPower (powers past) = .on := hon
    have hold : a.power ≠ .on := by
      rw [h.power, ← hlast]
      exact fun heq => hsame heq.symm
    rw [Alarm.setPower, if_pos ⟨hlast, hold⟩] at hat
    cases hat
    change a.config.grace ≤ _ at hgrace
    rw [h.config, UInt32.sub_self] at hgrace
    exact absurd hgrace (by decide)

end Sampled

end BatteryCare
