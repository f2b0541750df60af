import BatteryCare.Alarm
import Mathlib.Data.List.Induction

/-!
# What an alarm remembers

An alarm keeps two flags, one instant, and the last power state and charger status that it was told.
This module says once what each call does to them, alike for both alerts (`Alarm.raised`,
`AlarmConfig.threshold`).

The instant stands for a history of power states: it is when the speaker was last switched on
(`OnSince`). Calls that repeat the power state leave it alone, and so does switching off
(`Alarm.KnowsPower.setPower`).
-/

namespace BatteryCare

/-! ## When the speaker was switched on -/

/-- What occurs in a list that has grown at its end is its last element, or was there before. -/
theorem split_concat {α : Type} {xs before after : List α} {x y : α}
    (h : xs ++ [y] = before ++ x :: after) :
    after = [] ∧ xs = before ∧ y = x ∨ ∃ rest, after = rest ++ [y] ∧ xs = before ++ x :: rest := by
  induction after using List.reverseRecOn with
  | nil =>
    obtain ⟨hxs, hlast⟩ := List.append_inj' h rfl
    exact Or.inl ⟨rfl, hxs, (List.cons.inj hlast).1⟩
  | append_singleton rest z _ =>
    rw [← List.cons_append, ← List.append_assoc] at h
    obtain ⟨hxs, hlast⟩ := List.append_inj' h rfl
    obtain rfl : y = z := (List.cons.inj hlast).1
    exact Or.inr ⟨rest, rfl, hxs⟩

section Power

variable {τ : Type}

/-- The last of the power states told; off before there is any. -/
def lastPower (powers : List (PowerState × τ)) : PowerState :=
  (powers.getLast?.map Prod.fst).getD .off

/-- The speaker is on, and the latest change to that came at `since`. -/
def OnSince (powers : List (PowerState × τ)) (since : τ) : Prop :=
  ∃ before after, powers = before ++ (.on, since) :: after ∧ lastPower before ≠ .on
    ∧ ∀ p ∈ after, p.1 = .on

@[simp] theorem lastPower_nil : lastPower ([] : List (PowerState × τ)) = .off := rfl

@[simp] theorem lastPower_concat (powers : List (PowerState × τ)) (p : PowerState × τ) :
    lastPower (powers ++ [p]) = p.1 := by
  simp [lastPower]

theorem lastPower_append_cons (before after : List (PowerState × τ)) (p : PowerState × τ)
    (h : ∀ q ∈ after, q.1 = p.1) : lastPower (before ++ p :: after) = p.1 := by
  induction after using List.reverseRecOn with
  | nil => exact lastPower_concat before p
  | append_singleton after q _ =>
    have hq := h q (by simp)
    rw [← hq, ← List.cons_append, ← List.append_assoc]
    exact lastPower_concat _ q

variable {powers : List (PowerState × τ)} {since : τ}

theorem OnSince.lastPower_eq (h : OnSince powers since) : lastPower powers = .on := by
  obtain ⟨before, after, rfl, -, hafter⟩ := h
  exact lastPower_append_cons before after (.on, since) hafter

theorem OnSince.mem (h : OnSince powers since) : (PowerState.on, since) ∈ powers := by
  obtain ⟨before, after, rfl, -, -⟩ := h
  simp

/-- **Only a change to on counts as switching on.** -/
theorem onSince_concat_iff {power : PowerState} {now : τ} :
    OnSince (powers ++ [(power, now)]) since
      ↔ power = .on ∧ (if lastPower powers = .on then OnSince powers since else since = now) := by
  constructor
  · rintro ⟨before, after, hsplit, hbefore, hafter⟩
    obtain ⟨rfl, rfl, hlast⟩ | ⟨rest, rfl, rfl⟩ := split_concat hsplit
    · obtain ⟨rfl, rfl⟩ := Prod.mk.inj hlast
      exact ⟨rfl, by rw [if_neg hbefore]⟩
    · have hrest : ∀ p ∈ rest, p.1 = .on := fun p hp => hafter p (by simp [hp])
      refine ⟨hafter (power, now) (by simp), ?_⟩
      rw [if_pos (lastPower_append_cons before rest (.on, since) hrest)]
      exact ⟨before, rest, rfl, hbefore, hrest⟩
  · rintro ⟨rfl, h⟩
    by_cases hon : lastPower powers = .on
    · rw [if_pos hon] at h
      obtain ⟨before, after, rfl, hbefore, hafter⟩ := h
      refine ⟨before, after ++ [(.on, now)], by simp, hbefore, ?_⟩
      intro p hp
      rcases List.mem_append.mp hp with hp | hp
      · exact hafter p hp
      · rw [List.mem_singleton.mp hp]
    · rw [if_neg hon] at h
      subst h
      exact ⟨powers, [], rfl, hon, by simp⟩

/-- A speaker that is on was switched on at some instant. -/
theorem exists_onSince (h : lastPower powers = .on) : ∃ since, OnSince powers since := by
  induction powers using List.reverseRecOn with
  | nil => exact absurd h (by simp)
  | append_singleton powers p ih =>
    obtain ⟨power, now⟩ := p
    rw [lastPower_concat] at h
    by_cases hon : lastPower powers = .on
    · obtain ⟨since, hsince⟩ := ih hon
      exact ⟨since, onSince_concat_iff.mpr ⟨h, by rw [if_pos hon]; exact hsince⟩⟩
    · exact ⟨now, onSince_concat_iff.mpr ⟨h, by rw [if_neg hon]⟩⟩

end Power

/-! ## Flags and thresholds -/

/-- The alert is raised at or below this level (%). -/
def AlarmConfig.threshold (c : AlarmConfig) : AlertLevel → UInt8
  | .low => c.lowThreshold
  | .critical => c.criticalThreshold

namespace Alarm

/-- The alert has been raised in this discharge cycle. -/
def raised (a : Alarm) : AlertLevel → Bool
  | .low => a.lowRaised
  | .critical => a.criticalRaised

variable (a : Alarm) (level : AlertLevel) (percent : UInt8) (now : UInt32)

theorem raised_setCharger (status : ChargerStatus) :
    (a.setCharger status).raised level
      = if status = .active ∧ a.charger ≠ .active then false else a.raised level := by
  cases level with
  | low => rfl
  | critical => rfl

/-- A check changes flags and nothing else. -/
theorem check_memory :
    (a.check percent now).1.config = a.config ∧ (a.check percent now).1.power = a.power
      ∧ (a.check percent now).1.poweredOnAt = a.poweredOnAt
      ∧ (a.check percent now).1.charger = a.charger := by
  rw [check]
  split
  · exact ⟨rfl, rfl, rfl, rfl⟩
  · exact ⟨rfl, rfl, rfl, rfl⟩

/-- **A check raises what is due and has not been raised.** -/
theorem mem_check_iff :
    level ∈ (a.check percent now).2
      ↔ a.isWatching now = true ∧ percent ≤ a.config.threshold level ∧ a.raised level = false := by
  rw [check]
  by_cases hwatch : a.isWatching now = true
  · rw [if_pos hwatch]
    cases level with
    | low => simp [hwatch, AlarmConfig.threshold, raised]
    | critical => simp [hwatch, AlarmConfig.threshold, raised]
  · rw [if_neg hwatch]
    simp [hwatch]

/-- The low alert comes first, and none comes twice. -/
theorem check_sublist : (a.check percent now).2.Sublist [.low, .critical] := by
  rw [check]
  split
  · dsimp only
    split <;> split <;> simp
  · exact List.nil_sublist _

/-- A flag tells what was raised before and what is raised now. -/
theorem raised_check :
    (a.check percent now).1.raised level = true
      ↔ a.raised level = true ∨ level ∈ (a.check percent now).2 := by
  rw [mem_check_iff, check]
  by_cases hwatch : a.isWatching now = true
  · rw [if_pos hwatch]
    cases level with
    | low =>
      simp only [raised, AlarmConfig.threshold, hwatch, Bool.or_eq_true, Bool.and_eq_true,
        decide_eq_true_eq, Bool.not_eq_true', true_and]
    | critical =>
      simp only [raised, AlarmConfig.threshold, hwatch, Bool.or_eq_true, Bool.and_eq_true,
        decide_eq_true_eq, Bool.not_eq_true', true_and]
  · rw [if_neg hwatch]
    simp [hwatch]

/-! ## What it knows of the power -/

/-- The alarm was told these power states. `stamp` gives the clock of the alarm at an instant. -/
structure KnowsPower {τ : Type} (stamp : τ → UInt32) (powers : List (PowerState × τ))
    (a : Alarm) : Prop where
  power : a.power = lastPower powers
  on : ∀ since, OnSince powers since → a.poweredOnAt = some (stamp since)

section KnowsPower

variable {τ : Type} {stamp : τ → UInt32} {powers : List (PowerState × τ)} {a : Alarm}

theorem knowsPower_new (config : AlarmConfig) :
    KnowsPower stamp [] ({ config } : Alarm) where
  power := rfl
  on := fun since h => absurd h.mem (by simp)

theorem KnowsPower.congr {a' : Alarm} (h : KnowsPower stamp powers a)
    (hpower : a'.power = a.power) (hat : a'.poweredOnAt = a.poweredOnAt) :
    KnowsPower stamp powers a' :=
  ⟨hpower.trans h.power, fun since hsince => hat.trans (h.on since hsince)⟩

theorem KnowsPower.setPower (h : KnowsPower stamp powers a) (power : PowerState) (now : τ) :
    KnowsPower stamp (powers ++ [(power, now)]) (a.setPower power (stamp now)) where
  power := (lastPower_concat powers (power, now)).symm
  on := by
    intro since hsince
    obtain ⟨rfl, hcase⟩ := onSince_concat_iff.mp hsince
    rw [Alarm.setPower, h.power]
    by_cases hon : lastPower powers = .on
    · rw [if_pos hon] at hcase
      rw [if_neg (by simp [hon])]
      exact h.on since hcase
    · rw [if_neg hon] at hcase
      rw [if_pos ⟨rfl, hon⟩, hcase]

/-- **When an alarm watches**: the speaker has been on for the grace time and nothing charges. -/
theorem KnowsPower.isWatching_iff (h : KnowsPower stamp powers a) (now : UInt32) :
    a.isWatching now = true
      ↔ a.charger ≠ .active
        ∧ ∃ since, OnSince powers since ∧ a.config.grace ≤ now - stamp since := by
  rw [isWatching, Bool.and_eq_true, Bool.and_eq_true, decide_eq_true_iff, decide_eq_true_iff,
    h.power]
  constructor
  · rintro ⟨⟨hon, hidle⟩, hgrace⟩
    obtain ⟨since, hsince⟩ := exists_onSince hon
    rw [h.on since hsince] at hgrace
    exact ⟨hidle, since, hsince, of_decide_eq_true hgrace⟩
  · rintro ⟨hidle, since, hsince, hgrace⟩
    rw [h.on since hsince]
    exact ⟨⟨hsince.lastPower_eq, hidle⟩, decide_eq_true hgrace⟩

end KnowsPower

end Alarm

/-- The wrapping difference of two clocks is the time between them, if that is short enough. -/
theorem toNat_ofNat_sub_ofNat {since now : Nat} (h : since ≤ now)
    (hshort : now < since + UInt32.size) :
    (UInt32.ofNat now - UInt32.ofNat since).toNat = now - since := by
  rw [UInt32.size] at hshort
  rw [UInt32.toNat_sub, UInt32.toNat_ofNat', UInt32.toNat_ofNat']
  omega

end BatteryCare
