import BatteryCare.Device.Lamp

/-!
# The clock divider of the lamp

The pulse width modulation counts the system clock down to `lampFrequency` in two steps. The divider
is a byte and the count of a period has sixteen bits, while the quotients that both are cut from are
whole numbers of any size (`fullDivider`, `fullPeriod`). With the divider that is taken, a period
fits at every clock (`fullPeriod_le`). What limits the clock is the byte at the upper end, and at
the lower end a period of no counts at all. In between nothing is cut, and the set-up comes as close
to the lamp frequency as a whole count can (`realises_ofClock_iff`).
-/

namespace BatteryCare

namespace Pwm

/-- The largest count of sixteen bits. -/
def countLimit : Nat := 65535

/-- The first system clock that is too fast for a divider of eight bits (Hz). -/
def clockLimit : Nat := 1671142500

variable {clockHz : Nat}

/-- The divider before it is cut to eight bits. -/
def fullDivider (clockHz : Nat) : Nat := clockHz / lampFrequency / countLimit + 1

/-- The counts of a period before they are cut to sixteen bits. -/
def fullPeriod (clockHz : Nat) : Nat := clockHz / (lampFrequency * fullDivider clockHz)

theorem fullDivider_pos (clockHz : Nat) : 0 < fullDivider clockHz := Nat.succ_pos _

theorem fullDivider_lt_iff : fullDivider clockHz < 256 ↔ clockHz < clockLimit := by
  unfold fullDivider lampFrequency countLimit clockLimit
  omega

theorem fullPeriod_eq (clockHz : Nat) :
    fullPeriod clockHz = clockHz / lampFrequency / fullDivider clockHz :=
  (Nat.div_div_eq_div_mul _ _ _).symm

/-- **A period fits sixteen bits at every clock.** -/
theorem fullPeriod_le (clockHz : Nat) : fullPeriod clockHz ≤ countLimit := by
  rw [fullPeriod_eq]
  generalize hn : clockHz / lampFrequency = n
  -- the rest of the first division is less than a whole period
  have hrest : n < countLimit * (n / countLimit + 1) := Nat.lt_mul_div_succ n (by decide)
  have hdivider : fullDivider clockHz = n / countLimit + 1 := by rw [fullDivider, hn]
  rw [hdivider]
  exact Nat.le_of_lt (Nat.div_lt_of_lt_mul (by rwa [Nat.mul_comm] at hrest))

/-- A period has a count unless the clock is below the lamp frequency. -/
theorem fullPeriod_pos_iff : 0 < fullPeriod clockHz ↔ lampFrequency ≤ clockHz := by
  rw [fullPeriod_eq, Nat.div_pos_iff]
  unfold fullDivider lampFrequency countLimit
  omega

/-- A set-up that loses nothing to its widths and hits the lamp frequency to within one count. -/
structure Realises (p : Pwm) (clockHz : Nat) : Prop where
  /-- The divider is no zero, and all of it fits. -/
  divider : 1 ≤ fullDivider clockHz ∧ fullDivider clockHz ≤ 255
    ∧ p.divider.toNat = fullDivider clockHz
  /-- A period has a count to take off for the last one, and all of them fit. -/
  period : 1 ≤ fullPeriod clockHz ∧ fullPeriod clockHz ≤ countLimit
    ∧ p.top.toNat + 1 = fullPeriod clockHz
  /-- The counts of a period are no longer than the period. -/
  fits : (p.top.toNat + 1) * p.divider.toNat * lampFrequency ≤ clockHz
  /-- With one count more they would be. -/
  fills : clockHz < (p.top.toNat + 2) * p.divider.toNat * lampFrequency

theorem divider_ofClock (h : fullDivider clockHz < 256) :
    (ofClock clockHz).divider.toNat = fullDivider clockHz :=
  UInt8.toNat_ofNat_of_lt' h

theorem top_ofClock (h : fullDivider clockHz < 256) (hpos : 0 < fullPeriod clockHz) :
    (ofClock clockHz).top.toNat + 1 = fullPeriod clockHz := by
  have hle := fullPeriod_le clockHz
  have hperiod : (ofClock clockHz).top = UInt16.ofNat (fullPeriod clockHz) - 1 := by
    rw [fullPeriod, ← divider_ofClock h]
    rfl
  have hcut : (UInt16.ofNat (fullPeriod clockHz)).toNat = fullPeriod clockHz :=
    UInt16.toNat_ofNat_of_lt' (Nat.lt_succ_of_le hle)
  rw [hperiod, UInt16.toNat_sub_of_le, hcut]
  · exact Nat.sub_add_cancel hpos
  · rw [UInt16.le_iff_toNat_le, hcut]
    exact hpos

/-- **The set-up of a clock realises the lamp frequency exactly from that frequency on and below
`clockLimit`.** -/
theorem realises_ofClock_iff (clockHz : Nat) :
    (ofClock clockHz).Realises clockHz ↔ lampFrequency ≤ clockHz ∧ clockHz < clockLimit := by
  constructor
  · intro h
    exact ⟨fullPeriod_pos_iff.mp h.period.1,
      fullDivider_lt_iff.mp (Nat.lt_succ_of_le h.divider.2.1)⟩
  · rintro ⟨hlo, hhi⟩
    have hfits := fullDivider_lt_iff.mpr hhi
    have hpos := fullPeriod_pos_iff.mpr hlo
    have hdivider := divider_ofClock hfits
    have htop := top_ofClock hfits hpos
    have hcounts : 0 < lampFrequency * fullDivider clockHz :=
      Nat.mul_pos (by decide) (fullDivider_pos clockHz)
    have hscale (n : Nat) : n * fullDivider clockHz * lampFrequency
        = n * (lampFrequency * fullDivider clockHz) := by
      rw [Nat.mul_assoc, Nat.mul_comm lampFrequency]
    refine ⟨⟨fullDivider_pos clockHz, Nat.le_of_lt_succ hfits, hdivider⟩,
      ⟨hpos, fullPeriod_le clockHz, htop⟩, ?_, ?_⟩
    · rw [htop, hdivider, hscale]
      exact Nat.div_mul_le_self _ _
    · rw [show (ofClock clockHz).top.toNat + 2 = fullPeriod clockHz + 1 by omega, hdivider, hscale,
        Nat.mul_comm]
      exact Nat.lt_mul_div_succ clockHz hcounts

/-- A clock of 125 MHz is divided by twenty. -/
example : ofClock 125000000 = ⟨20, 62499⟩ := by decide

end Pwm

end BatteryCare
