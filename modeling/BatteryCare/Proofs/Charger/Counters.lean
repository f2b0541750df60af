import BatteryCare.Proofs.Charger.Moves

/-!
# The counters of a charger never run over

A debounce counter is a byte, and `Debounce.qualify` saturates where the byte has no next value. A
charger never comes there. Both of its counters stay below the number of ticks that they wait for
(`CountsBelow`), since a count that reaches that number commits its transition, and a change of the
status resets both. The number is 255 at most, so a count that is taken further has a next value.

`Charger.step?` is the charger with checked counting: it refuses exactly the ticks on which `step`
would saturate (`step?_eq_ok`, `step?_eq_error`). From a new charger on it refuses none.
-/

namespace BatteryCare

namespace Debounce

variable {d : Debounce} {condition : Bool}

theorem qualify?_eq_error (required : UInt8) (h : d.count = limit) :
    d.qualify? true required = .error .overflow := by
  simp [qualify?, h]

theorem qualify?_eq_ok (required : UInt8) (h : condition = true → d.count ≠ limit) :
    d.qualify? condition required = .ok (d.qualify condition required) := by
  cases condition with
  | false => rfl
  | true => simp [qualify?, h rfl]

end Debounce

namespace Charger

/-! ## Checked counting -/

/-- `step` with checked counting, refused where its counter has no next value. -/
def step? (c : Charger) (s : Sample) : Except DebounceError (Charger × List CircuitCall) :=
  match c.status with
  | .notConnected => .ok (c.enter .inactive, [.disable])
  | .inactive =>
    if !s.plugged then .ok (c.enter .notConnected, [])
    else do
      let (start, commits) ← c.start.qualify? (mayStart c.config s) c.config.debounceTicks
      return if commits then (c.enter .active, [.enable s.mode]) else ({ c with start }, [])
  | .active =>
    if !isSafe c.config s then .ok (c.enter .inactive, [.disable])
    else do
      let (full, commits) ← c.full.qualify? (isFull c.config s) c.config.debounceTicks
      return if commits then (c.enter .inactive, [.disable, .fullCharge]) else ({ c with full }, [])

/-- The ticks on a series of samples with checked counting, refused where one of them is. -/
def run? (c : Charger) : List Sample → Except DebounceError (List ChargerTick)
  | [] => .ok []
  | s :: rest => do
    let (next, calls) ← c.step? s
    let ticks ← next.run? rest
    return ⟨c.status, s, calls, next.status⟩ :: ticks

/-- The counter that a tick takes one further. -/
def counting? (c : Charger) (s : Sample) : Option Debounce :=
  match c.status with
  | .notConnected => none
  | .inactive => if s.plugged && mayStart c.config s then some c.start else none
  | .active => if isSafe c.config s && isFull c.config s then some c.full else none

variable {c : Charger} {s : Sample}

/-- A tick whose counter has a next value goes through the check unchanged. -/
theorem step?_eq_ok (h : ∀ d, c.counting? s = some d → d.count ≠ Debounce.limit) :
    c.step? s = .ok (c.step s) := by
  unfold counting? at h
  unfold step? step
  cases hc : c.status with
  | notConnected => rfl
  | inactive =>
    by_cases hs : s.plugged = true
    · have hcount : mayStart c.config s = true → c.start.count ≠ Debounce.limit := by
        intro hm
        exact h c.start (by simp [hc, hs, hm])
      simp only [hs, Debounce.qualify?_eq_ok _ hcount]
      rfl
    · simp [hs]
  | active =>
    by_cases hs : isSafe c.config s = true
    · have hcount : isFull c.config s = true → c.full.count ≠ Debounce.limit := by
        intro hm
        exact h c.full (by simp [hc, hs, hm])
      simp only [hs, Debounce.qualify?_eq_ok _ hcount]
      rfl
    · simp [hs]

/-- A tick whose counter is at the last value is refused. -/
theorem step?_eq_error {d : Debounce} (h : c.counting? s = some d)
    (hlast : d.count = Debounce.limit) : c.step? s = .error .overflow := by
  unfold counting? at h
  unfold step?
  cases hc : c.status with
  | notConnected => simp [hc] at h
  | inactive =>
    simp only [hc] at h
    split at h
    · rename_i hcond
      obtain ⟨hs, hm⟩ := Bool.and_eq_true_iff.mp hcond
      obtain rfl := Option.some.inj h
      simp only [hs, hm, Debounce.qualify?_eq_error _ hlast]
      rfl
    · exact absurd h (by simp)
  | active =>
    simp only [hc] at h
    split at h
    · rename_i hcond
      obtain ⟨hs, hm⟩ := Bool.and_eq_true_iff.mp hcond
      obtain rfl := Option.some.inj h
      simp only [hs, hm, Debounce.qualify?_eq_error _ hlast]
      rfl
    · exact absurd h (by simp)

/-! ## Counts -/

/-- The counters while the charger is at work: below the number of ticks they wait for, and at zero
in every status but the one they count in. -/
structure CountsBelow (c : Charger) : Prop where
  start_lt : c.start.count.toNat < c.config.ticksNeeded
  full_lt : c.full.count.toNat < c.config.ticksNeeded
  start_zero : c.status ≠ .inactive → c.start.count = 0
  full_zero : c.status ≠ .active → c.full.count = 0

/-- A change of the status starts both counters over. -/
theorem countsBelow_enter (c : Charger) (status : ChargerStatus) :
    CountsBelow (c.enter status) where
  start_lt := c.config.ticksNeeded_pos
  full_lt := c.config.ticksNeeded_pos
  start_zero := fun _ => rfl
  full_zero := fun _ => rfl

theorem countsBelow_new (config : ChargerConfig) : CountsBelow { config } :=
  countsBelow_enter { config } .notConnected

/-- **A tick keeps both counters below their number.** -/
theorem CountsBelow.step (h : CountsBelow c) (s : Sample) : CountsBelow (c.step s).1 := by
  have hmove := c.step_move s
  generalize (c.step s).1 = c' at hmove ⊢
  generalize (c.step s).2 = calls at hmove
  cases hmove with
  | reset hc => exact countsBelow_enter c _
  | unplug hc hs => exact countsBelow_enter c _
  | start hc hs hq => exact countsBelow_enter c _
  | hold hc hs hq =>
    -- the count that did not commit is the one of the status the charger stays in
    exact ⟨Debounce.qualify_lt h.start_lt hq, h.full_lt, fun hne => absurd hc hne, h.full_zero⟩
  | cut hc hs => exact countsBelow_enter c _
  | finish hc hs hq => exact countsBelow_enter c _
  | charge hc hs hq =>
    exact ⟨h.start_lt, Debounce.qualify_lt h.full_lt hq, h.start_zero, fun hne => absurd hc hne⟩

theorem CountsBelow.after (h : CountsBelow c) (samples : List Sample) :
    CountsBelow (c.after samples) := by
  induction samples generalizing c with
  | nil => exact h
  | cons s rest ih => exact ih (h.step s)

theorem counting?_cases {d : Debounce} (h : c.counting? s = some d) : d = c.start ∨ d = c.full := by
  unfold counting? at h
  split at h
  · exact absurd h (by simp)
  · split at h
    · exact Or.inl (Option.some.inj h).symm
    · exact absurd h (by simp)
  · split at h
    · exact Or.inr (Option.some.inj h).symm
    · exact absurd h (by simp)

/-- A counter that a tick takes further is short of the last value. -/
theorem CountsBelow.counting_lt (h : CountsBelow c) {d : Debounce} (hd : c.counting? s = some d) :
    d.count.toNat < 255 := by
  have := c.config.ticksNeeded_le
  have := h.start_lt
  have := h.full_lt
  rcases counting?_cases hd with rfl | rfl
  · omega
  · omega

theorem CountsBelow.step?_eq (h : CountsBelow c) (s : Sample) : c.step? s = .ok (c.step s) := by
  refine step?_eq_ok fun d hd hlast => ?_
  have hlt := h.counting_lt hd
  rw [hlast] at hlt
  exact absurd hlt (by decide)

/-- **Checked counting refuses no tick of a run.** -/
theorem CountsBelow.run?_eq (h : CountsBelow c) (samples : List Sample) :
    c.run? samples = .ok (c.run samples) := by
  induction samples generalizing c with
  | nil => rfl
  | cons s rest ih =>
    rw [run?, h.step?_eq s]
    simp only [bind, Except.bind]
    rw [ih (h.step s)]
    rfl

/-- The counting of a charger on a series of samples. -/
structure CountsOn (config : ChargerConfig) (samples : List Sample) : Prop where
  /-- After the samples both counters are below the number of ticks they wait for, and one that the
  status does not need is at zero. -/
  below : CountsBelow (({ config } : Charger).after samples)
  /-- No tick is refused by checked counting. -/
  checked : ({ config } : Charger).run? samples = .ok (({ config } : Charger).run samples)
  /-- The counter that a further tick takes further is not at the last value, and its count comes
  out one higher, so nothing is lost to saturation. -/
  exact_count : ∀ s d, (({ config } : Charger).after samples).counting? s = some d →
    d.count < Debounce.limit
      ∧ (d.qualify true config.debounceTicks).1.count.toNat = d.count.toNat + 1

/--
**No counter of a charger ever runs over**, for every calibration and every series of samples from
the start on.
-/
theorem countsOn_new (config : ChargerConfig) (samples : List Sample) :
    CountsOn config samples where
  below := (countsBelow_new config).after samples
  checked := (countsBelow_new config).run?_eq samples
  exact_count := by
    intro s d hd
    have hlt := ((countsBelow_new config).after samples).counting_lt hd
    exact ⟨UInt8.lt_iff_toNat_lt.mpr hlt, (Debounce.qualify_count config.debounceTicks hlt).1⟩

/-- The longest wait stops one short of the last value: the tick that counts to it commits. -/
example :
    (({ config := { debounceTicks := 255 } } : Charger).after
      (List.replicate 255 { voltage := 7000, thermalAllowed := true, plugged := true })).start.count
      = 254 := by
  decide +kernel

end Charger

end BatteryCare
