import BatteryCare.Proofs.Charger.Moves

/-!
# The charger without counters

What the two counters of a charger stand for. `Recall` is a charger that keeps none: it remembers
every tick it has processed, and where a transition has to be confirmed it looks at the last
`ticksNeeded` of them.

The two chargers agree tick for tick (`run_eq_recall_run`). A counter is the length of the streak of
confirming ticks at the end of the past (`Counts`), which holds because a streak cannot outlive a
change of the status: the tick that made the change was processed in another one.
-/

namespace BatteryCare

/-- A tick of the past. -/
structure Processed where
  /-- The status in which the sample was processed. -/
  status : ChargerStatus
  sample : Sample
  deriving DecidableEq, Repr

/-- The tick speaks for a new cycle. -/
def Processed.Starts (c : ChargerConfig) (t : Processed) : Prop :=
  t.status = .inactive ∧ t.sample.Safe c ∧ t.sample.voltage < c.recharge

/-- The tick speaks for the end of the cycle on a full pack. -/
def Processed.Fills (c : ChargerConfig) (t : Processed) : Prop :=
  t.status = .active ∧ c.termination t.sample.mode ≤ t.sample.voltage
    ∧ ∀ limit, c.taper = some limit → t.sample.current ≤ limit

instance (c : ChargerConfig) : DecidablePred (Processed.Starts c) := fun _ =>
  inferInstanceAs (Decidable (_ ∧ _))

instance (c : ChargerConfig) : DecidablePred (Processed.Fills c) := fun t =>
  match h : c.taper with
  | none => decidable_of_iff (t.status = .active ∧ c.termination t.sample.mode ≤ t.sample.voltage)
      (by simp [Processed.Fills, h])
  | some limit => decidable_of_iff
      (t.status = .active ∧ c.termination t.sample.mode ≤ t.sample.voltage
        ∧ t.sample.current ≤ limit) (by simp [Processed.Fills, h])

/-- The last `n` ticks of a past, the latest first, all have a property. -/
def LastAll (n : Nat) (P : Processed → Prop) (past : List Processed) : Prop :=
  n ≤ past.length ∧ ∀ t ∈ past.take n, P t

instance (n : Nat) (P : Processed → Prop) [DecidablePred P] (past : List Processed) :
    Decidable (LastAll n P past) :=
  inferInstanceAs (Decidable (_ ∧ _))

/-- A charger that remembers its past and keeps no counters. -/
structure Recall where
  config : ChargerConfig
  status : ChargerStatus := .notConnected
  /-- The ticks so far, the latest first. -/
  past : List Processed := []

namespace Recall

def enter (m : Recall) (s : Sample) (status : ChargerStatus) : Recall :=
  { config := m.config, status, past := ⟨m.status, s⟩ :: m.past }

/-- One control tick: the charger after it and the calls to the circuit, in order. -/
def step (m : Recall) (s : Sample) : Recall × List CircuitCall :=
  match m.status with
  | .notConnected => (m.enter s .inactive, [.disable])
  | .inactive =>
    if s.plugged = false then (m.enter s .notConnected, [])
    else if LastAll m.config.ticksNeeded (Processed.Starts m.config) (⟨m.status, s⟩ :: m.past) then
      (m.enter s .active, [.enable s.mode])
    else (m.enter s .inactive, [])
  | .active =>
    if ¬ s.Safe m.config then (m.enter s .inactive, [.disable])
    else if LastAll m.config.ticksNeeded (Processed.Fills m.config) (⟨m.status, s⟩ :: m.past) then
      (m.enter s .inactive, [.disable, .fullCharge])
    else (m.enter s .active, [])

/-- The ticks on a series of samples. -/
def run (m : Recall) : List Sample → List ChargerTick
  | [] => []
  | s :: rest => ⟨m.status, s, (m.step s).2, (m.step s).1.status⟩ :: (m.step s).1.run rest

/-- The charger after a series of samples. -/
def after (m : Recall) : List Sample → Recall
  | [] => m
  | s :: rest => (m.step s).1.after rest

theorem step_memory (m : Recall) (s : Sample) :
    (m.step s).1.config = m.config ∧ (m.step s).1.past = ⟨m.status, s⟩ :: m.past := by
  unfold step
  split
  · exact ⟨rfl, rfl⟩
  · split
    · exact ⟨rfl, rfl⟩
    · split <;> exact ⟨rfl, rfl⟩
  · split
    · exact ⟨rfl, rfl⟩
    · split <;> exact ⟨rfl, rfl⟩

end Recall

/-! ## Streaks -/

section Streaks

variable {P : Processed → Prop} [DecidablePred P] {t : Processed} {past : List Processed} {n : Nat}

/-- Ticks at the end of the past that have a property without a break. -/
def streak (P : Processed → Prop) [DecidablePred P] (past : List Processed) : Nat :=
  (past.takeWhile fun t => P t).length

theorem streak_cons_of_pos (h : P t) : streak P (t :: past) = streak P past + 1 := by
  simp [streak, h]

theorem streak_cons_of_neg (h : ¬ P t) : streak P (t :: past) = 0 := by
  simp [streak, h]

theorem lastAll_iff_streak : LastAll n P past ↔ n ≤ streak P past := by
  induction past generalizing n with
  | nil => simp [LastAll, streak]
  | cons t past ih =>
    cases n with
    | zero => simp [LastAll]
    | succ n =>
      by_cases h : P t
      · rw [streak_cons_of_pos h, Nat.add_le_add_iff_right, ← ih]
        simp [LastAll, h]
      · rw [streak_cons_of_neg h]
        simp [LastAll, h]

/-- A counter that stands for a streak, and has not reached the number that commits. -/
structure Counts (d : Debounce) (n : Nat) (P : Processed → Prop) [DecidablePred P]
    (past : List Processed) : Prop where
  count : d.count.toNat = streak P past
  lt : d.count.toNat < n

/-- A counter starts over where the latest tick breaks the streak. -/
theorem counts_reset (hn : 1 ≤ n) (h : ¬ P t) : Counts {} n P (t :: past) :=
  ⟨by rw [streak_cons_of_neg h]; rfl, hn⟩

variable {d : Debounce} {condition : Bool} {c : ChargerConfig}

/-- **A counter commits exactly when the last ticks all speak for it.** -/
theorem qualify_iff_lastAll (h : Counts d c.ticksNeeded P past) (hc : condition = true ↔ P t) :
    (d.qualify condition c.debounceTicks).2 = true ↔ LastAll c.ticksNeeded P (t :: past) := by
  rw [lastAll_iff_streak]
  cases condition with
  | false =>
    have hneg : ¬ P t := fun hp => absurd (hc.mpr hp) (by simp)
    have := c.ticksNeeded_pos
    rw [streak_cons_of_neg hneg]
    constructor
    · intro hq
      exact absurd (Debounce.condition_of_commit hq) (by simp)
    · intro hle
      omega
  | true =>
    have hlt : d.count.toNat < 255 := Nat.lt_of_lt_of_le h.lt c.ticksNeeded_le
    rw [streak_cons_of_pos (hc.mp rfl), ← h.count]
    exact (Debounce.qualify_count c.debounceTicks hlt).2

theorem counts_qualify (h : Counts d c.ticksNeeded P past) (hc : condition = true ↔ P t)
    (hq : (d.qualify condition c.debounceTicks).2 = false) :
    Counts (d.qualify condition c.debounceTicks).1 c.ticksNeeded P (t :: past) := by
  cases condition with
  | false => exact counts_reset c.ticksNeeded_pos fun hp => absurd (hc.mpr hp) (by simp)
  | true =>
    have hlt : d.count.toNat < 255 := Nat.lt_of_lt_of_le h.lt c.ticksNeeded_le
    refine ⟨?_, Debounce.qualify_lt h.lt hq⟩
    rw [(Debounce.qualify_count c.debounceTicks hlt).1, streak_cons_of_pos (hc.mp rfl), h.count]

end Streaks

/-! ## Conditions -/

theorem mayStart_iff_starts {c : ChargerConfig} {s : Sample} :
    Charger.mayStart c s = true ↔ Processed.Starts c ⟨.inactive, s⟩ := by
  rw [Charger.mayStart, Bool.and_eq_true, Charger.isSafe_iff, decide_eq_true_iff]
  simp [Processed.Starts]

theorem isFull_iff_fills {c : ChargerConfig} {s : Sample} :
    Charger.isFull c s = true ↔ Processed.Fills c ⟨.active, s⟩ := by
  cases h : c.taper <;> simp [Charger.isFull, Processed.Fills, h]

/-! ## The two chargers side by side -/

/-- A charger and its counterpart without counters. -/
structure Mirrors (c : Charger) (m : Recall) : Prop where
  config : c.config = m.config
  status : c.status = m.status
  start : c.status = .inactive →
    Counts c.start m.config.ticksNeeded (Processed.Starts m.config) m.past
  full : c.status = .active →
    Counts c.full m.config.ticksNeeded (Processed.Fills m.config) m.past

/-- A change of the status breaks both streaks. -/
theorem mirrors_enter {c : Charger} {m : Recall} {s : Sample} {status : ChargerStatus}
    (h : Mirrors c m) (hne : status ≠ c.status) : Mirrors (c.enter status) (m.enter s status) where
  config := h.config
  status := rfl
  start := fun hs => counts_reset m.config.ticksNeeded_pos fun hp =>
    hne (hs.trans (hp.1.symm.trans h.status.symm))
  full := fun hs => counts_reset m.config.ticksNeeded_pos fun hp =>
    hne (hs.trans (hp.1.symm.trans h.status.symm))

/-- **One tick keeps the two side by side.** -/
theorem mirrors_step {c : Charger} {m : Recall} {s : Sample} (h : Mirrors c m) :
    (c.step s).2 = (m.step s).2 ∧ Mirrors (c.step s).1 (m.step s).1 := by
  have hmove := c.step_move s
  generalize (c.step s).1 = c' at hmove ⊢
  generalize (c.step s).2 = calls at hmove ⊢
  -- a move that changes the status resets the counters, and only `hold` and `charge` go on counting
  cases hmove with
  | reset hc =>
    have hm : m.status = .notConnected := h.status ▸ hc
    have hstep : m.step s = (m.enter s .inactive, [.disable]) := by simp [Recall.step, hm]
    rw [hstep]
    exact ⟨rfl, mirrors_enter h (by simp [hc])⟩
  | unplug hc hs =>
    have hm : m.status = .inactive := h.status ▸ hc
    have hstep : m.step s = (m.enter s .notConnected, []) := by simp [Recall.step, hm, hs]
    rw [hstep]
    exact ⟨rfl, mirrors_enter h (by simp [hc])⟩
  | start hc hs hq =>
    have hm : m.status = .inactive := h.status ▸ hc
    rw [h.config] at hq
    have hall := (qualify_iff_lastAll (h.start hc) mayStart_iff_starts).mp hq
    have hstep : m.step s = (m.enter s .active, [.enable s.mode]) := by
      simp [Recall.step, hm, hs, hall]
    rw [hstep]
    exact ⟨rfl, mirrors_enter h (by simp [hc])⟩
  | hold hc hs hq =>
    have hm : m.status = .inactive := h.status ▸ hc
    rw [h.config] at hq ⊢
    have hall := mt (qualify_iff_lastAll (h.start hc) mayStart_iff_starts).mpr
      (Bool.eq_false_iff.mp hq)
    have hstep : m.step s = (m.enter s .inactive, []) := by simp [Recall.step, hm, hs, hall]
    rw [hstep]
    refine ⟨rfl, rfl, hc, fun _ => ?_, fun ha => absurd (hc.symm.trans ha) (by simp)⟩
    have hcounts := counts_qualify (h.start hc) mayStart_iff_starts hq
    rwa [← hm] at hcounts
  | cut hc hs =>
    have hm : m.status = .active := h.status ▸ hc
    rw [h.config] at hs
    have hbad : ¬ s.Safe m.config := mt Charger.isSafe_iff.mpr (by simp [hs])
    have hstep : m.step s = (m.enter s .inactive, [.disable]) := by
      simp [Recall.step, hm, hbad]
    rw [hstep]
    exact ⟨rfl, mirrors_enter h (by simp [hc])⟩
  | finish hc hs hq =>
    have hm : m.status = .active := h.status ▸ hc
    rw [h.config] at hs hq
    have hsafe := Charger.isSafe_iff.mp hs
    have hall := (qualify_iff_lastAll (h.full hc) isFull_iff_fills).mp hq
    have hstep : m.step s = (m.enter s .inactive, [.disable, .fullCharge]) := by
      simp [Recall.step, hm, hsafe, hall]
    rw [hstep]
    exact ⟨rfl, mirrors_enter h (by simp [hc])⟩
  | charge hc hs hq =>
    have hm : m.status = .active := h.status ▸ hc
    rw [h.config] at hs hq ⊢
    have hsafe := Charger.isSafe_iff.mp hs
    have hall := mt (qualify_iff_lastAll (h.full hc) isFull_iff_fills).mpr
      (Bool.eq_false_iff.mp hq)
    have hstep : m.step s = (m.enter s .active, []) := by simp [Recall.step, hm, hsafe, hall]
    rw [hstep]
    refine ⟨rfl, rfl, hc, fun ha => absurd (hc.symm.trans ha) (by simp), fun _ => ?_⟩
    have hcounts := counts_qualify (h.full hc) isFull_iff_fills hq
    rwa [← hm] at hcounts

theorem mirrors_new (config : ChargerConfig) : Mirrors { config } { config } where
  config := rfl
  status := rfl
  start := fun h => absurd h (by simp)
  full := fun h => absurd h (by simp)

theorem run_eq_of_mirrors {c : Charger} {m : Recall} (h : Mirrors c m) (samples : List Sample) :
    c.run samples = m.run samples := by
  induction samples generalizing c m with
  | nil => rfl
  | cons s rest ih =>
    obtain ⟨hcalls, hnext⟩ := mirrors_step (s := s) h
    rw [Charger.run, Recall.run, ih hnext, Charger.tick, h.status, hcalls, hnext.status]

theorem mirrors_after {c : Charger} {m : Recall} (h : Mirrors c m) (samples : List Sample) :
    Mirrors (c.after samples) (m.after samples) := by
  induction samples generalizing c m with
  | nil => exact h
  | cons s rest ih => exact ih (mirrors_step h).2

/-- What a series of ticks leaves in memory, the latest first. -/
def memory (ticks : List ChargerTick) : List Processed :=
  (ticks.map fun t => ⟨t.before, t.sample⟩).reverse

theorem memory_concat (ticks : List ChargerTick) (c : Charger) (s : Sample) :
    memory (ticks ++ [c.tick s]) = ⟨c.status, s⟩ :: memory ticks := by
  simp [memory, Charger.tick]

theorem after_past {c : Charger} {m : Recall} (h : Mirrors c m) (samples : List Sample) :
    (m.after samples).past = memory (c.run samples) ++ m.past := by
  induction samples generalizing c m with
  | nil => rfl
  | cons s rest ih =>
    rw [Recall.after, ih (mirrors_step h).2, (m.step_memory s).2, ← h.status]
    simp [memory, Charger.run, Charger.tick]

theorem after_config {m : Recall} (samples : List Sample) :
    (m.after samples).config = m.config := by
  induction samples generalizing m with
  | nil => rfl
  | cons s rest ih => rw [Recall.after, ih, (m.step_memory s).1]

theorem LastAll.head {n : Nat} {P : Processed → Prop} {t : Processed} {past : List Processed}
    (hn : 1 ≤ n) (h : LastAll n P (t :: past)) : P t := by
  obtain ⟨k, rfl⟩ := Nat.exists_eq_add_of_le hn
  exact h.2 t (by rw [Nat.add_comm]; exact List.mem_cons_self)

theorem Recall.step_starts {m : Recall} {s : Sample} (hm : m.status = .inactive) :
    (m.step s).1.status = .active ↔
      LastAll m.config.ticksNeeded (Processed.Starts m.config) (⟨.inactive, s⟩ :: m.past) := by
  simp only [Recall.step, hm]
  split
  · rename_i hs
    constructor
    · intro h
      exact absurd h (by simp [Recall.enter])
    · intro hall
      exact absurd (hs.symm.trans (hall.head m.config.ticksNeeded_pos).2.1.1) (by simp)
  · split
    · rename_i hall
      simp [Recall.enter, hall]
    · rename_i hall
      simp [Recall.enter, hall]

theorem Recall.step_fills {m : Recall} {s : Sample} (hm : m.status = .active)
    (hs : s.Safe m.config) :
    (m.step s).2 = [.disable, .fullCharge] ↔
      LastAll m.config.ticksNeeded (Processed.Fills m.config) (⟨.active, s⟩ :: m.past) := by
  simp only [Recall.step, hm, not_true, hs, if_false]
  split
  · rename_i hall
    simp [hall]
  · rename_i hall
    simp [hall]

section Split

variable {config : ChargerConfig} {samples : List Sample} {past rest : List ChargerTick}
  {t : ChargerTick}

/-- A tick of a run is one tick of the two chargers side by side. -/
theorem mirrors_of_split (h : ({ config } : Charger).run samples = past ++ t :: rest) :
    ∃ (m : Recall) (c : Charger) (s : Sample), t = c.tick s ∧ Mirrors c m ∧ m.config = config
      ∧ memory (past ++ [t]) = ⟨c.status, s⟩ :: m.past := by
  obtain ⟨xs, s, _, _, rfl, rfl⟩ := Charger.run_split h
  refine ⟨_, _, s, rfl, mirrors_after (mirrors_new config) xs, after_config xs, ?_⟩
  rw [memory_concat, after_past (mirrors_new config) xs, List.append_nil]

/-- **A cycle starts** on the last of `ticksNeeded` ticks that speak for it. -/
theorem active_iff_lastAll (h : ({ config } : Charger).run samples = past ++ t :: rest)
    (hbefore : t.before = .inactive) :
    t.after = .active
      ↔ LastAll config.ticksNeeded (Processed.Starts config) (memory (past ++ [t])) := by
  obtain ⟨m, c, s, rfl, hmirrors, rfl, hmemory⟩ := mirrors_of_split h
  change c.status = .inactive at hbefore
  change (c.step s).1.status = .active ↔ _
  rw [(mirrors_step hmirrors).2.status, hmemory, hbefore]
  exact Recall.step_starts (hmirrors.status ▸ hbefore)

/-- **A safe cycle ends on a full pack** on the last of `ticksNeeded` ticks that speak for it. -/
theorem fullCharge_iff_lastAll (h : ({ config } : Charger).run samples = past ++ t :: rest)
    (hbefore : t.before = .active) (hsafe : t.sample.Safe config) :
    t.calls = [.disable, .fullCharge]
      ↔ LastAll config.ticksNeeded (Processed.Fills config) (memory (past ++ [t])) := by
  obtain ⟨m, c, s, rfl, hmirrors, rfl, hmemory⟩ := mirrors_of_split h
  change c.status = .active at hbefore
  change (c.step s).2 = [.disable, .fullCharge] ↔ _
  rw [(mirrors_step hmirrors).1, hmemory, hbefore]
  exact Recall.step_fills (hmirrors.status ▸ hbefore) hsafe

end Split

/--
**A charger is its counterpart without counters**, tick for tick, for every calibration and every
series of samples. So a cycle starts exactly when the last `ticksNeeded` ticks were all processed
inactive and spoke for it, and a safe tick ends it on a full pack exactly when as many were all
processed active and spoke for that.
-/
theorem run_eq_recall_run (config : ChargerConfig) (samples : List Sample) :
    ({ config } : Charger).run samples = ({ config } : Recall).run samples
      ∧ ∀ past t rest, ({ config } : Charger).run samples = past ++ t :: rest →
        (t.before = .inactive →
          (t.after = .active ↔
            LastAll config.ticksNeeded (Processed.Starts config) (memory (past ++ [t]))))
        ∧ (t.before = .active → t.sample.Safe config →
          (t.calls = [.disable, .fullCharge] ↔
            LastAll config.ticksNeeded (Processed.Fills config) (memory (past ++ [t])))) := by
  refine ⟨run_eq_of_mirrors (mirrors_new config) samples, ?_⟩
  intro past t rest hsplit
  exact ⟨active_iff_lastAll hsplit, fullCharge_iff_lastAll hsplit⟩

end BatteryCare
