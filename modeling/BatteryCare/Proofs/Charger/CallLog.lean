import BatteryCare.Proofs.Charger.Moves
import Mathlib.Computability.Language

/-!
# The order of the calls to the charger circuit

A circuit is switched off once, and from then on it is used again and again. A use is a further
switching off, a cycle that is cut short, or a cycle that ends on a full pack. The log of the calls
is at every moment the beginning of such a series (`LogFits.mem_disciplined`), because what is open
in it is told by the status alone (`LogFits`): nothing while idle, and the last call while a cycle
runs.

The language says the rest. Two starts have a stop between them, and a full pack is told only right
after the stop that ends a start.
-/

namespace BatteryCare

open CircuitCall
open scoped Computability

/-! ## The language of the calls -/

/-- Switching off a circuit. -/
def stops : Language CircuitCall := {[disable]}

/-- A charge cycle that is cut short. -/
def cutCycles : Language CircuitCall := {use | ∃ mode, use = [enable mode, disable]}

/-- A charge cycle that ends on a full pack. -/
def fullCycles : Language CircuitCall := {use | ∃ mode, use = [enable mode, disable, .fullCharge]}

/-- The uses of a circuit that is off, after which it is off again. -/
def circuitUses : Language CircuitCall := stops + cutCycles + fullCycles

/-- The logs of a circuit that is off. -/
def idleLogs : Language CircuitCall := stops * circuitUses∗

/-- The beginnings of such logs. -/
def disciplined : Language CircuitCall := {log | ∃ whole ∈ idleLogs, log <+: whole}

theorem mem_circuitUses {use : List CircuitCall} :
    use ∈ circuitUses ↔
      use = [disable] ∨ (∃ mode, use = [enable mode, disable])
        ∨ ∃ mode, use = [enable mode, disable, .fullCharge] := by
  constructor
  · rintro ((h | h) | h)
    · exact Or.inl h
    · exact Or.inr (Or.inl h)
    · exact Or.inr (Or.inr h)
  · rintro (h | h | h)
    · exact Or.inl (Or.inl h)
    · exact Or.inl (Or.inr h)
    · exact Or.inr h

theorem mem_idleLogs {log : List CircuitCall} :
    log ∈ idleLogs ↔
      ∃ uses : List (List CircuitCall), (∀ use ∈ uses, use ∈ circuitUses)
        ∧ log = disable :: uses.flatten := by
  constructor
  · intro h
    obtain ⟨first, hfirst, rest, hrest, rfl⟩ := Language.mem_mul.mp h
    obtain ⟨uses, rfl, huses⟩ := Language.mem_kstar.mp hrest
    have hfirst' : first = [disable] := hfirst
    subst hfirst'
    exact ⟨uses, huses, rfl⟩
  · rintro ⟨uses, huses, rfl⟩
    exact Language.append_mem_mul (show [disable] ∈ stops from rfl) (Language.join_mem_kstar huses)

theorem disable_mem_idleLogs : [disable] ∈ idleLogs :=
  mem_idleLogs.mpr ⟨[], by simp, rfl⟩

theorem append_mem_idleLogs {log use : List CircuitCall} (h : log ∈ idleLogs)
    (huse : use ∈ circuitUses) : log ++ use ∈ idleLogs := by
  obtain ⟨uses, huses, rfl⟩ := mem_idleLogs.mp h
  refine mem_idleLogs.mpr ⟨uses ++ [use], ?_, by simp⟩
  intro u hu
  rcases List.mem_append.mp hu with hu | hu
  · exact huses u hu
  · exact List.mem_singleton.mp hu ▸ huse

/-! ## What the language says -/

theorem use_of_split {uses : List (List CircuitCall)} {xs ys : List CircuitCall}
    {call : CircuitCall} (h : uses.flatten = xs ++ call :: ys) :
    ∃ before start rest later, uses = before ++ (start ++ call :: rest) :: later
      ∧ xs = before.flatten ++ start ∧ ys = rest ++ later.flatten := by
  rcases List.flatten_eq_append_iff.mp h with ⟨as, bs, rfl, rfl, hbs⟩ |
    ⟨as, start, c, rest, later, rfl, rfl, hrest⟩
  · obtain ⟨cs, rest, later, rfl, hcs, rfl⟩ := List.flatten_eq_cons_iff.mp hbs.symm
    have hnil : cs.flatten = [] := List.flatten_eq_nil_iff.mpr hcs
    exact ⟨as ++ cs, [], rest, later, by simp, by simp [hnil], rfl⟩
  · obtain ⟨rfl, rfl⟩ := List.cons.inj hrest
    exact ⟨as, start, rest, later, rfl, rfl, rfl⟩

/-- Right after a start comes a stop, or nothing yet. -/
theorem disable_after_enable {log xs ys : List CircuitCall} {mode : ChargeMode}
    (h : log ∈ disciplined) (hsplit : log = xs ++ enable mode :: ys) :
    ys = [] ∨ ∃ rest, ys = disable :: rest := by
  obtain ⟨whole, hwhole, tail, rfl⟩ := h
  obtain ⟨uses, huses, heq⟩ := mem_idleLogs.mp hwhole
  rw [hsplit, List.append_assoc, List.cons_append] at heq
  cases xs with
  | nil => exact absurd heq (by simp)
  | cons x xs =>
    obtain ⟨_, hflat⟩ := List.cons.inj heq
    obtain ⟨before, start, rest, later, rfl, _, hys⟩ := use_of_split hflat.symm
    have huse := mem_circuitUses.mp (huses (start ++ enable mode :: rest) (by simp))
    have hrest : ∃ more, rest = disable :: more := by
      rcases huse with h | ⟨m, h⟩ | ⟨m, h⟩
      · simp [List.append_eq_cons_iff] at h
      · simp [List.append_eq_cons_iff, List.cons_eq_append_iff] at h
        exact ⟨[], h.2.2⟩
      · simp [List.append_eq_cons_iff, List.cons_eq_append_iff] at h
        exact ⟨[.fullCharge], h.2.2⟩
    obtain ⟨more, rfl⟩ := hrest
    cases ys with
    | nil => exact Or.inl rfl
    | cons y ys =>
      obtain ⟨rfl, _⟩ := List.cons.inj hys
      exact Or.inr ⟨ys, rfl⟩

/-- A full pack is told right after the stop that ends a start. -/
theorem enable_before_fullCharge {log xs ys : List CircuitCall} (h : log ∈ disciplined)
    (hsplit : log = xs ++ .fullCharge :: ys) :
    ∃ ws mode, xs = ws ++ [enable mode, disable] := by
  obtain ⟨whole, hwhole, tail, rfl⟩ := h
  obtain ⟨uses, huses, heq⟩ := mem_idleLogs.mp hwhole
  rw [hsplit, List.append_assoc, List.cons_append] at heq
  cases xs with
  | nil => exact absurd heq (by simp)
  | cons x xs =>
    obtain ⟨rfl, hflat⟩ := List.cons.inj heq
    obtain ⟨before, start, rest, later, rfl, rfl, _⟩ := use_of_split hflat.symm
    have huse := mem_circuitUses.mp (huses (start ++ .fullCharge :: rest) (by simp))
    have hstart : ∃ mode, start = [enable mode, disable] := by
      rcases huse with h | ⟨m, h⟩ | ⟨m, h⟩
      · simp [List.append_eq_cons_iff] at h
      · simp [List.append_eq_cons_iff, List.cons_eq_append_iff] at h
      · simp [List.append_eq_cons_iff, List.cons_eq_append_iff] at h
        exact ⟨m, h.1⟩
    obtain ⟨mode, rfl⟩ := hstart
    exact ⟨disable :: before.flatten, mode, by simp⟩

theorem disable_between_enables {log xs ys zs : List CircuitCall} {mode mode' : ChargeMode}
    (h : log ∈ disciplined) (hsplit : log = xs ++ enable mode :: ys ++ enable mode' :: zs) :
    disable ∈ ys := by
  rw [List.append_assoc, List.cons_append] at hsplit
  rcases disable_after_enable h hsplit with hnil | ⟨rest, hrest⟩
  · exact absurd hnil (by simp)
  · cases ys with
    | nil => exact absurd hrest (by simp)
    | cons y ys =>
      obtain ⟨rfl, _⟩ := List.cons.inj hrest
      exact List.mem_cons_self

theorem enable_between_fullCharges {log xs ys zs : List CircuitCall} (h : log ∈ disciplined)
    (hsplit : log = xs ++ .fullCharge :: ys ++ .fullCharge :: zs) :
    ∃ mode, enable mode ∈ ys := by
  obtain ⟨ws, mode, hws⟩ := enable_before_fullCharge h hsplit
  refine ⟨mode, ?_⟩
  -- the two calls before the second full pack cannot reach back over the first
  rcases List.append_eq_append_iff.mp hws with ⟨as, _, has⟩ | ⟨as, _, has⟩
  · cases as with
    | nil => exact absurd has (by simp)
    | cons a as =>
      obtain ⟨_, rfl⟩ := List.cons.inj has
      simp
  · have hmem : .fullCharge ∈ [enable mode, disable] := by
      rw [has]
      simp
    exact absurd hmem (by simp)

/-! ## The log of a run -/

/-- All calls of a series of ticks. -/
def callLog (ticks : List ChargerTick) : List CircuitCall := ticks.flatMap ChargerTick.calls

/-- The last call that switched the circuit. -/
def lastSwitch? (log : List CircuitCall) : Option CircuitCall :=
  (log.filter (· ≠ .fullCharge)).getLast?

/-- What a log can be while the charger has a status. -/
def LogFits (log : List CircuitCall) : ChargerStatus → Prop
  | .notConnected => log = [] ∨ log ∈ idleLogs
  | .inactive => log ∈ idleLogs
  | .active => ∃ past mode, past ∈ idleLogs ∧ log = past ++ [enable mode]

theorem LogFits.mem_disciplined {log : List CircuitCall} {status : ChargerStatus}
    (h : LogFits log status) : log ∈ disciplined := by
  cases status with
  | notConnected =>
    rcases h with rfl | h
    · exact ⟨_, disable_mem_idleLogs, List.nil_prefix⟩
    · exact ⟨log, h, List.prefix_refl log⟩
  | inactive => exact ⟨log, h, List.prefix_refl log⟩
  | active =>
    obtain ⟨past, mode, hpast, rfl⟩ := h
    refine ⟨past ++ [enable mode, disable], ?_, ⟨[disable], by simp⟩⟩
    exact append_mem_idleLogs hpast (mem_circuitUses.mpr (Or.inr (Or.inl ⟨mode, rfl⟩)))

theorem lastSwitch?_of_mem_idleLogs {log : List CircuitCall} (h : log ∈ idleLogs) :
    lastSwitch? log = some disable := by
  obtain ⟨uses, huses, rfl⟩ := mem_idleLogs.mp h
  induction uses using List.reverseRecOn with
  | nil => rfl
  | append_singleton uses use _ =>
    have huse := mem_circuitUses.mp (huses use (by simp))
    rcases huse with rfl | ⟨mode, rfl⟩ | ⟨mode, rfl⟩ <;>
      simp [lastSwitch?, List.getLast?_cons]

theorem LogFits.lastSwitch?_iff {log : List CircuitCall} {status : ChargerStatus}
    (h : LogFits log status) :
    (∃ mode, lastSwitch? log = some (enable mode)) ↔ status = .active := by
  cases status with
  | notConnected =>
    rcases h with rfl | h
    · simp [lastSwitch?]
    · simp [lastSwitch?_of_mem_idleLogs h]
  | inactive => simp [lastSwitch?_of_mem_idleLogs h]
  | active =>
    obtain ⟨past, mode, hpast, rfl⟩ := h
    simp [lastSwitch?]

/-- **A tick keeps log and status in step.** -/
theorem logFits_step {c : Charger} {s : Sample} {log : List CircuitCall}
    (h : LogFits log c.status) : LogFits (log ++ (c.step s).2) (c.step s).1.status := by
  have hmove := c.step_move s
  generalize (c.step s).1 = c' at hmove ⊢
  generalize (c.step s).2 = calls at hmove ⊢
  -- a use of the circuit is closed by `cut` and `finish`, and left open by `start`
  cases hmove with
  | reset hc =>
    rw [hc] at h
    rcases h with rfl | h
    · exact disable_mem_idleLogs
    · exact append_mem_idleLogs h (mem_circuitUses.mpr (Or.inl rfl))
  | unplug hc hs =>
    rw [hc] at h
    rw [List.append_nil]
    exact Or.inr h
  | start hc hs hq =>
    rw [hc] at h
    exact ⟨log, s.mode, h, rfl⟩
  | hold hc hs hq => simpa using h
  | cut hc hs =>
    rw [hc] at h
    obtain ⟨past, mode, hpast, rfl⟩ := h
    rw [List.append_assoc]
    exact append_mem_idleLogs hpast (mem_circuitUses.mpr (Or.inr (Or.inl ⟨mode, rfl⟩)))
  | finish hc hs hq =>
    rw [hc] at h
    obtain ⟨past, mode, hpast, rfl⟩ := h
    rw [List.append_assoc]
    exact append_mem_idleLogs hpast (mem_circuitUses.mpr (Or.inr (Or.inr ⟨mode, rfl⟩)))
  | charge hc hs hq => simpa using h

theorem logFits_run (c : Charger) (samples : List Sample) (log : List CircuitCall)
    (h : LogFits log c.status) :
    LogFits (log ++ callLog (c.run samples)) (c.after samples).status := by
  induction samples generalizing c log with
  | nil =>
    rw [Charger.run, callLog, List.flatMap_nil, List.append_nil]
    exact h
  | cons s rest ih =>
    have hrest := ih (c.step s).1 (log ++ (c.step s).2) (logFits_step h)
    rw [List.append_assoc] at hrest
    exact hrest

theorem logFits_new (config : ChargerConfig) (samples : List Sample) :
    LogFits (callLog (({ config } : Charger).run samples))
      (({ config } : Charger).after samples).status := by
  simpa using logFits_run { config } samples [] (Or.inl rfl)

/-- What holds of the ticks of a new charger and of its status after them. -/
structure CallDiscipline (config : ChargerConfig)
    (ticks : List ChargerTick) (final : ChargerStatus) : Prop where
  /-- A tick that leaves the status unchanged makes no call. -/
  quiet : ∀ t ∈ ticks, t.after = t.before → t.calls = []
  /-- The log is the beginning of `disable (disable | enable disable | enable disable full)*`. -/
  language : callLog ticks ∈ disciplined
  /-- Two starts have a stop between them. -/
  stopBetween : ∀ xs mode ys mode' zs,
    callLog ticks = xs ++ enable mode :: ys ++ enable mode' :: zs → disable ∈ ys
  /-- A full pack is told in the tick that ends a start, right after the stop. -/
  fullAfterStop : ∀ past t rest, ticks = past ++ t :: rest → .fullCharge ∈ t.calls →
    t.calls = [disable, .fullCharge] ∧ ∃ mode, (callLog past).getLast? = some (enable mode)
  /-- A start is followed by one full pack at most. -/
  oneFullEach : ∀ xs ys zs, callLog ticks = xs ++ .fullCharge :: ys ++ .fullCharge :: zs →
    ∃ mode, enable mode ∈ ys
  /-- The circuit was switched on last if and only if the charger is active. -/
  lastSwitch : (∃ mode, lastSwitch? (callLog ticks) = some (enable mode)) ↔ final = .active
  /-- Only a safe sample leaves the charger active. -/
  safe : ∀ t ∈ ticks, t.after = .active → t.sample.Safe config
  /-- An unsafe sample ends charging in its own tick. -/
  endsAtOnce : ∀ t ∈ ticks, t.before = .active → ¬ t.sample.Safe config →
    t.after = .inactive ∧ t.calls = [disable]

/-- A full pack is told by the last move of a cycle only. -/
theorem Charger.Move.of_fullCharge {c c' : Charger} {s : Sample} {calls : List CircuitCall}
    (h : Charger.Move c s c' calls) (hfull : .fullCharge ∈ calls) :
    c.status = .active ∧ calls = [disable, .fullCharge] := by
  cases h with
  | finish hc hs hq => exact ⟨hc, rfl⟩
  | reset hc => simp at hfull
  | unplug hc hs => simp at hfull
  | start hc hs hq => simp at hfull
  | hold hc hs hq => simp at hfull
  | cut hc hs => simp at hfull
  | charge hc hs hq => simp at hfull

theorem Charger.Move.quiet {c c' : Charger} {s : Sample} {calls : List CircuitCall}
    (h : Charger.Move c s c' calls) (hkeep : c'.status = c.status) : calls = [] := by
  cases h with
  | unplug hc hs => rfl
  | hold hc hs hq => rfl
  | charge hc hs hq => rfl
  | reset hc => exact absurd (hkeep.trans hc) (by simp [Charger.enter])
  | start hc hs hq => exact absurd (hkeep.trans hc) (by simp [Charger.enter])
  | cut hc hs => exact absurd (hkeep.trans hc) (by simp [Charger.enter])
  | finish hc hs hq => exact absurd (hkeep.trans hc) (by simp [Charger.enter])

theorem Charger.Move.of_not_safe {c c' : Charger} {s : Sample} {calls : List CircuitCall}
    (h : Charger.Move c s c' calls) (hc : c.status = .active)
    (hs : ¬ s.Safe c.config) :
    c'.status = .inactive ∧ calls = [disable] := by
  cases h with
  | cut => exact ⟨rfl, rfl⟩
  | finish _ hs' => exact absurd (Charger.isSafe_iff.mp hs') hs
  | charge _ hs' => exact absurd (Charger.isSafe_iff.mp hs') hs
  | reset hc' => exact absurd (hc'.symm.trans hc) (by simp)
  | unplug hc' => exact absurd (hc'.symm.trans hc) (by simp)
  | start hc' => exact absurd (hc'.symm.trans hc) (by simp)
  | hold hc' => exact absurd (hc'.symm.trans hc) (by simp)

/--
**The calls of a charger are disciplined**, for every calibration and every series of samples from
the start on.
-/
theorem callDiscipline_of_new (config : ChargerConfig) (samples : List Sample) :
    CallDiscipline config (({ config } : Charger).run samples)
      (({ config } : Charger).after samples).status where
  quiet := Charger.forall_mem_run fun c _ s => (c.step_move s).quiet
  language := (logFits_new config samples).mem_disciplined
  stopBetween := fun _ _ _ _ _ h =>
    disable_between_enables (logFits_new config samples).mem_disciplined h
  fullAfterStop := by
    intro past t rest hsplit hfull
    obtain ⟨xs, s, _, _, rfl, rfl⟩ := Charger.run_split hsplit
    obtain ⟨hactive, hcalls⟩ := (Charger.step_move _ s).of_fullCharge hfull
    refine ⟨hcalls, ?_⟩
    have hfits := logFits_new config xs
    rw [hactive] at hfits
    obtain ⟨log, mode, _, hlog⟩ := hfits
    exact ⟨mode, by rw [hlog]; simp⟩
  oneFullEach := fun _ _ _ h =>
    enable_between_fullCharges (logFits_new config samples).mem_disciplined h
  lastSwitch := (logFits_new config samples).lastSwitch?_iff
  safe := by
    refine Charger.forall_mem_run fun c hconfig s hactive => ?_
    have hsafe := (c.step_move s).safe_of_active hactive
    rwa [hconfig] at hsafe
  endsAtOnce := by
    refine Charger.forall_mem_run fun c hconfig s hactive hbad => ?_
    refine (c.step_move s).of_not_safe hactive ?_
    rwa [hconfig]

end BatteryCare
