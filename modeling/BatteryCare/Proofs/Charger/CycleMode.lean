import BatteryCare.Proofs.Charger.CallLog
import BatteryCare.Proofs.Charger.Recall
import Mathlib.Data.List.Chain
import Mathlib.Data.List.Induction

/-!
# The mode of a running cycle

The circuit is told a mode once, when a cycle starts, and keeps to it. The charger compares the
voltage on every tick, and takes the limit from the mode of that tick's sample (`FollowsMode`).
`runInCycle` is the charger that takes it from the start of the cycle instead, as the circuit does.

The two agree as long as nobody asks for another mode while a cycle runs (`run_eq_runInCycle`). A
mode that changes in the middle of a cycle sets them apart, in either direction
(`run_ne_runInCycle`): the cycle ends although the circuit has not reached its limit, or it goes on
although the circuit has long been there.
-/

namespace BatteryCare

open CircuitCall

/-- The mode of the latest start among calls, and `before` where there is none. -/
def lastMode (before : Option ChargeMode) (calls : List CircuitCall) : Option ChargeMode :=
  calls.foldl
    (fun last call => match call with
      | enable mode => some mode
      | disable | .fullCharge => last)
    before

/-- Nobody asks for another mode while a cycle runs. -/
def Steady (ticks : List ChargerTick) : Prop :=
  ticks.IsChain fun t t' => t'.before = .active → t'.sample.mode = t.sample.mode

instance (ticks : List ChargerTick) : Decidable (Steady ticks) :=
  inferInstanceAs (Decidable (List.IsChain _ ticks))

/-- Every tick of a cycle has the mode in which the circuit was started last. -/
def KeepsMode (before : Option ChargeMode) (ticks : List ChargerTick) : Prop :=
  ∀ past t rest, ticks = past ++ t :: rest → t.before = .active →
    lastMode before (callLog past) = some t.sample.mode

namespace Charger

/-- One control tick of a charger that holds a running cycle to the mode `cycle` of its start. -/
def stepInCycle (c : Charger) (cycle : Option ChargeMode) (s : Sample) :
    Charger × List CircuitCall :=
  match c.status, cycle with
  | .active, some mode => c.step { s with mode }
  | .active, none | .inactive, _ | .notConnected, _ => c.step s

/-- The ticks of that charger on a series of samples. -/
def runInCycle (c : Charger) (cycle : Option ChargeMode) : List Sample → List ChargerTick
  | [] => []
  | s :: rest =>
    let (c', calls) := c.stepInCycle cycle s
    ⟨c.status, s, calls, c'.status⟩ :: c'.runInCycle (lastMode cycle calls) rest

end Charger

/-! ## Runs -/

theorem lastMode_append (before : Option ChargeMode) (xs ys : List CircuitCall) :
    lastMode before (xs ++ ys) = lastMode (lastMode before xs) ys :=
  List.foldl_append

theorem callLog_append (xs ys : List ChargerTick) : callLog (xs ++ ys) = callLog xs ++ callLog ys :=
  List.flatMap_append

namespace Charger

/-- In the mode that the sample has anyway, a cycle is held to nothing new. -/
theorem stepInCycle_eq_step {c : Charger} {cycle : Option ChargeMode} {s : Sample}
    (h : c.status = .active → cycle = some s.mode) : c.stepInCycle cycle s = c.step s := by
  cases hc : c.status with
  | notConnected => simp only [stepInCycle, hc]
  | inactive => simp only [stepInCycle, hc]
  | active => simp only [stepInCycle, hc, h hc]

/-- **A charger ends its cycles as the circuit does**, if their ticks have the mode of the start. -/
theorem run_eq_runInCycle {c : Charger} {cycle : Option ChargeMode} {samples : List Sample}
    (h : KeepsMode cycle (c.run samples)) : c.run samples = c.runInCycle cycle samples := by
  induction samples generalizing c cycle with
  | nil => rfl
  | cons s rest ih =>
    have hstep : c.stepInCycle cycle s = c.step s :=
      stepInCycle_eq_step fun hc => h [] (c.tick s) _ rfl hc
    have hrest : KeepsMode (lastMode cycle (c.step s).2) ((c.step s).1.run rest) := by
      intro past t later hsplit ht
      have hmode := h (c.tick s :: past) t later (by rw [run, hsplit, List.cons_append]) ht
      have hlog : callLog (c.tick s :: past) = (c.step s).2 ++ callLog past := List.flatMap_cons
      rwa [hlog, lastMode_append] at hmode
    rw [run, runInCycle, hstep, ih hrest]
    rfl

end Charger

/-! ## From the start of a cycle on -/

/-- While a cycle runs, the circuit is in the mode of the latest sample. -/
theorem lastMode_of_steady {config : ChargerConfig} {samples : List Sample}
    (h : Steady (({ config } : Charger).run samples))
    (ha : (({ config } : Charger).after samples).status = .active) :
    ∃ t ∈ (({ config } : Charger).run samples).getLast?,
      lastMode none (callLog (({ config } : Charger).run samples)) = some t.sample.mode := by
  induction samples using List.reverseRecOn with
  | nil => exact absurd ha (by simp [Charger.after])
  | append_singleton xs s ih =>
    rw [Charger.run_concat] at h ⊢
    rw [Charger.after_concat] at ha
    obtain ⟨hpast, -, hlink⟩ := List.isChain_append.mp h
    refine ⟨_, List.getLast?_concat, ?_⟩
    have hlog : callLog [(({ config } : Charger).after xs).tick s]
        = ((({ config } : Charger).after xs).step s).2 := List.flatMap_singleton _ _
    rw [callLog_append, hlog, lastMode_append]
    have hmove := (({ config } : Charger).after xs).step_move s
    generalize ((({ config } : Charger).after xs).step s).1 = c' at hmove ha
    generalize ((({ config } : Charger).after xs).step s).2 = calls at hmove
    cases hmove with
    | start hc hs hq => rfl
    | charge hc hs hq =>
      -- the cycle was running before, and the mode has not changed since
      obtain ⟨t, ht, hmode⟩ := ih hpast hc
      have hsame := hlink t ht _ List.head?_cons hc
      rw [hmode]
      exact congrArg some hsame.symm
    | reset hc => exact absurd ha (by simp [Charger.enter])
    | unplug hc hs => exact absurd ha (by simp [Charger.enter])
    | hold hc hs hq => exact absurd (hc.symm.trans ha) (by simp)
    | cut hc hs => exact absurd ha (by simp [Charger.enter])
    | finish hc hs hq => exact absurd ha (by simp [Charger.enter])

/-- **The ticks of a cycle have the mode of its start exactly if nobody changes it in between.** -/
theorem keepsMode_iff_steady {config : ChargerConfig} {samples : List Sample} :
    KeepsMode none (({ config } : Charger).run samples)
      ↔ Steady (({ config } : Charger).run samples) := by
  constructor
  · intro h
    induction samples using List.reverseRecOn with
    | nil => exact List.IsChain.nil
    | append_singleton xs s ih =>
      rw [Charger.run_concat] at h ⊢
      have hpast : Steady (({ config } : Charger).run xs) := by
        refine ih fun past t rest hsplit => ?_
        refine h past t (rest ++ [(({ config } : Charger).after xs).tick s]) ?_
        rw [hsplit, List.append_assoc, List.cons_append]
      refine List.isChain_append.mpr ⟨hpast, List.isChain_singleton _, ?_⟩
      intro t ht t' ht' hactive
      obtain rfl : _ = t' := Option.some.inj ht'
      obtain ⟨last, hlast, hmode⟩ := lastMode_of_steady hpast hactive
      obtain rfl : last = t := Option.some.inj (hlast.symm.trans ht)
      exact Option.some.inj ((h _ _ [] rfl hactive).symm.trans hmode)
  · intro h past t rest hsplit ht
    obtain ⟨xs, s, -, -, rfl, rfl⟩ := Charger.run_split hsplit
    rw [Steady, hsplit] at h
    obtain ⟨hpast, -, hlink⟩ := List.isChain_append.mp h
    obtain ⟨t, hlast, hmode⟩ := lastMode_of_steady hpast ht
    rw [hmode]
    exact congrArg some (hlink t hlast _ List.head?_cons ht).symm

/-- **The mode of the circuit** is that of the tick that starts it. -/
theorem mode_eq_of_start {config : ChargerConfig} {samples : List Sample} :
    ∀ t ∈ ({ config } : Charger).run samples, ∀ mode, enable mode ∈ t.calls →
      mode = t.sample.mode := by
  refine Charger.forall_mem_run fun c _ s mode hmode => ?_
  rw [Charger.tick] at hmode ⊢
  have hmove := c.step_move s
  dsimp only at hmode ⊢
  generalize (c.step s).1 = c' at hmove
  generalize (c.step s).2 = calls at hmove hmode
  cases hmove with
  | start hc hs hq => simpa using hmode
  | reset hc | unplug hc hs | hold hc hs hq | cut hc hs | finish hc hs hq | charge hc hs hq =>
    exact absurd hmode (by simp)

/-- How the ticks of a new charger go by the modes of their samples. -/
structure FollowsMode (config : ChargerConfig) (samples : List Sample) : Prop where
  /-- The circuit is started in the mode of the tick that starts it. -/
  starts : ∀ t ∈ ({ config } : Charger).run samples, ∀ mode, enable mode ∈ t.calls →
    mode = t.sample.mode
  /-- A cycle that could go on ends exactly if as many ticks as are needed, this one the last of
  them, spoke for a full pack, each against the limit of its own mode. -/
  ends : ∀ past t rest, ({ config } : Charger).run samples = past ++ t :: rest →
    t.before = .active → t.sample.Safe config →
      (t.calls = [.disable, .fullCharge]
        ↔ LastAll config.ticksNeeded (Processed.Fills config) (memory (past ++ [t])))
  /-- Those limits are the circuit's exactly if nobody asks for another mode while a cycle runs. -/
  keeps : KeepsMode none (({ config } : Charger).run samples)
    ↔ Steady (({ config } : Charger).run samples)
  /-- Then each cycle is held to the mode of its start, and a change counts from the next one on. -/
  nextCycle : Steady (({ config } : Charger).run samples) →
    ({ config } : Charger).run samples = ({ config } : Charger).runInCycle none samples

theorem followsMode_run (config : ChargerConfig) (samples : List Sample) :
    FollowsMode config samples where
  starts := mode_eq_of_start
  ends := fun _ _ _ => fullCharge_iff_lastAll
  keeps := keepsMode_iff_steady
  nextCycle := fun h => Charger.run_eq_runInCycle (keepsMode_iff_steady.mpr h)

/-! ## In the middle of a cycle -/

/-- A pack that is charged from 7000 mV and comes to 8200 mV, which lies between the limits of the
two modes. The mode is `mode` until the cycle runs and `mode'` from then on. -/
def changedInCycle (mode mode' : ChargeMode) : List Sample :=
  List.replicate 3 { voltage := 7000, thermalAllowed := true, plugged := true, mode }
    ++ List.replicate 2 { voltage := 8200, thermalAllowed := true, plugged := true, mode := mode' }

/-- **A mode that changes while a cycle runs counts at once for the charger, and not for the
circuit.** A friendly cycle goes on above the friendly limit, and a fast one is told as full below
the fast limit. -/
theorem Charger.run_ne_runInCycle :
    ({} : ChargerConfig).termination .friendly < 8200
      ∧ 8200 < ({} : ChargerConfig).termination .fast
      ∧ ¬ KeepsMode none (({ config := {} } : Charger).run (changedInCycle .friendly .fast))
      ∧ ((({ config := {} } : Charger).run (changedInCycle .friendly .fast)).map
          ChargerTick.calls = [[disable], [], [enable .friendly], [], []])
      ∧ ((({ config := {} } : Charger).runInCycle none (changedInCycle .friendly .fast)).map
          ChargerTick.calls = [[disable], [], [enable .friendly], [], [disable, .fullCharge]])
      ∧ ¬ KeepsMode none (({ config := {} } : Charger).run (changedInCycle .fast .friendly))
      ∧ ((({ config := {} } : Charger).run (changedInCycle .fast .friendly)).map
          ChargerTick.calls = [[disable], [], [enable .fast], [], [disable, .fullCharge]])
      ∧ ((({ config := {} } : Charger).runInCycle none (changedInCycle .fast .friendly)).map
          ChargerTick.calls = [[disable], [], [enable .fast], [], []]) := by
  refine ⟨by decide, by decide, ?_, by decide, by decide, ?_, by decide, by decide⟩
  · rw [keepsMode_iff_steady]
    decide
  · rw [keepsMode_iff_steady]
    decide

end BatteryCare
