import BatteryCare.Proofs.Charger.CycleMode
import BatteryCare.Proofs.Device.Turns

/-!
# The mode pin and the running cycle

The wish of the user reaches the circuit and the charger by two ways. The mode pin is set when the
circuit is started, from the sample of that tick, and keeps its level until the next start. The
charger looks at the wish anew on every tick. The journal has both: what the pin was set to last
(`Device.modePin`), and the samples of all ticks (`Ledger.samples`), on which a charger of its own
does what the charger of the device did (`CircuitMode.records`).

So the pin shows the mode of the latest start at all times, and what is known of a charger's runs
holds of the device (`circuitMode_actAll`).
-/

namespace BatteryCare

/-! ## The mode pin -/

/-- The level of the mode pin after one more entry. -/
def Entry.setMode (level : Option Bool) : Entry → Option Bool
  | .modePin high => some high
  | .booted | .enablePin _ | .lamp _ | .loaded _ | .ticked _ | .sent _ _ | .handled _
  | .committed _ _ | .shown _ => level

/-- The calls of a tick leave the mode pin where the latest start among them wants it. -/
theorem foldl_setMode_pins (calls : List CircuitCall) (last : Option ChargeMode) :
    (calls.flatMap Monitor.pins).foldl Entry.setMode
        (some (decide (last = some .friendly)))
      = some (decide (lastMode last calls = some .friendly)) := by
  induction calls generalizing last with
  | nil => rfl
  | cons call rest ih =>
    rw [List.flatMap_cons, List.foldl_append]
    cases call with
    | enable mode =>
      have hmode : decide (mode = .friendly) = decide (some mode = some .friendly) := by
        simp
      change (rest.flatMap Monitor.pins).foldl Entry.setMode
        (some (decide (mode = .friendly))) = _
      rw [hmode]
      exact ih (some mode)
    | disable => exact ih last
    | fullCharge => exact ih last

/-! ## The ticks of the journal -/

/-- The sample that a tick ran on. -/
def TickRecord.sample (t : TickRecord) : Sample := t.readings.sample t.current t.chargeType.mode

/-- The samples since the last boot, in order. -/
def Ledger.samples (l : Ledger) : List Sample := l.ticks.reverse.map TickRecord.sample

/-- What a new charger does on these samples. -/
def Ledger.cycles (l : Ledger) : List ChargerTick := ({ config := {} } : Charger).run l.samples

namespace Device

/-- The level of the mode pin, once it has been set. -/
def modePin (d : Device) : Option Bool :=
  d.journal.foldr (fun stamped level => stamped.entry.setMode level) none

theorem modePin_note (d : Device) (entries : List Entry) :
    (d.note entries).modePin = entries.foldl Entry.setMode d.modePin := by
  rw [modePin, note, List.foldr_append, List.foldr_reverse, List.foldl_map]
  rfl

/-- What holds of charger, mode pin and journal between any two turns. -/
structure CircuitMode (d : Device) : Prop where
  /-- The calls and the status of each tick since boot are those of a charger that has seen the
  samples of the ticks. -/
  records : d.ledger.ticks.reverse.map (fun t => (t.calls, t.report.status))
    = d.ledger.cycles.map fun t => (t.calls, t.after)
  charger : ∀ v, d.monitor.supervisor? = some v →
    v.charger = ({ config := {} } : Charger).after d.ledger.samples
  /-- The mode pin is high if and only if the circuit was started in friendly mode last. -/
  pin : d.monitor ≠ .starting →
    d.modePin = some (decide (lastMode none (callLog d.ledger.cycles) = some .friendly))
  fresh : d.monitor.supervisor? = none → d.ledger.ticks = []

/-- A change that leaves the monitor and its entries alone. -/
theorem CircuitMode.frame {d d' : Device} (h : CircuitMode d) (hmonitor : d'.monitor = d.monitor)
    (hticks : d'.ledger.ticks = d.ledger.ticks) (hpin : d'.modePin = d.modePin) :
    CircuitMode d' := by
  have hsamples : d'.ledger.samples = d.ledger.samples := by rw [Ledger.samples, hticks]; rfl
  have hcycles : d'.ledger.cycles = d.ledger.cycles := by rw [Ledger.cycles, hsamples]; rfl
  refine ⟨?_, ?_, ?_, ?_⟩
  · rw [hticks, hcycles]
    exact h.records
  · rw [hmonitor, hsamples]
    exact h.charger
  · rw [hmonitor, hpin, hcycles]
    exact h.pin
  · rw [hmonitor, hticks]
    exact h.fresh

theorem circuitMode_boot (roles : List Role) (board : Board) (clock : Nat)
    (journal : List Stamped) : CircuitMode (boot roles board clock journal) where
  records := rfl
  charger := fun _ hv => absurd hv (by simp [boot, Monitor.supervisor?])
  pin := fun h => absurd rfl h
  fresh := fun _ => rfl

/-- A charger and a pin that nothing has happened to since boot. -/
theorem circuitMode_of_no_ticks {d : Device} (hticks : d.ledger.ticks = [])
    (hcharger : ∀ v, d.monitor.supervisor? = some v → v.charger = { config := {} })
    (hpin : d.modePin = some false) : CircuitMode d := by
  have hsamples : d.ledger.samples = [] := by rw [Ledger.samples, hticks]; rfl
  have hcycles : d.ledger.cycles = [] := by rw [Ledger.cycles, hsamples]; rfl
  refine ⟨?_, ?_, fun _ => ?_, fun _ => hticks⟩
  · rw [hticks, hcycles]
    rfl
  · rw [hsamples]
    exact hcharger
  · rw [hpin, hcycles]
    rfl

theorem charger_begin {now : Nat} {store : Option Store} {v : Supervisor}
    (hv : (Monitor.begin now store).supervisor? = some v) : v.charger = { config := {} } := by
  cases store with
  | none => exact absurd hv (by simp [Monitor.begin, Monitor.supervisor?])
  | some s =>
    obtain rfl : _ = v := Option.some.inj hv
    rfl

theorem setMode_tick (now : Nat) (sensed : Sensed) (status : Status) (store : Store)
    (events : Fifo Event) (v : Supervisor) (told : PowerState) (level : Option Bool) :
    (Monitor.tick now sensed status store events v told).entries.foldl Entry.setMode level
      = ((Monitor.outcome now sensed status store v told).calls.flatMap Monitor.pins).foldl
          Entry.setMode level := by
  rw [Monitor.tick]
  dsimp only
  rw [List.cons_append, List.foldl_cons, List.foldl_append]
  refine foldl_eq_self ?_ _
  intro e he level
  obtain ⟨event, -, queued, rfl⟩ := Monitor.eq_sent_of_mem_sendAll he
  rfl

/-- **A tick of the monitor is the next tick of the charger**, and the pin follows its calls. -/
theorem CircuitMode.tick {d d' : Device} (h : CircuitMode d) {v : Supervisor} {told : PowerState}
    {due : Nat} {window : List Single} (hmonitor : d.monitor = .waiting v told due window)
    {s : Store} {turn : Monitor.Turn}
    (hturn : Monitor.tick d.clock (d.board.sense window) d.status s d.events v told = turn)
    (hmonitor' : d'.monitor = turn.monitor)
    (hledger : d'.ledger = turn.entries.foldl Ledger.add d.ledger)
    (hpin : d'.modePin = turn.entries.foldl Entry.setMode d.modePin) : CircuitMode d' := by
  subst hturn
  obtain ⟨high, hnoted⟩ := Monitor.foldl_tick d.clock (d.board.sense window) d.status s d.events v
    told d.ledger
  generalize ht : Monitor.outcome d.clock (d.board.sense window) d.status s v told = t at hnoted
  have hcharger : v.charger = ({ config := {} } : Charger).after d.ledger.samples :=
    h.charger v (by rw [hmonitor]; rfl)
  have hsample : (Monitor.recordOf (d.board.sense window) d.status t).sample
      = (d.board.sense window).sample d.status.chargeType.mode := rfl
  have hstep : v.charger.step (Monitor.recordOf (d.board.sense window) d.status t).sample
      = (t.supervisor.charger, t.calls) := by
    rw [hsample, ← Monitor.informed_charger d.clock d.status v told, ← ht]
    rfl
  have hstatus : t.report.status = t.supervisor.charger.status := by
    rw [← ht]
    rfl
  have hticks : d'.ledger.ticks
      = Monitor.recordOf (d.board.sense window) d.status t :: d.ledger.ticks := by
    rw [hledger, hnoted]
  have hsamples : d'.ledger.samples
      = d.ledger.samples ++ [(Monitor.recordOf (d.board.sense window) d.status t).sample] := by
    rw [Ledger.samples, hticks, List.reverse_cons, List.map_append]
    rfl
  -- the charger takes the sample that the journal notes, so the series grows by this tick
  have hcycles : d'.ledger.cycles
      = d.ledger.cycles
        ++ [v.charger.tick (Monitor.recordOf (d.board.sense window) d.status t).sample] := by
    rw [Ledger.cycles, hsamples, Charger.run_concat, ← hcharger]
    rfl
  refine ⟨?_, ?_, fun _ => ?_, ?_⟩
  · rw [hticks, hcycles, List.reverse_cons, List.map_append, List.map_append, h.records]
    refine congrArg _ (congrArg (fun seen => [seen]) ?_)
    rw [Charger.tick, hstep, ← hstatus]
    rfl
  · intro v' hv'
    rw [hmonitor'] at hv'
    obtain rfl : t.supervisor = v' := by
      rw [← ht]
      exact Option.some.inj hv'
    rw [hsamples, Charger.after_concat, ← hcharger, hstep]
  · have hlog : callLog [v.charger.tick (Monitor.recordOf (d.board.sense window) d.status t).sample]
        = t.calls := by
      rw [callLog, List.flatMap_singleton, Charger.tick, hstep]
    rw [hpin, setMode_tick, ht, h.pin (by rw [hmonitor]; simp), hcycles, callLog_append,
      lastMode_append, hlog]
    exact foldl_setMode_pins _ _
  · intro hnone
    rw [hmonitor'] at hnone
    exact absurd hnone (by simp [Monitor.tick, Monitor.supervisor?])

theorem CircuitMode.pollMonitor {d : Device} (h : CircuitMode d) : CircuitMode d.pollMonitor := by
  have hmove := Monitor.poll_move d.clock d.board d.status d.store d.events d.monitor
  have hledger : d.pollMonitor.ledger = (d.monitor.poll d.clock d.board d.status d.store
      d.events).entries.foldl Ledger.add d.ledger := ledger_note _ _
  have hpin : d.pollMonitor.modePin = (d.monitor.poll d.clock d.board d.status d.store
      d.events).entries.foldl Entry.setMode d.modePin := modePin_note _ _
  have hmonitor' : d.pollMonitor.monitor
      = (d.monitor.poll d.clock d.board d.status d.store d.events).monitor := rfl
  generalize d.monitor.poll d.clock d.board d.status d.store d.events = turn
    at hmove hledger hpin hmonitor'
  generalize hmonitor : d.monitor = monitor at hmove
  cases hmove with
  | start =>
    refine circuitMode_of_no_ticks ?_ ?_ ?_
    · rw [hledger]
      exact h.fresh (by rw [hmonitor]; rfl)
    · intro v hv
      rw [hmonitor'] at hv
      exact charger_begin hv
    · rw [hpin]
      rfl
  | await =>
    have hticks : d.ledger.ticks = [] := h.fresh (by rw [hmonitor]; rfl)
    refine circuitMode_of_no_ticks ?_ ?_ ?_
    · rw [hledger]
      exact hticks
    · intro v hv
      rw [hmonitor'] at hv
      exact charger_begin hv
    · -- the pin has been low since it was set up
      have hlow := h.pin (by rw [hmonitor]; simp)
      rw [Ledger.cycles, Ledger.samples, hticks] at hlow
      rw [hpin]
      exact hlow
  | wait v told due window hw =>
    refine h.frame (hmonitor'.trans hmonitor.symm) ?_ ?_
    · rw [hledger]
      rfl
    · rw [hpin]
      rfl
  | tick v told due window s hs hdue => exact h.tick hmonitor rfl hmonitor' hledger hpin

/-- **Nobody but the monitor sets the mode pin.** -/
theorem modePin_poll_of_ne (d : Device) {r : Role} (hr : r ≠ .monitor) :
    (d.poll r).modePin = d.modePin := by
  cases r with
  | dispatcher =>
    rw [poll, pollDispatcher_eq, modePin_note]
    exact foldl_eq_self (List.forall_mem_map.mpr fun _ _ _ => rfl) _
  | flashWriter =>
    rw [poll, pollFlashWriter, written, modePin_note]
    refine foldl_eq_self ?_ _
    intro e he level
    have hentry := FlashWriter.isEntry_poll _ _ _ e he
    cases e with
    | loaded image => rfl
    | committed write stored => rfl
    | booted | enablePin _ | modePin _ | lamp _ | ticked _ | sent _ _ | handled _ | shown _ =>
      exact hentry.elim
  | monitor => exact absurd rfl hr
  | lamp =>
    rw [poll, pollLamp, modePin_note, List.foldl_append,
      foldl_eq_self (List.forall_mem_map.mpr fun _ _ _ => rfl)]
    exact foldl_eq_self (List.forall_mem_map.mpr fun _ _ _ => rfl) _
  | button =>
    rw [poll, pollButton, modePin_note]
    exact foldl_eq_self (List.forall_mem_map.mpr fun _ _ _ => rfl) _

/-- **Every turn keeps them together.** -/
theorem kept_circuitMode : Kept CircuitMode where
  poll := by
    intro d r h
    by_cases hm : r = .monitor
    · subst hm
      exact h.pollMonitor
    have hpin := modePin_poll_of_ne d hm
    by_cases hw : r = .flashWriter
    · subst hw
      exact h.frame rfl (ledger_pollFlashWriter d).2 hpin
    · have hsame := undisturbed_poll d hw hm
      exact h.frame hsame.monitor (by rw [hsame.ledger]) hpin
  wait := fun _ h => h.frame rfl rfl rfl

theorem CircuitMode.act {d : Device} (h : CircuitMode d) (a : Action) :
    CircuitMode (d.act a).1 := by
  rcases d.act_cases a with ⟨ms, rfl⟩ | rfl | hsame
  · exact kept_circuitMode.run h ms
  · exact circuitMode_boot _ _ _ _
  · refine h.frame hsame.monitor (by rw [hsame.ledger_eq]) ?_
    rw [modePin, hsame.journal]
    rfl

theorem circuitMode_actAll (roles : List Role) (board : Board) (clock : Nat)
    (journal : List Stamped) (actions : List Action) :
    CircuitMode ((boot roles board clock journal).actAll actions) :=
  actAll_induction (fun _ h a _ => h.act a) (circuitMode_boot roles board clock journal)

/-- **A charger goes by the mode of each tick, and the circuit by that of the start**, for every
calibration and every series of samples. On a device the circuit's mode is what the mode pin shows,
and the ticks are those of a charger on their samples, whatever happens to the device. -/
theorem followsMode_actAll (config : ChargerConfig) (samples : List Sample) (roles : List Role)
    (board : Board) (clock : Nat) (journal : List Stamped) (actions : List Action) :
    FollowsMode config samples ∧ CircuitMode ((boot roles board clock journal).actAll actions) :=
  ⟨followsMode_run config samples, circuitMode_actAll roles board clock journal actions⟩

/-- A fast cycle and then a friendly one. -/
def nextCycleFriendly : List Sample :=
  (List.replicate 3 { voltage := 7000, thermalAllowed := true, plugged := true }
      ++ List.replicate 2 { voltage := 8400, thermalAllowed := true, plugged := true })
    ++ (List.replicate 2 { voltage := 7000, thermalAllowed := true, plugged := true
                           mode := .friendly }
      ++ List.replicate 2 { voltage := 8100, thermalAllowed := true, plugged := true
                            mode := .friendly })

/-- A change between two cycles keeps charger and circuit together. -/
theorem followsMode_next_cycle :
    Steady (({ config := {} } : Charger).run nextCycleFriendly)
      ∧ KeepsMode none (({ config := {} } : Charger).run nextCycleFriendly)
      ∧ ({ config := {} } : Charger).run nextCycleFriendly
          = ({ config := {} } : Charger).runInCycle none nextCycleFriendly
      ∧ callLog (({ config := {} } : Charger).run nextCycleFriendly)
          = [.disable, .enable .fast, .disable, .fullCharge, .enable .friendly, .disable,
            .fullCharge] := by
  have hsteady : Steady (({ config := {} } : Charger).run nextCycleFriendly) := by decide
  obtain ⟨hfollows, -⟩ := followsMode_actAll {} nextCycleFriendly [.monitor] {} 0 [] []
  exact ⟨hsteady, hfollows.keeps.mpr hsteady, hfollows.nextCycle hsteady, by decide⟩

end Device

end BatteryCare
