import BatteryCare.Proofs.Device.Log
import BatteryCare.Proofs.Device.Settled
import BatteryCare.Proofs.Device.Steps
import BatteryCare.Proofs.Pack.Readings

/-!
# The timetable of the control ticks

With flash writer and monitor on board nothing holds a control tick up. The flash writer has its
turn before the monitor, so there is an image when the monitor first looks for one, whatever the
flash holds and however it fails. From then on a tick is due at an instant that is known beforehand
(`tickTime`), and it runs in the first round of that instant without waiting for room in a queue.

What a millisecond does is said first: no tick if none is due, and else one
(`Ready.tick_advance`). A run then keeps to the timetable (`Scheduled.run`), and so does a device
under any actions (`keepsTimetable_run`).

A tick is fed what the inputs and the status are when it has its turn. The charge current is the one
thing that it does not take from its own instant: the filter makes it from the latest currents that
ticks could read (`Filtered`). And an instant is not over with the turn of the monitor, so its
status can be another one in the end (`not_fedByInstant`).
-/

namespace BatteryCare

/-- When the tick with this number is due, counted from zero, on a device booted at `boot` (ms). -/
def tickTime (boot number : Nat) : Nat := boot + settleTime + tickInterval * number

/-- Ticks keep to the timetable: those that are due by now ran, each at its time and once. -/
structure OnTime (boot now : Nat) (times : List Nat) : Prop where
  eachOnce : times = (List.range times.length).map (tickTime boot)
  past : ∀ time ∈ times, time ≤ now
  next : now < tickTime boot times.length

theorem tickTime_zero (boot : Nat) : tickTime boot 0 = boot + settleTime := by
  rw [tickTime, Nat.mul_zero, Nat.add_zero]

theorem tickTime_succ (boot number : Nat) :
    tickTime boot (number + 1) = tickTime boot number + tickInterval := by
  rw [tickTime, Nat.mul_succ, tickTime, Nat.add_assoc _ _ tickInterval]

section OnTime

variable {boot now : Nat} {times : List Nat}

theorem onTime_nil (h : now < boot + settleTime) : OnTime boot now [] :=
  ⟨rfl, fun _ h => absurd h List.not_mem_nil, h⟩

theorem OnTime.wait (h : OnTime boot now times) (hnext : now + 1 < tickTime boot times.length) :
    OnTime boot (now + 1) times :=
  ⟨h.eachOnce, fun time ht => Nat.le_succ_of_le (h.past time ht), hnext⟩

theorem OnTime.tick (h : OnTime boot now times) (hnext : tickTime boot times.length = now + 1) :
    OnTime boot (now + 1) (times ++ [now + 1]) where
  eachOnce := by
    rw [List.length_append, List.length_singleton, List.range_succ, List.map_append,
      ← h.eachOnce, List.map_singleton, hnext]
  past := by
    intro time ht
    rcases List.mem_append.mp ht with ht | ht
    · exact Nat.le_succ_of_le (h.past time ht)
    · exact Nat.le_of_eq (List.mem_singleton.mp ht)
  next := by
    rw [List.length_append, List.length_singleton, tickTime_succ, hnext]
    exact Nat.lt_add_of_pos_right (by decide)

end OnTime

/-! ## The charge current -/

/-- The latest currents (mA) that the ticks could read, the latest first. -/
def latestCurrents (ticks : List TickRecord) : List Single :=
  ((ticks.filterMap (·.readings.current)).map chargeCurrent).reverse.take filterWindow

/-- The currents that the ticks were fed, in order, come from the filter. -/
structure Filtered (filter : List Single → Single) (ticks : List TickRecord) : Prop where
  /-- With its own current a tick is fed what the filter makes of it and the ones before it. -/
  read : ∀ before t after, ticks = before ++ t :: after → t.readings.current.isSome = true →
    t.current = (filter (latestCurrents (before ++ [t]))).toInt16
  /-- A current that cannot be read counts as none. -/
  failed : ∀ t ∈ ticks, t.readings.current = none → t.current = 0

theorem latestCurrents_concat (ticks : List TickRecord) (t : TickRecord) :
    latestCurrents (ticks ++ [t]) = t.readings.window (latestCurrents ticks) := by
  rw [latestCurrents, List.filterMap_append, List.map_append, List.reverse_append]
  cases hcurrent : t.readings.current with
  | none => simp [Readings.window, hcurrent, latestCurrents]
  | some raw =>
    have htake : ∀ currents : List Single, (chargeCurrent raw :: currents).take filterWindow
        = (chargeCurrent raw :: currents.take filterWindow).take filterWindow := by
      intro currents
      simp [filterWindow, List.take_take]
    simpa [Readings.window, hcurrent, latestCurrents] using htake _

theorem filtered_nil (filter : List Single → Single) : Filtered filter [] where
  read := fun before t after h => absurd h (by simp)
  failed := fun t ht => absurd ht List.not_mem_nil

/-- **Behind the filter of the board a tick is fed the current of a reading**, its own or one of
those before it in the window. -/
theorem Filtered.current_of_reading {before after : List TickRecord} {t : TickRecord}
    (h : Filtered middle (before ++ t :: after)) (hsome : t.readings.current.isSome) :
    ∃ raw ∈ ((before ++ [t]).filterMap (·.readings.current)).reverse.take filterWindow,
      t.current = (chargeCurrent raw).toInt16 := by
  obtain ⟨own, hown⟩ := Option.isSome_iff_exists.mp hsome
  have hne : ((before ++ [t]).filterMap (·.readings.current)).reverse.take filterWindow ≠ [] := by
    simp [List.filterMap_append, hown, filterWindow]
  obtain ⟨raw, hraw, heq⟩ := middle_chargeCurrent hne
  refine ⟨raw, hraw, ?_⟩
  rw [h.read before t after rfl hsome, latestCurrents, ← List.map_reverse, ← List.map_take, heq]

/-- **One more tick is fed from the window**, which holds the latest currents. -/
theorem Filtered.concat {filter : List Single → Single} {ticks : List TickRecord}
    (h : Filtered filter ticks) {t : TickRecord}
    (ht : t.current = if t.readings.current.isSome
      then (filter (t.readings.window (latestCurrents ticks))).toInt16 else 0) :
    Filtered filter (ticks ++ [t]) where
  read := by
    intro before t' after heq hsome
    -- the tick is the new one, or one of those before, for which nothing changes
    rcases List.eq_nil_or_concat after with rfl | ⟨after', last, rfl⟩
    · obtain ⟨rfl, hlast⟩ := List.append_inj' heq rfl
      cases hlast
      rw [ht, if_pos hsome, latestCurrents_concat]
    · rw [List.concat_eq_append, ← List.cons_append, ← List.append_assoc] at heq
      exact h.read before t' after' (List.append_inj' heq rfl).1 hsome
  failed := by
    intro t' hmem hnone
    rcases List.mem_append.mp hmem with hmem | hmem
    · exact h.failed t' hmem hnone
    · rw [List.mem_singleton.mp hmem] at hnone ⊢
      rw [ht, hnone]
      rfl

namespace Device

variable {d d' d'' : Device}

/-! ## Ticks in a round -/

/-- While the clock stands still, these ticks run. -/
def Ticks (d d' : Device) (ticks : List TickRecord) : Prop :=
  ∃ entries, Noted d d' entries ∧ entries.filterMap Entry.ticked? = ticks

theorem ticks_refl (d : Device) : Ticks d d [] := ⟨[], .refl d, rfl⟩

theorem Ticks.trans {xs ys : List TickRecord} (h : Ticks d d' xs) (h' : Ticks d' d'' ys) :
    Ticks d d'' (xs ++ ys) := by
  obtain ⟨entries, hnoted, hticks⟩ := h
  obtain ⟨entries', hnoted', hticks'⟩ := h'
  exact ⟨entries ++ entries', hnoted.trans hnoted', by rw [List.filterMap_append, hticks, hticks']⟩

/-- Only the monitor runs ticks. -/
theorem ticks_turn_of_ne (d : Device) {r : Role} (hr : r ≠ .monitor) : Ticks d (d.turn r) [] := by
  obtain ⟨entries, hnoted, hof⟩ := noted_turn d r
  exact ⟨entries, hnoted,
    List.filterMap_eq_nil_iff.mpr fun e he => (hof e he).ticked?_eq_none hr⟩

theorem ticks_round {ticks : List TickRecord}
    (h : Ticks d.atMonitor (d.atMonitor.turn .monitor) ticks) : Ticks d d.round ticks := by
  have hbefore : Ticks d d.atMonitor [] :=
    (ticks_turn_of_ne d (by simp)).trans (ticks_turn_of_ne _ (by simp))
  have hafter : Ticks (d.atMonitor.turn .monitor) d.round [] :=
    (ticks_turn_of_ne _ (by simp)).trans (ticks_turn_of_ne _ (by simp))
  have hround := (hbefore.trans h).trans hafter
  rwa [List.nil_append, List.append_nil] at hround

theorem TickAhead.ticks_round (h : TickAhead d) : Ticks d d.round [] := by
  have hahead : TickAhead d.atMonitor := h.frame (by simp) (by simp)
  refine Device.ticks_round ?_
  rw [hahead.turn_monitor]
  exact ticks_refl _

/-- Nothing is left for the second round once the next tick is ahead. -/
theorem TickAhead.ticks_settle {ticks : List TickRecord} (h : TickAhead d.round)
    (hticks : Ticks d d.round ticks) :
    d.settle.monitor = d.round.monitor ∧ Ticks d d.settle ticks := by
  refine ⟨h.round_monitor, ?_⟩
  have hsettle := hticks.trans h.ticks_round
  rwa [List.append_nil] at hsettle

/-! ## The turn of the monitor -/

/-- The device after a turn of the monitor. -/
theorem turn_monitor (hrole : .monitor ∈ d.roles) {turn : Monitor.Turn}
    (hpoll : d.monitor.poll d.clock d.board d.status d.store d.events = turn) :
    (d.turn .monitor).monitor = turn.monitor ∧ Noted d (d.turn .monitor) turn.entries := by
  rw [turn_of_mem hrole, ← hpoll]
  exact ⟨rfl, rfl, rfl⟩

section Turn

variable (h : Ready d) (hwriter : .flashWriter ∈ d.roles) (hmonitor : .monitor ∈ d.roles)

include h hwriter hmonitor

/-- **The first turn** starts the supervisor, which waits for the first tick. -/
theorem Ready.starts_settle (hstart : d.monitor = .starting) :
    (∃ v, d.settle.monitor = .waiting v .off (d.clock + settleTime) [])
      ∧ Ticks d d.settle [] := by
  obtain ⟨s, hs⟩ := h.store_atMonitor hwriter
  have hrole : .monitor ∈ d.atMonitor.roles := by rwa [atMonitor_roles]
  obtain ⟨hnext, hnoted⟩ := turn_monitor hrole
    (by rw [atMonitor_monitor, hstart, hs, Monitor.poll, Monitor.begin, atMonitor_clock])
  rw [← round_monitor] at hnext
  have hahead : TickAhead d.round :=
    ⟨_, _, _, _, hnext, by rw [round_clock]; exact Nat.lt_add_of_pos_right (by decide)⟩
  obtain ⟨hsettle, hticks⟩ := hahead.ticks_settle (ticks_round ⟨_, hnoted, rfl⟩)
  exact ⟨⟨_, hsettle.trans hnext⟩, hticks⟩

/-- **A tick that is due** runs, once, on what the monitor finds when it has its turn. -/
theorem Ready.tick_settle {v : Supervisor} {told : PowerState} {due : Nat} {window : List Single}
    (hwaiting : d.monitor = .waiting v told due window) (hdue : due ≤ d.clock) :
    ∃ s t, d.atMonitor.store = some s
      ∧ Monitor.outcome d.clock (d.atMonitor.board.sense window) d.atMonitor.status s v told = t
      ∧ d.settle.monitor
        = .waiting t.supervisor d.atMonitor.status.power (d.clock + tickInterval)
            (d.atMonitor.board.sense window).window
      ∧ Ticks d d.settle
          [Monitor.recordOf (d.atMonitor.board.sense window) d.atMonitor.status t] := by
  obtain ⟨s, hs⟩ := h.store_atMonitor hwriter
  refine ⟨s, _, hs, rfl, ?_⟩
  have hrole : .monitor ∈ d.atMonitor.roles := by rwa [atMonitor_roles]
  obtain ⟨hnext, hnoted⟩ := turn_monitor hrole
    (by rw [atMonitor_monitor, hwaiting, hs, Monitor.poll, atMonitor_clock, if_pos hdue])
  rw [← round_monitor] at hnext
  have hahead : TickAhead d.round :=
    ⟨_, _, _, _, hnext, by rw [round_clock]; exact Nat.lt_add_of_pos_right (by decide)⟩
  obtain ⟨hsettle, hticks⟩ := hahead.ticks_settle
    (ticks_round ⟨_, hnoted, Monitor.ticked_tick _ _ _ _ _ _ _⟩)
  exact ⟨hsettle.trans hnext, hticks⟩

end Turn

/-! ## One millisecond -/

theorem atMonitor_sense (d : Device) (window : List Single) :
    d.atMonitor.board.sense window = d.board.sense window := by
  have hwriter : ∀ d : Device,
      (d.turn .flashWriter).board.sense window = d.board.sense window := by
    intro d
    rcases turn_eq_or d .flashWriter with heq | heq
    · rw [heq]
      rfl
    · rw [heq]
  rw [atMonitor, hwriter]
  rcases turn_eq_or d .dispatcher with heq | heq
  · rw [heq, poll, pollDispatcher_eq]
    rfl
  · rw [heq]

/-- Without events that wait, the dispatcher leaves the status alone. -/
theorem atMonitor_status (h : .dispatcher ∈ d.roles → d.events.toList = []) :
    d.atMonitor.status = d.status := by
  have hwriter : ∀ d : Device, (d.turn .flashWriter).status = d.status := by
    intro d
    rcases turn_eq_or d .flashWriter with heq | heq
    · rw [heq]
      rfl
    · rw [heq]
  rw [atMonitor, hwriter]
  by_cases hrole : .dispatcher ∈ d.roles
  · rw [turn_of_mem hrole, poll, pollDispatcher_eq, h hrole]
    rfl
  · rw [turn_of_not_mem hrole]

/-- The device in the next millisecond when the monitor has its turn. -/
def atNextTurn (d : Device) : Device := ({ d with clock := d.clock + 1 } : Device).atMonitor

/-- The tick that runs in the next millisecond. It gives the supervisor what the sensors give and
the charge type of the status, which are at its turn what they are now. -/
inductive Feeds (d : Device) : TickRecord → Prop
  | intro (v : Supervisor) (told : PowerState) (due : Nat) (window : List Single) (s : Store)
      (t : Tick) (hmonitor : d.monitor = .waiting v told due window)
      (hstore : d.atNextTurn.store = some s)
      (hsense : d.atNextTurn.board.sense window = d.board.sense window)
      (hstatus : d.atNextTurn.status = d.status)
      (htick : (Monitor.informed (d.clock + 1) d.status v told).tick s
        ((d.board.sense window).sample d.status.chargeType.mode) (.ofNat (d.clock + 1)) = t)
      (hnext : d.advance.monitor
        = .waiting t.supervisor d.status.power (d.clock + 1 + tickInterval)
            (d.board.sense window).window) :
      Feeds d (Monitor.recordOf (d.board.sense window) d.status t)

/-- From one device to a later one, these ticks run. -/
def Ticked (d d' : Device) (ticks : List (Nat × TickRecord)) : Prop :=
  ∃ log : List Stamped, d'.journal = log.reverse ++ d.journal ∧ timed Entry.ticked? log = ticks

theorem Ticks.ticked {ticks : List TickRecord} (h : Ticks d d' ticks) :
    Ticked d d' (ticks.map (d.clock, ·)) := by
  obtain ⟨entries, hnoted, rfl⟩ := h
  exact ⟨_, hnoted.journal, timed_stamped _ _ _⟩

theorem Ticked.trans {xs ys : List (Nat × TickRecord)} (h : Ticked d d' xs)
    (h' : Ticked d' d'' ys) : Ticked d d'' (xs ++ ys) := by
  obtain ⟨log, hlog, rfl⟩ := h
  obtain ⟨log', hlog', rfl⟩ := h'
  exact ⟨log ++ log', by rw [hlog', hlog, List.reverse_append, List.append_assoc],
    timed_append _ _ _⟩

theorem ticked_of_eq (h : d'.journal = d.journal) : Ticked d d' [] := ⟨[], h, rfl⟩

theorem Ticked.entriesSince {ticks : List (Nat × TickRecord)} (h : Ticked d d' ticks) :
    timed Entry.ticked? (d'.entriesSince d) = ticks := by
  obtain ⟨log, hlog, rfl⟩ := h
  rw [entriesSince_of_append hlog, List.reverse_reverse]

/-- **What a millisecond does**: no tick if none is due, and else that tick. -/
theorem Ready.tick_advance (h : Ready d) (hwriter : .flashWriter ∈ d.roles)
    (hrole : .monitor ∈ d.roles) (hquiet : .dispatcher ∈ d.roles → d.events.toList = [])
    {v : Supervisor} {told : PowerState} {due : Nat} {window : List Single}
    (hmonitor : d.monitor = .waiting v told due window) (hdue : d.clock < due) :
    d.clock + 1 < due ∧ d.advance.monitor = .waiting v told due window ∧ Ticked d d.advance []
      ∨ due = d.clock + 1 ∧ ∃ v' told' t,
        d.advance.monitor = .waiting v' told' (d.clock + 1 + tickInterval)
            (d.board.sense window).window
          ∧ Ticked d d.advance [(d.clock + 1, t)] ∧ Feeds d t
          ∧ t.readings = d.board.readings ∧ t.current = (d.board.sense window).current := by
  rw [advance_eq]
  rcases Nat.lt_or_eq_of_le (Nat.succ_le_of_lt hdue) with hlt | heq
  · have hahead : TickAhead { d with clock := d.clock + 1 } := ⟨v, told, due, window, hmonitor, hlt⟩
    have hround : TickAhead ({ d with clock := d.clock + 1 } : Device).round :=
      hahead.frame hahead.round_monitor (round_clock _)
    obtain ⟨hsettle, hticks⟩ := hround.ticks_settle hahead.ticks_round
    exact .inl ⟨hlt, hsettle.trans (hahead.round_monitor.trans hmonitor), hticks.ticked⟩
  · have hready : Ready { d with clock := d.clock + 1 } := h.frame rfl rfl rfl rfl rfl rfl
    obtain ⟨s, t, hs, ht, hnext, hticks⟩ :=
      hready.tick_settle hwriter hrole hmonitor (Nat.le_of_eq heq.symm)
    have hsense : d.atNextTurn.board.sense window = d.board.sense window := atMonitor_sense _ _
    have hstatus : d.atNextTurn.status = d.status := atMonitor_status hquiet
    rw [← atNextTurn, hsense, hstatus] at ht hticks hnext
    exact .inr ⟨heq.symm, _, _, _, hnext, hticks.ticked,
      .intro v told due window s t hmonitor hs hsense hstatus ht hnext, rfl, rfl⟩

/-! ## Whole runs -/

/-- The supervisor runs, so far the ticks kept to the timetable of a device booted as `origin`, and
the window has the latest of their currents. -/
def Running (origin d : Device) : Prop :=
  ∃ v told ticks, d.monitor = .waiting v told (tickTime origin.clock ticks.length)
      (latestCurrents (ticks.map Prod.snd))
    ∧ Ticked origin d ticks ∧ OnTime origin.clock d.clock (ticks.map Prod.fst)
    ∧ Filtered d.board.filter (ticks.map Prod.snd)

/-- The supervisor runs by the timetable, or the device has not had a turn since it was booted. -/
def Scheduled (origin d : Device) : Prop :=
  Running origin d
    ∨ d.monitor = .starting ∧ d.clock = origin.clock ∧ Ticked origin d []

/-- No turn touches the filter. -/
theorem kept_filter {filter : List Single → Single} : Kept fun d => d.board.filter = filter where
  poll := by
    intro d r h
    cases r with
    | dispatcher =>
      rw [poll, pollDispatcher_eq]
      exact h
    | flashWriter => exact h
    | monitor => exact h
    | lamp => exact h
    | button => exact h
  wait := fun _ h => h

variable {origin : Device}

section Run

variable (h : Ready d) (hwriter : .flashWriter ∈ d.roles) (hrole : .monitor ∈ d.roles)

include h hwriter hrole

theorem Scheduled.settle (hs : Scheduled origin d) :
    Running origin d.settle ∧ Ticked d d.settle [] := by
  have hfilter : d.settle.board.filter = d.board.filter := kept_filter.settle rfl
  rcases hs with ⟨v, told, ticks, hmonitor, hticks, htime, hfed⟩ | ⟨hstart, hclock, hticks⟩
  · have hdue := htime.next
    rw [List.length_map] at hdue
    have hahead : TickAhead d := ⟨v, told, _, _, hmonitor, hdue⟩
    have hround : TickAhead d.round := hahead.frame hahead.round_monitor (round_clock _)
    obtain ⟨hsettle, hrest⟩ := hround.ticks_settle hahead.ticks_round
    refine ⟨⟨v, told, ticks, hsettle.trans (hahead.round_monitor.trans hmonitor), ?_, ?_, ?_⟩,
      hrest.ticked⟩
    · rw [← List.append_nil ticks]
      exact hticks.trans hrest.ticked
    · rw [settle_clock]
      exact htime
    · rw [hfilter]
      exact hfed
  · obtain ⟨⟨v, hmonitor⟩, hrest⟩ := h.starts_settle hwriter hrole hstart
    refine ⟨⟨v, .off, [], ?_, hticks.trans hrest.ticked, onTime_nil ?_, filtered_nil _⟩,
      hrest.ticked⟩
    · rw [List.length_nil, tickTime_zero, ← hclock]
      exact hmonitor
    · rw [settle_clock, hclock]
      exact Nat.lt_add_of_pos_right (by decide)

theorem Running.advance (hr : Running origin d)
    (hquiet : .dispatcher ∈ d.roles → d.events.toList = []) :
    Running origin d.advance ∧ ∃ ticks, Ticked d d.advance ticks
      ∧ ∀ tick ∈ ticks, tick.1 = d.clock + 1 ∧ Feeds d tick.2 := by
  obtain ⟨v, told, ticks, hmonitor, hticks, htime, hfed⟩ := hr
  have hdue := htime.next
  rw [List.length_map] at hdue
  have hclock : d.advance.clock = d.clock + 1 := settle_clock _
  have hfilter : d.advance.board.filter = d.board.filter := kept_filter.advance rfl
  obtain ⟨hlt, hsame, hnone⟩ | ⟨heq, v', told', t, hnext, hone, hfeeds, hreadings, hcurrent⟩ :=
    h.tick_advance hwriter hrole hquiet hmonitor hdue
  · refine ⟨⟨v, told, ticks, hsame, ?_, ?_, ?_⟩, [], hnone,
      fun _ ht => absurd ht List.not_mem_nil⟩
    · rw [← List.append_nil ticks]
      exact hticks.trans hnone
    · rw [hclock]
      exact htime.wait (by rw [List.length_map]; exact hlt)
    · rw [hfilter]
      exact hfed
  · refine ⟨⟨v', told', ticks ++ [(d.clock + 1, t)], ?_, hticks.trans hone, ?_, ?_⟩,
      [(d.clock + 1, t)], hone, fun tick ht => ?_⟩
    · rw [List.length_append, List.length_singleton, tickTime_succ, heq, List.map_append,
        List.map_singleton, latestCurrents_concat, hreadings]
      exact hnext
    · rw [hclock, List.map_append, List.map_singleton]
      exact htime.tick (by rw [List.length_map, heq])
    · rw [hfilter, List.map_append, List.map_singleton]
      exact hfed.concat (by rw [hcurrent, hreadings]; rfl)
    · rw [List.mem_singleton.mp ht]
      exact ⟨rfl, hfeeds⟩

/-- **A run keeps to the timetable**, and each of its ticks is fed with what is there when it
runs. -/
theorem Scheduled.run (hs : Scheduled origin d) (ms : Nat) :
    Running origin (d.run ms) ∧ ∃ ticks, Ticked d (d.run ms) ticks
      ∧ ∀ tick ∈ ticks, ∃ n < ms, tick.1 = d.clock + n + 1 ∧ Feeds (d.run n) tick.2 := by
  induction ms with
  | zero =>
    obtain ⟨hrunning, hrest⟩ := hs.settle h hwriter hrole
    exact ⟨hrunning, [], hrest, fun _ ht => absurd ht List.not_mem_nil⟩
  | succ ms ih =>
    obtain ⟨hrunning, ticks, hticks, hfed⟩ := ih
    have hroles : (d.run ms).roles = d.roles := kept_roles.run rfl ms
    obtain ⟨hrunning', new, hnew, hnewFed⟩ :=
      hrunning.advance (h.run ms) (by rwa [hroles]) (by rwa [hroles]) fun hd =>
        (h.settled_run (by rwa [hroles] at hd) ms).events
    rw [run_succ]
    refine ⟨hrunning', ticks ++ new, hticks.trans hnew, fun tick ht => ?_⟩
    rcases List.mem_append.mp ht with ht | ht
    · obtain ⟨n, hn, hfeeds⟩ := hfed tick ht
      exact ⟨n, Nat.lt_succ_of_lt hn, hfeeds⟩
    · obtain ⟨htime, hfeeds⟩ := hnewFed tick ht
      exact ⟨ms, Nat.lt_succ_self ms, by rw [htime, run_clock], hfeeds⟩

end Run

/-- Nothing but time and a power cycle moves the clock. -/
theorem act_clock (d : Device) {a : Action} (hrun : ∀ ms, a ≠ .run ms) (ha : a ≠ .restart) :
    (d.act a).1.clock = d.clock := by
  cases a with
  | run ms => exact absurd rfl (hrun ms)
  | restart => exact absurd rfl ha
  | send event =>
    rw [Device.act]
    cases d.events.push? event with
    | none => rfl
    | some queue => rfl
  | setVoltage _ | setCurrent _ | setThermistor _ | plug _ | button _ | setFaults _ _ _ | receive
  | raise _ | setStatus _ => rfl

theorem act_filter (d : Device) (a : Action) : (d.act a).1.board.filter = d.board.filter := by
  cases a with
  | run ms => exact kept_filter.run rfl ms
  | send event =>
    rw [Device.act]
    cases d.events.push? event with
    | none => rfl
    | some queue => rfl
  | setVoltage _ | setCurrent _ | setThermistor _ | plug _ | button _ | setFaults _ _ _ | receive
  | raise _ | setStatus _ | restart => rfl

theorem Scheduled.frame (hs : Scheduled origin d) (hmonitor : d'.monitor = d.monitor)
    (hclock : d'.clock = d.clock) (hjournal : d'.journal = d.journal)
    (hfilter : d'.board.filter = d.board.filter) : Scheduled origin d' := by
  have hticked : ∀ ticks, Ticked origin d ticks → Ticked origin d' ticks := by
    rintro ticks ⟨log, hlog, hticks⟩
    exact ⟨log, hjournal.trans hlog, hticks⟩
  rw [Scheduled, Running, hmonitor, hclock, hfilter]
  rcases hs with ⟨v, told, ticks, hwaiting, hticks, htime⟩ | ⟨hstart, hboot, hticks⟩
  · exact .inl ⟨v, told, ticks, hwaiting, hticked _ hticks, htime⟩
  · exact .inr ⟨hstart, hboot, hticked _ hticks⟩

theorem scheduled_restart (d : Device) : Scheduled d.restart d.restart :=
  .inr ⟨rfl, rfl, ticked_of_eq rfl⟩

theorem scheduled_actAll {booted : Device} (hwriter : .flashWriter ∈ d.roles)
    (hrole : .monitor ∈ d.roles) (h : Ready d) (hs : Scheduled booted d) (actions : List Action) :
    Scheduled (lastBoot booted d actions) (d.actAll actions) := by
  induction actions generalizing booted d with
  | nil => exact hs
  | cons a rest ih =>
    rw [actAll_cons]
    by_cases ha : a = .restart
    · subst ha
      exact ih hwriter hrole (h.act .restart) (scheduled_restart d)
    · rw [lastBoot_cons_of_ne booted d ha]
      refine ih (by rwa [act_roles]) (by rwa [act_roles]) (h.act a) ?_
      by_cases hrun : ∃ ms, a = .run ms
      · obtain ⟨ms, rfl⟩ := hrun
        rw [act_run]
        exact .inl (hs.run h hwriter hrole ms).1
      · have hsame := ((d.act_cases a).resolve_left hrun).resolve_left ha
        exact hs.frame hsame.monitor (act_clock d (fun ms hms => hrun ⟨ms, hms⟩) ha) hsame.journal
          (act_filter d a)

/-- The control loop of a device that was last booted as `origin` keeps to its timetable while it
runs for some time (ms). -/
structure KeepsTimetable (origin d : Device) (ms : Nat) : Prop where
  onTime : OnTime origin.clock (d.run ms).clock
    ((timed Entry.ticked? ((d.run ms).entriesSince origin)).map Prod.fst)
  /-- The currents that the ticks since boot were fed. -/
  currents : Filtered d.board.filter
    ((timed Entry.ticked? ((d.run ms).entriesSince origin)).map Prod.snd)
  /-- The ticks of this time, each with what it is fed with. -/
  feeds : ∀ tick ∈ timed Entry.ticked? ((d.run ms).entriesSince d),
    ∃ n < ms, tick.1 = d.clock + n + 1 ∧ Feeds (d.run n) tick.2

variable {roles : List Role}

/-- **Nothing stalls the control loop.** On a device with flash writer and monitor, whatever happens
to it, the ticks since the last boot run at the instants of the timetable. Each of them is fed with
what the inputs and the status are when it has its turn, and the current by way of the filter. -/
theorem keepsTimetable_run (hwriter : .flashWriter ∈ roles) (hmonitor : .monitor ∈ roles)
    (board : Board) (clock : Nat) (journal : List Stamped) (actions : List Action) (ms : Nat) :
    KeepsTimetable
      (lastBoot (boot roles board clock journal) (boot roles board clock journal) actions)
      ((boot roles board clock journal).actAll actions) ms := by
  have hroles : ((boot roles board clock journal).actAll actions).roles = roles :=
    actAll_roles _ actions
  have hboot : Scheduled (boot roles board clock journal) (boot roles board clock journal) :=
    .inr ⟨rfl, rfl, ticked_of_eq rfl⟩
  have hscheduled := scheduled_actAll hwriter hmonitor (ready_boot _ _ _ _) hboot actions
  obtain ⟨⟨v, told, ticks, -, hticks, htime, hcurrents⟩, new, hnew, hfed⟩ :=
    hscheduled.run (ready_actAll _ _ _ _ _) (by rwa [hroles]) (by rwa [hroles]) ms
  have hfilter : (((boot roles board clock journal).actAll actions).run ms).board.filter
      = ((boot roles board clock journal).actAll actions).board.filter := kept_filter.run rfl ms
  constructor
  · rw [hticks.entriesSince]
    exact htime
  · rw [hticks.entriesSince, ← hfilter]
    exact hcurrents
  · rw [hnew.entriesSince]
    exact hfed

/-- Even on a flash that is stalled from the start. -/
theorem keepsTimetable_stalled :
    Role.flashWriter ∈ [Role.flashWriter, .monitor] ∧ Role.monitor ∈ [Role.flashWriter, .monitor]
      ∧ KeepsTimetable
          (lastBoot (boot [.flashWriter, .monitor] {} 0 []) (boot [.flashWriter, .monitor] {} 0 [])
            [.setFaults true true false, .setVoltage (some 3000), .run 700])
          ((boot [.flashWriter, .monitor] {} 0 []).actAll
            [.setFaults true true false, .setVoltage (some 3000), .run 700]) 1000 :=
  ⟨by decide, by decide, keepsTimetable_run (by decide) (by decide) {} 0 [] _ 1000⟩

/-! ## What is not fed -/

/-- The ticks of this instant were fed what is there in the end: the readings of the board, the
current among them, and the charge type of the status. -/
def FedByInstant (d : Device) : Prop :=
  ∀ tick ∈ timed Entry.ticked? d.journal, tick.1 = d.clock →
    tick.2.readings = d.board.readings
      ∧ tick.2.current = d.board.current.elim 0 (chargeCurrent · |>.toInt16)
      ∧ tick.2.chargeType = d.status.chargeType

instance (d : Device) : Decidable (FedByInstant d) :=
  inferInstanceAs (Decidable (∀ tick ∈ timed Entry.ticked? d.journal, tick.1 = d.clock → _))

/-- The current rises right before a tick, and a press becomes a hold at the instant of the tick. -/
def risen : Device :=
  (boot [.dispatcher, .flashWriter, .monitor, .lamp, .button]
    { voltage := some 2900, current := some 2048, thermistor := some 2000 } 0 []).actAll
      [.run 2000, .plug true, .run 970, .button true, .run 1529, .setCurrent (some 3000), .run 1]

/-- **A tick need not be fed what its instant leaves behind.** The filter still gives the current of
the ticks before, and the button asks for the other charge type once the tick has run. -/
theorem not_fedByInstant :
    risen.ledger.ticks.head?.map (fun t => (t.readings.current, t.current, t.chargeType))
        = some (some 3000, 0, .fastCharge)
      ∧ (chargeCurrent 3000).toInt16 = 1533 ∧ risen.status.chargeType = .batteryFriendly
      ∧ ¬ FedByInstant risen := by
  rw [risen, ← foldl_leapAct 20]
  decide +kernel

end Device

end BatteryCare
