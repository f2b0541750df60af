import BatteryCare.Proofs.Device.FlashPath
import BatteryCare.Proofs.Gauge.Torn

/-!
# Where a restored charge comes from

A device that starts on an empty flash finds nothing but what it has stored itself. Every charge
word that its store accepts is the charge of the tick that wrote it, to the nearest unit; on the way
to flash it can be lost, but not changed; and a restart finds on flash what is left. So whatever
charge is restored, some tick before that boot has measured it (`flashPath_stepAll`).

The proof carries two sets of estimates (`Sourced`): those measured before the last boot, of which
flash and loaded image can tell, and those measured up to now, from which the accepted writes come.
-/

namespace BatteryCare

/-! ## What a gauge writes -/

/-- The charge word of one of the estimates, which a pack can hold. -/
def IsChargeOf (measured : Estimate → Prop) (word : UInt16) : Prop :=
  ∃ e, measured e ∧ InPack e.charge ∧ word = e.chargeWord

theorem IsChargeOf.mono {measured measured' : Estimate → Prop} {word : UInt16}
    (h : IsChargeOf measured word) (hle : ∀ e, measured e → measured' e) :
    IsChargeOf measured' word := by
  obtain ⟨e, he, hrest⟩ := h
  exact ⟨e, hle e he, hrest⟩

namespace Gauge

variable {g : Gauge} {store : Store} {voltage : UInt16} {outcome : Outcome}

theorem Move.showsPack (h : Move g store voltage outcome) (hg : g.ShowsPack) :
    outcome.gauge.ShowsPack := by
  have hmeasured : (g.measure voltage).ShowsPack := by
    intro e he
    obtain rfl : g.aimed voltage = e := Option.some.inj he
    exact ⟨rfl, inPack_aim hg voltage⟩
  cases h with
  | reject hv => exact hg
  | keep hv hk => exact hmeasured
  | save hv hk => exact hmeasured

/-- A sample restores nothing. -/
theorem Move.restored (h : Move g store voltage outcome) {e : Estimate}
    (he : outcome.gauge.knowledge = .restored e) : g.knowledge = .restored e := by
  cases h with
  | reject hv => exact he
  | keep hv hk => exact absurd he (by simp [measure])
  | save hv hk => exact absurd he (by simp [measure, saving])

/-- **The charge word that a sample makes the store accept is that of the sample itself.** -/
theorem Move.chargeWord (h : Move g store voltage outcome) (hg : g.ShowsPack) {w : WordWrite}
    (hw : w ∈ Store.accepted outcome.attempts) (haddr : w.addr = g.config.recordBase + 1) :
    isPlausible g.config voltage = true ∧
      IsChargeOf (fun e => outcome.gauge.knowledge = .measured voltage e) w.value := by
  obtain ⟨attempt, hmem, rfl⟩ := List.mem_map.mp hw
  obtain ⟨hv, hzip⟩ := h.mem_record (List.mem_filter.mp hmem).1
  refine ⟨hv, g.aimed voltage, (h.measured hv).1, inPack_aim hg voltage, ?_⟩
  rw [haddr] at hzip
  exact zip_words_inj hzip (chargeWord_mem_zip g.config.recordBase (g.aimed voltage))

theorem showsPack_restore (config : GaugeConfig) (store : Store) :
    (restore config store).ShowsPack := by
  intro e he
  obtain ⟨c, p, hc, -, rfl⟩ := estimate?_restore he
  exact ⟨rfl, inPack_ofNat hc⟩

/-- **A gauge that finds a charge word finds the rounded charge.** -/
theorem round_of_restore {measured : Estimate → Prop} {config : GaugeConfig}
    (hword : ∀ c ∈ store.word? (config.recordBase + 1), c = erasedWord ∨ IsChargeOf measured c)
    {e : Estimate} (he : (restore config store).knowledge = .restored e) :
    ∃ x, measured x ∧ e.charge = x.charge.round := by
  have hestimate : e ∈ (restore config store).estimate? := by
    rw [estimate?, he]
    rfl
  obtain ⟨c, p, hc, hholds, rfl⟩ := estimate?_restore hestimate
  rcases hword c hholds.words.2.1 with herased | ⟨x, hx, hpack, rfl⟩
  · -- an erased word is more than a full pack
    rw [herased] at hc
    exact absurd hc (by decide)
  · exact ⟨x, hx, (Estimate.round_charge_eq hpack).1.symm⟩

end Gauge

/-- What a tick shows of the sample that its gauge took. -/
structure Tick.ShowsOutcome (t : Tick) (config : GaugeConfig) (voltage : UInt16)
    (out : Gauge.Outcome) : Prop where
  gauge : t.supervisor.gauge = out.gauge
  attempts : t.attempts = out.attempts
  percent : t.report.percent = out.gauge.percent
  voltage : t.report.voltage = if Gauge.isPlausible config voltage then some voltage else none

theorem Monitor.showsOutcome (now : Nat) (sensed : Sensed) (status : Status) (s : Store)
    (v : Supervisor) (told : PowerState) :
    (Monitor.outcome now sensed status s v told).ShowsOutcome v.gauge.config
      (sensed.sample status.chargeType.mode).voltage
      (v.gauge.update s (sensed.sample status.chargeType.mode).voltage) := by
  rw [← Monitor.informed_gauge now status v told]
  exact ⟨rfl, rfl, rfl, rfl⟩

/-! ## The invariant -/

namespace Device

/-- The latest tick accepted its sample, and the gauge shows the estimate that it led to. -/
def MeasuredAt (d : Device) (e : Estimate) : Prop :=
  ∃ v t voltage, d.monitor.supervisor? = some v ∧ v.gauge.knowledge = .measured voltage e
    ∧ d.ledger.ticks.head? = some t ∧ t.report.voltage = some voltage
    ∧ t.report.percent = e.percent

/-- Where the charge words come from: those of flash and loaded image from `old`, which were
measured before the last boot, and those accepted since then from `new`. -/
structure Sourced (old new : Estimate → Prop) (base : List WordWrite) (d : Device) : Prop where
  delivers : Delivers base d
  flash : ∀ w ∈ base, w.addr = 1 → IsChargeOf old w.value
  accepted : ∀ w ∈ d.ledger.accepted, w.addr = 1 → IsChargeOf new w.value
  image : ∀ image ∈ d.ledger.image, ∀ c ∈ image[1]?, c = erasedWord ∨ IsChargeOf old c
  gauge : ∀ v ∈ d.monitor.supervisor?, v.gauge.config = {} ∧ v.gauge.ShowsPack
  restored : ∀ v ∈ d.monitor.supervisor?, ∀ e, v.gauge.knowledge = .restored e →
    ∃ x, old x ∧ e.charge = x.charge.round
  fresh : d.monitor.supervisor? = none → d.ledger.ticks = []

variable {old new : Estimate → Prop} {base : List WordWrite} {d : Device}

theorem Sourced.mono {new' : Estimate → Prop} (h : Sourced old new base d)
    (hle : ∀ e, new e → new' e) : Sourced old new' base d where
  delivers := h.delivers
  flash := h.flash
  accepted := fun w hw haddr => (h.accepted w hw haddr).mono hle
  image := h.image
  gauge := h.gauge
  restored := h.restored
  fresh := h.fresh

/-- A change that leaves monitor and ticks alone. -/
theorem Sourced.frame {d' : Device} (h : Sourced old new base d) (hdelivers : Delivers base d')
    (hmonitor : d'.monitor = d.monitor) (hticks : d'.ledger.ticks = d.ledger.ticks)
    (himage : ∀ image ∈ d'.ledger.image, ∀ c ∈ image[1]?, c = erasedWord ∨ IsChargeOf old c) :
    Sourced old new base d' := by
  have haccepted : d'.ledger.accepted = d.ledger.accepted := by
    rw [Ledger.accepted, hticks]
    rfl
  refine ⟨hdelivers, h.flash, ?_, himage, ?_, ?_, ?_⟩
  · rw [haccepted]
    exact h.accepted
  · rw [hmonitor]
    exact h.gauge
  · rw [hmonitor]
    exact h.restored
  · rw [hmonitor, hticks]
    exact h.fresh

/-- The image that the flash writer loads is what the flash has. -/
theorem image_written (h : Delivers base d) {next : FlashWriter.Turn}
    (hnext : d.flashWriter.step d.board.flash d.store = some next) :
    (d.written next).ledger.image = d.ledger.image
      ∨ d.board.flash.log = base
        ∧ (d.written next).ledger.image = some (d.board.flash.image storageWords) := by
  have hledger : (d.written next).ledger = next.entries.foldl Ledger.add d.ledger :=
    ledger_note _ _
  cases h with
  | unloaded hw hs himage hcommits hticks hlog =>
    rw [hw] at hnext
    obtain rfl := Option.some.inj hnext
    refine .inr ⟨hlog, ?_⟩
    rw [hledger]
    rfl
  | loaded hw image queue himage hs horder hlog =>
    rw [hs] at hnext
    obtain ⟨commits, hcommits⟩ := FlashWriter.commits_step rfl hw hnext
    rw [hcommits.entries] at hledger
    refine .inl ?_
    rw [hledger]

theorem erased_or_charge_of_flash {f : Flash}
    (h : ∀ w ∈ f.log, w.addr = 1 → IsChargeOf old w.value) {c : UInt16}
    (hc : c ∈ (f.image storageWords)[1]?) : c = erasedWord ∨ IsChargeOf old c := by
  have hword : (f.image storageWords)[1]? = some ((f.read? 1).getD erasedWord) := by
    rw [Flash.image, List.getElem?_map, List.getElem?_range (by decide)]
    rfl
  rw [hword, Option.mem_some_iff] at hc
  rw [← hc]
  cases hread : f.read? 1 with
  | none => exact .inl rfl
  | some word =>
    right
    rw [Flash.read?] at hread
    split at hread
    · cases hread
    · obtain ⟨w, hw, rfl⟩ := Option.map_eq_some_iff.mp hread
      exact h w (List.mem_of_find?_eq_some hw) (by simpa using List.find?_some hw)

/-- The supervisor starts from the loaded image. -/
theorem Sourced.begin {d' : Device} (h : Sourced old new base d)
    (hnone : d.monitor.supervisor? = none) (hdelivers : Delivers base d')
    (hmonitor : d'.monitor = Monitor.begin d.clock d.store)
    (hticks : d'.ledger.ticks = d.ledger.ticks) (himage : d'.ledger.image = d.ledger.image) :
    Sourced old new base d' := by
  have hnoTicks : d.ledger.ticks = [] := h.fresh hnone
  have haccepted : d'.ledger.accepted = [] := by
    rw [Ledger.accepted, hticks, hnoTicks]
    rfl
  have hstarted : ∀ v ∈ d'.monitor.supervisor?, ∃ s, d.store = some s
      ∧ v.gauge = Gauge.restore {} s := by
    intro v hv
    rw [hmonitor] at hv
    cases hstore : d.store with
    | none =>
      rw [hstore] at hv
      cases hv
    | some s =>
      rw [hstore] at hv
      cases hv
      exact ⟨s, rfl, rfl⟩
  refine ⟨hdelivers, h.flash, ?_, ?_, ?_, ?_, ?_⟩
  · rw [haccepted]
    exact fun w hw => absurd hw (by simp)
  · rw [himage]
    exact h.image
  · intro v hv
    obtain ⟨s, -, hgauge⟩ := hstarted v hv
    rw [hgauge]
    exact ⟨Gauge.restore_config _ s, Gauge.showsPack_restore _ s⟩
  · intro v hv e he
    obtain ⟨s, hs, hgauge⟩ := hstarted v hv
    rw [hgauge] at he
    refine Gauge.round_of_restore ?_ he
    cases h.delivers with
    | unloaded hw hs' _ _ _ _ => exact absurd (hs.symm.trans hs') (by simp)
    | loaded hw image queue hloaded hs' horder hlog =>
      -- nothing is accepted before the first tick, so the store shows the image as it was loaded
      have hshown : s.image = image := by
        rw [Option.some.inj (hs.symm.trans hs'), Ledger.accepted, hnoTicks]
        rfl
      intro c hc
      rw [Store.word?, hshown] at hc
      exact h.image image hloaded c hc
  · intro _
    rw [hticks, hnoTicks]

/-- **A tick adds to what was measured**, and what it writes comes from that. -/
theorem Sourced.tick {d' : Device} (h : Sourced old new base d) (hdelivers : Delivers base d')
    {v : Supervisor} {told : PowerState} {due : Nat} {window : List Single}
    (hmonitor : d.monitor = .waiting v told due window) {s : Store} {t : Tick}
    (ht : Monitor.outcome d.clock (d.board.sense window) d.status s v told = t)
    (hmonitor' : d'.monitor.supervisor? = some t.supervisor)
    (hticks : d'.ledger.ticks
      = Monitor.recordOf (d.board.sense window) d.status t :: d.ledger.ticks)
    (himage : d'.ledger.image = d.ledger.image) :
    Sourced old (fun e => new e ∨ d'.MeasuredAt e) base d' := by
  have hv : v ∈ d.monitor.supervisor? := by rw [hmonitor]; rfl
  obtain ⟨hconfig, hshows⟩ := h.gauge v hv
  have hmove := v.gauge.update_move s
    ((d.board.sense window).sample d.status.chargeType.mode).voltage
  have hshown := Monitor.showsOutcome d.clock (d.board.sense window) d.status s v told
  rw [ht] at hshown
  generalize ((d.board.sense window).sample d.status.chargeType.mode).voltage = voltage
    at hmove hshown
  generalize v.gauge.update s voltage = out at hmove hshown
  have hnow : ∀ v' ∈ d'.monitor.supervisor?, v'.gauge = out.gauge := by
    intro v' hv'
    obtain rfl := Option.some.inj (hmonitor'.symm.trans hv')
    exact hshown.gauge
  refine ⟨hdelivers, h.flash, ?_, ?_, ?_, ?_, ?_⟩
  · intro w hw haddr
    rw [Ledger.accepted_cons hticks] at hw
    rcases List.mem_append.mp hw with hw | hw
    · exact (h.accepted w hw haddr).mono fun e he => .inl he
    · have hw' : w ∈ Store.accepted out.attempts := by rw [← hshown.attempts]; exact hw
      -- the charge that this very tick measured
      obtain ⟨haccepts, hcharge⟩ := hmove.chargeWord hshows hw' (by rw [hconfig]; exact haddr)
      refine hcharge.mono fun e he => .inr ⟨t.supervisor,
        Monitor.recordOf (d.board.sense window) d.status t, voltage, hmonitor', ?_, ?_, ?_, ?_⟩
      · rw [hshown.gauge]
        exact he
      · rw [hticks]
        rfl
      · exact hshown.voltage.trans (if_pos haccepts)
      · refine hshown.percent.trans ?_
        rw [Gauge.percent, Gauge.estimate?, he]
        rfl
  · rw [himage]
    exact h.image
  · intro v' hv'
    rw [hnow v' hv']
    exact ⟨hmove.config_eq.trans hconfig, hmove.showsPack hshows⟩
  · intro v' hv' e he
    rw [hnow v' hv'] at he
    exact h.restored v hv e (hmove.restored he)
  · intro hnone
    exact absurd (hmonitor'.symm.trans hnone) (by simp)

theorem Sourced.pollMonitor (h : Sourced old new base d) :
    Sourced old (fun e => new e ∨ d.pollMonitor.MeasuredAt e) base d.pollMonitor := by
  have hdelivers := h.delivers.pollMonitor
  have hmove := d.pollMonitor_move
  generalize d.pollMonitor = d' at hmove hdelivers ⊢
  cases hmove with
  | begins high hnone hmonitor hstore hledger =>
    refine (h.begin hnone hdelivers hmonitor ?_ ?_).mono fun e he => .inl he
    · rw [hledger]
    · rw [hledger]
  | rests => exact h.mono fun e he => .inl he
  | ticks high v told due window s t hmonitor hs hdue ht hmonitor' hstore hledger =>
    exact h.tick hdelivers hmonitor ht (by rw [hmonitor']; rfl) (by rw [hledger])
      (by rw [hledger])

theorem Sourced.written (h : Sourced old new base d) {next : FlashWriter.Turn}
    (hnext : d.flashWriter.step d.board.flash d.store = some next) :
    Sourced old new base (d.written next) := by
  have hticks : (d.written next).ledger.ticks = d.ledger.ticks := by
    rw [Device.written, ledger_note]
    exact (FlashWriter.foldl_add_of_isEntry (FlashWriter.isEntry_step hnext) _).2
  refine h.frame (h.delivers.written hnext) rfl hticks fun image hi c hc => ?_
  rcases image_written h.delivers hnext with himage | ⟨hlog, himage⟩
  · exact h.image image (himage ▸ hi) c hc
  · obtain rfl : _ = image := Option.some.inj (himage.symm.trans hi)
    exact erased_or_charge_of_flash (by rw [hlog]; exact h.flash) hc

/-- **Every step but a power cycle keeps the sources**, and a tick adds what it measures. -/
theorem Sourced.step (h : Sourced old new base d) {s : Step} (hs : s ≠ .restart) :
    Sourced old (fun e => new e ∨ (d.step s).MeasuredAt e) base (d.step s) := by
  have hdelivers := h.delivers.step hs
  have still : (d.step s).monitor = d.monitor → (d.step s).ledger = d.ledger →
      Sourced old (fun e => new e ∨ (d.step s).MeasuredAt e) base (d.step s) :=
    fun hmonitor hledger =>
      (h.frame hdelivers hmonitor (by rw [hledger]) (by rw [hledger]; exact h.image)).mono
        fun e he => .inl he
  cases s with
  | turn r hr =>
    by_cases hrole : r ∈ d.roles
    · have hturn : d.step (.turn r hr) = d.poll r := turn_of_mem hrole
      by_cases hm : r = .monitor
      · subst hm
        rw [hturn]
        exact h.pollMonitor
      · have hsame := undisturbed_poll d hr hm
        exact still (by rw [hturn, hsame.monitor]) (by rw [hturn, hsame.ledger])
    · have hturn : d.step (.turn r hr) = d := turn_of_not_mem hrole
      exact still (by rw [hturn]) (by rw [hturn])
  | write =>
    rcases d.step_write_cases with hsame | ⟨next, hnext, hwritten⟩
    · exact still (by rw [hsame]) (by rw [hsame])
    · rw [hwritten]
      exact (h.written hnext).mono fun e he => .inl he
  | wait => exact still rfl rfl
  | act a ha =>
    rcases d.act_cases a with ⟨ms, hrun⟩ | hrestart | hsame
    · exact absurd hrun (ha.1 ms)
    · exact absurd hrestart ha.2
    · exact still hsame.monitor hsame.ledger_eq
  | restart => exact absurd rfl hs

/-! ## Boots -/

/-- Some tick measured the estimate in the course of the steps. -/
def MeasuredIn (d : Device) (steps : List Step) (e : Estimate) : Prop :=
  ∃ earlier later, steps = earlier ++ later ∧ (d.stepAll earlier).MeasuredAt e

/-- Some tick measured the estimate before the last restart. -/
def MeasuredBefore (d : Device) (steps : List Step) (e : Estimate) : Prop :=
  ∃ earlier later, steps = earlier ++ .restart :: later ∧ d.MeasuredIn earlier e

variable {steps : List Step} {e : Estimate}

theorem MeasuredIn.append (h : d.MeasuredIn steps e) (more : List Step) :
    d.MeasuredIn (steps ++ more) e := by
  obtain ⟨earlier, later, rfl, he⟩ := h
  exact ⟨earlier, later ++ more, by simp, he⟩

theorem MeasuredBefore.append (h : d.MeasuredBefore steps e) (more : List Step) :
    d.MeasuredBefore (steps ++ more) e := by
  obtain ⟨earlier, later, rfl, he⟩ := h
  exact ⟨earlier, later ++ more, by simp, he⟩

theorem Sourced.mono_old {old' : Estimate → Prop} (h : Sourced old new base d)
    (hle : ∀ e, old e → old' e) : Sourced old' new base d where
  delivers := h.delivers
  flash := fun w hw haddr => (h.flash w hw haddr).mono hle
  accepted := h.accepted
  image := fun image hi c hc => (h.image image hi c hc).imp_right fun hcharge => hcharge.mono hle
  gauge := h.gauge
  restored := by
    intro v hv e he
    obtain ⟨x, hx, hround⟩ := h.restored v hv e he
    exact ⟨x, hle x hx, hround⟩
  fresh := h.fresh

/-- **A restart** leaves what is on flash, and that was measured before. -/
theorem Sourced.restart (h : Sourced old new base d) :
    Sourced (fun e => old e ∨ new e) new d.board.flash.log d.restart where
  delivers := delivers_boot d.roles d.board 0 d.journal
  flash := by
    intro w hw haddr
    cases h.delivers with
    | unloaded _ _ _ _ _ hlog =>
      exact (h.flash w (hlog ▸ hw) haddr).mono fun e he => .inl he
    | loaded hw' image queue himage hs horder hlog =>
      rw [hlog] at hw
      rcases List.mem_append.mp hw with hw | hw
      · -- what was stored had been accepted
        refine (h.accepted w ?_ haddr).mono fun e he => .inr he
        rw [horder, Ledger.finished]
        refine List.mem_append_left _ (List.mem_reverse.mpr ?_)
        obtain ⟨commit, hcommit, rfl⟩ := List.mem_map.mp hw
        exact List.mem_map_of_mem (List.mem_filter.mp hcommit).1
      · exact (h.flash w hw haddr).mono fun e he => .inl he
  accepted := fun w hw => absurd hw List.not_mem_nil
  image := fun image hi => absurd hi (by simp [Device.restart, boot, ledger, Ledger.add])
  gauge := fun v hv => absurd hv (by simp [Device.restart, boot, Monitor.supervisor?])
  restored := fun v hv => absurd hv (by simp [Device.restart, boot, Monitor.supervisor?])
  fresh := fun _ => rfl

theorem sourced_boot {roles : List Role} {board : Board} (hempty : board.flash.log = [])
    (clock : Nat) (journal : List Stamped) (old new : Estimate → Prop) :
    Sourced old new [] (boot roles board clock journal) where
  delivers := hempty ▸ delivers_boot roles board clock journal
  flash := fun w hw => absurd hw List.not_mem_nil
  accepted := fun w hw => absurd hw List.not_mem_nil
  image := fun image hi => absurd hi (by simp [boot, ledger, Ledger.add])
  gauge := fun v hv => absurd hv (by simp [boot, Monitor.supervisor?])
  restored := fun v hv => absurd hv (by simp [boot, Monitor.supervisor?])
  fresh := fun _ => rfl

theorem sourced_stepAll {booted : Device}
    (h : ∀ old new : Estimate → Prop, Sourced old new [] booted) (steps : List Step) :
    ∃ base, Sourced (booted.MeasuredBefore steps) (booted.MeasuredIn steps) base
      (booted.stepAll steps) := by
  induction steps using List.reverseRecOn with
  | nil => exact ⟨[], h _ _⟩
  | append_singleton steps s ih =>
    obtain ⟨base, hsourced⟩ := ih
    have hlast : booted.stepAll (steps ++ [s]) = (booted.stepAll steps).step s :=
      stepAll_append booted steps [s]
    by_cases hs : s = .restart
    · -- all that was measured up to now was measured before this boot
      subst hs
      rw [hlast]
      refine ⟨_, (hsourced.restart.mono fun e he => he.append _).mono_old fun e he => ?_⟩
      rcases he with he | he
      · exact he.append _
      · exact ⟨steps, [], rfl, he⟩
    · rw [hlast]
      -- a step adds what it measures, and nothing to what was measured before this boot
      refine ⟨base, ((hsourced.step hs).mono fun e he => ?_).mono_old fun e he => he.append _⟩
      rcases he with he | he
      · exact he.append _
      · exact ⟨steps ++ [s], [], by simp, by rw [hlast]; exact he⟩

/--
**No write gets lost, doubled or overtaken between store and flash**, after every step, in whatever
order the steps come, wherever the power is cycled and whatever fails. And what a device that
started on an empty flash restores is, to the nearest unit, a charge that one of its ticks had
measured before a restart.
-/
theorem flashPath_stepAll (roles : List Role) (board : Board) (clock : Nat)
    (journal : List Stamped) (steps : List Step) :
    FlashPath (bootBefore (boot roles board clock journal) (boot roles board clock journal) steps)
        ((boot roles board clock journal).stepAll steps)
      ∧ (board.flash.log = [] →
          ∀ v ∈ ((boot roles board clock journal).stepAll steps).monitor.supervisor?, ∀ e,
            v.gauge.knowledge = .restored e →
            ∃ x, (boot roles board clock journal).MeasuredBefore steps x
              ∧ e.charge = x.charge.round) := by
  refine ⟨(delivers_stepAll (delivers_boot roles board clock journal) steps).flashPath, ?_⟩
  intro hempty v hv e he
  obtain ⟨base, hsourced⟩ := sourced_stepAll (sourced_boot hempty clock journal) steps
  exact hsourced.restored v hv e he

/-- A first tick whose record has two of its three words on flash when the power fails. -/
def cutShort : List Step :=
  [.turn .monitor (by decide), .write, .turn .monitor (by decide)] ++ List.replicate 500 .wait
    ++ [.turn .monitor (by decide), .write, .write, .write, .write]

/-- The charge is among the words that were stored in time, and it is restored. -/
theorem flashPath_stepAll_cutShort :
    ((boot [.flashWriter, .monitor] { voltage := some 3000 } 0 []).stepAll cutShort).board.flash.log
        = [⟨1, 8413⟩, ⟨0, Estimate.marker⟩]
      ∧ ∃ v e x, ((boot [.flashWriter, .monitor] { voltage := some 3000 } 0 []).stepAll
          (cutShort ++ [.restart, .write, .turn .monitor (by decide)])).monitor.supervisor? = some v
        ∧ v.gauge.knowledge = .restored e
        ∧ (boot [.flashWriter, .monitor] { voltage := some 3000 } 0 []).MeasuredBefore
            (cutShort ++ [.restart, .write, .turn .monitor (by decide)]) x
        ∧ e.charge = x.charge.round := by
  have hcut : (boot [.flashWriter, .monitor] { voltage := some 3000 } 0 []).stepAll cutShort
      = (({ (boot [.flashWriter, .monitor] { voltage := some 3000 } 0 []).stepAll
            [.turn .monitor (by decide), .write, .turn .monitor (by decide)] with
          clock := 500 } : Device).stepAll
            [.turn .monitor (by decide), .write, .write, .write, .write]) := by
    -- the waiting is taken in one leap, or it would be evaluated millisecond by millisecond
    rw [cutShort, stepAll_append, stepAll_append, stepAll_wait]
    rfl
  have hknown : ((boot [.flashWriter, .monitor] { voltage := some 3000 } 0 []).stepAll
      (cutShort ++ [.restart, .write, .turn .monitor (by decide)])).monitor.supervisor?.map
        (·.gauge.knowledge) = some (.restored (.ofCharge (.ofNat 8413))) := by
    rw [stepAll_append, hcut]
    decide +kernel
  obtain ⟨v, hv, hrestored⟩ := Option.map_eq_some_iff.mp hknown
  obtain ⟨-, hmeasured⟩ := flashPath_stepAll [.flashWriter, .monitor] { voltage := some 3000 } 0 []
    (cutShort ++ [.restart, .write, .turn .monitor (by decide)])
  obtain ⟨x, hx, hround⟩ := hmeasured rfl v hv _ hrestored
  refine ⟨?_, v, _, x, hv, hrestored, hx, hround⟩
  rw [hcut]
  decide +kernel

end Device

end BatteryCare
