import BatteryCare.Proofs.Gauge.WriteCache

/-!
# What a restart costs

A gauge that has just saved its record is followed by one with the rounded charge, whose level is at
most one percent off (`handsOver_of_saved`). A gauge that has left its record alone may be off by
the deadband as well, for it compares its level with the level word of the record, and the new gauge
goes by the charge word (`restored_within_deadband`). That holds as long as these two words belong
together, which only a record that is torn before its last word can break.
-/

namespace BatteryCare

namespace Gauge

/-- Where the gauge knows the charge word and the level word of its record, `P` relates them. -/
def Pairs (P : UInt16 → UInt16 → Prop) (g : Gauge) : Prop :=
  ∀ c ∈ g.cache[1]?.join, ∀ p ∈ g.cache[2]?.join, P c p

instance {P : UInt16 → UInt16 → Prop} [∀ c p, Decidable (P c p)] (g : Gauge) :
    Decidable (g.Pairs P) :=
  -- by way of `Option.all`, which looks at one word where a bounded quantifier may try all of them
  decidable_of_iff (g.cache[1]?.join.all fun c => g.cache[2]?.join.all fun p => P c p)
    (by simp only [Pairs, Option.all_eq_true, decide_eq_true_eq, Option.mem_def])

/-- A level word that is at most one percent off the level of the charge word. -/
def Fits (c p : UInt16) : Prop := Nat.dist (percentOf (.ofNat c.toNat)).toNat p.toNat ≤ 1

instance (c p : UInt16) : Decidable (Fits c p) := inferInstanceAs (Decidable (_ ≤ _))

theorem pairs_restore {P : UInt16 → UInt16 → Prop} {config : GaugeConfig} {s : Store}
    (h : ∀ c p : UInt16, c.toNat ≤ fullUnits → s.Holds config.recordBase [Estimate.marker, c, p] →
      P c p) : (restore config s).Pairs P := by
  obtain hnone | ⟨c, p, hc, hholds, hrestored⟩ := restore_cases config s
  · rw [hnone]
    exact nofun
  · rw [hrestored]
    rintro _ ⟨⟩ _ ⟨⟩
    exact h c p hc hholds

end Gauge

namespace Instrument

variable {P : UInt16 → UInt16 → Prop}

theorem Sound.pairs_sample {i : Instrument} (h : i.Sound) (hpairs : i.gauge.Pairs P)
    (hsave : ∀ e : Estimate, e = .ofCharge e.charge → InPack e.charge →
      P e.chargeWord e.percent.toUInt16) (voltage : UInt16) :
    (i.act (.sample voltage)).gauge.Pairs P := by
  -- only saving changes what is known, and it ends with the words of one estimate or a word less
  cases h.sampled voltage with
  | reject hv hact htried =>
    rw [hact]
    exact hpairs
  | keep hv hk hact htried =>
    rw [hact]
    exact hpairs
  | save hv hk saved left hslots r hreaches hact htried =>
    rw [hact]
    obtain ⟨first, charge, percent, hcache⟩ := List.length_eq_three.mp h.knows.length_cache
    rw [Gauge.slots_eq hcache] at hslots
    rw [Gauge.Pairs, hcache] at hpairs
    rw [Gauge.Pairs, hreaches.cache]
    rcases saved with _ | ⟨_, _ | ⟨_, _ | ⟨_, _⟩⟩⟩
    · -- the marker is lost, and the two words are as they were
      rw [List.nil_append] at hslots
      rw [← hslots]
      exact hpairs
    · -- the charge word is lost
      simp only [List.cons_append, List.nil_append, List.cons.injEq] at hslots
      rw [← hslots.2]
      exact nofun
    · -- the level word is lost
      simp only [List.cons_append, List.nil_append, List.cons.injEq] at hslots
      rw [← hslots.2.2]
      exact fun _ _ => nofun
    · simp only [List.cons_append, List.cons.injEq] at hslots
      obtain ⟨-, rfl, rfl, -⟩ := hslots
      rintro _ ⟨⟩ _ ⟨⟩
      exact hsave _ rfl (Gauge.inPack_aim h.shows voltage)

theorem pairs_run {config : GaugeConfig} {store : Store}
    (hsave : ∀ e : Estimate, e = .ofCharge e.charge → InPack e.charge →
      P e.chargeWord e.percent.toUInt16)
    (hstart : (start config store).gauge.Pairs P) (incidents : List Incident)
    (hrestart : ∀ t ∈ (start config store).turns incidents, t.incident = .restart →
      t.after.gauge.Pairs P) : ((start config store).run incidents).gauge.Pairs P := by
  induction incidents using List.reverseRecOn with
  | nil => exact hstart
  | append_singleton xs x ih =>
    rw [turns_concat, List.forall_mem_append] at hrestart
    obtain ⟨hpast, hlast⟩ := hrestart
    rw [run_append, run_cons, run_nil]
    cases x with
    | faults _ _ => exact ih hpast
    | receive _ => exact ih hpast
    | restart => exact hlast _ (List.mem_singleton.mpr rfl) rfl
    | sample voltage => exact (sound_run config store xs).pairs_sample (ih hpast) hsave voltage

/-- A charge word that the gauge knows is one that a pack can hold. -/
theorem chargeWord_le_run (config : GaugeConfig) (store : Store) (incidents : List Incident) :
    ((start config store).run incidents).gauge.Pairs fun c _ => c.toNat ≤ fullUnits := by
  refine pairs_run (fun e _ hpack => (Estimate.round_charge_eq hpack).2)
    (Gauge.pairs_restore fun c p hc _ => hc) incidents ?_
  rintro ⟨before, _⟩ _ rfl
  exact Gauge.pairs_restore fun c p hc _ => hc

theorem fits_saved {e : Estimate} (he : e = .ofCharge e.charge) (hpack : InPack e.charge) :
    Gauge.Fits e.chargeWord e.percent.toUInt16 := by
  have hlevel : e.percent = percentOf e.charge := congrArg Estimate.percent he
  rw [Gauge.Fits, ← (Estimate.round_charge_eq hpack).1, UInt8.toNat_toUInt16, hlevel]
  exact dist_percentOf_round hpack

/-! ## After a save -/

/-- What an instrument whose record was just saved hands over to a new gauge. -/
structure HandsOver (config : GaugeConfig) (i : Instrument) (e : Estimate) (charge : UInt16) :
    Prop where
  /-- The gauge shows the estimate `e`. -/
  shown : i.gauge.estimate? = some e
  /-- The charge word is its charge, rounded. -/
  rounded : e.charge.round = .ofNat charge.toNat
  /-- The level word is its level. -/
  words : i.store.Holds config.recordBase [Estimate.marker, charge, e.percent.toUInt16]
  /-- A new gauge shows the rounded charge with the level of that. -/
  restored : (Gauge.restore config i.store.readable).estimate? = some (.ofCharge e.charge.round)
  /-- So the level is at most one percent off. -/
  close : Nat.dist (percentOf e.charge.round).toNat e.percent.toNat ≤ 1
  /-- It is the same where the two whole charges that the charge lies between have one level. -/
  same : ∀ n < fullUnits, .ofNat n ≤ e.charge → e.charge ≤ .ofNat (n + 1) →
    percentOf (.ofNat n) = percentOf (.ofNat (n + 1)) → percentOf e.charge.round = e.percent

/-- **A record that was just saved hands the rounded charge over.** -/
theorem handsOver_of_saved (config : GaugeConfig) (store : Store) (incidents : List Incident)
    (voltage : UInt16) (hv : Gauge.isPlausible config voltage = true)
    (hwrote : ((start config store).run incidents).attempts (.sample voltage) ≠ [])
    (hok : ∀ attempt ∈ ((start config store).run incidents).attempts (.sample voltage),
      attempt.error = none) :
    ∃ e charge, HandsOver config (((start config store).run incidents).act (.sample voltage))
      e charge := by
  have hconfig := config_run_start config store incidents
  have h := sound_run config store incidents
  generalize (start config store).run incidents = i at *
  subst hconfig
  have hpack := Gauge.inPack_aim h.shows voltage
  obtain ⟨hround, hword⟩ := Estimate.round_charge_eq (e := i.gauge.aimed voltage) hpack
  have hholds := (h.complete voltage hv hok).resolve_left fun hkept => hwrote hkept.1
  exact ⟨i.gauge.aimed voltage, (i.gauge.aimed voltage).chargeWord,
    { shown := h.estimate?_of_plausible voltage hv
      rounded := hround
      words := hholds
      restored := by
        rw [Gauge.restore_readable hword hholds, hround]
        rfl
      close := dist_percentOf_round hpack
      same := fun n hn hlo hhi hsame => percentOf_round_eq hpack hn hlo hhi hsame }⟩

theorem handsOver_of_saved_settling :
    Gauge.isPlausible { recordBase := 1, deadband := 1 } 8366 = true
      ∧ ((start { recordBase := 1, deadband := 1 } (.erased 4)).run
          [.sample 7274, .restart]).attempts (.sample 8366)
        = [⟨⟨2, 8919⟩, none⟩, ⟨⟨3, 51⟩, none⟩]
      ∧ ∃ e charge, HandsOver { recordBase := 1, deadband := 1 }
          (((start { recordBase := 1, deadband := 1 } (.erased 4)).run
            [.sample 7274, .restart]).act (.sample 8366)) e charge :=
  ⟨by decide +kernel, by decide +kernel,
    handsOver_of_saved _ _ _ _ (by decide +kernel) (by decide +kernel) (by decide +kernel)⟩

/-- The level can be lost in the rounding: a charge of 99 percent is stored as one of 100. -/
theorem restored_ne_shown :
    (start {} (.erased 3)).attempts (.sample 8366)
        = [⟨⟨0, Estimate.marker⟩, none⟩, ⟨⟨1, 17552⟩, none⟩, ⟨⟨2, 99⟩, none⟩]
      ∧ ((start {} (.erased 3)).act (.sample 8366)).gauge.percent = 99
      ∧ ((start {} (.erased 3)).act (.sample 8366)).store.Holds 0 [Estimate.marker, 17552, 99]
      ∧ percentOf (.ofNat 17552) = 100
      ∧ (Gauge.restore {} ((start {} (.erased 3)).act (.sample 8366)).store).percent = 100 := by
  decide +kernel

/-! ## After any sample -/

/-- What the new gauges of a run took over are words that fit each other. -/
def FitsAtRestarts (i : Instrument) (incidents : List Incident) : Prop :=
  ∀ t ∈ i.turns incidents, t.incident = .restart → t.after.gauge.Pairs Gauge.Fits

instance (i : Instrument) (incidents : List Incident) : Decidable (i.FitsAtRestarts incidents) :=
  inferInstanceAs (Decidable (∀ t ∈ i.turns incidents, t.incident = .restart →
    t.after.gauge.Pairs Gauge.Fits))

/-- **A new gauge finds a level close to the current one.** After a sample that was accepted and no
failed write there is a record to restore, and the restored level is off by no more than the
deadband, or one percent, unless a gauge before took over a level word that does not fit its charge.
-/
theorem restored_within_deadband (config : GaugeConfig) (store : Store)
    (herased : store.Holds config.recordBase [erasedWord, erasedWord, erasedWord])
    (incidents : List Incident) (voltage : UInt16) (hv : Gauge.isPlausible config voltage = true)
    (hok : ∀ attempt ∈ ((start config store).run incidents).attempts (.sample voltage),
      attempt.error = none) :
    ∃ e, (Gauge.restore config (((start config store).run incidents).act
        (.sample voltage)).store.readable).estimate? = some e
      ∧ (FitsAtRestarts (start config store) incidents → Nat.dist e.percent.toNat
            (((start config store).run incidents).act (.sample voltage)).gauge.percent.toNat
          ≤ max 1 config.deadband.toNat) := by
  have hstart : (start config store).gauge.Pairs Gauge.Fits := by
    refine Gauge.pairs_restore fun c p _ hholds => ?_
    cases herased.words.1.symm.trans hholds.words.1
  have hfits := pairs_run (fun e => fits_saved) hstart incidents
  have hbound := chargeWord_le_run config store incidents
  have hconfig := config_run_start config store incidents
  have h := sound_run config store incidents
  generalize (start config store).run incidents = i at *
  subst hconfig
  have hshown : (i.act (.sample voltage)).gauge.percent = (i.gauge.aimed voltage).percent := by
    rw [Gauge.percent, h.estimate?_of_plausible voltage hv]
    rfl
  rw [hshown]
  obtain ⟨-, hstore, hkept⟩ | hholds := h.complete voltage hv hok
  · obtain ⟨c, p, hcache, hnear⟩ := Gauge.isKept_iff.mp hkept
    have hc : c.toNat ≤ fullUnits := hbound c (by rw [hcache]; rfl) p (by rw [hcache]; rfl)
    rw [hstore, Gauge.restore_readable hc (h.knows.holds [_, c, p] hcache)]
    refine ⟨_, rfl, fun huntorn => ?_⟩
    -- both levels are close to the level word, the restored one since the word fits its charge
    have hfit := hfits huntorn c (by rw [hcache]; rfl) p (by rw [hcache]; rfl)
    change Nat.dist (percentOf (.ofNat c.toNat)).toNat _ ≤ _
    rw [Gauge.Fits] at hfit
    simp only [Nat.dist] at hfit hnear ⊢
    omega
  · have hpack := Gauge.inPack_aim h.shows voltage
    have hword := (Estimate.round_charge_eq (e := i.gauge.aimed voltage) hpack).2
    rw [Gauge.restore_readable hword hholds]
    refine ⟨_, rfl, fun _ => ?_⟩
    have hfit := fits_saved (e := i.gauge.aimed voltage) rfl hpack
    rw [Gauge.Fits, UInt8.toNat_toUInt16] at hfit
    exact hfit.trans (Nat.le_max_left _ _)

/-- A charge that cannot be written, and a new gauge on the record before it. -/
def interrupted : List Incident :=
  [.sample 7274, .faults [] [1], .sample 7299, .restart, .faults [] []]

theorem restored_within_deadband_interrupted :
    (Store.erased 3).Holds 0 [erasedWord, erasedWord, erasedWord]
      ∧ Gauge.isPlausible {} 7299 = true
      ∧ (∀ attempt ∈ ((start {} (.erased 3)).run interrupted).attempts (.sample 7299),
          attempt.error = none)
      ∧ FitsAtRestarts (start {} (.erased 3)) interrupted
      ∧ ∃ e, (Gauge.restore {} (((start {} (.erased 3)).run interrupted).act
          (.sample 7299)).store.readable).estimate? = some e
        ∧ (FitsAtRestarts (start {} (.erased 3)) interrupted → Nat.dist e.percent.toNat
              (((start {} (.erased 3)).run interrupted).act (.sample 7299)).gauge.percent.toNat
            ≤ max 1 (GaugeConfig.deadband {}).toNat) :=
  ⟨by decide +kernel, by decide +kernel, by decide +kernel, by decide +kernel,
    restored_within_deadband {} (.erased 3) (by decide +kernel) interrupted 7299 (by decide +kernel)
      (by decide +kernel)⟩

/-- A level that cannot be written, and a new gauge that takes the record over as it is. -/
def outdated : List Incident :=
  [.sample 7274, .faults [] [2], .sample 7299, .restart, .faults [] [], .sample 7248, .sample 7248]

/-- Behind a stale level word the level can move by more than the deadband: the gauge shows 49
percent, close to the 50 of the level word, and the charge word stands for 52. -/
theorem restored_beyond_deadband :
    Gauge.isPlausible {} 7248 = true
      ∧ ((start {} (.erased 3)).run outdated).attempts (.sample 7248) = []
      ∧ (((start {} (.erased 3)).run outdated).act (.sample 7248)).gauge.percent = 49
      ∧ (Gauge.restore {} (((start {} (.erased 3)).run outdated).act
          (.sample 7248)).store).percent = 52
      ∧ ¬ Nat.dist 52 49 ≤ max 1 (GaugeConfig.deadband {}).toNat := by
  decide +kernel

end Instrument

end BatteryCare
