import BatteryCare.Proofs.Gauge.Torn

/-!
# What a gauge shows and stores is in range

Whatever is sampled, fails or is replaced, a gauge shows a charge that a pack can hold, with the
level of that charge, and the charge word that it writes is that charge to the nearest whole unit
(`inRange_run`). So a new gauge takes over any record that a gauge has written, even one whose words
were written for different samples.
-/

namespace BatteryCare

namespace Instrument

/-- **A record that was written word by word is one to restore**, and its charge is that of some
accepted sample. -/
theorem holds_of_written {config : GaugeConfig} {store : Store} {incidents : List Incident}
    (hwritten : ∀ addr ∈ recordAddrs config.recordBase,
      ∃ w ∈ (start config store).written incidents, w.addr = addr) :
    ∃ c p : UInt16, c.toNat ≤ fullUnits ∧ ((start config store).run incidents).store.Holds
      config.recordBase [Estimate.marker, c, p] := by
  have horigin : ∀ addr ∈ recordAddrs config.recordBase,
      ∃ e ∈ (start config store).estimates incidents, ∃ value,
        (addr, value) ∈ (recordAddrs config.recordBase).zip e.words
          ∧ ((start config store).run incidents).store.word? addr = some value := by
    intro addr haddr
    obtain ⟨e, he, value, hrecord, -, hword⟩ | ⟨hunwritten, -⟩ :=
      written_or_kept_run config store incidents addr
    · exact ⟨e, he, value, hrecord, hword⟩
    · obtain ⟨w, hw, rfl⟩ := hwritten addr haddr
      exact absurd rfl (hunwritten w hw)
  simp only [recordAddrs, List.forall_mem_cons] at horigin
  obtain ⟨⟨e, -, marker, hmarker, hfirst⟩, ⟨e', he', c, hc, hsecond⟩, ⟨-, -, p, -, hthird⟩, -⟩ :=
    horigin
  obtain rfl := zip_words_inj hmarker (marker_mem_zip _ e)
  obtain rfl := zip_words_inj hc (chargeWord_mem_zip _ e')
  refine ⟨_, p, (Estimate.round_charge_eq (inPack_of_mem_estimates he')).2, ?_⟩
  rw [Store.Holds, recordAddrs, List.map_cons, List.map_cons, List.map_cons, List.map_nil, hfirst,
    hsecond, hthird]
  rfl

/-- What an instrument shows and stores is in range, after the writes `written` came through. -/
structure InRange (config : GaugeConfig) (written : List WordWrite) (i : Instrument) : Prop where
  charge : i.gauge.charge ≠ .nan ∧ 0 ≤ i.gauge.charge ∧ i.gauge.charge ≤ fullCharge
  percent : i.gauge.percent = percentOf i.gauge.charge ∧ i.gauge.percent ≤ 100
  nothing : i.gauge.estimate? = none → i.gauge.charge = 0 ∧ i.gauge.percent = 0
  /-- A charge word that a sample makes the gauge write is its charge, rounded. -/
  rounds : ∀ voltage, ∀ attempt ∈ i.attempts (.sample voltage),
    attempt.write.addr = config.recordBase + 1 →
    (i.act (.sample voltage)).gauge.charge.round = .ofNat attempt.write.value.toNat
      ∧ attempt.write.value.toNat ≤ fullUnits
      ∧ |(attempt.write.value.toNat : ℚ) - (i.act (.sample voltage)).gauge.charge.value| ≤ 1 / 2
  /-- Once all three words were written, a new gauge that can read them starts from the charge
  word. -/
  restores : (∀ addr ∈ recordAddrs config.recordBase, ∃ w ∈ written, w.addr = addr) →
    (∀ addr ∈ recordAddrs config.recordBase, addr ∉ i.store.faultyReads) →
    ∃ c ∈ i.store.word? (config.recordBase + 1), c.toNat ≤ fullUnits
      ∧ (Gauge.restore config i.store).estimate? = some (.ofCharge (.ofNat c.toNat))

theorem Sound.rounds {i : Instrument} (h : i.Sound) {voltage : UInt16} {attempt : WriteAttempt}
    (hmem : attempt ∈ i.attempts (.sample voltage))
    (haddr : attempt.write.addr = i.gauge.config.recordBase + 1) :
    (i.act (.sample voltage)).gauge.charge.round = .ofNat attempt.write.value.toNat
      ∧ attempt.write.value.toNat ≤ fullUnits
      ∧ |(attempt.write.value.toNat : ℚ) - (i.act (.sample voltage)).gauge.charge.value|
        ≤ 1 / 2 := by
  obtain ⟨hv, hrecord⟩ := (Gauge.update_move i.gauge i.store voltage).mem_record hmem
  rw [haddr] at hrecord
  have hcharge : (i.act (.sample voltage)).gauge.charge = (i.gauge.aimed voltage).charge := by
    rw [Gauge.charge, h.estimate?_of_plausible voltage hv]
    rfl
  have hpack := Gauge.inPack_aim h.shows voltage
  rw [zip_words_inj hrecord (chargeWord_mem_zip _ _), hcharge]
  obtain ⟨hround, hle⟩ := Estimate.round_charge_eq (e := i.gauge.aimed voltage) hpack
  exact ⟨hround, hle, Estimate.chargeWord_near hpack⟩

/-- **In every run the gauge shows and stores what is in range.** -/
theorem inRange_run (config : GaugeConfig) (store : Store) (incidents : List Incident) :
    InRange config ((start config store).written incidents)
      ((start config store).run incidents) := by
  have hwritten := @holds_of_written config store incidents
  have hconfig := config_run_start config store incidents
  have h := sound_run config store incidents
  generalize (start config store).written incidents = written at *
  generalize (start config store).run incidents = i at *
  subst hconfig
  refine ⟨?_, ?_, ?_, fun voltage attempt => h.rounds, ?_⟩
  · exact ⟨(Single.ne_nan_of_le h.shows.charge.1).2, h.shows.charge⟩
  · rw [h.shows.percent]
    exact ⟨rfl, percentOf_le_hundred _⟩
  · intro hnothing
    rw [Gauge.charge, Gauge.percent, hnothing]
    exact ⟨rfl, rfl⟩
  · intro hall hreads
    obtain ⟨c, p, hc, hholds⟩ := hwritten hall
    refine ⟨c, hholds.words.2.1, hc, ?_⟩
    rw [Gauge.restore_congr fun addr haddr => Store.read_of_not_faulty (hreads addr haddr),
      Gauge.restore_readable hc hholds]
    rfl

theorem inRange_run_healing :
    (∀ addr ∈ recordAddrs 0, ∃ w ∈ (start {} unmarked).written healing, w.addr = addr)
      ∧ (∀ addr ∈ recordAddrs 0, addr ∉ ((start {} unmarked).run healing).store.faultyReads)
      ∧ ∃ c ∈ ((start {} unmarked).run healing).store.word? 1, c.toNat ≤ fullUnits
        ∧ (Gauge.restore {} ((start {} unmarked).run healing).store).estimate?
          = some (.ofCharge (.ofNat c.toNat)) := by
  -- not decided as they stand, since a quantifier over words may try all of them
  have hwritten : ∀ addr ∈ recordAddrs 0,
      ∃ w ∈ (start {} unmarked).written healing, w.addr = addr := by
    have heq : (start {} unmarked).written healing
        = [⟨0, Estimate.marker⟩, ⟨1, 9173⟩, ⟨2, 52⟩] := by decide +kernel
    simp [heq, recordAddrs]
  have hreads : ∀ addr ∈ recordAddrs 0,
      addr ∉ ((start {} unmarked).run healing).store.faultyReads := by
    have heq : ((start {} unmarked).run healing).store.faultyReads = [] := by decide +kernel
    simp [heq]
  exact ⟨hwritten, hreads, (inRange_run {} unmarked healing).restores hwritten hreads⟩

end Instrument

end BatteryCare
