import BatteryCare.Proofs.Gauge.Instrument

/-!
# Which charge a new gauge can find

The marker of a record is written before its charge. Where there was no record at first, a new gauge
finds the charge of a sample that was accepted, since a charge word either was written for one or is
as it was (`written_or_kept_run`). The one way to another charge is a record that is torn after its
first word: the marker then stands before whatever the charge word held, and makes it look like a
stored charge (`restored_unmeasured`).
-/

namespace BatteryCare

/-- No gauge finds a record at `base`: the first word is not the marker, or the second is more than
a full pack. -/
def Store.LacksRecord (s : Store) (base : UInt16) : Prop :=
  s.word? base ≠ some Estimate.marker ∨ ∀ c ∈ s.word? (base + 1), fullUnits < c.toNat

instance (s : Store) (base : UInt16) : Decidable (s.LacksRecord base) :=
  -- by way of `Option.all`, which looks at one word where a bounded quantifier may try all of them
  decidable_of_iff (s.word? base ≠ some Estimate.marker
      ∨ (s.word? (base + 1)).all fun c => fullUnits < c.toNat)
    (by simp only [Store.LacksRecord, Option.all_eq_true, decide_eq_true_eq, Option.mem_def])

namespace Instrument

/-- The record that a new gauge finds is torn: a marker was written, but no charge, and what the
charge word held from the first passes for one. -/
structure Torn (config : GaugeConfig) (store : Store) (incidents : List Incident) (e : Estimate) :
    Prop where
  marked : ⟨config.recordBase, Estimate.marker⟩ ∈ (start config store).written incidents
  unsaved : ∀ w ∈ (start config store).written incidents, w.addr ≠ config.recordBase + 1
  foreign : ∃ c ∈ store.word? (config.recordBase + 1),
    c.toNat ≤ fullUnits ∧ e = .ofCharge (.ofNat c.toNat)

/-- **A new gauge finds the rounded charge of a sample that was accepted, or a torn record.** -/
theorem measured_or_torn (config : GaugeConfig) (store : Store) (incidents : List Incident)
    (hlacks : store.LacksRecord config.recordBase) (e : Estimate)
    (he : e ∈ (Gauge.restore config ((start config store).run incidents).store).estimate?) :
    (∃ x ∈ (start config store).estimates incidents, e.charge = x.charge.round)
      ∨ Torn config store incidents e := by
  obtain ⟨c, p, hc, hholds, rfl⟩ := Gauge.estimate?_restore he
  obtain ⟨hfirst, hcharge, -⟩ := hholds.words
  obtain ⟨x, hx, value, hrecord, -, hword⟩ | ⟨hunsaved, hsame⟩ :=
    written_or_kept_run config store incidents (config.recordBase + 1)
  · obtain rfl := zip_words_inj hrecord (chargeWord_mem_zip _ x)
    obtain rfl := Option.some.inj (hcharge.symm.trans hword)
    exact .inl ⟨x, hx, (Estimate.round_charge_eq (inPack_of_mem_estimates hx)).1.symm⟩
  · have hforeign : c ∈ store.word? (config.recordBase + 1) := hsame.symm.trans hcharge
    refine .inr ⟨?_, hunsaved, c, hforeign, hc, rfl⟩
    obtain ⟨x, hx, value, hrecord, hwritten, -⟩ | ⟨-, hsame⟩ :=
      written_or_kept_run config store incidents config.recordBase
    · obtain rfl := zip_words_inj hrecord (marker_mem_zip _ x)
      exact hwritten
    · -- the marker was there from the first, and so was the charge
      rcases hlacks with hmarker | hfull
      · exact absurd (hsame.symm.trans hfirst) hmarker
      · exact absurd (hfull c hforeign) (Nat.not_lt.mpr hc)

/-- A store whose second and third words would make a record behind a marker. -/
def unmarked : Store := { image := [0x1234, 8820, 50] }

/-- A charge that cannot be written, a gauge that takes the torn record over, and two samples that
lead it away from there. -/
def healing : List Incident :=
  [.faults [] [1], .sample 7274, .restart, .faults [] [], .sample 7399, .sample 7399]

theorem measured_or_torn_healing :
    unmarked.LacksRecord 0
      ∧ Estimate.ofCharge (.ofNat 9173)
          ∈ (Gauge.restore {} ((start {} unmarked).run healing).store).estimate?
      ∧ ((∃ x ∈ (start {} unmarked).estimates healing,
            (Estimate.ofCharge (.ofNat 9173)).charge = x.charge.round)
          ∨ Torn {} unmarked healing (.ofCharge (.ofNat 9173))) :=
  ⟨by decide +kernel, by decide +kernel,
    measured_or_torn {} unmarked healing (by decide +kernel) _ (by decide +kernel)⟩

/-- A torn record passes for a stored one. The gauge measures a full pack and cannot store the
charge, and the gauge after it takes half a pack over, which no sample ever led to. -/
theorem restored_unmeasured :
    unmarked.LacksRecord 0
      ∧ unmarked.Holds 0 [0x1234, 8820, 50]
      ∧ (Gauge.restore {} ((start {} unmarked).run [.faults [] [1], .sample 8400]).store).estimate?
          = some (.ofCharge (.ofNat 8820))
      ∧ ∀ x ∈ (start {} unmarked).estimates [.faults [] [1], .sample 8400],
          (Estimate.ofCharge (.ofNat 8820)).charge ≠ x.charge.round := by
  decide +kernel

end Instrument

end BatteryCare
