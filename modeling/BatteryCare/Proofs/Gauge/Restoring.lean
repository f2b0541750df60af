import BatteryCare.Proofs.Gauge.Settling
import BatteryCare.Proofs.Store.Saving

/-!
# What a gauge takes over from its store

A gauge takes over the record of its store where all three words can be read, the first is the
marker and the second is no more than a full pack (`restore_cases`, `restore_readable`). It then
shows the charge of the second word, and knows all three words. The second word of a record that was
written for an estimate is its charge to the nearest whole unit (`round_charge_eq`).
-/

namespace BatteryCare

open Single

/-! ## The words of a store -/

theorem recordAddrs_nodup (base : UInt16) : (recordAddrs base).Nodup := by
  simp only [recordAddrs, List.nodup_cons, List.mem_cons, List.not_mem_nil, or_false, not_or,
    List.nodup_nil, not_false_eq_true, and_true]
  refine ⟨⟨?_, ?_⟩, ?_⟩ <;> grind

namespace Store

variable {s : Store} {addr word : UInt16}

/-- The store as it is once all of it can be read. -/
def readable (s : Store) : Store := { s with faultyReads := [] }

theorem word?_of_read (h : s.read addr = .ok word) : s.word? addr = some word := by
  rw [read] at h
  split at h
  · cases h
  · split at h
    · cases h
    · rename_i hword
      cases h
      exact hword

theorem read_readable (h : s.word? addr = some word) : s.readable.read addr = .ok word := by
  have hword : s.readable.image[addr.toNat]? = some word := h
  rw [read, if_neg (show addr ∉ s.readable.faultyReads from List.not_mem_nil), hword]

theorem read_of_not_faulty (h : addr ∉ s.faultyReads) : s.read addr = s.readable.read addr := by
  rw [read, read, if_neg h, if_neg (show addr ∉ s.readable.faultyReads from List.not_mem_nil)]
  rfl

/-- The words that the store holds at `base`, where the store goes that far. -/
def Holds (s : Store) (base : UInt16) (words : List UInt16) : Prop :=
  (recordAddrs base).map s.word? = words.map some

instance (s : Store) (base : UInt16) (words : List UInt16) : Decidable (s.Holds base words) :=
  inferInstanceAs (Decidable (_ = _))

theorem Holds.words {base first second third : UInt16} (h : s.Holds base [first, second, third]) :
    s.word? base = some first ∧ s.word? (base + 1) = some second
      ∧ s.word? (base + 2) = some third := by
  obtain ⟨hfirst, hrest⟩ := List.cons_eq_cons.mp h
  obtain ⟨hsecond, hrest⟩ := List.cons_eq_cons.mp hrest
  exact ⟨hfirst, hsecond, (List.cons_eq_cons.mp hrest).1⟩

theorem readAll?_cons (s : Store) (addr : UInt16) (addrs : List UInt16) :
    s.readAll? (addr :: addrs)
      = (s.read addr).toOption.bind fun word => (s.readAll? addrs).map (word :: ·) := by
  rw [readAll?, List.mapM_cons]
  cases (s.read addr).toOption with
  | none => rfl
  | some word =>
    change (s.readAll? addrs).bind (fun words => some (word :: words)) = _
    cases s.readAll? addrs <;> rfl

theorem map_word?_of_readAll? {addrs words : List UInt16} (h : s.readAll? addrs = some words) :
    addrs.map s.word? = words.map some := by
  induction addrs generalizing words with
  | nil =>
    cases h
    rfl
  | cons addr addrs ih =>
    rw [readAll?_cons, Option.bind_eq_some_iff] at h
    obtain ⟨word, hword, hrest⟩ := h
    obtain ⟨rest, hread', rfl⟩ := Option.map_eq_some_iff.mp hrest
    have hread : s.read addr = .ok word := by
      cases hr : s.read addr with
      | error e => rw [hr] at hword; cases hword
      | ok w => rw [hr] at hword; cases hword; rfl
    rw [List.map_cons, List.map_cons, word?_of_read hread, ih hread']

theorem readAll?_readable {addrs words : List UInt16} (h : addrs.map s.word? = words.map some) :
    s.readable.readAll? addrs = some words := by
  induction addrs generalizing words with
  | nil =>
    rw [List.map_nil, List.nil_eq, List.map_eq_nil_iff] at h
    rw [h]
    rfl
  | cons addr addrs ih =>
    cases words with
    | nil => cases h
    | cons word words =>
      obtain ⟨hword, hwords⟩ := List.cons_eq_cons.mp h
      rw [readAll?_cons, read_readable hword, ih hwords]
      rfl

end Store

/-! ## Records -/

theorem ofNat_le_fullCharge {n : Nat} (h : n < digitLimit) :
    ofNat n ≤ fullCharge ↔ n ≤ fullUnits := by
  obtain ⟨hfin, hval⟩ := ofNat_exact h
  obtain ⟨hfull, hfval⟩ := ofNat_exact (n := fullUnits) (by decide)
  rw [fullCharge_eq, le_iff_value hfin hfull, hval, hfval, Nat.cast_le]

namespace Estimate

theorem ofWords?_eq_some {words : List UInt16} {e : Estimate} (h : ofWords? words = some e) :
    ∃ c p : UInt16, words = [marker, c, p] ∧ c.toNat ≤ fullUnits
      ∧ e = ofCharge (.ofNat c.toNat) := by
  unfold ofWords? at h
  split at h
  · rename_i first c p
    split at h
    · rename_i hrecord
      cases h
      refine ⟨c, p, by rw [hrecord.1], ?_, rfl⟩
      exact (ofNat_le_fullCharge (Nat.lt_trans c.toNat_lt (by decide))).mp hrecord.2
    · cases h
  · cases h

theorem ofWords?_record {c : UInt16} (p : UInt16) (h : c.toNat ≤ fullUnits) :
    ofWords? [marker, c, p] = some (ofCharge (.ofNat c.toNat)) := by
  rw [ofWords?, if_pos ⟨rfl, (ofNat_le_fullCharge (Nat.lt_trans c.toNat_lt (by decide))).mpr h⟩]

/-- The second word of the record of an estimate. -/
def chargeWord (e : Estimate) : UInt16 := UInt16.ofNat (e.charge.round.toNatUpTo 65535)

theorem words_eq (e : Estimate) : e.words = [marker, e.chargeWord, e.percent.toUInt16] := rfl

/-- **A charge is stored to the nearest whole unit.** -/
theorem round_charge_eq {e : Estimate} (h : InPack e.charge) :
    e.charge.round = .ofNat e.chargeWord.toNat ∧ e.chargeWord.toNat ≤ fullUnits := by
  obtain ⟨n, hn, hround, -⟩ := inPack_round h
  have hlimit : n ≤ 65535 := Nat.le_trans hn (by decide)
  have hword : e.chargeWord.toNat = n := by
    rw [chargeWord, hround, toNatUpTo_ofNat (Nat.lt_of_le_of_lt hlimit (by decide)) hlimit,
      UInt16.toNat_ofNat_of_lt' (Nat.lt_of_le_of_lt hlimit (by decide))]
  rw [hword]
  exact ⟨hround, hn⟩

theorem chargeWord_near {e : Estimate} (h : InPack e.charge) :
    |(e.chargeWord.toNat : ℚ) - e.charge.value| ≤ 1 / 2 := by
  obtain ⟨n, hn, hround, hnear⟩ := inPack_round h
  obtain ⟨hround', hword⟩ := round_charge_eq h
  rwa [← value_ofNat_units hword, ← hround', hround, value_ofNat_units hn]

end Estimate

/-- A record has one word for each address. -/
theorem zip_words_inj {base addr value value' : UInt16} {e : Estimate}
    (h : (addr, value) ∈ (recordAddrs base).zip e.words)
    (h' : (addr, value') ∈ (recordAddrs base).zip e.words) : value = value' := by
  have hnodup := recordAddrs_nodup base
  rw [Estimate.words_eq] at h h'
  simp only [recordAddrs, List.zip_cons_cons, List.zip_nil_left, List.mem_cons, Prod.mk.injEq,
    List.not_mem_nil, or_false, List.nodup_cons, not_or] at h h' hnodup
  grind

theorem marker_mem_zip (base : UInt16) (e : Estimate) :
    (base, Estimate.marker) ∈ (recordAddrs base).zip e.words :=
  List.mem_cons_self

theorem chargeWord_mem_zip (base : UInt16) (e : Estimate) :
    (base + 1, e.chargeWord) ∈ (recordAddrs base).zip e.words :=
  List.mem_cons_of_mem _ List.mem_cons_self

/-! ## Restoring -/

namespace Gauge

/-- The gauge with a record of `charge` units just taken over. -/
def restored (config : GaugeConfig) (charge percent : UInt16) : Gauge where
  config
  knowledge := .restored (.ofCharge (.ofNat charge.toNat))
  cache := [some Estimate.marker, some charge, some percent]
  settling := true

/-- **A gauge starts from nothing, or from a record that the store holds.** -/
theorem restore_cases (config : GaugeConfig) (s : Store) :
    restore config s = { config } ∨ ∃ c p : UInt16, c.toNat ≤ fullUnits
      ∧ s.Holds config.recordBase [Estimate.marker, c, p]
      ∧ restore config s = restored config c p := by
  unfold restore
  split
  · exact .inl rfl
  · rename_i words hread
    split
    · exact .inl rfl
    · rename_i e he
      obtain ⟨c, p, rfl, hc, rfl⟩ := Estimate.ofWords?_eq_some he
      exact .inr ⟨c, p, hc, Store.map_word?_of_readAll? hread, rfl⟩

theorem estimate?_restore {config : GaugeConfig} {s : Store} {e : Estimate}
    (h : e ∈ (restore config s).estimate?) : ∃ c p : UInt16, c.toNat ≤ fullUnits
      ∧ s.Holds config.recordBase [Estimate.marker, c, p] ∧ e = .ofCharge (.ofNat c.toNat) := by
  obtain hnone | ⟨c, p, hc, hholds, hrestored⟩ := restore_cases config s
  · rw [hnone] at h
    cases h
  · rw [hrestored] at h
    cases h
    exact ⟨c, p, hc, hholds, rfl⟩

theorem restore_eq {config : GaugeConfig} {s : Store} {words : List UInt16} {e : Estimate}
    (hread : s.readAll? (recordAddrs config.recordBase) = some words)
    (he : Estimate.ofWords? words = some e) : restore config s
      = { config, knowledge := .restored e, cache := words.map some, settling := true } := by
  rw [restore, hread]
  simp only [he]

theorem restore_readable {config : GaugeConfig} {s : Store} {c p : UInt16}
    (hc : c.toNat ≤ fullUnits) (h : s.Holds config.recordBase [Estimate.marker, c, p]) :
    restore config s.readable = restored config c p :=
  restore_eq (Store.readAll?_readable h) (Estimate.ofWords?_record p hc)

end Gauge

end BatteryCare
