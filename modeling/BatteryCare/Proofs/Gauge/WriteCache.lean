import BatteryCare.Proofs.Gauge.Instrument

/-!
# How a gauge keeps up with its record

The gauge remembers what it last wrote or read of each word of its record, and that memory is all it
goes by when it decides what to write. Here is what the decision comes to over a run in which
nothing else writes to the store (`keepsRecord_run`): the memory is never wrong, no other word is
touched, a word is written only if it has to be and in its turn, and a write that failed is made
good with the next sample that the gauge accepts. A new gauge knows nothing of a failed write, since
the record it finds may be complete (`not_retried_by_new`).
-/

namespace BatteryCare

/-! ## Words that are not known -/

theorem Reaches.lost_of_error {s : Store} {saved left : List Slot} {r : Saved}
    (h : Reaches s saved left r) {attempt : WriteAttempt} (hmem : attempt ∈ r.attempts)
    (herror : attempt.error ≠ none) :
    (attempt.write.addr, none) ∈ ((saved ++ left).map Slot.addr).zip r.cache := by
  obtain ⟨error, hattempts⟩ := h.attempts
  rw [hattempts, List.mem_append, List.mem_map, List.mem_map] at hmem
  obtain ⟨slot, -, rfl⟩ | ⟨slot, hslot, rfl⟩ := hmem
  · exact absurd rfl herror
  · cases left with
    | nil => exact absurd hslot List.not_mem_nil
    | cons first rest =>
      cases List.mem_singleton.mp hslot
      rw [h.cache, List.map_append, List.zip_append (by rw [List.length_map, List.length_map])]
      exact List.mem_append_right _ List.mem_cons_self

namespace Gauge

variable {g : Gauge}

theorem isKept_iff {percent : UInt8} : g.isKept percent = true ↔ ∃ c p : UInt16,
    g.cache = [some Estimate.marker, some c, some p]
      ∧ Nat.dist percent.toNat p.toNat < g.config.deadband.toNat := by
  simp only [isKept, Nat.dist]
  split
  · rename_i first c p hcache
    simp only [hcache, Bool.and_eq_true, decide_eq_true_eq, List.cons.injEq, Option.some.injEq,
      and_true]
    constructor
    · rintro ⟨hfirst, hnear⟩
      exact ⟨c, p, ⟨hfirst, rfl, rfl⟩, hnear⟩
    · rintro ⟨_, _, ⟨hfirst, rfl, rfl⟩, hnear⟩
      exact ⟨hfirst, hnear⟩
  · rename_i hcache
    refine ⟨nofun, ?_⟩
    rintro ⟨c, p, hknown, -⟩
    exact absurd hknown (hcache _ _ _)

/-- A record that is not known in full is not left alone. -/
theorem isKept_of_unknown (h : none ∈ g.cache) (percent : UInt8) : g.isKept percent = false := by
  rw [Bool.eq_false_iff]
  intro hkept
  obtain ⟨c, p, hcache, -⟩ := isKept_iff.mp hkept
  simp [hcache] at h

theorem mem_zip_slots (h : g.cache.length = 3) (e : Estimate) {addr : UInt16}
    {cached : Option UInt16} : (addr, cached) ∈ (recordAddrs g.config.recordBase).zip g.cache
      ↔ ∃ slot ∈ g.slots e, slot.addr = addr ∧ slot.cached = cached := by
  rw [← map_addr_slots h e, ← map_cached_slots h e, List.zip_map', List.mem_map]
  simp only [Prod.mk.injEq]

end Gauge

/-! ## Between two samples that are accepted -/

/-- An incident that neither replaces the gauge nor gives it a sample that it accepts. -/
def Incident.IsQuiet (config : GaugeConfig) : Incident → Prop
  | .sample voltage => Gauge.isPlausible config voltage = false
  | .restart => False
  | _ => True

namespace Instrument

theorem gauge_act_of_quiet {i : Instrument} {x : Incident} (h : x.IsQuiet i.gauge.config) :
    (i.act x).gauge = i.gauge := by
  cases x with
  | faults _ _ => rfl
  | receive _ => rfl
  | restart => exact h.elim
  | sample voltage => exact congrArg Gauge.Outcome.gauge (Gauge.update_of_rejected h i.store)

theorem attempts_of_quiet {i : Instrument} {x : Incident} (h : x.IsQuiet i.gauge.config) :
    i.attempts x = [] := by
  cases x with
  | faults _ _ => rfl
  | receive _ => rfl
  | restart => exact h.elim
  | sample voltage => exact congrArg Gauge.Outcome.attempts (Gauge.update_of_rejected h i.store)

theorem measured?_of_quiet {i : Instrument} {x : Incident} (h : x.IsQuiet i.gauge.config) :
    Turn.measured? ⟨i, x⟩ = none := by
  cases x with
  | faults _ _ => rfl
  | receive _ => rfl
  | restart => exact h.elim
  | sample voltage => exact if_neg fun hv => Bool.false_ne_true (h.symm.trans hv)

theorem gauge_run_of_quiet {i : Instrument} {incidents : List Incident}
    (h : ∀ x ∈ incidents, x.IsQuiet i.gauge.config) : (i.run incidents).gauge = i.gauge := by
  induction incidents generalizing i with
  | nil => rfl
  | cons x rest ih =>
    obtain ⟨hx, hrest⟩ := List.forall_mem_cons.mp h
    have hgauge := gauge_act_of_quiet hx
    rw [run_cons, ih (by rwa [hgauge]), hgauge]

/-! ## What a sample makes the gauge try -/

section

variable {i : Instrument} (h : i.Sound) (voltage : UInt16)

include h

/-- A sample makes the gauge try nothing, or what saving the record comes to. -/
theorem Sound.tries : i.attempts (.sample voltage) = []
    ∨ ∃ saved left r, i.gauge.slots (i.gauge.aimed voltage) = saved ++ left
      ∧ Reaches i.store saved left r ∧ i.attempts (.sample voltage) = r.attempts
      ∧ (i.act (.sample voltage)).gauge.cache = r.cache := by
  cases h.sampled voltage with
  | reject hv hact htried => exact .inl htried
  | keep hv hk hact htried => exact .inl htried
  | save hv hk saved left hslots r hreaches hact htried =>
    exact .inr ⟨saved, left, r, hslots, hreaches, htried, by rw [hact]⟩

theorem Sound.ordered : ((i.attempts (.sample voltage)).map (·.write.addr)).Sublist
    (recordAddrs i.gauge.config.recordBase) := by
  obtain htried | ⟨saved, left, r, hslots, hreaches, htried, -⟩ := h.tries voltage
  · rw [htried]
    exact List.nil_sublist _
  · have hwrites := hreaches.map_write_sublist.map WordWrite.addr
    rw [List.map_map, List.map_map, ← hslots] at hwrites
    rw [htried, ← Gauge.map_addr_slots h.knows.length_cache]
    exact hwrites

theorem Sound.stops :
    ∀ attempt ∈ (i.attempts (.sample voltage)).dropLast, attempt.error = none := by
  obtain htried | ⟨saved, left, r, hslots, hreaches, htried, -⟩ := h.tries voltage
  · rw [htried]
    exact nofun
  · rw [htried]
    exact hreaches.error_eq_none

theorem Sound.fresh : ∀ attempt ∈ i.attempts (.sample voltage),
    (attempt.write.addr, some attempt.write.value)
      ∉ (recordAddrs i.gauge.config.recordBase).zip i.gauge.cache := by
  intro attempt hmem hknown
  obtain htried | ⟨saved, left, r, hslots, hreaches, htried, -⟩ := h.tries voltage
  · rw [htried] at hmem
    exact List.not_mem_nil hmem
  · rw [htried] at hmem
    obtain ⟨slot, hslot, hstale, hwrite⟩ := hreaches.mem_attempts hmem
    rw [← hslots] at hslot
    -- the known word would belong to the same slot, and then there is no need to write it
    obtain ⟨other, hother, haddr, hcached⟩ := (Gauge.mem_zip_slots h.knows.length_cache _).mp hknown
    rw [hwrite] at haddr hcached
    have hsame := List.inj_on_of_nodup_map (h.knows.nodup _) hother hslot haddr
    exact Slot.isStale_iff.mp hstale (hsame ▸ hcached)

/-- A word whose write failed is not known. -/
theorem Sound.unknown_of_error {failed : WriteAttempt}
    (hmem : failed ∈ i.attempts (.sample voltage)) (herror : failed.error ≠ none) :
    (failed.write.addr, none) ∈ (recordAddrs i.gauge.config.recordBase).zip
      (i.act (.sample voltage)).gauge.cache := by
  obtain htried | ⟨saved, left, r, hslots, hreaches, htried, hcache⟩ := h.tries voltage
  · rw [htried] at hmem
    exact absurd hmem List.not_mem_nil
  · rw [htried] at hmem
    have hlost := hreaches.lost_of_error hmem herror
    rw [← hslots, Gauge.map_addr_slots h.knows.length_cache] at hlost
    rw [hcache]
    exact hlost

/-- **A word that is not known is tried with the next sample that the gauge accepts.** -/
theorem Sound.tries_unknown {addr : UInt16}
    (hv : Gauge.isPlausible i.gauge.config voltage)
    (hunknown : (addr, none) ∈ (recordAddrs i.gauge.config.recordBase).zip i.gauge.cache) :
    ∃ attempt ∈ i.attempts (.sample voltage), attempt.write.addr = addr ∨ (attempt.error ≠ none
      ∧ [attempt.write.addr, addr].Sublist (recordAddrs i.gauge.config.recordBase)) := by
  cases h.sampled voltage with
  | reject hv' => exact absurd hv (by rw [hv']; nofun)
  | keep _ hk =>
    rw [Gauge.isKept_of_unknown (List.of_mem_zip hunknown).2] at hk
    exact Bool.noConfusion hk
  | save _ hk saved left hslots r hreaches hact htried =>
    obtain ⟨slot, hslot, rfl, hcached⟩ := (Gauge.mem_zip_slots h.knows.length_cache _).mp hunknown
    have hstale : slot.isStale := by
      rw [Slot.isStale_iff, hcached]
      exact nofun
    obtain ⟨attempt, hmem, htries⟩ := hreaches.tries_stale (hslots ▸ hslot) hstale
    refine ⟨attempt, htried ▸ hmem,
      htries.imp (congrArg WordWrite.addr) (And.imp_right fun hle => ?_)⟩
    have haddrs := hle.map WordWrite.addr
    rwa [List.map_map, ← hslots, show WordWrite.addr ∘ Slot.wanted = Slot.addr from rfl,
      Gauge.map_addr_slots h.knows.length_cache] at haddrs

theorem Sound.retried {failed : WriteAttempt} (hmem : failed ∈ i.attempts (.sample voltage))
    (herror : failed.error ≠ none) {between : List Incident}
    (hquiet : ∀ x ∈ between, x.IsQuiet i.gauge.config) {next : UInt16}
    (hv : Gauge.isPlausible i.gauge.config next) :
    ∃ attempt ∈ ((i.act (.sample voltage)).run between).attempts (.sample next),
      attempt.write.addr = failed.write.addr ∨ (attempt.error ≠ none
        ∧ [attempt.write.addr, failed.write.addr].Sublist
          (recordAddrs i.gauge.config.recordBase)) := by
  -- the word is not known after the failure, and nothing in between changes what the gauge knows
  have hconfig := config_act i (.sample voltage)
  have hgauge := gauge_run_of_quiet (i := i.act (.sample voltage)) (by rwa [hconfig])
  have hsound := (h.act (.sample voltage)).run between
  rw [← hconfig, ← hgauge] at hv ⊢
  refine hsound.tries_unknown next hv ?_
  rw [hgauge, hconfig]
  exact h.unknown_of_error voltage hmem herror

theorem Sound.complete (hv : Gauge.isPlausible i.gauge.config voltage)
    (hok : ∀ attempt ∈ i.attempts (.sample voltage), attempt.error = none) :
    (i.attempts (.sample voltage) = [] ∧ (i.act (.sample voltage)).store = i.store
        ∧ i.gauge.isKept (i.gauge.aimed voltage).percent)
      ∨ (i.act (.sample voltage)).store.Holds i.gauge.config.recordBase
          (i.gauge.aimed voltage).words := by
  cases h.sampled voltage with
  | reject hv' => exact absurd hv (by rw [hv']; nofun)
  | keep _ hk hact htried => exact .inl ⟨htried, by rw [hact], hk⟩
  | save _ hk saved left hslots r hreaches hact htried =>
    rw [htried] at hok
    obtain rfl := hreaches.left_eq_nil hok
    rw [List.append_nil] at hslots
    rw [hact, Store.Holds, ← Gauge.map_addr_slots h.knows.length_cache (i.gauge.aimed voltage),
      ← Gauge.map_value_slots h.knows.length_cache, List.map_map, List.map_map, hslots]
    exact .inr (List.map_congr_left hreaches.words)

end

/-! ## The record -/

/-- What an instrument keeps to while only its gauge writes to the store, which was `first`. -/
structure KeepsRecord (first : Store) (i : Instrument) : Prop where
  /-- What the gauge knows of its record is what the store holds. -/
  known : i.gauge.Knows i.store
  /-- No other word is ever changed. -/
  others : ∀ addr ∉ recordAddrs i.gauge.config.recordBase, i.store.word? addr = first.word? addr
  /-- A sample makes the gauge try to write words of the record only, each at most once and in their
  order. So there are at most three attempts. -/
  ordered : ∀ voltage, ((i.attempts (.sample voltage)).map (·.write.addr)).Sublist
    (recordAddrs i.gauge.config.recordBase)
  /-- The first attempt that fails is the last one. -/
  stops : ∀ voltage, ∀ attempt ∈ (i.attempts (.sample voltage)).dropLast, attempt.error = none
  /-- A word that the store is known to hold is not written. -/
  fresh : ∀ voltage, ∀ attempt ∈ i.attempts (.sample voltage),
    (attempt.write.addr, some attempt.write.value)
      ∉ (recordAddrs i.gauge.config.recordBase).zip i.gauge.cache
  /-- A word whose write failed is tried again with the next sample that the same gauge accepts, or
  the write of an earlier word fails then. -/
  retried : ∀ voltage, ∀ failed ∈ i.attempts (.sample voltage), failed.error ≠ none →
    ∀ between : List Incident, (∀ x ∈ between, x.IsQuiet i.gauge.config) →
    ∀ next, Gauge.isPlausible i.gauge.config next →
    ∃ attempt ∈ ((i.act (.sample voltage)).run between).attempts (.sample next),
      attempt.write.addr = failed.write.addr ∨ (attempt.error ≠ none
        ∧ [attempt.write.addr, failed.write.addr].Sublist (recordAddrs i.gauge.config.recordBase))
  /-- After a sample that was accepted and no failed write, the record was complete and close enough
  and was left alone, or its words are those of the new estimate. -/
  complete : ∀ voltage, Gauge.isPlausible i.gauge.config voltage →
    (∀ attempt ∈ i.attempts (.sample voltage), attempt.error = none) →
    ∃ e, (i.act (.sample voltage)).gauge.estimate? = some e
      ∧ ((i.attempts (.sample voltage) = [] ∧ (i.act (.sample voltage)).store = i.store
            ∧ ∃ c p : UInt16, i.gauge.cache = [some Estimate.marker, some c, some p]
              ∧ Nat.dist e.percent.toNat p.toNat < i.gauge.config.deadband.toNat)
          ∨ ∃ c : UInt16, e.charge.round = .ofNat c.toNat
            ∧ (i.act (.sample voltage)).store.Holds i.gauge.config.recordBase
                [Estimate.marker, c, e.percent.toUInt16])

/-- **In every run, whatever fails, the gauge keeps to its record.** -/
theorem keepsRecord_run (config : GaugeConfig) (store : Store) (incidents : List Incident) :
    KeepsRecord store ((start config store).run incidents) := by
  have h := sound_run config store incidents
  have hconfig := config_run_start config store incidents
  exact
    { known := h.knows
      others := by
        intro addr haddr
        rw [hconfig] at haddr
        obtain ⟨e, -, value, hrecord, -⟩ | ⟨-, hword⟩ :=
          written_or_kept_run config store incidents addr
        · exact absurd (List.of_mem_zip hrecord).1 haddr
        · exact hword
      ordered := h.ordered
      stops := h.stops
      fresh := h.fresh
      retried := fun voltage failed hmem herror between hquiet next hv =>
        h.retried voltage hmem herror hquiet hv
      complete := by
        intro voltage hv hok
        refine ⟨_, h.estimate?_of_plausible voltage hv,
          (h.complete voltage hv hok).imp (And.imp_right (And.imp_right Gauge.isKept_iff.mp))
            fun hholds => ?_⟩
        exact ⟨_, (Estimate.round_charge_eq (Gauge.inPack_aim h.shows voltage)).1, hholds⟩ }

/-- A gauge on the record of half a pack that has moved up by one percent, and the charge word of
which cannot be written. -/
def unwritable : Instrument :=
  (start {} { image := [Estimate.marker, 8820, 50] }).run [.faults [] [1], .sample 7299]

/-- The charge that could not be written is given up with the gauge: the new one finds a complete
record, and with the next sample that it accepts it tries nothing. -/
theorem not_retried_by_new :
    unwritable.attempts (.sample 7299) = [⟨⟨1, 9086⟩, some .device⟩]
      ∧ Gauge.isPlausible unwritable.gauge.config 7299 = true
      ∧ ((unwritable.act (.sample 7299)).run [.restart, .faults [] []]).attempts (.sample 7299)
          = [] := by
  decide +kernel

end Instrument

end BatteryCare
