import BatteryCare.Proofs.Gauge.CatchingUp

/-!
# How often a gauge rewrites its record

A gauge that has written its record leaves it alone until the level is the deadband away from the
one it wrote. So the levels at which it writes are the deadband apart, one from the next, and they
are some of the levels that it shows, in their order (`Spares`). The way from level to level
through all that are shown is no shorter than the way through some of them (`travel_le_of_sublist`),
and that bounds how many there can be (`rewrites_le`). What the store held at first does not matter:
it can cost one write and no more.
-/

namespace BatteryCare

/-! ## The way through levels -/

/-- The way from each level to the next. -/
def travel : List Nat → Nat
  | p :: q :: rest => Nat.dist p q + travel (q :: rest)
  | _ => 0

theorem travel_cons_cons (p q : Nat) (rest : List Nat) :
    travel (p :: q :: rest) = Nat.dist p q + travel (q :: rest) := rfl

theorem travel_le_cons (p : Nat) (levels : List Nat) : travel levels ≤ travel (p :: levels) := by
  cases levels with
  | nil => exact Nat.le_refl _
  | cons q rest => exact Nat.le_add_left _ _

/-- A detour makes the way no shorter. -/
theorem travel_cons_le (p q : Nat) (levels : List Nat) :
    travel (p :: levels) ≤ Nat.dist p q + travel (q :: levels) := by
  cases levels with
  | nil => exact Nat.zero_le _
  | cons r rest =>
    have hdetour := Nat.dist.triangle_inequality p q r
    rw [travel_cons_cons, travel_cons_cons]
    omega

theorem travel_cons_le_of_sublist {some all : List Nat} (h : some.Sublist all) (p : Nat) :
    travel (p :: some) ≤ travel (p :: all) := by
  induction h generalizing p with
  | slnil => exact Nat.le_refl _
  | cons q _ ih =>
    rw [travel_cons_cons]
    exact (travel_cons_le p q _).trans (Nat.add_le_add_left (ih q) _)
  | cons_cons q _ ih =>
    rw [travel_cons_cons, travel_cons_cons]
    exact Nat.add_le_add_left (ih q) _

/-- **The way through some of the levels is no longer than the way through all.** -/
theorem travel_le_of_sublist {some all : List Nat} (h : some.Sublist all) :
    travel some ≤ travel all := by
  induction h with
  | slnil => exact Nat.le_refl _
  | cons q _ ih => exact ih.trans (travel_le_cons q _)
  | cons_cons q h _ => exact travel_cons_le_of_sublist h q

/-- Each level is at least `d` away from the one before. -/
def SpacedBy (d : Nat) (levels : List Nat) : Prop := levels.IsChain fun p q => d ≤ Nat.dist p q

theorem SpacedBy.length_mul_le {d : Nat} {levels : List Nat} (h : SpacedBy d levels) :
    levels.length * d ≤ travel levels + d := by
  induction levels with
  | nil => rw [List.length_nil, Nat.zero_mul]; exact Nat.zero_le _
  | cons p rest ih =>
    cases rest with
    | nil => rw [List.length_singleton, Nat.one_mul]; exact Nat.le_add_left _ _
    | cons q rest =>
      obtain ⟨hstep, hrest⟩ := List.isChain_cons_cons.mp h
      have := ih hrest
      rw [travel_cons_cons, List.length_cons, Nat.succ_mul]
      omega

/-- Levels that are apart do not both fit into a narrower window. -/
theorem SpacedBy.length_le_one {d lo hi : Nat} {levels : List Nat} (h : SpacedBy d levels)
    (hnarrow : hi - lo < d) (hwindow : ∀ p ∈ levels, lo ≤ p ∧ p ≤ hi) : levels.length ≤ 1 := by
  match levels, h, hwindow with
  | [], _, _ => exact Nat.zero_le _
  | [_], _, _ => exact Nat.le_refl _
  | p :: q :: _, h, hwindow =>
    have hstep := (List.isChain_cons_cons.mp h).1
    have hp := hwindow p List.mem_cons_self
    have hq := hwindow q (List.mem_cons_of_mem _ List.mem_cons_self)
    rw [Nat.dist] at hstep
    omega

namespace Instrument

/-! ## What a sample does to the record -/

theorem Sound.cache_of_no_attempts {i : Instrument} (h : i.Sound) {voltage : UInt16}
    (hnone : i.attempts (.sample voltage) = []) :
    (i.act (.sample voltage)).gauge.cache = i.gauge.cache := by
  cases h.sampled voltage with
  | reject _ hact _ => rw [hact]
  | keep _ _ hact _ =>
    rw [hact]
    rfl
  | save _ _ saved left hslots r hreaches hact htried =>
    -- saving went through without a write, so every word was known
    rw [htried] at hnone
    obtain rfl := hreaches.left_eq_nil (by rw [hnone]; nofun)
    obtain ⟨error, hattempts⟩ := hreaches.attempts
    rw [hnone, List.take_nil, List.map_nil, List.append_nil, List.nil_eq, List.map_eq_nil_iff,
      List.filter_eq_nil_iff] at hattempts
    rw [List.append_nil] at hslots
    rw [hact, ← Gauge.map_cached_slots h.knows.length_cache (i.gauge.aimed voltage), hslots]
    change r.cache = _
    rw [hreaches.cache, Slot.lost, List.append_nil]
    refine List.map_congr_left fun slot hslot => ?_
    have hknown := hattempts slot hslot
    rw [Slot.isStale_iff, not_not] at hknown
    exact hknown.symm

theorem Sound.cache_of_attempts {i : Instrument} (h : i.Sound) {voltage : UInt16}
    (hsome : i.attempts (.sample voltage) ≠ [])
    (hok : ∀ attempt ∈ i.attempts (.sample voltage), attempt.error = none) :
    i.gauge.isKept (i.gauge.aimed voltage).percent = false
      ∧ (i.act (.sample voltage)).gauge.cache = (i.gauge.aimed voltage).words.map some := by
  cases h.sampled voltage with
  | reject _ _ htried => exact absurd htried hsome
  | keep _ _ _ htried => exact absurd htried hsome
  | save _ hk saved left hslots r hreaches hact htried =>
    rw [htried] at hok
    obtain rfl := hreaches.left_eq_nil hok
    rw [List.append_nil] at hslots
    refine ⟨hk, ?_⟩
    rw [hact, ← Gauge.map_value_slots h.knows.length_cache (i.gauge.aimed voltage), hslots,
      List.map_map]
    change r.cache = _
    rw [hreaches.cache, Slot.lost, List.append_nil]
    rfl

/-! ## Runs -/

/-- The level that the gauge shows after a turn. -/
def Turn.level (t : Turn) : Nat := t.after.gauge.percent.toNat

/-- The turns of a run that made the gauge try a write. -/
def rewrites (i : Instrument) (incidents : List Incident) : List Turn :=
  (i.turns incidents).filter fun t => t.attempts ≠ []

/-- The levels after the accepted samples of a run. -/
def levels (i : Instrument) (incidents : List Incident) : List Nat :=
  (i.estimates incidents).map fun e => e.percent.toNat

theorem rewrites_concat (i : Instrument) (xs : List Incident) (x : Incident) :
    i.rewrites (xs ++ [x]) = i.rewrites xs
      ++ if (i.run xs).attempts x = [] then [] else [⟨i.run xs, x⟩] := by
  rw [rewrites, turns_concat, List.filter_append, List.filter_singleton, rewrites]
  by_cases h : (i.run xs).attempts x = []
  · simp [Turn.attempts, h]
  · simp [Turn.attempts, h]

theorem levels_concat (i : Instrument) (xs : List Incident) (x : Incident) :
    i.levels (xs ++ [x]) = i.levels xs
      ++ ((Turn.measured? ⟨i.run xs, x⟩).map fun e => e.percent.toNat).toList := by
  rw [levels, estimates_concat, List.map_append, levels, Option.toList_map]

/-- How a gauge that was never replaced has rewritten its record. -/
structure Spares (levels : List Nat) (rewrites : List Turn) (g : Gauge) : Prop where
  /-- The levels at which it tried a write are some of those that it showed. -/
  shown : (rewrites.map Turn.level).Sublist levels
  /-- They are the deadband apart. -/
  apart : SpacedBy g.config.deadband.toNat (rewrites.map Turn.level)
  /-- It knows the last one from its record. -/
  last : ∀ t ∈ rewrites.getLast?, ∃ c p : UInt16,
    g.cache = [some Estimate.marker, some c, some p] ∧ p.toNat = t.level

variable {i : Instrument} {levels : List Nat} {rewrites : List Turn}

theorem Spares.keep {g : Gauge} (h : Spares levels rewrites i.gauge)
    (hconfig : g.config = i.gauge.config) (hcache : g.cache = i.gauge.cache) (level : Nat) :
    Spares (levels ++ [level]) rewrites g := by
  refine ⟨h.shown.trans (List.sublist_append_left _ _), ?_, ?_⟩
  · rw [hconfig]
    exact h.apart
  · rw [hcache]
    exact h.last

/-- **A sample that makes the gauge try a write shows a level the deadband away from the last one
that it wrote.** -/
theorem Spares.write (h : Spares levels rewrites i.gauge) (hsound : i.Sound) {voltage : UInt16}
    (hv : Gauge.isPlausible i.gauge.config voltage = true)
    (hsome : i.attempts (.sample voltage) ≠ [])
    (hok : ∀ attempt ∈ i.attempts (.sample voltage), attempt.error = none) :
    Spares (levels ++ [(i.gauge.aimed voltage).percent.toNat])
      (rewrites ++ [⟨i, .sample voltage⟩]) (i.act (.sample voltage)).gauge := by
  obtain ⟨hunkept, hcache⟩ := hsound.cache_of_attempts hsome hok
  have hlevel : Turn.level ⟨i, .sample voltage⟩ = (i.gauge.aimed voltage).percent.toNat := by
    rw [Turn.level, Turn.after, Gauge.percent, hsound.estimate?_of_plausible voltage hv]
    rfl
  refine ⟨?_, ?_, ?_⟩
  · rw [List.map_append, List.map_singleton, hlevel]
    exact h.shown.append (List.Sublist.refl _)
  · rw [config_act, SpacedBy, List.map_append, List.map_singleton, List.isChain_append, hlevel]
    refine ⟨h.apart, List.isChain_singleton _, fun p hp q hq => ?_⟩
    rw [List.getLast?_map] at hp
    obtain ⟨t, ht, rfl⟩ := Option.map_eq_some_iff.mp hp
    cases hq
    obtain ⟨c, p, hknown, hp⟩ := h.last t ht
    -- closer to the last level than that, the record would have been left alone
    by_contra hnear
    rw [← hp, Nat.dist_comm, not_le] at hnear
    rw [Gauge.isKept_iff.mpr ⟨c, p, hknown, hnear⟩] at hunkept
    exact Bool.noConfusion hunkept
  · rintro t ht
    rw [List.getLast?_concat, Option.mem_some_iff] at ht
    subst ht
    exact ⟨(i.gauge.aimed voltage).chargeWord, (i.gauge.aimed voltage).percent.toUInt16, hcache,
      by rw [hlevel, UInt8.toNat_toUInt16]⟩

theorem spares_run {config : GaugeConfig} {store : Store} {incidents : List Incident}
    (hsame : .restart ∉ incidents)
    (hok : ∀ t ∈ (start config store).turns incidents, ∀ attempt ∈ t.attempts,
      attempt.error = none) :
    Spares ((start config store).levels incidents) ((start config store).rewrites incidents)
      ((start config store).run incidents).gauge := by
  induction incidents using List.reverseRecOn with
  | nil => exact ⟨List.nil_sublist _, List.isChain_nil, fun t ht => by cases ht⟩
  | append_singleton xs x ih =>
    rw [List.mem_append, not_or, List.mem_singleton] at hsame
    rw [turns_concat, List.forall_mem_append] at hok
    have hpast := ih hsame.1 hok.1
    have hsound := sound_run config store xs
    rw [levels_concat, rewrites_concat, run_append, run_cons, run_nil]
    have hlast := hok.2 _ (List.mem_singleton.mpr rfl)
    generalize (start config store).run xs = i at *
    obtain ⟨voltage, rfl, hv, -⟩ | ⟨hquiet, -⟩ :=
      Incident.accepted_or_quiet i.gauge.config (Ne.symm hsame.2)
    · rw [hsound.measured?_of_plausible voltage hv]
      -- an accepted sample shows its level, and rewrites the record or finds it close enough
      by_cases hnone : i.attempts (.sample voltage) = []
      · rw [if_pos hnone, List.append_nil]
        exact hpast.keep (config_act _ _) (hsound.cache_of_no_attempts hnone) _
      · rw [if_neg hnone]
        exact hpast.write hsound hv hnone hlast
    · rw [measured?_of_quiet hquiet, attempts_of_quiet hquiet, gauge_act_of_quiet hquiet,
        if_pos rfl, Option.map_none, Option.toList_none, List.append_nil, List.append_nil]
      exact hpast

/-- **A gauge rewrites its record no more often than its level moves by the deadband**, but for one
time. While the level stays in a window narrower than the deadband, that is once at most. -/
theorem rewrites_le (config : GaugeConfig) (hdeadband : 1 ≤ config.deadband.toNat) (store : Store)
    (incidents : List Incident) (hsame : .restart ∉ incidents)
    (hok : ∀ t ∈ (start config store).turns incidents, ∀ attempt ∈ t.attempts,
      attempt.error = none) :
    ((start config store).rewrites incidents).length
        ≤ 1 + travel ((start config store).levels incidents) / config.deadband.toNat
      ∧ ∀ lo hi, hi - lo < config.deadband.toNat →
        (∀ p ∈ (start config store).levels incidents, lo ≤ p ∧ p ≤ hi) →
        ((start config store).rewrites incidents).length ≤ 1 := by
  have hspares := spares_run hsame hok
  have hconfig := config_run_start config store incidents
  have hapart := hspares.apart
  rw [hconfig] at hapart
  have hlength : (((start config store).rewrites incidents).map Turn.level).length
      = ((start config store).rewrites incidents).length := List.length_map _
  refine ⟨?_, fun lo hi hnarrow hwindow => ?_⟩
  · have hmany := hapart.length_mul_le
    have hway := travel_le_of_sublist hspares.shown
    rw [hlength] at hmany
    -- each rewrite but the first took its share of the way that the level went
    have hle : ((start config store).rewrites incidents).length - 1
        ≤ travel ((start config store).levels incidents) / config.deadband.toNat := by
      rw [Nat.le_div_iff_mul_le hdeadband, Nat.sub_mul, Nat.one_mul]
      omega
    omega
  · rw [← hlength]
    exact hapart.length_le_one hnarrow fun p hp => hwindow p (hspares.shown.subset hp)

/-- A record whose level word fits no charge, on a queue for three writes. -/
def misfit : Store :=
  { image := [Estimate.marker, 8820, 300], pending := some (.empty 3) }

/-- A level that goes up by three percent. -/
def climbing : List Incident :=
  [.sample 7399, .receive 3, .sample 7399, .sample 0, .sample 7399, .receive 3, .sample 7399]

theorem rewrites_le_climbing :
    1 ≤ (GaugeConfig.deadband {}).toNat
      ∧ .restart ∉ climbing
      ∧ (∀ t ∈ (start {} misfit).turns climbing, ∀ attempt ∈ t.attempts, attempt.error = none)
      ∧ ((start {} misfit).levels climbing = [51, 52, 53, 54])
      ∧ ((start {} misfit).rewrites climbing).length
          ≤ 1 + travel ((start {} misfit).levels climbing) / (GaugeConfig.deadband {}).toNat
      ∧ ∀ lo hi, hi - lo < (GaugeConfig.deadband {}).toNat →
        (∀ p ∈ (start {} misfit).levels climbing, lo ≤ p ∧ p ≤ hi) →
        ((start {} misfit).rewrites climbing).length ≤ 1 :=
  ⟨by decide, by decide, by decide +kernel, by decide +kernel,
    rewrites_le {} (by decide) misfit climbing (by decide) (by decide +kernel)⟩

end Instrument

end BatteryCare
