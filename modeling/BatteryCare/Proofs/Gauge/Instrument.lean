import BatteryCare.Proofs.Gauge.Restoring

/-!
# A gauge at work on its store

An instrument is a gauge beside the store of its record. Samples reach it, addresses of the store
become faulty and recover, the other end of a queue takes writes, and the gauge is replaced by a new
one that has only the store to go by. In any such run what the gauge knows of its record is what the
store holds, and its estimate is one that a pack can hold (`sound_run`).
-/

namespace BatteryCare

/-- A gauge and the store that it keeps its record in. -/
structure Instrument where
  gauge : Gauge
  store : Store

/-- What can happen to an instrument. -/
inductive Incident where
  /-- A voltage sample (mV). -/
  | sample (voltage : UInt16)
  /-- From now on these addresses cannot be read, and those not be written. -/
  | faults (reads writes : List UInt16)
  /-- Up to `n` writes are taken off the queue. -/
  | receive (n : Nat)
  /-- A new gauge takes the place of the old one. -/
  | restart
  deriving DecidableEq, Repr

namespace Instrument

def start (config : GaugeConfig) (store : Store) : Instrument := ⟨.restore config store, store⟩

def act (i : Instrument) : Incident → Instrument
  | .sample voltage =>
    ⟨(i.gauge.update i.store voltage).gauge, (i.gauge.update i.store voltage).store⟩
  | .faults reads writes =>
    { i with store := { i.store with faultyReads := reads, faultyWrites := writes } }
  | .receive n => { i with store := (i.store.receive n).2 }
  | .restart => start i.gauge.config i.store

/-- The writes that an incident makes the gauge try. -/
def attempts (i : Instrument) : Incident → List WriteAttempt
  | .sample voltage => (i.gauge.update i.store voltage).attempts
  | _ => []

def run (i : Instrument) (incidents : List Incident) : Instrument := incidents.foldl act i

@[simp] theorem run_nil (i : Instrument) : i.run [] = i := rfl

@[simp] theorem run_cons (i : Instrument) (x : Incident) (rest : List Incident) :
    i.run (x :: rest) = (i.act x).run rest := rfl

theorem run_append (i : Instrument) (xs ys : List Incident) :
    i.run (xs ++ ys) = (i.run xs).run ys :=
  List.foldl_append

theorem config_act (i : Instrument) (x : Incident) : (i.act x).gauge.config = i.gauge.config := by
  cases x with
  | sample voltage => exact (Gauge.update_move i.gauge i.store voltage).config_eq
  | restart => exact Gauge.restore_config _ _
  | faults _ _ => rfl
  | receive _ => rfl

theorem config_run (i : Instrument) (incidents : List Incident) :
    (i.run incidents).gauge.config = i.gauge.config := by
  induction incidents generalizing i with
  | nil => rfl
  | cons x rest ih => rw [run_cons, ih, config_act]

theorem config_run_start (config : GaugeConfig) (store : Store) (incidents : List Incident) :
    ((start config store).run incidents).gauge.config = config :=
  (config_run _ _).trans (Gauge.restore_config config store)

/-! ## What happened so far -/

/-- An incident and the instrument that it happens to. -/
structure Turn where
  before : Instrument
  incident : Incident

namespace Turn

def after (t : Turn) : Instrument := t.before.act t.incident

def attempts (t : Turn) : List WriteAttempt := t.before.attempts t.incident

/-- What the gauge shows after a sample that it accepts. -/
def measured? (t : Turn) : Option Estimate :=
  match t.incident with
  | .sample voltage =>
    if Gauge.isPlausible t.before.gauge.config voltage then t.after.gauge.estimate? else none
  | _ => none

end Turn

def turns (i : Instrument) : List Incident → List Turn
  | [] => []
  | x :: rest => ⟨i, x⟩ :: (i.act x).turns rest

/-- The estimates that the accepted samples of a run led to. -/
def estimates (i : Instrument) (incidents : List Incident) : List Estimate :=
  (i.turns incidents).filterMap Turn.measured?

/-- The writes of a run that came through. -/
def written (i : Instrument) (incidents : List Incident) : List WordWrite :=
  Store.accepted ((i.turns incidents).flatMap Turn.attempts)

theorem turns_concat (i : Instrument) (xs : List Incident) (x : Incident) :
    i.turns (xs ++ [x]) = i.turns xs ++ [⟨i.run xs, x⟩] := by
  induction xs generalizing i with
  | nil => rfl
  | cons y ys ih => rw [List.cons_append, turns, ih, turns, run_cons, List.cons_append]

theorem estimates_concat (i : Instrument) (xs : List Incident) (x : Incident) :
    i.estimates (xs ++ [x]) = i.estimates xs ++ (Turn.measured? ⟨i.run xs, x⟩).toList := by
  rw [estimates, turns_concat, List.filterMap_append, estimates]
  congr 1

theorem written_concat (i : Instrument) (xs : List Incident) (x : Incident) :
    i.written (xs ++ [x]) = i.written xs ++ Store.accepted ((i.run xs).attempts x) := by
  rw [written, turns_concat, List.flatMap_append, Store.accepted, List.filter_append,
    List.map_append, List.flatMap_singleton]
  rfl

end Instrument

/-! ## What the gauge knows -/

namespace Gauge

/-- What is known of the record is what the store holds. -/
def Knows (g : Gauge) (s : Store) : Prop :=
  List.Forall₂ (fun addr cached => ∀ word ∈ cached, s.word? addr = some word)
    (recordAddrs g.config.recordBase) g.cache

variable {g : Gauge} {s s' : Store}

theorem Knows.length_cache (h : g.Knows s) : g.cache.length = 3 := h.length_eq.symm

theorem knows_of_nothing (config : GaugeConfig) (s : Store) : ({ config } : Gauge).Knows s :=
  .cons nofun (.cons nofun (.cons nofun .nil))

theorem knows_restored {config : GaugeConfig} {c p : UInt16}
    (h : s.Holds config.recordBase [Estimate.marker, c, p]) : (restored config c p).Knows s := by
  rw [Store.Holds, ← List.forall₂_eq_eq_eq, List.forall₂_map_left_iff,
    List.forall₂_map_right_iff] at h
  change List.Forall₂ _ _ ([Estimate.marker, c, p].map some)
  rw [List.forall₂_map_right_iff]
  exact h.imp fun addr word hword other hother => by rw [hword, Option.mem_some_iff.mp hother]

theorem Knows.congr (h : g.Knows s) (hwords : ∀ addr, s'.word? addr = s.word? addr) : g.Knows s' :=
  h.imp fun addr _ hcached word hword => (hwords addr).trans (hcached word hword)

theorem Knows.holds (h : g.Knows s) (words : List UInt16) (hcache : g.cache = words.map some) :
    s.Holds g.config.recordBase words := by
  rw [Knows, hcache, List.forall₂_map_right_iff] at h
  rw [Store.Holds, ← List.forall₂_eq_eq_eq, List.forall₂_map_left_iff, List.forall₂_map_right_iff]
  exact h.imp fun _ word hword => hword word rfl

/-! ### The slots of a record -/

theorem slots_eq {first charge percent : Option UInt16} (h : g.cache = [first, charge, percent])
    (e : Estimate) : g.slots e
      = [⟨g.config.recordBase, first, Estimate.marker⟩,
        ⟨g.config.recordBase + 1, charge, e.chargeWord⟩,
        ⟨g.config.recordBase + 2, percent, e.percent.toUInt16⟩] := by
  rw [slots, h]
  rfl

theorem map_addr_slots (h : g.cache.length = 3) (e : Estimate) :
    (g.slots e).map Slot.addr = recordAddrs g.config.recordBase := by
  obtain ⟨first, charge, percent, hcache⟩ := List.length_eq_three.mp h
  rw [slots_eq hcache]
  rfl

theorem map_cached_slots (h : g.cache.length = 3) (e : Estimate) :
    (g.slots e).map Slot.cached = g.cache := by
  obtain ⟨first, charge, percent, hcache⟩ := List.length_eq_three.mp h
  rw [slots_eq hcache, hcache]
  rfl

theorem map_value_slots (h : g.cache.length = 3) (e : Estimate) :
    (g.slots e).map Slot.value = e.words := by
  obtain ⟨first, charge, percent, hcache⟩ := List.length_eq_three.mp h
  rw [slots_eq hcache]
  rfl

theorem mem_zip_of_mem_zip_zip {α β γ : Type} {xs : List α} {ys : List β} {zs : List γ}
    {a : α} {b : β} {c : γ} (h : (a, b, c) ∈ xs.zip (ys.zip zs)) : (a, c) ∈ xs.zip zs := by
  induction xs generalizing ys zs with
  | nil => exact absurd h (by simp)
  | cons x xs ih =>
    cases ys with
    | nil => exact absurd h (by simp)
    | cons y ys =>
      cases zs with
      | nil => exact absurd h (by simp)
      | cons z zs =>
        rcases List.mem_cons.mp h with heq | hmem
        · cases heq
          exact List.mem_cons_self
        · exact List.mem_cons_of_mem _ (ih hmem)

theorem mem_zip_of_mem_slots {e : Estimate} {slot : Slot} (h : slot ∈ g.slots e) :
    (slot.addr, slot.value) ∈ (recordAddrs g.config.recordBase).zip e.words := by
  obtain ⟨⟨addr, cached, value⟩, hmem, rfl⟩ := List.mem_map.mp h
  exact mem_zip_of_mem_zip_zip hmem

/-- What a sample makes the gauge write is the record of the new estimate. -/
theorem Move.mem_record {voltage : UInt16} {outcome : Outcome} (h : Move g s voltage outcome)
    {attempt : WriteAttempt} (hmem : attempt ∈ outcome.attempts) :
    isPlausible g.config voltage = true ∧ (attempt.write.addr, attempt.write.value)
      ∈ (recordAddrs g.config.recordBase).zip (g.aimed voltage).words := by
  cases h with
  | reject hv => exact absurd hmem List.not_mem_nil
  | keep hv hk => exact absurd hmem List.not_mem_nil
  | save hv hk =>
    obtain ⟨slot, hslot, hwrite⟩ := Store.wanted_of_mem_attempts attempt hmem
    rw [hwrite]
    exact ⟨hv, mem_zip_of_mem_slots hslot⟩

theorem Knows.isTrue (h : g.Knows s) (e : Estimate) : ∀ slot ∈ g.slots e, slot.IsTrue s := by
  have hlength := h.length_cache
  rw [Knows, ← map_addr_slots hlength e, ← map_cached_slots hlength e, List.forall₂_map_left_iff,
    List.forall₂_map_right_iff, List.forall₂_same] at h
  exact h

theorem Knows.nodup (h : g.Knows s) (e : Estimate) : ((g.slots e).map Slot.addr).Nodup := by
  rw [map_addr_slots h.length_cache]
  exact recordAddrs_nodup _

theorem Knows.saves (h : g.Knows s) (e : Estimate) : ∃ saved left, g.slots e = saved ++ left
    ∧ Reaches s saved left (s.save (g.slots e)) :=
  Store.save_reaches (h.nodup e) (h.isTrue e)

/-- **Saving keeps what is known true, whichever write fails.** -/
theorem Knows.save (h : g.Knows s) {e : Estimate} {saved left : List Slot} {r : Saved}
    (hslots : g.slots e = saved ++ left) (hreaches : Reaches s saved left r) :
    List.Forall₂ (fun addr cached => ∀ word ∈ cached, r.store.word? addr = some word)
      (recordAddrs g.config.recordBase) r.cache := by
  rw [← map_addr_slots h.length_cache e, hslots]
  refine hreaches.forall₂_cache (hslots ▸ h.nodup e) fun slot hmem => h.isTrue e slot ?_
  rw [hslots]
  exact List.mem_append_right _ hmem

end Gauge

/-! ## Every run is sound -/

namespace Instrument

/-- What the gauge knows and shows can be relied on. -/
structure Sound (i : Instrument) : Prop where
  knows : i.gauge.Knows i.store
  shows : i.gauge.ShowsPack

inductive Sampled (i : Instrument) (voltage : UInt16) : Prop
  /-- It is turned away. -/
  | reject (hv : Gauge.isPlausible i.gauge.config voltage = false)
      (hact : i.act (.sample voltage) = i) (htried : i.attempts (.sample voltage) = [])
  /-- The stored record is close enough. -/
  | keep (hv : Gauge.isPlausible i.gauge.config voltage = true)
      (hk : i.gauge.isKept (i.gauge.aimed voltage).percent = true)
      (hact : i.act (.sample voltage) = ⟨i.gauge.measure voltage, i.store⟩)
      (htried : i.attempts (.sample voltage) = [])
  /-- The record is saved, as far as the store lets it. -/
  | save (hv : Gauge.isPlausible i.gauge.config voltage = true)
      (hk : i.gauge.isKept (i.gauge.aimed voltage).percent = false)
      (saved left : List Slot) (hslots : i.gauge.slots (i.gauge.aimed voltage) = saved ++ left)
      (r : Saved) (hreaches : Reaches i.store saved left r)
      (hact : i.act (.sample voltage)
        = ⟨{ i.gauge.measure voltage with cache := r.cache }, r.store⟩)
      (htried : i.attempts (.sample voltage) = r.attempts)

theorem Sound.sampled {i : Instrument} (h : i.Sound) (voltage : UInt16) : Sampled i voltage := by
  have hact : i.act (.sample voltage) = ⟨(i.gauge.update i.store voltage).gauge,
    (i.gauge.update i.store voltage).store⟩ := rfl
  have htried : i.attempts (.sample voltage) = (i.gauge.update i.store voltage).attempts := rfl
  have hmove := Gauge.update_move i.gauge i.store voltage
  generalize i.gauge.update i.store voltage = out at hact htried hmove
  cases hmove with
  | reject hv => exact .reject hv hact htried
  | keep hv hk => exact .keep hv hk hact htried
  | save hv hk =>
    obtain ⟨saved, left, hslots, hreaches⟩ := h.knows.saves (i.gauge.aimed voltage)
    exact .save hv hk saved left hslots _ hreaches hact htried

theorem Sound.estimate?_of_plausible {i : Instrument} (h : i.Sound) (voltage : UInt16)
    (hv : Gauge.isPlausible i.gauge.config voltage) :
    (i.act (.sample voltage)).gauge.estimate? = some (i.gauge.aimed voltage) := by
  cases h.sampled voltage with
  | reject hv' => exact absurd hv (by rw [hv']; nofun)
  | keep _ _ hact => rw [hact]; rfl
  | save _ _ _ _ _ _ _ hact => rw [hact]; rfl

theorem Sound.measured?_of_plausible {i : Instrument} (h : i.Sound) (voltage : UInt16)
    (hv : Gauge.isPlausible i.gauge.config voltage) :
    Turn.measured? ⟨i, .sample voltage⟩ = some (i.gauge.aimed voltage) :=
  (if_pos hv).trans (h.estimate?_of_plausible voltage hv)

theorem sound_start (config : GaugeConfig) (store : Store) : (start config store).Sound := by
  rw [start]
  obtain h | ⟨c, p, hc, hholds, h⟩ := Gauge.restore_cases config store
  · rw [h]
    exact ⟨Gauge.knows_of_nothing _ _, fun e he => by cases he⟩
  · rw [h]
    refine ⟨Gauge.knows_restored hholds, fun e he => ?_⟩
    cases he
    exact ⟨rfl, inPack_ofNat hc⟩

theorem Sound.act {i : Instrument} (h : i.Sound) (x : Incident) : (i.act x).Sound := by
  cases x with
  | faults reads writes => exact ⟨h.knows.congr fun _ => rfl, h.shows⟩
  | receive n => exact ⟨h.knows.congr (Store.word?_receive _ _), h.shows⟩
  | restart => exact sound_start _ _
  | sample voltage =>
    have hshows : (i.gauge.measure voltage).ShowsPack := by
      intro e he
      cases he
      exact ⟨rfl, Gauge.inPack_aim h.shows voltage⟩
    cases h.sampled voltage with
    | reject hv hact htried =>
      rw [hact]
      exact h
    | keep hv hk hact htried =>
      rw [hact]
      exact ⟨h.knows, hshows⟩
    | save hv hk saved left hslots r hreaches hact htried =>
      rw [hact]
      exact ⟨h.knows.save hslots hreaches, hshows⟩

/-- **What an incident does to a word of the store.** A write of it comes through, with the value
that the word has in the record of an accepted sample, or the word stays as it is. -/
theorem Sound.written_or_kept {i : Instrument} (h : i.Sound) (x : Incident) (addr : UInt16) :
    (∃ e ∈ Turn.measured? ⟨i, x⟩, ∃ value,
        (addr, value) ∈ (recordAddrs i.gauge.config.recordBase).zip e.words
        ∧ ⟨addr, value⟩ ∈ Store.accepted (i.attempts x)
        ∧ (i.act x).store.word? addr = some value)
      ∨ (∀ w ∈ Store.accepted (i.attempts x), w.addr ≠ addr)
        ∧ (i.act x).store.word? addr = i.store.word? addr := by
  cases x with
  | faults _ _ => exact .inr ⟨nofun, rfl⟩
  | receive n => exact .inr ⟨nofun, Store.word?_receive _ _ _⟩
  | restart => exact .inr ⟨nofun, rfl⟩
  | sample voltage =>
    cases h.sampled voltage with
    | reject hv hact htried =>
      rw [hact, htried]
      exact .inr ⟨nofun, rfl⟩
    | keep hv hk hact htried =>
      rw [hact, htried]
      exact .inr ⟨nofun, rfl⟩
    | save hv hk saved left hslots r hreaches hact htried =>
      have hlength := h.knows.length_cache
      rw [hact, htried]
      by_cases hmem : addr ∈ (saved ++ left).map Slot.addr
      · obtain ⟨slot, hslot, rfl⟩ := List.mem_map.mp hmem
        refine (hreaches.written_or_kept (hslots ▸ h.knows.nodup _) (fun slot hsaved =>
          h.knows.isTrue _ slot (hslots ▸ List.mem_append_left _ hsaved)) hslot).imp_left ?_
        rintro ⟨hwritten, hword⟩
        refine ⟨i.gauge.aimed voltage, h.measured?_of_plausible voltage hv, slot.value, ?_,
          hwritten, hword⟩
        rw [← Gauge.map_addr_slots hlength (i.gauge.aimed voltage), ← Gauge.map_value_slots hlength,
          List.zip_map', hslots]
        exact List.mem_map.mpr ⟨slot, hslot, rfl⟩
      · -- the word is none of the record's
        refine .inr ⟨fun w hw haddr => hmem ?_, hreaches.others addr fun hsaved => hmem ?_⟩
        · rw [hreaches.accepted_attempts, List.mem_map] at hw
          obtain ⟨slot, hslot, rfl⟩ := hw
          rw [← haddr]
          exact List.mem_map_of_mem (List.mem_append_left _ (List.mem_filter.mp hslot).1)
        · rw [List.map_append]
          exact List.mem_append_left _ hsaved

theorem Sound.run {i : Instrument} (h : i.Sound) (incidents : List Incident) :
    (i.run incidents).Sound := by
  induction incidents generalizing i with
  | nil => exact h
  | cons x rest ih => exact ih (h.act x)

/-- **In every run the gauge knows what the store holds.** -/
theorem sound_run (config : GaugeConfig) (store : Store) (incidents : List Incident) :
    ((start config store).run incidents).Sound :=
  (sound_start config store).run incidents

/-- **Where the words of the store come from after a run.** A word was written for the record of an
accepted sample, or never written and is the first one. -/
theorem written_or_kept_run (config : GaugeConfig) (store : Store) (incidents : List Incident)
    (addr : UInt16) :
    (∃ e ∈ (start config store).estimates incidents, ∃ value,
        (addr, value) ∈ (recordAddrs config.recordBase).zip e.words
        ∧ ⟨addr, value⟩ ∈ (start config store).written incidents
        ∧ ((start config store).run incidents).store.word? addr = some value)
      ∨ (∀ w ∈ (start config store).written incidents, w.addr ≠ addr)
        ∧ ((start config store).run incidents).store.word? addr = store.word? addr := by
  induction incidents using List.reverseRecOn with
  | nil => exact .inr ⟨nofun, rfl⟩
  | append_singleton xs x ih =>
    have hconfig := config_run_start config store xs
    rw [run_append, run_cons, run_nil, written_concat, estimates_concat]
    obtain ⟨e, he, value, hrecord, hwritten, hword⟩ | ⟨hkept, hword⟩ :=
      (sound_run config store xs).written_or_kept x addr
    · rw [hconfig] at hrecord
      exact .inl ⟨e, List.mem_append_right _ (Option.mem_toList.mpr he), value, hrecord,
        List.mem_append_right _ hwritten, hword⟩
    · rw [hword]
      refine ih.imp ?_ (And.imp_left fun hpast w hw => ?_)
      · rintro ⟨e, he, value, hrecord, hwritten, hpast⟩
        exact ⟨e, List.mem_append_left _ he, value, hrecord, List.mem_append_left _ hwritten, hpast⟩
      · exact (List.mem_append.mp hw).elim (hpast w) (hkept w)

theorem inPack_of_mem_estimates {config : GaugeConfig} {store : Store} {incidents : List Incident}
    {e : Estimate} (he : e ∈ (start config store).estimates incidents) : InPack e.charge := by
  induction incidents using List.reverseRecOn with
  | nil => exact absurd he List.not_mem_nil
  | append_singleton xs x ih =>
    rw [estimates_concat] at he
    refine (List.mem_append.mp he).elim ih fun hlast => ?_
    cases x with
    | faults _ _ => exact absurd hlast List.not_mem_nil
    | receive _ => exact absurd hlast List.not_mem_nil
    | restart => exact absurd hlast List.not_mem_nil
    | sample voltage =>
      have h := sound_run config store xs
      by_cases hv : Gauge.isPlausible ((start config store).run xs).gauge.config voltage
      · rw [h.measured?_of_plausible voltage hv] at hlast
        cases List.mem_singleton.mp hlast
        exact Gauge.inPack_aim h.shows voltage
      · have hnone : Turn.measured? ⟨(start config store).run xs, .sample voltage⟩ = none :=
          if_neg hv
        rw [hnone] at hlast
        exact absurd hlast List.not_mem_nil

end Instrument

end BatteryCare
