import BatteryCare.Gauge

/-!
# What the gauge can do with a sample

`Gauge.update` is taken apart once, here. A sample is turned away, or the gauge takes it and either
leaves the stored record alone or saves the new one (`update_move`).
-/

namespace BatteryCare

namespace Gauge

/-- The charge that a plausible sample leads to. -/
def aim (g : Gauge) (voltage : UInt16) : Single :=
  if g.settling then settleTowards g.config g.charge (chargeOf voltage) else chargeOf voltage

def aimed (g : Gauge) (voltage : UInt16) : Estimate := .ofCharge (g.aim voltage)

/-- The gauge with a plausible sample, before it sees to the stored record. -/
def measure (g : Gauge) (voltage : UInt16) : Gauge :=
  { g with
    knowledge := .measured voltage (g.aimed voltage)
    settling := g.settling && g.aim voltage ≠ chargeOf voltage }

def saving (g : Gauge) (store : Store) (e : Estimate) : Outcome :=
  ⟨{ g with cache := (store.save (g.slots e)).cache }, (store.save (g.slots e)).store,
    (store.save (g.slots e)).attempts⟩

/-- The moves of the gauge on one sample, each with its outcome. -/
inductive Move (g : Gauge) (store : Store) (voltage : UInt16) : Outcome → Prop
  /-- The sample is turned away. -/
  | reject (hv : isPlausible g.config voltage = false) : Move g store voltage ⟨g, store, []⟩
  /-- The stored record is close enough. -/
  | keep (hv : isPlausible g.config voltage = true)
      (hk : (g.measure voltage).isKept (g.aimed voltage).percent = true) :
      Move g store voltage ⟨g.measure voltage, store, []⟩
  /-- The record is saved. -/
  | save (hv : isPlausible g.config voltage = true)
      (hk : (g.measure voltage).isKept (g.aimed voltage).percent = false) :
      Move g store voltage ((g.measure voltage).saving store (g.aimed voltage))

/-- **Every sample is one of the moves.** -/
theorem update_move (g : Gauge) (store : Store) (voltage : UInt16) :
    Move g store voltage (g.update store voltage) := by
  rw [update]
  split
  · rename_i hv
    change Move g store voltage
      (if (g.measure voltage).isKept (g.aimed voltage).percent then ⟨g.measure voltage, store, []⟩
        else (g.measure voltage).saving store (g.aimed voltage))
    split
    · rename_i hk
      exact Move.keep hv hk
    · rename_i hk
      exact Move.save hv (by simpa using hk)
  · rename_i hv
    exact Move.reject (by simpa using hv)

theorem update_of_rejected {g : Gauge} {voltage : UInt16}
    (h : isPlausible g.config voltage = false) (store : Store) :
    g.update store voltage = ⟨g, store, []⟩ := by
  rw [update, if_neg (by rw [h]; exact Bool.false_ne_true)]

theorem Move.config_eq {g : Gauge} {store : Store} {voltage : UInt16} {outcome : Outcome}
    (h : Move g store voltage outcome) : outcome.gauge.config = g.config := by
  cases h <;> rfl

/-- A plausible sample shows in the estimate, whatever becomes of the record. -/
theorem Move.measured {g : Gauge} {store : Store} {voltage : UInt16} {outcome : Outcome}
    (h : Move g store voltage outcome) (hv : isPlausible g.config voltage = true) :
    outcome.gauge.knowledge = .measured voltage (g.aimed voltage)
      ∧ outcome.gauge.settling = (g.settling && g.aim voltage ≠ chargeOf voltage) := by
  cases h with
  | reject hv' => exact absurd hv (by rw [hv']; nofun)
  | keep hv hk => exact ⟨rfl, rfl⟩
  | save hv hk => exact ⟨rfl, rfl⟩

theorem restore_config (config : GaugeConfig) (store : Store) :
    (restore config store).config = config := by
  unfold restore
  split
  · rfl
  · split
    · rfl
    · rfl

/-- What a gauge restores depends on the three words of the record only. -/
theorem restore_congr {config : GaugeConfig} {s s' : Store}
    (h : ∀ addr ∈ recordAddrs config.recordBase, s.read addr = s'.read addr) :
    restore config s = restore config s' := by
  have hwords : s.readAll? (recordAddrs config.recordBase)
      = s'.readAll? (recordAddrs config.recordBase) := by
    simp only [recordAddrs, List.forall_mem_cons] at h
    obtain ⟨hfirst, hsecond, hthird, _⟩ := h
    simp only [Store.readAll?, recordAddrs, List.mapM_cons, List.mapM_nil, hfirst, hsecond, hthird]
  rw [restore, restore, hwords]

end Gauge

end BatteryCare
