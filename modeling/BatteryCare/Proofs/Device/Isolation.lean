import BatteryCare.Proofs.Device.ChargerView
import BatteryCare.Proofs.Device.StorageView

/-!
# Storage does not reach the outside

Two devices that get the same inputs at the same times, and on which the faults of the flash change
in different ways, cannot be told apart from outside once the image is loaded: what a write comes to
is known to the storage alone. What the image says is known to the gauge and to all that depend on
the level, but not to the charger, so even on different flashes it is switched in the same way
(`isolated_storage`). This is said of the devices after any actions, so it holds at any instant: the
actions may end there.
-/

namespace BatteryCare

/-! ## What is seen of a journal -/

def Entry.report? (e : Entry) : Option Report := e.ticked?.map TickRecord.report

section Keep

variable (journal : List Stamped)

/-- What can be seen from outside does not come from the storage. -/
theorem filter_isVisible_keepEntries :
    (keepEntries Entry.withoutStorage? journal).filter (·.entry.isVisible)
      = journal.filter (·.entry.isVisible) := by
  induction journal with
  | nil => rfl
  | cons s rest ih =>
    obtain ⟨time, entry⟩ := s
    rw [keepEntries] at ih ⊢
    cases entry with
    | loaded _ | committed _ _ => exact ih
    | ticked _ | booted | sent _ _ | handled _ | shown _ => exact ih
    | enablePin _ | modePin _ | lamp _ => exact congrArg (List.cons _) ih

/-- Neither do the reports. -/
theorem timed_report?_keepEntries :
    timed Entry.report? (keepEntries Entry.withoutStorage? journal)
      = timed Entry.report? journal := by
  rw [timed, keepEntries, List.filterMap_filterMap]
  refine List.filterMap_congr fun s _ => ?_
  obtain ⟨time, entry⟩ := s
  cases entry with
  | loaded _ | committed _ _ | ticked _ | booted | sent _ _ | handled _ | shown _ | enablePin _
  | modePin _ | lamp _ => rfl

theorem keepEntries_pin? : keepEntries Entry.pin? journal = journal.filter (·.entry.isPin) := by
  rw [← List.filterMap_eq_filter, keepEntries]
  refine List.filterMap_congr fun s _ => ?_
  obtain ⟨time, entry⟩ := s
  cases entry with
  | loaded _ | committed _ _ | ticked _ | booted | sent _ _ | handled _ | shown _ | enablePin _
  | modePin _ | lamp _ => rfl

end Keep

namespace Device

/-- Two devices cannot be told apart from outside. -/
structure LooksAlike (d e : Device) : Prop where
  clock : d.clock = e.clock
  /-- Charger pins and lights were set in the same way at the same times. -/
  visible : d.journal.filter (·.entry.isVisible) = e.journal.filter (·.entry.isVisible)
  status : d.status = e.status
  reports : timed Entry.report? d.journal = timed Entry.report? e.journal
  /-- The same events wait. -/
  events : d.events = e.events

/-- Two devices charge in the same way. -/
structure ChargesAlike (d e : Device) : Prop where
  clock : d.clock = e.clock
  /-- The charger pins were set in the same way at the same times. -/
  pins : d.journal.filter (·.entry.isPin) = e.journal.filter (·.entry.isPin)
  power : d.status.power = e.status.power
  chargeType : d.status.chargeType = e.status.chargeType

variable {d e : Device}

theorem looksAlike_of_withoutStorage (h : d.withoutStorage = e.withoutStorage) :
    LooksAlike d e := by
  have hjournal : keepEntries Entry.withoutStorage? d.journal
      = keepEntries Entry.withoutStorage? e.journal := congrArg Device.journal h
  constructor
  · exact (congrArg Device.clock h :)
  · rw [← filter_isVisible_keepEntries, hjournal, filter_isVisible_keepEntries]
  · exact (congrArg Device.status h :)
  · rw [← timed_report?_keepEntries, hjournal, timed_report?_keepEntries]
  · exact (congrArg Device.events h :)

theorem chargesAlike_of_chargerOnly (h : d.chargerOnly = e.chargerOnly) : ChargesAlike d e where
  clock := (congrArg Device.clock h :)
  pins := by
    rw [← keepEntries_pin?, ← keepEntries_pin?]
    exact congrArg Device.journal h
  power := (congrArg (fun covered => covered.status.power) h :)
  chargeType := (congrArg (fun covered => covered.status.chargeType) h :)

/-! ## After the image is loaded -/

variable {roles : List Role}

/-- With all parts on board, the supervisor runs as soon as the image is loaded. -/
theorem inService_of_loaded (hroles : ∀ r, r ∈ roles) (board : Board) (clock : Nat)
    (journal : List Stamped) (actions : List Action)
    (hloaded : ((boot roles board clock journal).actAll actions).flashWriter ≠ .unloaded) :
    InService ((boot roles board clock journal).actAll actions) := by
  have hkept : Manned ((boot roles board clock journal).actAll actions)
      ∧ (((boot roles board clock journal).actAll actions).flashWriter ≠ .unloaded →
        ∃ v told due window, ((boot roles board clock journal).actAll actions).monitor
          = .waiting v told due window) := by
    refine actAll_induction (P := fun d => Manned d ∧ (d.flashWriter ≠ .unloaded →
      ∃ v told due window, d.monitor = .waiting v told due window)) ?_
      ⟨⟨ready_boot _ _ _ _, hroles⟩, fun h => absurd rfl h⟩
    rintro d ⟨h, hrunning⟩ a -
    refine ⟨⟨h.ready.act a, fun r => by rw [act_roles]; exact h.roles r⟩, fun hloaded => ?_⟩
    rcases d.act_cases a with ⟨ms, rfl⟩ | rfl | hsame
    · obtain ⟨v, told, due, window, hmonitor, -⟩ := h.ready.tickAhead_run (h.roles _) (h.roles _) ms
      exact ⟨v, told, due, window, hmonitor⟩
    · exact absurd rfl hloaded
    · rw [hsame.monitor]
      exact hrunning (hsame.flashWriter ▸ hloaded)
  exact ⟨hkept.1.ready, hkept.1.roles, hkept.2 hloaded⟩

/-! ## Two runs -/

/-- **Storage never matters to charging.** On devices with all parts that get the same inputs at the
same times, changes of the faults cannot be seen from outside once the image is loaded, until the
next power cycle. Even where the devices have different flashes from the start, they charge in the
same way, over power cycles too. -/
theorem isolated_storage (hroles : ∀ r, r ∈ roles) (board : Board) (clock : Nat)
    (journal : List Stamped) :
    (∀ before actions others : List Action,
      ((boot roles board clock journal).actAll before).flashWriter ≠ .unloaded →
      .restart ∉ actions → .restart ∉ others → withoutFaults actions = withoutFaults others →
        LooksAlike (((boot roles board clock journal).actAll before).actAll actions)
          (((boot roles board clock journal).actAll before).actAll others))
      ∧ ∀ (flash : Flash) (actions others : List Action),
        withoutFaults actions = withoutFaults others →
          ChargesAlike ((boot roles board clock journal).actAll actions)
            ((boot roles { board with flash } clock journal).actAll others) := by
  constructor
  · intro before actions others hloaded hactions hothers hsame
    have hservice := inService_of_loaded hroles board clock journal before hloaded
    exact looksAlike_of_withoutStorage (blind_withoutStorage.actAll_eq
      (fun a ha heq => hactions (heq ▸ ha)) (fun a ha heq => hothers (heq ▸ ha)) hsame hservice
      hservice rfl)
  · intro flash actions others hsame
    have hview := blind_chargerOnly.actAll_eq (fun _ _ => trivial) (fun _ _ => trivial) hsame
      (d := boot roles board clock journal) (e := boot roles { board with flash } clock journal)
      ⟨ready_boot _ _ _ _, hroles⟩ ⟨ready_boot _ _ _ _, hroles⟩ rfl
    exact chargesAlike_of_chargerOnly (congrArg Prod.fst hview)

theorem mem_allRoles (r : Role) :
    r ∈ [Role.dispatcher, .flashWriter, .monitor, .lamp, .button] := by
  cases r <;> decide

/-- A flash that stalls from the first second on, and one that cannot even be read at boot. -/
theorem isolated_storage_stalled :
    (∀ r : Role, r ∈ [Role.dispatcher, .flashWriter, .monitor, .lamp, .button])
      ∧ ((boot [.dispatcher, .flashWriter, .monitor, .lamp, .button] {} 0 []).actAll
          [.run 0]).flashWriter ≠ .unloaded
      ∧ LooksAlike
          (((boot [.dispatcher, .flashWriter, .monitor, .lamp, .button] {} 0 []).actAll
            [.run 0]).actAll [.run 1000, .setFaults true false false, .run 1000])
          (((boot [.dispatcher, .flashWriter, .monitor, .lamp, .button] {} 0 []).actAll
            [.run 0]).actAll [.run 2000])
      ∧ ChargesAlike
          ((boot [.dispatcher, .flashWriter, .monitor, .lamp, .button] {} 0 []).actAll
            [.plug true, .run 2000])
          ((boot [.dispatcher, .flashWriter, .monitor, .lamp, .button]
            { flash := { readFails := true } } 0 []).actAll [.plug true, .run 2000]) := by
  have hloaded : ((boot [.dispatcher, .flashWriter, .monitor, .lamp, .button] {} 0 []).actAll
      [.run 0]).flashWriter ≠ .unloaded := by decide
  obtain ⟨hlooks, hcharges⟩ := isolated_storage mem_allRoles {} 0 []
  exact ⟨mem_allRoles, hloaded, hlooks _ _ _ hloaded (by simp) (by simp) rfl, hcharges _ _ _ rfl⟩

end Device

end BatteryCare
