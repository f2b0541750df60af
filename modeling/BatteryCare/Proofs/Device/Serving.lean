import BatteryCare.Proofs.Button.Phases

/-!
# Serving the button

The button tells its wishes as events, and the dispatcher takes them into the status. Here the
button is followed through the turns of a device (`Serves`): between any two of them, the wishes
told since boot and those that its phase still holds are the wishes of the waveform, and the status
agrees with the ones told, once the events that wait are heard.

A round starts with the dispatcher, and a tick sends four events at most, so the button always finds
room in the queue: no wish is lost or told late. A settled device has heard all of them.
-/

namespace BatteryCare

/-! ## Wishes in the journal -/

def Entry.wish? : Entry → Option Wish
  | .sent (.powerSet _) true => some .power
  | .sent (.chargeTypeSet _) true => some .chargeType
  | _ => none

def Stamped.wish? (s : Stamped) : Option (Nat × Wish) := s.entry.wish?.map (s.time, ·)

/-- The wishes that have become events since an earlier moment, in order. -/
def Device.wishesSince (d earlier : Device) : List (Nat × Wish) :=
  (d.entriesSince earlier).filterMap Stamped.wish?

/-- How often this was asked for. -/
def timesAsked (w : Wish) (told : List (Nat × Wish)) : Nat := (told.map Prod.snd).count w

/-- The power state after these wishes. -/
def powerAfter (told : List (Nat × Wish)) : PowerState :=
  if timesAsked .power told % 2 = 1 then .on else .off

/-- The charge type after these wishes. -/
def chargeTypeAfter (told : List (Nat × Wish)) : ChargeType :=
  if timesAsked .chargeType told % 2 = 1 then .batteryFriendly else .fastCharge

theorem timesAsked_concat (w v : Wish) (told : List (Nat × Wish)) (now : Nat) :
    timesAsked w (told ++ [(now, v)]) = timesAsked w told + if v = w then 1 else 0 := by
  rw [timesAsked, List.map_append, List.count_append, timesAsked]
  by_cases h : v = w
  · simp [h]
  · simp [h]

theorem powerAfter_concat (told : List (Nat × Wish)) (now : Nat) (w : Wish) :
    powerAfter (told ++ [(now, w)])
      = if w = .power then (powerAfter told).pressed else powerAfter told := by
  rw [powerAfter, timesAsked_concat, powerAfter]
  by_cases hw : w = .power
  · rw [if_pos hw, if_pos hw]
    by_cases hodd : timesAsked .power told % 2 = 1
    · rw [if_pos hodd, if_neg (by omega)]
      rfl
    · rw [if_neg hodd, if_pos (by omega)]
      rfl
  · rw [if_neg hw, if_neg hw, Nat.add_zero]

theorem chargeTypeAfter_concat (told : List (Nat × Wish)) (now : Nat) (w : Wish) :
    chargeTypeAfter (told ++ [(now, w)])
      = if w = .chargeType then (chargeTypeAfter told).toggled else chargeTypeAfter told := by
  rw [chargeTypeAfter, timesAsked_concat, chargeTypeAfter]
  by_cases hw : w = .chargeType
  · rw [if_pos hw, if_pos hw]
    by_cases hodd : timesAsked .chargeType told % 2 = 1
    · rw [if_pos hodd, if_neg (by omega)]
      rfl
    · rw [if_neg hodd, if_pos (by omega)]
      rfl
  · rw [if_neg hw, if_neg hw, Nat.add_zero]

/-- A wish turns to the other state of what it is about, and leaves the other one alone. -/
theorem hear_event (w : Wish) {told : List (Nat × Wish)} {status seen : Status} (now : Nat)
    (hpower : status.power = powerAfter told) (htype : status.chargeType = chargeTypeAfter told)
    (hseen : seen.power = status.power) (hseen' : seen.chargeType = status.chargeType) :
    (status.hear (w.event seen)).power = powerAfter (told ++ [(now, w)])
      ∧ (status.hear (w.event seen)).chargeType = chargeTypeAfter (told ++ [(now, w)]) := by
  rw [powerAfter_concat, chargeTypeAfter_concat, ← hpower, ← htype]
  cases w with
  | power => exact ⟨congrArg PowerState.pressed hseen, rfl⟩
  | chargeType => exact ⟨rfl, congrArg ChargeType.toggled hseen'⟩

/-! ## Everything else -/

/-- Only wishes reach the power state and the charge type. -/
theorem Status.hear_of_not_isWish {s : Status} {event : Event} (h : ¬ event.IsWish) :
    (s.hear event).power = s.power ∧ (s.hear event).chargeType = s.chargeType := by
  cases event with
  | powerSet _ | chargeTypeSet _ => exact absurd trivial h
  | measured _ | fullyCharged | lowBattery _ => exact ⟨rfl, rfl⟩

theorem Status.foldl_hear_of_not_isWish {events : List Event} {s : Status}
    (h : ∀ event ∈ events, ¬ event.IsWish) :
    (events.foldl Status.hear s).power = s.power
      ∧ (events.foldl Status.hear s).chargeType = s.chargeType := by
  induction events generalizing s with
  | nil => exact ⟨rfl, rfl⟩
  | cons event rest ih =>
    obtain ⟨hpower, htype⟩ := ih (s := s.hear event) fun e he => h e (List.mem_cons_of_mem event he)
    obtain ⟨hpower', htype'⟩ := hear_of_not_isWish (s := s) (h event List.mem_cons_self)
    exact ⟨hpower.trans hpower', htype.trans htype'⟩

theorem Entry.IsUpkeep.wish?_eq_none {e : Entry} (h : e.IsUpkeep) : e.wish? = none := by
  cases e with
  | loaded _ | committed _ _ | shown _ | lamp _ => rfl
  | booted | enablePin _ | modePin _ | ticked _ | sent _ _ | handled _ => exact h.elim

theorem Entry.wish?_sent {event : Event} (h : ¬ event.IsWish) (queued : Bool) :
    (Entry.sent event queued).wish? = none := by
  cases event with
  | powerSet _ | chargeTypeSet _ => exact absurd trivial h
  | measured _ | fullyCharged | lowBattery _ => rfl

namespace Monitor

theorem not_isWish_of_mem_eventsOf {t : Tick} {event : Event} (h : event ∈ eventsOf t) :
    ¬ event.IsWish := by
  rw [eventsOf, List.mem_append, List.mem_append] at h
  rcases h with (h | h) | h
  · split at h
    · rw [List.mem_singleton.mp h]
      exact id
    · exact absurd h (by simp)
  · obtain ⟨level, -, rfl⟩ := List.mem_map.mp h
    exact id
  · rw [List.mem_singleton.mp h]
    exact id

theorem wish?_of_mem_pins {calls : List CircuitCall} {e : Entry} (h : e ∈ calls.flatMap pins) :
    e.wish? = none := by
  obtain ⟨call, -, h⟩ := List.mem_flatMap.mp h
  cases call with
  | enable mode =>
    simp only [pins, List.mem_cons, List.not_mem_nil, or_false] at h
    rcases h with rfl | rfl
    · rfl
    · rfl
  | disable =>
    rw [List.mem_singleton.mp h]
    rfl
  | fullCharge => exact absurd h (by simp [pins])

variable (now : Nat) (sensed : Sensed) (status : Status) (store : Store) {events : Fifo Event}
  (v : Supervisor) (told : PowerState)

/-- A tick notes no wish. -/
theorem wish?_of_mem_tick {e : Entry}
    (h : e ∈ (tick now sensed status store events v told).entries) : e.wish? = none := by
  rcases List.mem_append.mp h with h | h
  · rcases List.mem_cons.mp h with rfl | h
    · rfl
    · exact wish?_of_mem_pins h
  · obtain ⟨event, hevent, queued, rfl⟩ := eq_sent_of_mem_sendAll h
    exact Entry.wish?_sent (not_isWish_of_mem_eventsOf hevent) queued

/-- An empty queue takes all that a tick sends. -/
theorem events_tick (hempty : events.toList = []) (hroom : events.capacity = eventCapacity) :
    (tick now sensed status store events v told).events.toList
        = eventsOf (outcome now sensed status store v told)
      ∧ (tick now sensed status store events v told).events.capacity = eventCapacity
      ∧ (eventsOf (outcome now sensed status store v told)).length ≤ 4 := by
  have hlength := length_eventsOf_tick (informed now status v told) store
    (sensed.sample status.chargeType.mode) (.ofNat now)
  have hspace : events.toList.length
      + (eventsOf (outcome now sensed status store v told)).length ≤ events.capacity := by
    rw [hempty, hroom, eventCapacity, List.length_nil, outcome]
    omega
  obtain ⟨hsent, hcapacity⟩ := sendAll_of_room hspace
  rw [hempty, List.nil_append] at hsent
  exact ⟨hsent, hcapacity.trans hroom, hlength⟩

end Monitor

namespace Device

/-- No wish waits for the dispatcher. -/
def NoWish (d : Device) : Prop := ∀ event ∈ d.events.toList, ¬ event.IsWish

/-- The entries tell of no wish. -/
def Wishless (d d' : Device) : Prop :=
  ∃ entries : List Entry, d'.journal = (entries.map (Stamped.mk d.clock)).reverse ++ d.journal
    ∧ ∀ e ∈ entries, e.wish? = none

/-- A turn of the monitor sends a few events, none of them a wish. -/
theorem pollMonitor_events {d : Device} (hempty : d.events.toList = [])
    (hroom : d.events.capacity = eventCapacity) :
    d.pollMonitor.events.capacity = eventCapacity ∧ d.pollMonitor.events.toList.length ≤ 4
      ∧ NoWish d.pollMonitor ∧ Wishless d d.pollMonitor := by
  have hmove := Monitor.poll_move d.clock d.board d.status d.store d.events d.monitor
  rw [Device.pollMonitor]
  generalize Monitor.poll d.clock d.board d.status d.store d.events d.monitor = turn
    at hmove ⊢
  have hnone : NoWish d := by
    intro event hevent
    rw [hempty] at hevent
    exact absurd hevent (by simp)
  have hlength : d.events.toList.length ≤ 4 := by simp [hempty]
  generalize d.monitor = m at hmove
  cases hmove with
  | start => exact ⟨hroom, hlength, hnone, _, rfl, by simp [Entry.wish?]⟩
  | await => exact ⟨hroom, hlength, hnone, _, rfl, by simp⟩
  | wait v told due window _ => exact ⟨hroom, hlength, hnone, _, rfl, by simp⟩
  | tick v told due window s hs hdue =>
    obtain ⟨hsent, hcapacity, hfew⟩ :=
      Monitor.events_tick d.clock (d.board.sense window) d.status s v told hempty hroom
    refine ⟨hcapacity, hsent ▸ hfew, fun event hevent => ?_, _, rfl,
      fun _ => Monitor.wish?_of_mem_tick _ _ _ _ _ _⟩
    exact Monitor.not_isWish_of_mem_eventsOf (hsent ▸ hevent)

/-! ## The invariant -/

/-- The status once the events that wait are heard. -/
def outlook (d : Device) : Status := d.events.toList.foldl Status.hear d.status

/-- What holds of a device between any two turns, with the pin changes to come, the wishes told
since its journal was `base`, and those still to be told. -/
structure Serves (base : List Stamped) (changes : List (Nat × Bool))
    (told pending : List (Nat × Wish)) (d : Device) : Prop where
  dispatcher : .dispatcher ∈ d.roles
  button : .button ∈ d.roles
  room : d.events.capacity = eventCapacity
  journal : ∃ new, d.journal = new ++ base ∧ told = new.reverse.filterMap Stamped.wish?
  past : ∀ w ∈ told, w.1 ≤ d.clock
  later : ∀ c ∈ changes, d.clock ≤ c.1
  phase : Phase d.board.button d.clock changes d.button pending
  power : d.outlook.power = powerAfter told
  chargeType : d.outlook.chargeType = chargeTypeAfter told

variable {d d' : Device} {base : List Stamped} {changes : List (Nat × Bool)}
  {told pending : List (Nat × Wish)}

theorem wishless_of_eq (h : d'.journal = d.journal) : Wishless d d' := ⟨[], h, by simp⟩

theorem filterMap_wish? (entries : List Entry) (now : Nat) :
    (entries.map (Stamped.mk now)).filterMap Stamped.wish?
      = (entries.filterMap Entry.wish?).map (now, ·) := by
  rw [List.filterMap_map, List.map_filterMap]
  rfl

/-- A change that leaves alone what the presses depend on. -/
theorem Serves.frame (h : Serves base changes told pending d) (hroles : d'.roles = d.roles)
    (hclock : d'.clock = d.clock) (hpin : d'.board.button = d.board.button)
    (hbutton : d'.button = d.button) (hroom : d'.events.capacity = eventCapacity)
    (hpower : d'.outlook.power = d.outlook.power)
    (htype : d'.outlook.chargeType = d.outlook.chargeType) (hjournal : Wishless d d') :
    Serves base changes told pending d' where
  dispatcher := by rw [hroles]; exact h.dispatcher
  button := by rw [hroles]; exact h.button
  room := hroom
  journal := by
    obtain ⟨new, hnew, htold⟩ := h.journal
    obtain ⟨entries, hentries, hnone⟩ := hjournal
    refine ⟨(entries.map (Stamped.mk d.clock)).reverse ++ new, ?_, ?_⟩
    · rw [hentries, hnew, List.append_assoc]
    · rw [List.reverse_append, List.reverse_reverse, List.filterMap_append, filterMap_wish?,
        List.filterMap_eq_nil_iff.mpr hnone, htold]
      exact (List.append_nil _).symm
  past := by rw [hclock]; exact h.past
  later := by rw [hclock]; exact h.later
  phase := by rw [hpin, hclock, hbutton]; exact h.phase
  power := hpower.trans h.power
  chargeType := htype.trans h.chargeType

theorem NoWish.outlook_eq (h : NoWish d) :
    d.outlook.power = d.status.power ∧ d.outlook.chargeType = d.status.chargeType :=
  Status.foldl_hear_of_not_isWish h

/-! ## Turns -/

theorem Serves.pollDispatcher (h : Serves base changes told pending d) :
    Serves base changes told pending d.pollDispatcher
      ∧ d.pollDispatcher.events.toList = [] := by
  rw [pollDispatcher_eq]
  refine ⟨h.frame rfl rfl rfl rfl h.room rfl rfl ⟨d.events.toList.map Entry.handled, rfl, ?_⟩, rfl⟩
  intro e he
  obtain ⟨event, -, rfl⟩ := List.mem_map.mp he
  rfl

theorem Serves.pollFlashWriter (h : Serves base changes told pending d) :
    Serves base changes told pending d.pollFlashWriter := by
  obtain ⟨entries, hjournal, hupkeep⟩ := upkeep_pollFlashWriter d
  exact h.frame rfl rfl rfl rfl h.room rfl rfl
    ⟨entries, hjournal, fun e he => (hupkeep e he).wish?_eq_none⟩

theorem Serves.pollLamp (h : Serves base changes told pending d) :
    Serves base changes told pending d.pollLamp := by
  obtain ⟨entries, hjournal, hupkeep⟩ := upkeep_pollLamp d
  exact h.frame rfl rfl rfl rfl h.room rfl rfl
    ⟨entries, hjournal, fun e he => (hupkeep e he).wish?_eq_none⟩

theorem Serves.pollMonitor (h : Serves base changes told pending d)
    (hempty : d.events.toList = []) :
    Serves base changes told pending d.pollMonitor ∧ NoWish d.pollMonitor
      ∧ d.pollMonitor.events.toList.length ≤ 4 := by
  obtain ⟨hroom, hlength, hnone, hjournal⟩ := pollMonitor_events hempty h.room
  obtain ⟨hpower, htype⟩ := hnone.outlook_eq
  have houtlook : d.outlook = d.status := by
    rw [outlook, hempty]
    rfl
  refine ⟨h.frame rfl rfl rfl rfl hroom ?_ ?_ hjournal, hnone, hlength⟩
  · rw [hpower, houtlook]
    rfl
  · rw [htype, houtlook]
    rfl

/-- What the button finds at its turn. -/
structure AtButton (base : List Stamped) (changes : List (Nat × Bool))
    (told pending : List (Nat × Wish)) (d : Device) : Prop where
  serves : Serves base changes told pending d
  noWish : NoWish d
  room : d.events.toList.length ≤ 4

/-- The parts that have their turn before the button leave everything to it. -/
theorem Serves.before_button (h : Serves base changes told pending d) :
    AtButton base changes told pending
      ((((d.turn .dispatcher).turn .flashWriter).turn .monitor).turn .lamp) := by
  obtain ⟨hdispatched, hempty⟩ := h.pollDispatcher
  rw [turn_of_mem h.dispatcher, poll]
  have hwritten : Serves base changes told pending (d.pollDispatcher.turn .flashWriter)
      ∧ (d.pollDispatcher.turn .flashWriter).events.toList = [] := by
    rcases turn_eq_or d.pollDispatcher .flashWriter with heq | heq
    · rw [heq]
      exact ⟨hdispatched.pollFlashWriter, hempty⟩
    · rw [heq]
      exact ⟨hdispatched, hempty⟩
  generalize d.pollDispatcher.turn .flashWriter = d₁ at hwritten ⊢
  have hticked : AtButton base changes told pending (d₁.turn .monitor) := by
    rcases turn_eq_or d₁ .monitor with heq | heq
    · obtain ⟨hserves, hnone, hlength⟩ := hwritten.1.pollMonitor hwritten.2
      rw [heq]
      exact ⟨hserves, hnone, hlength⟩
    · rw [heq]
      refine ⟨hwritten.1, fun event hevent => ?_, by simp [hwritten.2]⟩
      rw [hwritten.2] at hevent
      exact absurd hevent (by simp)
  generalize d₁.turn .monitor = d₂ at hticked ⊢
  rcases turn_eq_or d₂ .lamp with heq | heq
  · rw [heq]
    exact ⟨hticked.serves.pollLamp, hticked.noWish, hticked.room⟩
  · rw [heq]
    exact hticked

/-- The button has nothing to do at this instant, nor has anything due. -/
def ButtonSleeps (d : Device) : Prop := d.button.sleeps d.board.button (d.clock + 1) = true

/-- **A turn of the button** moves wishes from those to come to those told, in time. -/
theorem AtButton.pollButton (h : AtButton base changes told pending d) :
    ∃ told' pending', told' ++ pending' = told ++ pending
      ∧ Serves base changes told' pending' d.pollButton ∧ ButtonSleeps d.pollButton := by
  have hserves := h.serves
  have hroom : d.events.toList.length < d.events.capacity := by
    have := h.room
    rw [hserves.room, eventCapacity]
    omega
  have hpolled := hserves.phase.poll hserves.later d.status hroom
  obtain ⟨hpower, htype⟩ := h.noWish.outlook_eq
  rw [Device.pollButton]
  generalize d.button.poll d.board.button d.clock d.status d.events = turn at hpolled ⊢
  cases hpolled with
  | quiet hphase hsleeps =>
    refine ⟨told, pending, rfl, ?_, hsleeps⟩
    exact ⟨hserves.dispatcher, hserves.button, hserves.room, hserves.journal, hserves.past,
      hserves.later, hphase, hserves.power, hserves.chargeType⟩
  | @sent b w pending queue hpush hphase hsleeps =>
    obtain ⟨hqueue, hcapacity⟩ := Fifo.toList_push? hpush
    -- the wish is the last of the events that wait, so it is heard after all others
    have houtlook : (queue.toList.foldl Status.hear d.status)
        = d.outlook.hear (w.event d.status) := by
      rw [hqueue, List.foldl_append]
      rfl
    obtain ⟨hpower', htype'⟩ :=
      hear_event w d.clock hserves.power hserves.chargeType hpower.symm htype.symm
    refine ⟨told ++ [(d.clock, w)], pending, by simp, ?_, hsleeps⟩
    refine ⟨hserves.dispatcher, hserves.button, hcapacity.trans hserves.room, ?_, ?_,
      hserves.later, hphase, ?_, ?_⟩
    · obtain ⟨new, hnew, htold⟩ := hserves.journal
      refine ⟨⟨d.clock, .sent (w.event d.status) true⟩ :: new, congrArg _ hnew, ?_⟩
      rw [List.reverse_cons, List.filterMap_append, ← htold]
      cases w <;> rfl
    · intro v hv
      rcases List.mem_append.mp hv with hv | hv
      · exact hserves.past v hv
      · rw [List.mem_singleton.mp hv]
        exact Nat.le_refl _
    · exact (congrArg Status.power houtlook).trans hpower'
    · exact (congrArg Status.chargeType houtlook).trans htype'

/-! ## Rounds -/

/-- The device serves its button, however many of these wishes have been told. -/
def Serving (base : List Stamped) (changes : List (Nat × Bool)) (all : List (Nat × Wish))
    (d : Device) : Prop :=
  ∃ told pending, told ++ pending = all ∧ Serves base changes told pending d

variable {all : List (Nat × Wish)}

theorem Serving.round (h : Serving base changes all d) :
    Serving base changes all d.round ∧ ButtonSleeps d.round := by
  obtain ⟨told, pending, rfl, hserves⟩ := h
  have hat := hserves.before_button
  obtain ⟨told', pending', hall, hserves', hsleeps⟩ := hat.pollButton
  rw [Device.round, turn_of_mem hat.serves.button]
  exact ⟨⟨told', pending', hall, hserves'⟩, hsleeps⟩

/-- A round in which the button has nothing to do leaves no wish behind. -/
theorem Serving.noWish_round (h : Serving base changes all d) (hsleeps : ButtonSleeps d) :
    NoWish d.round := by
  obtain ⟨told, pending, -, hserves⟩ := h
  have hat := hserves.before_button
  have hbutton : ((((d.turn .dispatcher).turn .flashWriter).turn .monitor).turn .lamp).button
      = d.button := by
    rw [turn_button_of_ne _ (by simp), turn_button_of_ne _ (by simp),
      turn_button_of_ne _ (by simp), turn_button_of_ne _ (by simp)]
  have hsleeps' : ButtonSleeps
      ((((d.turn .dispatcher).turn .flashWriter).turn .monitor).turn .lamp) := by
    rw [ButtonSleeps, hbutton]
    simpa [ButtonSleeps] using hsleeps
  rw [Device.round]
  generalize (((d.turn .dispatcher).turn .flashWriter).turn .monitor).turn .lamp = d₁
    at hat hsleeps' ⊢
  have hsame : d₁.turn .button = d₁ := by
    rw [turn_of_mem hat.serves.button, poll, pollButton,
      Button.poll_of_sleeps hsleeps' (Nat.lt_succ_self _)]
    rfl
  rw [hsame]
  exact hat.noWish

/-- **Settling leaves no wish unheard**, and nothing for the button to do. -/
theorem Serving.settle (h : Serving base changes all d) :
    Serving base changes all d.settle ∧ ButtonSleeps d.settle ∧ NoWish d.settle := by
  -- what the first round leaves in the queue is heard in the second, where the button tells nothing
  obtain ⟨hfirst, hsleeps⟩ := h.round
  obtain ⟨hsecond, hsleeps'⟩ := hfirst.round
  exact ⟨hsecond, hsleeps', hfirst.noWish_round hsleeps⟩

/-- A run in which the pin does not change. -/
theorem Serving.run (h : Serving base changes all d) (ms : Nat)
    (hlater : ∀ c ∈ changes, d.clock + ms ≤ c.1) :
    (Serving base changes all (d.run ms) ∧ (d.run ms).board.button = d.board.button)
      ∧ ButtonSleeps (d.run ms) ∧ NoWish (d.run ms) := by
  refine run_settled_until
    (P := fun d' => Serving base changes all d' ∧ d'.board.button = d.board.button)
    (Q := fun d' => ButtonSleeps d' ∧ NoWish d') ?_ ?_ ⟨h, rfl⟩ (Nat.le_refl (d.clock + ms))
  · rintro d' ⟨h', hpin⟩
    obtain ⟨hnext, hquiet⟩ := h'.settle
    exact ⟨⟨hnext, (settle_pin d').trans hpin⟩, hquiet⟩
  · rintro d' ⟨⟨told, pending, hall, h'⟩, hpin⟩ ⟨hsleeps, -⟩ hlt
    refine ⟨⟨told, pending, hall, ?_⟩, hpin⟩
    refine ⟨h'.dispatcher, h'.button, h'.room, h'.journal,
      fun w hw => Nat.le_succ_of_le (h'.past w hw), fun c hc => ?_,
      h'.phase.wait hsleeps h'.later, h'.power, h'.chargeType⟩
    have := hlater c hc
    show d'.clock + 1 ≤ c.1
    omega

end Device

end BatteryCare
