import BatteryCare.Device.Action

/-!
# What the turns of a device do

Each part of a device changes what is its own, and notes it in the journal. This module says once,
part by part, what a turn changes, so that no later proof has to open a turn again. The journal is
read through `Device.ledger`, which keeps of it what the proofs refer to: the enable pin, and since
the last boot the image, the control ticks and the writes that came to their end.

Time is dealt with here too. Whatever every turn keeps holds after any time (`Kept`), and whatever
holds of settled devices only is carried from one settled instant to the next (`run_settled`).
-/

namespace BatteryCare

/-! ## The ledger -/

/-- What the journal tells of a device. -/
structure Ledger where
  /-- The level of the enable pin, which a power cycle leaves as it is. -/
  pin : Bool := false
  /-- The image loaded since the last boot. -/
  image : Option (List UInt16) := none
  /-- The control ticks since the last boot, the latest first. -/
  ticks : List TickRecord := []
  /-- The writes that came to their end since the last boot, the latest first, with whether they
  were stored. -/
  commits : List (WordWrite × Bool) := []

/-- The ledger after one more entry. -/
def Ledger.add (l : Ledger) : Entry → Ledger
  | .booted => { pin := l.pin }
  | .enablePin high => { l with pin := high }
  | .loaded image => { l with image := some image }
  | .ticked tick => { l with ticks := tick :: l.ticks }
  | .committed write stored => { l with commits := (write, stored) :: l.commits }
  | .modePin _ | .lamp _ | .sent _ _ | .handled _ | .shown _ => l

/-- Entries that change nothing one by one change nothing together. -/
theorem foldl_eq_self {β : Type} {f : β → Entry → β} {entries : List Entry}
    (h : ∀ e ∈ entries, ∀ b, f b e = b) (b : β) : entries.foldl f b = b := by
  induction entries with
  | nil => rfl
  | cons e rest ih =>
    rw [List.foldl_cons, h e List.mem_cons_self b]
    exact ih fun e' he' => h e' (List.mem_cons_of_mem e he')

/-- The entries leave the ledger as it is. -/
def Unnoticed (entries : List Entry) : Prop := ∀ e ∈ entries, ∀ l : Ledger, l.add e = l

theorem Unnoticed.foldl {entries : List Entry} (h : Unnoticed entries) (l : Ledger) :
    entries.foldl Ledger.add l = l :=
  foldl_eq_self h l

theorem Unnoticed.append {xs ys : List Entry} (hx : Unnoticed xs) (hy : Unnoticed ys) :
    Unnoticed (xs ++ ys) := by
  intro e he
  rcases List.mem_append.mp he with he | he
  · exact hx e he
  · exact hy e he

theorem unnoticed_map {α : Type} {f : α → Entry} {items : List α}
    (h : ∀ a (l : Ledger), l.add (f a) = l) : Unnoticed (items.map f) := by
  intro e he
  obtain ⟨a, _, rfl⟩ := List.mem_map.mp he
  exact h a

namespace Device

/-- The ledger of a device. -/
def ledger (d : Device) : Ledger := d.journal.foldr (fun stamped l => l.add stamped.entry) {}

@[simp] theorem ledger_note (d : Device) (entries : List Entry) :
    (d.note entries).ledger = entries.foldl Ledger.add d.ledger := by
  rw [ledger, note, List.foldr_append, List.foldr_reverse, List.foldl_map]
  rfl

end Device

/-! ## The dispatcher and the lamp -/

/-- The status after an event is heard. -/
def Status.hear (s : Status) : Event → Status
  | .measured report => s.applyReport report
  | .powerSet power => { s with power }
  | .chargeTypeSet chargeType => { s with chargeType }
  | .fullyCharged | .lowBattery _ => s

/-- The alert that waits after an event is heard. -/
def hearAlert (alert : Option AlertLevel) : Event → Option AlertLevel
  | .lowBattery level => some level
  | .measured _ | .powerSet _ | .chargeTypeSet _ | .fullyCharged => alert

namespace Device

theorem handle_eq (d : Device) (event : Event) :
    d.handle event
      = { d with status := d.status.hear event, alert := hearAlert d.alert event }.note
          [.handled event] := by
  cases event <;> rfl

theorem foldl_handle (d : Device) (events : List Event) :
    events.foldl handle d
      = { d with
          status := events.foldl Status.hear d.status
          alert := events.foldl hearAlert d.alert }.note (events.map Entry.handled) := by
  induction events generalizing d with
  | nil => rfl
  | cons event rest ih =>
    rw [List.foldl_cons, ih, handle_eq]
    simp [note]

theorem pollDispatcher_eq (d : Device) :
    d.pollDispatcher
      = { d with
          events := d.events.clear
          status := d.events.toList.foldl Status.hear d.status
          alert := d.events.toList.foldl hearAlert d.alert }.note
          (d.events.toList.map Entry.handled) :=
  foldl_handle _ _

@[simp] theorem ledger_pollDispatcher (d : Device) : d.pollDispatcher.ledger = d.ledger := by
  rw [pollDispatcher_eq, ledger_note]
  exact (unnoticed_map fun _ _ => rfl).foldl _

@[simp] theorem ledger_pollLamp (d : Device) : d.pollLamp.ledger = d.ledger := by
  rw [pollLamp, ledger_note]
  refine Unnoticed.foldl (Unnoticed.append ?_ ?_) _
  · exact unnoticed_map fun _ _ => rfl
  · exact unnoticed_map fun _ _ => rfl

end Device

/-! ## The button -/

/-- The user asks for something. -/
def Event.IsWish : Event → Prop
  | .powerSet _ | .chargeTypeSet _ => True
  | .measured _ | .lowBattery _ | .fullyCharged => False

/-- What the button waits to send is a wish of the user. -/
def Button.Wishes (b : Button) : Prop := ∀ event, b = .sending event → event.IsWish

namespace Button

theorem wishes_release (pin : InputPin) : (release pin).Wishes := by
  intro event h
  unfold release at h
  split at h
  · cases h
  · cases h

theorem wishes_rest (pin : InputPin) : (rest pin).Wishes := by
  intro event h
  cases h

/-- What a turn of the button does to the events: nothing, or it adds a wish. -/
structure Wished (events : Fifo Event) (turn : Turn) : Prop where
  wishes : turn.button.Wishes
  events : turn.events = events ∧ turn.sent = none
    ∨ ∃ event, event.IsWish ∧ events.push? event = some turn.events ∧ turn.sent = some event

theorem wished_send {pin : InputPin} {events : Fifo Event} {event : Event}
    (h : event.IsWish) : Wished events (send pin events event) := by
  unfold send
  split
  · refine ⟨?_, Or.inl ⟨rfl, rfl⟩⟩
    intro e he
    cases he
    exact h
  · rename_i q hq
    cases event with
    | chargeTypeSet t => exact ⟨wishes_release pin, Or.inr ⟨_, h, hq, rfl⟩⟩
    | powerSet p => exact ⟨wishes_rest pin, Or.inr ⟨_, h, hq, rfl⟩⟩
    | measured r => exact ⟨wishes_rest pin, Or.inr ⟨_, h, hq, rfl⟩⟩
    | lowBattery l => exact ⟨wishes_rest pin, Or.inr ⟨_, h, hq, rfl⟩⟩
    | fullyCharged => exact ⟨wishes_rest pin, Or.inr ⟨_, h, hq, rfl⟩⟩

/-- **A turn of the button sends nothing but wishes.** -/
theorem wished_poll {pin : InputPin} {now : Nat} {status : Status} {events : Fifo Event}
    {b : Button} (h : b.Wishes) : Wished events (b.poll pin now status events) := by
  have still : ∀ b' : Button, b'.Wishes → Wished events { button := b', events } :=
    fun b' hb' => ⟨hb', Or.inl ⟨rfl, rfl⟩⟩
  cases b with
  | unread => exact still _ (wishes_rest pin)
  | up watch =>
    rw [poll]
    split
    · exact still _ fun e he => absurd he (by simp)
    · exact still _ fun e he => absurd he (by simp)
  | down due watch =>
    rw [poll]
    split
    · exact wished_send (show Event.IsWish (.chargeTypeSet _) from trivial)
    · split
      · exact wished_send (show Event.IsWish (.powerSet _) from trivial)
      · exact still _ fun e he => absurd he (by simp)
  | sending event => exact wished_send (h event rfl)
  | releasing => exact still _ (wishes_release pin)

end Button

namespace Device

@[simp] theorem ledger_pollButton (d : Device) : d.pollButton.ledger = d.ledger := by
  rw [pollButton, ledger_note]
  exact (unnoticed_map fun _ _ => rfl).foldl _

/-! ## What dispatcher, lamp and button leave alone -/

/-- Monitor, flash writer and what they work on are as before, and nothing was noted that counts
for them. -/
structure Undisturbed (d d' : Device) : Prop where
  monitor : d'.monitor = d.monitor
  flashWriter : d'.flashWriter = d.flashWriter
  store : d'.store = d.store
  flash : d'.board.flash = d.board.flash
  ledger : d'.ledger = d.ledger

/-- **The other parts disturb neither monitor nor flash writer.** -/
theorem undisturbed_poll (d : Device) {r : Role} (hw : r ≠ .flashWriter) (hm : r ≠ .monitor) :
    Undisturbed d (d.poll r) := by
  cases r with
  | dispatcher =>
    have hledger := ledger_pollDispatcher d
    rw [pollDispatcher_eq] at hledger
    rw [poll, pollDispatcher_eq]
    exact ⟨rfl, rfl, rfl, rfl, hledger⟩
  | flashWriter => exact absurd rfl hw
  | monitor => exact absurd rfl hm
  | lamp => exact ⟨rfl, rfl, rfl, rfl, ledger_pollLamp d⟩
  | button => exact ⟨rfl, rfl, rfl, rfl, ledger_pollButton d⟩

end Device

/-! ## The flash writer -/

/-- Taking one write takes the oldest one. -/
theorem Store.receive_one {s s' : Store} {w : WordWrite} {rest : List WordWrite}
    (h : s.receive 1 = (w :: rest, s')) :
    ∃ queue queue' : Fifo WordWrite, s.pending = some queue
      ∧ s' = { s with pending := some queue' } ∧ queue.toList = w :: queue'.toList := by
  rw [receive] at h
  cases hpending : s.pending with
  | none =>
    rw [hpending] at h
    cases h
  | some queue =>
    rw [hpending] at h
    obtain ⟨hwrites, rfl⟩ := Prod.mk.inj h
    refine ⟨queue, (queue.take 1).2, rfl, rfl, ?_⟩
    change queue.toList.take 1 = w :: rest at hwrites
    change queue.toList = w :: queue.toList.drop 1
    cases hqueue : queue.toList with
    | nil =>
      rw [hqueue] at hwrites
      cases hwrites
    | cons w' rest' =>
      rw [hqueue] at hwrites
      cases hwrites
      rfl

theorem Store.waiting_receive {s s' : Store} {w : WordWrite} {rest : List WordWrite}
    (h : s.receive 1 = (w :: rest, s')) : s'.waiting + 1 = s.waiting := by
  obtain ⟨queue, queue', hpending, rfl, hqueue⟩ := receive_one h
  rw [waiting, waiting, hpending, Option.elim_some, Option.elim_some, Fifo.length, Fifo.length,
    hqueue, List.length_cons]

namespace FlashWriter

/-- The flash writer notes loads and writes that came to their end. -/
def IsEntry : Entry → Prop
  | .loaded _ | .committed _ _ => True
  | _ => False

/-- What a step of the flash writer is. -/
inductive Move (flash : Flash) (store : Option Store) : FlashWriter → Turn → Prop
  /-- The image is loaded. -/
  | load : Move flash store .unloaded
      { writer := idle
        flash
        store := some { image := flash.image storageWords, pending := some (.empty writeCapacity) }
        entries := [.loaded (flash.image storageWords)] }
  /-- A write leaves the queue, and fails before it has begun. -/
  | fail {s s' : Store} {w : WordWrite} {rest : List WordWrite} (hs : store = some s)
      (htake : s.receive 1 = (w :: rest, s')) (hreads : flash.readFails = true) :
      Move flash store .idle
        { writer := idle, flash, store := some s', entries := [.committed w false] }
  /-- A write leaves the queue, and has begun. -/
  | begin {s s' : Store} {w : WordWrite} {rest : List WordWrite} (hs : store = some s)
      (htake : s.receive 1 = (w :: rest, s')) (hreads : flash.readFails = false) :
      Move flash store .idle { writer := holding w, flash, store := some s' }
  /-- The write in hand comes to its end. -/
  | finish (w : WordWrite) (hstalled : flash.stalled = false) :
      Move flash store (.holding w)
        { writer := idle
          flash := (flash.finish w).1
          store
          entries := [.committed w (flash.finish w).2] }

theorem step_move {flash : Flash} {store : Option Store} {writer : FlashWriter} {next : Turn}
    (h : writer.step flash store = some next) : Move flash store writer next := by
  cases writer with
  | unloaded =>
    cases h
    exact .load
  | idle =>
    cases store with
    | none => cases h
    | some s =>
      rw [step, Option.map_some] at h
      split at h
      · rename_i w rest s' htake
        split at h
        · rename_i hreads
          cases h
          exact .fail rfl (Option.some.inj htake) hreads
        · rename_i hreads
          cases h
          exact .begin rfl (Option.some.inj htake) (by simpa using hreads)
      · cases h
      · cases h
  | holding w =>
    rw [step] at h
    split at h
    · cases h
    · rename_i hstalled
      cases h
      exact .finish w (by simpa using hstalled)

/-- **What every step keeps holds after a turn.** -/
theorem poll_induction {P : Turn → Prop} {flash : Flash} {store : Option Store}
    {writer : FlashWriter} (start : P { writer, flash, store })
    (step : ∀ t next, P t → t.writer.step t.flash t.store = some next →
      P { next with entries := t.entries ++ next.entries }) : P (writer.poll flash store) := by
  have hrun : ∀ n t, P t → P { goOn t.flash t.store t.writer n with
      entries := t.entries ++ (goOn t.flash t.store t.writer n).entries } := by
    intro n
    induction n with
    | zero =>
      intro t ht
      rw [goOn, List.append_nil]
      exact ht
    | succ n ih =>
      intro t ht
      rw [goOn]
      cases hnext : t.writer.step t.flash t.store with
      | none =>
        dsimp only
        rw [List.append_nil]
        exact ht
      | some next =>
        dsimp only
        rw [← List.append_assoc]
        exact ih _ (step t next ht hnext)
  exact hrun _ _ start

theorem stepsLeft_step {flash : Flash} {store : Option Store} {writer : FlashWriter} {next : Turn}
    (h : writer.step flash store = some next) :
    next.writer.stepsLeft next.store < writer.stepsLeft store := by
  cases step_move h with
  | load => exact Nat.zero_lt_one
  | fail hs htake hreads =>
    subst hs
    have := Store.waiting_receive htake
    simp only [stepsLeft, Option.elim_some]
    omega
  | begin hs htake hreads =>
    subst hs
    have := Store.waiting_receive htake
    simp only [stepsLeft, Option.elim_some]
    omega
  | finish w hstalled => exact Nat.lt_succ_self _

/-- **A turn goes on until the writer has to wait.** -/
theorem step_poll (flash : Flash) (store : Option Store) (writer : FlashWriter) :
    (writer.poll flash store).writer.step (writer.poll flash store).flash
      (writer.poll flash store).store = none := by
  have hrun : ∀ n flash store (writer : FlashWriter), writer.stepsLeft store ≤ n →
      (goOn flash store writer n).writer.step (goOn flash store writer n).flash
        (goOn flash store writer n).store = none := by
    intro n
    induction n with
    | zero =>
      intro flash store writer hn
      cases hnext : writer.step flash store with
      | none => exact hnext
      | some next => exact absurd (stepsLeft_step hnext) (by omega)
    | succ n ih =>
      intro flash store writer hn
      rw [goOn]
      cases hnext : writer.step flash store with
      | none => exact hnext
      | some next =>
        have := stepsLeft_step hnext
        exact ih _ _ _ (by omega)
  exact hrun _ flash store writer (Nat.le_refl _)

theorem isEntry_step {flash : Flash} {store : Option Store} {writer : FlashWriter} {next : Turn}
    (h : writer.step flash store = some next) : ∀ e ∈ next.entries, IsEntry e := by
  cases step_move h with
  | load => simp [IsEntry]
  | fail hs htake hreads => simp [IsEntry]
  | begin hs htake hreads => simp
  | finish w hstalled => simp [IsEntry]

theorem isEntry_poll (flash : Flash) (store : Option Store) (writer : FlashWriter) :
    ∀ e ∈ (writer.poll flash store).entries, IsEntry e := by
  refine poll_induction (P := fun t => ∀ e ∈ t.entries, IsEntry e) (by simp) ?_
  intro t next ht hnext e he
  rcases List.mem_append.mp he with he | he
  · exact ht e he
  · exact isEntry_step hnext e he

theorem foldl_add_of_isEntry {entries : List Entry} (h : ∀ e ∈ entries, IsEntry e)
    (l : Ledger) :
    (entries.foldl Ledger.add l).pin = l.pin ∧ (entries.foldl Ledger.add l).ticks = l.ticks := by
  induction entries generalizing l with
  | nil => exact ⟨rfl, rfl⟩
  | cons e rest ih =>
    obtain ⟨hpin, hticks⟩ := ih (fun e' he' => h e' (List.mem_cons_of_mem e he')) (l.add e)
    rw [List.foldl_cons, hpin, hticks]
    have he := h e List.mem_cons_self
    cases e with
    | loaded image => exact ⟨rfl, rfl⟩
    | committed write stored => exact ⟨rfl, rfl⟩
    | booted | enablePin _ | modePin _ | lamp _ | ticked _ | sent _ _ | handled _ | shown _ =>
      exact he.elim

/-- The first turn of the writer loads the image. -/
theorem poll_unloaded (flash : Flash) (store : Option Store) :
    unloaded.poll flash store
      = { writer := idle
          flash
          store := some
            { image := flash.image storageWords, pending := some (.empty writeCapacity) }
          entries := [.loaded (flash.image storageWords)] } := rfl

/-- Once the writer has had a turn there is a store, if there was one with a loaded image. -/
theorem store_poll {flash : Flash} {store : Option Store} {writer : FlashWriter}
    (h : writer ≠ .unloaded → store.isSome = true) :
    (writer.poll flash store).store.isSome = true
      ∧ (writer.poll flash store).writer ≠ .unloaded := by
  by_cases hw : writer = .unloaded
  · rw [hw, poll_unloaded]
    exact ⟨rfl, by simp⟩
  · refine poll_induction (P := fun t => t.store.isSome = true ∧ t.writer ≠ .unloaded)
      ⟨h hw, hw⟩ ?_
    intro t next ht hnext
    have hmove := step_move hnext
    generalize t.writer = writer at hmove ht
    cases hmove with
    | load => exact absurd rfl ht.2
    | fail hs htake hreads => exact ⟨rfl, by simp⟩
    | begin hs htake hreads => exact ⟨rfl, by simp⟩
    | finish w hstalled => exact ⟨ht.1, by simp⟩

end FlashWriter

namespace Device

theorem ledger_pollFlashWriter (d : Device) :
    d.pollFlashWriter.ledger.pin = d.ledger.pin
      ∧ d.pollFlashWriter.ledger.ticks = d.ledger.ticks := by
  rw [pollFlashWriter, written, ledger_note]
  exact FlashWriter.foldl_add_of_isEntry (FlashWriter.isEntry_poll _ _ _) _

end Device

/-! ## Upkeep -/

/-- What flash writer and lamp note concerns no other part. -/
def Entry.IsUpkeep : Entry → Prop
  | .loaded _ | .committed _ _ | .shown _ | .lamp _ => True
  | .booted | .enablePin _ | .modePin _ | .ticked _ | .sent _ _ | .handled _ => False

theorem FlashWriter.IsEntry.isUpkeep {e : Entry} (h : IsEntry e) : e.IsUpkeep := by
  cases e with
  | loaded image => trivial
  | committed write stored => trivial
  | booted | enablePin _ | modePin _ | lamp _ | ticked _ | sent _ _ | handled _ | shown _ =>
    exact h.elim

namespace Device

theorem upkeep_pollFlashWriter (d : Device) :
    ∃ entries : List Entry,
      d.pollFlashWriter.journal = (entries.map (Stamped.mk d.clock)).reverse ++ d.journal
        ∧ ∀ e ∈ entries, e.IsUpkeep :=
  ⟨_, rfl, fun e he => (FlashWriter.isEntry_poll _ _ _ e he).isUpkeep⟩

theorem upkeep_pollLamp (d : Device) :
    ∃ entries : List Entry,
      d.pollLamp.journal = (entries.map (Stamped.mk d.clock)).reverse ++ d.journal
        ∧ ∀ e ∈ entries, e.IsUpkeep := by
  refine ⟨_, rfl, fun e he => ?_⟩
  rcases List.mem_append.mp he with he | he
  · obtain ⟨level, -, rfl⟩ := List.mem_map.mp he
    trivial
  · obtain ⟨output, -, rfl⟩ := List.mem_map.mp he
    trivial

end Device

/-! ## The monitor -/

namespace Monitor

theorem eq_sent_of_mem_sendAll {queue : Fifo Event} {events : List Event} {e : Entry}
    (h : e ∈ (sendAll queue events).2) : ∃ event ∈ events, ∃ queued, e = .sent event queued := by
  induction events generalizing queue with
  | nil => exact absurd h (by simp [sendAll])
  | cons event rest ih =>
    have later : (∃ event' ∈ rest, ∃ queued, e = .sent event' queued) →
        ∃ event' ∈ event :: rest, ∃ queued, e = .sent event' queued :=
      fun ⟨event', hmem, hsent⟩ => ⟨event', List.mem_cons_of_mem event hmem, hsent⟩
    rw [sendAll] at h
    split at h
    · rcases List.mem_cons.mp h with rfl | h
      · exact ⟨event, List.mem_cons_self, true, rfl⟩
      · exact later (ih h)
    · rcases List.mem_cons.mp h with rfl | h
      · exact ⟨event, List.mem_cons_self, false, rfl⟩
      · exact later (ih h)

theorem unnoticed_sendAll (queue : Fifo Event) (events : List Event) :
    Unnoticed (sendAll queue events).2 := by
  intro e he l
  obtain ⟨event, -, queued, rfl⟩ := eq_sent_of_mem_sendAll he
  rfl

/-- Events that find room all go into the queue, in order. -/
theorem sendAll_of_room {queue : Fifo Event} {events : List Event}
    (h : queue.toList.length + events.length ≤ queue.capacity) :
    (sendAll queue events).1.toList = queue.toList ++ events
      ∧ (sendAll queue events).1.capacity = queue.capacity := by
  induction events generalizing queue with
  | nil => exact ⟨by simp [sendAll], rfl⟩
  | cons event rest ih =>
    rw [List.length_cons] at h
    rw [sendAll]
    split
    · rename_i q hq
      obtain ⟨hlist, hcap⟩ := Fifo.toList_push? hq
      -- the queue is longer by one, and one event fewer has to go in
      have hroom : q.toList.length + rest.length ≤ q.capacity := by
        rw [hlist, hcap, List.length_append, List.length_singleton]
        omega
      obtain ⟨hl, hc⟩ := ih hroom
      exact ⟨by rw [hl, hlist, List.append_assoc]; rfl, by rw [hc, hcap]⟩
    · rename_i hfull
      have := Fifo.push?_eq_none_iff.mp hfull
      rw [Fifo.length] at this
      omega

theorem length_check_le (a : Alarm) (level : UInt8) (now : UInt32) :
    (a.check level now).2.length ≤ 2 := by
  unfold Alarm.check
  split
  · dsimp only
    split <;> split <;> simp
  · simp

theorem length_eventsOf_tick (v : Supervisor) (store : Store) (s : Sample) (now : UInt32) :
    (eventsOf (v.tick store s now)).length ≤ 4 := by
  have halerts : (v.tick store s now).alerts.length ≤ 2 := by
    rw [Supervisor.tick]
    dsimp only
    split
    · exact length_check_le _ _ _
    · simp
  rw [eventsOf]
  split <;> simp <;> omega

/-- Of the events of a tick the status takes over the report only. -/
theorem foldl_hear_eventsOf (t : Tick) (s : Status) :
    (eventsOf t).foldl Status.hear s = s.applyReport t.report := by
  have halerts : ∀ alerts : List AlertLevel,
      (alerts.map Event.lowBattery).foldl Status.hear s = s := by
    intro alerts
    induction alerts with
    | nil => rfl
    | cons a rest ih => exact ih
  have hfull : (if .fullCharge ∈ t.calls then [Event.fullyCharged] else []).foldl Status.hear s
      = s := by
    split <;> rfl
  rw [eventsOf, List.foldl_append, List.foldl_append, hfull, halerts]
  rfl

/-- The calls of a tick switch the pin and nothing else. -/
theorem foldl_pins (calls : List CircuitCall) (l : Ledger) :
    ∃ high, (calls.flatMap pins).foldl Ledger.add l = { l with pin := high } := by
  induction calls generalizing l with
  | nil => exact ⟨l.pin, rfl⟩
  | cons call rest ih =>
    rw [List.flatMap_cons, List.foldl_append]
    cases call with
    | enable mode =>
      obtain ⟨high, h⟩ := ih { l with pin := true }
      exact ⟨high, h⟩
    | disable =>
      obtain ⟨high, h⟩ := ih { l with pin := false }
      exact ⟨high, h⟩
    | fullCharge => exact ih l

/-- The supervisor once it has heard of the power state. -/
def informed (now : Nat) (status : Status) (v : Supervisor) (told : PowerState) : Supervisor :=
  if status.power = told then v else v.setPower status.power (.ofNat now)

/-- What the supervisor does in a tick of the monitor. -/
def outcome (now : Nat) (sensed : Sensed) (status : Status) (store : Store) (v : Supervisor)
    (told : PowerState) : Tick :=
  (informed now status v told).tick store (sensed.sample status.chargeType.mode) (.ofNat now)

/-- A tick as the journal keeps it. -/
def recordOf (sensed : Sensed) (status : Status) (t : Tick) : TickRecord where
  readings := sensed.readings
  current := sensed.current
  chargeType := status.chargeType
  report := t.report
  calls := t.calls
  alerts := t.alerts
  attempts := t.attempts

theorem informed_gauge (now : Nat) (status : Status) (v : Supervisor) (told : PowerState) :
    (informed now status v told).gauge = v.gauge := by
  unfold informed
  split
  · rfl
  · rfl

theorem informed_charger (now : Nat) (status : Status) (v : Supervisor) (told : PowerState) :
    (informed now status v told).charger = v.charger := by
  unfold informed
  split
  · rfl
  · rfl

/-- A tick of the monitor is noted, and apart from that it only switches the pin. -/
theorem foldl_tick (now : Nat) (sensed : Sensed) (status : Status) (store : Store)
    (events : Fifo Event) (v : Supervisor) (told : PowerState) (l : Ledger) :
    ∃ high, (tick now sensed status store events v told).entries.foldl Ledger.add l
      = { l with
          pin := high
          ticks := recordOf sensed status (outcome now sensed status store v told)
            :: l.ticks } := by
  obtain ⟨high, hpins⟩ := foldl_pins (outcome now sensed status store v told).calls
    (l.add (.ticked (recordOf sensed status (outcome now sensed status store v told))))
  refine ⟨high, ?_⟩
  rw [tick]
  dsimp only
  rw [List.cons_append, List.foldl_cons, List.foldl_append,
    (unnoticed_sendAll events _).foldl]
  exact hpins

/-- What a turn of the monitor is. -/
inductive Move (now : Nat) (board : Board) (status : Status) (store : Option Store)
    (events : Fifo Event) : Monitor → Turn → Prop
  /-- The charger pins are set up. -/
  | start : Move now board status store events .starting
      { monitor := begin now store, store, events, entries := [.enablePin false, .modePin false] }
  /-- The image is looked for. -/
  | await : Move now board status store events .awaitingImage
      { monitor := begin now store, store, events }
  /-- A tick that is due runs. -/
  | tick (v : Supervisor) (told : PowerState) (due : Nat) (window : List Single) (s : Store)
      (hs : store = some s) (hdue : due ≤ now) :
      Move now board status store events (.waiting v told due window)
        (Monitor.tick now (board.sense window) status s events v told)
  /-- No tick is due. -/
  | wait (v : Supervisor) (told : PowerState) (due : Nat) (window : List Single)
      (h : now < due ∨ store = none) :
      Move now board status store events (.waiting v told due window)
        { monitor := .waiting v told due window, store, events }

theorem poll_move (now : Nat) (board : Board) (status : Status) (store : Option Store)
    (events : Fifo Event) (monitor : Monitor) :
    Move now board status store events monitor
      (poll now board status store events monitor) := by
  cases monitor with
  | starting => exact Move.start
  | awaitingImage => exact Move.await
  | waiting v told due window =>
    cases store with
    | none => exact Move.wait v told due window (Or.inr rfl)
    | some s =>
      rw [poll]
      split
      · rename_i hdue
        exact Move.tick v told due window s rfl hdue
      · rename_i hdue
        exact Move.wait v told due window (Or.inl (Nat.lt_of_not_le hdue))

end Monitor

namespace Device

/-- What a turn of the monitor does to a device, apart from what it sends and how it switches the
pins. -/
inductive MonitorMove (d : Device) : Device → Prop
  /-- It looks for the image, and starts the supervisor if there is one. -/
  | begins {d' : Device} (high : Bool) (hnone : d.monitor.supervisor? = none)
      (hmonitor : d'.monitor = Monitor.begin d.clock d.store) (hstore : d'.store = d.store)
      (hledger : d'.ledger = { d.ledger with pin := high }) : MonitorMove d d'
  /-- It has nothing to do. -/
  | rests : MonitorMove d d
  /-- It runs a tick. -/
  | ticks {d' : Device} (high : Bool) (v : Supervisor) (told : PowerState) (due : Nat)
      (window : List Single) (s : Store) (t : Tick)
      (hmonitor : d.monitor = .waiting v told due window) (hs : d.store = some s)
      (hdue : due ≤ d.clock)
      (ht : Monitor.outcome d.clock (d.board.sense window) d.status s v told = t)
      (hmonitor' : d'.monitor = .waiting t.supervisor d.status.power (d.clock + tickInterval)
        (d.board.sense window).window)
      (hstore : d'.store = some t.store)
      (hledger : d'.ledger = { d.ledger with
        pin := high
        ticks := Monitor.recordOf (d.board.sense window) d.status t :: d.ledger.ticks }) :
      MonitorMove d d'

theorem pollMonitor_move (d : Device) : MonitorMove d d.pollMonitor := by
  have hmove := Monitor.poll_move d.clock d.board d.status d.store d.events d.monitor
  have hturn : d.pollMonitor = ({ d with
      monitor := (d.monitor.poll d.clock d.board d.status d.store d.events).monitor
      store := (d.monitor.poll d.clock d.board d.status d.store d.events).store
      events := (d.monitor.poll d.clock d.board d.status d.store d.events).events }
      : Device).note (d.monitor.poll d.clock d.board d.status d.store d.events).entries :=
    rfl
  have hledger := congrArg ledger hturn
  rw [ledger_note] at hledger
  generalize d.monitor.poll d.clock d.board d.status d.store d.events = turn
    at hmove hturn hledger
  generalize hmonitor : d.monitor = monitor at hmove
  cases hmove with
  | start =>
    refine .begins false (by rw [hmonitor]; rfl) (by rw [hturn]; rfl) (by rw [hturn]; rfl) ?_
    rw [hledger]
    rfl
  | await =>
    refine .begins d.ledger.pin (by rw [hmonitor]; rfl) (by rw [hturn]; rfl) (by rw [hturn]; rfl) ?_
    rw [hledger]
    rfl
  | wait v told due window hw =>
    have hsame : d.pollMonitor = d := by
      rw [hturn, ← hmonitor]
      rfl
    rw [hsame]
    exact .rests
  | tick v told due window s hs hdue =>
    obtain ⟨high, hnoted⟩ :=
      Monitor.foldl_tick d.clock (d.board.sense window) d.status s d.events v told d.ledger
    refine .ticks high v told due window s _ hmonitor hs hdue rfl (by rw [hturn]; rfl)
      (by rw [hturn]; rfl) ?_
    rw [hledger]
    exact hnoted

end Device

/-! ## Rounds and time -/

namespace Device

theorem poll_roles (d : Device) (r : Role) : (d.poll r).roles = d.roles := by
  cases r with
  | dispatcher => rw [poll, pollDispatcher_eq]; rfl
  | flashWriter => rfl
  | monitor => rfl
  | lamp => rfl
  | button => rfl

theorem poll_clock (d : Device) (r : Role) : (d.poll r).clock = d.clock := by
  cases r with
  | dispatcher => rw [poll, pollDispatcher_eq]; rfl
  | flashWriter => rfl
  | monitor => rfl
  | lamp => rfl
  | button => rfl

theorem turn_eq_or (d : Device) (r : Role) : d.turn r = d.poll r ∨ d.turn r = d := by
  unfold turn
  split
  · exact Or.inl rfl
  · exact Or.inr rfl

@[simp] theorem turn_roles (d : Device) (r : Role) : (d.turn r).roles = d.roles := by
  rcases turn_eq_or d r with h | h
  · rw [h, poll_roles]
  · rw [h]

@[simp] theorem turn_clock (d : Device) (r : Role) : (d.turn r).clock = d.clock := by
  rcases turn_eq_or d r with h | h
  · rw [h, poll_clock]
  · rw [h]

theorem turn_of_mem {d : Device} {r : Role} (h : r ∈ d.roles) : d.turn r = d.poll r := if_pos h

theorem turn_of_not_mem {d : Device} {r : Role} (h : r ∉ d.roles) : d.turn r = d := if_neg h

theorem turn_monitor_of_ne (d : Device) {r : Role} (h : r ≠ .monitor) :
    (d.turn r).monitor = d.monitor := by
  rcases turn_eq_or d r with heq | heq
  · rw [heq]
    cases r with
    | dispatcher => rw [poll, pollDispatcher_eq]; rfl
    | flashWriter => rfl
    | monitor => exact absurd rfl h
    | lamp => rfl
    | button => rfl
  · rw [heq]

@[simp] theorem turn_pin (d : Device) (r : Role) : (d.turn r).board.button = d.board.button := by
  rcases turn_eq_or d r with heq | heq
  · rw [heq]
    cases r with
    | dispatcher => rw [poll, pollDispatcher_eq]; rfl
    | flashWriter => rfl
    | monitor => rfl
    | lamp => rfl
    | button => rfl
  · rw [heq]

theorem turn_button_of_ne (d : Device) {r : Role} (h : r ≠ .button) :
    (d.turn r).button = d.button := by
  rcases turn_eq_or d r with heq | heq
  · rw [heq]
    cases r with
    | dispatcher => rw [poll, pollDispatcher_eq]; rfl
    | flashWriter => rfl
    | monitor => rfl
    | lamp => rfl
    | button => exact absurd rfl h
  · rw [heq]

/-- The supervisor runs, and its next tick is not due at this instant. -/
def TickAhead (d : Device) : Prop :=
  ∃ v told due window, d.monitor = .waiting v told due window ∧ d.clock < due

/-- No tick is due at this instant. -/
def NotDue (d : Device) : Prop :=
  ∀ v told due window, d.monitor = .waiting v told due window → d.clock < due

theorem TickAhead.frame {d d' : Device} (h : TickAhead d) (hmonitor : d'.monitor = d.monitor)
    (hclock : d'.clock = d.clock) : TickAhead d' := by
  rw [TickAhead, hmonitor, hclock]
  exact h

/-- With its tick ahead, the monitor does nothing. -/
theorem TickAhead.pollMonitor_eq {d : Device} (h : TickAhead d) : d.pollMonitor = d := by
  obtain ⟨v, told, due, window, hmonitor, hdue⟩ := h
  have hpoll : d.monitor.poll d.clock d.board d.status d.store d.events
      = { monitor := d.monitor, store := d.store, events := d.events } := by
    rw [hmonitor]
    cases d.store with
    | none => rfl
    | some s => rw [Monitor.poll, if_neg (Nat.not_le.mpr hdue)]
  rw [pollMonitor, hpoll]
  rfl

theorem TickAhead.turn_monitor {d : Device} (h : TickAhead d) : d.turn .monitor = d := by
  rcases turn_eq_or d .monitor with heq | heq
  · rw [heq]
    exact h.pollMonitor_eq
  · exact heq

@[simp] theorem round_roles (d : Device) : d.round.roles = d.roles := by
  simp [round]

@[simp] theorem round_clock (d : Device) : d.round.clock = d.clock := by
  simp [round]

theorem TickAhead.round_monitor {d : Device} (h : TickAhead d) : d.round.monitor = d.monitor := by
  have hstart : ((d.turn .dispatcher).turn .flashWriter).monitor = d.monitor := by
    rw [turn_monitor_of_ne _ (by simp), turn_monitor_of_ne _ (by simp)]
  have hahead : TickAhead ((d.turn .dispatcher).turn .flashWriter) := h.frame hstart (by simp)
  rw [round, turn_monitor_of_ne _ (by simp), turn_monitor_of_ne _ (by simp), hahead.turn_monitor,
    hstart]

@[simp] theorem settle_clock (d : Device) : d.settle.clock = d.clock := by
  rw [settle, round_clock, round_clock]

@[simp] theorem settle_pin (d : Device) : d.settle.board.button = d.board.button := by
  simp [settle, round]

theorem advance_eq (d : Device) :
    d.advance = ({ d with clock := d.clock + 1 } : Device).settle := rfl

theorem pass_succ (d : Device) (ms : Nat) : d.pass (ms + 1) = d.advance.pass ms := by
  rw [pass]

theorem pass_add (d : Device) (m n : Nat) : d.pass (m + n) = (d.pass m).pass n := by
  induction m generalizing d with
  | zero => rw [Nat.zero_add, pass]
  | succ m ih => rw [Nat.succ_add, pass_succ, pass_succ, ih]

theorem run_succ (d : Device) (ms : Nat) : d.run (ms + 1) = (d.run ms).advance := by
  rw [run, pass_add]
  rfl

theorem pass_clock (d : Device) (ms : Nat) : (d.pass ms).clock = d.clock + ms := by
  induction ms generalizing d with
  | zero => rfl
  | succ ms ih =>
    rw [pass_succ, ih, advance_eq, settle_clock]
    show d.clock + 1 + ms = d.clock + (ms + 1)
    omega

@[simp] theorem run_clock (d : Device) (ms : Nat) : (d.run ms).clock = d.clock + ms := by
  rw [run, pass_clock, settle_clock]

/-- A property that every turn and every millisecond keep. -/
structure Kept (P : Device → Prop) : Prop where
  poll : ∀ d r, P d → P (d.poll r)
  wait : ∀ d : Device, P d → P { d with clock := d.clock + 1 }

section Kept

variable {P Q : Device → Prop} {d : Device}

theorem Kept.turn (h : Kept P) (r : Role) (hd : P d) : P (d.turn r) := by
  unfold Device.turn
  split
  · exact h.poll d r hd
  · exact hd

theorem Kept.round (h : Kept P) (hd : P d) : P d.round :=
  h.turn _ (h.turn _ (h.turn _ (h.turn _ (h.turn _ hd))))

theorem Kept.settle (h : Kept P) (hd : P d) : P d.settle := h.round (h.round hd)

theorem Kept.advance (h : Kept P) (hd : P d) : P d.advance := by
  rw [advance_eq]
  exact h.settle (h.wait d hd)

theorem Kept.pass (h : Kept P) (hd : P d) (ms : Nat) : P (d.pass ms) := by
  induction ms generalizing d with
  | zero => exact hd
  | succ ms ih =>
    rw [pass_succ]
    exact ih (h.advance hd)

/-- **What every turn keeps holds after any time.** -/
theorem Kept.run (h : Kept P) (hd : P d) (ms : Nat) : P (d.run ms) := h.pass (h.settle hd) ms

theorem kept_roles {roles : List Role} : Kept fun d => d.roles = roles where
  poll := fun d r h => (poll_roles d r).trans h
  wait := fun _ h => h

/--
**What settling brings about holds at every settled instant** up to `stop`. Between two of them only
the clock goes on, so it is enough that settling keeps `P` and ends with `Q`, and that with both of
them a millisecond keeps `P`.
-/
theorem run_settled_until {stop : Nat} (settle : ∀ d, P d → P d.settle ∧ Q d.settle)
    (wait : ∀ d : Device, P d → Q d → d.clock < stop → P { d with clock := d.clock + 1 })
    (hd : P d) {ms : Nat} (hms : d.clock + ms ≤ stop) : P (d.run ms) ∧ Q (d.run ms) := by
  have hpass : ∀ (ms : Nat) (d : Device), d.clock + ms ≤ stop → P d ∧ Q d →
      P (d.pass ms) ∧ Q (d.pass ms) := by
    intro ms
    induction ms with
    | zero => exact fun _ _ hd => hd
    | succ ms ih =>
      intro d hms hd
      -- what `Q` says need not outlast the millisecond: settling brings it about again
      rw [pass_succ]
      refine ih d.advance ?_ ?_
      · rw [advance_eq, settle_clock]
        show d.clock + 1 + ms ≤ stop
        omega
      · rw [advance_eq]
        exact settle _ (wait d hd.1 hd.2 (by omega))
  exact hpass ms d.settle (by rw [settle_clock]; exact hms) (settle d hd)

/-- What settling brings about holds at every settled instant, if time alone keeps the rest. -/
theorem run_settled (settle : ∀ d, P d → P d.settle ∧ Q d.settle)
    (wait : ∀ d : Device, P d → P { d with clock := d.clock + 1 }) (hd : P d) (ms : Nat) :
    P (d.run ms) ∧ Q (d.run ms) :=
  run_settled_until settle (fun d hd _ _ => wait d hd) hd (Nat.le_refl _)

end Kept

theorem actAll_induction {P : Device → Prop} {d : Device} {actions : List Action}
    (act : ∀ d, P d → ∀ a ∈ actions, P (d.act a).1) (hd : P d) : P (d.actAll actions) := by
  induction actions generalizing d with
  | nil => exact hd
  | cons a rest ih =>
    exact ih (fun d hd a ha => act d hd a (List.mem_cons_of_mem _ ha))
      (act d hd a List.mem_cons_self)

theorem act_roles (d : Device) (a : Action) : (d.act a).1.roles = d.roles := by
  cases a with
  | run ms => exact kept_roles.run rfl ms
  | send event =>
    rw [act]
    cases d.events.push? event <;> rfl
  | setVoltage _ | setCurrent _ | setThermistor _ | plug _ | button _ | setFaults _ _ _ | receive
  | raise _ | setStatus _ | restart => rfl

theorem actAll_roles (d : Device) (actions : List Action) :
    (d.actAll actions).roles = d.roles :=
  actAll_induction (P := fun d' => d'.roles = d.roles)
    (fun d' h a _ => (act_roles d' a).trans h) rfl

/-- What monitor and flash writer work on is as before, and nothing was noted. -/
structure Untouched (d d' : Device) : Prop where
  monitor : d'.monitor = d.monitor
  flashWriter : d'.flashWriter = d.flashWriter
  store : d'.store = d.store
  flash : d'.board.flash.log = d.board.flash.log
  journal : d'.journal = d.journal

theorem Untouched.ledger_eq {d d' : Device} (h : Untouched d d') : d'.ledger = d.ledger := by
  rw [ledger, ledger, h.journal]

/-- **Only time and power cycles reach monitor and flash writer.** -/
theorem act_cases (d : Device) (a : Action) :
    (∃ ms, a = .run ms) ∨ a = .restart ∨ Untouched d (d.act a).1 := by
  cases a with
  | run ms => exact .inl ⟨ms, rfl⟩
  | restart => exact .inr (.inl rfl)
  | send event =>
    rw [act]
    cases d.events.push? event with
    | none => exact .inr (.inr ⟨rfl, rfl, rfl, rfl, rfl⟩)
    | some queue => exact .inr (.inr ⟨rfl, rfl, rfl, rfl, rfl⟩)
  | setVoltage _ | setCurrent _ | setThermistor _ | plug _ | button _ | setFaults _ _ _ | receive
  | raise _ | setStatus _ => exact .inr (.inr ⟨rfl, rfl, rfl, rfl, rfl⟩)

/-- What a device has done since an earlier moment, in order. -/
def entriesSince (d earlier : Device) : List Stamped :=
  (d.journal.take (d.journal.length - earlier.journal.length)).reverse

theorem entriesSince_of_append {d earlier : Device} {new : List Stamped}
    (h : d.journal = new ++ earlier.journal) : d.entriesSince earlier = new.reverse := by
  rw [entriesSince, h]
  simp

theorem entriesSince_of_eq {d earlier : Device} (h : d.journal = earlier.journal) :
    d.entriesSince earlier = [] := by
  rw [entriesSince, h, Nat.sub_self]
  rfl

theorem act_run (d : Device) (ms : Nat) : (d.act (.run ms)).1 = d.run ms := by rw [act]

theorem actAll_run (d : Device) (ms : Nat) : d.actAll [.run ms] = d.run ms := act_run d ms

theorem actAll_cons (d : Device) (a : Action) (rest : List Action) :
    d.actAll (a :: rest) = (d.act a).1.actAll rest := rfl

@[simp] theorem actAll_append (d : Device) (xs ys : List Action) :
    d.actAll (xs ++ ys) = (d.actAll xs).actAll ys :=
  List.foldl_append

end Device

end BatteryCare
