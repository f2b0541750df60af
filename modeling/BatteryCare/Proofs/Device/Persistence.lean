import BatteryCare.Proofs.Device.Rest
import BatteryCare.Proofs.Gauge.Moves
import BatteryCare.Proofs.Store.Writes

/-!
# What becomes of the record on its way to flash

The word store and the flash start from the same words when the image is loaded. From then on the
store goes with all writes that it accepted, and the flash with those that it stored (`Tracks`). A
write that fails is dropped by the flash writer, and neither the store nor the gauge hears of it. So
the two agree on an address exactly where the latest write to it came through
(`holds_iff_came_through`), and a record that was lost stays lost until the level moves on.
-/

namespace BatteryCare

/-! ## Flash -/

/-- The writes among the commits that were stored. -/
def storedWrites (commits : List (WordWrite × Bool)) : List WordWrite :=
  (commits.filter Prod.snd).map Prod.fst

namespace Flash

/-- The word at an address, erased where none was ever written there. -/
def word (f : Flash) (addr : UInt16) : UInt16 := (f.find? addr).getD erasedWord

/-- A write is stored in front of the others, or it changes no word. -/
theorem log_finish (f : Flash) (w : WordWrite) :
    (f.finish w).1.log = storedWrites [(w, (f.finish w).2)] ++ f.log := by
  unfold finish
  split
  · rfl
  · split
    · rfl
    · split
      · split
        · rfl
        · rfl
      · split
        · rfl
        · rfl

theorem image_of_reads {f : Flash} (h : f.readFails = false) (size : Nat) :
    f.image size = (List.range size).map fun addr => f.word (UInt16.ofNat addr) := by
  simp [image, read?, h, word]

/-- An image shows the words that can be read. -/
theorem getElem?_image {f : Flash} (h : f.readFails = false) {addr : UInt16} {size : Nat}
    (hlt : addr.toNat < size) : (f.image size)[addr.toNat]? = some (f.word addr) := by
  rw [image_of_reads h, List.getElem?_map, List.getElem?_range hlt]
  simp

end Flash

/-! ## The flash writer -/

theorem storedWrites_append (xs ys : List (WordWrite × Bool)) :
    storedWrites (xs ++ ys) = storedWrites xs ++ storedWrites ys := by
  rw [storedWrites, List.filter_append, List.map_append]
  rfl

theorem find?_storedWrites_of_none {commits : List (WordWrite × Bool)} {addr : UInt16}
    (h : commits.find? (·.1.addr = addr) = none) :
    (storedWrites commits).find? (·.addr = addr) = none := by
  rw [List.find?_eq_none] at h ⊢
  intro w hw
  obtain ⟨commit, hcommit, rfl⟩ := List.mem_map.mp hw
  exact h commit (List.mem_filter.mp hcommit).1

theorem find?_storedWrites_of_stored {commits : List (WordWrite × Bool)} {addr : UInt16}
    {w : WordWrite} (h : commits.find? (·.1.addr = addr) = some (w, true)) :
    (storedWrites commits).find? (·.addr = addr) = some w := by
  induction commits with
  | nil => exact absurd h (by simp)
  | cons commit rest ih =>
    by_cases haddr : commit.1.addr = addr
    · rw [List.find?_cons_of_pos (by simpa using haddr)] at h
      cases h
      exact List.find?_cons_of_pos (by simpa using haddr)
    · rw [List.find?_cons_of_neg (by simpa using haddr)] at h
      obtain ⟨w', stored⟩ := commit
      cases stored with
      | false => exact ih h
      | true => exact (List.find?_cons_of_neg (by simpa using haddr)).trans (ih h)

namespace FlashWriter

/-- The write that the writer holds. -/
def held : FlashWriter → List WordWrite
  | holding w => [w]
  | unloaded | idle => []

/-- Steps of a writer with a loaded image: of the writes that waited, `commits` came to their end,
the latest first, and the others still wait. -/
structure Commits (flash : Flash) (s : Store) (waiting : List WordWrite)
    (commits : List (WordWrite × Bool)) (turn : Turn) : Prop where
  loaded : turn.writer ≠ .unloaded
  store : ∃ queue, turn.store = some { s with pending := some queue }
    ∧ waiting.reverse = (turn.writer.held ++ queue.toList).reverse ++ commits.map Prod.fst
  log : turn.flash.log = storedWrites commits ++ flash.log
  entries : ∀ l : Ledger,
    turn.entries.foldl Ledger.add l = { l with commits := commits ++ l.commits }

theorem Commits.none {flash : Flash} {s : Store} {queue : Fifo WordWrite}
    (h : s.pending = some queue) {writer : FlashWriter} (hw : writer ≠ .unloaded) :
    Commits flash s (writer.held ++ queue.toList) [] { writer, flash, store := some s } where
  loaded := hw
  store := ⟨queue, by rw [← h], by simp⟩
  log := by simp [storedWrites]
  entries := fun _ => by simp

/-- What comes to its end later stands in front. -/
theorem Commits.append {flash : Flash} {s : Store} {waiting : List WordWrite}
    {commits commits' : List (WordWrite × Bool)} {t next : Turn} {queue : Fifo WordWrite}
    (h : Commits flash s waiting commits t)
    (hwaiting : waiting.reverse
      = (t.writer.held ++ queue.toList).reverse ++ commits.map Prod.fst)
    (hnext : Commits t.flash { s with pending := some queue } (t.writer.held ++ queue.toList)
      commits' next) :
    Commits flash s waiting (commits' ++ commits)
      { next with entries := t.entries ++ next.entries } where
  loaded := hnext.loaded
  store := by
    obtain ⟨queue', hstore, hreverse⟩ := hnext.store
    refine ⟨queue', hstore, ?_⟩
    rw [hwaiting, hreverse, List.map_append, List.append_assoc]
  log := by rw [storedWrites_append, List.append_assoc, ← h.log, ← hnext.log]
  entries := fun l => by
    rw [List.foldl_append, h.entries, hnext.entries, List.append_assoc]

theorem commits_step {flash : Flash} {s : Store} {queue : Fifo WordWrite}
    (h : s.pending = some queue) {writer : FlashWriter} (hw : writer ≠ .unloaded) {next : Turn}
    (hnext : writer.step flash (some s) = some next) :
    ∃ commits, Commits flash s (writer.held ++ queue.toList) commits next := by
  cases step_move hnext with
  | load => exact absurd rfl hw
  | @fail s₁ s' w rest hs htake hreads =>
    cases hs
    obtain ⟨_, queue', hpending, rfl, hqueue⟩ := Store.receive_one htake
    obtain rfl := Option.some.inj (h.symm.trans hpending)
    refine ⟨[(w, false)], by simp, ⟨queue', rfl, ?_⟩, rfl, fun _ => rfl⟩
    simp [hqueue, held]
  | @begin s₁ s' w rest hs htake hreads =>
    cases hs
    obtain ⟨_, queue', hpending, rfl, hqueue⟩ := Store.receive_one htake
    obtain rfl := Option.some.inj (h.symm.trans hpending)
    refine ⟨[], by simp, ⟨queue', rfl, ?_⟩, rfl, fun _ => rfl⟩
    simp [hqueue, held]
  | finish w hstalled =>
    refine ⟨[(w, (flash.finish w).2)], by simp, ⟨queue, by rw [← h], ?_⟩, flash.log_finish w,
      fun _ => rfl⟩
    simp [held]

theorem commits_poll (flash : Flash) {s : Store} {queue : Fifo WordWrite}
    (h : s.pending = some queue) {writer : FlashWriter} (hw : writer ≠ .unloaded) :
    ∃ commits, Commits flash s (writer.held ++ queue.toList) commits
      (writer.poll flash (some s)) := by
  refine poll_induction (P := fun t => ∃ commits, Commits flash s (writer.held ++ queue.toList)
    commits t) ⟨[], .none h hw⟩ ?_
  intro t next ⟨commits, ht⟩ hnext
  obtain ⟨queue', hstore, hwaiting⟩ := ht.store
  rw [hstore] at hnext
  obtain ⟨commits', hcommits'⟩ := commits_step rfl ht.loaded hnext
  exact ⟨_, ht.append hwaiting hcommits'⟩

end FlashWriter

/-- A tick hands the store the writes that it accepts, and no others. -/
theorem Supervisor.accepts_tick (v : Supervisor) {store : Store} {queue : Fifo WordWrite}
    (h : store.pending = some queue) (s : Sample) (now : UInt32) :
    store.Accepts (v.tick store s now).store (Store.accepted (v.tick store s now).attempts) := by
  have hmove := v.gauge.update_move store s.voltage
  change store.Accepts (v.gauge.update store s.voltage).store
    (Store.accepted (v.gauge.update store s.voltage).attempts)
  generalize v.gauge.update store s.voltage = outcome at hmove
  cases hmove with
  | reject hv => exact Store.Accepts.refl h
  | keep hv hk => exact Store.Accepts.refl h
  | save hv hk => exact Store.accepts_save h _

/-! ## The invariant -/

/-- The image that a flash with these writes loads, if it can be read. -/
def loadedImage (log : List WordWrite) : List UInt16 := Flash.image { log } storageWords

/-- The store that was loaded from a flash with `log` and has accepted `writes` since then, the
latest first. -/
def Store.since (log writes : List WordWrite) (queue : Fifo WordWrite) : Store where
  image := overlay (loadedImage log) writes
  pending := some queue

theorem Store.since_pending (log writes : List WordWrite) (queue : Fifo WordWrite) :
    (since log writes queue).pending = some queue := rfl

/-- Such a store shows the latest write to an address, and the loaded word where there is none. -/
theorem Store.read_since (log writes : List WordWrite) (queue : Fifo WordWrite) {addr : UInt16}
    (h : addr.toNat < storageWords) :
    (since log writes queue).read addr
      = .ok (((writes.find? (·.addr = addr)).map WordWrite.value).getD
          (Flash.word { log } addr)) := by
  have hread : (overlay (loadedImage log) writes)[addr.toNat]?
      = some (((writes.find? (·.addr = addr)).map WordWrite.value).getD
          (Flash.word { log } addr)) := by
    rw [getElem?_overlay, loadedImage, Flash.getElem?_image rfl h]
    rfl
  rw [read, if_neg (show addr ∉ (since log writes queue).faultyReads by simp [since]), since, hread]

theorem Store.accepts_since {log writes new : List WordWrite} {queue : Fifo WordWrite} {s : Store}
    (h : (since log writes queue).Accepts s new) :
    ∃ queue' : Fifo WordWrite, queue'.toList = queue.toList ++ new
      ∧ s = since log (new.reverse ++ writes) queue' := by
  obtain ⟨_, queue', hqueue, hlist, _, rfl⟩ := h
  cases hqueue
  have himage := overlay_append (loadedImage log) new.reverse writes
  exact ⟨queue', hlist, by rw [since, since, himage]⟩

namespace Device

/-- Where store and flash are since the last boot. -/
inductive Tracks (d : Device) : Prop
  /-- Nothing is loaded. -/
  | unloaded (hw : d.flashWriter = .unloaded) (hs : d.store = none) (hc : d.ledger.commits = [])
  /-- Both started from `log`. The store goes with all writes that it accepted, and the flash with
  those that were stored. -/
  | loaded (hw : d.flashWriter ≠ .unloaded) (log : List WordWrite) (queue : Fifo WordWrite)
      (hs : d.store = some (.since log
        ((d.flashWriter.held ++ queue.toList).reverse ++ d.ledger.commits.map Prod.fst) queue))
      (hf : d.board.flash.log = storedWrites d.ledger.commits ++ log)

/-- A change that leaves writer, store, flash content and commits alone. -/
theorem Tracks.frame {d d' : Device} (h : Tracks d) (hwriter : d'.flashWriter = d.flashWriter)
    (hstore : d'.store = d.store) (hlog : d'.board.flash.log = d.board.flash.log)
    (hcommits : d'.ledger.commits = d.ledger.commits) : Tracks d' := by
  cases h with
  | unloaded hw hs hc =>
    exact Tracks.unloaded (hwriter.trans hw) (hstore.trans hs) (hcommits.trans hc)
  | loaded hw log queue hs hf =>
    refine Tracks.loaded (by rw [hwriter]; exact hw) log queue ?_ ?_
    · rw [hstore, hs, hwriter, hcommits]
    · rw [hlog, hf, hcommits]

theorem tracks_boot (roles : List Role) (board : Board) (clock : Nat) (journal : List Stamped) :
    Tracks (boot roles board clock journal) :=
  Tracks.unloaded rfl rfl rfl

theorem Tracks.pollFlashWriter {d : Device} (h : Tracks d)
    (hreads : d.flashWriter = .unloaded → d.board.flash.readFails = false) :
    Tracks d.pollFlashWriter ∧ d.pollFlashWriter.flashWriter ≠ .unloaded := by
  have hledger : d.pollFlashWriter.ledger
      = (d.flashWriter.poll d.board.flash d.store).entries.foldl Ledger.add d.ledger :=
    ledger_note _ _
  cases h with
  | unloaded hw hs hc =>
    have hpoll : d.flashWriter.poll d.board.flash d.store
        = FlashWriter.poll d.board.flash none .unloaded := by rw [hw, hs]
    have hwriter : d.pollFlashWriter.flashWriter = .idle := by
      change (d.flashWriter.poll d.board.flash d.store).writer = _
      rw [hpoll]
      rfl
    have hcommits : d.pollFlashWriter.ledger.commits = [] := by
      rw [hledger, hpoll]
      exact hc
    have hne : d.pollFlashWriter.flashWriter ≠ .unloaded := by
      rw [hwriter]
      simp
    -- from here on both go on from what is on flash now
    refine ⟨Tracks.loaded hne d.board.flash.log (.empty writeCapacity) ?_ ?_, hne⟩
    · change (d.flashWriter.poll d.board.flash d.store).store = _
      rw [hwriter, hcommits, hpoll, Store.since, loadedImage, Flash.image_of_reads rfl,
        FlashWriter.poll_unloaded, Flash.image_of_reads (hreads hw)]
      rfl
    · change (d.flashWriter.poll d.board.flash d.store).flash.log = _
      rw [hcommits, hpoll]
      rfl
  | loaded hw log queue hs hf =>
    obtain ⟨commits, hloaded, ⟨queue', hstore, hwrites⟩, hlog, hentries⟩ :=
      FlashWriter.commits_poll d.board.flash (Store.since_pending log _ queue) hw
    rw [← hs] at hloaded hstore hwrites hlog hentries
    have hcommits : d.pollFlashWriter.ledger.commits = commits ++ d.ledger.commits := by
      rw [hledger, hentries]
    refine ⟨Tracks.loaded hloaded log queue' ?_ ?_, hloaded⟩
    · refine hstore.trans ?_
      rw [hwrites, hcommits, List.map_append, List.append_assoc]
      rfl
    · refine hlog.trans ?_
      rw [hcommits, storedWrites_append, List.append_assoc, hf]

theorem Tracks.pollMonitor {d : Device} (h : Tracks d) : Tracks d.pollMonitor := by
  have hwriter : d.pollMonitor.flashWriter = d.flashWriter := rfl
  have hflash : d.pollMonitor.board.flash.log = d.board.flash.log := rfl
  have hmove := d.pollMonitor_move
  generalize d.pollMonitor = d' at hmove hwriter hflash ⊢
  cases hmove with
  | begins high hnone hmonitor hstore hledger =>
    exact h.frame hwriter hstore hflash (by rw [hledger])
  | rests => exact h
  | ticks high v told due window s t hmonitor hs hdue ht hmonitor' hstore hledger =>
    have hcommits : d'.ledger.commits = d.ledger.commits := by rw [hledger]
    cases h with
    | unloaded hw hs' hc => exact absurd (hs.symm.trans hs') (by simp)
    | loaded hw log queue hs' hf =>
      have heq : s = Store.since log _ queue := Option.some.inj (hs.symm.trans hs')
      have haccepts : s.Accepts t.store (Store.accepted t.attempts) := by
        rw [← ht]
        exact Supervisor.accepts_tick _ (show s.pending = some queue by rw [heq]; rfl) _ _
      rw [heq] at haccepts
      obtain ⟨queue', hlist, hs''⟩ := Store.accepts_since haccepts
      -- the image shows the new writes at once, and they wait behind the others
      have hwrites : (d'.flashWriter.held ++ queue'.toList).reverse
          = (Store.accepted t.attempts).reverse
            ++ (d.flashWriter.held ++ queue.toList).reverse := by
        rw [hwriter, hlist, ← List.append_assoc, List.reverse_append]
      refine Tracks.loaded (by rw [hwriter]; exact hw) log queue' ?_ ?_
      · rw [hstore, hs'', hcommits, hwrites, List.append_assoc]
      · rw [hflash, hcommits]
        exact hf

/-- The flash can be read when the image is loaded, now or later. -/
def Readable (d : Device) : Prop := d.flashWriter = .unloaded → d.board.flash.readFails = false

/-- **Every turn keeps store and flash on the track.** -/
theorem kept_tracks : Kept fun d => Tracks d ∧ Readable d where
  poll := by
    rintro d r ⟨h, hreads⟩
    by_cases hw : r = .flashWriter
    · subst hw
      obtain ⟨htracks, hloaded⟩ := h.pollFlashWriter hreads
      exact ⟨htracks, fun hw => absurd hw hloaded⟩
    by_cases hm : r = .monitor
    · subst hm
      exact ⟨h.pollMonitor, hreads⟩
    have hsame := undisturbed_poll d hw hm
    refine ⟨h.frame hsame.flashWriter hsame.store (by rw [hsame.flash])
      (by rw [hsame.ledger]), ?_⟩
    rw [Readable, hsame.flashWriter, hsame.flash]
    exact hreads
  wait := fun _ ⟨h, hreads⟩ => ⟨h.frame rfl rfl rfl rfl, hreads⟩

/-- Whenever one of the actions lets the device load its image, the flash can be read. -/
def LoadsCleanly (d : Device) : List Action → Prop
  | [] => True
  | a :: rest => (∀ ms, a = .run ms → Readable d) ∧ (d.act a).1.LoadsCleanly rest

theorem Tracks.act {d : Device} (h : Tracks d) {a : Action} (ha : ∀ ms, a = .run ms → Readable d) :
    Tracks (d.act a).1 := by
  rcases d.act_cases a with ⟨ms, rfl⟩ | rfl | hsame
  · exact (kept_tracks.run ⟨h, ha ms rfl⟩ ms).1
  · exact tracks_boot _ _ _ _
  · exact h.frame hsame.flashWriter hsame.store hsame.flash (by rw [hsame.ledger_eq])

theorem Tracks.actAll {d : Device} (h : Tracks d) {actions : List Action}
    (ha : d.LoadsCleanly actions) : Tracks (d.actAll actions) := by
  induction actions generalizing d with
  | nil => exact h
  | cons a rest ih => exact ih (h.act ha.1) ha.2

/-! ## What is lost -/

/-- The last write to an address that came to its end since boot, with whether it was stored. -/
def lastCommit? (d : Device) (addr : UInt16) : Option (WordWrite × Bool) :=
  d.ledger.commits.find? (·.1.addr = addr)

/-- The last write to the address came through, or the flash held its word already. -/
def CameThrough (d : Device) (addr : UInt16) : Prop :=
  ∀ w stored, d.lastCommit? addr = some (w, stored) →
    stored = true ∨ d.board.flash.word addr = w.value

end Device

/-- The flash holds the record that the store shows. -/
def Flash.Holds (f : Flash) (s : Store) : Prop :=
  ∀ addr ∈ recordAddrs 0, s.read addr = .ok (f.word addr)

namespace Device

/-- With no write on its way, the store shows at an address what the last write to it was to
store, and else what was loaded. -/
theorem Tracks.read_eq {d : Device} (h : Tracks d) (hidle : d.flashWriter = .idle)
    (hpending : d.pendingWrites = 0) :
    ∃ s log, d.store = some s ∧ d.board.flash.log = storedWrites d.ledger.commits ++ log
      ∧ ∀ addr : UInt16, addr.toNat < storageWords → s.read addr
        = .ok (((d.lastCommit? addr).map (·.1.value)).getD (Flash.word { log } addr)) := by
  cases h with
  | unloaded hw hs hc => exact absurd (hw.symm.trans hidle) (by simp)
  | loaded hw log queue hs hf =>
    refine ⟨_, log, hs, hf, ?_⟩
    intro addr haddr
    have hqueue : queue.toList = [] := by
      rw [pendingWrites, hs] at hpending
      exact List.length_eq_zero_iff.mp hpending
    have hlast :
        ((d.flashWriter.held ++ queue.toList).reverse ++ d.ledger.commits.map Prod.fst).find?
          (·.addr = addr) = (d.lastCommit? addr).map Prod.fst := by
      rw [hidle, hqueue, lastCommit?]
      exact List.find?_map
    rw [Store.read_since log _ queue haddr, hlast, Option.map_map]
    rfl

/-- **At an address, store and flash agree exactly if the last write to it came through.** -/
theorem read_eq_word_iff {d : Device} {s : Store} {log : List WordWrite} {addr : UInt16}
    (hflash : d.board.flash.log = storedWrites d.ledger.commits ++ log)
    (hread : s.read addr
      = .ok (((d.lastCommit? addr).map (·.1.value)).getD (Flash.word { log } addr))) :
    s.read addr = .ok (d.board.flash.word addr) ↔ d.CameThrough addr := by
  have hword : d.board.flash.word addr
      = ((((storedWrites d.ledger.commits).find? (·.addr = addr)).or
          (log.find? (·.addr = addr))).map WordWrite.value).getD erasedWord := by
    rw [Flash.word, Flash.find?, hflash, List.find?_append]
  rw [hread]
  cases hlast : d.lastCommit? addr with
  | none =>
    -- both still show the word that was loaded
    rw [find?_storedWrites_of_none hlast] at hword
    constructor
    · intro _ w stored hw
      exact absurd (hlast.symm.trans hw) (by simp)
    · intro _
      rw [hword]
      rfl
  | some commit =>
    obtain ⟨w, stored⟩ := commit
    cases stored with
    | true =>
      rw [find?_storedWrites_of_stored hlast] at hword
      constructor
      · intro _ w' stored' hw'
        cases hlast.symm.trans hw'
        exact Or.inl rfl
      · intro _
        rw [hword]
        rfl
    | false =>
      constructor
      · intro heq w' stored' hw'
        cases hlast.symm.trans hw'
        exact Or.inr (Except.ok.inj heq).symm
      · -- the store shows the write that failed, so the flash has to hold its word by luck
        intro hcame
        rcases hcame w false hlast with hstored | hsame
        · exact absurd hstored (by simp)
        · rw [hsame]
          rfl

/-! ## Restarts -/

end Device

theorem Supervisor.start_gauge (store : Store) :
    (Supervisor.start {} store).gauge = Gauge.restore {} store := rfl

namespace Device

section Boot

variable (roles : List Role) (board : Board) (clock : Nat) (journal : List Stamped)

theorem turn_dispatcher_boot :
    (boot roles board clock journal).turn .dispatcher = boot roles board clock journal := by
  rcases turn_eq_or (boot roles board clock journal) .dispatcher with heq | heq
  · rw [heq]
    rfl
  · exact heq

/-- A device that is switched on restores the estimate from the image of its flash. -/
theorem settle_boot (hw : .flashWriter ∈ roles) (hm : .monitor ∈ roles) :
    (boot roles board clock journal).settle.monitor
      = .waiting (.start {} { image := board.flash.image storageWords
                              pending := some (.empty writeCapacity) }) .off
          (clock + settleTime) [] := by
  have hfirst : (boot roles board clock journal).round.monitor
      = .waiting (.start {} { image := board.flash.image storageWords
                              pending := some (.empty writeCapacity) }) .off
          (clock + settleTime) [] := by
    rw [round, turn_dispatcher_boot, turn_monitor_of_ne _ (by simp), turn_monitor_of_ne _ (by simp),
      turn_of_mem (by rw [turn_roles]; exact hm), turn_of_mem hw]
    rfl
  have hahead : TickAhead (boot roles board clock journal).round :=
    ⟨_, _, _, _, hfirst, by rw [round_clock]; exact Nat.lt_add_of_pos_right (by decide)⟩
  rw [settle, hahead.round_monitor]
  exact hfirst

end Boot

/--
**Whether the flash holds the record that the store shows, once nothing is on its way**: exactly if
the last write to each of its words came through. Then a restart restores that record. A write that
failed is not tried again, so only a later write to the same word makes up for it.
-/
theorem holds_iff_came_through {roles : List Role} (hw : .flashWriter ∈ roles)
    (hm : .monitor ∈ roles) (board : Board) (clock : Nat) (journal : List Stamped)
    {actions : List Action} (hloads : (boot roles board clock journal).LoadsCleanly actions)
    {d : Device} (hd : (boot roles board clock journal).actAll actions = d)
    (hidle : d.flashWriter = .idle) (hpending : d.pendingWrites = 0) :
    ∃ s, d.store = some s
      ∧ (d.board.flash.Holds s ↔ ∀ addr ∈ recordAddrs 0, d.CameThrough addr)
      ∧ (d.board.flash.Holds s → d.board.flash.readFails = false →
          ∃ v told due window, d.restart.settle.monitor = .waiting v told due window
            ∧ v.gauge = Gauge.restore {} s) := by
  have hroles : d.roles = roles := by
    rw [← hd, actAll_roles]
    rfl
  have htracks : Tracks d := by
    rw [← hd]
    exact (tracks_boot roles board clock journal).actAll hloads
  have hrecord : ∀ addr ∈ recordAddrs 0, addr.toNat < storageWords := by
    intro addr haddr
    simp only [recordAddrs, List.mem_cons, List.not_mem_nil, or_false] at haddr
    rcases haddr with rfl | rfl | rfl
    · decide
    · decide
    · decide
  -- nothing is on its way, so flash and image differ only where a write failed
  obtain ⟨s, log, hs, hflash, hread⟩ := htracks.read_eq hidle hpending
  refine ⟨s, hs, ?_, ?_⟩
  · constructor
    · intro hholds addr haddr
      exact (read_eq_word_iff hflash (hread addr (hrecord addr haddr))).mp (hholds addr haddr)
    · intro hcame addr haddr
      exact (read_eq_word_iff hflash (hread addr (hrecord addr haddr))).mpr (hcame addr haddr)
  · intro hholds hreads
    refine ⟨_, _, _, _, settle_boot d.roles d.board 0 d.journal (by rw [hroles]; exact hw)
      (by rw [hroles]; exact hm), ?_⟩
    rw [Supervisor.start_gauge]
    refine Gauge.restore_congr fun addr haddr => ?_
    rw [hholds addr haddr, Store.read, if_neg (by simp), Flash.getElem?_image hreads
      (hrecord addr haddr)]

/-- A device that takes its first sample without a fault. -/
theorem holds_iff_came_through_first_tick :
    ∃ s, ((boot [.dispatcher, .flashWriter, .monitor] { voltage := some 3000 } 0 []).actAll
        [.run 600]).store = some s
      ∧ (((boot [.dispatcher, .flashWriter, .monitor] { voltage := some 3000 } 0 []).actAll
            [.run 600]).board.flash.Holds s
          ↔ ∀ addr ∈ recordAddrs 0, ((boot [.dispatcher, .flashWriter, .monitor]
              { voltage := some 3000 } 0 []).actAll [.run 600]).CameThrough addr) := by
  have hw : Role.flashWriter ∈ [.dispatcher, .flashWriter, .monitor] := by decide
  have hm : Role.monitor ∈ [.dispatcher, .flashWriter, .monitor] := by decide
  have hloads : (boot [.dispatcher, .flashWriter, .monitor] { voltage := some 3000 } 0
      []).LoadsCleanly [.run 600] := ⟨fun _ _ _ => rfl, trivial⟩
  have hrun := run_tick
    (by decide +kernel : AtRest (boot [.dispatcher, .flashWriter, .monitor]
      { voltage := some 3000 } 0 []).settle 500)
    (by decide +kernel) (by decide +kernel : AtRest _ 1500) 100
    (by decide +kernel : 600 = _) (by decide)
  obtain ⟨s, hs, hiff, _⟩ := holds_iff_came_through hw hm { voltage := some 3000 } 0 [] hloads rfl
    (by rw [actAll_run, hrun]; decide +kernel) (by rw [actAll_run, hrun]; decide +kernel)
  exact ⟨s, hs, hiff⟩

/-! ## A record that is lost -/

theorem not_holds_of_read {d : Device} {word : UInt16}
    (hread : (d.store.bind fun s => (s.read 0).toOption) = some word)
    (hword : d.board.flash.word 0 ≠ word) : ∃ s, d.store = some s ∧ ¬ d.board.flash.Holds s := by
  obtain ⟨s, hs, hs'⟩ := Option.bind_eq_some_iff.mp hread
  refine ⟨s, hs, fun hholds => hword ?_⟩
  rw [hholds 0 (by decide)] at hs'
  exact Option.some.inj hs'

/-- A device that has loaded an empty image, and whose flash refuses writes from then on. -/
def refusing : Device :=
  (boot [.dispatcher, .flashWriter, .monitor] {} 0 []).actAll
    [.setVoltage (some 3000), .setThermistor (some 2000), .run 0, .setFaults false false true]

/-- The same device after its first tick, with the flash in order again. -/
def recovered : Device := refusing.actAll [.run 600, .setFaults false false false]

theorem run_refusing :
    refusing.run 600
      = { ({ refusing.settle with clock := 500 } : Device).settle with clock := 600 } :=
  run_tick (by decide +kernel : AtRest _ 500) (by decide +kernel)
    (by decide +kernel : AtRest _ 1500) 100 (by decide +kernel) (by decide)

theorem recovered_eq :
    recovered = (Device.act
      { ({ refusing.settle with clock := 500 } : Device).settle with clock := 600 }
      (.setFaults false false false)).1 := by
  rw [recovered, actAll_cons, act_run, run_refusing]
  rfl

theorem run_recovered :
    recovered.run 1000
      = { ({ recovered.settle with clock := 1500 } : Device).settle with clock := 1600 } := by
  rw [recovered_eq]
  exact run_tick (by decide +kernel : AtRest _ 1500) (by decide +kernel)
    (by decide +kernel : AtRest _ 2500) 100 (by decide +kernel) (by decide)

/-- A fault at one tick can cost the record: the next tick takes its sample without a fault, and
the flash still does not hold what the store shows. -/
theorem not_holds_recovered :
    (boot [.dispatcher, .flashWriter, .monitor] {} 0 []).LoadsCleanly
        ([.setVoltage (some 3000), .setThermistor (some 2000), .run 0, .setFaults false false true]
          ++ [.run 600, .setFaults false false false] ++ [.run 1000])
      ∧ (boot [.dispatcher, .flashWriter, .monitor] {} 0 []).actAll
          ([.setVoltage (some 3000), .setThermistor (some 2000), .run 0,
            .setFaults false false true] ++ [.run 600, .setFaults false false false]
            ++ [.run 1000]) = recovered.run 1000
      ∧ (recovered.run 1000).flashWriter = .idle ∧ (recovered.run 1000).pendingWrites = 0
      ∧ (recovered.run 1000).board.flash.stalled = false
      ∧ (recovered.run 1000).board.flash.readFails = false
      ∧ (recovered.run 1000).board.flash.writeFails = false
      ∧ (recovered.run 1000).ledger.ticks.length = recovered.ledger.ticks.length + 1
      ∧ (recovered.run 1000).ledger.ticks.head?.any (·.report.voltage.isSome) = true
      ∧ ∃ s, (recovered.run 1000).store = some s
          ∧ ¬ (recovered.run 1000).board.flash.Holds s := by
  refine ⟨?_, ?_, ?_⟩
  · exact ⟨fun _ h => absurd h (by simp), fun _ h => absurd h (by simp), fun _ _ _ => rfl,
      fun _ h => absurd h (by simp), fun _ _ _ => rfl, fun _ h => absurd h (by simp),
      fun _ _ _ => rfl, trivial⟩
  · rw [actAll_append, actAll_append, actAll_run, recovered, refusing]
  · rw [run_recovered, recovered_eq]
    refine ⟨by decide +kernel, by decide +kernel, by decide +kernel, by decide +kernel,
      by decide +kernel, by decide +kernel, by decide +kernel, ?_⟩
    exact not_holds_of_read (by decide +kernel : _ = some Estimate.marker) (by decide +kernel)

end Device

end BatteryCare
