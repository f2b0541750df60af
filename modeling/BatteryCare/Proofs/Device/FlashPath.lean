import BatteryCare.Proofs.Device.Persistence
import BatteryCare.Proofs.Device.Steps
import BatteryCare.Proofs.Store.Handover
import Mathlib.Logic.Function.Basic

/-!
# The way of a write from the store to flash

A write that the word store accepts waits in the queue, then lies in the hands of the flash writer,
and comes to its end there, stored or not. On this way none is lost, doubled or overtaken: those
that came to their end, the one in hand and those in the queue are, in this order, the writes that
the store accepted since boot (`Delivers`). So the flash is the flash of the last boot after the
writes that were stored, and the image is the loaded one after all that were accepted, after every
step and whatever fails (`Delivers.flashPath`).
-/

namespace BatteryCare

/-! ## What the ledger says of writes -/

namespace Ledger

/-- The writes that the store has accepted since boot, in order. -/
def accepted (l : Ledger) : List WordWrite :=
  l.ticks.reverse.flatMap fun t => Store.accepted t.attempts

/-- The writes that came to their end since boot, in order. -/
def finished (l : Ledger) : List WordWrite := (l.commits.map Prod.fst).reverse

/-- Those among them that were stored, in order. -/
def stored (l : Ledger) : List WordWrite := (storedWrites l.commits).reverse

theorem accepted_cons {l l' : Ledger} {t : TickRecord} (h : l'.ticks = t :: l.ticks) :
    l'.accepted = l.accepted ++ Store.accepted t.attempts := by
  rw [accepted, h, List.reverse_cons, List.flatMap_append, List.flatMap_singleton]
  rfl

end Ledger

/-! ## The content of a flash -/

/-- The words of a flash after one more write. -/
def wordsAfter (words : UInt16 → Option UInt16) (w : WordWrite) : UInt16 → Option UInt16 :=
  Function.update words w.addr (some w.value)

theorem Flash.find?_cons {f f' : Flash} {w : WordWrite} (h : f'.log = w :: f.log) :
    f'.find? = wordsAfter f.find? w := by
  funext addr
  rw [find?, h, wordsAfter]
  by_cases haddr : addr = w.addr
  · rw [haddr, Function.update_self, List.find?_cons_of_pos (by simp)]
    rfl
  · rw [Function.update_of_ne haddr, List.find?_cons_of_neg (by simpa using Ne.symm haddr)]
    rfl

/-- **A flash with writes in front of an older log has the words of that log after the writes.** -/
theorem Flash.find?_append {f f' : Flash} {writes : List WordWrite}
    (h : f'.log = writes ++ f.log) : f'.find? = writes.reverse.foldl wordsAfter f.find? := by
  induction writes generalizing f' with
  | nil =>
    funext addr
    rw [find?, h]
    rfl
  | cons w rest ih =>
    have hrest : ({ f with log := rest ++ f.log } : Flash).find?
        = rest.reverse.foldl wordsAfter f.find? := ih rfl
    rw [List.reverse_cons, List.foldl_append, ← hrest]
    exact find?_cons h

/-! ## The invariant -/

namespace Device

/-- Where the writes are that the store accepted since a boot, at which the flash had the log
`base`. -/
inductive Delivers (base : List WordWrite) (d : Device) : Prop
  /-- No image is loaded, and nothing could be accepted. -/
  | unloaded (hw : d.flashWriter = .unloaded) (hs : d.store = none)
      (himage : d.ledger.image = none) (hcommits : d.ledger.commits = [])
      (hticks : d.ledger.ticks = []) (hlog : d.board.flash.log = base)
  /-- What was accepted came to its end, is in hand or waits. -/
  | loaded (hw : d.flashWriter ≠ .unloaded) (image : List UInt16) (queue : Fifo WordWrite)
      (himage : d.ledger.image = some image)
      (hs : d.store = some
        { image := overlay image d.ledger.accepted.reverse, pending := some queue })
      (horder : d.ledger.accepted
        = d.ledger.finished ++ (d.flashWriter.held ++ queue.toList))
      (hlog : d.board.flash.log = storedWrites d.ledger.commits ++ base)

variable {base : List WordWrite} {d : Device}

/-- A change that leaves writer, store and flash content alone, and notes nothing but the pin. -/
theorem Delivers.frame {d' : Device} (h : Delivers base d)
    (hwriter : d'.flashWriter = d.flashWriter) (hstore : d'.store = d.store)
    (hflash : d'.board.flash.log = d.board.flash.log) {high : Bool}
    (hledger : d'.ledger = { d.ledger with pin := high }) : Delivers base d' := by
  have himages : d'.ledger.image = d.ledger.image := by rw [hledger]
  have hcommits : d'.ledger.commits = d.ledger.commits := by rw [hledger]
  have hticks : d'.ledger.ticks = d.ledger.ticks := by rw [hledger]
  cases h with
  | unloaded hw hs himage hnone hfresh hlog =>
    exact .unloaded (hwriter.trans hw) (hstore.trans hs) (himages.trans himage)
      (hcommits.trans hnone) (hticks.trans hfresh) (hflash.trans hlog)
  | loaded hw image queue himage hs horder hlog =>
    have haccepted : d'.ledger.accepted = d.ledger.accepted := by
      rw [Ledger.accepted, hticks]
      rfl
    have hfinished : d'.ledger.finished = d.ledger.finished := by
      rw [Ledger.finished, hcommits]
      rfl
    refine .loaded (by rw [hwriter]; exact hw) image queue (himages.trans himage) ?_ ?_ ?_
    · rw [hstore, hs, haccepted]
    · rw [haccepted, horder, hfinished, hwriter]
    · rw [hflash, hlog, hcommits]

theorem delivers_boot (roles : List Role) (board : Board) (clock : Nat) (journal : List Stamped) :
    Delivers board.flash.log (boot roles board clock journal) :=
  .unloaded rfl rfl rfl rfl rfl rfl

/-- **A step of the flash writer** loads the image, or moves the oldest write on. -/
theorem Delivers.written (h : Delivers base d) {next : FlashWriter.Turn}
    (hnext : d.flashWriter.step d.board.flash d.store = some next) :
    Delivers base (d.written next) := by
  have hledger : (d.written next).ledger = next.entries.foldl Ledger.add d.ledger :=
    ledger_note _ _
  cases h with
  | unloaded hw hs himage hcommits hticks hlog =>
    rw [hw] at hnext
    obtain rfl := Option.some.inj hnext
    have haccepted : d.ledger.accepted = [] := by
      rw [Ledger.accepted, hticks]
      rfl
    refine .loaded (by simp [Device.written, note]) (d.board.flash.image storageWords)
      (.empty writeCapacity) (by rw [hledger]; rfl) ?_ ?_ ?_
    · rw [hledger]
      change some _ = some ({ image := overlay _ d.ledger.accepted.reverse, pending := _ } : Store)
      rw [haccepted]
      rfl
    · rw [hledger]
      change d.ledger.accepted = d.ledger.finished ++ []
      rw [haccepted, Ledger.finished, hcommits]
      rfl
    · rw [hledger]
      change d.board.flash.log = storedWrites d.ledger.commits ++ base
      rw [hcommits]
      exact hlog
  | loaded hw image queue himage hs horder hlog =>
    rw [hs] at hnext
    obtain ⟨commits, hloaded, ⟨queue', hstore, hwrites⟩, hflash, hentries⟩ :=
      FlashWriter.commits_step rfl hw hnext
    rw [hentries] at hledger
    have haccepted : (d.written next).ledger.accepted = d.ledger.accepted := by
      rw [Ledger.accepted, hledger]
      rfl
    -- what was in hand or waited has moved on, in order
    have hmoved : d.flashWriter.held ++ queue.toList
        = (commits.map Prod.fst).reverse ++ (next.writer.held ++ queue'.toList) := by
      rw [← List.reverse_inj, hwrites]
      simp only [List.reverse_append, List.reverse_reverse]
    refine .loaded hloaded image queue' (by rw [hledger]; exact himage) ?_ ?_ ?_
    · rw [haccepted]
      exact hstore
    · have hfinished : (d.written next).ledger.finished
          = d.ledger.finished ++ (commits.map Prod.fst).reverse := by
        rw [Ledger.finished, hledger, List.map_append, List.reverse_append]
        rfl
      rw [haccepted, horder, hmoved, hfinished, List.append_assoc]
      rfl
    · refine hflash.trans ?_
      rw [hledger, storedWrites_append, List.append_assoc, hlog]

/-- **A tick of the monitor** adds the writes that the store accepts at the end of the way. -/
theorem Delivers.pollMonitor (h : Delivers base d) : Delivers base d.pollMonitor := by
  have hwriter : d.pollMonitor.flashWriter = d.flashWriter := rfl
  have hflash : d.pollMonitor.board.flash.log = d.board.flash.log := rfl
  have hmove := d.pollMonitor_move
  generalize d.pollMonitor = d' at hmove hwriter hflash ⊢
  cases hmove with
  | begins high hnone hmonitor hstore hledger => exact h.frame hwriter hstore hflash hledger
  | rests => exact h
  | ticks high v told due window s t hmonitor hs' hdue ht hmonitor' hstore hledger =>
    cases h with
    | unloaded hw hs himage hcommits hticks hlog => exact absurd (hs'.symm.trans hs) (by simp)
    | loaded hw image queue himage hs horder hlog =>
      -- what the store accepts in this tick goes to the end of its queue
      have heq := Option.some.inj (hs'.symm.trans hs)
      have hpending : s.pending = some queue := by rw [heq]
      have haccepts : s.Accepts t.store (Store.accepted t.attempts) := by
        rw [← ht]
        exact Supervisor.accepts_tick _ hpending _ _
      obtain ⟨_, queue', hqueue, hlist, -, hs''⟩ := haccepts
      obtain rfl : queue = _ := Option.some.inj (hpending.symm.trans hqueue)
      have haccepted : d'.ledger.accepted = d.ledger.accepted ++ Store.accepted t.attempts :=
        Ledger.accepted_cons (t := Monitor.recordOf (d.board.sense window) d.status t)
          (by rw [hledger])
      have hfinished : d'.ledger.finished = d.ledger.finished := by
        rw [Ledger.finished, hledger]
        rfl
      refine .loaded (by rw [hwriter]; exact hw) image queue' (by rw [hledger]; exact himage)
        ?_ ?_ ?_
      · rw [haccepted, List.reverse_append, overlay_append, hstore, hs'', heq]
      · rw [haccepted, horder, hfinished, hlist, hwriter]
        simp only [List.append_assoc]
      · rw [hflash, hledger]
        exact hlog

theorem Delivers.poll (h : Delivers base d) {r : Role} (hr : r ≠ .flashWriter) :
    Delivers base (d.poll r) := by
  by_cases hm : r = .monitor
  · subst hm
    exact h.pollMonitor
  · have hsame := undisturbed_poll d hr hm
    exact h.frame hsame.flashWriter hsame.store (by rw [hsame.flash]) hsame.ledger

/-- **Every step but a power cycle keeps the writes in order.** -/
theorem Delivers.step (h : Delivers base d) {s : Step} (hs : s ≠ .restart) :
    Delivers base (d.step s) := by
  cases s with
  | turn r hr =>
    rw [Device.step, turn]
    split
    · exact h.poll hr
    · exact h
  | write =>
    rcases d.step_write_cases with hsame | ⟨next, hnext, hwritten⟩
    · rw [hsame]
      exact h
    · rw [hwritten]
      exact h.written hnext
  | wait => exact h.frame rfl rfl rfl rfl
  | act a ha =>
    rcases d.act_cases a with ⟨ms, hrun⟩ | hrestart | hsame
    · exact absurd hrun (ha.1 ms)
    · exact absurd hrestart ha.2
    · exact h.frame hsame.flashWriter hsame.store hsame.flash hsame.ledger_eq
  | restart => exact absurd rfl hs

theorem delivers_stepAll {booted : Device} (h : Delivers booted.board.flash.log d)
    (steps : List Step) :
    Delivers (bootBefore booted d steps).board.flash.log (d.stepAll steps) := by
  induction steps generalizing booted d with
  | nil => exact h
  | cons s rest ih =>
    by_cases hs : s = .restart
    · subst hs
      exact ih (delivers_boot d.roles d.board 0 d.journal)
    · rw [bootBefore_cons_of_ne booted d hs, stepAll_cons]
      exact ih (h.step hs)

/-- The writes that wait in the queue, the oldest first. -/
def queued (d : Device) : List WordWrite := d.store.elim [] Store.queued

/-- Where words and writes are on a device that was last booted as `booted`. -/
structure FlashPath (booted d : Device) : Prop where
  /-- The flash has the words of the last boot after the writes that were stored. -/
  words : d.board.flash.find? = d.ledger.stored.foldl wordsAfter booted.board.flash.find?
  /-- What is accepted and has not come to its end is in hand or waits. -/
  inOrder : d.ledger.accepted = d.ledger.finished ++ (d.flashWriter.held ++ d.queued)
  /-- The store shows the loaded image after all accepted writes. -/
  image : d.store.map Store.image
    = d.ledger.image.map fun image => overlay image d.ledger.accepted.reverse

theorem Delivers.flashPath {booted : Device} (h : Delivers booted.board.flash.log d) :
    FlashPath booted d := by
  cases h with
  | unloaded hw hs himage hcommits hticks hlog =>
    refine ⟨?_, ?_, ?_⟩
    · rw [Ledger.stored, hcommits]
      exact Flash.find?_append (show _ = [] ++ booted.board.flash.log from hlog)
    · rw [Ledger.accepted, Ledger.finished, queued, hticks, hcommits, hw, hs]
      rfl
    · rw [hs, himage]
      rfl
  | loaded hw image queue himage hs horder hlog =>
    refine ⟨Flash.find?_append hlog, ?_, ?_⟩
    · rw [queued, hs]
      exact horder
    · rw [hs, himage]
      rfl

/-- **Words and writes are where they belong at every settled instant**, whatever happens to the
device. -/
theorem flashPath_actAll (roles : List Role) (board : Board) (clock : Nat)
    (journal : List Stamped) (actions : List Action) :
    FlashPath (lastBoot (boot roles board clock journal) (boot roles board clock journal) actions)
      ((boot roles board clock journal).actAll actions) := by
  obtain ⟨steps, hsteps, hboot⟩ := exists_steps_actAll (boot roles board clock journal) actions
  rw [← hsteps, ← hboot]
  exact (delivers_stepAll (delivers_boot roles board clock journal) steps).flashPath

end Device

end BatteryCare
