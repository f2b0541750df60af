import BatteryCare.Device.Journal

/-!
# Flash writer

Loads the image of the word store at boot and afterwards brings the queued writes to flash, one at a
time and in order. Each of them takes a step to leave the queue and another to come to its end, and
the power can fail between any two steps. The loading is a single step, since nothing before it
depends on the flash and it changes none of it. A write that fails is dropped. A write that the
flash delays stays in the hands of the writer until the flash is no longer stalled, and those behind
it stay in the queue.
-/

namespace BatteryCare

/-- Words in the image. -/
def storageWords : Nat := 16

/-- Writes that can wait for the flash. -/
def writeCapacity : Nat := 8

/-- What the flash writer is at. -/
inductive FlashWriter where
  /-- The image has not been loaded. -/
  | unloaded
  /-- It waits for the next write. -/
  | idle
  /-- It holds a write that has not finished. -/
  | holding (write : WordWrite)
  deriving DecidableEq, Repr

namespace FlashWriter

/-- The flash writer, the flash and the word store after a turn, or after a step of it. -/
structure Turn where
  writer : FlashWriter
  flash : Flash
  /-- Nothing before the image is loaded. -/
  store : Option Store
  entries : List Entry := []

/-- The next step of the writer: it loads the image, takes a write from the queue and begins it, or
brings the one that it holds to its end. There is none where it has to wait. -/
def step (flash : Flash) (store : Option Store) : FlashWriter → Option Turn
  | unloaded =>
    let image := flash.image storageWords
    some
      { writer := idle
        flash
        store := some { image, pending := some (.empty writeCapacity) }
        entries := [.loaded image] }
  | idle =>
    match store.map (·.receive 1) with
    | some (w :: _, store) =>
      -- a write begins by reading the flash
      if flash.readFails then
        some { writer := idle, flash, store := some store, entries := [.committed w false] }
      else some { writer := holding w, flash, store := some store }
    | some ([], _) | none => none
  | holding w =>
    if flash.stalled then none
    else
      let (flash, stored) := flash.finish w
      some { writer := idle, flash, store, entries := [.committed w stored] }

/-- Goes on for `n` steps, or until the writer has to wait. -/
def goOn (flash : Flash) (store : Option Store) (writer : FlashWriter) : Nat → Turn
  | 0 => { writer, flash, store }
  | n + 1 =>
    match writer.step flash store with
    | none => { writer, flash, store }
    | some next =>
      let rest := goOn next.flash next.store next.writer n
      { rest with entries := next.entries ++ rest.entries }

/-- Steps that are left at most before the writer has to wait: two for each write in the queue, one
for the write that it holds, and one for the image. -/
def stepsLeft (store : Option Store) : FlashWriter → Nat
  | unloaded => 1
  | idle => 2 * store.elim 0 Store.waiting
  | holding _ => 2 * store.elim 0 Store.waiting + 1

/-- Goes on from where the writer is until it has to wait. -/
def poll (flash : Flash) (store : Option Store) (writer : FlashWriter) : Turn :=
  goOn flash store writer (writer.stepsLeft store)

end FlashWriter

end BatteryCare
