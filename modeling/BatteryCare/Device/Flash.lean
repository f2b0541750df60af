import BatteryCare.Store

/-!
# Flash

The flash memory of the device with its faults, as it looks through the map of the library
`sequential-storage`, which keeps the words in it. That library is not part of this one. What is
taken over from its documentation is this: the map is a log of word writes in which the latest write
to an address counts. The log lies on pages, of which one at a time is open and takes the writes.
The first write opens a page, and a write that finds the page full moves the latest word of each
address to another one. Where these alone fill a page, the flash is full and every write fails. A
write that fails leaves the words as they are.

The order in which the library goes about a write is taken over too, so far as faults can tell it. A
write begins by reading, so a read fault ends it before it has begun. One that has begun does not
finish while the flash is stalled. As it finishes, a write fault fails it before anything changes. A
read fault that came up in between fails only a write without room, which has to read again once it
has taken the first step to another page. That step opens the page of a blank flash for good, but
only begins the move from a full page.
-/

namespace BatteryCare

/-- Words that a page takes: each with its address and checks has 12 of the 4088 bytes between the
marks of a page. -/
def pageWords : Nat := 340

/-- Flash memory with its faults. -/
structure Flash where
  /-- The writes that it holds, the latest first. -/
  log : List WordWrite := []
  /-- Words that the open page still takes; none before a page is open. -/
  room : Nat := 0
  /-- Writes that have begun do not finish. -/
  stalled : Bool := false
  /-- Reads fail. -/
  readFails : Bool := false
  /-- Writes fail as they finish. -/
  writeFails : Bool := false
  deriving DecidableEq, Repr

namespace Flash

/-- The word at an address, if one was ever written there. -/
def find? (f : Flash) (addr : UInt16) : Option UInt16 :=
  (f.log.find? (·.addr = addr)).map WordWrite.value

/-- The word that reading an address gives, if any. -/
def read? (f : Flash) (addr : UInt16) : Option UInt16 :=
  if f.readFails then none else f.find? addr

/-- The image of the first `size` words. Words never written and words that cannot be read are
erased. -/
def image (f : Flash) (size : Nat) : List UInt16 :=
  (List.range size).map fun addr => (f.read? (UInt16.ofNat addr)).getD erasedWord

/-- Room on another page once the latest word of each address is there. -/
def roomAfterMove (f : Flash) : Nat :=
  pageWords - (f.log.map WordWrite.addr).eraseDups.length

/-- Finishes a write that has begun and tells whether it was stored. A write that fails leaves the
words as they are. -/
def finish (f : Flash) (w : WordWrite) : Flash × Bool :=
  if f.writeFails then (f, false)
  else match f.room with
    | room + 1 => ({ f with log := w :: f.log, room }, true)
    | 0 =>
      if f.readFails then
        (if f.log.isEmpty then { f with room := f.roomAfterMove } else f, false)
      else match f.roomAfterMove with
        | room + 1 => ({ f with log := w :: f.log, room }, true)
        | 0 => (f, false)

/-- The flash after the given words were written from address zero on, without those left out. -/
def ofWords (words : List (Option UInt16)) : Flash :=
  words.zipIdx.foldl
    (fun f (word?, addr) => word?.elim f fun word => (f.finish ⟨UInt16.ofNat addr, word⟩).1) {}

end Flash

end BatteryCare
