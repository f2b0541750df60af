import BatteryCare.Fifo

/-!
# Word store

Addressed 16-bit words that outlive a power cycle. A store answers reads from an image in memory. A
plain store has nothing behind it; a queued store hands every accepted write on through a bounded
queue, for slow memory that must never hold up its user, and refuses a write while that queue is
full.

Faulty addresses model a broken device: reading or writing one fails before the store sees it.
-/

namespace BatteryCare

/-- Value of a word that has never been written. -/
def erasedWord : UInt16 := 0xFFFF

/-- Why a store refuses an access. -/
inductive StoreError where
  /-- The address lies outside the store. -/
  | outOfRange (addr : UInt16)
  /-- The write queue is full. -/
  | busy
  /-- The device under the store failed. -/
  | device
  deriving DecidableEq, Repr

/-- The wording of a refusal. -/
def StoreError.message : StoreError → String
  | outOfRange addr => "address " ++ addr.toNat.repr ++ " is out of range"
  | busy => "write queue is full"
  | device => "storage device error"

/-- The write of one word. -/
structure WordWrite where
  addr : UInt16
  value : UInt16
  deriving DecidableEq, Repr

/-- A write that was tried, with what became of it. -/
structure WriteAttempt where
  write : WordWrite
  /-- Nothing where the store took the write. -/
  error : Option StoreError
  deriving DecidableEq, Repr

/-- An image of words, the writes on their way to slower memory, and the faulty addresses. -/
structure Store where
  image : List UInt16
  /-- The queue of a queued store. -/
  pending : Option (Fifo WordWrite) := none
  /-- Addresses that cannot be read. -/
  faultyReads : List UInt16 := []
  /-- Addresses that cannot be written. -/
  faultyWrites : List UInt16 := []

namespace Store

/-- Words in the store. -/
def size (s : Store) : Nat := s.image.length

/-- The plain store of `size` erased words. -/
def erased (size : Nat) : Store := { image := List.replicate size erasedWord }

/-- The word at an address. -/
def read (s : Store) (addr : UInt16) : Except StoreError UInt16 :=
  if addr ∈ s.faultyReads then .error .device
  else
    match s.image[addr.toNat]? with
    | none => .error (.outOfRange addr)
    | some word => .ok word

/-- Puts a word into the image, unless its address lies outside. -/
def put (s : Store) (w : WordWrite) : Store × Except StoreError Unit :=
  if w.addr.toNat < s.size then ({ s with image := s.image.set w.addr.toNat w.value }, .ok ())
  else (s, .error (.outOfRange w.addr))

/-- Writes a word, and tells what became of it. A queued store looks at the address first, so that
no write outside the image gets into the queue. The image comes last, since a write without room in
the queue must not show up in it. -/
def write (s : Store) (w : WordWrite) : Store × Except StoreError Unit :=
  if w.addr ∈ s.faultyWrites then (s, .error .device)
  else
    match s.pending with
    | none => s.put w
    | some queue =>
      if s.size ≤ w.addr.toNat then (s, .error (.outOfRange w.addr))
      else
        match queue.push? w with
        | none => (s, .error .busy)
        | some queue => put { s with pending := some queue } w

/-- Tries a write. -/
def attempt (s : Store) (w : WordWrite) : Store × WriteAttempt :=
  let (s, outcome) := s.write w
  (s, ⟨w, match outcome with
    | .ok () => none
    | .error e => some e⟩)

/-- Erases every word of a plain store. A queued store cannot be erased. -/
def erase (s : Store) : Option Store :=
  match s.pending with
  | none => some { s with image := s.image.map fun _ => erasedWord }
  | some _ => none

/-- Takes at most `n` writes off the queue, in the order in which they were accepted. -/
def receive (s : Store) (n : Nat) : List WordWrite × Store :=
  match s.pending with
  | none => ([], s)
  | some queue =>
    let (taken, queue) := queue.take n
    (taken, { s with pending := some queue })

/-- Writes waiting in the queue. -/
def waiting (s : Store) : Nat := s.pending.elim 0 Fifo.length

end Store

end BatteryCare
