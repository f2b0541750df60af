import BatteryCare.Proofs.Store.Writes
import Mathlib.Data.List.Induction

/-!
# A queued store hands on what it accepts

A queued store keeps every accepted write twice, in its image and in its queue. Whatever is read,
written and taken off the queue, in any order, the two copies stay together (`Linked`). So to its
user the store is the plain one that got the accepted writes and no others, and what comes out at
the other end of the queue are those writes, in order and without a gap (`handsOn_run`).
-/

namespace BatteryCare

/-- What is asked of a queued store, at either end. -/
inductive StoreCall where
  | read (addr : UInt16)
  | write (w : WordWrite)
  /-- Up to `n` writes are taken off the queue. -/
  | receive (n : Nat)
  deriving DecidableEq, Repr

/-- A store with the writes that it has accepted and those that were taken off its queue. -/
structure Handover where
  store : Store
  accepted : List WordWrite := []
  received : List WordWrite := []

namespace Store

/-- The writes that wait in the queue, the oldest first. -/
def queued (s : Store) : List WordWrite := s.pending.elim [] Fifo.toList

/-- Writes words in order, up to the first refusal. -/
def writeAll (s : Store) : List WordWrite → Store × Except StoreError Unit
  | [] => (s, .ok ())
  | w :: rest =>
    match s.write w with
    | (s, .ok ()) => s.writeAll rest
    | (s, .error e) => (s, .error e)

end Store

namespace Handover

def start (image : List UInt16) (capacity : Nat) : Handover where
  store := { image, pending := some (.empty capacity) }

def act (h : Handover) : StoreCall → Handover
  | .read _ => h
  | .write w =>
    { h with
      store := (h.store.attempt w).1
      accepted := h.accepted ++ Store.accepted [(h.store.attempt w).2] }
  | .receive n =>
    { h with
      store := (h.store.receive n).2
      received := h.received ++ (h.store.receive n).1 }

def run (h : Handover) (calls : List StoreCall) : Handover := calls.foldl act h

end Handover

/-! ## Plain stores -/

section Plain

variable {image : List UInt16} {w : WordWrite}

theorem Store.write_plain (h : w.addr.toNat < image.length) :
    ({ image } : Store).write w = ({ image := image.set w.addr.toNat w.value }, .ok ()) := by
  rw [write, if_neg (by simp)]
  exact if_pos h

/-- A plain store takes all writes that lie inside it. -/
theorem Store.writeAll_plain {writes : List WordWrite}
    (h : ∀ w ∈ writes, w.addr.toNat < image.length) :
    ({ image } : Store).writeAll writes = ({ image := overlay image writes.reverse }, .ok ()) := by
  induction writes generalizing image with
  | nil => rfl
  | cons w rest ih =>
    have hrest : ∀ v ∈ rest, v.addr.toNat < (image.set w.addr.toNat w.value).length := by
      intro v hv
      rw [List.length_set]
      exact h v (List.mem_cons_of_mem w hv)
    rw [writeAll, write_plain (h w List.mem_cons_self), List.reverse_cons, overlay_append]
    exact ih hrest

theorem length_overlay (image : List UInt16) (writes : List WordWrite) :
    (overlay image writes).length = image.length := by
  induction writes with
  | nil => rfl
  | cons w rest ih => exact List.length_set.trans ih

end Plain

/-! ## Queued stores -/

namespace Store

variable {s : Store} {w : WordWrite}

theorem accepted_of_ok (h : (s.write w).2 = .ok ()) : accepted [(s.attempt w).2] = [w] := by
  rw [attempt_ok h]
  rfl

theorem accepted_of_error {e : StoreError} (h : (s.write w).2 = .error e) :
    accepted [(s.attempt w).2] = [] := by
  rw [attempt_error h]
  rfl

/-- A write to a queued store, once its address is known to lie inside. -/
theorem write_of_inside {queue : Fifo WordWrite} (hp : s.pending = some queue)
    (hf : s.faultyWrites = []) (hin : w.addr.toNat < s.size) :
    s.write w = match queue.push? w with
      | none => (s, .error .busy)
      | some queue =>
        ({ s with image := s.image.set w.addr.toNat w.value, pending := some queue }, .ok ()) := by
  rw [write, if_neg (by simp [hf]), hp]
  dsimp only
  rw [if_neg (Nat.not_le.mpr hin)]
  cases queue.push? w with
  | none => rfl
  | some queue' => exact if_pos hin

/-- **When a store with a queue refuses a write**, if no address is faulty: the address is looked at
first, and then the room in the queue. -/
theorem write_eq_error_iff {queue : Fifo WordWrite} (hp : s.pending = some queue)
    (hf : s.faultyWrites = []) {e : StoreError} :
    (s.write w).2 = .error e ↔ (e = .outOfRange w.addr ∧ s.size ≤ w.addr.toNat)
      ∨ (e = .busy ∧ w.addr.toNat < s.size ∧ queue.length = queue.capacity) := by
  -- the same order as the store's: outside the image it never gets as far as the queue
  by_cases hsize : s.size ≤ w.addr.toNat
  · have hwrite : s.write w = (s, .error (.outOfRange w.addr)) := by
      rw [write, if_neg (by simp [hf]), hp]
      exact if_pos hsize
    rw [hwrite]
    constructor
    · intro h
      cases h
      exact .inl ⟨rfl, hsize⟩
    · rintro (⟨rfl, -⟩ | ⟨-, hlt, -⟩)
      · rfl
      · omega
  · have hlt : w.addr.toNat < s.size := Nat.lt_of_not_le hsize
    rw [write_of_inside hp hf hlt, ← Fifo.push?_eq_none_iff (a := w)]
    cases hpush : queue.push? w with
    | none =>
      constructor
      · intro h
        cases h
        exact .inr ⟨rfl, hlt, rfl⟩
      · rintro (⟨-, hout⟩ | ⟨rfl, -⟩)
        · omega
        · rfl
    | some queue' =>
      constructor
      · intro h
        cases h
      · rintro (⟨-, hout⟩ | ⟨-, -, hfull⟩)
        · omega
        · cases hfull

end Store

namespace Handover

/-- Image and queue go together: both come from the accepted writes. -/
def Linked (image : List UInt16) (capacity : Nat) (h : Handover) : Prop :=
  ∃ queue : Fifo WordWrite,
    h.store = { image := overlay image h.accepted.reverse, pending := some queue }
      ∧ queue.capacity = capacity
      ∧ h.received ++ queue.toList = h.accepted
      ∧ ∀ w ∈ h.accepted, w.addr.toNat < image.length

theorem linked_start (image : List UInt16) (capacity : Nat) :
    Linked image capacity (start image capacity) :=
  ⟨.empty capacity, rfl, rfl, rfl, by simp [start]⟩

variable {image : List UInt16} {capacity : Nat} {h : Handover}

/-- **Every call keeps the two copies together.** -/
theorem Linked.act (hl : Linked image capacity h) (call : StoreCall) :
    Linked image capacity (h.act call) := by
  obtain ⟨queue, hstore, hcapacity, horder, hinside⟩ := hl
  have hpending : h.store.pending = some queue := by rw [hstore]
  cases call with
  | read addr => exact ⟨queue, hstore, hcapacity, horder, hinside⟩
  | receive n =>
    have hreceive : h.store.receive n
        = (queue.toList.take n, { h.store with pending := some (queue.take n).2 }) := by
      rw [Store.receive, hpending]
      rfl
    refine ⟨(queue.take n).2, ?_, hcapacity, ?_, hinside⟩
    · change (h.store.receive n).2 = _
      rw [hreceive, hstore]
      rfl
    · change (h.received ++ (h.store.receive n).1) ++ _ = h.accepted
      rw [hreceive, List.append_assoc, ← horder]
      exact congrArg _ (queue.take_append_toList n)
  | write w =>
    obtain ⟨_, queue', hqueue, hlist, hcapacity', hstore'⟩ := Store.accepts_attempt hpending w
    obtain rfl : queue = _ := Option.some.inj (hpending.symm.trans hqueue)
    refine ⟨queue', ?_, hcapacity'.trans hcapacity, ?_, ?_⟩
    · change (h.store.attempt w).1
        = { image := overlay image (h.accepted ++ _).reverse, pending := some queue' }
      rw [List.reverse_append, overlay_append, hstore', hstore]
    · change h.received ++ queue'.toList = h.accepted ++ _
      rw [hlist, ← List.append_assoc, horder]
    · have hsize : h.store.size = image.length := by
        rw [hstore]
        exact length_overlay image _
      intro v hv
      rcases List.mem_append.mp hv with hv | hv
      · exact hinside v hv
      · -- a write outside the image would not have been accepted
        cases houtcome : (h.store.write w).2 with
        | error e =>
          rw [Store.accepted_of_error houtcome] at hv
          cases hv
        | ok =>
          rw [Store.accepted_of_ok houtcome] at hv
          rw [List.mem_singleton.mp hv, ← hsize]
          by_contra hout
          have herror := (Store.write_eq_error_iff hpending (by rw [hstore])).mpr
            (.inl ⟨rfl, Nat.le_of_not_lt hout⟩)
          exact absurd (houtcome.symm.trans herror) (by simp)

theorem linked_run (image : List UInt16) (capacity : Nat) (calls : List StoreCall) :
    Linked image capacity ((start image capacity).run calls) := by
  induction calls using List.reverseRecOn with
  | nil => exact linked_start image capacity
  | append_singleton calls call ih =>
    rw [run, List.foldl_append]
    exact ih.act call

/-- What holds of a queued store of `image` after any calls. -/
structure HandsOn (image : List UInt16) (capacity : Nat) (h : Handover) : Prop where
  /-- Nothing is lost, doubled or reordered on the way through the queue. -/
  inOrder : h.received ++ h.store.queued = h.accepted
  /-- A plain store takes the accepted writes as well, and then shows the same. -/
  plain : ∃ plain, ({ image } : Store).writeAll h.accepted = (plain, .ok ())
    ∧ h.store.image = plain.image ∧ ∀ addr, h.store.read addr = plain.read addr
  refused : ∀ w e, (h.store.write w).2 = .error e
    ↔ (e = .outOfRange w.addr ∧ image.length ≤ w.addr.toNat)
      ∨ (e = .busy ∧ w.addr.toNat < image.length ∧ h.store.queued.length = capacity)
  /-- A write that is refused leaves image and queue as they are, and is not an accepted one. -/
  unchanged : ∀ w e, (h.store.write w).2 = .error e →
    (h.store.write w).1 = h.store ∧ h.act (.write w) = h
  inside : ∀ w ∈ h.store.queued, w.addr.toNat < image.length

/--
**A queued store is a plain store and a queue**, for every image, every capacity, and whatever is
read, written and taken off the queue.
-/
theorem handsOn_run (image : List UInt16) (capacity : Nat) (calls : List StoreCall) :
    HandsOn image capacity ((start image capacity).run calls) := by
  obtain ⟨queue, hstore, hcapacity, horder, hinside⟩ := linked_run image capacity calls
  generalize (start image capacity).run calls = h at hstore horder hinside ⊢
  have hpending : h.store.pending = some queue := by rw [hstore]
  have hqueued : h.store.queued = queue.toList := by
    rw [Store.queued, hpending]
    rfl
  refine ⟨?_, ⟨_, Store.writeAll_plain hinside, ?_, ?_⟩, ?_, ?_, ?_⟩
  · rw [hqueued]
    exact horder
  · rw [hstore]
  · intro addr
    rw [hstore]
    rfl
  · intro w e
    have hsize : h.store.size = image.length := by
      rw [hstore]
      exact length_overlay image _
    rw [Store.write_eq_error_iff hpending (by rw [hstore]), hsize, hcapacity, hqueued]
    rfl
  · intro w e herror
    refine ⟨Store.write_of_error herror, ?_⟩
    have hstore' : (h.store.attempt w).1 = h.store := by rw [Store.attempt_error herror]
    rw [act, hstore', Store.accepted_of_error herror, List.append_nil]
  · intro w hw
    rw [hqueued] at hw
    exact hinside w (horder ▸ List.mem_append_right _ hw)

end Handover

end BatteryCare
