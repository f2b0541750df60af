import BatteryCare.Record

/-!
# What a queued store does with writes

A write is told to be refused or taken, and a queued store that takes one has it both in its image
and in its queue, and else in neither (`Store.written_write`, `Store.Accepts`). So the image is the
loaded one under all accepted writes, and in it the latest write to an address counts
(`getElem?_overlay`).
-/

namespace BatteryCare

/-- The image after writes, the latest first. -/
def overlay (image : List UInt16) (writes : List WordWrite) : List UInt16 :=
  writes.foldr (fun w image => image.set w.addr.toNat w.value) image

theorem overlay_append (image : List UInt16) (later earlier : List WordWrite) :
    overlay image (later ++ earlier) = overlay (overlay image earlier) later :=
  List.foldr_append

/-- **The latest write to an address decides its word.** -/
theorem getElem?_overlay (image : List UInt16) (writes : List WordWrite) (addr : UInt16) :
    (overlay image writes)[addr.toNat]?
      = image[addr.toNat]?.map fun word =>
          ((writes.find? (·.addr = addr)).map WordWrite.value).getD word := by
  induction writes with
  | nil => simp [overlay]
  | cons w rest ih =>
    change ((overlay image rest).set w.addr.toNat w.value)[addr.toNat]? = _
    by_cases h : w.addr = addr
    · subst h
      rw [List.find?_cons_of_pos (by simp), List.getElem?_set_self']
      rw [ih]
      cases image[w.addr.toNat]? <;> rfl
    · have hne : w.addr.toNat ≠ addr.toNat := fun he => h (UInt16.toNat_inj.mp he)
      rw [List.find?_cons_of_neg (by simpa using h), List.getElem?_set_ne hne, ih]

namespace Store

/-- The store has accepted writes: they lie behind those that wait, and the image shows them. -/
def Accepts (s s' : Store) (writes : List WordWrite) : Prop :=
  ∃ queue queue', s.pending = some queue ∧ queue'.toList = queue.toList ++ writes
    ∧ queue'.capacity = queue.capacity
    ∧ s' = { s with image := overlay s.image writes.reverse, pending := some queue' }

theorem Accepts.refl {s : Store} {queue : Fifo WordWrite} (h : s.pending = some queue) :
    Accepts s s [] := by
  refine ⟨queue, queue, h, by simp, rfl, ?_⟩
  rw [← h]
  rfl

theorem Accepts.trans {s s' s'' : Store} {xs ys : List WordWrite} (hx : Accepts s s' xs)
    (hy : Accepts s' s'' ys) : Accepts s s'' (xs ++ ys) := by
  obtain ⟨queue, queue', hqueue, hlist, hcapacity, rfl⟩ := hx
  obtain ⟨_, queue'', hqueue', hlist', hcapacity', rfl⟩ := hy
  cases hqueue'
  refine ⟨queue, queue'', hqueue, ?_, hcapacity'.trans hcapacity, ?_⟩
  · rw [hlist', hlist, List.append_assoc]
  · rw [List.reverse_append, overlay_append]

/-- The writes among the attempts that the store took. -/
def accepted (attempts : List WriteAttempt) : List WordWrite :=
  (attempts.filter (·.error.isNone)).map WriteAttempt.write

/-- What a write does to a store, with what is told of it. -/
inductive Written (s : Store) (w : WordWrite) : Store × Except StoreError Unit → Prop
  /-- It is refused, and nothing has changed. -/
  | refused (e : StoreError) : Written s w (s, .error e)
  /-- It goes into the image of a plain store. -/
  | plain (hp : s.pending = none) (hin : w.addr.toNat < s.size) :
      Written s w ({ s with image := s.image.set w.addr.toNat w.value }, .ok ())
  /-- It goes into the queue and into the image. -/
  | queued (queue queue' : Fifo WordWrite) (hp : s.pending = some queue)
      (hin : w.addr.toNat < s.size) (hpush : queue.push? w = some queue') :
      Written s w
        ({ s with image := s.image.set w.addr.toNat w.value, pending := some queue' }, .ok ())

/-- **A write changes image and queue together, or neither of them.** -/
theorem written_write (s : Store) (w : WordWrite) : Written s w (s.write w) := by
  rw [write]
  split
  · exact .refused .device
  · cases hp : s.pending with
    | none =>
      dsimp only
      rw [put]
      split
      · rename_i hin
        exact .plain hp hin
      · exact .refused (.outOfRange w.addr)
    | some queue =>
      dsimp only
      split
      · exact .refused (.outOfRange w.addr)
      · rename_i hsize
        have hin : w.addr.toNat < s.size := Nat.lt_of_not_le hsize
        cases hpush : queue.push? w with
        | none => exact .refused .busy
        | some queue' =>
          -- the address was found to lie inside before, so the image takes the write as well
          dsimp only
          rw [put, if_pos (show w.addr.toNat < ({ s with pending := some queue' } : Store).size from
            hin)]
          exact .queued queue queue' hp hin hpush

/-- A write that is refused leaves the whole store as it was. -/
theorem write_of_error {s : Store} {w : WordWrite} {e : StoreError}
    (h : (s.write w).2 = .error e) : (s.write w).1 = s := by
  have hwritten := s.written_write w
  generalize s.write w = outcome at hwritten h ⊢
  cases hwritten with
  | refused e' => rfl
  | plain hp hin => cases h
  | queued queue queue' hp hin hpush => cases h

theorem attempt_ok {s : Store} {w : WordWrite} (h : (s.write w).2 = .ok ()) :
    s.attempt w = ((s.write w).1, ⟨w, none⟩) := by
  rw [attempt]
  dsimp only
  rw [h]

theorem attempt_error {s : Store} {w : WordWrite} {e : StoreError}
    (h : (s.write w).2 = .error e) : s.attempt w = (s, ⟨w, some e⟩) := by
  rw [attempt]
  dsimp only
  rw [h, write_of_error h]

theorem accepts_attempt {s : Store} {queue : Fifo WordWrite} (h : s.pending = some queue)
    (w : WordWrite) : Accepts s (s.attempt w).1 (accepted [(s.attempt w).2]) := by
  cases houtcome : (s.write w).2 with
  | error e =>
    rw [attempt_error houtcome]
    exact Accepts.refl h
  | ok =>
    rw [attempt_ok houtcome]
    have hwritten := s.written_write w
    generalize s.write w = outcome at hwritten houtcome ⊢
    cases hwritten with
    | refused e => cases houtcome
    | plain hp hin => exact absurd (hp.symm.trans h) (by simp)
    | queued queue queue' hp hin hpush =>
      obtain ⟨hlist, hcapacity⟩ := Fifo.toList_push? hpush
      exact ⟨queue, queue', hp, hlist, hcapacity, rfl⟩

/-- **A queued store that saves a record accepts what it was asked to write, up to a failure.** -/
theorem accepts_save {s : Store} {queue : Fifo WordWrite} (h : s.pending = some queue)
    (slots : List Slot) : Accepts s (s.save slots).store (accepted (s.save slots).attempts) := by
  induction slots generalizing s queue with
  | nil => exact Accepts.refl h
  | cons slot rest ih =>
    rw [save]
    split
    · exact ih h
    · have hattempt := accepts_attempt h ⟨slot.addr, slot.value⟩
      dsimp only
      cases herror : (s.attempt ⟨slot.addr, slot.value⟩).2.error with
      | some e => exact hattempt
      | none =>
        obtain ⟨_, queue', _, _, _, hs'⟩ := id hattempt
        have hrest := ih (show (s.attempt ⟨slot.addr, slot.value⟩).1.pending = some queue' by
          rw [hs'])
        have htook : accepted [(s.attempt ⟨slot.addr, slot.value⟩).2]
            = [(s.attempt ⟨slot.addr, slot.value⟩).2.write] := by
          simp [accepted, herror]
        rw [htook] at hattempt
        have hall := hattempt.trans hrest
        simpa [accepted, herror] using hall

end Store

end BatteryCare
