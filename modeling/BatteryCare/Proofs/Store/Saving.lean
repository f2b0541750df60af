import BatteryCare.Proofs.Store.Writes
import Mathlib.Data.List.Nodup

/-!
# How far the saving of a record gets

Saving goes through the words in order and ends with the first write that fails. So the slots fall
into those that are saved and those that are left (`Reaches`): the store holds the words of the
first part and is otherwise unchanged, of the rest only the first one was tried, and nothing is
known of its word from then on. All that is said of a saved record later comes from this one split.
-/

namespace BatteryCare

/-! ## Words -/

namespace Store

/-- The word that the store holds at an address, whether or not it can be read just now. -/
def word? (s : Store) (addr : UInt16) : Option UInt16 := s.image[addr.toNat]?

theorem word?_write {s : Store} {w : WordWrite} (h : (s.write w).2 = .ok ()) :
    (s.write w).1.word? w.addr = some w.value
      ∧ ∀ addr ≠ w.addr, (s.write w).1.word? addr = s.word? addr := by
  have himage : (s.write w).1.image = s.image.set w.addr.toNat w.value
      ∧ w.addr.toNat < s.image.length := by
    have hwritten := s.written_write w
    generalize s.write w = outcome at hwritten h ⊢
    cases hwritten with
    | refused e => cases h
    | plain hp hin => exact ⟨rfl, hin⟩
    | queued queue queue' hp hin hpush => exact ⟨rfl, hin⟩
  refine ⟨?_, fun addr hne => ?_⟩
  · rw [word?, himage.1, List.getElem?_set_self himage.2]
  · rw [word?, himage.1, List.getElem?_set_ne fun he => hne (UInt16.toNat_inj.mp he).symm, word?]

@[simp] theorem word?_receive (s : Store) (n : Nat) (addr : UInt16) :
    (s.receive n).2.word? addr = s.word? addr := by
  rw [receive]
  cases s.pending <;> rfl

end Store

/-! ## Slots -/

namespace Slot

def wanted (slot : Slot) : WordWrite := ⟨slot.addr, slot.value⟩

/-- The word has to be written, as far as is known. -/
def isStale (slot : Slot) : Bool := slot.cached ≠ some slot.value

theorem isStale_iff {slot : Slot} : slot.isStale ↔ slot.cached ≠ some slot.value :=
  decide_eq_true_iff

/-- What is known of the word is what the store holds. -/
def IsTrue (s : Store) (slot : Slot) : Prop :=
  ∀ value, slot.cached = some value → s.word? slot.addr = some value

/-- What is known of the words of slots when the first of them could not be written. -/
def lost : List Slot → List (Option UInt16)
  | [] => []
  | _ :: rest => none :: rest.map cached

end Slot

/-! ## Saving -/

/-- A saving that gets through `saved`, and fails at the first of the slots that are `left`. -/
structure Reaches (s : Store) (saved left : List Slot) (r : Saved) : Prop where
  words : ∀ slot ∈ saved, r.store.word? slot.addr = some slot.value
  others : ∀ addr, addr ∉ saved.map Slot.addr → r.store.word? addr = s.word? addr
  cache : r.cache = saved.map (fun slot => some slot.value) ++ Slot.lost left
  stale : ∀ slot ∈ left.head?, slot.isStale
  attempts : ∃ error : StoreError, r.attempts
    = (saved.filter Slot.isStale).map (fun slot => ⟨slot.wanted, none⟩)
      ++ (left.take 1).map fun slot => ⟨slot.wanted, some error⟩

theorem Reaches.known {s : Store} {saved left : List Slot} {r : Saved} (h : Reaches s saved left r)
    {slot : Slot} (hcached : slot.cached = some slot.value)
    (hword : s.word? slot.addr = some slot.value) (hfresh : slot.addr ∉ saved.map Slot.addr) :
    Reaches s (slot :: saved) left { r with cache := slot.cached :: r.cache } := by
  obtain ⟨hwords, hothers, hcache, hstale, error, hattempts⟩ := h
  refine ⟨?_, ?_, ?_, hstale, error, ?_⟩
  · rw [List.forall_mem_cons]
    exact ⟨(hothers _ hfresh).trans hword, hwords⟩
  · intro addr hmem
    exact hothers addr fun h => hmem (List.mem_cons_of_mem _ h)
  · simp only [hcache, hcached, List.map_cons, List.cons_append]
  · rw [List.filter_cons_of_neg fun hstale => Slot.isStale_iff.mp hstale hcached]
    exact hattempts

theorem Reaches.written {s s' : Store} {saved left : List Slot} {r : Saved}
    (h : Reaches s' saved left r) {slot : Slot} (hcached : slot.cached ≠ some slot.value)
    (hword : s'.word? slot.addr = some slot.value)
    (hothers' : ∀ addr ≠ slot.addr, s'.word? addr = s.word? addr)
    (hfresh : slot.addr ∉ saved.map Slot.addr) :
    Reaches s (slot :: saved) left
      { r with
        cache := some slot.value :: r.cache
        attempts := ⟨slot.wanted, none⟩ :: r.attempts } := by
  obtain ⟨hwords, hothers, hcache, hstale, error, hattempts⟩ := h
  refine ⟨?_, ?_, ?_, hstale, error, ?_⟩
  · rw [List.forall_mem_cons]
    exact ⟨(hothers _ hfresh).trans hword, hwords⟩
  · intro addr hmem
    rw [List.map_cons, List.mem_cons, not_or] at hmem
    exact (hothers addr hmem.2).trans (hothers' addr hmem.1)
  · simp only [hcache, List.map_cons, List.cons_append]
  · rw [List.filter_cons_of_pos (Slot.isStale_iff.mpr hcached)]
    simp only [hattempts, List.map_cons, List.cons_append]

/-- **A saving gets through some slots, and fails at the next one if any is left.** -/
theorem Store.save_reaches {s : Store} {slots : List Slot} (hnodup : (slots.map Slot.addr).Nodup)
    (htrue : ∀ slot ∈ slots, slot.IsTrue s) :
    ∃ saved left, slots = saved ++ left ∧ Reaches s saved left (s.save slots) := by
  induction slots generalizing s with
  | nil =>
    exact ⟨[], [], rfl, by simp, fun _ _ => rfl, rfl, by simp, .busy, rfl⟩
  | cons slot rest ih =>
    obtain ⟨hfresh, hnodup⟩ := List.nodup_cons.mp hnodup
    obtain ⟨hslot, htrue⟩ := List.forall_mem_cons.mp htrue
    have hapart : ∀ saved left, rest = saved ++ left → slot.addr ∉ saved.map Slot.addr := by
      rintro saved left rfl hmem
      rw [List.map_append] at hfresh
      exact hfresh (List.mem_append_left _ hmem)
    rw [save]
    split
    · -- the word is there already
      rename_i hcached
      obtain ⟨saved, left, hslots, h⟩ := ih hnodup htrue
      exact ⟨slot :: saved, left, by rw [hslots, List.cons_append],
        h.known hcached (hslot _ hcached) (hapart saved left hslots)⟩
    · rename_i hcached
      cases houtcome : (s.write slot.wanted).2 with
      | error e =>
        -- nothing is saved, and this slot is the first of those left
        rw [show s.attempt ⟨slot.addr, slot.value⟩ = _ from attempt_error houtcome]
        exact ⟨[], slot :: rest, rfl, by simp, fun _ _ => rfl, rfl,
          fun _ hmem => Option.some.inj hmem ▸ Slot.isStale_iff.mpr hcached, e, rfl⟩
      | ok =>
        obtain ⟨hword, hothers⟩ := word?_write houtcome
        -- the slots have different addresses, so the rest is as true of the new store
        have htrue' : ∀ other ∈ rest, other.IsTrue (s.write slot.wanted).1 := by
          intro other hmem value hvalue
          have hne : other.addr ≠ slot.addr := fun he => hfresh (he ▸ List.mem_map_of_mem hmem)
          rw [hothers _ hne]
          exact htrue other hmem value hvalue
        obtain ⟨saved, left, hslots, h⟩ := ih hnodup htrue'
        rw [show s.attempt ⟨slot.addr, slot.value⟩ = _ from attempt_ok houtcome]
        exact ⟨slot :: saved, left, by rw [hslots, List.cons_append],
          h.written hcached hword hothers (hapart saved left hslots)⟩

/-- Saving tries nothing but the slots. -/
theorem Store.wanted_of_mem_attempts {s : Store} {slots : List Slot} :
    ∀ attempt ∈ (s.save slots).attempts, ∃ slot ∈ slots, attempt.write = slot.wanted := by
  induction slots generalizing s with
  | nil => exact fun attempt hmem => absurd hmem (by simp [save])
  | cons slot rest ih =>
    have later : ∀ {attempt : WriteAttempt} {s' : Store}, attempt ∈ (s'.save rest).attempts →
        ∃ slot' ∈ slot :: rest, attempt.write = slot'.wanted := by
      intro attempt s' hmem
      obtain ⟨slot', hslot', hwrite⟩ := ih attempt hmem
      exact ⟨slot', List.mem_cons_of_mem slot hslot', hwrite⟩
    have hwrite : (s.attempt ⟨slot.addr, slot.value⟩).2.write = slot.wanted := rfl
    intro attempt hmem
    rw [save] at hmem
    split at hmem
    · exact later hmem
    · dsimp only at hmem
      split at hmem
      · rcases List.mem_cons.mp hmem with rfl | hmem
        · exact ⟨slot, List.mem_cons_self, hwrite⟩
        · exact later hmem
      · rw [List.mem_singleton.mp hmem]
        exact ⟨slot, List.mem_cons_self, hwrite⟩

/-! ## What follows of a saving -/

namespace Reaches

variable {s : Store} {saved left : List Slot} {r : Saved}

theorem mem_attempts (h : Reaches s saved left r) {attempt : WriteAttempt}
    (hmem : attempt ∈ r.attempts) :
    ∃ slot ∈ saved ++ left, slot.isStale ∧ attempt.write = slot.wanted := by
  obtain ⟨error, hattempts⟩ := h.attempts
  rw [hattempts, List.mem_append, List.mem_map, List.mem_map] at hmem
  obtain ⟨slot, hslot, rfl⟩ | ⟨slot, hslot, rfl⟩ := hmem
  · obtain ⟨hslot, hstale⟩ := List.mem_filter.mp hslot
    exact ⟨slot, List.mem_append_left _ hslot, hstale, rfl⟩
  · have hhead : slot ∈ left.head? := by
      cases left with
      | nil => exact absurd hslot List.not_mem_nil
      | cons _ _ => rw [List.mem_singleton.mp hslot]; rfl
    exact ⟨slot, List.mem_append_right _ (List.mem_of_mem_take hslot), h.stale _ hhead, rfl⟩

/-- The writes are tried in the order of the slots. -/
theorem map_write_sublist (h : Reaches s saved left r) :
    (r.attempts.map WriteAttempt.write).Sublist ((saved ++ left).map Slot.wanted) := by
  obtain ⟨error, hattempts⟩ := h.attempts
  rw [hattempts, List.map_append, List.map_map, List.map_map, List.map_append]
  exact (List.filter_sublist.map _).append ((List.take_sublist 1 left).map _)

/-- Only the last write that is tried can fail. -/
theorem error_eq_none (h : Reaches s saved left r) :
    ∀ attempt ∈ r.attempts.dropLast, attempt.error = none := by
  obtain ⟨error, hattempts⟩ := h.attempts
  have hsaved : ∀ attempt ∈ (saved.filter Slot.isStale).map
      (fun slot => (⟨slot.wanted, none⟩ : WriteAttempt)), attempt.error = none := by
    simp only [List.mem_map, forall_exists_index, and_imp, forall_apply_eq_imp_iff₂, implies_true]
  intro attempt hmem
  rw [hattempts] at hmem
  cases left with
  | nil =>
    rw [List.take_nil, List.map_nil, List.append_nil] at hmem
    exact hsaved _ (List.dropLast_subset _ hmem)
  | cons slot rest =>
    rw [List.take_succ_cons, List.take_zero, List.map_singleton, List.dropLast_concat] at hmem
    exact hsaved _ hmem

/-- Without a failure nothing is left. -/
theorem left_eq_nil (h : Reaches s saved left r)
    (hok : ∀ attempt ∈ r.attempts, attempt.error = none) : left = [] := by
  obtain ⟨error, hattempts⟩ := h.attempts
  cases left with
  | nil => rfl
  | cons slot rest =>
    have hfailed : (⟨slot.wanted, some error⟩ : WriteAttempt) ∈ r.attempts := by
      rw [hattempts]
      exact List.mem_append_right _ (List.mem_singleton.mpr rfl)
    cases hok _ hfailed

/-- A stale word is tried, unless the write of an earlier one fails. -/
theorem tries_stale (h : Reaches s saved left r) {slot : Slot} (hslot : slot ∈ saved ++ left)
    (hstale : slot.isStale) : ∃ attempt ∈ r.attempts, attempt.write = slot.wanted
      ∨ (attempt.error ≠ none
        ∧ [attempt.write, slot.wanted].Sublist ((saved ++ left).map Slot.wanted)) := by
  obtain ⟨error, hattempts⟩ := h.attempts
  rw [hattempts]
  rcases List.mem_append.mp hslot with hsaved | hleft
  · exact ⟨⟨slot.wanted, none⟩, List.mem_append_left _
      (List.mem_map.mpr ⟨slot, List.mem_filter.mpr ⟨hsaved, hstale⟩, rfl⟩), .inl rfl⟩
  · obtain ⟨failed, rest, rfl⟩ := List.exists_cons_of_ne_nil (List.ne_nil_of_mem hleft)
    refine ⟨⟨failed.wanted, some error⟩, List.mem_append_right _ (List.mem_singleton.mpr rfl), ?_⟩
    rcases List.mem_cons.mp hleft with rfl | hrest
    · exact .inl rfl
    · refine .inr ⟨nofun, ?_⟩
      rw [List.map_append, List.map_cons]
      have htail := List.singleton_sublist.mpr (List.mem_map_of_mem (f := Slot.wanted) hrest)
      exact (htail.cons_cons _).trans (List.sublist_append_right _ _)

/-- What is known of the words afterwards is what the store holds. -/
theorem forall₂_cache (h : Reaches s saved left r) (hnodup : ((saved ++ left).map Slot.addr).Nodup)
    (htrue : ∀ slot ∈ left, slot.IsTrue s) :
    List.Forall₂ (fun addr cached => ∀ value ∈ cached, r.store.word? addr = some value)
      ((saved ++ left).map Slot.addr) r.cache := by
  rw [List.map_append, List.nodup_append] at hnodup
  obtain ⟨-, -, hapart⟩ := hnodup
  have hkept : ∀ slot ∈ left, ∀ value ∈ slot.cached, r.store.word? slot.addr = some value := by
    intro slot hslot value hvalue
    rw [h.others _ fun hmem => hapart _ hmem _ (List.mem_map_of_mem hslot) rfl]
    exact htrue slot hslot value hvalue
  rw [h.cache, List.map_append]
  refine List.rel_append ?_ ?_
  · rw [List.forall₂_map_left_iff, List.forall₂_map_right_iff, List.forall₂_same]
    intro slot hslot value hvalue
    rw [h.words slot hslot, Option.mem_some_iff.mp hvalue]
  · cases left with
    | nil => exact .nil
    | cons slot rest =>
      refine .cons nofun ?_
      rw [List.forall₂_map_left_iff, List.forall₂_map_right_iff, List.forall₂_same]
      exact (List.forall_mem_cons.mp hkept).2

theorem accepted_attempts (h : Reaches s saved left r) :
    Store.accepted r.attempts = (saved.filter Slot.isStale).map Slot.wanted := by
  obtain ⟨error, hattempts⟩ := h.attempts
  have hleft : (((left.take 1).map fun slot => (⟨slot.wanted, some error⟩ : WriteAttempt)).filter
      (·.error.isNone)) = [] := by
    rw [List.filter_eq_nil_iff]
    rintro attempt hmem
    obtain ⟨slot, -, rfl⟩ := List.mem_map.mp hmem
    exact Bool.false_ne_true
  have hsaved : (((saved.filter Slot.isStale).map
      fun slot => (⟨slot.wanted, none⟩ : WriteAttempt)).filter (·.error.isNone))
      = (saved.filter Slot.isStale).map fun slot => (⟨slot.wanted, none⟩ : WriteAttempt) := by
    rw [List.filter_eq_self]
    rintro attempt hmem
    obtain ⟨slot, -, rfl⟩ := List.mem_map.mp hmem
    rfl
  rw [Store.accepted, hattempts, List.filter_append, hleft, hsaved, List.append_nil, List.map_map]
  rfl

/-- A word is written and then holds the value of its slot, or it is not written and as it was. -/
theorem written_or_kept (h : Reaches s saved left r)
    (hnodup : ((saved ++ left).map Slot.addr).Nodup) (htrue : ∀ slot ∈ saved, slot.IsTrue s)
    {slot : Slot} (hslot : slot ∈ saved ++ left) :
    (slot.wanted ∈ Store.accepted r.attempts ∧ r.store.word? slot.addr = some slot.value)
      ∨ (∀ w ∈ Store.accepted r.attempts, w.addr ≠ slot.addr)
        ∧ r.store.word? slot.addr = s.word? slot.addr := by
  rw [h.accepted_attempts]
  by_cases hwritten : slot ∈ saved ∧ slot.isStale
  · exact .inl ⟨List.mem_map_of_mem (List.mem_filter.mpr hwritten), h.words slot hwritten.1⟩
  · refine .inr ⟨?_, ?_⟩
    · rintro w hw haddr
      obtain ⟨other, hother, rfl⟩ := List.mem_map.mp hw
      obtain ⟨hother, hstale⟩ := List.mem_filter.mp hother
      have heq := List.inj_on_of_nodup_map hnodup (List.mem_append_left _ hother) hslot haddr
      exact hwritten ⟨heq ▸ hother, heq ▸ hstale⟩
    · by_cases hsaved : slot ∈ saved
      · -- passed over, since the store held the value before
        have hcached : slot.cached = some slot.value := by
          by_contra hne
          exact hwritten ⟨hsaved, Slot.isStale_iff.mpr hne⟩
        rw [h.words slot hsaved, htrue slot hsaved _ hcached]
      · refine h.others _ fun hmem => ?_
        obtain ⟨other, hother, haddr⟩ := List.mem_map.mp hmem
        have heq := List.inj_on_of_nodup_map hnodup (List.mem_append_left _ hother) hslot haddr
        exact hsaved (heq ▸ hother)

end Reaches

end BatteryCare
