import BatteryCare.Pack.Curve
import BatteryCare.Store

/-!
# The stored charge record

A charge estimate is kept as three words: a marker that tells a record from anything else, the
charge rounded to whole units, and the level in percent. The level word is for information only,
since a restored level always comes from the stored charge.

The words of a record are written one by one and in order. A word that the store is known to hold is
passed over. The first failure ends the saving, and from then on nothing is known of the word that
failed.
-/

namespace BatteryCare

/-- A charge together with its level. -/
structure Estimate where
  charge : Single
  /-- The charge in percent of a full pack. -/
  percent : UInt8
  deriving DecidableEq

namespace Estimate

/-- The estimate for a charge. -/
def ofCharge (charge : Single) : Estimate := ⟨charge, percentOf charge⟩

/-- First word of every record. -/
def marker : UInt16 := 0x50C1

/-- The record of an estimate. -/
def words (e : Estimate) : List UInt16 :=
  [marker, UInt16.ofNat (e.charge.round.toNatUpTo 65535), e.percent.toUInt16]

/-- Reads a record. Words without the marker, or with more charge than a full pack, are none. -/
def ofWords? : List UInt16 → Option Estimate
  | [first, charge, _] =>
    if first = marker ∧ Single.ofNat charge.toNat ≤ fullCharge then
      some (ofCharge (Single.ofNat charge.toNat))
    else none
  | _ => none

end Estimate

/-- Addresses of the record at `base`; they wrap around at the end of the address range. -/
def recordAddrs (base : UInt16) : List UInt16 := [base, base + 1, base + 2]

/-- One word of a record that is to be written. -/
structure Slot where
  addr : UInt16
  /-- What the store is known to hold there. -/
  cached : Option UInt16
  /-- What it is to hold. -/
  value : UInt16

/-- The outcome of saving a record. -/
structure Saved where
  store : Store
  /-- What the store is known to hold now, word by word. -/
  cache : List (Option UInt16)
  /-- The writes tried, in order. -/
  attempts : List WriteAttempt

namespace Store

/-- Reads words, all or none. -/
def readAll? (s : Store) (addrs : List UInt16) : Option (List UInt16) :=
  addrs.mapM fun addr => (s.read addr).toOption

/-- Writes those words that the store is not known to hold, up to the first failure. -/
def save (s : Store) : List Slot → Saved
  | [] => ⟨s, [], []⟩
  | slot :: rest =>
    if slot.cached = some slot.value then
      let r := s.save rest
      { r with cache := slot.cached :: r.cache }
    else
      let (s, attempt) := s.attempt ⟨slot.addr, slot.value⟩
      match attempt.error with
      | none =>
        let r := s.save rest
        { r with cache := some slot.value :: r.cache, attempts := attempt :: r.attempts }
      | some _ => ⟨s, none :: rest.map Slot.cached, [attempt]⟩

end Store

end BatteryCare
