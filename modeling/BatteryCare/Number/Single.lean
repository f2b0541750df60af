/-!
# Single precision numbers

The battery curve and the analog front end are calibrated in binary32 arithmetic, and a stored
charge has to come out the same to the last bit. This module holds that arithmetic in exact whole
numbers: a finite value is counted in units of `2 ^ -149`, the smallest positive single, so every
finite single is an integer, and an operation is an exact integer computation followed by one
rounding.

* `Single.nearest num den` is the single nearest to `num / den` units, a tie going to the neighbour
  whose last place is even. All four operations, decimal literals and integers come from it.
* Zero has one form. The sign of a zero is never observable here: no quotient by zero is taken, and
  every conversion out of a single reads both zeros as `0`.
* `Single.ofBits` and `Single.bits` read and write the interchange format.
-/

namespace BatteryCare

/-! ## Rounding -/

/-- The whole number nearest to `num / den`; a half goes to the even neighbour. -/
def roundHalfEven (num den : Nat) : Nat :=
  let whole := num / den
  let rest := num % den
  if 2 * rest < den ∨ (2 * rest = den ∧ whole % 2 = 0) then whole else whole + 1

theorem roundHalfEven_le (num den : Nat) : roundHalfEven num den ≤ num / den + 1 := by
  unfold roundHalfEven
  dsimp only
  split <;> omega

/-- The rounded quotient is within half of the exact one. -/
theorem roundHalfEven_near {num den : Nat} (hden : 0 < den) :
    2 * num ≤ 2 * (den * roundHalfEven num den) + den ∧
      2 * (den * roundHalfEven num den) ≤ 2 * num + den := by
  have hsplit := Nat.div_add_mod num den
  have hrest := Nat.mod_lt num hden
  unfold roundHalfEven
  dsimp only
  split
  · omega
  · rw [Nat.mul_add]
    omega

/-- A quotient halfway between two whole numbers goes to the even one. -/
theorem roundHalfEven_even_of_half {num den : Nat} (hhalf : 2 * (num % den) = den) :
    roundHalfEven num den % 2 = 0 := by
  unfold roundHalfEven
  dsimp only
  split <;> omega

theorem roundHalfEven_mul_left {n den : Nat} (hden : 0 < den) :
    roundHalfEven (n * den) den = n := by
  unfold roundHalfEven
  simp [Nat.mul_div_cancel n hden, Nat.mul_mod_left, hden]

/-- How many binary places of `n` lie below its leading 24. -/
def placesBelow (n : Nat) : Nat := n.log2 - 23

/-- `num / den` rounded to a whole number whose places past the leading 24 are zero. -/
def roundRatio (num den : Nat) : Nat :=
  let places := placesBelow (num / den)
  roundHalfEven num (den <<< places) <<< places

/-- The first number of more than 24 places. -/
def digitLimit : Nat := 0x1000000

/-- Cutting the places below the leading 24 leaves a number of at most 24 places. -/
theorem shiftRight_placesBelow_lt (n : Nat) : n >>> placesBelow n < digitLimit := by
  rw [Nat.shiftRight_eq_div_pow, Nat.div_lt_iff_lt_mul (Nat.two_pow_pos _),
    show digitLimit = 2 ^ 24 from rfl, ← Nat.pow_add]
  refine Nat.lt_of_lt_of_le Nat.lt_log2_self (Nat.pow_le_pow_right (by decide) ?_)
  unfold placesBelow
  omega

/-- The first magnitude past the finite range, in units. -/
def rangeLimit : Nat := 1 <<< 277

/-- What a finite magnitude can be: at most 24 leading places, within the range. -/
def Representable (n : Nat) : Prop :=
  n < rangeLimit ∧ ∃ digits places, digits < digitLimit ∧ n = digits <<< places

theorem representable_zero : Representable 0 :=
  ⟨by decide, 0, 0, by decide, rfl⟩

theorem representable_roundRatio {num den : Nat} (h : roundRatio num den < rangeLimit) :
    Representable (roundRatio num den) := by
  refine ⟨h, ?_⟩
  have hle : roundHalfEven num (den <<< placesBelow (num / den)) ≤ digitLimit := by
    refine Nat.le_trans (roundHalfEven_le _ _) ?_
    rw [Nat.shiftLeft_eq, ← Nat.div_div_eq_div_mul, ← Nat.shiftRight_eq_div_pow]
    exact shiftRight_placesBelow_lt _
  rcases Nat.lt_or_eq_of_le hle with hlt | heq
  · exact ⟨_, _, hlt, rfl⟩
  · -- the one case where rounding carries into a 25th place, and leaves a power of two
    refine ⟨0x800000, placesBelow (num / den) + 1, by decide, ?_⟩
    rw [roundRatio, heq, Nat.add_comm, Nat.shiftLeft_add]
    rfl

/-- A number of at most 24 places, shifted, has nothing to round away. -/
theorem placesBelow_shiftLeft_le {digits places : Nat} (h : digits < digitLimit) :
    placesBelow (digits <<< places) ≤ places := by
  rw [placesBelow, Nat.shiftLeft_eq]
  rcases Nat.eq_zero_or_pos digits with rfl | hpos
  · simp
  · have hne : digits * 2 ^ places ≠ 0 :=
      Nat.ne_of_gt (Nat.mul_pos hpos (Nat.two_pow_pos places))
    have hlt : digits * 2 ^ places < 2 ^ (24 + places) := by
      rw [Nat.pow_add]
      exact Nat.mul_lt_mul_of_pos_right h (Nat.two_pow_pos places)
    have := (Nat.log2_lt hne).2 hlt
    omega

/-- Rounding leaves a representable number as it is. -/
theorem roundRatio_one {n : Nat} (h : Representable n) : roundRatio n 1 = n := by
  obtain ⟨_, digits, places, hdigits, rfl⟩ := h
  have hle : placesBelow (digits <<< places) ≤ places := placesBelow_shiftLeft_le hdigits
  rw [roundRatio, Nat.div_one]
  generalize placesBelow (digits <<< places) = cut at hle
  obtain ⟨more, rfl⟩ := Nat.exists_eq_add_of_le hle
  have hsplit : digits <<< (cut + more) = digits <<< more * 1 <<< cut := by
    simp only [Nat.shiftLeft_eq, Nat.pow_add, Nat.one_mul]
    rw [Nat.mul_comm (2 ^ cut), Nat.mul_assoc]
  have hcut : 0 < 1 <<< cut := by
    rw [Nat.shiftLeft_eq, Nat.one_mul]
    exact Nat.two_pow_pos cut
  rw [hsplit, roundHalfEven_mul_left hcut, Nat.shiftLeft_eq, Nat.shiftLeft_eq 1, Nat.one_mul]

/-! ## Values -/

/-- A single precision number. A finite one is a count of units of `2 ^ -149`. -/
inductive Single where
  /-- The result of an operation without a value. -/
  | nan
  /-- A magnitude beyond the finite range. -/
  | infinity (negative : Bool)
  | finite (units : Int) (representable : Representable units.natAbs)
  deriving DecidableEq

namespace Single

/-- The units in one. -/
def one : Nat := 1 <<< 149

protected def zero : Single := finite 0 representable_zero

/-- The single nearest to `num / den` units, infinite where that passes the finite range. -/
def nearest (num : Int) (den : Nat) : Single :=
  let n := roundRatio num.natAbs den
  if h : n < rangeLimit then
    if num < 0 then finite (-n) (by rw [Int.natAbs_neg]; exact representable_roundRatio h)
    else finite n (representable_roundRatio h)
  else infinity (num < 0)

/-- A representable number of units is its own nearest single. -/
theorem nearest_one {u : Int} (h : Representable u.natAbs) :
    nearest u 1 = finite u h := by
  unfold nearest
  simp only [roundRatio_one h, h.1, dite_true]
  split
  · congr 1; omega
  · congr 1; omega

/-- The single nearest to a whole number. -/
def ofNat (n : Nat) : Single := nearest (n * one) 1

/-- The single nearest to `digits * 10 ^ -places`, or to `digits * 10 ^ places`. -/
def ofDecimal (digits : Nat) (fraction : Bool) (places : Nat) : Single :=
  if fraction then nearest (digits * one) (Nat.pow 10 places)
  else nearest (digits * Nat.pow 10 places * one) 1

instance : Inhabited Single := ⟨Single.zero⟩

instance (n : Nat) : OfNat Single n := ⟨ofNat n⟩

instance : OfScientific Single := ⟨ofDecimal⟩

/-! ## Arithmetic -/

protected def neg : Single → Single
  | nan => nan
  | infinity negative => infinity (!negative)
  | finite a h => finite (-a) (by rwa [Int.natAbs_neg])

/-- The magnitude. -/
def abs : Single → Single
  | nan => nan
  | infinity _ => infinity false
  | finite a h => finite a.natAbs (by rwa [Int.natAbs_natCast])

protected def add : Single → Single → Single
  | nan, _ => nan
  | _, nan => nan
  | infinity s, infinity t => if s = t then infinity s else nan
  | infinity s, finite _ _ => infinity s
  | finite _ _, infinity t => infinity t
  | finite a _, finite b _ => nearest (a + b) 1

protected def sub (x y : Single) : Single := x.add y.neg

protected def mul : Single → Single → Single
  | nan, _ => nan
  | _, nan => nan
  | infinity s, infinity t => infinity (s != t)
  | infinity s, finite b _ => if b = 0 then nan else infinity (s != decide (b < 0))
  | finite a _, infinity t => if a = 0 then nan else infinity (decide (a < 0) != t)
  | finite a _, finite b _ => nearest (a * b) one

protected def div : Single → Single → Single
  | nan, _ => nan
  | _, nan => nan
  | infinity _, infinity _ => nan
  | infinity s, finite b _ => infinity (s != decide (b < 0))
  | finite _ _, infinity _ => Single.zero
  | finite a _, finite b _ =>
    if b = 0 then if a = 0 then nan else infinity (a < 0)
    else nearest (a * b.sign * one) b.natAbs

instance : Neg Single := ⟨Single.neg⟩
instance : Add Single := ⟨Single.add⟩
instance : Sub Single := ⟨Single.sub⟩
instance : Mul Single := ⟨Single.mul⟩
instance : Div Single := ⟨Single.div⟩

/-- `x` halved `places` times, rounded once. -/
def scaleDown (x : Single) (places : Nat) : Single :=
  match x with
  | finite a _ => nearest a (1 <<< places)
  | other => other

/-! ## Order -/

/-- The order of the values; a nan is not comparable, even with itself. -/
def ble : Single → Single → Bool
  | nan, _ => false
  | _, nan => false
  | infinity true, _ => true
  | _, infinity false => true
  | finite a _, finite b _ => a ≤ b
  | _, _ => false

/-- The strict order of the values. -/
def blt (x y : Single) : Bool := x.ble y && !y.ble x

instance : LE Single := ⟨fun x y => x.ble y = true⟩
instance : LT Single := ⟨fun x y => x.blt y = true⟩
instance (x y : Single) : Decidable (x ≤ y) := inferInstanceAs (Decidable (x.ble y = true))
instance (x y : Single) : Decidable (x < y) := inferInstanceAs (Decidable (x.blt y = true))

/-- The greater value; beside a nan, the other one. -/
protected def max (x y : Single) : Single :=
  if x = nan then y else if y = nan then x else if x < y then y else x

/-- The smaller value; beside a nan, the other one. -/
protected def min (x y : Single) : Single :=
  if x = nan then y else if y = nan then x else if y < x then y else x

/-! ## Whole numbers -/

/-- The nearest whole number, a half going away from zero. -/
def round : Single → Single
  | finite a _ => nearest (a.sign * ((2 * a.natAbs + one) / (2 * one) : Nat) * one) 1
  | other => other

/-- The whole part, cut towards zero and held within `0` and `limit`; a nan reads as `0`. -/
def toNatUpTo (limit : Nat) : Single → Nat
  | nan => 0
  | infinity negative => if negative then 0 else limit
  | finite a _ => min (a / one).toNat limit

/-- The whole part, cut towards zero and held within the range of the type; a nan reads as `0`. -/
def toInt16 (x : Single) : Int16 := Int16.ofInt (x.toNatUpTo 32767 - x.neg.toNatUpTo 32768)

/-! ## The interchange format -/

/-- The leading place that the interchange format leaves out. -/
def leadingPlace : Nat := 0x800000

/-- The 31 low bits of a finite magnitude. A magnitude of at most 24 places is its own pattern; each
further binary place raises the exponent, which begins above the 23 places of the fraction. -/
def magnitudeBits (n : Nat) : Nat :=
  let places := placesBelow n
  places * leadingPlace + n >>> places

/-- The sign bit. -/
def signBit : Nat := 0x80000000

/-- The interchange pattern of a value. -/
def bits : Single → UInt32
  | nan => 0x7fc00000
  | infinity negative => if negative then 0xff800000 else 0x7f800000
  | finite a _ => UInt32.ofNat (magnitudeBits a.natAbs + if a < 0 then signBit else 0)

/-- The value of an interchange pattern. -/
def ofBits (pattern : UInt32) : Single :=
  let negative := decide (signBit ≤ pattern.toNat)
  let exponent := pattern.toNat % signBit / leadingPlace
  let fraction := pattern.toNat % leadingPlace
  if exponent = 255 then if fraction = 0 then infinity negative else nan
  else
    let n := if exponent = 0 then fraction else (leadingPlace + fraction) <<< (exponent - 1)
    nearest (if negative then -(n : Int) else n) 1

end Single

end BatteryCare
