/-
Finite 64-bit binary floating-point numbers, with exact arithmetic on natural numbers.

A number is a sign, a significand and a power of two; `Canonical` fixes one pair for each magnitude,
so that equality of the fields is equality of the bits.  `ofRatio?` rounds a quotient to nearest,
ties to even, and answers `none` on overflow; products, quotients and the conversions of integers
and decimals are that rounding of the exact result.

* `ofParts?_eq_some_iff`: a pair is a number exactly if it is canonical;
* `roundRatio_zero`: nothing is rounded at zero.
-/

namespace Roster

/-- The pairs of significand and exponent that denote finite numbers, one pair for each magnitude.
A significand has at most 53 bits, and it has as many unless the exponent is the least one. -/
def Binary64.Canonical (m : Nat) (e : Int) : Prop :=
  m < 0x20000000000000 ∧ -1074 ≤ e ∧ e ≤ 971 ∧ (0x10000000000000 ≤ m ∨ e = -1074)

instance (m : Nat) (e : Int) : Decidable (Binary64.Canonical m e) := by
  unfold Binary64.Canonical; infer_instance

/-- A finite double: `significand * 2 ^ exponent`, with a sign. -/
structure Binary64 where
  negative : Bool
  significand : Nat
  exponent : Int
  canonical : Binary64.Canonical significand exponent
  deriving DecidableEq

namespace Binary64

/-- The number with the given parts, if they are canonical. -/
def ofParts? (negative : Bool) (m : Nat) (e : Int) : Option Binary64 :=
  if h : Canonical m e then some ⟨negative, m, e, h⟩ else none

theorem ofParts?_eq_some_iff {s : Bool} {m : Nat} {e : Int} {x : Binary64} :
    ofParts? s m e = some x ↔ x.negative = s ∧ x.significand = m ∧ x.exponent = e := by
  unfold ofParts?
  constructor
  · intro h
    split at h
    · cases h; exact ⟨rfl, rfl, rfl⟩
    · cases h
  · rintro ⟨rfl, rfl, rfl⟩
    rw [dif_pos x.canonical]

/-- Zero, of either sign. -/
def zero (negative : Bool) : Binary64 := ⟨negative, 0, -1074, by decide⟩

/-- Whether the number is zero, of either sign. -/
def isZero (x : Binary64) : Bool := x.significand == 0

/-- Numerical equality: the two zeros are equal, everything else is equal to itself only. -/
def same (x y : Binary64) : Bool := (x.isZero && y.isZero) || x == y

/-- `n / d` rounded to an integer, a half going to the even neighbour. -/
def roundDiv (n d : Nat) : Nat :=
  let q := n / d
  let r := n % d
  if 2 * r < d then q
  else if d < 2 * r then q + 1
  else q + q % 2

/-- `n * 2 ^ k` for a non-negative `k`, and `n` otherwise. -/
def shiftUp (n : Nat) (k : Int) : Nat := n <<< k.toNat

/-- The greatest `k` with `2 ^ k ≤ num / den`, for positive arguments. -/
def floorLog2 (num den : Nat) : Int :=
  let k : Int := (Nat.log2 num : Int) - Nat.log2 den
  if shiftUp den k ≤ shiftUp num (-k) then k else k - 1

/-- The nearest significand and exponent of `num / den`, ties to even; the exponent may be too large
for a finite number. -/
def roundRatio (num den : Nat) : Nat × Int :=
  if num = 0 then (0, -1074)
  else
    let e := max (floorLog2 num den - 52) (-1074)
    let m := roundDiv (shiftUp num (-e)) (shiftUp den e)
    if m = 0x20000000000000 then (0x10000000000000, e + 1) else (m, e)

theorem roundRatio_zero (den : Nat) : roundRatio 0 den = (0, -1074) := rfl

/-- `num / den` rounded to nearest, `none` when that is not finite. -/
def ofRatio? (negative : Bool) (num den : Nat) : Option Binary64 :=
  ofParts? negative (roundRatio num den).1 (roundRatio num den).2

def ofNat? (negative : Bool) (n : Nat) : Option Binary64 := ofRatio? negative n 1

def numerator (x : Binary64) : Nat := shiftUp x.significand x.exponent

def denominator (x : Binary64) : Nat := shiftUp 1 (-x.exponent)

def mul? (x y : Binary64) : Option Binary64 :=
  ofRatio? (x.negative != y.negative) (x.numerator * y.numerator) (x.denominator * y.denominator)

/-- The rounded quotient; dividing by zero has none. -/
def div? (x y : Binary64) : Option Binary64 :=
  if y.isZero then none
  else ofRatio? (x.negative != y.negative) (x.numerator * y.denominator)
    (x.denominator * y.numerator)

/-- `digits * 10 ^ power` rounded to nearest.  Magnitudes outside `10 ^ ±400` need no arithmetic:
they overflow or vanish. -/
def ofDecimal? (negative : Bool) (digits : Nat) (power : Int) : Option Binary64 :=
  let size : Int := (Nat.toDigits 10 digits).length
  if digits = 0 then some (zero negative)
  else if 400 < power + size then none
  else if power + size < -400 then some (zero negative)
  else ofRatio? negative (digits * Nat.pow 10 power.toNat) (Nat.pow 10 (-power).toNat)

end Binary64

end Roster
