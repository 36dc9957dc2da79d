/-
Reading JSON numbers.

A literal without a point and an exponent that fits 64 bits, with or without a sign, is an integer;
every other literal is a double, made from the digits that fit 64 bits by one rounded product or
quotient with a power of ten.  A literal whose double is not finite is no JSON.
-/
import Roster.Json.Reading
import Roster.Json.Value
import Roster.Text.Decimal

namespace Roster.Json

open Text.Decimal (isDigit ofDigits)

/-- The digits a text starts with, and the rest. -/
def readDigits (cs : List Char) : List Char × List Char :=
  (cs.takeWhile isDigit, cs.dropWhile isDigit)

/-- Appends digits to a number while it fits into 64 bits; answers the number and how many digits
were left out. -/
def accumulate (n : Nat) : List Char → Nat × Nat
  | [] => (n, 0)
  | c :: cs =>
    let m := n * 10 + (c.toNat - 48)
    if m < 0x10000000000000000 then accumulate m cs else (n, cs.length + 1)

/-- A power of ten as a double; those up to the 308th are finite. -/
def powerOfTen (k : Nat) : Binary64 := (Binary64.ofNat? false (Nat.pow 10 k)).getD (.zero false)

/-- Divides a double by a power of ten, by the 308th at a time. -/
def divPowerOfTen (x : Binary64) (k : Nat) : Binary64 :=
  if x.isZero then x
  else if k ≤ 308 then (x.div? (powerOfTen k)).getD x
  else divPowerOfTen ((x.div? (powerOfTen 308)).getD x) (k - 308)
termination_by k

/-- A 64-bit significand and a power of ten as a double: the significand is rounded first, and then
the product or quotient. -/
def scale? (negative : Bool) (significand : Nat) (power : Int) : Option Binary64 := do
  let x ← Binary64.ofNat? false significand
  let y ←
    if power < 0 then some (divPowerOfTen x power.natAbs)
    else if x.isZero then some x
    else if 308 < power then none
    else x.mul? (powerOfTen power.toNat)
  pure { y with negative := negative }

/-- A double from its significand and power, which must be in range. -/
def readFloat (negative : Bool) (significand : Nat) (power : Int) : Reader Number := fun cs =>
  match scale? negative significand power with
  | some x => .ok (.float x, cs)
  | none => .error .malformed

/-- The digits of an exponent, after its sign. -/
def readExponentDigits (negative : Bool) (significand : Nat) (power : Int) (down : Bool) :
    Reader Number := fun cs =>
  match readDigits cs with
  | ([], []) => .error .truncated
  | ([], _ :: _) => .error .malformed
  | (ds, rest) =>
    let e := ofDigits ds
    if e < 0x80000000 then readFloat negative significand
      (if down then power - e else power + e) rest
    else if significand = 0 ∨ down then .ok (.float (.zero negative), rest)
    else .error .malformed

/-- An exponent, after its letter. -/
def readExponent (negative : Bool) (significand : Nat) (power : Int) : Reader Number
  | '+' :: cs => readExponentDigits negative significand power false cs
  | '-' :: cs => readExponentDigits negative significand power true cs
  | cs => readExponentDigits negative significand power false cs

/-- The number of an integer literal: a negative one that does not fit 64 bits, and minus zero, are
doubles. -/
def integerNumber (negative : Bool) (n : Nat) : Number :=
  if negative then
    if n = 0 ∨ 0x8000000000000000 < n then .float ((Binary64.ofNat? true n).getD (.zero true))
      else .int (-(n : Int))
  else .int n

/-- What follows the digits before the point. -/
def readFraction (negative : Bool) (significand dropped : Nat) : Reader Number
  | '.' :: cs =>
    match readDigits cs with
    | ([], []) => .error .truncated
    | ([], _ :: _) => .error .malformed
    | (ds, rest) =>
      let (significand, left) := accumulate significand ds
      let power : Int := (dropped : Int) - (ds.length - left : Nat)
      match rest with
      | 'e' :: rest => readExponent negative significand power rest
      | 'E' :: rest => readExponent negative significand power rest
      | rest => readFloat negative significand power rest
  | 'e' :: cs => readExponent negative significand dropped cs
  | 'E' :: cs => readExponent negative significand dropped cs
  | cs =>
    if dropped = 0 then .ok (integerNumber negative significand, cs)
    else readFloat negative significand dropped cs

/-- A number, after its sign. -/
def readUnsigned (negative : Bool) : Reader Number := fun cs =>
  match readDigits cs with
  | ([], []) => .error .truncated
  | ([], _ :: _) => .error .malformed
  | ('0' :: _ :: _, _) => .error .malformed
  | (ds, rest) =>
    let (significand, dropped) := accumulate 0 ds
    readFraction negative significand dropped rest

def readNumber : Reader Number
  | '-' :: cs => readUnsigned true cs
  | cs => readUnsigned false cs

end Roster.Json
