/-
The shortest decimal text of a double.

The reals that round to a number form an interval around it.  `shortest` looks for the fewest
digits, at most seventeen, with which a decimal lies in that interval: on each decimal grid it tests
the two neighbours of the number, and of two hits it takes the nearer, a tie going to the even one.
`render` writes the digits positionally where the point stands near them and with an exponent
elsewhere.
-/
import Roster.Number.Binary64
import Roster.Text.Decimal

namespace Roster.Shortest

open Text

/-- The reals that round to a number, as multiples of `unit / parts`; the ends belong to it if
`closed`. -/
structure Interval where
  low : Nat
  middle : Nat
  high : Nat
  closed : Bool
  unit : Nat
  parts : Nat

/-- The interval of the magnitude of `x`: half a step up, and half a step down, where the step down
from a power of two is half as long. -/
def Interval.ofBinary64 (x : Binary64) : Interval :=
  let m := x.significand
  let e := x.exponent - 2
  { low := if m = 0x10000000000000 ∧ x.exponent ≠ -1074 then 4 * m - 1 else 4 * m - 2
    middle := 4 * m
    high := 4 * m + 2
    closed := m % 2 == 0
    unit := Binary64.shiftUp 1 e
    parts := Binary64.shiftUp 1 (-e) }

/-- Whether `n / d` lies in the interval. -/
def Interval.contains (i : Interval) (n d : Nat) : Bool :=
  let v := n * i.parts
  let low := i.low * i.unit * d
  let high := i.high * i.unit * d
  if i.closed then low ≤ v && v ≤ high else low < v && v < high

/-- The greatest `k` with `10 ^ k ≤ n / d`, for positive arguments. -/
def floorLog10 (n d : Nat) : Int :=
  if d ≤ n then ((Decimal.digits (n / d)).length : Int) - 1
  else
    let k := (Decimal.digits (d / n)).length
    if d ≤ n * Nat.pow 10 (k - 1) then -((k - 1 : Nat) : Int) else -(k : Int)

/-- The decimal with the given number of digits that lies in the interval and nearest its middle:
digits and power of ten. -/
def onGrid? (i : Interval) (count : Nat) : Option (Nat × Int) :=
  let n := i.middle * i.unit
  let power := floorLog10 n i.parts + 1 - count
  let up := Nat.pow 10 power.toNat
  let down := Nat.pow 10 (-power).toNat
  let below := n * down / (i.parts * up)
  let above := below + 1
  match i.contains (below * up) down, i.contains (above * up) down with
  | false, false => none
  | true, false => some (below, power)
  | false, true => some (above, power)
  | true, true =>
    let rest := 2 * (n * down - below * (i.parts * up))
    let step := i.parts * up
    if rest < step then some (below, power)
    else if step < rest then some (above, power)
    else some (if below % 2 = 0 then below else above, power)

/-- The decimal with the fewest digits that reads back as the magnitude of a number other than
zero. -/
def shortest (x : Binary64) : Nat × Int :=
  let i := Interval.ofBinary64 x
  ((List.range 17).findSome? fun k => onGrid? i (k + 1)).getD (i.middle * i.unit / i.parts, 0)

/-- The digits without the zeros at their end, and the power of ten raised by their number. -/
def withoutZeros (digits : List Char) (power : Int) : List Char × Int :=
  let zeros := (digits.reverse.takeWhile (· == '0')).length
  (digits.take (digits.length - zeros), power + zeros)

/-- How a format writes the exponent of a large number. -/
structure Style where
  /-- A plus sign before an exponent that is not negative. -/
  plusSign : Bool

/-- Digits and power of ten as text.  With the point before the first digit at position zero, the
positions -4 to 16 are written positionally, with at least one digit on either side. -/
def renderDigits (style : Style) (digits : List Char) (power : Int) : List Char :=
  let point : Int := digits.length + power
  if 0 < point ∧ point ≤ 16 then
    if 0 ≤ power then digits ++ List.replicate power.toNat '0' ++ ['.', '0']
    else digits.take point.toNat ++ '.' :: digits.drop point.toNat
  else if -5 < point ∧ point ≤ 0 then
    '0' :: '.' :: (List.replicate (-point).toNat '0' ++ digits)
  else
    let exponent := point - 1
    let sign := if 0 ≤ exponent ∧ style.plusSign then ['+'] else []
    let tail := digits.drop 1
    digits.take 1 ++ (if tail = [] then [] else '.' :: tail) ++ 'e' ::
      (sign ++ Decimal.ofInt exponent)

/-- The shortest text of a number; zero keeps its sign. -/
def render (style : Style) (x : Binary64) : List Char :=
  let sign := if x.negative then ['-'] else []
  if x.isZero then sign ++ ['0', '.', '0']
  else
    let (n, power) := shortest x
    let (digits, power) := withoutZeros (Decimal.digits n) power
    sign ++ renderDigits style digits power

end Roster.Shortest
