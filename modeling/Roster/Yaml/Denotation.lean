/-
What scalars denote.

A plain scalar without a tag denotes null, a Boolean, an integer, a double or its own text,
whichever comes first.  Digits after a leading zero are text.  Integers that do not fit 64 bits are
refused as long as they fit 128 bits; larger ones are doubles.  Infinity and NaN denote null, as
JSON has neither.

A tag of the core schema asks for one of these kinds, and every other tag leaves the text as it is,
except that a tag that starts with an exclamation mark is refused.
-/
import Roster.Json.Value
import Roster.Text.Decimal

namespace Roster.Yaml

open Text.Decimal (isDigit ofDigits hexValue?)

def nullTexts : List String := ["null", "Null", "NULL", "~"]

def isNull (cs : List Char) : Bool := nullTexts.any (·.toList == cs)

/-- The Boolean that a text spells. -/
def bool? (cs : List Char) : Option Bool :=
  if ["true", "True", "TRUE"].any (·.toList == cs) then some true
  else if ["false", "False", "FALSE"].any (·.toList == cs) then some false
  else none

/-- Whether a text is digits after a leading zero, with or without a sign. -/
def isZeroPadded (cs : List Char) : Bool :=
  let cs := if cs.head? == some '-' || cs.head? == some '+' then cs.tail else cs
  match cs with
  | '0' :: c :: cs => (c :: cs).all isDigit
  | _ => false

/-- The number that digits of a base denote. -/
def ofBase? (base : Nat) (cs : List Char) : Option Nat :=
  if cs.isEmpty then none
  else
    cs.foldlM (fun n c => (hexValue? c).bind fun d =>
      if d < base then some (n * base + d) else none) 0

/-- The number that digits denote, in the base that the mark in front of them names. -/
def natural? : List Char → Option Nat
  | '0' :: 'x' :: cs => ofBase? 16 cs
  | '0' :: 'o' :: cs => ofBase? 8 cs
  | '0' :: 'b' :: cs => ofBase? 2 cs
  | cs => if isZeroPadded cs then none else Text.Decimal.readNat? cs

/-- The integer that a text denotes. -/
def integer? : List Char → Option Int
  | '+' :: cs => (natural? cs).map Int.ofNat
  | '-' :: cs => (natural? cs).map fun n => -(n : Int)
  | cs => (natural? cs).map Int.ofNat

/-- The exponent of a decimal and nothing more, zero if there is none. -/
def exponent? : List Char → Option Int
  | [] => some 0
  | e :: cs => if e = 'e' ∨ e = 'E' then Text.Decimal.readInt? cs else none

/-- The double that a decimal without a sign denotes: digits with a point among them or at an end,
and perhaps an exponent. -/
def decimal? (negative : Bool) (cs : List Char) : Option Binary64 :=
  let whole := cs.takeWhile isDigit
  let rest := cs.dropWhile isDigit
  let pointed := rest.head? == some '.'
  let part := if pointed then rest.tail.takeWhile isDigit else []
  let rest := if pointed then rest.tail.dropWhile isDigit else rest
  if whole.isEmpty && part.isEmpty then none
  else (exponent? rest).bind fun e =>
    Binary64.ofDecimal? negative (ofDigits (whole ++ part)) (e - part.length)

/-- The finite double that a text denotes. -/
def finite? : List Char → Option Binary64
  | '+' :: cs => decimal? false cs
  | '-' :: cs => decimal? true cs
  | cs => decimal? false cs

/-- The spellings of the doubles that are not finite. -/
def notFiniteTexts : List String :=
  [".inf", ".Inf", ".INF", "+.inf", "+.Inf", "+.INF", "-.inf", "-.Inf", "-.INF", ".nan",
    ".NaN", ".NAN"]

/-- The value that a text denotes as a double. -/
def float? (cs : List Char) : Option Json :=
  if notFiniteTexts.any (·.toList == cs) then some .null
  else (finite? cs).map fun x => .number (.float x)

/-- Whether an integer fits 64 bits, with a sign or without one. -/
def fitsWord (n : Int) : Bool := -0x8000000000000000 ≤ n && n < 0x10000000000000000

/-- Whether an integer fits 128 bits, with a sign or without one. -/
def fitsTwoWords (n : Int) : Bool :=
  -0x80000000000000000000000000000000 ≤ n && n < 0x100000000000000000000000000000000

/-- What a plain scalar denotes. -/
def denotes? (cs : List Char) : Option Json :=
  if cs.isEmpty || isNull cs then some .null
  else
    match bool? cs with
    | some b => some (.bool b)
    | none =>
      match (integer? cs).filter fitsTwoWords with
      | some n => if fitsWord n then some (Json.ofInt n) else none
      | none =>
        some (((if isZeroPadded cs then none else float? cs)).getD (.string (String.ofList cs)))

def coreTag (name : String) : List Char := ("tag:yaml.org,2002:" ++ name).toList

def isOwnTag (tag : List Char) : Bool := tag.head? == some '!'

/-- What a scalar with a tag denotes. -/
def denotesTagged? (tag cs : List Char) : Option Json :=
  if isOwnTag tag then none
  else if tag = coreTag "bool" then (bool? cs).map .bool
  else if tag = coreTag "int" then ((integer? cs).filter fitsWord).map Json.ofInt
  else if tag = coreTag "float" then float? cs
  else if tag = coreTag "null" then if isNull cs then some .null else none
  else some (.string (String.ofList cs))

def scalarValue? (tag : Option (List Char)) (cs : List Char) (plain : Bool) : Option Json :=
  match tag with
  | some tag => denotesTagged? tag cs
  | none => if plain then denotes? cs else some (.string (String.ofList cs))

end Roster.Yaml
