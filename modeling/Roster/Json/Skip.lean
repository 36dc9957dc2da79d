/-
Stepping over JSON values.

A value that nobody asked for is checked for its form only: the levels it opens are not counted, its
numbers are not computed, and a surrogate may stand in it alone.
-/
import Roster.Json.Quoted

namespace Roster.Json

open Text.Decimal (isDigit hexValue?)

/-- The rest of an exponent, after its letter. -/
def skipExponent (cs : List Char) : Reading Unit :=
  let digits :=
    match cs with
    | '+' :: cs => cs
    | '-' :: cs => cs
    | cs => cs
  if (digits.takeWhile isDigit).isEmpty then .error .malformed
  else .ok ((), digits.dropWhile isDigit)

/-- What may follow the digits of a number before its exponent. -/
def skipFraction : Reader Unit
  | '.' :: cs =>
    if (cs.takeWhile isDigit).isEmpty then .error .malformed
    else
      match cs.dropWhile isDigit with
      | 'e' :: cs => skipExponent cs
      | 'E' :: cs => skipExponent cs
      | cs => .ok ((), cs)
  | 'e' :: cs => skipExponent cs
  | 'E' :: cs => skipExponent cs
  | cs => .ok ((), cs)

/-- A number, after its sign. -/
def skipNumber (cs : List Char) : Reading Unit :=
  match cs.takeWhile isDigit with
  | [] => .error .malformed
  | '0' :: _ :: _ => .error .malformed
  | _ => skipFraction (cs.dropWhile isDigit)

/-- An escape, after its backslash. -/
def skipEscape : Reader Unit
  | [] => .error .truncated
  | 'u' :: cs => Reading.bindValue (readHex4 cs) fun _ => .ok ()
  | c :: cs => if (simpleEscape? c).isSome then .ok ((), cs) else .error .malformed

/-- A string, after its opening quote. -/
def skipStringFrom : Nat → Reader Unit
  | _, [] => .error .truncated
  | _, '"' :: cs => .ok ((), cs)
  | 0, _ => .error .truncated
  | fuel + 1, '\\' :: cs =>
    match skipEscape cs with
    | .error fault => .error fault
    | .ok (_, rest) => skipStringFrom fuel rest
  | fuel + 1, c :: cs => if c.toNat < 32 then .error .malformed else skipStringFrom fuel cs

/-- A string, after its opening quote. -/
def skipString : Reader Unit := fun cs => skipStringFrom cs.length cs

/-- A value that starts with the given character and opens no level. -/
def skipScalar (c : Char) : Reader Unit := fun cs =>
  match c with
  | 'n' => expectWord ['u', 'l', 'l'] cs
  | 't' => expectWord ['r', 'u', 'e'] cs
  | 'f' => expectWord ['a', 'l', 's', 'e'] cs
  | '"' => skipString cs
  | '-' => skipNumber cs
  | c => if isDigit c then skipNumber (c :: cs) else .error .malformed

/-- The two kinds of values that have parts. -/
inductive Bracket where
  | array
  | object
  deriving DecidableEq

/-- The character that closes a value. -/
def Bracket.closing : Bracket → Char
  | .array => ']'
  | .object => '}'

/-- What stands before a value inside an open one: nothing, or a name and a colon. -/
def Bracket.skipName : Bracket → Reader Unit
  | .array, cs => .ok ((), cs)
  | .object, cs =>
    match skipSpace cs with
    | [] => .error .truncated
    | '"' :: rest =>
      match skipString rest with
      | .error fault => .error fault
      | .ok (_, rest) =>
        match skipSpace rest with
        | [] => .error .truncated
        | ':' :: rest => .ok ((), rest)
        | _ => .error .malformed
    | _ => .error .malformed

/-- Where stepping over a value stands. -/
inductive Place where
  /-- Before a value. -/
  | before
  /-- After an opening bracket. -/
  | opened
  /-- After a value. -/
  | after

/-- Steps on to the end of the outermost value, given the brackets that are open. -/
def skipFrom : Nat → Place → List Bracket → Reader Unit
  | 0, _, _, _ => .error .truncated
  | fuel + 1, .before, opened, cs =>
    match skipSpace cs with
    | [] => .error .truncated
    | '[' :: rest => skipFrom fuel .opened (.array :: opened) rest
    | '{' :: rest => skipFrom fuel .opened (.object :: opened) rest
    | c :: rest =>
      match skipScalar c rest with
      | .error fault => .error fault
      | .ok (_, rest) => skipFrom fuel .after opened rest
  | _ + 1, _, [], cs => .ok ((), cs)
  | fuel + 1, .opened, bracket :: opened, cs =>
    match skipSpace cs with
    | [] => .error .truncated
    | c :: rest =>
      if c = bracket.closing then skipFrom fuel .after opened rest
      else
        match bracket.skipName (c :: rest) with
        | .error fault => .error fault
        | .ok (_, rest) => skipFrom fuel .before (bracket :: opened) rest
  | fuel + 1, .after, bracket :: opened, cs =>
    match skipSpace cs with
    | [] => .error .truncated
    | ',' :: rest =>
      match bracket.skipName rest with
      | .error fault => .error fault
      | .ok (_, rest) => skipFrom fuel .before (bracket :: opened) rest
    | c :: rest =>
      if c = bracket.closing then skipFrom fuel .after opened rest else .error .malformed

def skipValue : Reader Unit := fun cs => skipFrom (2 * cs.length + 2) .before [] cs

end Roster.Json
