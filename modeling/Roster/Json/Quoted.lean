/-
Reading JSON strings.

A string ends at the first quote that is not escaped; control characters stand in it only as
escapes, and an escaped surrogate only as one half of a pair.
-/
import Roster.Json.Reading
import Roster.Text.Decimal

namespace Roster.Json

open Text.Decimal (hexValue?)

/-- Four hexadecimal digits. -/
def readHex4 : Reader Nat
  | a :: b :: c :: d :: cs =>
    match hexValue? a, hexValue? b, hexValue? c, hexValue? d with
    | some a, some b, some c, some d => .ok (((a * 16 + b) * 16 + c) * 16 + d, cs)
    | _, _, _, _ => .error .malformed
  | cs =>
    if (String.ofList cs).utf8ByteSize < 4 then .error .truncated else .error .malformed

/-- The character of a one-letter escape. -/
def simpleEscape? : Char → Option Char
  | '"' => some '"'
  | '\\' => some '\\'
  | '/' => some '/'
  | 'b' => some '\x08'
  | 'f' => some '\x0c'
  | 'n' => some '\n'
  | 'r' => some '\r'
  | 't' => some '\t'
  | _ => none

/-- The second half of a surrogate pair. -/
def readLowSurrogate (high : Nat) : Reader Char
  | '\\' :: 'u' :: cs =>
    Reading.bindValue (readHex4 cs) fun low =>
      if 0xDC00 ≤ low ∧ low ≤ 0xDFFF then
        .ok (Char.ofNat (0x10000 + (high - 0xD800) * 0x400 + (low - 0xDC00)))
      else .error .malformed
  | ['\\'] => .error .truncated
  | [] => .error .truncated
  | _ => .error .malformed

/-- The character of an escape, after its backslash. -/
def readEscape : Reader Char
  | [] => .error .truncated
  | 'u' :: cs =>
    Reading.andThen (readHex4 cs) fun n rest =>
      if 0xDC00 ≤ n ∧ n ≤ 0xDFFF then .error .malformed
      else if 0xD800 ≤ n ∧ n ≤ 0xDBFF then readLowSurrogate n rest
      else .ok (Char.ofNat n, rest)
  | c :: cs =>
    match simpleEscape? c with
    | some d => .ok (d, cs)
    | none => .error .malformed

/-- The characters of a string up to its closing quote.  `fuel` bounds the characters still to
read. -/
def readStringFrom (fuel : Nat) (done : List Char) : Reader (List Char)
  | [] => .error .truncated
  | '"' :: cs => .ok (done.reverse, cs)
  | '\\' :: cs =>
    match fuel with
    | 0 => .error .truncated
    | fuel + 1 => Reading.andThen (readEscape cs) fun c rest => readStringFrom fuel (c :: done) rest
  | c :: cs =>
    match fuel with
    | 0 => .error .truncated
    | fuel + 1 => if c.toNat < 32 then .error .malformed else readStringFrom fuel (c :: done) cs

/-- A string, after its opening quote. -/
def readString : Reader String := fun cs =>
  Reading.bindValue (readStringFrom cs.length [] cs) fun s => .ok (String.ofList s)

/-- A string with its opening quote, as the names of members are. -/
def readName : Reader String
  | '"' :: cs => readString cs
  | _ => .error .malformed

end Roster.Json
