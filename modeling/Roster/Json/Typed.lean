/-
Typed readers of JSON text.

`text`, `optional`, `list` and `map` read values of one shape.  `record` reads a value with named
parts: an object, in which unknown members are stepped over and a known one may stand once, or an
array of the parts in their order.  What the parts amount to is collected in a value of any type, of
which `finish` makes the result or refuses it for want of a part.

A reader that meets a value of another shape reads it as far as it has to, so that a fault of form
in it is reported as such.
-/
import Roster.Json.Reader
import Roster.Json.Skip

namespace Roster.Json

/-- The fault of a value that starts with the given character and has another shape than asked
for. -/
def mismatch {α : Type} (c : Char) : Reader α := fun cs =>
  if c = '[' ∨ c = '{' then .error .mismatched
  else
    match readScalar c cs with
    | .error fault => .error fault
    | .ok _ => .error .mismatched

/-- A string. -/
def text : Decoder String := fun _ cs =>
  match skipSpace cs with
  | [] => .error .truncated
  | '"' :: rest => readString rest
  | c :: rest => mismatch c rest

/-- Null, or what another reader reads. -/
def optional {α : Type} (decoder : Decoder α) : Decoder (Option α) := fun levels cs =>
  match skipSpace cs with
  | 'n' :: rest => Reading.bindValue (expectWord ['u', 'l', 'l'] rest) fun _ => .ok none
  | rest => Reading.bindValue (decoder levels rest) fun a => .ok (some a)

/-- An array of items of one shape. -/
def list {α : Type} (decoder : Decoder α) : Decoder (List α) := fun levels cs =>
  match skipSpace cs, levels with
  | [], _ => .error .truncated
  | '[' :: _, 0 => .error .malformed
  | '[' :: rest, levels + 1 => readItems (decoder levels) rest
  | c :: rest, _ => mismatch c rest

/-- An object whose members have values of one shape, sorted by name; the last of several values of
one name counts. -/
def map {α : Type} (decoder : Decoder α) : Decoder (List (String × α)) := fun levels cs =>
  match skipSpace cs, levels with
  | [], _ => .error .truncated
  | '{' :: _, 0 => .error .malformed
  | '{' :: rest, levels + 1 =>
    readMembers readName
      (fun key fields => .ok fun cs =>
        Reading.bindValue (decoder levels cs) fun a => .ok (Fields.insert key a fields)) [] rest
  | c :: rest, _ => mismatch c rest

/-- What another reader reads, changed or refused by a check. -/
def checked {α β : Type} (decoder : Decoder α) (check : α → Option β) : Decoder β :=
  fun levels cs => Reading.bindValue (decoder levels cs) fun a =>
    match check a with
    | some b => .ok b
    | none => .error .mismatched

/-- A named part of a record: whether it was read, and the reader that puts it into what was
collected. -/
structure Part (σ : Type) where
  name : String
  isRead : σ → Bool
  decoder : σ → Decoder σ

/-- A part that a reader of its own reads and that is put in its place. -/
def Part.of {σ α : Type} (name : String) (get : σ → Option α) (put : α → σ → σ)
    (decoder : Decoder α) :
    Part σ where
  name := name
  isRead s := (get s).isSome
  decoder s levels cs := Reading.bindValue (decoder levels cs) fun a => .ok (put a s)

/-- A member of a record: the reader of the part of that name, or of a value to step over. -/
def recordMember {σ : Type} (parts : List (Part σ)) (levels : Nat) (key : String) (s : σ) :
    Except Fault (Reader σ) :=
  match parts.find? (·.name == key) with
  | some part => if part.isRead s then .error .mismatched else .ok (part.decoder s levels)
  | none => .ok fun cs => Reading.bindValue (skipValue cs) fun _ => .ok s

/-- The parts of a record that is given as an array, after the first of them. -/
def recordItems {σ : Type} (levels : Nat) : List (Part σ) → σ → Reader σ
  | [], s, cs => .ok (s, cs)
  | part :: parts, s, cs =>
    match skipSpace cs with
    | [] => .error .truncated
    | ']' :: _ => .ok (s, cs)
    | ',' :: rest =>
      match skipSpace rest with
      | [] => .error .truncated
      | ']' :: _ => .error .malformed
      | rest =>
        match part.decoder s levels rest with
        | .error fault => .error fault
        | .ok (s, rest) => recordItems levels parts s rest
    | _ => .error .malformed

/-- The parts of a record that is given as an array, up to its closing bracket. -/
def recordArray {σ : Type} (levels : Nat) : List (Part σ) → σ → Reader σ
  | [], s, cs => .ok (s, cs)
  | part :: parts, s, cs =>
    match skipSpace cs with
    | [] => .error .truncated
    | ']' :: _ => .ok (s, cs)
    | rest =>
      match part.decoder s levels rest with
      | .error fault => .error fault
      | .ok (s, rest) => recordItems levels parts s rest

/-- Steps over a closing bracket. -/
def expectBracket (cs : List Char) : Reading Unit :=
  match skipSpace cs with
  | [] => .error .truncated
  | ']' :: rest => .ok ((), rest)
  | _ => .error .malformed

/-- A record. -/
def record {σ α : Type} (parts : List (Part σ)) (start : σ) (finish : σ → Option α) : Decoder α :=
  fun levels cs =>
    match skipSpace cs, levels with
    | [], _ => .error .truncated
    | '[' :: _, 0 => .error .malformed
    | '{' :: _, 0 => .error .malformed
    | '{' :: rest, levels + 1 =>
      Reading.bindValue (readMembers readName (recordMember parts levels) start rest) fun s =>
        match finish s with
        | some a => .ok a
        | none => .error .mismatched
    | '[' :: rest, levels + 1 =>
      Reading.andThen (recordArray levels parts start rest) fun s rest =>
        match finish s with
        | none => .error .mismatched
        | some a => Reading.bindValue (expectBracket rest) fun _ => .ok a
    | c :: rest, _ => mismatch c rest

end Roster.Json
