/-
Reading JSON values.

`readValue` reads one value and `Json.parse` a whole text.  The fields of an object are sorted by
name, and the last of several values of one name counts.

* `readValue_null`: the text of null is read as null, whatever follows it.
-/
import Roster.Json.Numeral
import Roster.Json.Quoted

namespace Roster.Json

/-- A value that starts with the given character and is no array and no object. -/
def readScalar (c : Char) : Reader Json := fun cs =>
  match c with
  | 'n' => Reading.bindValue (expectWord ['u', 'l', 'l'] cs) fun _ => .ok .null
  | 't' => Reading.bindValue (expectWord ['r', 'u', 'e'] cs) fun _ => .ok (.bool true)
  | 'f' => Reading.bindValue (expectWord ['a', 'l', 's', 'e'] cs) fun _ => .ok (.bool false)
  | '"' => Reading.bindValue (readString cs) fun s => .ok (.string s)
  | c =>
    if c = '-' ∨ Text.Decimal.isDigit c then
      Reading.bindValue (readNumber (c :: cs)) fun n => .ok (.number n)
    else .error .malformed

/-- Puts a member that was read among the fields before it. -/
def addField (value : Reader Json) (key : String) (fields : List (String × Json)) :
    Except Fault (Reader (List (String × Json))) :=
  .ok fun cs => Reading.bindValue (value cs) fun j => .ok (Fields.insert key j fields)

/-- A value in which so many levels may be open. -/
def readValue : Decoder Json
  | levels, cs =>
    match skipSpace cs, levels with
    | [], _ => .error .truncated
    | '[' :: _, 0 => .error .malformed
    | '{' :: _, 0 => .error .malformed
    | '[' :: rest, levels + 1 =>
      Reading.bindValue (readItems (readValue levels) rest) fun items => .ok (.array items)
    | '{' :: rest, levels + 1 =>
      Reading.bindValue (readMembers readName (addField (readValue levels)) [] rest)
        fun fields => .ok (.object fields)
    | c :: rest, _ => readScalar c rest
termination_by structural levels => levels

def parse (text : String) : Except Fault Json := readWhole readValue text

theorem readValue_null (levels : Nat) (rest : List Char) :
    readValue levels ('n' :: 'u' :: 'l' :: 'l' :: rest) = .ok (.null, rest) := by
  unfold readValue
  cases levels <;> rfl

end Roster.Json
