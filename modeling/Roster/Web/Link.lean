/-
Link headers.

A link header is a list of entries with commas between them; an entry is an address between angle
brackets and its parameters, with semicolons between them.  The next page of a listing is the
address of the first entry that has the parameter `rel="next"`.

* `unbracketed?_brackets`: the address of a bracketed address is the address itself.
-/
import Roster.Text.Blank
import Roster.Text.Split

namespace Roster.Link

/-- Whether a parameter says that the entry is the next page. -/
def isNext (parameter : List Char) : Bool :=
  let p := Text.trim parameter
  p == "rel=\"next\"".toList || p == "rel=next".toList

def unbracketed? : List Char → Option (List Char)
  | '<' :: cs => if cs.getLast? = some '>' then some cs.dropLast else none
  | _ => none

/-- The address of an entry that is the next page. -/
def entryNext? (entry : List Char) : Option (List Char) :=
  match Text.split (· == ';') entry with
  | address :: parameters =>
    if parameters.any isNext then unbracketed? (Text.trim address) else none
  | [] => none

def next? (header : String) : Option String :=
  ((Text.split (· == ',') header.toList).findSome? entryNext?).map String.ofList

theorem unbracketed?_brackets (cs : List Char) : unbracketed? ('<' :: (cs ++ ['>'])) = some cs := by
  simp [unbracketed?]

end Roster.Link
