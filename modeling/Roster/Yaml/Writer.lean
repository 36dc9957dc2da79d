/-
The text of a JSON value in YAML.

Every entry of a mapping and every item of a sequence starts a line.  A collection that is the value
of a key starts on the next line, a mapping indented by two and a sequence not at all; one that is
an item goes on behind the dash.  Empty collections are two brackets.  A key that has several lines
or more than 128 bytes stands behind a question mark, and its value on a line of its own.
-/
import Roster.Yaml.Style
import Roster.Number.Shortest

namespace Roster.Yaml

namespace Writer

def numberStyle : Shortest.Style := ⟨false⟩

def number : Number → List Char
  | .int n => Text.Decimal.ofInt n
  | .float x => Shortest.render numberStyle x

/-- Ends a line, unless it has ended. -/
def endLine (cs : List Char) : List Char := if cs.getLast?.any isBreak then cs else cs ++ ['\n']

def spaces (n : Nat) : List Char := List.replicate n ' '

def isSimpleKey (key : String) : Bool := !key.toList.any isBreak && key.utf8ByteSize ≤ 128

mutual

/-- A value behind the mark of an item, a key or a value that stands at an indentation. -/
def behindMark (indent : Nat) : Json → List Char
  | .array [] => [' ', '[', ']', '\n']
  | .object [] => [' ', '\x7b', '\x7d', '\n']
  | .array (j :: js) => ' ' :: '-' :: (behindMark (indent + 2) j ++ items (indent + 2) js)
  | .object ((k, j) :: fs) => ' ' :: (entry (indent + 2) k j ++ entries (indent + 2) fs)
  | .null => ' ' :: "null\n".toList
  | .bool true => ' ' :: "true\n".toList
  | .bool false => ' ' :: "false\n".toList
  | .number n => ' ' :: endLine (number n)
  | .string s => ' ' :: endLine (Style.string (indent + 2) s.toList)

/-- The items of a sequence, each on lines of its own. -/
def items (indent : Nat) : List Json → List Char
  | [] => []
  | j :: js => spaces indent ++ '-' :: (behindMark indent j ++ items indent js)

/-- A key and its value, without the indentation in front. -/
def entry (indent : Nat) (key : String) (value : Json) : List Char :=
  if isSimpleKey key then
    Style.string (indent + 2) key.toList ++ ':' ::
      (match value with
      | .array (j :: js) => '\n' ::
          (spaces indent ++ '-' :: (behindMark indent j ++ items indent js))
      | .object ((k, j) :: fs) =>
        '\n' :: (spaces (indent + 2) ++ entry (indent + 2) k j ++ entries (indent + 2) fs)
      | value => behindMark indent value)
  else
    '?' :: ' ' :: (endLine (Style.string (indent + 2) key.toList) ++ spaces indent ++
      ':' :: behindMark indent value)

/-- The entries of a mapping, each on lines of its own. -/
def entries (indent : Nat) : List (String × Json) → List Char
  | [] => []
  | (k, j) :: fs => spaces indent ++ entry indent k j ++ entries indent fs

end

end Writer

/-- The text of a document whose root is the mapping with some fields. -/
def render (fields : List (String × Json)) : String := String.ofList (Writer.entries 0 fields)

end Roster.Yaml
