/-
The text of a JSON value.

`compact` writes no blanks; `pretty` writes each item and field on a line of its own, indented by
two spaces a level, and empty arrays and objects as their two brackets.  In strings only the quote,
the backslash and the control characters below the space are escaped.
-/
import Roster.Json.Value
import Roster.Number.Shortest

namespace Roster.Json

open Text

def numberStyle : Shortest.Style := ⟨true⟩

def numberText : Number → List Char
  | .int n => Decimal.ofInt n
  | .float x => Shortest.render numberStyle x

/-- A character inside a quoted string. -/
def escapeChar (c : Char) : List Char :=
  if c = '"' then ['\\', '"']
  else if c = '\\' then ['\\', '\\']
  else if c = '\x08' then ['\\', 'b']
  else if c = '\x0c' then ['\\', 'f']
  else if c = '\n' then ['\\', 'n']
  else if c = '\r' then ['\\', 'r']
  else if c = '\t' then ['\\', 't']
  else if c.toNat < 32 then
    ['\\', 'u', '0', '0', Decimal.hexDigitLower (c.toNat / 16),
      Decimal.hexDigitLower (c.toNat % 16)]
  else [c]

def quoted (s : String) : List Char := '"' :: (s.toList.flatMap escapeChar ++ ['"'])

mutual

/-- The text without blanks. -/
def compactChars : Json → List Char
  | .null => ['n', 'u', 'l', 'l']
  | .bool true => ['t', 'r', 'u', 'e']
  | .bool false => ['f', 'a', 'l', 's', 'e']
  | .number n => numberText n
  | .string s => quoted s
  | .array items => '[' :: (compactItems items ++ [']'])
  | .object fields => '{' :: (compactFields fields ++ ['}'])

def compactItems : List Json → List Char
  | [] => []
  | j :: rest => compactChars j ++ compactMoreItems rest

def compactMoreItems : List Json → List Char
  | [] => []
  | j :: rest => ',' :: (compactChars j ++ compactMoreItems rest)

def compactFields : List (String × Json) → List Char
  | [] => []
  | (k, j) :: rest => quoted k ++ ':' :: (compactChars j ++ compactMoreFields rest)

def compactMoreFields : List (String × Json) → List Char
  | [] => []
  | (k, j) :: rest => ',' :: (quoted k ++ ':' :: (compactChars j ++ compactMoreFields rest))

end

def lineBreak (level : Nat) : List Char := '\n' :: List.replicate (2 * level) ' '

mutual

/-- The indented text, its first line at the given level. -/
def prettyChars (level : Nat) : Json → List Char
  | .array [] => ['[', ']']
  | .array (j :: rest) =>
    '[' :: (lineBreak (level + 1) ++ prettyChars (level + 1) j ++ prettyItems (level + 1) rest ++
      lineBreak level ++ [']'])
  | .object [] => ['{', '}']
  | .object ((k, j) :: rest) =>
    '{' :: (lineBreak (level + 1) ++ quoted k ++ ':' :: ' ' :: prettyChars (level + 1) j ++
      prettyFields (level + 1) rest ++ lineBreak level ++ ['}'])
  | .null => ['n', 'u', 'l', 'l']
  | .bool true => ['t', 'r', 'u', 'e']
  | .bool false => ['f', 'a', 'l', 's', 'e']
  | .number n => numberText n
  | .string s => quoted s

/-- Items after the first one of an array. -/
def prettyItems (level : Nat) : List Json → List Char
  | [] => []
  | j :: rest => ',' :: (lineBreak level ++ prettyChars level j ++ prettyItems level rest)

/-- Fields after the first one of an object. -/
def prettyFields (level : Nat) : List (String × Json) → List Char
  | [] => []
  | (k, j) :: rest =>
    ',' :: (lineBreak level ++ quoted k ++ ':' :: ' ' :: prettyChars level j ++
      prettyFields level rest)

end

/-- The text without blanks, as a string. -/
def compact (j : Json) : String := String.ofList j.compactChars

/-- The indented text, as a string. -/
def pretty (j : Json) : String := String.ofList (j.prettyChars 0)

end Roster.Json
