/-
How strings are written in YAML.

A string is written as plain words where that reads back as the string, else between single quotes,
else between double quotes with escapes; a string of several lines is written as a block of lines
where that is possible.  What is possible is decided by a few properties of the text.
-/
import Roster.Yaml.Denotation
import Roster.Yaml.Cursor

namespace Roster.Yaml

/-- The characters that are written as themselves between double quotes. -/
def isPrintable (c : Char) : Bool :=
  let n := c.toNat
  n == 0x0A || (0x20 ≤ n && n ≤ 0x7E) || (0xA0 ≤ n && n ≤ 0xFFFD && n != 0xFEFF) || 0x10000 ≤ n

namespace Style

/-- Whether a property holds of two neighbouring characters somewhere. -/
def anyPair (p : Char → Char → Bool) : List Char → Bool
  | c :: d :: cs => p c d || anyPair p (d :: cs)
  | _ => false

def hasSpaceBreak (cs : List Char) : Bool := anyPair (fun c d => c == ' ' && isBreak d) cs

def hasBreakSpace (cs : List Char) : Bool := anyPair (fun c d => isBreak c && d == ' ') cs

/-- Whether every character can be written as itself and no line ends with a blank. -/
def isOpen (cs : List Char) : Bool := cs.all isPrintable && !hasSpaceBreak cs

/-- The characters that may not be the first one of plain words. -/
def marks : List Char := "#,[]\x7b\x7d&*!|>'\"%@\u0060".toList

/-- Whether plain words may not start as a text does. -/
def startsWithMark (cs : List Char) : Bool :=
  Cursor.startMark.isPrefixOf cs || Cursor.endMark.isPrefixOf cs ||
    match cs with
    | [] => false
    | c :: rest => marks.contains c || ((c == '?' || c == ':' || c == '-') && endsWord rest)

/-- Whether a colon or a hash after the first character would end plain words. -/
def hasMark : List Char → Bool
  | c :: d :: cs => (d == ':' && endsWord cs) || (d == '#' && !isInk c) || hasMark (d :: cs)
  | _ => false

def isPadded (cs : List Char) : Bool :=
  let pads (c : Char) : Bool := c == ' ' || isBreak c
  cs.head?.any pads || cs.getLast?.any pads

def allowsPlain (cs : List Char) : Bool :=
  isOpen cs && !cs.any isBreak && !isPadded cs && !startsWithMark cs && !hasMark cs

def allowsSingle (cs : List Char) : Bool := isOpen cs && !hasBreakSpace cs

def allowsBlock (cs : List Char) : Bool := isOpen cs && cs.getLast? != some ' '

def isTaken (cs : List Char) : Bool :=
  match denotes? cs with
  | some (.string _) => isZeroPadded cs
  | _ => true

/-- The letters that stand for characters behind a backslash. -/
def escapeLetters : List (Char × Char) :=
  [('\x00', '0'), ('\x07', 'a'), ('\x08', 'b'), ('\t', 't'), ('\n', 'n'), ('\x0b', 'v'),
    ('\x0c', 'f'),
    ('\r', 'r'), ('\x1b', 'e'), ('"', '"'), ('\\', '\\'), ('\x85', 'N'), ('\u00a0', '_'),
    ('\u2028', 'L'), ('\u2029', 'P')]

/-- The hexadecimal digits of a number, as many as asked for. -/
def hexDigits : Nat → Nat → List Char
  | 0, _ => []
  | width + 1, n => hexDigits width (n / 16) ++ [Text.Decimal.hexDigitUpper (n % 16)]

/-- A character behind a backslash. -/
def escape (c : Char) : List Char :=
  match escapeLetters.lookup c with
  | some letter => ['\\', letter]
  | none =>
    let n := c.toNat
    if n ≤ 0xFF then '\\' :: 'x' :: hexDigits 2 n
    else if n ≤ 0xFFFF then '\\' :: 'u' :: hexDigits 4 n
    else '\\' :: 'U' :: hexDigits 8 n

def double (cs : List Char) : List Char :=
  let char (c : Char) : List Char :=
    if !isPrintable c || isBreak c || c == '"' || c == '\\' then escape c else [c]
  '"' :: (cs.flatMap char ++ ['"'])

/-- A text of several lines, each line that is not empty behind an indentation. -/
def indented (indent : Nat) (char : Char → List Char) : Bool → List Char → List Char
  | _, [] => []
  | atStart, c :: cs =>
    if isBreak c then c :: indented indent char true cs
    else if atStart then List.replicate indent ' ' ++ char c ++ indented indent char false cs
    else char c ++ indented indent char false cs

/-- A text between single quotes; a quote is written twice. -/
def single (indent : Nat) (cs : List Char) : List Char :=
  let last := if cs.getLast?.any isBreak then List.replicate indent ' ' else []
  '\'' ::
    (indented indent (fun c => if c = '\'' then ['\'', '\''] else [c]) false cs ++ last ++ ['\''])

/-- The header of a block of lines: the indentation if the first line does not show it, and what
becomes of the line breaks at the end. -/
def blockHeader (cs : List Char) : List Char :=
  let indent := if cs.head?.any fun c => c == ' ' || isBreak c then ['2'] else []
  let chomping :=
    match cs.reverse with
    | [] => ['-']
    | [c] => if isBreak c then ['+'] else ['-']
    | c :: d :: _ => if !isBreak c then ['-'] else if isBreak d then ['+'] else []
  '|' :: (indent ++ chomping)

def block (indent : Nat) (cs : List Char) : List Char :=
  blockHeader cs ++ '\n' :: indented indent (fun c => [c]) true cs

/-- A string as it is written; further lines are indented. -/
def string (indent : Nat) (cs : List Char) : List Char :=
  if cs.contains '\n' then
    if allowsBlock cs then block indent cs else double cs
  else if !isTaken cs && allowsPlain cs then cs
  else if allowsSingle cs then single indent cs
  else double cs

end Style

end Roster.Yaml
