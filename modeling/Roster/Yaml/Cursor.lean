/-
Places in a YAML text.

A cursor is the rest of a text together with how far it is from the start, counted in characters and
in lines and columns.  Everything that is read moves a cursor: over a number of characters of a
line, over the characters of a class, or over a line break.

A `Gap` is what stands between two words of a scalar.  A single line break in it stands for a space,
and of several breaks the first one is dropped (`Gap.text`).
-/
import Roster.Text.Decimal

namespace Roster.Yaml

/-- The characters that end a line. -/
def isBreak (c : Char) : Bool :=
  c == '\n' || c == '\r' || c == '\x85' || c == '\u2028' || c == '\u2029'

def isGapBlank (c : Char) : Bool := c == ' ' || c == '\t'

def isInk (c : Char) : Bool := !(isGapBlank c || isBreak c)

/-- Whether no word goes on here: at a blank, at a line break and at the end. -/
def endsWord : List Char → Bool
  | [] => true
  | c :: _ => !isInk c

def isNameChar (c : Char) : Bool :=
  Text.Decimal.isDigit c || ('A' ≤ c && c ≤ 'Z') || ('a' ≤ c && c ≤ 'z') || c == '_' || c == '-'

/-- The characters that may stand in a text at all. -/
def isPermitted (c : Char) : Bool :=
  let n := c.toNat
  n == 0x09 || n == 0x0A || n == 0x0D || (0x20 ≤ n && n ≤ 0x7E) || n == 0x85 ||
    (0xA0 ≤ n && n ≤ 0xFFFD) || 0x10000 ≤ n

/-- The rest of a text, and how far it is from the start. -/
structure Cursor where
  rest : List Char
  index : Nat
  line : Nat
  column : Nat

namespace Cursor

def start (cs : List Char) : Cursor := ⟨cs, 0, 0, 0⟩

def skip (n : Nat) (c : Cursor) : Cursor :=
  { c with rest := c.rest.drop n, index := c.index + n, column := c.column + n }

/-- The start of the next line, after a line break of some characters. -/
def nextLine (n : Nat) (c : Cursor) : Cursor := ⟨c.rest.drop n, c.index + n, c.line + 1, 0⟩

/-- The characters of a class that stand here, which are no line breaks, and the place after
them. -/
def takeWhile (p : Char → Bool) (c : Cursor) : List Char × Cursor :=
  let taken := c.rest.takeWhile p
  (taken, c.skip taken.length)

def skipWhile (p : Char → Bool) (c : Cursor) : Cursor := (c.takeWhile p).2

def skipLine (c : Cursor) : Cursor := c.skipWhile (!isBreak ·)

/-- The line break that stands here, as it counts in a scalar, and the place after it. -/
def takeBreak? (c : Cursor) : Option (Char × Cursor) :=
  match c.rest with
  | '\r' :: '\n' :: _ => some ('\n', c.nextLine 2)
  | b :: _ =>
    if b = '\u2028' ∨ b = '\u2029' then some (b, c.nextLine 1)
    else if isBreak b then some ('\n', c.nextLine 1)
    else none
  | [] => none

def isAt (x : Char) (c : Cursor) : Bool := c.rest.head? == some x

/-- Whether a given mark stands here as a word at the start of a line. -/
def atMark (mark : List Char) (c : Cursor) : Bool :=
  c.column == 0 && mark.isPrefixOf c.rest && endsWord (c.rest.drop mark.length)

/-- The mark that starts a document. -/
def startMark : List Char := ['-', '-', '-']

/-- The mark that ends a document. -/
def endMark : List Char := ['.', '.', '.']

/-- Whether a mark stands here that starts or ends a document. -/
def atDocumentMark (c : Cursor) : Bool := c.atMark startMark || c.atMark endMark

/-- Moves over the blanks and the comment that may follow on a line and over its end; nothing else
may stand there. -/
def finishLine? (c : Cursor) : Option Cursor :=
  let c := c.skipWhile isGapBlank
  let c := if c.isAt '#' then c.skipLine else c
  match c.takeBreak? with
  | some (_, c) => some c
  | none => if c.rest.isEmpty then some c else none

end Cursor

/-- What stands between two words of a scalar: blanks, and then the line breaks if there are any. -/
structure Gap where
  blanks : List Char
  breaks : List Char

namespace Gap

/-- What the gap stands for. -/
def text (g : Gap) : List Char :=
  match g.breaks with
  | [] => g.blanks
  | ['\n'] => [' ']
  | '\n' :: more => more
  | breaks => breaks

def endsLine (g : Gap) : Bool := !g.breaks.isEmpty

end Gap

namespace Cursor

/-- The line breaks that follow with only blanks between them, and the place of the next word.  No
tab may stand before the margin. -/
def breaksFrom (margin : Nat) : Nat → Cursor → Option (List Char × Cursor)
  | 0, _ => none
  | fuel + 1, c =>
    let c := c.skipWhile (· == ' ')
    if c.isAt '\t' && c.column < margin then none
    else
      let c := c.skipWhile isGapBlank
      match c.takeBreak? with
      | some (b, c) => (breaksFrom margin fuel c).map fun (bs, c) => (b :: bs, c)
      | none => some ([], c)

/-- `breaksFrom` with enough fuel for the rest of the text. -/
def breaks (margin : Nat) (c : Cursor) : Option (List Char × Cursor) :=
  breaksFrom margin (c.rest.length + 1) c

/-- The gap that stands here, and the place of the next word. -/
def gap (margin : Nat) (c : Cursor) : Option (Gap × Cursor) :=
  let (blanks, c) := c.takeWhile isGapBlank
  match c.takeBreak? with
  | some (b, c) => (c.breaks margin).map fun (bs, c) => (⟨blanks, b :: bs⟩, c)
  | none => some (⟨blanks, []⟩, c)

end Cursor

end Roster.Yaml
