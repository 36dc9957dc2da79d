/-
Scalars in a YAML text.

A scalar is written in one of four ways: as plain words, between single or double quotes, or as a
block of lines behind `|` or `>`.  Each reader starts at a cursor and answers the text that the
scalar stands for and the place behind it.  Words that are set apart by a gap are joined by what the
gap stands for.

The margin is the least column at which the contents of the innermost open block may stand.
-/
import Roster.Yaml.Cursor

namespace Roster.Yaml

/-- The characters that set the parts of a flow collection apart. -/
def isFlowMark (c : Char) : Bool := c == ',' || c == '[' || c == ']' || c == '{' || c == '}'

namespace Scalar

/-! ### Plain words -/

/-- A plain scalar that was read. -/
structure Plain where
  text : List Char
  after : Cursor
  /-- Whether the scalar was given up only on a later line. -/
  endsLine : Bool

/-- The plain word at the start of a text.  In a flow collection a colon may not stand before a
mark. -/
def plainWord (flow : Bool) : List Char → Option (List Char)
  | [] => some []
  | c :: cs =>
    if !isInk c then some []
    else if flow && c == ':' && cs.head?.any fun d => isFlowMark d || d == '?' then none
    else if c == ':' && endsWord cs then some []
    else if flow && isFlowMark c then some []
    else (plainWord flow cs).map (c :: ·)

/-- The words of a plain scalar from a place on, after a gap. -/
def plainFrom (flow : Bool) (margin : Nat) : Nat → Gap → Cursor → Option Plain
  | 0, _, _ => none
  | fuel + 1, g, c =>
    if c.atDocumentMark || c.isAt '#' then some ⟨[], c, g.endsLine⟩
    else
      match plainWord flow c.rest with
      | none => none
      | some [] => some ⟨[], c, g.endsLine⟩
      | some word =>
        let joined := g.text ++ word
        let c := c.skip word.length
        if c.rest.head?.all isInk then some ⟨joined, c, false⟩
        else
          match c.gap margin with
          | none => none
          | some (g, c) =>
            if !flow && c.column < margin then some ⟨joined, c, g.endsLine⟩
            else (plainFrom flow margin fuel g c).map fun p => { p with text := joined ++ p.text }

def plain (flow : Bool) (margin : Nat) (c : Cursor) : Option Plain :=
  plainFrom flow margin (c.rest.length + 1) ⟨[], []⟩ c

/-! ### Quoted text -/

/-- The part of a single-quoted scalar up to a gap or the closing quote, and how many characters it
takes up.  A quote is written twice. -/
def singlePart : List Char → List Char × Nat
  | '\'' :: '\'' :: cs => let (text, n) := singlePart cs; ('\'' :: text, n + 2)
  | c :: cs =>
    if c = '\'' || !isInk c then ([], 0) else let (text, n) := singlePart cs; (c :: text, n + 1)
  | [] => ([], 0)

/-- The character with a number that is written in some hexadecimal digits. -/
def numbered? (digits : List Char) : Option Char := do
  let n ← digits.foldlM (fun n d => (Text.Decimal.hexValue? d).map (n * 16 + ·)) 0
  if h : n.isValidChar then some (Char.ofNatAux n h) else none

/-- The letters behind a backslash, and what they stand for. -/
def escapes : List (Char × Char) :=
  [('0', '\x00'), ('a', '\x07'), ('b', '\x08'), ('t', '\t'), ('\t', '\t'), ('n', '\n'),
    ('v', '\x0b'),
    ('f', '\x0c'), ('r', '\r'), ('e', '\x1b'), (' ', ' '), ('"', '"'), ('/', '/'), ('\\', '\\'),
    ('N', '\x85'), ('_', '\u00a0'), ('L', '\u2028'), ('P', '\u2029')]

/-- The digits that follow a letter behind a backslash. -/
def escapeDigits (letter : Char) : Option Nat :=
  if letter = 'x' then some 2 else if letter = 'u' then some 4 else if letter = 'U'
    then some 8 else none

/-- What follows a backslash: the character that it stands for, and how many characters it takes
up. -/
def escaped? : List Char → Option (Char × Nat)
  | [] => none
  | letter :: cs =>
    match escapeDigits letter with
    | some n => if cs.length < n then none else (numbered? (cs.take n)).map fun c => (c, n + 1)
    | none => (escapes.lookup letter).map fun c => (c, 1)

/-- The part of a double-quoted scalar up to a gap, the closing quote or an escaped line break, and
how many characters it takes up. -/
def doublePart : Nat → List Char → Option (List Char × Nat)
  | 0, _ => some ([], 0)
  | fuel + 1, cs =>
    match cs with
    | [] => some ([], 0)
    | '\\' :: rest =>
      if rest.head?.any isBreak then some ([], 0)
      else
        match escaped? rest with
        | none => none
        | some (c, n) => (doublePart fuel (rest.drop n)).map fun (text, m) => (c :: text, m + n + 1)
    | c :: rest =>
      if c = '"' || !isInk c then some ([], 0)
      else (doublePart fuel rest).map fun (text, m) => (c :: text, m + 1)

/-- The part of a quoted scalar that stands here. -/
def quotedPart (quote : Char) (cs : List Char) : Option (List Char × Nat) :=
  if quote = '\'' then some (singlePart cs) else doublePart cs.length cs

/-- A quoted scalar from a place behind its opening quote on. -/
def quotedFrom (quote : Char) : Nat → Cursor → Option (List Char × Cursor)
  | 0, _ => none
  | fuel + 1, c =>
    if c.atDocumentMark || c.rest.isEmpty then none
    else
      match quotedPart quote c.rest with
      | none => none
      | some (part, n) =>
        let c := c.skip n
        if c.isAt quote then some (part, c.skip 1)
        else if c.isAt '\\' then
          match (c.skip 1).takeBreak? with
          | none => none
          | some (_, c) =>
            if c.isAt quote then some (part, c.skip 1)
            else
              match c.breaks 0 with
              | none => none
              | some (breaks, c) =>
                (quotedFrom quote fuel c).map fun (text, c) => (part ++ breaks ++ text, c)
        else
          match c.gap 0 with
          | none => none
          | some (g, c) => (quotedFrom quote fuel c).map fun (text, c) =>
            (part ++ g.text ++ text, c)

/-- A quoted scalar; the cursor is at its opening quote. -/
def quoted (quote : Char) (c : Cursor) : Option (List Char × Cursor) :=
  quotedFrom quote (c.rest.length + 1) (c.skip 1)

/-! ### Blocks of lines -/

/-- Which of the line breaks at the end of a block belong to it. -/
inductive Chomping where
  /-- The last line's own break. -/
  | clip
  /-- None. -/
  | strip
  /-- All. -/
  | keep
  deriving DecidableEq, Repr

/-- The chomping that is asked for here. -/
def chomping? (c : Cursor) : Option Chomping :=
  if c.isAt '+' then some .keep else if c.isAt '-' then some .strip else none

/-- The header of a block: its chomping and the indentation that it asks for, in either order. -/
def blockHeader (c : Cursor) : Chomping × Option Nat × Cursor :=
  let chomp (c : Cursor) : Option Chomping × Cursor :=
    match chomping? c with
    | some chomping => (some chomping, c.skip 1)
    | none => (none, c)
  let indent (c : Cursor) : Option Nat × Cursor :=
    match c.rest with
    | d :: _ => if Text.Decimal.isDigit d then (some (d.toNat - 48), c.skip 1) else (none, c)
    | [] => (none, c)
  match chomp c with
  | (some chomping, c) => let (n, c) := indent c; (chomping, n, c)
  | (none, c) =>
    let (n, c) := indent c
    match n with
    | some n => let (chomping, c) := chomp c; (chomping.getD .clip, some n, c)
    | none => (.clip, none, c)

/-- Empty lines of a block: their breaks, the first place that is not on an empty line, and the
greatest column that was met.  Without a column for the contents any indentation is stepped over. -/
def emptyLines (column : Option Nat) : Nat → Cursor → Option (List Char × Nat × Cursor)
  | 0, _ => none
  | fuel + 1, c =>
    let spaces := (c.rest.takeWhile (· == ' ')).length
    let c := c.skip (column.elim spaces fun k => min spaces (k - c.column))
    if c.isAt '\t' && column.all (c.column < ·) then none
    else
      match c.takeBreak? with
      | none => some ([], c.column, c)
      | some (b, next) =>
        (emptyLines column fuel next).map fun (bs, greatest, after) =>
          (b :: bs, max c.column greatest, after)

/-- The lines of a block from a place on: their text, the break after the last of them, and the
breaks of the empty lines at the end.  The break in front is given with what is known of it: the
breaks after it, and whether the line before started with a blank.  Where lines are folded, a break
between two lines that start with ink stands for a space, or for nothing before empty lines. -/
def blockLines (folded : Bool) (column : Nat) :
    Nat → Option Char → List Char → Bool → Cursor →
    Option (List Char × Option Char × List Char × Cursor)
  | 0, _, _, _, _ => none
  | fuel + 1, lead, empty, blankBefore, c =>
    if c.column ≠ column || c.rest.isEmpty then some ([], lead, empty, c)
    else
      let blankHere := c.rest.head?.any isGapBlank
      let join :=
        if folded && lead == some '\n' && !blankBefore && !blankHere then
          if empty.isEmpty then [' '] else []
        else lead.toList
      let (line, c) := c.takeWhile (!isBreak ·)
      let (lead, c) :=
        match c.takeBreak? with
        | some (b, c) => (some b, c)
        | none => (none, c)
      match emptyLines (some column) (c.rest.length + 1) c with
      | none => none
      | some (breaks, _, c) =>
        (blockLines folded column fuel lead breaks blankHere c).map fun (text, after) =>
          (join ++ empty ++ line ++ text, after)

/-- A block of lines; the cursor is at the indicator in front of its header. -/
def block (margin : Nat) (c : Cursor) : Option (List Char × Cursor) := do
  let folded := c.isAt '>'
  let (chomping, indent, c) := blockHeader (c.skip 1)
  if indent = some 0 then none
  else
    let c ← c.finishLine?
    let (breaks, greatest, c) ← emptyLines (indent.map (margin - 1 + ·)) (c.rest.length + 1) c
    let column := indent.elim (max greatest (max margin 1)) (margin - 1 + ·)
    let (text, last, empty, c) ← blockLines folded column (c.rest.length + 1) none breaks false c
    let tail :=
      match chomping with
      | .strip => []
      | .clip => last.toList
      | .keep => last.toList ++ empty
    pure (text ++ tail, c)

end Scalar

end Roster.Yaml
