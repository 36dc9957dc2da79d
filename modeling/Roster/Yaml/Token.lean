/-
The tokens of a YAML text.

Indentation becomes tokens of its own: a block collection opens at the column of its first entry and
closes when a later token stands further to the left.  Whether a node is the key of a mapping is
known only at the colon behind it, so every node that might be one is kept as a `PendingKey`, and
the colon puts the key token in front of it.

`tokens?` answers the tokens of a text, or `none` when the text has no tokens.
-/
import Roster.Yaml.Scalar

namespace Roster.Yaml

/-- A token of a YAML text. -/
inductive Token where
  /-- A directive that names the version of the language. -/
  | version (major minor : Nat)
  /-- A directive that gives a tag handle its expansion. -/
  | handle (name expansion : List Char)
  | documentStart
  | documentEnd
  | blockSequence
  | blockMapping
  | blockEnd
  | flowSequence
  | flowSequenceEnd
  | flowMapping
  | flowMappingEnd
  /-- A dash before an entry of a sequence. -/
  | entry
  /-- A comma between the parts of a flow collection. -/
  | comma
  | key
  | value
  | alias (name : List Char)
  | anchor (name : List Char)
  | tag (handle suffix : List Char)
  /-- A scalar; whether it was written as plain words. -/
  | scalar (text : List Char) (plain : Bool)
  deriving DecidableEq, Repr

/-- A node that a colon may still turn into a key. -/
structure PendingKey where
  /-- Whether only a key may stand there. -/
  required : Bool
  /-- How many tokens stand before it. -/
  position : Nat
  index : Nat
  line : Nat
  column : Nat

/-- How far a text has been cut into tokens. -/
structure Scan where
  cursor : Cursor
  /-- The tokens so far, the last one first. -/
  tokens : List Token
  /-- The least column at which the contents of the innermost open block may stand. -/
  margin : Nat
  /-- The margins of the blocks around it. -/
  margins : List Nat
  /-- The node that may be a key. -/
  key : Option PendingKey
  /-- Those of the collections around the innermost open flow collection. -/
  outer : List (Option PendingKey)
  /-- Whether a node that starts here may be a key. -/
  keyAllowed : Bool

namespace Scan

def start (cs : List Char) : Scan := ⟨Cursor.start cs, [], 0, [], none, [], true⟩

def inFlow (s : Scan) : Bool := !s.outer.isEmpty

def push (t : Token) (s : Scan) : Scan := { s with tokens := t :: s.tokens }

def pushOver (t : Token) (n : Nat) (s : Scan) : Scan :=
  { s with tokens := t :: s.tokens, cursor := s.cursor.skip n }

/-- Adds a token behind the first ones. -/
def insert (position : Nat) (t : Token) (s : Scan) : Scan :=
  let later := s.tokens.length - position
  { s with tokens := s.tokens.take later ++ t :: s.tokens.drop later }

def allowKey (allowed : Bool) (s : Scan) : Scan := { s with keyAllowed := allowed }

/-! ### Blocks and keys -/

/-- Closes the blocks whose margin is greater than a bound. -/
def closeBlocks (bound : Nat) (s : Scan) : Scan :=
  if s.inFlow then s
  else
    let closed := (s.margin :: s.margins).takeWhile (bound < ·)
    let left := (s.margin :: s.margins).dropWhile (bound < ·)
    { s with
      tokens := closed.map (fun _ => Token.blockEnd) ++ s.tokens
      margin := left.headD 0
      margins := left.tail }

/-- Opens a block at a column, unless one is open there; its token stands behind the first
tokens. -/
def openBlock (t : Token) (column position : Nat) (s : Scan) : Scan :=
  if s.inFlow || column < s.margin then s
  else { s.insert position t with margin := column + 1, margins := s.margin :: s.margins }

/-- Gives up the node that may be a key, which must not be required. -/
def dropKey? (s : Scan) : Option Scan :=
  if s.key.any (·.required) then none else some { s with key := none }

/-- Takes the node that starts here for a possible key. -/
def saveKey? (s : Scan) : Option Scan :=
  if s.keyAllowed then
    let c := s.cursor
    let key : PendingKey :=
      ⟨!s.inFlow && c.column + 1 == s.margin, s.tokens.length, c.index, c.line, c.column⟩
    s.dropKey?.map fun s => { s with key := some key }
  else some s

/-- Whether a possible key can no longer be one: it must end on its line, within 1024 characters. -/
def isStale (c : Cursor) (key : PendingKey) : Bool :=
  key.line < c.line || key.index + 1024 < c.index

/-- Gives up the possible keys that can no longer be keys; none of them may be required. -/
def dropStaleKeys? (s : Scan) : Option Scan :=
  let stale (key : Option PendingKey) : Bool := key.any (isStale s.cursor)
  let fresh (key : Option PendingKey) : Option PendingKey := if stale key then none else key
  if (s.key :: s.outer).any fun key => stale key && key.any (·.required) then none
  else some { s with key := fresh s.key, outer := s.outer.map fresh }

/-! ### Between tokens -/

/-- Moves over blanks, comments and line breaks. -/
def skipGapFrom : Nat → Scan → Scan
  | 0, s => s
  | fuel + 1, s =>
    -- a tab may not stand where the indentation of a block counts
    let tabs := s.inFlow || !s.keyAllowed
    let c := s.cursor.skipWhile fun c => c == ' ' || (tabs && c == '\t')
    let c := if c.isAt '#' then c.skipLine else c
    match c.takeBreak? with
    | some (_, c) =>
      skipGapFrom fuel { s with cursor := c, keyAllowed := s.keyAllowed || !s.inFlow }
    | none => { s with cursor := c }

/-- Moves over what stands between two tokens, a byte order mark at the start of the text
included. -/
def skipGap (s : Scan) : Scan :=
  let c := s.cursor
  let c := if c.index = 0 && c.isAt '\uFEFF' then c.skip 1 else c
  skipGapFrom (c.rest.length + 1) { s with cursor := c }

/-! ### Anchors and tags -/

/-- Adds an anchor or an alias; the cursor is at the mark in front of its name. -/
def anchor? (token : List Char → Token) (s : Scan) : Option Scan :=
  let (name, c) := (s.cursor.skip 1).takeWhile isNameChar
  let ends := endsWord c.rest || c.rest.head?.any fun d => "?:,]\x7d%@\u0060".toList.contains d
  if name.isEmpty || !ends then none else some { s.push (token name) with cursor := c }

def isTagChar (verbatim : Bool) (c : Char) : Bool :=
  isNameChar c || ";/?:@&=+$.!~*'()".toList.contains c ||
    (verbatim && (c == ',' || c == '[' || c == ']'))

/-- A byte that is written as a percent sign and two hexadecimal digits. -/
def octet? : List Char → Option (Nat × List Char)
  | '%' :: h :: l :: rest =>
    do pure ((← Text.Decimal.hexValue? h) * 16 + (← Text.Decimal.hexValue? l), rest)
  | _ => none

/-- Further bytes of a character, after some bits of it. -/
def furtherOctets? : Nat → Nat → List Char → Option (Nat × List Char)
  | 0, bits, cs => some (bits, cs)
  | n + 1, bits, cs => do
    let (b, rest) ← octet? cs
    if b / 64 = 2 then furtherOctets? n (bits * 64 + b % 64) rest else none

/-- A character whose bytes are written with percent signs. -/
def percentChar? (cs : List Char) : Option (Char × List Char) := do
  let (b, rest) ← octet? cs
  let (bits, rest) ←
    if b < 0x80 then some (b, rest)
    else if b / 32 = 6 then furtherOctets? 1 (b % 32) rest
    else if b / 16 = 14 then furtherOctets? 2 (b % 16) rest
    else if b / 8 = 30 then furtherOctets? 3 (b % 8) rest
    else none
  pure (Char.ofNat bits, rest)

/-- The characters of a tag that follow, and how many characters they take up. -/
def tagText? (verbatim : Bool) : Nat → List Char → Option (List Char × Nat)
  | 0, _ => some ([], 0)
  | fuel + 1, cs =>
    match cs with
    | [] => some ([], 0)
    | '%' :: _ => do
      let (c, rest) ← percentChar? cs
      let (text, n) ← tagText? verbatim fuel rest
      pure (c :: text, n + (cs.length - rest.length))
    | c :: rest =>
      if isTagChar verbatim c then (tagText? verbatim fuel rest).map fun (text, n) =>
        (c :: text, n + 1)
      else some ([], 0)

/-- The characters of a tag at a place, and the place after them. -/
def tagText (verbatim : Bool) (c : Cursor) : Option (List Char × Cursor) :=
  (tagText? verbatim c.rest.length c.rest).map fun (text, n) => (text, c.skip n)

/-- A tag handle: an exclamation mark, a name and perhaps a second exclamation mark. -/
def tagHandle? (c : Cursor) : Option (List Char × Cursor) :=
  if c.isAt '!' then
    let (name, c) := (c.skip 1).takeWhile isNameChar
    if c.isAt '!' then some ('!' :: (name ++ ['!']), c.skip 1) else some ('!' :: name, c)
  else none

/-- The handle and the suffix of a tag. -/
def tagParts? (c : Cursor) : Option (List Char × List Char × Cursor) := do
  if (c.skip 1).isAt '<' then
    let (suffix, c) ← tagText true (c.skip 2)
    if suffix.isEmpty || !c.isAt '>' then none else pure ([], suffix, c.skip 1)
  else
    let (handle, c) ← tagHandle? c
    if handle.length > 1 && handle.getLast? == some '!' then
      let (suffix, c) ← tagText false c
      if suffix.isEmpty then none else pure (handle, suffix, c)
    else
      let (more, c) ← tagText false c
      match handle.drop 1 ++ more with
      | [] => pure ([], ['!'], c)
      | suffix => pure (['!'], suffix, c)

/-- Adds a tag. -/
def tag? (s : Scan) : Option Scan := do
  let (handle, suffix, c) ← tagParts? s.cursor
  if endsWord c.rest || (s.inFlow && c.isAt ',') then
    pure { s.push (.tag handle suffix) with cursor := c }
  else none

/-! ### Directives -/

/-- A part of a version number, of at most nine digits. -/
def versionPart? (c : Cursor) : Option (Nat × Cursor) :=
  let (digits, c) := c.takeWhile Text.Decimal.isDigit
  if digits.isEmpty || 9 < digits.length then none else some (Text.Decimal.ofDigits digits, c)

/-- What a directive declares, after its name. -/
def directiveValue? (name : List Char) (c : Cursor) : Option (Token × Cursor) := do
  let c := c.skipWhile isGapBlank
  if name = "YAML".toList then
    let (major, c) ← versionPart? c
    if !c.isAt '.' then none
    else
      let (minor, c) ← versionPart? (c.skip 1)
      pure (.version major minor, c)
  else if name = "TAG".toList then
    let (handle, c) ← tagHandle? c
    if handle.length > 1 && handle.getLast? != some '!' || !c.rest.head?.any isGapBlank then none
    else
      let (expansion, c) ← tagText true (c.skipWhile isGapBlank)
      if expansion.isEmpty || !endsWord c.rest then none else pure (.handle handle expansion, c)
  else none

/-- Adds a directive; the cursor is at its percent sign. -/
def directive? (s : Scan) : Option Scan := do
  let s ← (s.closeBlocks 0).dropKey?
  let (name, c) := (s.cursor.skip 1).takeWhile isNameChar
  if name.isEmpty || !endsWord c.rest then none
  else
    let (token, c) ← directiveValue? name c
    pure { s.push token with cursor := ← c.finishLine?, keyAllowed := false }

/-! ### Single tokens -/

/-- Adds a mark that starts or ends a document. -/
def documentMark? (t : Token) (s : Scan) : Option Scan := do
  let s ← (s.closeBlocks 0).dropKey?
  pure ((s.pushOver t 3).allowKey false)

def openFlow? (t : Token) (s : Scan) : Option Scan := do
  let s ← s.saveKey?
  pure (({ s with key := none, outer := s.key :: s.outer }.pushOver t 1).allowKey true)

def closeFlow? (t : Token) (s : Scan) : Option Scan := do
  let s ← s.dropKey?
  pure (({ s with key := s.outer.head?.join, outer := s.outer.tail }.pushOver t 1).allowKey false)

def comma? (s : Scan) : Option Scan := do
  let s ← s.dropKey?
  pure ((s.pushOver .comma 1).allowKey true)

/-- Opens a block for an entry that starts here, where a key may start. -/
def startEntry? (block : Token) (s : Scan) : Option Scan :=
  if s.inFlow then some s
  else if s.keyAllowed then some (s.openBlock block s.cursor.column s.tokens.length)
  else none

def entry? (s : Scan) : Option Scan := do
  let s ← (← s.startEntry? .blockSequence).dropKey?
  pure ((s.pushOver .entry 1).allowKey true)

def keyMark? (s : Scan) : Option Scan := do
  let s ← (← s.startEntry? .blockMapping).dropKey?
  pure ((s.pushOver .key 1).allowKey (!s.inFlow))

/-- Adds the colon in front of a value, and makes the possible key before it a key. -/
def value? (s : Scan) : Option Scan :=
  match s.key with
  | some key =>
    let s := (s.insert key.position .key).openBlock .blockMapping key.column key.position
    some (({ s with key := none }.pushOver .value 1).allowKey false)
  | none => (s.startEntry? .blockMapping).map fun s => (s.pushOver .value 1).allowKey (!s.inFlow)

def quoted? (quote : Char) (s : Scan) : Option Scan := do
  let s ← s.saveKey?
  let (text, c) ← Scalar.quoted quote s.cursor
  pure { s.push (.scalar text false) with cursor := c, keyAllowed := false }

/-- Adds a scalar that is a block of lines. -/
def block? (s : Scan) : Option Scan := do
  let s ← s.dropKey?
  let (text, c) ← Scalar.block s.margin s.cursor
  pure { s.push (.scalar text false) with cursor := c, keyAllowed := true }

def plain? (s : Scan) : Option Scan := do
  let s ← s.saveKey?
  let p ← Scalar.plain s.inFlow s.margin s.cursor
  pure { s.push (.scalar p.text true) with cursor := p.after, keyAllowed := p.endsLine }

/-- The characters that mean something else than the start of a plain scalar. -/
def indicators : List Char := "-?:,[]\x7b\x7d#&*!|>'\"%@\u0060".toList

/-- Whether a plain scalar may start with a character, given what follows it. -/
def startsPlain (flow : Bool) (c : Char) (cs : List Char) : Bool :=
  if c = '-' then !cs.head?.any isGapBlank
  else if c = '?' || c = ':' then !flow && !endsWord cs
  else isInk c && !indicators.contains c

/-- Adds the token that starts with a character, given what follows it. -/
def token? (c : Char) (cs : List Char) (s : Scan) : Option Scan :=
  let here := s.cursor
  let markEnds := endsWord cs
  if c = '%' && here.column = 0 then s.directive?
  else if here.atMark Cursor.startMark then s.documentMark? .documentStart
  else if here.atMark Cursor.endMark then s.documentMark? .documentEnd
  else if c = '[' then s.openFlow? .flowSequence
  else if c = '\x7b' then s.openFlow? .flowMapping
  else if c = ']' then s.closeFlow? .flowSequenceEnd
  else if c = '\x7d' then s.closeFlow? .flowMappingEnd
  else if c = ',' then s.comma?
  else if c = '-' && markEnds then s.entry?
  else if c = '?' && (s.inFlow || markEnds) then s.keyMark?
  else if c = ':' && (s.inFlow || markEnds) then s.value?
  else if c = '*' then s.saveKey?.bind fun s => (s.anchor? .alias).map (allowKey false)
  else if c = '&' then s.saveKey?.bind fun s => (s.anchor? .anchor).map (allowKey false)
  else if c = '!' then s.saveKey?.bind fun s => s.tag?.map (allowKey false)
  else if (c = '|' || c = '>') && !s.inFlow then s.block?
  else if c = '\'' || c = '"' then s.quoted? c
  else if startsPlain s.inFlow c cs then s.plain?
  else none

/-- Adds the tokens of the rest of the text. -/
def finishFrom : Nat → Scan → Option Scan
  | 0, _ => none
  | fuel + 1, s => do
    let s ← s.skipGap.dropStaleKeys?
    match s.cursor.rest with
    | [] => (s.closeBlocks 0).dropKey?
    | c :: cs =>
      let s ← (s.closeBlocks (s.cursor.column + 1)).token? c cs
      finishFrom fuel s

end Scan

def tokens? (cs : List Char) : Option (List Token) :=
  if cs.all isPermitted then
    ((Scan.start cs).finishFrom (cs.length + 1)).map fun s => s.tokens.reverse
  else none

end Roster.Yaml
