/-
The nodes of a YAML document.

A node is a scalar, a sequence or a mapping, each with the tag that it was given, or an alias that
stands for another node.  Aliases are resolved by number: an anchor gets the number of different
anchor names before it, and where two anchors share a number the later one in the text counts.  A
node may hold an alias of itself, so aliases stay in the tree, and `Document.resolve?` finds what
one stands for.

`Document.ofTokens?` answers the document of some tokens, or `none` when they form no single
document.
-/
import Roster.Yaml.Token

namespace Roster.Yaml

/-- A node of a document. -/
inductive Node where
  | alias (number : Nat)
  /-- A scalar, with its tag and whether it was written as plain words. -/
  | scalar (tag : Option (List Char)) (text : List Char) (plain : Bool)
  | sequence (tag : Option (List Char)) (items : List Node)
  | mapping (tag : Option (List Char)) (entries : List (Node × Node))

/-- A node that was left out. -/
def Node.omitted : Node := .scalar none [] true

/-- A document: its root, and what the aliases in it stand for. -/
structure Document where
  root : Node
  /-- How many scalars, aliases and ends of collections the document has. -/
  size : Nat
  /-- The position in the text of the anchor with a number, later anchors first. -/
  places : List (Nat × Nat)
  /-- The nodes with an anchor, by position. -/
  anchored : List (Nat × Node)

/-- The node that the alias with a number stands for. -/
def Document.resolve? (d : Document) (number : Nat) : Option Node := do
  d.anchored.lookup (← d.places.lookup number)

namespace Document

/-- What is left of the tokens, and what is known of the document so far. -/
structure Draft where
  tokens : List Token
  size : Nat
  /-- The numbers of the anchor names. -/
  names : List (List Char × Nat)
  places : List (Nat × Nat)
  anchored : List (Nat × Node)
  /-- The expansions of the tag handles. -/
  handles : List (List Char × List Char)

abbrev Composing (α : Type) := StateT Draft Option α

namespace Composing

def next? : Composing (Option Token) := return (← get).tokens.head?

def skip : Composing Unit := modify fun d => { d with tokens := d.tokens.tail }

/-- Steps over a token if it is next; answers whether it was. -/
def skipIf (t : Token) : Composing Bool := do
  if (← next?) == some t then skip; return true
  else return false

/-- Steps over a token, which must be next. -/
def expect (t : Token) : Composing Unit := do
  if !(← skipIf t) then failure

def nextIsOneOf (ts : List Token) : Composing Bool := return (← next?).any ts.contains

def count : Composing Unit := modify fun d => { d with size := d.size + 1 }

/-- Registers an anchor at the current position. -/
def registerName (name : List Char) : Composing Unit := modify fun d =>
  let number := d.names.length
  { d with
    names := (name, number) :: d.names.filter (·.1 != name)
    places := (number, d.size) :: d.places }

/-- The node that stands for a left out one. -/
def omitted : Composing Node := do
  count
  return .omitted

/-- The number that an alias refers to. -/
def numberOf (name : List Char) : Composing Nat := do
  match (← get).names.lookup name with
  | some number => return number
  | none => failure

/-- A tag in full. -/
def fullTag (handle suffix : List Char) : Composing (List Char) := do
  if handle.isEmpty then return suffix
  else
    match (← get).handles.lookup handle with
    | some expansion => return expansion ++ suffix
    | none => failure

/-- The anchor that is next. -/
def anchor? : Composing (Option (List Char)) := do
  match ← next? with
  | some (.anchor name) => skip; return some name
  | _ => return none

/-- The tag that is next. -/
def tag? : Composing (Option (List Char)) := do
  match ← next? with
  | some (.tag handle suffix) => skip; return some (← fullTag handle suffix)
  | _ => return none

/-- The anchor and the tag of a node, in either order. -/
def properties : Composing (Option (List Char) × Option (List Char)) := do
  match ← anchor? with
  | some name => return (some name, ← tag?)
  | none =>
    match ← tag? with
    | some tag => return (← anchor?, some tag)
    | none => return (none, none)

def register (anchor : Option (List Char)) (position : Nat) (node : Node) : Composing Node := do
  if anchor.isSome then modify fun d => { d with anchored := (position, node) :: d.anchored }
  return node

/-- The tokens after which a node of a block mapping was left out. -/
def endsBlockPart : List Token := [.key, .value, .blockEnd]

/-- Which nodes may stand at a place. -/
inductive Place where
  /-- Any node. -/
  | block
  /-- Any node, also a sequence whose dashes are not indented. -/
  | indentless
  /-- No block collection. -/
  | flow
  deriving DecidableEq, Repr

mutual

/-- A node. -/
def node : Nat → Place → Composing Node
  | 0, _ => failure
  | fuel + 1, place => do
    match ← next? with
    | some (.alias name) =>
      let number ← numberOf name
      skip
      count
      return .alias number
    | _ =>
      let (anchor, tag) ← properties
      let position := (← get).size
      if let some name := anchor then registerName name
      count
      let collection (parts : Composing Node) : Composing Node := do
        let node ← parts
        count
        register anchor position node
      let empty : Composing Node :=
        if anchor.isSome || tag.isSome
          then register anchor position (.scalar tag [] true) else failure
      match ← next? with
      | some (.scalar text plain) =>
        skip
        register anchor position (.scalar (tag.filter (· != ['!'])) text plain)
      | some .flowSequence => skip; collection (.sequence tag <$> flowItems fuel true)
      | some .flowMapping => skip; collection (.mapping tag <$> flowEntries fuel true)
      | some .entry =>
        if place = .indentless then collection (.sequence tag <$> indentlessItems fuel)
        else empty
      | some .blockSequence =>
        if place ≠ .flow then skip; collection (.sequence tag <$> blockItems fuel)
        else empty
      | some .blockMapping =>
        if place ≠ .flow then skip; collection (.mapping tag <$> blockEntries fuel)
        else empty
      | _ => empty

/-- The node that stands here, or one that was left out before some tokens. -/
def nodeUnless : Nat → List Token → Place → Composing Node
  | 0, _, _ => failure
  | fuel + 1, ends, place => do
    if ← nextIsOneOf ends then omitted else node fuel place

/-- The items of a block sequence, with its end. -/
def blockItems : Nat → Composing (List Node)
  | 0 => failure
  | fuel + 1 => do
    if ← skipIf .entry then
      let item ← nodeUnless fuel [.entry, .blockEnd] .block
      return item :: (← blockItems fuel)
    else
      expect .blockEnd
      return []

/-- The items of a sequence whose dashes are not indented. -/
def indentlessItems : Nat → Composing (List Node)
  | 0 => failure
  | fuel + 1 => do
    if ← skipIf .entry then
      let item ← nodeUnless fuel (.entry :: endsBlockPart) .block
      return item :: (← indentlessItems fuel)
    else return []

/-- The entries of a block mapping, with its end. -/
def blockEntries : Nat → Composing (List (Node × Node))
  | 0 => failure
  | fuel + 1 => do
    if ← skipIf .key then
      let key ← nodeUnless fuel endsBlockPart .indentless
      let value ← if ← skipIf .value then nodeUnless fuel endsBlockPart .indentless else omitted
      return (key, value) :: (← blockEntries fuel)
    else
      expect .blockEnd
      return []

/-- The items of a flow sequence, with its end.  An item that starts with a key is a mapping of one
entry. -/
def flowItems : Nat → Bool → Composing (List Node)
  | 0, _ => failure
  | fuel + 1, isFirst => do
    if ← skipIf .flowSequenceEnd then return []
    else
      if !isFirst then expect .comma
      if ← skipIf .flowSequenceEnd then return []
      else if ← skipIf .key then
        let pair ← flowPair fuel
        return pair :: (← flowItems fuel false)
      else
        let item ← node fuel .flow
        return item :: (← flowItems fuel false)

/-- A mapping of one entry in a flow sequence, behind the mark of its key.  Where the key was left
out the token behind it is lost. -/
def flowPair : Nat → Composing Node
  | 0 => failure
  | fuel + 1 => do
    count
    let key ←
      if ← nextIsOneOf [.value, .comma, .flowSequenceEnd] then
        skip
        omitted
      else node fuel .flow
    let value ←
      if ← skipIf .value then nodeUnless fuel [.comma, .flowSequenceEnd] .flow else omitted
    count
    return .mapping none [(key, value)]

/-- The entries of a flow mapping, with its end. -/
def flowEntries : Nat → Bool → Composing (List (Node × Node))
  | 0, _ => failure
  | fuel + 1, isFirst => do
    if ← skipIf .flowMappingEnd then return []
    else
      if !isFirst then expect .comma
      if ← skipIf .flowMappingEnd then return []
      else if ← skipIf .key then
        let key ← nodeUnless fuel [.value, .comma, .flowMappingEnd] .flow
        let value ←
          if ← skipIf .value then nodeUnless fuel [.comma, .flowMappingEnd] .flow else omitted
        return (key, value) :: (← flowEntries fuel false)
      else
        let key ← node fuel .flow
        let value ← omitted
        return (key, value) :: (← flowEntries fuel false)

end

/-- The directives in front of a document: at most one version, which is 1.1 or 1.2, and no handle
twice. -/
def directives : List Token → Bool → List (List Char × List Char) →
    Option (List (List Char × List Char) × List Token)
  | .version major minor :: rest, versioned, handles =>
    if versioned || major ≠ 1 || (minor ≠ 1 && minor ≠ 2) then none
      else directives rest true handles
  | .handle name expansion :: rest, versioned, handles =>
    if handles.any (·.1 == name) then none
      else directives rest versioned ((name, expansion) :: handles)
  | rest, _, handles => some (handles, rest)

/-- The handles that every document has. -/
def defaultHandles : List (List Char × List Char) :=
  [("!".toList, "!".toList), ("!!".toList, "tag:yaml.org,2002:".toList)]

/-- The root of a document, with the marks around it. -/
def document (fuel : Nat) : Composing Node := do
  let tokens := (← get).tokens
  let (handles, rest) ← (directives tokens false [] : Option _)
  modify fun d => { d with tokens := rest, handles := handles ++ defaultHandles }
  let root ←
    if ← skipIf .documentStart then
      match ← next? with
      | none => omitted
      | some t =>
        match t with
        | .documentStart => omitted
        | .documentEnd => omitted
        | .version _ _ => omitted
        | .handle _ _ => omitted
        | _ => node fuel .block
    else if rest.length = tokens.length then node fuel .block
    else failure
  let left := (← get).tokens
  if left.all (· == .documentEnd) then return root else failure

end Composing

def ofTokens? (tokens : List Token) : Option Document :=
  match (Composing.document (3 * tokens.length + 3)).run ⟨tokens, 0, [], [], [], []⟩ with
  | some (root, d) => some ⟨root, d.size, d.places, d.anchored⟩
  | none => none

def read? (text : String) : Option Document := (tokens? text.toList).bind ofTokens?

end Document

end Roster.Yaml
