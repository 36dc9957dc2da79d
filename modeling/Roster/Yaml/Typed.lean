/-
Typed readers of YAML nodes.

`text`, `value`, `optional`, `list` and `members` read nodes of one shape.  An alias is read as the
node that it stands for; a document allows a hundred times as many of these steps as it has parts.
Sequences and mappings that are read may stand in each other up to a number of levels.

Any scalar is a text where a text is asked for, whatever it denotes, and a list may be left out.
-/
import Roster.Yaml.Denotation
import Roster.Yaml.Node
import Roster.Fields

namespace Roster.Yaml

/-- A part of reading a document, which is told how many aliases may still be followed. -/
abbrev Reading (α : Type) := StateT Nat Option α

/-- A reader of nodes in which sequences and mappings may stand in each other for some levels. -/
abbrev Decoder (α : Type) := Document → Nat → Node → Reading α

/-- The sequences and mappings that may be open at once. -/
def maxLevels : Nat := 128

namespace Document

/-- The node itself, or the one that it stands for. -/
def follow (d : Document) : Node → Reading Node
  | .alias number => do
    let left ← get
    if left = 0 then failure
    set (left - 1)
    match d.resolve? number with
    | some (.alias _) => failure
    | some n => return n
    | none => failure
  | n => return n

end Document

/-- What lies inside a sequence or a mapping, if a further level may be opened. -/
def inside {α : Type} (levels : Nat) (parts : Nat → Reading α) : Reading α :=
  match levels with
  | 0 => failure
  | levels + 1 => parts levels

def text : Decoder String := fun d _ n => do
  match ← d.follow n with
  | .scalar _ cs _ => return String.ofList cs
  | _ => failure

/-- The entries of a mapping, their keys as texts. -/
def entries (d : Document) (es : List (Node × Node)) : Reading (List (String × Node)) :=
  es.mapM fun (k, v) => do return (← text d 0 k, v)

/-- The value of a node, given how the nodes in it are read, if they may be. -/
def valueWith (d : Document) (part : Option (Node → Reading Json)) (n : Node) : Reading Json := do
  match ← d.follow n, part with
  | .scalar tag cs plain, _ => (scalarValue? tag cs plain : Option Json)
  | .sequence tag items, some part =>
    if tag.any isOwnTag then failure
    return .array (← items.mapM part)
  | .mapping tag es, some part =>
    if tag.any isOwnTag then failure
    return .ofFields (← (← entries d es).mapM fun (k, v) => do return (k, ← part v))
  | _, _ => failure

def value (d : Document) : Nat → Node → Reading Json
  | 0 => valueWith d none
  | levels + 1 => valueWith d (some (value d levels))

/-- Null, or what another reader reads. -/
def optional {α : Type} (decoder : Decoder α) : Decoder (Option α) := fun d levels n => do
  let n ← d.follow n
  match n with
  | .scalar (some tag) cs true =>
    if tag = coreTag "null" then
      if isNull cs then return none else failure
    else return some (← decoder d levels n)
  | .scalar none cs true =>
    if cs.isEmpty || isNull cs then return none else return some (← decoder d levels n)
  | _ => return some (← decoder d levels n)

/-- A sequence of items of one shape, or nothing at all. -/
def list {α : Type} (decoder : Decoder α) : Decoder (List α) := fun d levels n => do
  match ← d.follow n with
  | .sequence _ items => inside levels fun levels => items.mapM (decoder d levels)
  | .scalar _ [] true => return []
  | _ => failure

/-- A mapping, read by what is made of its members. -/
def members {α : Type} (read : List (String × Node) → Document → Nat → Reading α) : Decoder α :=
  fun d levels n => do
    match ← d.follow n with
    | .mapping _ es => inside levels fun levels => do read (← entries d es) d levels
    | _ => failure

/-- The member of a name, which may stand only once. -/
def member? (name : String) (ms : List (String × Node)) : Reading (Option Node) :=
  match ms.filter (·.1 == name) with
  | [] => return none
  | [(_, n)] => return some n
  | _ => failure

/-- The member of a name as another reader reads it. -/
def required {α : Type} (name : String) (decoder : Decoder α) (ms : List (String × Node))
    (d : Document) (levels : Nat) : Reading α := do
  match ← member? name ms with
  | some n => decoder d levels n
  | none => failure

/-- The member of a name as another reader reads it, or a value in its place. -/
def defaulted {α : Type} (name : String) (decoder : Decoder α) (default : α)
    (ms : List (String × Node)) (d : Document) (levels : Nat) : Reading α := do
  match ← member? name ms with
  | some n => decoder d levels n
  | none => return default

def read? {α : Type} (decoder : Decoder α) (text : String) : Option α := do
  let d ← Document.read? text
  let (a, _) ← (decoder d maxLevels d.root).run (d.size * 100)
  return a

end Roster.Yaml
