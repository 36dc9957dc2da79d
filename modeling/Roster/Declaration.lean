/-
Declarations: an owner and what its relations shall be.

A declaration is written as a record of the owner and the relations, of which the relations may be
missing.  The owner may not be blank, and the relations must form a desired set.
-/
import Roster.DesiredSet
import Roster.Path
import Roster.Yaml.Typed
import Roster.Yaml.Writer

namespace Roster

/-- An owner and what its relations shall be. -/
structure Declaration where
  owner : OwnerId
  desired : DesiredSet

/-- Why there is no declaration. -/
inductive DeclarationError where
  | notFound (path : String)
  | inaccessible (path : String) (cause : DiskError)
  /-- The text is not the YAML of a declaration. -/
  | unreadable (path : String)
  | missingOwner
  | relation (error : RelationError)

namespace DeclarationError

/-- Why a text is not the YAML of a declaration, in words. -/
def unreadableReason : String := "the text has an unexpected shape"

/-- The error in words. -/
def message : DeclarationError → String
  | notFound path => "declaration not found at " ++ path
  | inaccessible path cause => "I/O error at " ++ path ++ ": " ++ cause.message
  | unreadable path => "failed to parse declaration at " ++ path ++ ": " ++ unreadableReason
  | missingOwner => "declaration has an empty owner id"
  | relation error => error.message

/-- What lies behind the error, in words. -/
def causes : DeclarationError → List String
  | inaccessible _ cause => [cause.message]
  | unreadable _ => [unreadableReason]
  | _ => []

end DeclarationError

/-- A declaration as it is written. -/
structure WireDeclaration where
  owner : String
  relations : List WireRelation

namespace WireDeclaration

/-- The declaration that is written, unless it is refused. -/
def decode (w : WireDeclaration) : Except DeclarationError Declaration :=
  if Text.isBlankText w.owner then .error .missingOwner
  else
    match DesiredSet.ofWire w.relations with
    | .ok desired => .ok ⟨⟨w.owner⟩, desired⟩
    | .error e => .error (.relation e)

def encode (d : Declaration) : WireDeclaration :=
  ⟨d.owner.text, d.desired.relations.map WireRelation.encode⟩

def fields (w : WireDeclaration) : List (String × Json) :=
  [("owner", .string w.owner), ("relations", .array (w.relations.map WireRelation.toJson))]

def relationDecoder : Yaml.Decoder WireRelation := Yaml.members fun ms d levels => do
  let optional (name : String) := Yaml.defaulted name (Yaml.optional Yaml.value) none ms d levels
  return ⟨← Yaml.required "id" Yaml.text ms d levels, ← optional "priority", ← optional "profile"⟩

def decoder : Yaml.Decoder WireDeclaration := Yaml.members fun ms d levels => do
  return ⟨← Yaml.required "owner" Yaml.text ms d levels,
    ← Yaml.defaulted "relations" (Yaml.list relationDecoder) [] ms d levels⟩

end WireDeclaration

namespace Declaration

def parseAt (path text : String) : Except DeclarationError Declaration :=
  match Yaml.read? WireDeclaration.decoder text with
  | some w => w.decode
  | none => .error (.unreadable path)

def parse (text : String) : Except DeclarationError Declaration := parseAt "<inline>" text

/-- The declaration in the file at a location, which is shown as a path. -/
def load (path : String) (l : Location) (d : Disk) : Except DeclarationError Declaration :=
  if d.contains l then
    match d.read l with
    | .ok text => parseAt path text
    | .error cause => .error (.inaccessible path cause)
  else .error (.notFound path)

def text (d : Declaration) : String := Yaml.render (WireDeclaration.encode d).fields

def same (d e : Declaration) : Bool :=
  d.owner == e.owner && Relation.sameList d.desired.relations e.desired.relations

end Declaration

end Roster
