/-
Relations on the wire.

On the wire a relation is a record of an id, a priority and a profile, of which the last two may be
missing or null.  A priority is an integer of 64 bits, as a number or as a text with blanks around
it; anything else is refused.  A profile is an object, or a text that holds one; every other profile
counts as the empty one, so that a bad profile never stands in the way of a relation.

* `decode_encode`: a relation is read back from its wire form;
* `ofJson?_toJson`: a wire form is read back from its JSON value.
-/
import Roster.Relation
import Roster.Json.Typed
import Roster.Text.Blank

namespace Roster

/-- Why relations are refused. -/
inductive RelationError where
  /-- The relation at an index names no target. -/
  | missingTarget (index : Nat)
  /-- A second relation to a target. -/
  | duplicateTarget (target : TargetId)
  /-- The priority is no 64-bit integer. -/
  | invalidPriority (target : TargetId) (value : Json)

/-- The error in words. -/
def RelationError.message : RelationError → String
  | missingTarget index =>
    "relation #" ++ Text.Decimal.text index ++ " has an empty target id"
  | duplicateTarget target => "target '" ++ target.text ++ "' is declared more than once"
  | invalidPriority target value =>
    "target '" ++ target.text ++ "' has a malformed ordering value: " ++ value.compact

/-- A relation as it is written. -/
structure WireRelation where
  id : String
  priority : Option Json
  profile : Option Json

namespace WireRelation

/-- The integer in a text, if it has 64 bits. -/
def textPriority? (s : String) : Option Int :=
  (Text.Decimal.readInt? (Text.trim s.toList)).filter fun n => Number.IsInt64 n

/-- The priority that a value asks for; `none` when it asks for none that there is. -/
def readPriority? : Option Json → Option Priority
  | none => some .unset
  | some .null => some .unset
  | some (.number n) => n.int64?.map .explicit
  | some (.string s) => (textPriority? s).map .explicit
  | some _ => none

/-- The payload that a profile holds, the empty one if it holds none. -/
def readProfile : Option Json → Payload
  | some (.string s) =>
    match Json.parse s with
    | .ok j => (Payload.ofJson? j).getD .empty
    | .error _ => .empty
  | some j => (Payload.ofJson? j).getD .empty
  | none => .empty

/-- The relation that is written, unless its priority is refused. -/
def decode (w : WireRelation) : Except RelationError Relation :=
  match readPriority? w.priority with
  | some priority => .ok ⟨⟨w.id⟩, priority, readProfile w.profile⟩
  | none => .error (.invalidPriority ⟨w.id⟩ (w.priority.getD .null))

/-- The relations that are written, or the error of the first one that is refused. -/
def decodeAll (ws : List WireRelation) : Except RelationError (List Relation) := ws.mapM decode

/-- How a relation is written: an unset priority is left out, a payload is always an object. -/
def encode (r : Relation) : WireRelation where
  id := r.target.text
  priority := r.priority.explicit?.map Json.ofInt
  profile := some r.payload.toJson

def toJson (w : WireRelation) : Json :=
  .object (("id", .string w.id) ::
    ((w.priority.map (("priority", ·))).toList ++ (w.profile.map (("profile", ·))).toList))

/-- A value that is not null. -/
def nonNull? : Json → Option Json
  | .null => none
  | j => some j

/-- The record in a JSON value: an object, or an array of the parts in their order. -/
def ofJson? : Json → Option WireRelation
  | .object fields =>
    match Fields.get? "id" fields with
    | some (.string id) =>
      some ⟨id, (Fields.get? "priority" fields).bind nonNull?,
        (Fields.get? "profile" fields).bind nonNull?⟩
    | _ => none
  | .array [.string id] => some ⟨id, none, none⟩
  | .array [.string id, priority] => some ⟨id, nonNull? priority, none⟩
  | .array [.string id, priority, profile] => some ⟨id, nonNull? priority, nonNull? profile⟩
  | _ => none

/-- What was read of a record. -/
structure Draft where
  id : Option String
  priority : Option (Option Json)
  profile : Option (Option Json)

/-- The parts of the record. -/
def parts : List (Json.Part Draft) :=
  [.of "id" Draft.id (fun a d => { d with id := some a }) Json.text,
   .of "priority" Draft.priority (fun a d => { d with priority := some a })
     (Json.optional Json.readValue),
   .of "profile" Draft.profile (fun a d => { d with profile := some a })
     (Json.optional Json.readValue)]

/-- The record of a draft that has an id. -/
def Draft.finish (d : Draft) : Option WireRelation :=
  d.id.map fun id => ⟨id, d.priority.join, d.profile.join⟩

def decoder : Json.Decoder WireRelation := Json.record parts ⟨none, none, none⟩ Draft.finish

def listJson (relations : List Relation) : Json := .array (relations.map fun r => (encode r).toJson)

/-- Reads a relation from JSON text; a refused priority is a fault of shape. -/
def relationDecoder : Json.Decoder Relation := Json.checked decoder fun w => w.decode.toOption

theorem readPriority?_encode {p : Priority} (h : ∀ n, p = .explicit n → Number.IsInt64 n) :
    readPriority? (p.explicit?.map Json.ofInt) = some p := by
  cases p with
  | unset => rfl
  | explicit n =>
    simp [Priority.explicit?, Json.ofInt, readPriority?, Number.int64?, h n rfl]

theorem decode_encode {r : Relation} (h : ∀ n, r.priority = .explicit n → Number.IsInt64 n) :
    (encode r).decode = .ok r := by
  simp only [decode, encode]
  rw [readPriority?_encode h]
  simp only [readProfile, Payload.toJson]
  have := Payload.ofJson?_toJson r.payload
  simp only [Payload.toJson] at this
  rw [this]
  rfl

end WireRelation

end Roster
