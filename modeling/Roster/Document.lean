/-
Documents: the values that payloads are made of.

A document has the shape of a JSON value, and the fields of an object stand in name order.  Values
become documents and documents values; either way the fields of an object are collected by name, so
that what stands in name order comes out as it went in.

* `ofJson`, `toJson`: documents from values and values from documents;
* `ofFields_eq_map`, `toFields_eq_map`: fields are converted one by one;
* `Ordered`: whether the fields of every object in a document stand in name order.
-/
import Roster.Payload

namespace Roster

/-- A value of a payload. -/
inductive Document where
  | null
  | bool (value : Bool)
  | number (value : Number)
  | string (value : String)
  | array (items : List Document)
  | object (fields : List (String × Document))

namespace Document

mutual

/-- The document of a JSON value. -/
def ofJson : Json → Document
  | .null => .null
  | .bool b => .bool b
  | .number n => .number n
  | .string s => .string s
  | .array items => .array (ofItems items)
  | .object fields => .object (Fields.ofList (ofFields fields))

def ofItems : List Json → List Document
  | [] => []
  | j :: rest => ofJson j :: ofItems rest

def ofFields : List (String × Json) → List (String × Document)
  | [] => []
  | (name, j) :: rest => (name, ofJson j) :: ofFields rest

end

mutual

/-- The JSON value of a document. -/
def toJson : Document → Json
  | .null => .null
  | .bool b => .bool b
  | .number n => .number n
  | .string s => .string s
  | .array items => .array (toItems items)
  | .object fields => .object (Fields.ofList (toFields fields))

def toItems : List Document → List Json
  | [] => []
  | d :: rest => toJson d :: toItems rest

def toFields : List (String × Document) → List (String × Json)
  | [] => []
  | (name, d) :: rest => (name, toJson d) :: toFields rest

end

mutual

/-- Whether the fields of every object in the document stand in name order. -/
def Ordered : Document → Prop
  | .array items => OrderedItems items
  | .object fields => Fields.Sorted fields ∧ OrderedFields fields
  | .null => True
  | .bool _ => True
  | .number _ => True
  | .string _ => True

def OrderedItems : List Document → Prop
  | [] => True
  | d :: rest => Ordered d ∧ OrderedItems rest

def OrderedFields : List (String × Document) → Prop
  | [] => True
  | (_, d) :: rest => Ordered d ∧ OrderedFields rest

end

/-- The payload whose fields a document is, if it is an object. -/
def payload? : Document → Option Payload
  | .object fields => some (Payload.ofList (toFields fields))
  | _ => none

/-- The document that a payload is. -/
def ofPayload (p : Payload) : Document := .object (ofFields p.fields)

theorem ofFields_eq_map (fields : List (String × Json)) :
    ofFields fields = fields.map fun e => (e.1, ofJson e.2) := by
  induction fields with
  | nil => rfl
  | cons e rest ih => rw [ofFields, ih, List.map_cons]

theorem toFields_eq_map (fields : List (String × Document)) :
    toFields fields = fields.map fun e => (e.1, toJson e.2) := by
  induction fields with
  | nil => rfl
  | cons e rest ih => rw [toFields, ih, List.map_cons]

end Document

end Roster
