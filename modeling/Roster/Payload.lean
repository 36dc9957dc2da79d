/-
Payloads: the attributes of a relation.

A payload holds named JSON values in the order of their names, so that two payloads that differ only
in the order in which their fields were written are the same payload.  Refreshing a payload from
another one keeps its names and takes over the values that the other has for them, nulls excepted.

* `eq_of_get?`: a payload is settled by its names and the values under them;
* `names_refreshedFrom`: refreshing keeps the names;
* `get?_refreshedFrom`: the value that a field has after refreshing.
-/
import Roster.Json.Writer

namespace Roster

/-- Named values in name order. -/
structure Payload where
  fields : List (String × Json)
  sorted : Fields.Sorted fields

namespace Payload

def empty : Payload := ⟨[], List.Pairwise.nil⟩

/-- The payload of some named values, in which the last value of a name counts. -/
def ofList (entries : List (String × Json)) : Payload :=
  ⟨Fields.ofList entries, Fields.sorted_ofList entries⟩

def get? (p : Payload) (name : String) : Option Json := Fields.get? name p.fields

def contains (p : Payload) (name : String) : Bool := (p.get? name).isSome

def insert (p : Payload) (name : String) (value : Json) : Payload :=
  ⟨Fields.insert name value p.fields, Fields.sorted_insert name value p.sorted⟩

/-- The names of the fields, in order. -/
def names (p : Payload) : List String := Fields.names p.fields

def toJson (p : Payload) : Json := .object p.fields

def ofJson? : Json → Option Payload
  | .object fields => some (ofList fields)
  | _ => none

def text (p : Payload) : String := p.toJson.compact

/-- Equality of payloads, numbers being compared numerically. -/
def same (p q : Payload) : Bool := p.toJson.same q.toJson

/-- The value of a field after refreshing: the confirmed one, unless it is absent or null. -/
def refreshedValue (confirmed : Payload) (name : String) (value : Json) : Json :=
  match confirmed.get? name with
  | some new => if new.isNull then value else new
  | none => value

theorem sorted_map {fields : List (String × Json)} (h : Fields.Sorted fields)
    (f : String → Json → Json) : Fields.Sorted (fields.map fun e => (e.1, f e.1 e.2)) :=
  List.Pairwise.map _ (fun _ _ hab => hab) h

/-- The same fields, refreshed with the confirmed values that are not null. -/
def refreshedFrom (p confirmed : Payload) : Payload :=
  ⟨p.fields.map fun e => (e.1, refreshedValue confirmed e.1 e.2),
    sorted_map p.sorted (refreshedValue confirmed)⟩

theorem ext {p q : Payload} (h : p.fields = q.fields) : p = q := by
  cases p; cases q; cases h; rfl

theorem exists_get? {p : Payload} {name : String} (h : name ∈ p.names) :
    ∃ value, p.get? name = some value :=
  Fields.exists_get? h

theorem nodup_names (p : Payload) : p.names.Nodup := by
  refine List.Pairwise.map _ (fun a b (hab : a.1 < b.1) he => ?_) p.sorted
  rw [he] at hab
  exact String.lt_irrefl _ hab

/-- A payload is settled by its names and the values under them. -/
theorem eq_of_get? {p q : Payload} (hnames : p.names = q.names)
    (values : ∀ name ∈ p.names, p.get? name = q.get? name) : p = q :=
  ext (Fields.eq_of_get? p.nodup_names hnames values)

theorem names_refreshedFrom (p confirmed : Payload) :
    (p.refreshedFrom confirmed).names = p.names := by
  simp [names, Fields.names, refreshedFrom, Function.comp_def]

theorem get?_refreshedFrom (p confirmed : Payload) (name : String) :
    (p.refreshedFrom confirmed).get? name = (p.get? name).map (refreshedValue confirmed name) := by
  have key : ∀ fields : List (String × Json),
      Fields.get? name (fields.map fun e => (e.1, refreshedValue confirmed e.1 e.2)) =
        (Fields.get? name fields).map (refreshedValue confirmed name) := by
    intro fields
    induction fields with
    | nil => rfl
    | cons e rest ih =>
      obtain ⟨k, v⟩ := e
      by_cases hk : k = name
      · subst hk; simp [Fields.get?]
      · simp [Fields.get?, hk, ih]
  exact key p.fields

theorem ofJson?_toJson (p : Payload) : ofJson? p.toJson = some p := by
  simp only [toJson, ofJson?, Option.some.injEq]
  exact ext (Fields.ofList_eq_self p.sorted)

end Payload

end Roster
