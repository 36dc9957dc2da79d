/-
The written form is lossless.

Values become documents and documents values without loss, for the fields of an object stand in name
order on both sides.  A relation is written in one way only: a target, the priority if it asks for
one, and an object.  What is written is read back, and whatever is read is written as it will be
written from then on.

* `Json.Ordered`: whether the fields of every object in a value stand in name order, as readers make
  them;
* `toJson_ofJson`, `ofJson_toJson`: values and documents, back and forth;
* `payload?_ofJson`: the payload that a value holds, by way of its document;
* `NormalForm`, `normalForm_encode`: what a relation that was read is written as;
* `ofWire_encode`, `decode_encode`: sets and declarations;
* `written_form_lossless`: all of it together.
-/
import Roster.Declaration
import Roster.Document
import Roster.Proofs.Formed

namespace Roster

/-! ### Values and documents -/

namespace Json

/-- Whether the fields of a value, if it is an object, stand in name order. -/
def SortedFields : Json → Prop
  | .object fields => Fields.Sorted fields
  | _ => True

/-- Whether the fields of every object in the value stand in name order. -/
def Ordered (j : Json) : Prop := All SortedFields j

mutual

theorem All.imp {p q : Json → Prop} (h : ∀ j, p j → q j) : ∀ j, All p j → All q j
  | .array items, hj => ⟨h _ hj.1, AllItems.imp h items hj.2⟩
  | .object fields, hj => ⟨h _ hj.1, AllFields.imp h fields hj.2⟩
  | .null, hj => h _ hj
  | .bool _, hj => h _ hj
  | .number _, hj => h _ hj
  | .string _, hj => h _ hj

theorem AllItems.imp {p q : Json → Prop} (h : ∀ j, p j → q j) :
    ∀ items, AllItems p items → AllItems q items
  | [], _ => trivial
  | j :: rest, hj => ⟨All.imp h j hj.1, AllItems.imp h rest hj.2⟩

theorem AllFields.imp {p q : Json → Prop} (h : ∀ j, p j → q j) :
    ∀ fields, AllFields p fields → AllFields q fields
  | [], _ => trivial
  | (_, j) :: rest, hj => ⟨All.imp h j hj.1, AllFields.imp h rest hj.2⟩

end

/-- Every value that is read is in order. -/
theorem ordered_of_parse {text : String} {j : Json} (h : parse text = .ok j) : j.Ordered := by
  refine All.imp (fun j hj => ?_) j (formed_of_parse h)
  cases j with
  | object => exact hj
  | null | bool | number | string | array => trivial

end Json

namespace Fields

variable {α β : Type}

/-- Fields in name order stay so whatever becomes of their values. -/
theorem Sorted.map {fields : List (String × α)} (h : Sorted fields) (f : α → β) :
    Sorted (fields.map fun e => (e.1, f e.2)) := List.Pairwise.map _ (fun _ _ hab => hab) h

end Fields

namespace Document

theorem orderedFields_iff {fields : List (String × Document)} :
    OrderedFields fields ↔ ∀ e ∈ fields, e.2.Ordered := by
  induction fields with
  | nil => simp [OrderedFields]
  | cons e rest ih => simp [OrderedFields, ih]

mutual

/-- Documents are in order by the way they are made. -/
theorem ordered_ofJson : ∀ j, Ordered (ofJson j)
  | .array items => ordered_ofItems items
  | .object fields => by
    refine ⟨Fields.sorted_ofList _, orderedFields_iff.2 fun e he => ?_⟩
    exact orderedFields_iff.1 (ordered_ofFields fields) e (Fields.mem_of_mem_ofList he)
  | .null => trivial
  | .bool _ => trivial
  | .number _ => trivial
  | .string _ => trivial

theorem ordered_ofItems : ∀ items, OrderedItems (ofItems items)
  | [] => trivial
  | j :: rest => ⟨ordered_ofJson j, ordered_ofItems rest⟩

theorem ordered_ofFields : ∀ fields, OrderedFields (ofFields fields)
  | [] => trivial
  | (_, j) :: rest => ⟨ordered_ofJson j, ordered_ofFields rest⟩

end

mutual

/-- So are their values. -/
theorem ordered_toJson : ∀ d, (toJson d).Ordered
  | .array items => ⟨trivial, ordered_toItems items⟩
  | .object fields => by
    refine ⟨Fields.sorted_ofList _, Json.allFields_iff.2 fun e he => ?_⟩
    exact Json.allFields_iff.1 (ordered_toFields fields) e (Fields.mem_of_mem_ofList he)
  | .null => trivial
  | .bool _ => trivial
  | .number _ => trivial
  | .string _ => trivial

theorem ordered_toItems : ∀ items, Json.AllItems Json.SortedFields (toItems items)
  | [] => trivial
  | d :: rest => ⟨ordered_toJson d, ordered_toItems rest⟩

theorem ordered_toFields : ∀ fields, Json.AllFields Json.SortedFields (toFields fields)
  | [] => trivial
  | (_, d) :: rest => ⟨ordered_toJson d, ordered_toFields rest⟩

end

mutual

/-- A value in order is the value of its document. -/
theorem toJson_ofJson : ∀ j : Json, j.Ordered → toJson (ofJson j) = j
  | .array items, h => by
    rw [ofJson, toJson, toItems_ofItems items h.2]
  | .object fields, h => by
    have hsorted : Fields.Sorted fields := h.1
    have hfields : Fields.ofList (ofFields fields) = ofFields fields := by
      rw [ofFields_eq_map]
      exact Fields.ofList_eq_self (hsorted.map ofJson)
    rw [ofJson, hfields, toJson, toFields_ofFields fields h.2, Fields.ofList_eq_self hsorted]
  | .null, _ => rfl
  | .bool _, _ => rfl
  | .number _, _ => rfl
  | .string _, _ => rfl

theorem toItems_ofItems :
    ∀ items, Json.AllItems Json.SortedFields items → toItems (ofItems items) = items
  | [], _ => rfl
  | j :: rest, h => by rw [ofItems, toItems, toJson_ofJson j h.1, toItems_ofItems rest h.2]

theorem toFields_ofFields :
    ∀ fields, Json.AllFields Json.SortedFields fields → toFields (ofFields fields) = fields
  | [], _ => rfl
  | (_, j) :: rest, h => by rw [ofFields, toFields, toJson_ofJson j h.1, toFields_ofFields rest h.2]

end

mutual

/-- A document in order is the document of its value. -/
theorem ofJson_toJson : ∀ d : Document, d.Ordered → ofJson (toJson d) = d
  | .array items, h => by rw [toJson, ofJson, ofItems_toItems items h]
  | .object fields, h => by
    have hfields : Fields.ofList (toFields fields) = toFields fields := by
      rw [toFields_eq_map]
      exact Fields.ofList_eq_self (h.1.map toJson)
    rw [toJson, hfields, ofJson, ofFields_toFields fields h.2, Fields.ofList_eq_self h.1]
  | .null, _ => rfl
  | .bool _, _ => rfl
  | .number _, _ => rfl
  | .string _, _ => rfl

theorem ofItems_toItems : ∀ items, OrderedItems items → ofItems (toItems items) = items
  | [], _ => rfl
  | d :: rest, h => by rw [toItems, ofItems, ofJson_toJson d h.1, ofItems_toItems rest h.2]

theorem ofFields_toFields : ∀ fields, OrderedFields fields → ofFields (toFields fields) = fields
  | [], _ => rfl
  | (_, d) :: rest, h => by rw [toFields, ofFields, ofJson_toJson d h.1, ofFields_toFields rest h.2]

end

/-- The payload that a value in order holds is the one that its document holds. -/
theorem payload?_ofJson {j : Json} (h : j.Ordered) : (ofJson j).payload? = Payload.ofJson? j := by
  cases j with
  | object fields =>
    have hfields : Fields.ofList (ofFields fields) = ofFields fields := by
      rw [ofFields_eq_map]
      exact Fields.ofList_eq_self (Fields.Sorted.map h.1 ofJson)
    rw [ofJson, hfields, payload?, toFields_ofFields fields h.2]
    rfl
  | null | bool | number | string | array => rfl

/-- A payload is written as the value of its document. -/
theorem toJson_ofPayload {p : Payload} (h : p.toJson.Ordered) :
    (ofPayload p).toJson = p.toJson := by
  rw [ofPayload, toJson, toFields_ofFields p.fields h.2, Fields.ofList_eq_self p.sorted]
  rfl

end Document

/-! ### Relations -/

namespace WireRelation

/-- How a relation that was read is written: with an object, with a priority if it asks for one, and
so that it is read back and then written in the same way again. -/
structure NormalForm (r : Relation) (w : WireRelation) : Prop where
  profile : ∃ fields, w.profile = some (.object fields)
  priority : w.priority.isSome = true ↔ ∃ n, r.priority = .explicit n
  decoded : w.decode = .ok r
  unchanged : w.decode.map encode = .ok w

/-- Whatever a relation was read from, it is read back from what it is written as. -/
theorem decode_encode_of_decode {w : WireRelation} {r : Relation} (h : w.decode = .ok r) :
    (encode r).decode = .ok r := decode_encode (fits_of_decode h)

theorem normalForm_encode {w : WireRelation} {r : Relation} (h : w.decode = .ok r) :
    NormalForm r (encode r) where
  profile := ⟨r.payload.fields, rfl⟩
  priority := by
    cases hp : r.priority <;> simp [encode, hp, Priority.explicit?]
  decoded := decode_encode_of_decode h
  unchanged := by
    rw [decode_encode_of_decode h]
    rfl

/-- Relations that were read are read back, in the same order. -/
theorem decodeAll_encode_of_decodeAll {ws : List WireRelation} {rs : List Relation}
    (h : decodeAll ws = .ok rs) :
    decodeAll (rs.map encode) = .ok rs := decodeAll_encode (fits_of_decodeAll h)

end WireRelation

/-! ### Sets and declarations -/

open WireRelation (encode decodeAll)

/-- A desired set that was read is read back. -/
theorem DesiredSet.ofWire_encode {ws : List WireRelation} {set : DesiredSet}
    (h : ofWire ws = .ok set) :
    ofWire (set.relations.map encode) = .ok set := by
  unfold ofWire at h ⊢
  cases hrs : decodeAll ws with
  | error e =>
    rw [hrs] at h
    cases h
  | ok rs =>
    rw [hrs] at h
    have hset : ofRelations rs = .ok set := h
    rw [relations_of_ofRelations hset, WireRelation.decodeAll_encode_of_decodeAll hrs]
    exact hset

namespace WireDeclaration

theorem decode_eq_ok_iff {w : WireDeclaration} {d : Declaration} :
    w.decode = .ok d ↔
      Text.isBlankText w.owner ≠ true ∧ d.owner = ⟨w.owner⟩ ∧
        DesiredSet.ofWire w.relations = .ok d.desired := by
  unfold decode
  by_cases hblank : Text.isBlankText w.owner = true
  · simp [hblank]
  · rw [if_neg hblank]
    cases hset : DesiredSet.ofWire w.relations with
    | error e => simp
    | ok set =>
      constructor
      · intro h
        obtain rfl := Except.ok.inj h
        exact ⟨hblank, rfl, rfl⟩
      · rintro ⟨-, howner, hdesired⟩
        obtain ⟨owner, desired⟩ := d
        obtain rfl : owner = ⟨w.owner⟩ := howner
        obtain rfl : set = desired := Except.ok.inj hdesired
        rfl

/-- A declaration that was read is read back. -/
theorem decode_encode {w : WireDeclaration} {d : Declaration} (h : w.decode = .ok d) :
    (encode d).decode = .ok d := by
  obtain ⟨hblank, howner, hdesired⟩ := decode_eq_ok_iff.1 h
  refine decode_eq_ok_iff.2 ⟨?_, rfl, DesiredSet.ofWire_encode hdesired⟩
  show Text.isBlankText d.owner.text ≠ true
  rwa [howner]

end WireDeclaration

/-- **The written form is lossless, and a normal form.**  Values become documents and documents
values without loss, and payloads with them.  A relation that was read is written with an object,
with a priority exactly if it asks for one, and in one way only from then on.  What was accepted is
accepted again as it was: relations and lists of them, desired sets and declarations. -/
theorem written_form_lossless :
    (∀ v : Json, v.Ordered → (Document.ofJson v).Ordered ∧ (Document.ofJson v).toJson = v ∧
      (Document.ofJson v).payload? = Payload.ofJson? v) ∧
    (∀ d : Document, d.Ordered → d.toJson.Ordered ∧ Document.ofJson d.toJson = d) ∧
    (∀ p : Payload, p.toJson.Ordered → (Document.ofPayload p).toJson = p.toJson) ∧
    (∀ text v, Json.parse text = .ok v → v.Ordered) ∧
    (∀ r : Relation, (∀ n, r.priority = .explicit n → Number.IsInt64 n) →
      (encode r).decode = .ok r) ∧
    (∀ (w : WireRelation) r, w.decode = .ok r → WireRelation.NormalForm r (encode r)) ∧
    (∀ ws rs, decodeAll ws = .ok rs → decodeAll (rs.map encode) = .ok rs) ∧
    (∀ ws set, DesiredSet.ofWire ws = .ok set →
      DesiredSet.ofWire (set.relations.map encode) = .ok set) ∧
    (∀ (w : WireDeclaration) d, w.decode = .ok d → (WireDeclaration.encode d).decode = .ok d) := by
  refine ⟨fun v hv => ?_, fun d hd => ?_, fun p => Document.toJson_ofPayload,
    fun text v => Json.ordered_of_parse,
    fun r => WireRelation.decode_encode, fun w r => WireRelation.normalForm_encode,
    fun ws rs => WireRelation.decodeAll_encode_of_decodeAll, fun ws set => DesiredSet.ofWire_encode,
    fun w d => WireDeclaration.decode_encode⟩
  · exact ⟨Document.ordered_ofJson v, Document.toJson_ofJson v hv, Document.payload?_ofJson hv⟩
  · exact ⟨Document.ordered_toJson d, Document.ofJson_toJson d hd⟩

/-- A relation with the priority 0, written as a text. -/
def writtenZero : WireRelation :=
  ⟨"a", some (.string " 0 "),
    some (.object [("on", .bool true), ("tags", .array [.null, Json.ofInt 1])])⟩

theorem written_form_lossless_sample :
    (Document.ofJson
      (.object [("on", .bool true), ("tags", .array [.null, Json.ofInt 1])])).toJson =
      .object [("on", .bool true), ("tags", .array [.null, Json.ofInt 1])] ∧
    Document.ofJson (Document.object [("on", .null)]).toJson = .object [("on", .null)] ∧
    (∃ r, writtenZero.decode = .ok r ∧ r.priority = .explicit 0 ∧
      (encode r).priority.isSome = true ∧
      (encode r).decode = .ok r) ∧
    ∃ d, WireDeclaration.decode ⟨"app", [writtenZero]⟩ = .ok d ∧
    (WireDeclaration.encode d).decode = .ok d := by
  obtain ⟨hvalues, hdocuments, -, -, -, hrelations, -, -, hdeclarations⟩ := written_form_lossless
  obtain ⟨r, hr, hzero⟩ : ∃ r, writtenZero.decode = .ok r ∧
      r.priority = .explicit 0 := ⟨_, rfl, rfl⟩
  obtain ⟨d, hd⟩ : ∃ d, WireDeclaration.decode ⟨"app", [writtenZero]⟩ = .ok d := ⟨_, rfl⟩
  have hform := hrelations writtenZero r hr
  refine ⟨(hvalues _ ?_).2.1, (hdocuments _ ?_).2,
    ⟨r, hr, hzero, hform.priority.2 ⟨0, hzero⟩, hform.decoded⟩,
    d, hd, hdeclarations _ d hd⟩
  · exact ⟨(by decide : Fields.Sorted _), trivial, ⟨trivial, trivial, trivial, trivial⟩, trivial⟩
  · exact ⟨(by decide : Fields.Sorted _), trivial, trivial⟩

end Roster
