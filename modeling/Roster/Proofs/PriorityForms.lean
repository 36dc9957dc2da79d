/-
Priorities as numbers and as texts.

A priority may be written as a number or as a text that spells one, and the two are read alike: an
integer of 64 bits is asked for in either form, and every other integer is refused in either form.
A number is refused where the text of the relation is parsed already if its magnitude is past the
bound for literals, and otherwise, as a text is, for the relation.  No other text, and no value of
another kind, asks for an integer.

* `Literal`, `literal_of_isWord`, `literal_of_lt`, `literal_of_le`: what the literal of an integer
  is read as;
* `NoInteger`, `decode_of_noInteger`: values that ask for no integer;
* `priorities_alike`: the two forms of a priority;
* `largest_double_refused`: a double whose literal is refused.
-/
import Roster.Proofs.Json.Literals
import Roster.Proofs.Priorities
import Roster.Proofs.WireRelations

namespace Roster.WireRelation

open Json (ReadsBack literalBound rereadNumber)

variable {n : Int} {s : String} {v : Json}

/-! ### Literals -/

/-- The reader of a priority reads the literal of an integer as a value, or refuses it, where the
text ends behind it or goes on with a comma, a closing bracket or a line break, as the texts of
values do. -/
def Literal (n : Int) (v : Option Json) : Prop :=
  ∀ levels, ReadsBack (Json.optional Json.readValue levels) (Text.Decimal.ofInt n) (v.map some)

theorem literal_reread (n : Int) : Literal n ((rereadNumber (.int n)).map .number) := by
  intro levels
  have h := readsBack_optionalValue levels 0 (j := .ofInt n) (by simp [Json.ofInt])
  rwa [Json.ofInt, Json.prettyChars, Json.numberText, Json.reread] at h

theorem literal_of_isWord (h : Json.IsWord n) : Literal n (some (.ofInt n)) := by
  have hl := literal_reread n
  rwa [Json.rereadNumber_int h] at hl

theorem literal_of_lt (h : ¬Json.IsWord n) (hlt : n.natAbs < literalBound) :
    ∃ x, Literal n (some (.number (.float x))) := by
  obtain ⟨x, hx⟩ := (Json.rereadNumber_large h).1 hlt
  have hl := literal_reread n
  rw [hx] at hl
  exact ⟨x, hl⟩

theorem literal_of_le (hle : literalBound ≤ n.natAbs) : Literal n none := by
  have hl := literal_reread n
  rwa [Json.rereadNumber_eq_none hle] at hl

/-! ### Values -/

/-- The relation with another priority. -/
def prioritized (w : WireRelation) (v : Option Json) : WireRelation := { w with priority := v }

/-- Whether a value asks for no integer: a text that spells none, a double, or a value of another
kind. -/
inductive NoInteger : Json → Prop
  | text (s : String) (h : ∀ n, ¬Spells s n) : NoInteger (.string s)
  | float (x : Binary64) : NoInteger (.number (.float x))
  | bool (b : Bool) : NoInteger (.bool b)
  | array (items : List Json) : NoInteger (.array items)
  | object (fields : List (String × Json)) : NoInteger (.object fields)

theorem decode_of_asks {o : Option Json} {p : Priority} (h : Asks o p) (w : WireRelation) :
    (w.prioritized o).decode = .ok ⟨⟨w.id⟩, p, readProfile w.profile⟩ :=
  decode_eq_ok_iff_denotes.2 ⟨rfl, h, rfl⟩

theorem decode_of_not_asks (h : ∀ p, ¬Asks (some v) p) (w : WireRelation) :
    (w.prioritized (some v)).decode = .error (.invalidPriority ⟨w.id⟩ v) :=
  decode_eq_error_iff.2 ⟨v, rfl, fun ⟨p, hp⟩ => h p hp, rfl⟩

theorem decode_of_noInteger (h : NoInteger v) (w : WireRelation) :
    (w.prioritized (some v)).decode = .error (.invalidPriority ⟨w.id⟩ v) := by
  refine decode_of_not_asks (fun p hp => ?_) w
  cases h with
  | text s hs =>
    cases hp with
    | text spells fits => exact hs _ spells
  | float | bool | array | object => cases hp

theorem decode_of_large (h : ¬Number.IsInt64 n) (w : WireRelation) :
    (w.prioritized (some (.ofInt n))).decode = .error (.invalidPriority ⟨w.id⟩ (.ofInt n)) := by
  refine decode_of_not_asks (fun p hp => ?_) w
  generalize hv : Json.ofInt n = v at hp
  cases hp with
  | null => cases hv
  | text => cases hv
  | integer fits =>
    cases hv
    exact h fits

theorem spells_unique {m : Int} (hm : Spells s m) (hn : Spells s n) : m = n := by
  have h := Text.Decimal.readInt?_eq_some_iff.2 hm
  rw [Text.Decimal.readInt?_eq_some_iff.2 hn] at h
  exact (Option.some.inj h).symm

theorem decode_of_spells_large (hs : Spells s n) (h : ¬Number.IsInt64 n) (w : WireRelation) :
    (w.prioritized (some (.string s))).decode = .error (.invalidPriority ⟨w.id⟩ (.string s)) := by
  refine decode_of_not_asks (fun p hp => ?_) w
  cases hp with
  | text spells fits => exact h (spells_unique spells hs ▸ fits)

/-- **Priorities as numbers and as texts are read alike.**  A text that spells an integer and the
literal of the integer both ask for it if it has 64 bits, and are both refused if it does not: for
the relation, but the literal from the bound on by the parser.  Every other value is refused for the
relation, but for none and null, which leave the priority unset. -/
theorem priorities_alike (spells : Spells s n) (w : WireRelation) :
    (Number.IsInt64 n →
      Literal n (some (.ofInt n)) ∧
      ∀ v ∈ [Json.ofInt n, .string s],
        (w.prioritized (some v)).decode = .ok ⟨⟨w.id⟩, .explicit n, readProfile w.profile⟩) ∧
    (¬Number.IsInt64 n →
      (w.prioritized (some (.string s))).decode = .error (.invalidPriority ⟨w.id⟩ (.string s)) ∧
      (n.natAbs < literalBound →
        ∃ v, Literal n (some v) ∧
        (w.prioritized (some v)).decode = .error (.invalidPriority ⟨w.id⟩ v)) ∧
      (literalBound ≤ n.natAbs → Literal n none) ∧
      (Binary64.ofNat? false n.natAbs = none → literalBound ≤ n.natAbs)) ∧
    (∀ v, NoInteger v → (w.prioritized (some v)).decode = .error (.invalidPriority ⟨w.id⟩ v)) ∧
    ∀ v ∈ [none, some Json.null],
      (w.prioritized v).decode = .ok ⟨⟨w.id⟩, .unset, readProfile w.profile⟩ := by
  refine ⟨fun hfits => ⟨literal_of_isWord (Json.isWord_of_isInt64 hfits), ?_⟩,
    fun hlarge => ⟨decode_of_spells_large spells hlarge w, fun hlt => ?_, literal_of_le,
      Json.bound_le_of_ofNat⟩,
    fun v hv => decode_of_noInteger hv w, ?_⟩
  · exact List.forall_mem_cons.2 ⟨decode_of_asks (.integer hfits) w,
      List.forall_mem_singleton.2 (decode_of_asks (.text spells hfits) w)⟩
  · -- between the 64 bits with a sign and those without one the literal is an integer, and past
    -- them a double
    by_cases hword : Json.IsWord n
    · exact ⟨.ofInt n, literal_of_isWord hword, decode_of_large hlarge w⟩
    · obtain ⟨x, hx⟩ := literal_of_lt hword hlt
      exact ⟨.number (.float x), hx, decode_of_noInteger (.float x) w⟩
  · exact List.forall_mem_cons.2 ⟨decode_of_asks .absent w,
      List.forall_mem_singleton.2 (decode_of_asks .null w)⟩

/-- A relation of which only the priority matters. -/
def plain : WireRelation := ⟨"a", none, none⟩

theorem priorities_alike_sample :
    (∀ v ∈ [Json.ofInt 7, .string " +007\t"],
      (plain.prioritized (some v)).decode = .ok ⟨⟨"a"⟩, .explicit 7, .empty⟩) ∧
    (plain.prioritized (some (.string "9223372036854775808"))).decode =
      .error (.invalidPriority ⟨"a"⟩ (.string "9223372036854775808")) ∧
    (∃ v, Literal 9223372036854775808 (some v) ∧
      (plain.prioritized (some v)).decode = .error (.invalidPriority ⟨"a"⟩ v)) ∧
    Literal literalBound none := by
  have small : Spells " +007\t" 7 := Text.Decimal.readInt?_eq_some_iff.1 (by decide)
  have large : Spells "9223372036854775808" 9223372036854775808 :=
    Text.Decimal.readInt?_eq_some_iff.1 (by decide)
  have huge : Spells (Text.Decimal.intText literalBound) literalBound := by
    refine Text.Decimal.readInt?_eq_some_iff.1 ?_
    rw [Text.Decimal.intText, String.toList_ofList]
    decide +kernel
  obtain ⟨htext, hlt, -⟩ := (priorities_alike large plain).2.1 (by decide)
  exact ⟨((priorities_alike small plain).1 (by decide)).2, htext, hlt (by decide +kernel),
    ((priorities_alike huge plain).2.1 (by decide +kernel)).2.2.1 le_rfl⟩

/-! ### A double without a literal -/

/-- A written relation without a profile is read back with its literal, if that is not refused. -/
theorem readsBack_prioritized (levels level : Nat) (id : String) (n : Int) :
    ReadsBack (decoder (levels + 1)) (Json.prettyChars level (toJson ⟨id, some (.ofInt n), none⟩))
      ((rereadNumber (.int n)).map fun m => ⟨id, some (.number m), none⟩) := by
  have hm : ∀ e ∈ [("id", Json.string id), ("priority", .ofInt n)], ∀ d,
      Json.MemberReads (Json.recordMember parts levels) (level + 1) e d (step levels d e) :=
    List.forall_mem_cons.2 ⟨memberReads_id levels (level + 1) id,
      List.forall_mem_singleton.2 (memberReads_priority (by simp [Json.ofInt]))⟩
  have hfold : ([("id", Json.string id), ("priority", .ofInt n)].foldlM (step levels)
      ⟨none, none, none⟩).bind Draft.finish =
        (rereadNumber (.int n)).map fun m => ⟨id, some (.number m), none⟩ := by
    cases hn : rereadNumber (.int n) <;>
      simp [step, Json.string?, Json.ofInt, Json.reread, Draft.finish, hn]
  rw [← hfold]
  exact Json.readsBack_record hm

/-- The largest double, which is an integer. -/
def largestDouble : Binary64 := ⟨false, 0x1FFFFFFFFFFFFF, 971, by decide⟩

/-- The literal of the largest double is not refused for the relation: it is refused before there is
one. -/
theorem largest_double_refused :
    Binary64.ofNat? false largestDouble.numerator = some largestDouble ∧
    largestDouble.denominator = 1 ∧
      ¬Number.IsInt64 largestDouble.numerator ∧ Literal largestDouble.numerator none ∧
      (Json.readWhole decoder
        (toJson ⟨"a", some (.ofInt largestDouble.numerator), none⟩).pretty).toOption = none := by
  have hle : literalBound ≤ (largestDouble.numerator : Int).natAbs := by decide +kernel
  refine ⟨by decide +kernel, by decide +kernel, by decide +kernel, literal_of_le hle,
    Json.toOption_readWhole ?_⟩
  have h := readsBack_prioritized 126 0 "a" largestDouble.numerator
  rw [Json.rereadNumber_eq_none hle] at h
  rwa [Json.pretty, String.toList_ofList]

end Roster.WireRelation
