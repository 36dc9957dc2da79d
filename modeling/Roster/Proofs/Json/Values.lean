/-
Reading values that were written.

What a written value is read as (`reread`) depends on the value and on the levels that may be open:
an array or an object needs one, integers that do not fit 64 bits and doubles may come out as other
numbers, and the fields of an object come out in name order.

* `readsBack_value`: the text of a value is read as that, whatever stands behind it;
* `reread_eq_some`: values with fields in name order, whose numbers are read back and which are not
  nested deeper than the levels, are read back;
* `reread_eq_none`: and values that are nested deeper are not read at all.
-/
import Roster.Proofs.Json.Layout

namespace Roster.Json

mutual

/-- What a written value is read as, if so many levels may be open. -/
def reread (levels : Nat) : Json → Option Json
  | .null => some .null
  | .bool b => some (.bool b)
  | .number n => (rereadNumber n).map .number
  | .string s => some (.string s)
  | .array items =>
    match levels with
    | 0 => none
    | levels + 1 => (rereadItems levels items).map .array
  | .object fields =>
    match levels with
    | 0 => none
    | levels + 1 => (rereadFields levels [] fields).map .object

/-- What written items are read as. -/
def rereadItems (levels : Nat) : List Json → Option (List Json)
  | [] => some []
  | j :: rest => (reread levels j).bind fun a => (rereadItems levels rest).map (a :: ·)

/-- What written fields are read as, behind others. -/
def rereadFields (levels : Nat) (seen : List (String × Json)) :
    List (String × Json) → Option (List (String × Json))
  | [] => some seen
  | (k, j) :: rest =>
    (reread levels j).bind fun a => rereadFields levels (Fields.insert k a seen) rest

end

theorem rereadItems_eq_mapM (levels : Nat) (items : List Json) :
    rereadItems levels items = items.mapM (reread levels) := by
  induction items with
  | nil => rfl
  | cons j rest ih =>
    rw [rereadItems, ih, List.mapM_cons]
    cases reread levels j with
    | none => rfl
    | some a => cases rest.mapM (reread levels) <;> rfl

theorem rereadFields_eq_foldlM (levels : Nat) (seen fields : List (String × Json)) :
    rereadFields levels seen fields =
      fields.foldlM (fun seen e => (reread levels e.2).map (Fields.insert e.1 · seen)) seen := by
  induction fields generalizing seen with
  | nil => rfl
  | cons e rest ih =>
    obtain ⟨k, j⟩ := e
    rw [rereadFields, List.foldlM_cons]
    cases reread levels j with
    | none => rfl
    | some a => exact ih _

/-! ### One value -/

theorem readValue_skipSpace (levels : Nat) (cs : List Char) :
    readValue levels (skipSpace cs) = readValue levels cs := by
  unfold readValue
  rw [skipSpace_idem]

theorem readsBack_space {levels : Nat} {text : List Char} {a : Option Json}
    (h : ReadsBack (readValue levels) text a) : ReadsBack (readValue levels) (' ' :: text) a := by
  intro rest hr
  rw [← readValue_skipSpace]
  have hs : skipSpace (' ' :: text ++ rest) = skipSpace (text ++ rest) := rfl
  rw [hs, readValue_skipSpace]
  exact h rest hr

theorem readValue_scalar {c : Char} (hs : isSpace c = false) (ha : c ≠ '[') (ho : c ≠ '{')
    (levels : Nat) (cs : List Char) : readValue levels (c :: cs) = readScalar c cs := by
  unfold readValue
  rw [skipSpace_cons hs]
  split
  · rename_i he; cases he
  · rename_i he; exact absurd (List.cons.inj he).1 ha
  · rename_i he; exact absurd (List.cons.inj he).1 ho
  · rename_i he; exact absurd (List.cons.inj he).1 ha
  · rename_i he; exact absurd (List.cons.inj he).1 ho
  · rename_i he _ _ _ _
    obtain ⟨rfl, rfl⟩ := List.cons.inj he
    rfl

theorem readValue_array (levels : Nat) (cs : List Char) :
    readValue (levels + 1) ('[' :: cs) =
      Reading.bindValue (readItems (readValue levels) cs) fun items => .ok (.array items) := by
  unfold readValue
  rw [skipSpace_cons (by decide)]
  rfl

theorem readValue_object (levels : Nat) (cs : List Char) :
    readValue (levels + 1) ('{' :: cs) =
      Reading.bindValue (readMembers readName (addField (readValue levels)) [] cs)
        fun fields => .ok (.object fields) := by
  unfold readValue
  rw [skipSpace_cons (by decide)]
  rfl

theorem readValue_zero {c : Char} (h : c = '[' ∨ c = '{') (cs : List Char) :
    readValue 0 (c :: cs) = .error .malformed := by
  unfold readValue
  rcases h with rfl | rfl <;> rw [skipSpace_cons (by decide)] <;> rfl

/-- The number that a value starts with. -/
theorem readScalar_number {c : Char} (h : StartsNumber c) (cs : List Char) :
    (readScalar c cs).toOption = (readNumber (c :: cs)).toOption.map fun p =>
      (.number p.1, p.2) := by
  have hc : readScalar c cs =
      if c = '-' ∨ Text.Decimal.isDigit c then
        Reading.bindValue (readNumber (c :: cs)) fun n => .ok (.number n)
      else .error .malformed := by
    -- a digit is none of the letters and quotes that other values start with
    rcases h with hd | rfl | rfl | rfl
    · unfold readScalar
      split
      all_goals first
        | exact absurd hd (by decide)
        | rfl
    all_goals rfl
  rw [hc]
  split
  · rw [toOption_bindValue]
    cases (readNumber (c :: cs)).toOption <;> rfl
  · rename_i hn
    have hm : c ≠ '-' := fun he => hn (.inl he)
    have hd : Text.Decimal.isDigit c = false := by simpa using fun he => hn (.inr he)
    rw [readNumber_cons, if_neg hm, readUnsigned_eq, readDigits_cons_of_not_isDigit hd]
    rfl

theorem readsBack_number (levels level : Nat) (n : Number) :
    ReadsBack (readValue levels) (prettyChars level (.number n))
      ((rereadNumber n).map .number) := by
  intro rest hr
  obtain ⟨c, cs, hn, hc⟩ := numberText_cons n
  have hread := readNumber_numberText n hr
  rw [prettyChars]
  rw [hn, List.cons_append] at hread ⊢
  rw [readValue_scalar hc.not_isSpace (hc.ne (by decide) (by decide))
    (hc.ne (by decide) (by decide)), readScalar_number hc, hread]
  cases rereadNumber n <;> rfl

theorem readsBack_string (levels level : Nat) (s : String) :
    ReadsBack (readValue levels) (prettyChars level (.string s)) (some (.string s)) := by
  intro rest _
  rw [prettyChars, quoted_append, readValue_scalar (by decide) (by decide) (by decide)]
  show (Reading.bindValue (readString _) _).toOption = _
  rw [readString_quoted]
  rfl

theorem readsBack_word {word : List Char} {j : Json} {levels : Nat}
    (h : ∀ rest, readValue levels (word ++ rest) = .ok (j, rest)) :
    ReadsBack (readValue levels) word (some j) := by
  intro rest _
  rw [h rest]
  rfl

theorem readsBack_null (levels level : Nat) :
    ReadsBack (readValue levels) (prettyChars level .null) (some .null) := by
  rw [prettyChars]
  exact readsBack_word (readValue_null levels)

theorem readsBack_bool (levels level : Nat) (b : Bool) :
    ReadsBack (readValue levels) (prettyChars level (.bool b)) (some (.bool b)) := by
  cases b
  all_goals
    rw [prettyChars]
    refine readsBack_word fun rest => ?_
    rw [List.cons_append, readValue_scalar (by decide) (by decide) (by decide)]
    rfl

/-- The text of a value is read as `reread` says. -/
theorem readsBack_value (levels level : Nat) (j : Json) :
    ReadsBack (readValue levels) (prettyChars level j) (reread levels j) := by
  -- by induction on the levels, of which every array and object takes one
  induction levels generalizing level j with
  | zero =>
    cases j with
    | null => exact readsBack_null 0 level
    | bool b => exact readsBack_bool 0 level b
    | number n => exact readsBack_number 0 level n
    | string s => exact readsBack_string 0 level s
    | array items =>
      rw [prettyChars_array]
      intro rest _
      rw [List.cons_append, readValue_zero (.inl rfl)]
      rfl
    | object fields =>
      rw [prettyChars_object]
      intro rest _
      rw [List.cons_append, readValue_zero (.inr rfl)]
      rfl
  | succ levels ih =>
    cases j with
    | null => exact readsBack_null _ level
    | bool b => exact readsBack_bool _ level b
    | number n => exact readsBack_number _ level n
    | string s => exact readsBack_string _ level s
    | array items =>
      have hi : ReadsBack (readItems (readValue levels)) (itemsText level (items.map id))
          (items.mapM (reread levels)) := readItems_itemsText fun j _ => ih (level + 1) j
      rw [List.map_id] at hi
      -- the items are read with one level less
      rw [prettyChars_array]
      intro rest hr
      rw [List.cons_append, readValue_array, toOption_bindValue, hi rest hr, reread,
        rereadItems_eq_mapM]
      cases items.mapM (reread levels) <;> rfl
    | object fields =>
      have hf : ReadsBack (readMembers readName (addField (readValue levels)) [])
          (fieldsText level fields) (rereadFields levels [] fields) := by
        rw [rereadFields_eq_foldlM]
        refine readMembers_fieldsText fun e _ s => .inl ⟨_, rfl, ?_⟩
        intro rest hr
        rw [toOption_bindValue, readsBack_space (ih (level + 1) e.2) rest hr]
        cases reread levels e.2 <;> rfl
      rw [prettyChars_object]
      intro rest hr
      rw [List.cons_append, readValue_object, toOption_bindValue, hf rest hr, reread]
      cases rereadFields levels [] fields <;> rfl

/-! ### What is read back -/

mutual

/-- The arrays and objects that are open at once inside a value. -/
def depth : Json → Nat
  | .array items => depthItems items + 1
  | .object fields => depthFields fields + 1
  | .null => 0
  | .bool _ => 0
  | .number _ => 0
  | .string _ => 0

/-- The depth of the deepest item. -/
def depthItems : List Json → Nat
  | [] => 0
  | j :: rest => max (depth j) (depthItems rest)

/-- The depth of the deepest field. -/
def depthFields : List (String × Json) → Nat
  | [] => 0
  | (_, j) :: rest => max (depth j) (depthFields rest)

end

mutual

/-- Whether a condition holds of a value and of every value in it. -/
def All (p : Json → Prop) : Json → Prop
  | .array items => p (.array items) ∧ AllItems p items
  | .object fields => p (.object fields) ∧ AllFields p fields
  | .null => p .null
  | .bool b => p (.bool b)
  | .number n => p (.number n)
  | .string s => p (.string s)

/-- Whether it holds of every value in the items. -/
def AllItems (p : Json → Prop) : List Json → Prop
  | [] => True
  | j :: rest => All p j ∧ AllItems p rest

/-- Whether it holds of every value in the fields. -/
def AllFields (p : Json → Prop) : List (String × Json) → Prop
  | [] => True
  | (_, j) :: rest => All p j ∧ AllFields p rest

end

theorem depthItems_le {items : List Json} {n : Nat} :
    depthItems items ≤ n ↔ ∀ j ∈ items, depth j ≤ n := by
  induction items with
  | nil => simp [depthItems]
  | cons j rest ih => rw [depthItems, Nat.max_le, ih, List.forall_mem_cons]

theorem depthFields_le {fields : List (String × Json)} {n : Nat} :
    depthFields fields ≤ n ↔ ∀ e ∈ fields, depth e.2 ≤ n := by
  induction fields with
  | nil => simp [depthFields]
  | cons e rest ih =>
    obtain ⟨k, j⟩ := e
    rw [depthFields, Nat.max_le, ih, List.forall_mem_cons]

theorem exists_of_lt_depthItems {items : List Json} {n : Nat} (h : n < depthItems items) :
    ∃ j ∈ items, n < depth j := by
  by_contra hn
  simp only [not_exists, not_and, Nat.not_lt] at hn
  exact absurd (depthItems_le.2 hn) (Nat.not_le.2 h)

theorem exists_of_lt_depthFields {fields : List (String × Json)} {n : Nat}
    (h : n < depthFields fields) :
    ∃ e ∈ fields, n < depth e.2 := by
  by_contra hn
  simp only [not_exists, not_and, Nat.not_lt] at hn
  exact absurd (depthFields_le.2 hn) (Nat.not_le.2 h)

theorem allItems_iff {p : Json → Prop} {items : List Json} :
    AllItems p items ↔ ∀ j ∈ items, All p j := by
  induction items with
  | nil => simp [AllItems]
  | cons j rest ih => simp [AllItems, ih]

theorem allFields_iff {p : Json → Prop} {fields : List (String × Json)} :
    AllFields p fields ↔ ∀ e ∈ fields, All p e.2 := by
  induction fields with
  | nil => simp [AllFields]
  | cons e rest ih =>
    obtain ⟨k, j⟩ := e
    simp [AllFields, ih]

/-- Whether a value is such as readers make them: an integer fits 64 bits, and the fields of an
object stand in name order. -/
def Formed : Json → Prop
  | .number (.int n) => IsWord n
  | .object fields => Fields.Sorted fields
  | _ => True

/-- Whether the double that a value is, if it is one, is read back from its text. -/
def Exact : Json → Prop
  | .number (.float x) => rereadNumber (.float x) = some (.float x)
  | _ => True

theorem mapM_eq_self {α : Type} {f : α → Option α} {items : List α}
    (h : ∀ j ∈ items, f j = some j) :
    items.mapM f = some items := by
  induction items with
  | nil => rfl
  | cons j rest ih =>
    rw [mapM_cons_of_some (h j List.mem_cons_self), ih fun k hk => h k (List.mem_cons_of_mem _ hk)]
    rfl

theorem rereadFields_eq_foldl {levels : Nat} {fields : List (String × Json)}
    (h : ∀ e ∈ fields, reread levels e.2 = some e.2) (seen : List (String × Json)) :
    rereadFields levels seen fields =
      some (fields.foldl (fun seen e => Fields.insert e.1 e.2 seen) seen) := by
  induction fields generalizing seen with
  | nil => rfl
  | cons e rest ih =>
    obtain ⟨k, j⟩ := e
    have hj : reread levels j = some j := h (k, j) List.mem_cons_self
    rw [rereadFields, hj, Option.bind_some, ih fun f hf => h f (List.mem_cons_of_mem _ hf)]
    rfl

theorem reread_number {n : Number} (hf : All Formed (.number n)) (he : All Exact (.number n))
    (levels : Nat) : reread levels (.number n) = some (.number n) := by
  cases n with
  | int n => rw [reread, rereadNumber_int hf, Option.map_some]
  | float x => rw [reread, show rereadNumber (.float x) = some (.float x) from he, Option.map_some]

/-- Values that are not nested deeper than the levels are read back. -/
theorem reread_eq_some {levels : Nat} {j : Json} (hf : All Formed j) (he : All Exact j)
    (hd : depth j ≤ levels) : reread levels j = some j := by
  induction levels generalizing j with
  | zero =>
    cases j with
    | null | bool | string => rfl
    | number n => exact reread_number hf he _
    | array | object => simp [depth] at hd
  | succ levels ih =>
    cases j with
    | null | bool | string => rfl
    | number n => exact reread_number hf he _
    | array items =>
      have hitems := depthItems_le.1 (Nat.le_of_succ_le_succ hd)
      have h : ∀ j ∈ items, reread levels j = some j := fun j hj =>
        ih (allItems_iff.1 hf.2 j hj) (allItems_iff.1 he.2 j hj) (hitems j hj)
      rw [reread, rereadItems_eq_mapM, mapM_eq_self h]
      rfl
    | object fields =>
      have hfields := depthFields_le.1 (Nat.le_of_succ_le_succ hd)
      have h : ∀ e ∈ fields, reread levels e.2 = some e.2 := fun e hj =>
        ih (allFields_iff.1 hf.2 e hj) (allFields_iff.1 he.2 e hj) (hfields e hj)
      -- fields that stand in name order are put in the same order again
      rw [reread, rereadFields_eq_foldl h, Option.map_some]
      exact congrArg (fun fs => some (Json.object fs)) (Fields.ofList_eq_self hf.1)

theorem mapM_eq_none {α ι : Type} {f : ι → Option α} {xs : List ι} {x : ι} (hx : x ∈ xs)
    (h : f x = none) : xs.mapM f = none := by
  induction xs with
  | nil => cases hx
  | cons y ys ih =>
    rw [List.mapM_cons]
    rcases List.mem_cons.1 hx with rfl | hx
    · rw [h]
      rfl
    · rw [ih hx]
      cases f y <;> rfl

theorem rereadFields_eq_none {levels : Nat} {fields : List (String × Json)} {e : String × Json}
    (he : e ∈ fields) (h : reread levels e.2 = none) (seen : List (String × Json)) :
    rereadFields levels seen fields = none := by
  induction fields generalizing seen with
  | nil => cases he
  | cons f rest ih =>
    obtain ⟨k, j⟩ := f
    rw [rereadFields]
    rcases List.mem_cons.1 he with rfl | he
    · rw [h]
      rfl
    · cases reread levels j with
      | none => rfl
      | some a => exact ih he _

/-- Values that are nested deeper than the levels are not read. -/
theorem reread_eq_none {levels : Nat} {j : Json} (h : levels < depth j) :
    reread levels j = none := by
  -- a part that is as deep as its value allows is too deep for one level less
  induction levels generalizing j with
  | zero =>
    cases j with
    | array | object => rfl
    | null | bool | number | string => simp [depth] at h
  | succ levels ih =>
    cases j with
    | null | bool | number | string => simp [depth] at h
    | array items =>
      obtain ⟨j, hj, hd⟩ := exists_of_lt_depthItems (Nat.lt_of_succ_lt_succ h)
      rw [reread, rereadItems_eq_mapM, mapM_eq_none hj (ih hd)]
      rfl
    | object fields =>
      obtain ⟨e, hj, hd⟩ := exists_of_lt_depthFields (Nat.lt_of_succ_lt_succ h)
      rw [reread, rereadFields_eq_none hj (ih hd)]
      rfl

end Roster.Json
