/-
Reading what was laid out in lines.

A reader reads a text back as a value (`ReadsBack`) if it does so whatever may stand behind the
text.  If it does for every item of an array, it reads the array back item by item; and the members
of an object are read back one after the other.

* `readItems_itemsText`: the items of an array;
* `readMembers_fieldsText`: the members of an object.
-/
import Roster.Json.Reader
import Roster.Proofs.Json.Numerals
import Roster.Proofs.Json.Strings

namespace Roster.Json

variable {α ι σ : Type}

/-- Whatever stands behind the text, the reader reads it to its end and answers the value, or fails
if there is none. -/
def ReadsBack (reader : Reader α) (text : List Char) (a : Option α) : Prop :=
  ∀ rest, Ends rest → (reader (text ++ rest)).toOption = a.map (·, rest)

theorem ReadsBack.cases {reader : Reader α} {text rest : List Char} {a : Option α}
    (h : ReadsBack reader text a) (hr : Ends rest) :
    (∃ b, a = some b ∧ reader (text ++ rest) = .ok (b, rest)) ∨
      (a = none ∧ ∃ fault, reader (text ++ rest) = .error fault) := by
  have hb := h rest hr
  cases ho : reader (text ++ rest) with
  | error fault =>
    rw [ho] at hb
    cases a with
    | none => exact .inr ⟨rfl, fault, rfl⟩
    | some b => cases hb
  | ok p =>
    rw [ho] at hb
    cases a with
    | none => cases hb
    | some b =>
      obtain rfl : p = (b, rest) := Option.some.inj hb
      exact .inl ⟨b, rfl, rfl⟩

theorem toOption_bindValue {β : Type} (r : Reading α) (f : α → Except Fault β) :
    (Reading.bindValue r f).toOption = r.toOption.bind fun p => (f p.1).toOption.map (·, p.2) := by
  rcases r with fault | ⟨a, rest⟩
  · rfl
  · show ((f a).map (·, rest)).toOption = (f a).toOption.map (·, rest)
    cases f a <;> rfl

/-! ### Lines -/

theorem skipSpace_replicate (n : Nat) (cs : List Char) :
    skipSpace (List.replicate n ' ' ++ cs) = skipSpace cs := by
  induction n with
  | zero => rfl
  | succ n ih => exact ih

theorem skipSpace_lineBreak (level : Nat) (cs : List Char) :
    skipSpace (lineBreak level ++ cs) = skipSpace cs :=
  skipSpace_replicate (2 * level) cs

theorem ends_lineBreak (level : Nat) (cs : List Char) : Ends (lineBreak level ++ cs) :=
  ends_cons (.inr (.inr (.inr rfl))) _

/-- The text of an array behind its opening bracket. -/
def itemsText (level : Nat) : List Json → List Char
  | [] => [']']
  | j :: rest =>
    lineBreak (level + 1) ++ (prettyChars (level + 1) j ++ (prettyItems (level + 1) rest ++
      (lineBreak level ++ [']'])))

/-- The text of an object behind its opening brace. -/
def fieldsText (level : Nat) : List (String × Json) → List Char
  | [] => ['}']
  | (k, j) :: rest =>
    lineBreak (level + 1) ++ (quoted k ++ ':' :: ' ' :: (prettyChars (level + 1) j ++
      (prettyFields (level + 1) rest ++ (lineBreak level ++ ['}']))))

theorem prettyChars_array (level : Nat) (items : List Json) :
    prettyChars level (.array items) = '[' :: itemsText level items := by
  cases items <;> simp [prettyChars, itemsText]

theorem prettyChars_object (level : Nat) (fields : List (String × Json)) :
    prettyChars level (.object fields) = '{' :: fieldsText level fields := by
  cases fields <;> simp [prettyChars, fieldsText]

theorem StartsNumber.not_isSpace {c : Char} (h : StartsNumber c) : isSpace c = false := by
  simp only [isSpace, Bool.or_eq_false_iff, beq_eq_false_iff_ne]
  refine ⟨⟨⟨?_, ?_⟩, ?_⟩, ?_⟩ <;> exact h.ne (by decide) (by decide)

/-- The text of a value starts with no blank and no closing bracket, and like null only if it is
null. -/
theorem prettyChars_cons (level : Nat) (j : Json) :
    ∃ c cs, prettyChars level j = c :: cs ∧ isSpace c = false ∧ c ≠ ']' ∧
    (j ≠ .null → c ≠ 'n') := by
  cases j with
  | null => exact ⟨_, _, by rw [prettyChars], by decide, by decide, fun h => absurd rfl h⟩
  | bool b => cases b <;>
      exact ⟨_, _, by rw [prettyChars], by decide, by decide, fun _ => by decide⟩
  | number n =>
    obtain ⟨c, cs, h, hc⟩ := numberText_cons n
    exact ⟨c, cs, by rw [prettyChars, h], hc.not_isSpace, hc.ne (by decide) (by decide),
      fun _ => hc.ne (by decide) (by decide)⟩
  | string s => exact ⟨_, _, by rw [prettyChars, quoted], by decide, by decide, fun _ => by decide⟩
  | array items =>
    exact ⟨_, _, prettyChars_array level items, by decide, by decide, fun _ => by decide⟩
  | object fields =>
    exact ⟨_, _, prettyChars_object level fields, by decide, by decide, fun _ => by decide⟩

theorem skipSpace_prettyChars (level : Nat) (j : Json) (cs : List Char) :
    skipSpace (prettyChars level j ++ cs) = prettyChars level j ++ cs := by
  obtain ⟨c, ds, h, hc, -⟩ := prettyChars_cons level j
  rw [h]
  exact skipSpace_cons hc _

/-! ### Items -/

theorem length_le_prettyItems (level : Nat) (items : List Json) :
    items.length ≤ (prettyItems level items).length := by
  induction items with
  | nil => exact Nat.le_refl _
  | cons j rest ih =>
    simp only [prettyItems, List.length_cons, List.length_append]
    omega

theorem ends_prettyItems (level below : Nat) (items : List Json) (cs : List Char) :
    Ends (prettyItems level items ++ (lineBreak below ++ cs)) := by
  cases items with
  | nil => exact ends_lineBreak below cs
  | cons j rest => exact ends_cons (.inl rfl) _

theorem mapM_cons_of_some {f : ι → Option α} {x : ι} {a : α} (h : f x = some a) (xs : List ι) :
    (x :: xs).mapM f = (xs.mapM f).map (a :: ·) := by
  rw [List.mapM_cons, h]
  cases xs.mapM f <;> rfl

/-- The items behind one that was read, with the closing bracket. -/
def itemsBehind (item : Reader α) (fuel : Nat) (a : α) (cs : List Char) : Reading (List α) :=
  match skipSpace cs with
  | [] => .error .truncated
  | ']' :: rest => .ok ([a], rest)
  | ',' :: rest =>
    match skipSpace rest with
    | [] => .error .truncated
    | ']' :: _ => .error .malformed
    | c :: rest => (readItemsFrom item fuel (c :: rest)).bindValue fun as => .ok (a :: as)
  | _ => .error .malformed

theorem itemsBehind_bracket {item : Reader α} {fuel : Nat} {a : α} {cs rest : List Char}
    (h : skipSpace cs = ']' :: rest) : itemsBehind item fuel a cs = .ok ([a], rest) := by
  simp only [itemsBehind, h]

theorem itemsBehind_comma {item : Reader α} {fuel : Nat} {a : α} {cs rest : List Char} {c : Char}
    (h : skipSpace cs = c :: rest) (hc : c ≠ ']') :
    itemsBehind item fuel a (',' :: cs) =
      (readItemsFrom item fuel (c :: rest)).bindValue fun as => .ok (a :: as) := by
  unfold itemsBehind
  rw [skipSpace_cons (by decide)]
  simp only [h]

theorem readItems_of_ne {item : Reader α} {cs rest : List Char} {c : Char}
    (h : skipSpace cs = c :: rest) (hc : c ≠ ']') :
    readItems item cs = readItemsFrom item (rest.length + 1) (c :: rest) := by
  unfold readItems
  simp only [h]

/-- One item, up to what stands behind it. -/
theorem readItemsFrom_item {item : Reader α} {text tail : List Char} {a : Option α}
    (h : ReadsBack item text a) (ht : Ends tail) (fuel : Nat) :
    (readItemsFrom item (fuel + 1) (text ++ tail)).toOption =
      a.bind fun a => (itemsBehind item fuel a tail).toOption := by
  rw [readItemsFrom]
  rcases h.cases ht with ⟨b, rfl, hr⟩ | ⟨rfl, fault, hr⟩
  · rw [hr]
    rfl
  · rw [hr]
    rfl

/-- The items of an array from the first one on. -/
theorem readItemsFrom_pretty {item : Reader α} {json : ι → Json} {f : ι → Option α}
    {level below : Nat} {xs : List ι} {x : ι}
    (h : ∀ y ∈ x :: xs, ReadsBack item (prettyChars level (json y)) (f y)) {fuel : Nat}
    (hf : xs.length < fuel) (rest : List Char) :
    (readItemsFrom item fuel (prettyChars level (json x) ++ (prettyItems level (xs.map json) ++
      (lineBreak below ++ ']' :: rest)))).toOption = ((x :: xs).mapM f).map (·, rest) := by
  have hx := h x List.mem_cons_self
  induction xs generalizing x fuel with
  | nil =>
    obtain ⟨fuel, rfl⟩ : ∃ k, fuel = k + 1 := ⟨fuel - 1, by simp at hf; omega⟩
    have hs : skipSpace (lineBreak below ++ ']' :: rest) = ']' :: rest :=
      skipSpace_lineBreak below _
    rw [List.map_nil, prettyItems, List.nil_append, readItemsFrom_item hx (ends_lineBreak below _)]
    simp only [itemsBehind_bracket hs]
    cases ha : f x <;> simp [ha, Except.toOption]
  | cons y ys ih =>
    obtain ⟨fuel, rfl⟩ : ∃ k, fuel = k + 1 := ⟨fuel - 1, by simp at hf; omega⟩
    have hy : ∀ z ∈ y :: ys, ReadsBack item (prettyChars level (json z)) (f z) :=
      fun z hz => h z (List.mem_cons_of_mem _ hz)
    have hi := ih hy (by simpa using hf) (hy y List.mem_cons_self)
    rw [readItemsFrom_item hx (ends_prettyItems level below ((y :: ys).map json) (']' :: rest))]
    cases ha : f x with
    | none => simp [ha]
    | some a =>
      -- behind the comma stands the next item, which starts with no bracket
      obtain ⟨c, cs, hp, -, hc, -⟩ := prettyChars_cons level (json y)
      rw [Option.bind_some, List.map_cons, prettyItems, List.cons_append, mapM_cons_of_some ha]
      simp only [List.append_assoc]
      have hs := skipSpace_prettyChars level (json y)
        (prettyItems level (ys.map json) ++ (lineBreak below ++ ']' :: rest))
      rw [← skipSpace_lineBreak level, hp, List.cons_append] at hs
      rw [hp, List.cons_append] at hi ⊢
      rw [itemsBehind_comma hs hc, toOption_bindValue, hi]
      cases List.mapM f (y :: ys) <;> rfl

/-- The items of an array. -/
theorem readItems_itemsText {item : Reader α} {json : ι → Json} {f : ι → Option α} {level : Nat}
    {xs : List ι} (h : ∀ x ∈ xs, ReadsBack item (prettyChars (level + 1) (json x)) (f x)) :
    ReadsBack (readItems item) (itemsText level (xs.map json)) (xs.mapM f) := by
  intro rest hr
  cases xs with
  | nil =>
    show (readItems item (']' :: rest)).toOption = _
    unfold readItems
    rw [skipSpace_cons (by decide)]
    rfl
  | cons x xs =>
    obtain ⟨c, cs, hp, -, hc, -⟩ := prettyChars_cons (level + 1) (json x)
    have hl := length_le_prettyItems (level + 1) (xs.map json)
    rw [List.map_cons, itemsText]
    simp only [List.append_assoc, List.singleton_append]
    have hs := skipSpace_prettyChars (level + 1) (json x)
      (prettyItems (level + 1) (xs.map json) ++ (lineBreak level ++ ']' :: rest))
    have hi : ∀ fuel, xs.length < fuel →
        (readItemsFrom item fuel (prettyChars (level + 1) (json x) ++
          (prettyItems (level + 1) (xs.map json) ++ (lineBreak level ++ ']' :: rest)))).toOption =
        ((x :: xs).mapM f).map (·, rest) := fun fuel hf => readItemsFrom_pretty h hf rest
    rw [← skipSpace_lineBreak (level + 1), hp, List.cons_append] at hs
    rw [hp, List.cons_append] at hi ⊢
    rw [readItems_of_ne hs hc]
    refine hi _ ?_
    -- every item takes a character at least, so the text is fuel enough
    simp only [List.length_map, List.length_append] at hl ⊢
    omega

/-! ### Members -/

/-- What is collected from a member after what was collected before it: its value is read back, or
the member or its value is refused. -/
def MemberReads (member : String → σ → Except Fault (Reader σ)) (level : Nat)
    (e : String × Json) (s : σ) (t : Option σ) : Prop :=
  (∃ value, member e.1 s = .ok value ∧ ReadsBack value (' ' :: prettyChars level e.2) t) ∨
    (t = none ∧ ∃ fault, member e.1 s = .error fault)

theorem length_le_prettyFields (level : Nat) (fields : List (String × Json)) :
    fields.length ≤ (prettyFields level fields).length := by
  induction fields with
  | nil => exact Nat.le_refl _
  | cons e rest ih =>
    simp only [prettyFields, List.length_cons, List.length_append]
    omega

theorem ends_prettyFields (level below : Nat) (fields : List (String × Json)) (cs : List Char) :
    Ends (prettyFields level fields ++ (lineBreak below ++ cs)) := by
  cases fields with
  | nil => exact ends_lineBreak below cs
  | cons e rest => exact ends_cons (.inl rfl) _

theorem skipSpace_quoted (s : String) (cs : List Char) :
    skipSpace (quoted s ++ cs) = quoted s ++ cs :=
  skipSpace_cons (by decide) _

/-- The members behind one that was read, with the closing brace. -/
def membersBehind (member : String → σ → Except Fault (Reader σ)) (fuel : Nat) (s : σ)
    (cs : List Char) :
    Reading σ :=
  match skipSpace cs with
  | [] => .error .truncated
  | '}' :: rest => .ok (s, rest)
  | ',' :: rest =>
    match skipSpace rest with
    | [] => .error .truncated
    | c :: rest => readMembersFrom readName member fuel s (c :: rest)
  | _ => .error .malformed

/-- One member, up to what stands behind its value. -/
theorem readMembersFrom_member {member : String → σ → Except Fault (Reader σ)} {level : Nat}
    {e : String × Json} {s : σ} {t : Option σ} (h : MemberReads member level e s t)
    {tail : List Char} (ht : Ends tail) (fuel : Nat) :
    (readMembersFrom readName member (fuel + 1) s
        (quoted e.1 ++ ':' :: ' ' :: (prettyChars level e.2 ++ tail))).toOption =
      t.bind fun s => (membersBehind member fuel s tail).toOption := by
  rw [readMembersFrom, readName_quoted]
  -- the member may be refused by its name, or by its value
  rcases h with ⟨value, hm, hv⟩ | ⟨rfl, fault, hm⟩
  · simp only [hm]
    rw [skipSpace_cons (by decide)]
    rcases hv.cases ht with ⟨s', rfl, hr⟩ | ⟨rfl, fault, hr⟩
    · rw [List.cons_append] at hr
      simp only [hr, Option.bind_some]
      rfl
    · rw [List.cons_append] at hr
      simp only [hr]
      rfl
  · simp only [hm]
    rfl

/-- The members of an object from the first one on. -/
theorem readMembersFrom_pretty {member : String → σ → Except Fault (Reader σ)}
    {step : σ → String × Json → Option σ} {level below : Nat} {fields : List (String × Json)}
    {e : String × Json} {s : σ}
    (h : ∀ f ∈ e :: fields, ∀ s, MemberReads member level f s (step s f))
    {fuel : Nat} (hf : fields.length < fuel) (rest : List Char) :
    (readMembersFrom readName member fuel s (quoted e.1 ++ ':' :: ' ' :: (prettyChars level e.2 ++
      (prettyFields level fields ++ (lineBreak below ++ '}' :: rest))))).toOption =
      ((e :: fields).foldlM step s).map (·, rest) := by
  induction fields generalizing e s fuel with
  | nil =>
    obtain ⟨fuel, rfl⟩ : ∃ k, fuel = k + 1 := ⟨fuel - 1, by simp at hf; omega⟩
    have hs : skipSpace (lineBreak below ++ '}' :: rest) = '}' :: rest :=
      skipSpace_lineBreak below _
    rw [prettyFields, List.nil_append,
      readMembersFrom_member (h e List.mem_cons_self s) (ends_lineBreak below _), List.foldlM_cons]
    unfold membersBehind
    rw [hs]
    cases step s e <;> rfl
  | cons f fs ih =>
    obtain ⟨fuel, rfl⟩ : ∃ k, fuel = k + 1 := ⟨fuel - 1, by simp at hf; omega⟩
    obtain ⟨k, j⟩ := f
    have ht := ends_prettyFields level below ((k, j) :: fs) ('}' :: rest)
    rw [readMembersFrom_member (h e List.mem_cons_self s) ht, List.foldlM_cons]
    -- behind the comma stands the name of the next member
    cases step s e with
    | none => rfl
    | some t =>
      have hi :=
        ih (e := (k, j)) (s := t) (fun g hg => h g (List.mem_cons_of_mem _ hg)) (by simpa using hf)
      unfold membersBehind
      rw [prettyFields, List.cons_append, skipSpace_cons (by decide)]
      simp only [List.append_assoc, skipSpace_lineBreak, skipSpace_quoted, Option.bind_some]
      exact hi

/-- The members of an object. -/
theorem readMembers_fieldsText {member : String → σ → Except Fault (Reader σ)}
    {step : σ → String × Json → Option σ} {level : Nat} {fields : List (String × Json)} {s : σ}
    (h : ∀ f ∈ fields, ∀ s, MemberReads member (level + 1) f s (step s f)) :
    ReadsBack (readMembers readName member s) (fieldsText level fields) (fields.foldlM step s) := by
  intro rest hr
  cases fields with
  | nil =>
    show (readMembers readName member s ('}' :: rest)).toOption = _
    unfold readMembers
    rw [skipSpace_cons (by decide)]
    rfl
  | cons e fields =>
    obtain ⟨k, j⟩ := e
    have hl := length_le_prettyFields (level + 1) fields
    rw [fieldsText]
    simp only [List.append_assoc, List.cons_append]
    unfold readMembers
    rw [skipSpace_lineBreak, skipSpace_quoted]
    refine readMembersFrom_pretty h ?_ rest
    simp only [List.append_eq, List.length_append, List.length_cons]
    omega

end Roster.Json
