/-
The compact text of a value settles the value.

The first character of a text tells what kind of value it is of, a number ends where no more of its
characters follow, a string at its first quote without a backslash, and a list of items or fields at
its bracket: texts of values with anything behind them come apart in one way only.  A reader that
rounds what it reads need not get every double back; the text settles it all the same.

* `numberText_injective`: integers and doubles by their texts;
* `compactChars_inj`, `compact_injective`: values by their compact texts;
* `Balanced`, `balanced_compact`: where blanks stand in a compact text, and that no line ends in it.
-/
import Roster.Proofs.Json.Strings
import Roster.Proofs.ShortestText

namespace Roster.Json

open Text.Decimal (isDigit digits)

variable {r s : List Char}

/-! ### Numbers -/

/-- The characters of numbers. -/
def isNumberChar (c : Char) : Bool := isDigit c || c == '-' || c == '+' || c == '.' || c == 'e'

theorem isNumberChar_of_isDigit {c : Char} (h : isDigit c = true) : isNumberChar c = true := by
  rw [isNumberChar, h]
  rfl

theorem IsExponent.isNumberChar {cs : List Char} (h : IsExponent cs) :
    ∀ c ∈ cs, isNumberChar c = true := by
  rcases h with rfl | ⟨sign, ds, rfl, hs, hd⟩
  · exact fun c hc => absurd hc List.not_mem_nil
  · refine List.forall_mem_cons.2 ⟨rfl, fun c hc => ?_⟩
    rcases List.mem_append.1 hc with hc | hc
    · rcases hs with rfl | rfl | rfl
      · exact absurd hc List.not_mem_nil
      · rw [List.mem_singleton.1 hc]
        rfl
      · rw [List.mem_singleton.1 hc]
        rfl
    · exact isNumberChar_of_isDigit (hd c hc)

theorem IsNumeral.isNumberChar {cs : List Char} (h : IsNumeral cs) :
    ∀ c ∈ cs, isNumberChar c = true := by
  obtain ⟨whole, tail, rfl, hw, ht⟩ := h
  intro c hc
  rcases List.mem_append.1 hc with hc | hc
  · exact isNumberChar_of_isDigit (hw c hc)
  · rcases ht with he | ⟨part, power, rfl, hp, he⟩
    · exact he.isNumberChar c hc
    · rcases List.mem_cons.1 hc with rfl | hc
      · rfl
      · rcases List.mem_append.1 hc with hc | hc
        · exact isNumberChar_of_isDigit (hp c hc)
        · exact he.isNumberChar c hc

theorem isNumberChar_of_mem {n : Number} : ∀ c ∈ numberText n, isNumberChar c = true := by
  obtain ⟨negative, cs, hn, hcs, -⟩ := exists_numberText n
  intro c hc
  rw [hn] at hc
  rcases List.mem_append.1 hc with hc | hc
  · cases negative with
    | false => exact absurd hc List.not_mem_nil
    | true =>
      rw [List.mem_singleton.1 hc]
      rfl
  · exact hcs.isNumberChar c hc

theorem Ends.isNumberChar (h : Ends r) : ∀ c ∈ r.head?, isNumberChar c = false := by
  intro c hc
  rcases h c hc with rfl | rfl | rfl | rfl <;> decide

/-- A double is written with a point or with an exponent. -/
theorem exists_mark (x : Binary64) : ∃ c ∈ Shortest.render numberStyle x, c = '.' ∨ c = 'e' := by
  -- each way of placing the point writes one, or else an exponent
  have hmark : ∃ c ∈ unsignedText x, c = '.' ∨ c = 'e' := by
    rw [unsignedText]
    split
    · exact ⟨'.', by decide, .inl rfl⟩
    · unfold Shortest.renderDigits
      dsimp only
      split
      · split
        · exact ⟨'.', by simp, .inl rfl⟩
        · exact ⟨'.', by simp, .inl rfl⟩
      · split
        · exact ⟨'.', by simp, .inl rfl⟩
        · exact ⟨'e', by simp, .inr rfl⟩
  obtain ⟨c, hc, h⟩ := hmark
  exact ⟨c, by rw [render_eq]; exact List.mem_append_right _ hc, h⟩

theorem ofInt_ne_render (n : Int) (x : Binary64) :
    Text.Decimal.ofInt n ≠ Shortest.render numberStyle x := by
  obtain ⟨c, hc, hmark⟩ := exists_mark x
  intro h
  rw [← h] at hc
  have hdigit : isDigit c = true ∨ c = '-' := by
    cases n with
    | ofNat n => exact .inl (Text.Decimal.isDigit_of_mem_digits hc)
    | negSucc n => exact (List.mem_cons.1 hc).symm.imp_left Text.Decimal.isDigit_of_mem_digits
  rcases hmark with rfl | rfl <;> exact absurd hdigit (by decide)

theorem numberText_injective {m n : Number} (h : numberText m = numberText n) : m = n := by
  cases m with
  | int m =>
    cases n with
    | int n =>
      have hread : Text.Decimal.readInt? (Text.Decimal.ofInt m) =
          Text.Decimal.readInt? (Text.Decimal.ofInt n) :=
        congrArg _ h
      rw [Text.Decimal.readInt?_ofInt, Text.Decimal.readInt?_ofInt] at hread
      rw [Option.some.inj hread]
    | float y => exact absurd h (ofInt_ne_render m y)
  | float x =>
    cases n with
    | int n => exact absurd h.symm (ofInt_ne_render n x)
    | float y => rw [Shortest.render_injective h]

/-- Texts of characters of a class come apart from what begins with another character. -/
theorem append_inj_of_all {p : Char → Bool} {as bs : List Char} (ha : ∀ c ∈ as, p c = true)
    (hb : ∀ c ∈ bs, p c = true) (hr : ∀ c ∈ r.head?, p c = false) (hs : ∀ c ∈ s.head?, p c = false)
    (h : as ++ r = bs ++ s) : as = bs ∧ r = s := by
  -- where one side ends, the other one can have no further character of the class
  have hend : ∀ {cs ds t : List Char}, (∀ c ∈ cs, p c = true) →
      (∀ c ∈ (ds : List Char).head?, p c = false) →
      ds = cs ++ t → cs = [] := by
    intro cs ds t hcs hds heq
    cases cs with
    | nil => rfl
    | cons c cs =>
      have hc := hcs c List.mem_cons_self
      rw [hds c (by rw [heq]; rfl)] at hc
      cases hc
  induction as generalizing bs with
  | nil =>
    obtain rfl := hend hb hr h
    exact ⟨rfl, h⟩
  | cons a as ih =>
    cases bs with
    | nil => cases hend ha hs h.symm
    | cons b bs =>
      obtain ⟨rfl, htail⟩ := List.cons.inj h
      obtain ⟨rfl, rfl⟩ := ih (fun c hc => ha c (List.mem_cons_of_mem _ hc))
        (fun c hc => hb c (List.mem_cons_of_mem _ hc)) htail
      exact ⟨rfl, rfl⟩

/-! ### Values -/

/-- The kinds of values, numbered. -/
def kind : Json → Nat
  | .null => 0
  | .bool _ => 1
  | .string _ => 2
  | .array _ => 3
  | .object _ => 4
  | .number _ => 5

/-- The kind of the values whose texts begin with a character. -/
def kindOf (c : Char) : Nat :=
  if c = 'n' then 0
  else if c = 't' ∨ c = 'f' then 1
  else if c = '"' then 2
  else if c = '[' then 3
  else if c = '{' then 4
  else 5

theorem StartsNumber.kindOf {c : Char} (h : StartsNumber c) : kindOf c = 5 := by
  have hword : ¬(c = 't' ∨ c = 'f') :=
    not_or.2 ⟨h.ne (by decide) (by decide), h.ne (by decide) (by decide)⟩
  rw [Json.kindOf, if_neg (h.ne (by decide) (by decide)), if_neg hword,
    if_neg (h.ne (by decide) (by decide)), if_neg (h.ne (by decide) (by decide)),
    if_neg (h.ne (by decide) (by decide))]

/-- The text of a value begins with a character of its kind, and not with a closing bracket. -/
theorem exists_compactChars (j : Json) :
    ∃ c cs, compactChars j = c :: cs ∧ kindOf c = kind j ∧ c ≠ ']' := by
  cases j with
  | null => exact ⟨_, _, rfl, rfl, by decide⟩
  | bool b => cases b <;> exact ⟨_, _, rfl, rfl, by decide⟩
  | number n =>
    obtain ⟨c, cs, hn, hc⟩ := numberText_cons n
    exact ⟨c, cs, hn, hc.kindOf, hc.ne (by decide) (by decide)⟩
  | string => exact ⟨_, _, rfl, rfl, by decide⟩
  | array => exact ⟨_, _, rfl, rfl, by decide⟩
  | object => exact ⟨_, _, rfl, rfl, by decide⟩

theorem kind_of_append_eq {a b : Json} (h : compactChars a ++ r = compactChars b ++ s) :
    kind a = kind b := by
  obtain ⟨c, cs, hc, hkind, -⟩ := exists_compactChars a
  obtain ⟨d, ds, hd, hkind', -⟩ := exists_compactChars b
  rw [hc, hd] at h
  rw [← hkind, ← hkind', (List.cons.inj h).1]

theorem ends_compactMoreItems (items : List Json) : Ends (compactMoreItems items ++ ']' :: r) := by
  cases items with
  | nil => exact ends_cons (by decide) _
  | cons => exact ends_cons (by decide) _

theorem ends_compactMoreFields (fields : List (String × Json)) :
    Ends (compactMoreFields fields ++ '}' :: r) := by
  cases fields with
  | nil => exact ends_cons (by decide) _
  | cons => exact ends_cons (by decide) _

theorem quoted_inj {k l : String} (h : quoted k ++ r = quoted l ++ s) : k = l ∧ r = s := by
  have hread := congrArg readName h
  rw [readName_quoted, readName_quoted] at hread
  exact Prod.mk.inj (Except.ok.inj hread)

theorem bracket_ne_compactItems (j : Json) (items : List Json) :
    ']' :: r ≠ compactItems (j :: items) ++ ']' :: s := by
  obtain ⟨c, cs, hj, -, hc⟩ := exists_compactChars j
  rw [compactItems, hj]
  exact fun h => hc (List.cons.inj h).1.symm

mutual

/-- Texts of values come apart from what may stand behind them. -/
theorem compactChars_inj (a b : Json) {r s : List Char} (hr : Ends r) (hs : Ends s)
    (h : compactChars a ++ r = compactChars b ++ s) : a = b ∧ r = s := by
  -- the first character tells the kind, so both values are of one kind
  have hkind := kind_of_append_eq h
  cases a with
  | null =>
    cases b with
    | null => exact ⟨rfl, List.append_cancel_left h⟩
    | _ => cases hkind
  | bool v =>
    cases b with
    | bool w =>
      cases v <;> cases w
      · exact ⟨rfl, List.append_cancel_left h⟩
      · cases (List.cons.inj h).1
      · cases (List.cons.inj h).1
      · exact ⟨rfl, List.append_cancel_left h⟩
    | _ => cases hkind
  | number m =>
    cases b with
    | number n =>
      obtain ⟨htext, hrest⟩ := append_inj_of_all isNumberChar_of_mem isNumberChar_of_mem
        hr.isNumberChar hs.isNumberChar h
      exact ⟨congrArg _ (numberText_injective htext), hrest⟩
    | _ => cases hkind
  | string k =>
    cases b with
    | string l =>
      obtain ⟨rfl, hrest⟩ := quoted_inj h
      exact ⟨rfl, hrest⟩
    | _ => cases hkind
  | array as =>
    cases b with
    | array bs =>
      simp only [compactChars, List.cons_append, List.append_assoc, List.nil_append,
        List.cons.injEq, true_and] at h
      obtain ⟨rfl, hrest⟩ := compactItems_inj as bs h
      exact ⟨rfl, hrest⟩
    | _ => cases hkind
  | object as =>
    cases b with
    | object bs =>
      simp only [compactChars, List.cons_append, List.append_assoc, List.nil_append,
        List.cons.injEq, true_and] at h
      obtain ⟨rfl, hrest⟩ := compactFields_inj as bs h
      exact ⟨rfl, hrest⟩
    | _ => cases hkind
termination_by structural a

theorem compactItems_inj (as bs : List Json) {r s : List Char}
    (h : compactItems as ++ ']' :: r = compactItems bs ++ ']' :: s) : as = bs ∧ r = s := by
  cases as with
  | nil =>
    cases bs with
    | nil => exact ⟨rfl, (List.cons.inj h).2⟩
    | cons b bs => exact absurd h (bracket_ne_compactItems b bs)
  | cons a as =>
    cases bs with
    | nil => exact absurd h.symm (bracket_ne_compactItems a as)
    | cons b bs =>
      rw [compactItems, compactItems, List.append_assoc, List.append_assoc] at h
      obtain ⟨rfl, hmore⟩ :=
        compactChars_inj a b (ends_compactMoreItems as) (ends_compactMoreItems bs) h
      obtain ⟨rfl, hrest⟩ := compactMoreItems_inj as bs hmore
      exact ⟨rfl, hrest⟩
termination_by structural as

theorem compactMoreItems_inj (as bs : List Json) {r s : List Char}
    (h : compactMoreItems as ++ ']' :: r = compactMoreItems bs ++ ']' :: s) : as = bs ∧ r = s := by
  cases as with
  | nil =>
    cases bs with
    | nil => exact ⟨rfl, (List.cons.inj h).2⟩
    | cons => cases (List.cons.inj h).1
  | cons a as =>
    cases bs with
    | nil => cases (List.cons.inj h).1
    | cons b bs =>
      simp only [compactMoreItems, List.cons_append, List.append_assoc, List.cons.injEq,
        true_and] at h
      obtain ⟨rfl, hmore⟩ :=
        compactChars_inj a b (ends_compactMoreItems as) (ends_compactMoreItems bs) h
      obtain ⟨rfl, hrest⟩ := compactMoreItems_inj as bs hmore
      exact ⟨rfl, hrest⟩
termination_by structural as

theorem compactFields_inj (as bs : List (String × Json)) {r s : List Char}
    (h : compactFields as ++ '}' :: r = compactFields bs ++ '}' :: s) : as = bs ∧ r = s := by
  cases as with
  | nil =>
    cases bs with
    | nil => exact ⟨rfl, (List.cons.inj h).2⟩
    | cons => cases (List.cons.inj h).1
  | cons a as =>
    cases bs with
    | nil => cases (List.cons.inj h).1
    | cons b bs =>
      obtain ⟨k, a⟩ := a
      obtain ⟨l, b⟩ := b
      simp only [compactFields, List.cons_append, List.append_assoc] at h
      obtain ⟨rfl, hvalue⟩ := quoted_inj h
      obtain ⟨rfl, hmore⟩ := compactChars_inj a b (ends_compactMoreFields as)
        (ends_compactMoreFields bs) (List.cons.inj hvalue).2
      obtain ⟨rfl, hrest⟩ := compactMoreFields_inj as bs hmore
      exact ⟨rfl, hrest⟩
termination_by structural as

theorem compactMoreFields_inj (as bs : List (String × Json)) {r s : List Char}
    (h : compactMoreFields as ++ '}' :: r = compactMoreFields bs ++ '}' :: s) :
    as = bs ∧ r = s := by
  cases as with
  | nil =>
    cases bs with
    | nil => exact ⟨rfl, (List.cons.inj h).2⟩
    | cons => cases (List.cons.inj h).1
  | cons a as =>
    cases bs with
    | nil => cases (List.cons.inj h).1
    | cons b bs =>
      obtain ⟨k, a⟩ := a
      obtain ⟨l, b⟩ := b
      simp only [compactMoreFields, List.cons_append, List.append_assoc, List.cons.injEq,
        true_and] at h
      obtain ⟨rfl, hvalue⟩ := quoted_inj h
      obtain ⟨rfl, hmore⟩ := compactChars_inj a b (ends_compactMoreFields as)
        (ends_compactMoreFields bs) (List.cons.inj hvalue).2
      obtain ⟨rfl, hrest⟩ := compactMoreFields_inj as bs hmore
      exact ⟨rfl, hrest⟩
termination_by structural as

end

/-- The compact text of a value settles it. -/
theorem compact_injective {a b : Json} (h : a.compact = b.compact) : a = b := by
  have htext : compactChars a ++ [] = compactChars b ++ [] := by
    rw [List.append_nil, List.append_nil]
    exact String.ofList_injective h
  exact (compactChars_inj a b ends_nil ends_nil htext).1

/-! ### Blanks and quotes -/

/-- Read from outside a string, or from inside one, the text ends outside, no line ends in it, and
outside it has neither blanks nor backslashes. -/
inductive Balanced : Bool → List Char → Prop
  | nil : Balanced false []
  | quote {inside : Bool} {cs : List Char} (rest : Balanced (!inside) cs) :
      Balanced inside ('"' :: cs)
  | escape {c : Char} {cs : List Char} (plain : c ≠ '\n') (rest : Balanced true cs) :
      Balanced true ('\\' :: c :: cs)
  | inside {c : Char} {cs : List Char} (plain : c ∉ ['"', '\\', '\n']) (rest : Balanced true cs) :
    Balanced true (c :: cs)
  | outside {c : Char} {cs : List Char} (plain : c ∉ ['"', '\\', '\n', ' '])
      (rest : Balanced false cs) :
    Balanced false (c :: cs)

namespace Balanced

variable {inside : Bool} {cs front rest : List Char}

/-- A text does not end outside a string from both sides of a quote. -/
theorem not_true (h : Balanced false cs) : ¬Balanced true cs := by
  induction cs with
  | nil => nofun
  | cons c cs ih =>
    intro htrue
    cases h with
    | quote houtside =>
      cases htrue with
      | quote hinside => exact ih hinside houtside
      | inside plain => exact absurd plain (by decide)
    | outside plain houtside =>
      cases htrue with
      | quote => exact absurd plain (by decide)
      | escape => exact absurd plain (by decide)
      | inside _ hinside => exact ih houtside hinside

theorem lineBreak_notMem (h : Balanced inside cs) : '\n' ∉ cs := by
  induction h with
  | nil => exact List.not_mem_nil
  | quote _ ih => simpa using ih
  | escape plain _ ih => simpa [plain.symm] using ih
  | inside plain _ ih =>
    refine List.not_mem_cons_of_ne_of_not_mem ?_ ih
    rintro rfl
    exact plain (by decide)
  | outside plain _ ih =>
    refine List.not_mem_cons_of_ne_of_not_mem ?_ ih
    rintro rfl
    exact plain (by decide)

/-- Behind a blank the text goes on inside a string. -/
theorem of_blank (h : Balanced inside (front ++ ' ' :: rest)) : Balanced true rest := by
  generalize htext : front ++ ' ' :: rest = text at h
  induction h generalizing front with
  | nil => cases front <;> cases htext
  | quote _ ih =>
    cases front with
    | nil => cases htext
    | cons c front => exact ih (List.cons.inj htext).2
  | escape plain h ih =>
    -- a blank behind a backslash is part of its escape
    cases front with
    | nil => cases htext
    | cons c front =>
      cases front with
      | nil =>
        cases htext
        exact h
      | cons d front => exact ih (List.cons.inj (List.cons.inj htext).2).2
  | inside plain h ih =>
    cases front with
    | nil =>
      cases htext
      exact h
    | cons c front => exact ih (List.cons.inj htext).2
  | outside plain _ ih =>
    cases front with
    | nil =>
      cases htext
      exact absurd plain (by decide)
    | cons c front => exact ih (List.cons.inj htext).2

theorem append_outside (hcs : ∀ c ∈ cs, c ∉ ['"', '\\', '\n', ' ']) (h : Balanced false rest) :
    Balanced false (cs ++ rest) := by
  induction cs with
  | nil => exact h
  | cons c cs ih =>
    exact outside (hcs c List.mem_cons_self) (ih fun d hd => hcs d (List.mem_cons_of_mem _ hd))

theorem append_inside (hcs : ∀ c ∈ cs, c ∉ ['"', '\\', '\n']) (h : Balanced true rest) :
    Balanced true (cs ++ rest) := by
  induction cs with
  | nil => exact h
  | cons c cs ih =>
    exact inside (hcs c List.mem_cons_self) (ih fun d hd => hcs d (List.mem_cons_of_mem _ hd))

theorem of_cons_inside {c : Char} (hc : c ∉ ['"', '\\', '\n']) (h : Balanced true (c :: cs)) :
    Balanced true cs := by
  cases h with
  | quote => exact absurd hc (by decide)
  | escape => exact absurd hc (by decide)
  | inside _ h => exact h

/-- Plain characters inside a string do not lead out of it. -/
theorem of_append_inside (hcs : ∀ c ∈ cs, c ∉ ['"', '\\', '\n']) (h : Balanced true (cs ++ rest)) :
    Balanced true rest := by
  induction cs with
  | nil => exact h
  | cons c cs ih =>
    exact ih (fun d hd => hcs d (List.mem_cons_of_mem c hd))
      (of_cons_inside (hcs c List.mem_cons_self) h)

theorem escapeChar (c : Char) (h : Balanced true rest) : Balanced true (escapeChar c ++ rest) := by
  unfold Json.escapeChar
  split
  · exact escape (by decide) h
  split
  · exact escape (by decide) h
  split
  · exact escape (by decide) h
  split
  · exact escape (by decide) h
  split
  · exact escape (by decide) h
  split
  · exact escape (by decide) h
  split
  · exact escape (by decide) h
  split
  · -- a control character is written as a code of four hexadecimal digits
    rename_i hc
    have hhex : ∀ n < 16, Text.Decimal.hexDigitLower n ∉ ['"', '\\', '\n'] := by decide
    have hcode : ∀ d ∈ ['0', '0', Text.Decimal.hexDigitLower (c.toNat / 16),
        Text.Decimal.hexDigitLower (c.toNat % 16)], d ∉ ['"', '\\', '\n'] :=
      List.forall_mem_cons.2 ⟨by decide, List.forall_mem_cons.2 ⟨by decide,
        List.forall_mem_cons.2 ⟨hhex _ (by omega),
          List.forall_mem_singleton.2 (hhex _ (by omega))⟩⟩⟩
    exact escape (by decide) (append_inside hcode h)
  · rename_i hquote hbackslash _ _ hbreak _ _ _
    refine inside ?_ h
    simp only [List.mem_cons, List.not_mem_nil, or_false, not_or]
    exact ⟨hquote, hbackslash, hbreak⟩

theorem quoted (k : String) (h : Balanced false rest) : Balanced false (quoted k ++ rest) := by
  have hstring : ∀ cs : List Char, Balanced true (cs.flatMap Json.escapeChar ++ '"' :: rest) := by
    intro cs
    induction cs with
    | nil => exact quote h
    | cons c cs ih =>
      rw [List.flatMap_cons, List.append_assoc]
      exact escapeChar c ih
  rw [quoted_append]
  exact quote (hstring k.toList)

end Balanced

theorem ne_of_isNumberChar {c : Char} (h : isNumberChar c = true) : c ∉ ['"', '\\', '\n', ' '] := by
  simp only [List.mem_cons, List.not_mem_nil, or_false]
  rintro (rfl | rfl | rfl | rfl) <;> exact absurd h (by decide)

mutual

theorem balanced_compactChars (j : Json) {rest : List Char} (h : Balanced false rest) :
    Balanced false (compactChars j ++ rest) := by
  cases j with
  | null => exact h.append_outside (by simp [compactChars])
  | bool b => cases b <;> exact h.append_outside (by simp [compactChars])
  | number n => exact h.append_outside fun c hc => ne_of_isNumberChar (isNumberChar_of_mem c hc)
  | string k => exact h.quoted k
  | array items =>
    simp only [compactChars, List.cons_append, List.append_assoc, List.nil_append]
    exact .outside (by decide) (balanced_compactItems items (.outside (by decide) h))
  | object fields =>
    simp only [compactChars, List.cons_append, List.append_assoc, List.nil_append]
    exact .outside (by decide) (balanced_compactFields fields (.outside (by decide) h))
termination_by structural j

theorem balanced_compactItems (items : List Json) {rest : List Char} (h : Balanced false rest) :
    Balanced false (compactItems items ++ rest) := by
  cases items with
  | nil => exact h
  | cons j items =>
    rw [compactItems, List.append_assoc]
    exact balanced_compactChars j (balanced_compactMoreItems items h)
termination_by structural items

theorem balanced_compactMoreItems (items : List Json) {rest : List Char} (h : Balanced false rest) :
    Balanced false (compactMoreItems items ++ rest) := by
  cases items with
  | nil => exact h
  | cons j items =>
    rw [compactMoreItems, List.cons_append, List.append_assoc]
    exact .outside (by decide) (balanced_compactChars j (balanced_compactMoreItems items h))
termination_by structural items

theorem balanced_compactFields (fields : List (String × Json)) {rest : List Char}
    (h : Balanced false rest) :
    Balanced false (compactFields fields ++ rest) := by
  cases fields with
  | nil => exact h
  | cons field fields =>
    obtain ⟨k, j⟩ := field
    rw [compactFields, List.append_assoc, List.cons_append, List.append_assoc]
    exact (Balanced.outside (by decide)
      (balanced_compactChars j (balanced_compactMoreFields fields h))).quoted k
termination_by structural fields

theorem balanced_compactMoreFields (fields : List (String × Json)) {rest : List Char}
    (h : Balanced false rest) :
    Balanced false (compactMoreFields fields ++ rest) := by
  cases fields with
  | nil => exact h
  | cons field fields =>
    obtain ⟨k, j⟩ := field
    rw [compactMoreFields, List.cons_append, List.append_assoc, List.cons_append, List.append_assoc]
    exact .outside (by decide)
      ((Balanced.outside (by decide)
        (balanced_compactChars j (balanced_compactMoreFields fields h))).quoted k)
termination_by structural fields

end

/-- In a compact text blanks and backslashes stand in strings only, and no line ends in it. -/
theorem balanced_compact (j : Json) : Balanced false (compactChars j) := by
  have h := balanced_compactChars j Balanced.nil
  rwa [List.append_nil] at h

end Roster.Json
