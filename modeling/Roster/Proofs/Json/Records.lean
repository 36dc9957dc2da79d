/-
Reading typed values that were written.

Each typed reader reads back what its parts read back: `readsBack_text`, `readsBack_optional`,
`readsBack_list`, `readsBack_checked` and, for the members of a record, `readsBack_record` with
`memberReads_of`.
-/
import Roster.Json.Typed
import Roster.Proofs.Json.Values

namespace Roster.Json

variable {α β ι σ : Type}

/-- Whether a reader steps over the blanks in front of what it reads. -/
def SkipsSpace (reader : Reader α) : Prop := ∀ cs, reader (skipSpace cs) = reader cs

theorem skipsSpace_text (levels : Nat) : SkipsSpace (text levels) := by
  intro cs
  unfold text
  rw [skipSpace_idem]

theorem skipsSpace_optional (decoder : Decoder α) (levels : Nat) :
    SkipsSpace (optional decoder levels) := by
  intro cs
  unfold optional
  rw [skipSpace_idem]

theorem skipsSpace_list (decoder : Decoder α) (levels : Nat) :
    SkipsSpace (list decoder levels) := by
  intro cs
  unfold list
  rw [skipSpace_idem]

theorem skipsSpace_checked {decoder : Decoder α} {levels : Nat} (h : SkipsSpace (decoder levels))
    (check : α → Option β) : SkipsSpace (checked decoder check levels) := by
  intro cs
  unfold checked
  rw [h cs]

theorem ReadsBack.space {reader : Reader α} (hs : SkipsSpace reader) {text : List Char}
    {a : Option α} (h : ReadsBack reader text a) : ReadsBack reader (' ' :: text) a := by
  intro rest hr
  rw [← hs]
  have he : skipSpace (' ' :: text ++ rest) = skipSpace (text ++ rest) := rfl
  rw [he, hs]
  exact h rest hr

theorem readsBack_text (levels level : Nat) (s : String) :
    ReadsBack (text levels) (prettyChars level (.string s)) (some s) := by
  intro rest _
  rw [prettyChars, quoted_append, text, skipSpace_cons (by decide)]
  show (readString _).toOption = _
  rw [readString_quoted]
  rfl

theorem readsBack_optional {decoder : Decoder α} {levels : Nat} {c : Char} {cs : List Char}
    {a : Option α} (hs : isSpace c = false) (hn : c ≠ 'n')
    (h : ReadsBack (decoder levels) (c :: cs) a) :
    ReadsBack (optional decoder levels) (c :: cs) (a.map some) := by
  intro rest hr
  rw [List.cons_append, optional, skipSpace_cons hs]
  split
  · rename_i he
    exact absurd (List.cons.inj he).1 hn
  · rw [toOption_bindValue, ← List.cons_append, h rest hr]
    cases a <;> rfl

theorem readsBack_optional_string {decoder : Decoder α} {levels level : Nat} {s : String}
    {a : Option α} (h : ReadsBack (decoder levels) (prettyChars level (.string s)) a) :
    ReadsBack (optional decoder levels) (prettyChars level (.string s)) (a.map some) := by
  rw [prettyChars, quoted] at h ⊢
  exact readsBack_optional (by decide) (by decide) h

theorem readsBack_list {decoder : Decoder α} {levels level : Nat} {json : ι → Json}
    {f : ι → Option α} {xs : List ι}
    (h : ∀ x ∈ xs, ReadsBack (decoder levels) (prettyChars (level + 1) (json x)) (f x)) :
    ReadsBack (list decoder (levels + 1)) (prettyChars level (.array (xs.map json)))
      (xs.mapM f) := by
  intro rest hr
  rw [prettyChars_array, List.cons_append]
  unfold list
  rw [skipSpace_cons (by decide)]
  exact readItems_itemsText h rest hr

theorem readsBack_checked {decoder : Decoder α} {check : α → Option β} {levels : Nat}
    {text : List Char} {a : Option α} (h : ReadsBack (decoder levels) text a) :
    ReadsBack (checked decoder check levels) text (a.bind check) := by
  intro rest hr
  rw [checked, toOption_bindValue, h rest hr]
  cases a with
  | none => rfl
  | some a =>
    simp only [Option.map_some, Option.bind_some]
    cases check a <;> rfl

/-- A whole text is read as what it is read as when nothing stands behind it. -/
theorem toOption_readWhole {decoder : Decoder α} {text : String} {a : Option α}
    (h : ReadsBack (decoder maxLevels) text.toList a) : (readWhole decoder text).toOption = a := by
  unfold readWhole
  rcases h.cases ends_nil with ⟨b, rfl, hr⟩ | ⟨rfl, fault, hr⟩
  · rw [List.append_nil] at hr
    rw [hr]
    rfl
  · rw [List.append_nil] at hr
    rw [hr]
    rfl

/-! ### Records -/

/-- A member of a record is read by the part of its name, unless that was read before. -/
theorem memberReads_part {parts : List (Part σ)} {part : Part σ} {levels level : Nat}
    {name : String} {j : Json} {s : σ} {t : Option σ}
    (hp : parts.find? (·.name == name) = some part)
    (h : ReadsBack (part.decoder s levels) (' ' :: prettyChars level j) t) :
    MemberReads (recordMember parts levels) level (name, j) s
      (if part.isRead s then none else t) := by
  unfold MemberReads recordMember
  simp only [hp]
  cases part.isRead s with
  | true => exact .inr ⟨rfl, _, rfl⟩
  | false => exact .inl ⟨_, rfl, h⟩

theorem readsBack_part {name : String} {get : σ → Option α} {put : α → σ → σ} {decoder : Decoder α}
    {s : σ} {levels : Nat} {text : List Char} {a : Option α}
    (h : ReadsBack (decoder levels) text a) :
    ReadsBack ((Part.of name get put decoder).decoder s levels) text (a.map (put · s)) := by
  intro rest hr
  rw [Part.of, toOption_bindValue, h rest hr]
  cases a <;> rfl

/-- A part with a reader of its own puts in its place what that reads. -/
theorem memberReads_of {parts : List (Part σ)} {name : String} {get : σ → Option α}
    {put : α → σ → σ} {decoder : Decoder α} {levels level : Nat} {j : Json} {a : Option α}
    (hp : parts.find? (·.name == name) = some (.of name get put decoder))
    (hs : SkipsSpace (decoder levels))
    (h : ReadsBack (decoder levels) (prettyChars level j) a) (s : σ) :
    MemberReads (recordMember parts levels) level (name, j) s
      (if (get s).isSome then none else a.map (put · s)) :=
  memberReads_part hp (readsBack_part (h.space hs))

/-- A record is read back member by member. -/
theorem readsBack_record {parts : List (Part σ)} {start : σ} {finish : σ → Option α}
    {step : σ → String × Json → Option σ} {levels level : Nat} {fields : List (String × Json)}
    (h : ∀ e ∈ fields, ∀ s, MemberReads (recordMember parts levels) (level + 1) e s (step s e)) :
    ReadsBack (record parts start finish (levels + 1)) (prettyChars level (.object fields))
      ((fields.foldlM step start).bind finish) := by
  intro rest hr
  rw [prettyChars_object, List.cons_append]
  unfold record
  rw [skipSpace_cons (by decide)]
  show (Reading.bindValue (readMembers readName (recordMember parts levels) start _) _).toOption = _
  rw [toOption_bindValue, readMembers_fieldsText h rest hr]
  cases fields.foldlM step start with
  | none => rfl
  | some s =>
    simp only [Option.map_some, Option.bind_some]
    cases finish s <;> rfl

end Roster.Json
