/-
States that were saved at other times.

The texts of two states that differ in their time only are read alike: as states that differ in
their time only, or with the same fault.  The owner and the time are read back, whatever stands
behind them, and from there on both texts are the same.

* `readMembersFrom_of_memberReads`: a member that is read back, and what is read behind it;
* `MemberAgrees`, `agree_membersBehind`: the same members, read into collections that are related;
* `EqButTime`, `agree_read`: what the texts of states are read as that were saved at two times.
-/
import Roster.Proofs.StateText
import Roster.Proofs.TimeText

namespace Roster.Json

open Roster.Action (Agree)

variable {σ : Type} {R : σ → σ → Prop} {member : String → σ → Except Fault (Reader σ)}
  {level below : Nat} {s t : σ}

/-! ### Members, one by one -/

/-- A member up to its value, and what is read behind it. -/
theorem readMembersFrom_cons (member : String → σ → Except Fault (Reader σ)) (fuel : Nat) (s : σ)
    (key : String) (cs : List Char) :
    readMembersFrom readName member (fuel + 1) s (quoted key ++ ':' :: cs) =
      match member key s with
      | .error fault => .error fault
      | .ok value =>
        match value cs with
        | .error fault => .error fault
        | .ok (t, rest) => membersBehind member fuel t rest := by
  rw [readMembersFrom, readName_quoted]
  dsimp only
  cases member key s with
  | error fault => rfl
  | ok value =>
    rw [skipSpace_cons (by decide)]
    rcases hv : value cs with fault | ⟨t, rest⟩
    · simp only [hv]
    · simp only [hv]
      rfl

/-- Behind a value stands the next member. -/
theorem membersBehind_cons (member : String → σ → Except Fault (Reader σ)) (fuel : Nat) (s : σ)
    (level : Nat) (key : String) (j : Json) (fields : List (String × Json)) (tail : List Char) :
    membersBehind member fuel s (prettyFields level ((key, j) :: fields) ++ tail) =
      readMembersFrom readName member fuel s
        (quoted key ++ ':' :: ' ' ::
          (prettyChars level j ++ (prettyFields level fields ++ tail))) := by
  unfold membersBehind
  rw [prettyFields, List.cons_append, skipSpace_cons (by decide)]
  simp only [List.append_assoc, skipSpace_lineBreak, skipSpace_quoted, List.cons_append]
  rfl

/-- A member whose value is read back, and what is read behind it. -/
theorem readMembersFrom_of_memberReads {key : String} {j : Json} {tail : List Char}
    (h : MemberReads member level (key, j) s (some t)) (ht : Ends tail) (fuel : Nat) :
    readMembersFrom readName member (fuel + 1) s
        (quoted key ++ ':' :: ' ' :: (prettyChars level j ++ tail)) =
      membersBehind member fuel t tail := by
  rw [readMembersFrom_cons]
  rcases h with ⟨value, hm, hv⟩ | ⟨hnone, -⟩
  · rcases hv.cases ht with ⟨u, hu, hr⟩ | ⟨hu, -⟩
    · obtain rfl := Option.some.inj hu
      rw [List.cons_append] at hr
      simp only [hm, hr]
    · cases hu
  · cases hnone

/-- The members of an object are read from the first one on, with fuel enough for all of them. -/
theorem readMembers_fieldsText_cons (member : String → σ → Except Fault (Reader σ))
    (s : σ) (level : Nat) (key : String) (j : Json) (fields : List (String × Json)) :
    ∃ fuel, fields.length < fuel ∧
      readMembers readName member s (fieldsText level ((key, j) :: fields)) =
        readMembersFrom readName member fuel s
          (quoted key ++ ':' :: ' ' :: (prettyChars (level + 1) j ++
          (prettyFields (level + 1) fields ++ (lineBreak level ++ ['}'])))) := by
  have hl := length_le_prettyFields (level + 1) fields
  unfold readMembers
  rw [fieldsText, skipSpace_lineBreak, skipSpace_quoted]
  refine ⟨_, ?_, rfl⟩
  simp only [List.append_eq, List.length_append, List.length_cons]
  omega

/-! ### The same members, read into related collections -/

/-- A member is read alike into two collections that are related, and leaves them related. -/
def MemberAgrees (member : String → σ → Except Fault (Reader σ)) (R : σ → σ → Prop) (level : Nat)
    (e : String × Json) : Prop :=
  ∀ s t, R s t → Agree Eq (fun value value' => ∀ tail, Ends tail →
    Agree Eq (fun p q => R p.1 q.1 ∧ p.2 = tail ∧ q.2 = tail)
      (value (' ' :: (prettyChars level e.2 ++ tail)))
      (value' (' ' :: (prettyChars level e.2 ++ tail)))) (member e.1 s) (member e.1 t)

/-- So are all of them, up to the closing brace. -/
theorem agree_membersBehind {fields : List (String × Json)} (below : Nat) (rest : List Char)
    (h : ∀ e ∈ fields, MemberAgrees member R level e) {fuel fuel' : Nat} (hf : fields.length ≤ fuel)
    (hf' : fields.length ≤ fuel') (hst : R s t) :
    Agree Eq (fun p q => R p.1 q.1 ∧ p.2 = rest ∧ q.2 = rest)
      (membersBehind member fuel s (prettyFields level fields ++ (lineBreak below ++ '}' :: rest)))
      (membersBehind member fuel' t
        (prettyFields level fields ++ (lineBreak below ++ '}' :: rest))) := by
  -- the readers of one member agree, and then those of the members behind it
  induction fields generalizing fuel fuel' s t with
  | nil =>
    have hs : skipSpace (lineBreak below ++ '}' :: rest) = '}' :: rest :=
      skipSpace_lineBreak below _
    unfold membersBehind
    rw [prettyFields, List.nil_append, hs]
    exact .ok ⟨hst, rfl, rfl⟩
  | cons e fields ih =>
    obtain ⟨key, j⟩ := e
    obtain ⟨fuel, rfl⟩ : ∃ k, fuel = k + 1 := ⟨fuel - 1, by simp at hf; omega⟩
    obtain ⟨fuel', rfl⟩ : ∃ k, fuel' = k + 1 := ⟨fuel' - 1, by simp at hf'; omega⟩
    rw [membersBehind_cons, membersBehind_cons, readMembersFrom_cons, readMembersFrom_cons]
    have hmember := h (key, j) List.mem_cons_self s t hst
    dsimp only at hmember
    generalize member key s = m at hmember ⊢
    generalize member key t = m' at hmember ⊢
    cases hmember with
    | error hfault => exact .error hfault
    | ok hvalue =>
      rename_i value value'
      have hread := hvalue _ (ends_prettyFields level below fields ('}' :: rest))
      dsimp only
      generalize value _ = reading at hread ⊢
      generalize value' _ = reading' at hread ⊢
      cases hread with
      | error hfault => exact .error hfault
      | ok hR =>
        obtain ⟨hR, hp, hq⟩ := hR
        rename_i p q
        obtain ⟨u, _⟩ := p
        obtain ⟨v, _⟩ := q
        dsimp only at hp hq
        subst hp hq
        exact ih (fun e he => h e (List.mem_cons_of_mem _ he)) (by simpa using hf)
          (by simpa using hf') hR

/-- A part with a reader of its own is read alike if it is missing in both collections or in
none. -/
theorem memberAgrees_of {α : Type} {parts : List (Part σ)} {name : String} {get : σ → Option α}
    {put : α → σ → σ} {decoder : Decoder α} {levels : Nat} {j : Json} {a : Option α}
    (hp : parts.find? (·.name == name) = some (.of name get put decoder))
    (hs : SkipsSpace (decoder levels)) (h : ReadsBack (decoder levels) (prettyChars level j) a)
    (hget : ∀ s t, R s t → (get s).isSome = (get t).isSome)
    (hput : ∀ s t b, R s t → R (put b s) (put b t)) :
    MemberAgrees (recordMember parts levels) R level (name, j) := by
  intro s t hst
  have hread : ∀ s, (Part.of name get put decoder).isRead s = (get s).isSome := fun _ => rfl
  simp only [recordMember, hp, hread, hget s t hst]
  cases (get t).isSome with
  | true => exact .error rfl
  | false =>
    refine .ok fun tail ht => ?_
    -- both are put what the same reader reads
    rcases (h.space hs).cases ht with ⟨b, -, hr⟩ | ⟨-, fault, hr⟩
    · rw [List.cons_append] at hr
      simp only [Part.of, hr]
      exact .ok ⟨hput s t b hst, rfl, rfl⟩
    · rw [List.cons_append] at hr
      simp only [Part.of, hr]
      exact .error rfl

end Roster.Json

namespace Roster.StoredState

open Roster.Action (Agree)
open Roster.Json (MemberAgrees membersBehind)

variable {home : Home} {owner : OwnerId} {declared : DesiredSet} {view : List Relation}
  {t u : Timestamp}

/-- Drafts that differ at most in the time that was read. -/
structure Draft.SameButTime (s t : Draft) : Prop where
  owner : s.owner = t.owner
  reconciledAt : s.reconciledAt.isSome = t.reconciledAt.isSome
  declared : s.declared = t.declared
  view : s.view = t.view

/-- The members behind the time, which do not depend on it. -/
def laterMembers (declared : DesiredSet) (view : List Relation) : List (String × Json) :=
  [("declared", declared.toJson), ("view", WireRelation.listJson view)]

theorem agrees_laterMembers (declared : DesiredSet) (view : List Relation) (levels level : Nat) :
    ∀ e ∈ laterMembers declared view,
      MemberAgrees (Json.recordMember parts (levels + 1)) Draft.SameButTime level e := by
  intro e he
  simp only [laterMembers, List.mem_cons, List.not_mem_nil, or_false] at he
  rcases he with rfl | rfl
  · have hp : parts.find? (·.name == "declared") =
        some (.of "declared" Draft.declared (fun a d => { d with declared := some a })
          DesiredSet.decoder) := rfl
    have hs : Json.SkipsSpace (DesiredSet.decoder (levels + 1)) :=
      Json.skipsSpace_checked (Json.skipsSpace_list _ _) _
    refine Json.memberAgrees_of hp hs (DesiredSet.readsBack_desired levels level declared) ?_ ?_
    · exact fun s t h => congrArg Option.isSome h.declared
    · exact fun s t b h => ⟨h.owner, h.reconciledAt, rfl, h.view⟩
  · have hp : parts.find? (·.name == "view") =
        some (.of "view" Draft.view (fun a d => { d with view := some a })
          (Json.list WireRelation.relationDecoder)) := rfl
    refine Json.memberAgrees_of hp (Json.skipsSpace_list _ _)
      (WireRelation.readsBack_relations levels level view) ?_ ?_
    · exact fun s t h => congrArg Option.isSome h.view
    · exact fun s t b h => ⟨h.owner, h.reconciledAt, h.declared, rfl⟩

/-- What is collected once the owner and the time were read. -/
def Draft.headed (owner : OwnerId) (time : Timestamp) : Draft :=
  ⟨some (some owner), some (some time), none, none⟩

/-- What becomes of the members of a state's record. -/
def finished (reading : Json.Reading Draft) : Except Json.Fault StoredState :=
  match reading.bindValue fun s => .ok s.finish with
  | .error fault => .error fault
  | .ok (s, rest) => if Json.skipSpace rest = [] then .ok s else .error .malformed

/-- The text of a state is read member by member. -/
theorem read_text_eq_finished (owner : OwnerId) (t : Timestamp) (declared : DesiredSet)
    (view : List Relation) :
    read (ofOwner owner t declared view).text =
      finished (Json.readMembers Json.readName (Json.recordMember parts 126)
        ⟨none, none, none, none⟩
        (Json.fieldsText 0 (members owner t declared view))) := by
  have hjson : (ofOwner owner t declared view).toJson =
      .object (members owner t declared view) := rfl
  have hrecord : ∀ cs, decoder Json.maxLevels ('{' :: cs) =
      (Json.readMembers Json.readName (Json.recordMember parts 126)
        ⟨none, none, none, none⟩ cs).bindValue fun s => .ok s.finish := by
    intro cs
    unfold decoder Json.record
    rw [Json.skipSpace_cons (by decide)]
    rfl
  unfold read Json.readWhole text Json.pretty
  rw [String.toList_ofList, hjson, Json.prettyChars_object, hrecord]
  unfold finished
  cases (Json.readMembers Json.readName (Json.recordMember parts 126) ⟨none, none, none, none⟩
    (Json.fieldsText 0 (members owner t declared view))).bindValue fun s => .ok s.finish <;> rfl

/-- The owner and the time are read back, and the rest of the text is read behind them. -/
theorem read_text_eq (ht : t.Valid) (owner : OwnerId) (declared : DesiredSet)
    (view : List Relation) :
    ∃ fuel, 2 ≤ fuel ∧ read (ofOwner owner t declared view).text =
      finished (membersBehind (Json.recordMember parts 126) fuel (.headed owner t)
        (Json.prettyFields 1 (laterMembers declared view) ++ (Json.lineBreak 0 ++ ['}']))) := by
  obtain ⟨fuel, hfuel, hfirst⟩ := Json.readMembers_fieldsText_cons (Json.recordMember parts 126)
    ⟨none, none, none, none⟩ 0 "owner" (.string owner.text)
    (("reconciled_at", .string t.text) :: laterMembers declared view)
  obtain ⟨fuel, rfl⟩ : ∃ k, fuel = k + 2 := ⟨fuel - 2, by simp [laterMembers] at hfuel; omega⟩
  have hends : ∀ fields, Json.Ends (Json.prettyFields 1 fields ++ (Json.lineBreak 0 ++ ['}'])) :=
    fun fields => Json.ends_prettyFields 1 0 fields ['}']
  -- the owner and the time stand first, and are read into the drafts that are compared
  have howner : Json.MemberReads (Json.recordMember parts 126) 1 ("owner", .string owner.text)
      ⟨none, none, none, none⟩ (some ⟨some (some owner), none, none, none⟩) := by
    have hstep : step 125 owner t declared view ⟨none, none, none, none⟩
        ("owner", .string owner.text) = some ⟨some (some owner), none, none, none⟩ := by
      simp [step]
    exact hstep ▸ memberReads_owner 125 1 _
  have htime : Json.MemberReads (Json.recordMember parts 126) 1 ("reconciled_at", .string t.text)
      ⟨some (some owner), none, none, none⟩ (some (.headed owner t)) := by
    have hstep : step 125 owner t declared view ⟨some (some owner), none, none, none⟩
        ("reconciled_at", .string t.text) = some (.headed owner t) := by
      simp [step, Timestamp.read?_text ht, Draft.headed]
    exact hstep ▸ memberReads_time 125 1 _
  refine ⟨fuel, by simp [laterMembers] at hfuel; omega, ?_⟩
  refine (read_text_eq_finished owner t declared view).trans (congrArg finished (hfirst.trans ?_))
  rw [Json.readMembersFrom_of_memberReads howner (hends _), Json.membersBehind_cons,
    Json.readMembersFrom_of_memberReads htime (hends _)]

/-- The states differ in their time at most. -/
def EqButTime (s s' : StoredState) : Prop := { s with reconciledAt := s'.reconciledAt } = s'

theorem EqButTime.refl (s : StoredState) : EqButTime s s := rfl

/-- Texts of states that differ in their time only are read as states that do, or with the same
fault. -/
theorem agree_read (ht : t.Valid) (hu : u.Valid) (owner : OwnerId) (declared : DesiredSet)
    (view : List Relation) :
    Agree Eq EqButTime (read (ofOwner owner t declared view).text)
      (read (ofOwner owner u declared view).text) := by
  obtain ⟨fuel, hfuel, hread⟩ := read_text_eq ht owner declared view
  obtain ⟨fuel', hfuel', hread'⟩ := read_text_eq hu owner declared view
  rw [hread, hread']
  have hheaded : (Draft.headed owner t).SameButTime (Draft.headed owner u) := ⟨rfl, rfl, rfl, rfl⟩
  have hagree :=
    Json.agree_membersBehind 0 [] (agrees_laterMembers declared view 125 1) hfuel hfuel' hheaded
  generalize membersBehind _ fuel _ _ = reading at hagree ⊢
  generalize membersBehind _ fuel' _ _ = reading' at hagree ⊢
  cases hagree with
  | error hfault => exact .error hfault
  | ok h =>
    rename_i p q
    obtain ⟨s, rest⟩ := p
    obtain ⟨s', rest'⟩ := q
    obtain ⟨hs, hp, hq⟩ := h
    dsimp only at hs hp hq
    subst hp hq
    refine .ok ?_
    simp only [EqButTime, Draft.finish, hs.owner, hs.declared, hs.view]

end Roster.StoredState
