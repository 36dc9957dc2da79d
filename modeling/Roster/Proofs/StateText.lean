/-
Reading states that were saved.

The text of a state is read part by part.  What is read names the same targets as what was saved,
and it is what was saved if its time and its relations are read back.

* `read_text`: what the text of a state is read as;
* `load_of_remembers_text`, `load_eq_ok_iff`: what is loaded where a state was saved.
-/
import Roster.Proofs.StoredState
import Roster.Proofs.WireRelations

namespace Roster.StoredState

open Roster.Json (ReadsBack MemberReads)

variable {home : Home} {owner : OwnerId} {d : Disk}

/-- The state of an owner at a time. -/
def ofOwner (owner : OwnerId) (time : Timestamp) (declared : DesiredSet) (view : List Relation) :
    StoredState :=
  ⟨some owner, some time, declared, view⟩

/-- What the text of a state is read as, if so many levels may be open inside its sets. -/
def reread (levels : Nat) (owner : OwnerId) (time : Timestamp) (declared : DesiredSet)
    (view : List Relation) : Option StoredState :=
  (Timestamp.read? time.text).bind fun t =>
    (DesiredSet.reread levels declared).bind fun s =>
      (view.mapM (WireRelation.reread levels)).map fun v => ofOwner owner t s v

/-- What is collected from a member of the record. -/
def step (levels : Nat) (owner : OwnerId) (time : Timestamp) (declared : DesiredSet)
    (view : List Relation) (s : Draft) (e : String × Json) : Option Draft :=
  if e.1 = "owner" then if s.owner.isSome then none else some { s with owner := some (some owner) }
  else if e.1 = "reconciled_at" then
    if s.reconciledAt.isSome then none
    else (Timestamp.read? time.text).map fun t => { s with reconciledAt := some (some t) }
  else if e.1 = "declared" then
    if s.declared.isSome then none
    else (DesiredSet.reread levels declared).map fun a => { s with declared := some a }
  else
    if s.view.isSome then none
    else (view.mapM (WireRelation.reread levels)).map fun a => { s with view := some a }

variable {time : Timestamp} {declared : DesiredSet} {view : List Relation}

theorem memberReads_owner (levels level : Nat) (s : Draft) :
    MemberReads (Json.recordMember parts (levels + 1)) level ("owner", .string owner.text) s
      (step levels owner time declared view s ("owner", .string owner.text)) := by
  have hp : parts.find? (·.name == "owner") =
      some (.of "owner" Draft.owner (fun a d => { d with owner := some a })
        (Json.optional ownerDecoder)) := rfl
  have ht : ReadsBack (ownerDecoder (levels + 1)) (Json.prettyChars level (.string owner.text))
      (some owner) := Json.readsBack_checked (Json.readsBack_text _ level owner.text)
  exact Json.memberReads_of hp (Json.skipsSpace_optional _ _) (Json.readsBack_optional_string ht) s

theorem memberReads_time (levels level : Nat) (s : Draft) :
    MemberReads (Json.recordMember parts (levels + 1)) level ("reconciled_at", .string time.text) s
      (step levels owner time declared view s ("reconciled_at", .string time.text)) := by
  have hp : parts.find? (·.name == "reconciled_at") =
      some (.of "reconciled_at" Draft.reconciledAt (fun a d => { d with reconciledAt := some a })
        (Json.optional timeDecoder)) := rfl
  have ht : ReadsBack (timeDecoder (levels + 1)) (Json.prettyChars level (.string time.text))
      ((some time.text).bind Timestamp.read?) :=
    Json.readsBack_checked (Json.readsBack_text _ level time.text)
  rw [Option.bind_some] at ht
  have hm :=
    Json.memberReads_of hp (Json.skipsSpace_optional _ _) (Json.readsBack_optional_string ht) s
  rw [Option.map_map] at hm
  exact hm

theorem memberReads_declared (levels level : Nat) (s : Draft) :
    MemberReads (Json.recordMember parts (levels + 1)) level ("declared", declared.toJson) s
      (step levels owner time declared view s ("declared", declared.toJson)) := by
  have hp : parts.find? (·.name == "declared") =
      some (.of "declared" Draft.declared (fun a d => { d with declared := some a })
        DesiredSet.decoder) := rfl
  have hs : Json.SkipsSpace (DesiredSet.decoder (levels + 1)) :=
    Json.skipsSpace_checked (Json.skipsSpace_list _ _) _
  exact Json.memberReads_of hp hs (DesiredSet.readsBack_desired levels level declared) s

theorem memberReads_view (levels level : Nat) (s : Draft) :
    MemberReads (Json.recordMember parts (levels + 1)) level ("view", WireRelation.listJson view) s
      (step levels owner time declared view s ("view", WireRelation.listJson view)) := by
  have hp : parts.find? (·.name == "view") =
      some (.of "view" Draft.view (fun a d => { d with view := some a })
        (Json.list WireRelation.relationDecoder)) := rfl
  exact Json.memberReads_of hp (Json.skipsSpace_list _ _)
    (WireRelation.readsBack_relations levels level view) s

/-- The members of the record. -/
def members (owner : OwnerId) (time : Timestamp) (declared : DesiredSet) (view : List Relation) :
    List (String × Json) :=
  [("owner", .string owner.text), ("reconciled_at", .string time.text),
    ("declared", declared.toJson),
    ("view", WireRelation.listJson view)]

theorem finish_members (levels : Nat) (owner : OwnerId) (time : Timestamp) (declared : DesiredSet)
    (view : List Relation) :
    ((members owner time declared view).foldlM (step levels owner time declared view)
      ⟨none, none, none, none⟩).bind (fun d => some d.finish) =
        reread levels owner time declared view := by
  -- the owner is always read back, so the time is the first member that may not be
  cases ht : Timestamp.read? time.text with
  | none => simp [members, step, reread, ht]
  | some t =>
    cases hd : DesiredSet.reread levels declared with
    | none => simp [members, step, reread, ht, hd]
    | some s =>
      cases hv : view.mapM (WireRelation.reread levels) with
      | none => simp [members, step, reread, ht, hd, hv]
      | some v => simp [members, step, reread, ht, hd, hv, Draft.finish, ofOwner]

/-- The state's record is read part by part. -/
theorem readsBack_state (levels level : Nat) (owner : OwnerId) (time : Timestamp)
    (declared : DesiredSet) (view : List Relation) :
    ReadsBack (decoder (levels + 2))
      (Json.prettyChars level (ofOwner owner time declared view).toJson)
      (reread levels owner time declared view) := by
  rw [← finish_members]
  refine Json.readsBack_record fun e he s => ?_
  simp only [List.mem_cons, List.not_mem_nil, or_false] at he
  rcases he with rfl | rfl | rfl | rfl
  · exact memberReads_owner levels (level + 1) s
  · exact memberReads_time levels (level + 1) s
  · exact memberReads_declared levels (level + 1) s
  · exact memberReads_view levels (level + 1) s

theorem read_text (owner : OwnerId) (time : Timestamp) (declared : DesiredSet)
    (view : List Relation) :
    (read (ofOwner owner time declared view).text).toOption =
      reread 125 owner time declared view := by
  refine Json.toOption_readWhole ?_
  unfold text Json.pretty
  rw [String.toList_ofList]
  exact readsBack_state 125 0 owner time declared view

theorem owner_of_reread {levels : Nat} {s : StoredState}
    (h : reread levels owner time declared view = some s) : s.owner = some owner := by
  obtain ⟨t, -, h⟩ := Option.bind_eq_some_iff.1 h
  obtain ⟨a, -, h⟩ := Option.bind_eq_some_iff.1 h
  obtain ⟨v, -, rfl⟩ := Option.map_eq_some_iff.1 h
  rfl

theorem targets_of_reread {levels : Nat} {s : StoredState}
    (h : reread levels owner time declared view = some s) :
    s.declared.targets = declared.targets := by
  obtain ⟨t, -, h⟩ := Option.bind_eq_some_iff.1 h
  obtain ⟨a, ha, h⟩ := Option.bind_eq_some_iff.1 h
  obtain ⟨v, -, rfl⟩ := Option.map_eq_some_iff.1 h
  exact DesiredSet.targets_of_reread ha

/-- What is loaded where a state of the owner was saved. -/
theorem load_of_remembers_text
      (h : Remembers home owner (ofOwner owner time declared view).text d) :
    (load home owner d).toOption = reread 125 owner time declared view := by
  rw [load_of_remembers h, ← read_text]
  cases hr : read (ofOwner owner time declared view).text with
  | error fault =>
    unfold ofText
    rw [hr]
    rfl
  | ok s =>
    have ho : s.owner = some owner := owner_of_reread (by rw [← read_text, hr]; rfl)
    rw [ofText_of_read hr ho]
    rfl

theorem load_eq_ok_iff {s : StoredState}
    (h : Remembers home owner (ofOwner owner time declared view).text d) :
    load home owner d = .ok s ↔ reread 125 owner time declared view = some s := by
  rw [← load_of_remembers_text h]
  cases load home owner d <;> simp [Except.toOption]

end Roster.StoredState
