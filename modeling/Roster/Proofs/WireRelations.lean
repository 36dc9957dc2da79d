/-
Reading relations that were written.

A written relation is read back with its target, whatever its priority and its payload come out as,
so the relations that are read from a list are those to the same targets.  A relation whose priority
has 64 bits and whose payload is read back is read back itself.

* `decodeAll_encode`: relations are read back from their wire form;
* `readsBack_relation`: what a written relation is read as;
* `readsBack_relations`, `targets_of_reread`: a list of relations, and its targets;
* `readsBack_desired`: a desired set.
-/
import Mathlib.Data.List.Forall2
import Roster.DesiredSet
import Roster.Proofs.Json.Records
import Roster.Proofs.RelationLists

namespace Roster

open Roster.Json (ReadsBack rereadNumber prettyChars MemberReads)

/-! ### Items that are all read -/

section

variable {α β ε : Type} {f : α → Except ε β} {as : List α} {bs : List β}

theorem mapM_eq_ok_iff : as.mapM f = .ok bs ↔ List.Forall₂ (fun a b => f a = .ok b) as bs := by
  induction as generalizing bs with
  | nil =>
    rw [List.mapM_nil, List.forall₂_nil_left_iff]
    exact ⟨fun h => (Except.ok.inj h).symm, fun h => h ▸ rfl⟩
  | cons a as ih =>
    rw [List.mapM_cons, List.forall₂_cons_left_iff]
    cases ha : f a with
    | error e => exact iff_of_false nofun (by rintro ⟨b, _, hb, -⟩; cases hb)
    | ok b =>
      cases has : as.mapM f with
      | error e =>
        refine iff_of_false nofun ?_
        rintro ⟨_, cs, -, hcs, -⟩
        cases has.symm.trans (ih.2 hcs)
      | ok cs =>
        constructor
        · intro h
          exact ⟨b, cs, rfl, ih.1 has, (Except.ok.inj h).symm⟩
        · rintro ⟨_, ds, hb, hds, rfl⟩
          obtain rfl := Except.ok.inj hb
          obtain rfl := Except.ok.inj (has.symm.trans (ih.2 hds))
          rfl

theorem exists_of_mapM_eq_ok (h : as.mapM f = .ok bs) {b : β} (hb : b ∈ bs) :
    ∃ a ∈ as, f a = .ok b := by
  have hall := mapM_eq_ok_iff.1 h
  clear h
  induction hall with
  | nil => cases hb
  | cons hab _ ih =>
    rcases List.mem_cons.1 hb with rfl | hb
    · exact ⟨_, List.mem_cons_self, hab⟩
    · obtain ⟨a, ha, hf⟩ := ih hb
      exact ⟨a, List.mem_cons_of_mem _ ha, hf⟩

/-- What each item is read back as, all of them are. -/
theorem mapM_map_eq_ok {γ : Type} {g : γ → α} {f : α → Except ε γ} {cs : List γ}
    (h : ∀ c ∈ cs, f (g c) = .ok c) : (cs.map g).mapM f = .ok cs :=
  mapM_eq_ok_iff.2 (List.forall₂_map_left_iff.2 (List.forall₂_same.2 h))

end

namespace WireRelation

/-- The priority of the relation has 64 bits. -/
def Fits (r : Relation) : Prop := ∀ n, r.priority = .explicit n → Number.IsInt64 n

theorem decodeAll_encode {rs : List Relation} (h : ∀ r ∈ rs, Fits r) :
    decodeAll (rs.map encode) = .ok rs :=
  mapM_map_eq_ok fun r hr => decode_encode (h r hr)

/-- The members of the record. -/
def members (r : Relation) : List (String × Json) :=
  ("id", .string r.target.text) ::
    ((r.priority.explicit?.map fun n => ("priority", Json.ofInt n)).toList ++
      [("profile", r.payload.toJson)])

theorem toJson_encode (r : Relation) :
    (encode r).toJson = .object (members r) := by
  cases h : r.priority <;> simp [encode, toJson, members, h, Priority.explicit?]

theorem readsBack_optionalValue (levels level : Nat) {j : Json} (h : j ≠ .null) :
    ReadsBack (Json.optional Json.readValue levels) (prettyChars level j)
      ((Json.reread levels j).map some) := by
  obtain ⟨c, cs, hp, hs, -, hn⟩ := Json.prettyChars_cons level j
  have hj := Json.readsBack_value levels level j
  rw [hp] at hj ⊢
  exact Json.readsBack_optional hs (hn h) hj

/-- What is collected from a member of the record. -/
def step (levels : Nat) (s : Draft) (e : String × Json) : Option Draft :=
  if e.1 = "id" then
    if s.id.isSome then none else e.2.string?.map fun a => { s with id := some a }
  else if e.1 = "priority" then
    if s.priority.isSome then none
    else (Json.reread levels e.2).map fun j => { s with priority := some (some j) }
  else
    if s.profile.isSome then none
    else (Json.reread levels e.2).map fun j => { s with profile := some (some j) }

theorem memberReads_id (levels level : Nat) (id : String) (s : Draft) :
    MemberReads (Json.recordMember parts levels) level ("id", .string id) s
      (step levels s ("id", .string id)) := by
  have hp : parts.find? (·.name == "id") =
      some (.of "id" Draft.id (fun a d => { d with id := some a }) Json.text) := rfl
  exact Json.memberReads_of hp (Json.skipsSpace_text levels) (Json.readsBack_text levels level id) s

theorem memberReads_value {name : String} {get : Draft → Option (Option Json)}
    {put : Option Json → Draft → Draft} {levels level : Nat} {j : Json}
    (hp : parts.find? (·.name == name) = some (.of name get put (Json.optional Json.readValue)))
    (h : j ≠ .null) (s : Draft) :
    MemberReads (Json.recordMember parts levels) level (name, j) s
      (if (get s).isSome then none else (Json.reread levels j).map fun j => put (some j) s) := by
  have hm := Json.memberReads_of hp (Json.skipsSpace_optional _ levels)
    (readsBack_optionalValue levels level h) s
  rwa [Option.map_map] at hm

theorem memberReads_priority {levels level : Nat} {j : Json} (h : j ≠ .null) (s : Draft) :
    MemberReads (Json.recordMember parts levels) level ("priority", j) s
      (step levels s ("priority", j)) := by
  have hp : parts.find? (·.name == "priority") =
      some (.of "priority" Draft.priority (fun a d => { d with priority := some a })
        (Json.optional Json.readValue)) := rfl
  exact memberReads_value hp h s

theorem memberReads_profile {levels level : Nat} {j : Json} (h : j ≠ .null) (s : Draft) :
    MemberReads (Json.recordMember parts levels) level ("profile", j) s
      (step levels s ("profile", j)) := by
  have hp : parts.find? (·.name == "profile") =
      some (.of "profile" Draft.profile (fun a d => { d with profile := some a })
        (Json.optional Json.readValue)) := rfl
  exact memberReads_value hp h s

/-- What a written priority is read as. -/
def rereadPriority : Priority → Option Priority
  | .unset => some .unset
  | .explicit n => (rereadNumber (.int n)).bind fun m => readPriority? (some (.number m))

/-- What a written relation is read as, if so many levels may be open. -/
def reread (levels : Nat) (r : Relation) : Option Relation :=
  match levels with
  | 0 => none
  | levels + 1 => (rereadPriority r.priority).bind fun priority =>
    (Json.reread levels r.payload.toJson).map fun j => ⟨r.target, priority, readProfile (some j)⟩

theorem decode_members (levels : Nat) (r : Relation) :
    (((members r).foldlM (step levels) ⟨none, none, none⟩).bind Draft.finish).bind
      (fun w => w.decode.toOption) = reread (levels + 1) r := by
  obtain ⟨target, priority, payload⟩ := r
  -- each member is read or not, and the first that is not decides
  cases priority with
  | unset =>
    cases hj : Json.reread levels payload.toJson with
    | none => simp [members, step, reread, rereadPriority, Priority.explicit?, hj]
    | some j =>
      simp [members, step, reread, rereadPriority, Priority.explicit?, hj,
        Json.string?, Draft.finish, decode, readPriority?, Except.toOption]
  | explicit n =>
    cases hn : rereadNumber (.int n) with
    | none =>
      simp [members, step, reread, rereadPriority, Priority.explicit?, Json.reread, Json.ofInt, hn]
    | some m =>
      cases hj : Json.reread levels payload.toJson with
      | none =>
        simp [members, step, reread, rereadPriority, Priority.explicit?, Json.reread,
          Json.ofInt, hn, hj]
      | some j =>
        cases hp : readPriority? (some (.number m)) <;>
          simp [members, step, reread, rereadPriority, Priority.explicit?, Json.reread,
            Json.ofInt, hn, hj, hp, Json.string?, Draft.finish, decode, Except.toOption]

/-- The text of a relation is read as `reread` says. -/
theorem readsBack_relation (levels level : Nat) (r : Relation) :
    ReadsBack (relationDecoder levels) (prettyChars level (encode r).toJson) (reread levels r) := by
  rw [toJson_encode]
  cases levels with
  | zero =>
    intro rest _
    rw [Json.prettyChars_object]
    rfl
  | succ levels =>
    have hpayload : r.payload.toJson ≠ .null := nofun
    have hm : ∀ e ∈ members r, ∀ s,
        MemberReads (Json.recordMember parts levels) (level + 1) e s (step levels s e) := by
      intro e he s
      rcases List.mem_cons.1 he with rfl | he
      · exact memberReads_id levels (level + 1) r.target.text s
      rcases List.mem_append.1 he with he | he
      · obtain ⟨n, -, rfl⟩ := Option.map_eq_some_iff.1 (Option.mem_toList.1 he)
        exact memberReads_priority (by simp [Json.ofInt]) s
      · obtain rfl := List.mem_singleton.1 he
        exact memberReads_profile hpayload s
    rw [← decode_members]
    exact Json.readsBack_checked (Json.readsBack_record hm)

theorem readsBack_relations (levels level : Nat) (rs : List Relation) :
    ReadsBack (Json.list relationDecoder (levels + 1)) (prettyChars level (listJson rs))
      (rs.mapM (reread levels)) :=
  Json.readsBack_list fun r _ => readsBack_relation levels (level + 1) r

theorem target_of_reread {levels : Nat} {r s : Relation} (h : reread levels r = some s) :
    s.target = r.target := by
  cases levels with
  | zero => cases h
  | succ levels =>
    obtain ⟨priority, -, h⟩ := Option.bind_eq_some_iff.1 h
    obtain ⟨j, -, rfl⟩ := Option.map_eq_some_iff.1 h
    rfl

/-- The relations that are read are those to the same targets. -/
theorem targets_of_reread {levels : Nat} {rs ss : List Relation}
    (h : rs.mapM (reread levels) = some ss) : Relation.targets ss = Relation.targets rs := by
  induction rs generalizing ss with
  | nil =>
    obtain rfl := Option.some.inj h
    rfl
  | cons r rs ih =>
    cases hr : reread levels r with
    | none =>
      rw [List.mapM_cons, hr] at h
      cases h
    | some s =>
      rw [Json.mapM_cons_of_some hr] at h
      obtain ⟨ts, hts, rfl⟩ := Option.map_eq_some_iff.1 h
      rw [Relation.targets_cons, Relation.targets_cons, ih hts, target_of_reread hr]

/-- Whether a relation is such as readers make them: its priority has 64 bits, and so have the
integers in its payload, whose fields stand in name order. -/
structure Formed (r : Relation) : Prop where
  priority : ∀ n, r.priority = .explicit n → Number.IsInt64 n
  payload : Json.All Json.Formed r.payload.toJson

theorem rereadPriority_eq_some {p : Priority} (h : ∀ n, p = .explicit n → Number.IsInt64 n) :
    rereadPriority p = some p := by
  cases p with
  | unset => rfl
  | explicit n =>
    have hn := h n rfl
    rw [rereadPriority, Json.rereadNumber_int (Json.isWord_of_isInt64 hn), Option.bind_some]
    exact readPriority?_encode h

/-- A relation whose payload is not nested too deeply is read back. -/
theorem reread_eq_some {levels : Nat} {r : Relation} (hf : Formed r)
    (he : Json.All Json.Exact r.payload.toJson) (hd : r.payload.toJson.depth ≤ levels) :
    reread (levels + 1) r = some r := by
  rw [reread, rereadPriority_eq_some hf.priority, Option.bind_some,
    Json.reread_eq_some hf.payload he hd, Option.map_some]
  have hp : readProfile (some r.payload.toJson) = r.payload := by
    show (Payload.ofJson? r.payload.toJson).getD .empty = r.payload
    rw [Payload.ofJson?_toJson]
    rfl
  rw [hp]

theorem reread_eq_none {levels : Nat} {r : Relation} (h : levels < r.payload.toJson.depth) :
    reread (levels + 1) r = none := by
  rw [reread, Json.reread_eq_none h]
  cases rereadPriority r.priority <;> rfl

end WireRelation

namespace DesiredSet

/-- What a written set is read as. -/
def reread (levels : Nat) (set : DesiredSet) : Option DesiredSet :=
  (set.relations.mapM (WireRelation.reread levels)).bind fun rs => (ofRelations rs).toOption

theorem readsBack_desired (levels level : Nat) (set : DesiredSet) :
    ReadsBack (decoder (levels + 1)) (prettyChars level set.toJson) (reread levels set) :=
  Json.readsBack_checked (WireRelation.readsBack_relations levels level set.relations)

theorem relations_of_ofRelations {rs : List Relation} {set : DesiredSet}
    (h : ofRelations rs = .ok set) :
    set.relations = rs := by
  unfold ofRelations at h
  split at h
  · cases h
  · cases h
    rfl

theorem ofRelations_relations (set : DesiredSet) : ofRelations set.relations = .ok set := by
  unfold ofRelations
  split
  · rename_i error h
    rw [firstFault_eq_none_iff.2 ⟨set.named, set.distinct, fun _ _ => List.not_mem_nil⟩] at h
    cases h
  · rfl

/-- The set that is read has the same targets. -/
theorem targets_of_reread {levels : Nat} {set t : DesiredSet} (h : reread levels set = some t) :
    t.targets = set.targets := by
  obtain ⟨rs, hrs, h⟩ := Option.bind_eq_some_iff.1 h
  cases ho : ofRelations rs with
  | error e =>
    rw [ho] at h
    cases h
  | ok u =>
    rw [ho] at h
    obtain rfl : u = t := Option.some.inj h
    rw [targets, relations_of_ofRelations ho]
    exact WireRelation.targets_of_reread hrs

theorem reread_eq_some {levels : Nat} {set : DesiredSet}
    (h : ∀ r ∈ set.relations, WireRelation.reread levels r = some r) :
    reread levels set = some set := by
  have hm : set.relations.mapM (WireRelation.reread levels) = some set.relations :=
    Json.mapM_eq_self h
  rw [reread, hm, Option.bind_some, ofRelations_relations]
  rfl

theorem reread_eq_none {levels : Nat} {set : DesiredSet} {r : Relation} (hr : r ∈ set.relations)
    (h : WireRelation.reread levels r = none) : reread levels set = none := by
  rw [reread, Json.mapM_eq_none hr h]
  rfl

end DesiredSet

end Roster
