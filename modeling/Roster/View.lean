/-
Views: what an owner sees of the relations that a remote confirms.

A view lists the declared targets that the remote has, in declared order, and then the relations
that the remote has and nobody declared, in the order in which it reported them.  Of a declared
target the view shows the confirmed priority only if one was asked for, and the fields that the
owner was shown before, refreshed with the confirmed values.

A listing is observed in two rounds: one through the declaration, and one through the listing
itself, which takes up every target that was not met before.

* `mem_targets_firsts_iff`, `nodup_targets_firsts`: taking the first relation of each target keeps
  all targets and repeats none;
* `targets_declaredPart`: the declared part lists the declared targets that the remote has;
* `foldl_look`, `foldl_discover`: what the two rounds add, and `of_eq`: the observation that they
  make.
-/
import Roster.DesiredSet

namespace Roster

namespace Relation

/-- The first relation to each target that is not among those given, in order. -/
def firsts (seen : List TargetId) : List Relation → List Relation
  | [] => []
  | r :: rest => if r.target ∈ seen then firsts seen rest else r :: firsts (r.target :: seen) rest

theorem mem_targets_firsts_iff {seen : List TargetId} {relations : List Relation} {id : TargetId} :
    id ∈ targets (firsts seen relations) ↔ id ∈ targets relations ∧ id ∉ seen := by
  induction relations generalizing seen with
  | nil => simp [firsts, targets]
  | cons r rest ih =>
    rw [firsts]
    split
    · rename_i h
      rw [ih]
      constructor
      · rintro ⟨h1, h2⟩
        exact ⟨List.mem_cons_of_mem _ h1, h2⟩
      · rintro ⟨h1, h2⟩
        rcases List.mem_cons.1 h1 with rfl | h1
        · exact absurd h h2
        · exact ⟨h1, h2⟩
    · rename_i h
      have hc : targets (r :: firsts (r.target :: seen) rest) =
          r.target :: targets (firsts (r.target :: seen) rest) := rfl
      rw [hc, List.mem_cons, ih]
      constructor
      · rintro (rfl | ⟨h1, h2⟩)
        · exact ⟨List.mem_cons_self, h⟩
        · exact ⟨List.mem_cons_of_mem _ h1, fun h3 => h2 (List.mem_cons_of_mem _ h3)⟩
      · rintro ⟨h1, h2⟩
        rcases List.mem_cons.1 h1 with h1 | h1
        · exact .inl h1
        · rcases Decidable.em (id = r.target) with he | he
          · exact .inl he
          · exact .inr ⟨h1, fun h3 => (List.mem_cons.1 h3).elim he h2⟩

/-- Only the targets of the relations matter among those given. -/
theorem firsts_congr {seen known : List TargetId} {relations : List Relation}
    (h : ∀ id ∈ targets relations, id ∈ seen ↔ id ∈ known) :
    firsts seen relations = firsts known relations := by
  induction relations generalizing seen known with
  | nil => rfl
  | cons r rest ih =>
    have hrest : ∀ id ∈ targets rest, id ∈ seen ↔ id ∈ known :=
      fun id hid => h id (List.mem_cons_of_mem _ hid)
    rw [firsts, firsts, ih hrest]
    by_cases hr : r.target ∈ seen
    · rw [if_pos hr, if_pos ((h _ List.mem_cons_self).1 hr)]
    · rw [if_neg hr, if_neg fun hk => hr ((h _ List.mem_cons_self).2 hk)]
      refine congrArg (r :: ·) (ih fun id hid => ?_)
      rw [List.mem_cons, List.mem_cons, hrest id hid]

theorem nodup_targets_firsts (seen : List TargetId) (relations : List Relation) :
    (targets (firsts seen relations)).Nodup := by
  induction relations generalizing seen with
  | nil => simp [firsts, targets]
  | cons r rest ih =>
    rw [firsts]
    split
    · exact ih seen
    · refine List.nodup_cons.2 ⟨fun h => ?_, ih _⟩
      exact (mem_targets_firsts_iff.1 h).2 List.mem_cons_self

end Relation

/-- What a listing of the remote amounts to for an owner. -/
structure Observation where
  view : List Relation
  /-- The targets that the remote has and nobody declared. -/
  drift : List TargetId
  /-- The declared targets that the remote lacks. -/
  dropped : List TargetId

namespace Observation

/-- The payload that says which fields of a declared target are shown. -/
def tracked (prior : List Relation) (declared : Relation) : Payload :=
  match Relation.find? declared.target prior with
  | some seen => seen.payload
  | none => declared.payload

/-- How a declared relation is shown once the remote has confirmed it. -/
def shown (prior : List Relation) (declared confirmed : Relation) : Relation where
  target := confirmed.target
  priority := if declared.priority.isExplicit then confirmed.priority else .unset
  payload := (tracked prior declared).refreshedFrom confirmed.payload

/-- An observation under way. -/
structure Progress extends Observation where
  /-- The targets that were met so far. -/
  matched : List TargetId

/-- Looks for a declared target among the relations that the remote has. -/
def look (prior actual : List Relation) (p : Progress) (declared : Relation) : Progress :=
  match Relation.find? declared.target actual with
  | none => { p with dropped := p.dropped ++ [declared.target] }
  | some confirmed =>
    { p with view := p.view ++ [shown prior declared confirmed], matched :=
      declared.target :: p.matched }

/-- Takes up a relation that the remote has, unless its target was met before. -/
def discover (p : Progress) (r : Relation) : Progress :=
  if r.target ∈ p.matched then p
  else { p with view := p.view ++ [r], drift := p.drift ++ [r.target], matched :=
    r.target :: p.matched }

/-- The observation of a listing, given the view that was shown before. -/
def of (desired : DesiredSet) (prior actual : List Relation) : Observation :=
  (actual.foldl discover
    (desired.relations.foldl (look prior actual) ⟨⟨[], [], []⟩, []⟩)).toObservation

/-! ### The parts of a view -/

/-- The declared targets that the remote has, as they are shown. -/
def declaredPart (desired : DesiredSet) (prior actual : List Relation) : List Relation :=
  desired.relations.filterMap fun d => (Relation.find? d.target actual).map (shown prior d)

/-- The relations that the remote has and nobody declared. -/
def undeclaredPart (desired : DesiredSet) (actual : List Relation) : List Relation :=
  Relation.firsts desired.targets actual

theorem targets_declaredPart (desired : DesiredSet) (prior actual : List Relation) :
    Relation.targets (declaredPart desired prior actual) =
      desired.targets.filter fun id => id ∈ Relation.targets actual := by
  have key : ∀ ds : List Relation,
      Relation.targets (ds.filterMap fun d =>
        (Relation.find? d.target actual).map (shown prior d)) =
        (Relation.targets ds).filter fun id => id ∈ Relation.targets actual := by
    intro ds
    induction ds with
    | nil => rfl
    | cons d ds ih =>
      have hc : Relation.targets (d :: ds) = d.target :: Relation.targets ds := rfl
      rw [hc, List.filter_cons, ← ih]
      cases h : Relation.find? d.target actual with
      | none =>
        rw [List.filterMap_cons, h]
        simp [Relation.find?_eq_none_iff.1 h]
      | some r =>
        have hm : d.target ∈ Relation.targets actual := Relation.mem_targets_of_find? h
        have ht : (shown prior d r).target = d.target := (Relation.find?_eq_some h).1
        rw [List.filterMap_cons, h, if_pos (by simpa using hm)]
        exact congrArg (· :: _) ht
  exact key desired.relations

/-- What looking for declared targets adds: those that the remote has are shown and met, the others
dropped. -/
theorem foldl_look (prior actual : List Relation) (ds : List Relation) (p : Progress) :
    ds.foldl (look prior actual) p =
      { view := p.view ++ ds.filterMap fun d => (Relation.find? d.target actual).map (shown prior d)
        drift := p.drift
        dropped := p.dropped ++ (Relation.targets ds).filter fun id => id ∉ Relation.targets actual
        matched := ((Relation.targets ds).filter fun id => id ∈ Relation.targets actual).reverse ++
          p.matched } := by
  induction ds generalizing p with
  | nil => simp [Relation.targets]
  | cons d ds ih =>
    have hc : Relation.targets (d :: ds) = d.target :: Relation.targets ds := rfl
    rw [List.foldl_cons, ih, look, List.filterMap_cons, hc, List.filter_cons, List.filter_cons]
    cases h : Relation.find? d.target actual with
    | none =>
      have hm : d.target ∉ Relation.targets actual := Relation.find?_eq_none_iff.1 h
      simp [hm]
    | some confirmed =>
      have hm : d.target ∈ Relation.targets actual := Relation.mem_targets_of_find? h
      simp [hm]

/-- What going through the listing adds: the first relation to each target that was not met
before. -/
theorem foldl_discover (rs : List Relation) (p : Progress) :
    (rs.foldl discover p).toObservation =
      { view := p.view ++ Relation.firsts p.matched rs
        drift := p.drift ++ Relation.targets (Relation.firsts p.matched rs)
        dropped := p.dropped } := by
  induction rs generalizing p with
  | nil => simp [Relation.firsts, Relation.targets]
  | cons r rs ih =>
    rw [List.foldl_cons, ih, discover, Relation.firsts]
    split
    · rfl
    · simp [Relation.targets]

/-- The two rounds show the declared part and then the rest of the listing. -/
theorem of_eq (desired : DesiredSet) (prior actual : List Relation) :
    of desired prior actual =
      { view := declaredPart desired prior actual ++ undeclaredPart desired actual
        drift := Relation.targets (undeclaredPart desired actual)
        dropped := desired.targets.filter fun id => id ∉ Relation.targets actual } := by
  -- a declared target that was not met does not occur in the listing
  have hmet : Relation.firsts
      ((desired.targets.filter fun id => id ∈ Relation.targets actual).reverse ++ []) actual =
      undeclaredPart desired actual :=
    Relation.firsts_congr fun id hid => by simp [hid]
  rw [of, foldl_look, foldl_discover]
  simp only [List.nil_append]
  rw [← DesiredSet.targets, hmet]
  rfl

end Observation

end Roster
