/-
Desired sets: what an owner's membership is declared to be.

A desired set is a list of relations in declared order, each to a target of its own whose name is
not empty.  `DesiredSet.ofRelations` finds the first relation that breaks this.

* `firstFault_eq_none_iff`: no fault is found exactly if the relations form a desired set.
-/
import Roster.Relation.Wire

namespace Roster

/-- Relations to distinct targets with names that are not empty. -/
structure DesiredSet where
  relations : List Relation
  named : ∀ r ∈ relations, r.target.text ≠ ""
  distinct : (Relation.targets relations).Nodup

namespace DesiredSet

def empty : DesiredSet := ⟨[], nofun, List.nodup_nil⟩

/-- The first fault of relations that start at an index and follow relations to the seen targets. -/
def firstFault (index : Nat) (seen : List TargetId) : List Relation → Option RelationError
  | [] => none
  | r :: rest =>
    if r.target.text = "" then some (.missingTarget index)
    else if r.target ∈ seen then some (.duplicateTarget r.target)
    else firstFault (index + 1) (r.target :: seen) rest

theorem firstFault_eq_none_iff {index : Nat} {seen : List TargetId} {relations : List Relation} :
    firstFault index seen relations = none ↔
      (∀ r ∈ relations, r.target.text ≠ "") ∧ (Relation.targets relations).Nodup ∧
        ∀ r ∈ relations, r.target ∉ seen := by
  induction relations generalizing index seen with
  | nil => simp [firstFault, Relation.targets]
  | cons r rest ih =>
    rw [firstFault]
    split
    · rename_i h; simp [h]
    · split
      · rename_i h; simp [h]
      · rename_i hn hs
        rw [ih]
        simp only [Relation.targets, List.map_cons, List.nodup_cons, List.mem_map, List.mem_cons,
          forall_eq_or_imp, not_or]
        constructor
        · rintro ⟨h1, h2, h3⟩
          refine ⟨⟨hn, h1⟩, ⟨?_, h2⟩, hs, fun s hs => (h3 s hs).2⟩
          rintro ⟨s, hs, he⟩
          exact (h3 s hs).1 he
        · rintro ⟨⟨_, h1⟩, ⟨h2, h3⟩, _, h4⟩
          exact ⟨h1, h3, fun s hs => ⟨fun he => h2 ⟨s, hs, he⟩, h4 s hs⟩⟩

/-- The desired set of some relations, or their first fault. -/
def ofRelations (relations : List Relation) : Except RelationError DesiredSet :=
  match h : firstFault 0 [] relations with
  | some error => .error error
  | none => .ok ⟨relations, (firstFault_eq_none_iff.1 h).1, (firstFault_eq_none_iff.1 h).2.1⟩

def ofWire (ws : List WireRelation) : Except RelationError DesiredSet := do
  ofRelations (← WireRelation.decodeAll ws)

/-- The targets, in declared order. -/
def targets (set : DesiredSet) : List TargetId := Relation.targets set.relations

def find? (set : DesiredSet) (target : TargetId) : Option Relation :=
  Relation.find? target set.relations

def contains (set : DesiredSet) (target : TargetId) : Bool := (set.find? target).isSome

def toJson (set : DesiredSet) : Json := WireRelation.listJson set.relations

/-- Reads a desired set from JSON text; relations that form none are a fault of shape. -/
def decoder : Json.Decoder DesiredSet :=
  Json.checked (Json.list WireRelation.relationDecoder) fun rs => (ofRelations rs).toOption

end DesiredSet

end Roster
