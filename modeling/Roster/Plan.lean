/-
Plans: the operations that lead from one desired set to another.

The targets that the old set has and the new one lacks are deleted; every relation of the new set is
sent, changed or not, because sending a relation again is harmless and undoes changes made
elsewhere.

* `mem_toDelete_between`: what a plan deletes;
* `unified_eq_empty_iff`: two sets show no difference exactly if their lines are the same.
-/
import Roster.DesiredSet
import Roster.Text.Unified

namespace Roster

/-- Targets to delete and relations to send, each in order. -/
structure Plan where
  toDelete : List TargetId
  toUpsert : List Relation

namespace Plan

def operations (p : Plan) : Nat := p.toDelete.length + p.toUpsert.length

/-- The plan that leads from an old set to a new one. -/
def between (old new : DesiredSet) : Plan where
  toDelete := old.targets.filter fun id => id ∉ new.targets
  toUpsert := new.relations

theorem mem_toDelete_between {old new : DesiredSet} {id : TargetId} :
    id ∈ (between old new).toDelete ↔ id ∈ old.targets ∧ id ∉ new.targets := by
  simp [between]

end Plan

namespace DesiredSet

def lineText (r : Relation) : String :=
  r.target.text ++ " priority=" ++ r.priority.text ++ " profile=" ++ r.payload.text ++ "\n"

def linesText (set : DesiredSet) : String := String.join (set.relations.map lineText)

def unified (old new : DesiredSet) (label : String) : String :=
  Text.unified old.linesText new.linesText ("a/" ++ label) ("b/" ++ label)

theorem unified_eq_empty_iff {old new : DesiredSet} {label : String} :
    unified old new label = "" ↔ old.linesText = new.linesText := by
  unfold unified Text.unified
  split
  · simp [*]
  · rename_i h
    simp only [h, iff_false]
    intro he
    have := congrArg String.toList he
    simp at this

end DesiredSet

end Roster
