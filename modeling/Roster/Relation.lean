/-
Relations: the membership edges of an owner.

A relation names a target, may ask for a priority and carries a payload.  An unset priority asks for
nothing; the explicit priority 0 is a priority like any other.

* `find?_eq_some`: what a lookup by target finds has that target and stands in the list.
-/
import Roster.Payload

namespace Roster

/-- The name of the side that owns relations. -/
structure OwnerId where
  text : String
  deriving DecidableEq, Hashable, Repr

/-- The name of the other side of a relation, unique among the relations of an owner. -/
structure TargetId where
  text : String
  deriving DecidableEq, Hashable, Repr

def TargetId.sort (targets : List TargetId) : List TargetId :=
  targets.mergeSort fun a b => decide (a.text ≤ b.text)

/-- The priority that a relation asks for, if any. -/
inductive Priority where
  | unset
  | explicit (value : Int)
  deriving DecidableEq, Repr

namespace Priority

instance : Inhabited Priority := ⟨unset⟩

def isExplicit : Priority → Bool
  | unset => false
  | explicit _ => true

/-- The priority that is asked for. -/
def explicit? : Priority → Option Int
  | unset => none
  | explicit n => some n

/-- The priority of a number that may be missing. -/
def ofOption : Option Int → Priority
  | none => unset
  | some n => explicit n

/-- A hyphen, or the number in decimal. -/
def text : Priority → String
  | unset => "-"
  | explicit n => Text.Decimal.intText n

theorem ofOption_explicit? (p : Priority) : ofOption p.explicit? = p := by cases p <;> rfl

end Priority

/-- One membership edge. -/
structure Relation where
  target : TargetId
  priority : Priority
  payload : Payload

namespace Relation

/-- The relation to a target that asks for nothing and says nothing. -/
def bare (target : TargetId) : Relation := ⟨target, .unset, .empty⟩

/-- Equality of relations, numbers in payloads being compared numerically. -/
def same (r s : Relation) : Bool :=
  r.target == s.target && r.priority == s.priority && r.payload.same s.payload

/-- Equality of lists of relations, item by item. -/
def sameList : List Relation → List Relation → Bool
  | [], [] => true
  | r :: rs, s :: ss => r.same s && sameList rs ss
  | _, _ => false

/-- The first relation to a target. -/
def find? (target : TargetId) (relations : List Relation) : Option Relation :=
  List.find? (fun r => r.target == target) relations

/-- The targets of some relations, in order. -/
def targets (relations : List Relation) : List TargetId := relations.map (·.target)

theorem find?_eq_some {target : TargetId} {relations : List Relation} {r : Relation}
    (h : find? target relations = some r) : r.target = target ∧ r ∈ relations :=
  ⟨by simpa using List.find?_some h, List.mem_of_find?_eq_some h⟩

theorem mem_targets_of_find? {target : TargetId} {relations : List Relation} {r : Relation}
    (h : find? target relations = some r) : target ∈ targets relations :=
  List.mem_map.2 ⟨r, (find?_eq_some h).2, (find?_eq_some h).1⟩

theorem find?_eq_none_iff {target : TargetId} {relations : List Relation} :
    find? target relations = none ↔ target ∉ targets relations := by
  simp only [find?, List.find?_eq_none, beq_iff_eq, targets, List.mem_map, not_exists, not_and]

end Relation

end Roster
