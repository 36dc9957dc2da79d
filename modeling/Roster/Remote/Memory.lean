/-
A remote in memory.

It holds the relations of its owners in the order in which they were first sent.  It may renumber
the explicit priorities of an owner to 1, 2, … after each upsert, in the order of the priorities
that were last asked for; it may pin the priority of a target to a value; and it may refuse chosen
operations on chosen targets.  Every request is recorded.

* `targets_putFirst_of_mem`: sending a relation to a target that is there keeps the order.
-/
import Roster.Remote

namespace Roster

/-- A request that a remote was sent. -/
inductive Call where
  | upsert (owner : OwnerId) (target : TargetId)
  | delete (owner : OwnerId) (target : TargetId)
  | list (owner : OwnerId)
  deriving DecidableEq, Repr

/-- The state of a remote in memory. -/
structure MemoryRemote where
  /-- The relations of each owner, by the owner's name. -/
  owners : List (String × List Relation)
  /-- Whether explicit priorities are renumbered after each upsert. -/
  compacting : Bool
  /-- The priority that a target is confirmed with, whatever is asked for. -/
  pinned : TargetId → Option Int
  /-- The priority that was last asked for. -/
  requested : OwnerId → TargetId → Option Int
  /-- The operations that are refused. -/
  failures : Operation → TargetId → Option RemoteError
  /-- The requests so far, in order. -/
  calls : List Call

namespace MemoryRemote

def ofOwners (owners : List (String × List Relation)) : MemoryRemote :=
  ⟨Fields.ofList owners, false, fun _ => none, fun _ _ => none, fun _ _ => none, []⟩

def empty : MemoryRemote := ofOwners []

def relations? (m : MemoryRemote) (owner : OwnerId) : Option (List Relation) :=
  Fields.get? owner.text m.owners

def setRelations (m : MemoryRemote) (owner : OwnerId) (relations : List Relation) : MemoryRemote :=
  { m with owners := Fields.insert owner.text relations m.owners }

/-- Adds an owner without relations, unless it is there. -/
def addOwner (m : MemoryRemote) (owner : OwnerId) : MemoryRemote :=
  match m.relations? owner with
  | some _ => m
  | none => m.setRelations owner []

/-- Sets what was last asked for. -/
def request (m : MemoryRemote) (owner : OwnerId) (target : TargetId) (value : Option Int) :
    MemoryRemote :=
  { m with requested := fun o t => if o = owner ∧ t = target then value else m.requested o t }

def pin (m : MemoryRemote) (target : TargetId) (value : Int) : MemoryRemote :=
  { m with pinned := fun t => if t = target then some value else m.pinned t }

def failOn (m : MemoryRemote) (operation : Operation) (target : TargetId) (error : RemoteError) :
    MemoryRemote :=
  { m with
    failures := fun o t => if o = operation ∧ t = target then some error else m.failures o t }

def record (m : MemoryRemote) (call : Call) : MemoryRemote := { m with calls := m.calls ++ [call] }

def clearCalls (m : MemoryRemote) : MemoryRemote := { m with calls := [] }

/-- Puts a relation in the place of the first one to its target, or at the end. -/
def putFirst (r : Relation) : List Relation → List Relation
  | [] => [r]
  | s :: rest => if s.target = r.target then r :: rest else s :: putFirst r rest

def seed (m : MemoryRemote) (owner : OwnerId) (r : Relation) : MemoryRemote :=
  (m.request owner r.target r.priority.explicit?).setRelations owner
    (putFirst r ((m.relations? owner).getD []))

/-- The relations that are renumbered, as the priority that counts and their position: those with an
explicit priority whose target is not pinned. -/
def slots (m : MemoryRemote) (owner : OwnerId) (relations : List Relation) : List (Int × Nat) :=
  relations.zipIdx.filterMap fun (r, i) =>
    match m.pinned r.target, r.priority.explicit? with
    | none, some stored => some ((m.requested owner r.target).getD stored, i)
    | _, _ => none

/-- The positions that are renumbered, in the order of their new numbers. -/
def ranking (m : MemoryRemote) (owner : OwnerId) (relations : List Relation) : List Nat :=
  ((m.slots owner relations).mergeSort fun a b => decide (a.1 ≤ b.1)).map (·.2)

/-- The relation at a position, renumbered if it has a rank. -/
def renumber (ranking : List Nat) (i : Nat) (r : Relation) : Relation :=
  match ranking.idxOf? i with
  | some rank => { r with priority := .explicit (rank + 1) }
  | none => r

def compacted (m : MemoryRemote) (owner : OwnerId) (relations : List Relation) : List Relation :=
  relations.mapIdx (renumber (m.ranking owner relations))

/-- The relation as the remote keeps it. -/
def stored (m : MemoryRemote) (r : Relation) : Relation :=
  match m.pinned r.target with
  | some value => { r with priority := .explicit value }
  | none => r

def relationsAfter (m : MemoryRemote) (owner : OwnerId) (r : Relation) (relations : List Relation) :
    List Relation :=
  let relations := putFirst (m.stored r) relations
  if m.compacting then m.compacted owner relations else relations

/-- Answers an upsert. -/
def upsert (owner : OwnerId) (r : Relation) (m : MemoryRemote) :
    Except RemoteError Unit × MemoryRemote :=
  let m := m.record (.upsert owner r.target)
  match m.failures .upsert r.target, m.relations? owner with
  | some error, _ => (.error error, m)
  | none, none => (.error .notFound, m)
  | none, some relations =>
    let m := m.request owner r.target r.priority.explicit?
    (.ok (), m.setRelations owner (m.relationsAfter owner r relations))

/-- Answers a delete. -/
def delete (owner : OwnerId) (target : TargetId) (m : MemoryRemote) :
    Except RemoteError Unit × MemoryRemote :=
  let m := m.record (.delete owner target)
  match m.failures .delete target, m.relations? owner with
  | some error, _ => (.error error, m)
  | none, none => (.error .notFound, m)
  | none, some relations =>
    let kept := relations.filter fun r => r.target ≠ target
    if kept.length = relations.length then (.error .notFound, m)
    else (.ok (), (m.request owner target none).setRelations owner kept)

/-- Answers a listing. -/
def list (owner : OwnerId) (m : MemoryRemote) :
    Except RemoteError (List Relation) × MemoryRemote :=
  let m := m.record (.list owner)
  match m.relations? owner with
  | some relations => (.ok relations, m)
  | none => (.error .notFound, m)

def remote : Remote MemoryRemote := ⟨upsert, delete, list⟩

theorem targets_putFirst_of_mem {r : Relation} {relations : List Relation}
    (h : r.target ∈ Relation.targets relations) :
    Relation.targets (putFirst r relations) = Relation.targets relations := by
  induction relations with
  | nil => cases h
  | cons s rest ih =>
    rw [putFirst]
    split
    · rename_i he
      simp [Relation.targets, he]
    · rename_i hne
      have : r.target ∈ Relation.targets rest := by
        rcases List.mem_cons.1 h with he | hm
        · exact absurd he.symm hne
        · exact hm
      have := ih this
      simp only [Relation.targets] at this
      simp [Relation.targets, this]

theorem target_renumber (ranking : List Nat) (i : Nat) (r : Relation) :
    (renumber ranking i r).target = r.target := by
  unfold renumber; split <;> rfl

end MemoryRemote

end Roster
