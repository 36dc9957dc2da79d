/-
Cycles: one owner's relations brought to a declaration and looked at again.

A cycle plans against the set that was applied last, carries the plan out, lists what the remote
holds now and observes it.  Looking alone changes nothing, and clearing deletes every declared
relation.
-/
import Roster.Batch

namespace Roster

/-- Why a cycle ends early. -/
inductive CycleError where
  | batch (error : BatchError)
  /-- The relations of the owner could not be listed. -/
  | listing (owner : OwnerId) (cause : RemoteError)
  /-- The remote does not know the owner. -/
  | ownerNotFound (owner : OwnerId)
  deriving DecidableEq

/-- The error in words. -/
def CycleError.message : CycleError → String
  | batch error => error.message
  | listing owner cause =>
    "listing relations of owner '" ++ owner.text ++ "' failed: " ++ cause.message
  | ownerNotFound owner => "owner '" ++ owner.text ++ "' not found"

/-- What lies behind the error, in words. -/
def CycleError.causes : CycleError → List String
  | batch error => [error.cause.message]
  | listing _ cause => [cause.message]
  | ownerNotFound _ => []

/-- What a cycle comes to. -/
structure Reconciliation where
  owner : OwnerId
  /-- What became of the operations; none if the cycle only looked. -/
  applied : List Applied
  observation : Observation
  ordering : OrderReport

namespace Cycle

variable {σ : Type}

/-- Lists the relations of an owner. -/
def fetch (remote : Remote σ) (owner : OwnerId) : Action σ CycleError (List Relation) := fun s =>
  match remote.list owner s with
  | (.ok relations, t) => ⟨.ok relations, t, []⟩
  | (.error .notFound, t) => ⟨.error (.ownerNotFound owner), t, []⟩
  | (.error cause, t) => ⟨.error (.listing owner cause), t, []⟩

def observe (owner : OwnerId) (desired : DesiredSet) (prior actual : List Relation) :
    Reconciliation :=
  let observation := Observation.of desired prior actual
  ⟨owner, [], observation, OrderReport.check desired observation.view⟩

def observeNotices (r : Reconciliation) : List Notice :=
  r.observation.notices ++ r.ordering.notices ++
    if r.observation.drift.isEmpty then [] else [.drifted r.owner r.observation.drift.length]

/-- Looks at the remote. -/
def read (remote : Remote σ) (owner : OwnerId) (desired : DesiredSet) (prior : List Relation) :
    Action σ CycleError Reconciliation := do
  let actual ← fetch remote owner
  let r := observe owner desired prior actual
  Action.note (observeNotices r)
  pure r

/-- A batch as a part of a cycle. -/
def ofBatch {α : Type} (x : Action σ BatchError α) : Action σ CycleError α := fun s =>
  let o := x s
  ⟨o.result.mapError .batch, o.state, o.log⟩

/-- Brings the remote to a declaration, or rehearses it, and looks at the remote. -/
def reconcile (remote : Remote σ) (owner : OwnerId) (rehearse : Bool)
    (previous desired : DesiredSet) (prior : List Relation) :
    Action σ CycleError Reconciliation := do
  let plan := Plan.between previous desired
  Action.note [.started owner plan.toDelete.length plan.toUpsert.length]
  let applied ← ofBatch (Batch.apply remote owner rehearse plan)
  let r ← read remote owner desired prior
  pure { r with applied := applied }

/-- Deletes every declared relation, or rehearses it. -/
def clear (remote : Remote σ) (owner : OwnerId) (rehearse : Bool) (desired : DesiredSet) :
    Action σ CycleError (List Applied) :=
  ofBatch (Batch.deleteAll remote owner rehearse desired.targets)

end Cycle

end Roster
