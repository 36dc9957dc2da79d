/-
Batches: the operations of a plan, carried out on a remote.

All deletes come first and all upserts after them, each in plan order, and the first failure ends
the batch; what was done before it stays done.  Deleting what is already gone is no failure, so that
a batch can be carried out again.  A rehearsal asks the remote nothing and answers what would be
done.

* `run_rehearsal`: a rehearsal leaves the remote as it is.
-/
import Roster.Action
import Roster.Plan
import Roster.Remote

namespace Roster

/-- What became of one operation. -/
inductive Applied where
  | deleted (target : TargetId)
  | alreadyAbsent (target : TargetId)
  | upserted (target : TargetId)
  | wouldDelete (target : TargetId)
  | wouldUpsert (target : TargetId)
  deriving DecidableEq

/-- The target of the operation. -/
def Applied.target : Applied → TargetId
  | deleted target => target
  | alreadyAbsent target => target
  | upserted target => target
  | wouldDelete target => target
  | wouldUpsert target => target

/-- An operation that the remote refused. -/
structure BatchError where
  operation : Operation
  target : TargetId
  cause : RemoteError
  deriving DecidableEq

def BatchError.message (e : BatchError) : String :=
  e.operation.text ++ " of target '" ++ e.target.text ++ "' failed: " ++ e.cause.message

namespace Batch

variable {σ : Type}

/-- Deletes one target. -/
def deleteOne (remote : Remote σ) (owner : OwnerId) (target : TargetId) :
    Action σ BatchError Applied := fun s =>
  match remote.delete owner target s with
  | (.ok (), t) => ⟨.ok (.deleted target), t, [.deleted owner target]⟩
  | (.error .notFound, t) => ⟨.ok (.alreadyAbsent target), t, [.alreadyAbsent owner target]⟩
  | (.error cause, t) => ⟨.error ⟨.delete, target, cause⟩, t, []⟩

/-- Sends one relation. -/
def upsertOne (remote : Remote σ) (owner : OwnerId) (relation : Relation) :
    Action σ BatchError Applied := fun s =>
  match remote.upsert owner relation s with
  | (.ok (), t) =>
    ⟨.ok (.upserted relation.target), t, [.upserted owner relation.target relation.priority]⟩
  | (.error cause, t) => ⟨.error ⟨.upsert, relation.target, cause⟩, t, []⟩

/-- Says that a target would be deleted. -/
def rehearseDelete (owner : OwnerId) (target : TargetId) : Action σ BatchError Applied := fun s =>
  ⟨.ok (.wouldDelete target), s, [.wouldDelete owner target]⟩

/-- Says that a relation would be sent. -/
def rehearseUpsert (owner : OwnerId) (relation : Relation) : Action σ BatchError Applied := fun s =>
  ⟨.ok (.wouldUpsert relation.target), s, [.wouldUpsert owner relation.target]⟩

/-- Deletes targets, or rehearses it. -/
def deleteAll (remote : Remote σ) (owner : OwnerId) (rehearse : Bool) (targets : List TargetId) :
    Action σ BatchError (List Applied) :=
  targets.mapM (if rehearse then rehearseDelete owner else deleteOne remote owner)

/-- Sends relations, or rehearses it. -/
def upsertAll (remote : Remote σ) (owner : OwnerId) (rehearse : Bool) (relations : List Relation) :
    Action σ BatchError (List Applied) :=
  relations.mapM (if rehearse then rehearseUpsert owner else upsertOne remote owner)

/-- Carries out a plan, or rehearses it. -/
def apply (remote : Remote σ) (owner : OwnerId) (rehearse : Bool) (plan : Plan) :
    Action σ BatchError (List Applied) := do
  let deleted ← deleteAll remote owner rehearse plan.toDelete
  let upserted ← upsertAll remote owner rehearse plan.toUpsert
  pure (deleted ++ upserted)

theorem run_rehearsal (owner : OwnerId) (targets : List TargetId) (s : σ) :
    (targets.mapM (rehearseDelete owner : TargetId → Action σ BatchError Applied)).run s =
      ⟨.ok (targets.map .wouldDelete), s, targets.map (.wouldDelete owner)⟩ := by
  induction targets with
  | nil => rfl
  | cons id ids ih =>
    have h : (rehearseDelete owner id : Action σ BatchError Applied).run s =
        ⟨.ok (.wouldDelete id), s, [.wouldDelete owner id]⟩ := rfl
    rw [List.mapM_cons, Action.run_bind_ok h, Action.run_bind_ok ih]
    simp [Action.run_pure]

end Batch

end Roster
