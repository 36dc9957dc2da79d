/-
Remotes: the systems that hold the relations of owners.

A remote answers three requests, each of which may fail and may change it.  Nothing else is assumed
of it: its state is any type, and its answers may depend on all that was asked before.
-/
import Roster.Relation

namespace Roster

/-- Why a remote refuses a request. -/
inductive RemoteError where
  /-- The owner or the target does not exist. -/
  | notFound
  /-- The remote answers with a status that means failure. -/
  | rejected (status : Nat) (message : String)
  /-- The remote cannot be reached. -/
  | unavailable (reason : String)
  /-- The remote answers, but what it says cannot be understood. -/
  | malformed (reason : String)
  deriving DecidableEq, Repr

/-- The error in words. -/
def RemoteError.message : RemoteError → String
  | notFound => "not found"
  | rejected status message =>
    "rejected with status " ++ Text.Decimal.text status ++ ": " ++ message
  | unavailable reason => "unavailable: " ++ reason
  | malformed reason => "malformed response: " ++ reason

/-- The two requests that change a remote. -/
inductive Operation where
  | delete
  | upsert
  deriving DecidableEq, Repr

def Operation.text : Operation → String
  | delete => "delete"
  | upsert => "upsert"

/-- The requests that a remote with states of type `σ` answers. -/
structure Remote (σ : Type) where
  /-- Creates the relation, or overwrites its priority and payload. -/
  upsert : OwnerId → Relation → σ → Except RemoteError Unit × σ
  /-- Removes the relation to a target. -/
  delete : OwnerId → TargetId → σ → Except RemoteError Unit × σ
  /-- Lists all relations of an owner. -/
  list : OwnerId → σ → Except RemoteError (List Relation) × σ

end Roster
