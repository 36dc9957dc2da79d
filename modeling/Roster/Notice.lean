/-
Notices: what a run tells about its progress.
-/
import Roster.Ordering

namespace Roster

/-- How much a notice matters. -/
inductive Level where
  | debug
  | info
  | warn
  deriving DecidableEq, Repr

def Level.text : Level → String
  | debug => "DEBUG"
  | info => "INFO"
  | warn => "WARN"

/-- Something that happened in a run. -/
inductive Notice where
  | started (owner : OwnerId) (deletes upserts : Nat)
  | deleted (owner : OwnerId) (target : TargetId)
  | alreadyAbsent (owner : OwnerId) (target : TargetId)
  | upserted (owner : OwnerId) (target : TargetId) (priority : Priority)
  | wouldDelete (owner : OwnerId) (target : TargetId)
  | wouldUpsert (owner : OwnerId) (target : TargetId)
  | declaredMissing (target : TargetId)
  | undeclaredFound (target : TargetId)
  | drifted (owner : OwnerId) (count : Nat)
  | orderViolated (violation : OrderViolation)
  | ownerForgotten (owner : OwnerId)
  deriving DecidableEq

namespace Notice

open Text

/-- How much the notice matters. -/
def level : Notice → Level
  | started .. => .debug
  | alreadyAbsent .. => .debug
  | declaredMissing .. => .debug
  | undeclaredFound .. => .debug
  | orderViolated .. => .warn
  | ownerForgotten .. => .warn
  | _ => .info

/-- The notice in words. -/
def message : Notice → String
  | started owner deletes upserts =>
    owner.text ++ ": " ++ Decimal.text deletes ++ " delete(s), " ++
      Decimal.text upserts ++ " upsert(s)"
  | deleted owner target => "deleted: " ++ owner.text ++ "/" ++ target.text
  | alreadyAbsent owner target => "already absent: " ++ owner.text ++ "/" ++ target.text
  | upserted owner target priority =>
    "upserted: " ++ owner.text ++ "/" ++ target.text ++ " (priority " ++ priority.text ++ ")"
  | wouldDelete owner target => "[dry-run] would delete: " ++ owner.text ++ "/" ++ target.text
  | wouldUpsert owner target => "[dry-run] would upsert: " ++ owner.text ++ "/" ++ target.text
  | declaredMissing target => "declared target not found remotely: " ++ target.text
  | undeclaredFound target => "drift: " ++ target.text ++ " exists remotely but is not declared"
  | drifted owner n =>
    owner.text ++ ": " ++ Decimal.text n ++ " relation(s) exist remotely but are not declared"
  | orderViolated violation => "ordering not preserved: " ++ violation.message
  | ownerForgotten owner => owner.text ++ ": owner no longer exists remotely, stored state removed"

end Notice

/-- The notices of an observation: declared targets that are missing, then undeclared ones. -/
def Observation.notices (o : Observation) : List Notice :=
  o.dropped.map .declaredMissing ++ o.drift.map .undeclaredFound

def OrderReport.notices (report : OrderReport) : List Notice :=
  report.violations.map .orderViolated

end Roster
