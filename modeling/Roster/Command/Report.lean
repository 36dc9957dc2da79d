/-
Reports: what commands tell.

A report is made for readers, as lines of which some marks may be coloured, or for programs, as a
JSON object.
-/
import Roster.Run
import Roster.Text.Table

namespace Roster

/-- The colours of marks. -/
inductive Colour where
  | green
  | yellow
  | red
  | grey
  deriving DecidableEq, Repr

/-- The code that turns a colour on; all but grey are bold. -/
def Colour.code : Colour → String
  | green => "1;32"
  | yellow => "1;33"
  | red => "1;31"
  | grey => "90"

namespace Report

open Text

/-- A text in a colour, or as it is where colours are not shown. -/
def paint (coloured : Bool) (colour : Colour) (text : String) : String :=
  if coloured then "\x1b[" ++ colour.code ++ "m" ++ text ++ "\x1b[0m" else text

def commas (texts : List String) : String := ", ".intercalate texts

def names (targets : List TargetId) : String := commas (targets.map (·.text))

/-- Lines as a text, each with a line break behind it. -/
def text (lines : List String) : String := String.join (lines.map (· ++ "\n"))

/-! ### Outcomes -/

/-- What became of an operation, as a line. -/
def appliedLine : Applied → String
  | .upserted target => "  ✎  " ++ target.text
  | .deleted target => "  ✗  " ++ target.text
  | .alreadyAbsent target => "  ·  " ++ target.text ++ " (already absent)"
  | .wouldUpsert target => "  ~  " ++ target.text
  | .wouldDelete target => "  ~  " ++ target.text ++ " (delete)"

/-- The name of what became of an operation. -/
def appliedName : Applied → String
  | .upserted _ => "upserted"
  | .deleted _ => "deleted"
  | .alreadyAbsent _ => "already_absent"
  | .wouldUpsert _ => "would_upsert"
  | .wouldDelete _ => "would_delete"

/-- What became of an operation, as a JSON object. -/
def appliedJson (a : Applied) : Json :=
  .object [("op", .string (appliedName a)), ("target_id", .string a.target.text)]

/-- Whether a relation was deleted, or would be. -/
def isDelete : Applied → Bool
  | .deleted _ => true
  | .wouldDelete _ => true
  | _ => false

/-- Whether a relation was sent, or would be. -/
def isUpsert : Applied → Bool
  | .upserted _ => true
  | .wouldUpsert _ => true
  | _ => false

/-! ### Reconciliations -/

def mark : String := "■"

/-- The line that sets off the legend. -/
def separator (coloured : Bool) : String :=
  paint coloured .grey (String.join (List.replicate 60 mark))

def legend (coloured : Bool) : List String :=
  [separator coloured,
   "Indicators: " ++ paint coloured .green mark ++ " DECLARED  " ++
     paint coloured .yellow mark ++ " DRIFT",
   separator coloured]

def headings : List String := ["", "target", "priority", "profile"]

def row (coloured : Bool) (drift : List TargetId) (r : Relation) : List String :=
  [paint coloured (if r.target ∈ drift then .yellow else .green) mark, r.target.text,
    r.priority.text,
   r.payload.text]

def viewLines (coloured : Bool) (r : Reconciliation) : List String :=
  if r.observation.view.isEmpty then ["No relations exist for '" ++ r.owner.text ++ "'."]
  else
    [Text.Table.render headings (r.observation.view.map (row coloured r.observation.drift))]

/-- What is wrong with a listing. -/
def findings (coloured : Bool) (r : Reconciliation) : List String :=
  let drift := r.observation.drift
  let dropped := r.observation.dropped
  (if drift.isEmpty then [] else
    [paint coloured .yellow "drift:" ++ " " ++ Decimal.text drift.length ++
      " relation(s) exist remotely but are not declared: " ++ names drift]) ++
  (if dropped.isEmpty then [] else
    [paint coloured .red "missing:" ++ " " ++ Decimal.text dropped.length ++
      " declared relation(s) are not present remotely: " ++ names dropped]) ++
  r.ordering.violations.map fun v => paint coloured .yellow "ordering:" ++ " " ++ v.message

def reconciliationLines (coloured : Bool) (r : Reconciliation) : List String :=
  legend coloured ++ viewLines coloured r ++ findings coloured r

def pairJson (p : Int × Int) : Json := .array [.ofInt p.1, .ofInt p.2]

def violationJson (v : OrderViolation) : Json :=
  .object
    [("earlier", .string v.earlier.text), ("later", .string v.later.text),
     ("desired", pairJson v.desired), ("confirmed", pairJson v.confirmed)]

def targetsJson (targets : List TargetId) : Json := .array (targets.map fun id => .string id.text)

/-- A reconciliation as a JSON object. -/
def reconciliationJson (rehearsed : Bool) (r : Reconciliation) : Json :=
  .object
    [("owner", .string r.owner.text),
     ("dry_run", .bool rehearsed),
     ("applied", .array (r.applied.map appliedJson)),
     ("view", WireRelation.listJson r.observation.view),
     ("drift", targetsJson r.observation.drift),
     ("dropped", targetsJson r.observation.dropped),
     ("ordering_mismatches", .array (r.ordering.violations.map violationJson))]

/-! ### Runs -/

/-- What stands before the first line of a rehearsal. -/
def rehearsalMark (rehearsed : Bool) : String := if rehearsed then "[dry-run] " else ""

def appliedLines (rehearsed : Bool) (r : Reconciliation) : List String :=
  (rehearsalMark rehearsed ++ "✓ '" ++ r.owner.text ++ "' reconciled (" ++
    Decimal.text (r.applied.countP isUpsert) ++ " upserted, " ++
    Decimal.text (r.applied.countP isDelete) ++ " deleted)") :: r.applied.map appliedLine

def destroyedLines (rehearsed : Bool) (owner : OwnerId) (applied : List Applied) : List String :=
  let start := rehearsalMark rehearsed ++ "✓ '" ++ owner.text ++ "'"
  if applied.isEmpty then [start ++ " — nothing to delete"]
  else (start ++ " destroyed (" ++ Decimal.text applied.length ++ " relation(s))") ::
    applied.map appliedLine

/-- What a destroy came to, as a JSON object. -/
def destroyedJson (rehearsed : Bool) (owner : OwnerId) (applied : List Applied) : Json :=
  .object
    [("owner", .string owner.text),
     ("dry_run", .bool rehearsed),
     ("applied", .array (applied.map appliedJson))]

/-- What a run came to, as lines. -/
def runLines (coloured : Bool) (mode : Mode) (owner : OwnerId) : RunResult → List String
  | .destroyed applied => destroyedLines mode.rehearses owner applied
  | .reconciled r =>
    -- a read has applied nothing that could be told
    (if mode = .read then [] else appliedLines mode.rehearses r) ++ reconciliationLines coloured r

/-- What a run came to, as a JSON object. -/
def runJson (mode : Mode) (owner : OwnerId) : RunResult → Json
  | .destroyed applied => destroyedJson mode.rehearses owner applied
  | .reconciled r => reconciliationJson mode.rehearses r

def run (coloured json : Bool) (mode : Mode) (owner : OwnerId) (result : RunResult) : String :=
  if json then text [(runJson mode owner result).pretty]
  else text (runLines coloured mode owner result)

/-! ### Previews -/

/-- A number of seconds in the largest unit of which it has one. -/
def age (seconds : Nat) : String :=
  if seconds < 60 then Decimal.text seconds ++ "s"
  else if seconds < 60 * 60 then Decimal.text (seconds / 60) ++ "m"
  else if seconds < 60 * 60 * 24 then Decimal.text (seconds / (60 * 60)) ++ "h"
  else Decimal.text (seconds / (60 * 60 * 24)) ++ "d"

/-- When the owner was last reconciled. -/
def lastLines (now : Timestamp) (owner : OwnerId) (p : Preview) : List String :=
  match p.hasPrevious, p.reconciledAt with
  | true, some time =>
    ["Last applied " ++ age (time.secondsUntil now) ++ " ago (" ++ time.textWithOffset ++ ")"]
  | true, none => []
  | false, _ =>
    ["No previous apply recorded for '" ++ owner.text ++
      "'; every declared relation will be created."]

/-- The operations of a plan. -/
def planLines (coloured : Bool) (owner : OwnerId) (plan : Plan) : List String :=
  ("Plan for '" ++ owner.text ++ "': " ++ Decimal.text plan.toDelete.length ++ " delete(s), " ++
    Decimal.text plan.toUpsert.length ++ " upsert(s)") ::
  (plan.toDelete.map (fun id => "  " ++ paint coloured .red "-" ++ "  " ++ id.text) ++
    plan.toUpsert.map fun r =>
      "  " ++ paint coloured .green "+" ++ "  " ++ r.target.text ++ " (priority " ++
        r.priority.text ++ ")")

/-- The report of a preview; the unified diff ends its own lines. -/
def preview (coloured : Bool) (now : Timestamp) (owner : OwnerId) (p : Preview) : String :=
  text (lastLines now owner p ++ planLines coloured owner p.plan) ++
    if p.unified.isEmpty then text ["Declaration unchanged since the last apply."] else p.unified

end Report

end Roster
