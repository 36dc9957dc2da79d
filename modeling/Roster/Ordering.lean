/-
The order check.

The targets for which a priority was asked and confirmed are compared in pairs: one that was
declared to come first must be confirmed with the lower priority.  Targets that were declared with
equal priorities have no order.  A violation is reported and never an error.

* `mem_violationsFrom_lt`: a violation is of targets with different declared priorities.
-/
import Roster.View

namespace Roster

/-- A pair of targets that was confirmed in another order than declared. -/
structure OrderViolation where
  earlier : TargetId
  later : TargetId
  desired : Int × Int
  confirmed : Int × Int
  deriving DecidableEq

/-- The violation in words. -/
def OrderViolation.message (v : OrderViolation) : String :=
  let number := Text.Decimal.intText
  "'" ++ v.earlier.text ++ "' (priority " ++ number v.desired.1 ++ ") should precede '" ++
    v.later.text ++ "' (priority " ++ number v.desired.2 ++ "), but confirmed priorities are " ++
    number v.confirmed.1 ++ " and " ++ number v.confirmed.2

/-- The result of a check: how many targets were compared, and the violations. -/
structure OrderReport where
  checked : Nat
  violations : List OrderViolation
  deriving DecidableEq

namespace OrderReport

def ok (report : OrderReport) : Bool := report.violations.isEmpty

/-- A target with its declared and its confirmed priority. -/
structure Entry where
  target : TargetId
  desired : Int
  confirmed : Int
  deriving DecidableEq

/-- The targets for which a priority was asked and confirmed, in declared order. -/
def entries (desired : DesiredSet) (view : List Relation) : List Entry :=
  desired.relations.filterMap fun d => do
    let wanted ← d.priority.explicit?
    let seen ← Relation.find? d.target view
    let got ← seen.priority.explicit?
    pure ⟨d.target, wanted, got⟩

/-- Entries in the order of their declared priorities; equal ones stay in declared order. -/
def ranked (entries : List Entry) : List Entry :=
  entries.mergeSort fun a b => decide (a.desired ≤ b.desired)

def violation (a b : Entry) : OrderViolation :=
  ⟨a.target, b.target, (a.desired, b.desired), (a.confirmed, b.confirmed)⟩

/-- Whether a pair was declared in one order and confirmed in no such order. -/
def violates (a b : Entry) : Bool := a.desired < b.desired && b.confirmed ≤ a.confirmed

def violationsFrom : List Entry → List OrderViolation
  | [] => []
  | a :: rest => (rest.filter (violates a)).map (violation a) ++ violationsFrom rest

/-- Compares the declared order of a set with the order that a view confirms. -/
def check (desired : DesiredSet) (view : List Relation) : OrderReport where
  checked := (entries desired view).length
  violations := violationsFrom (ranked (entries desired view))

theorem mem_violationsFrom_lt {v : OrderViolation} {entries : List Entry}
    (h : v ∈ violationsFrom entries) : v.desired.1 < v.desired.2 := by
  induction entries with
  | nil => cases h
  | cons a rest ih =>
    rcases List.mem_append.1 h with h | h
    · obtain ⟨b, hb, rfl⟩ := List.mem_map.1 h
      have := (List.mem_filter.1 hb).2
      simp only [violates, Bool.and_eq_true, decide_eq_true_eq] at this
      exact this.1
    · exact ih h

end OrderReport

end Roster
