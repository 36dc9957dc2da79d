/-
Unified diffs.

The changed runs of two texts are shown in hunks, each with up to three kept lines around it; two
runs of changes that stand more than six kept lines apart are shown in different hunks.  A run that
replaces lines shows the dropped lines before the added ones.  Texts that agree have an empty diff.
-/
import Roster.Text.Runs
import Roster.Text.Decimal

namespace Roster.Text

/-- The lines of a text with their ends, which are a line feed, a carriage return or both. -/
def lines : List Char → List (List Char)
  | [] => []
  | '\r' :: '\n' :: cs => ['\r', '\n'] :: lines cs
  | '\r' :: cs => ['\r'] :: lines cs
  | '\n' :: cs => ['\n'] :: lines cs
  | c :: cs =>
    match lines cs with
    | [] => [[c]]
    | line :: rest => (c :: line) :: rest

namespace Unified

def context : Nat := 3

/-- A place where old lines give way to new ones, or lines that are kept. -/
structure Step where
  kept : Bool
  old : Nat
  oldStop : Nat
  new : Nat
  newStop : Nat

def Step.ofRun (r : Run) : Step := ⟨r.change == .keep, r.old, r.oldStop, r.new, r.newStop⟩

/-- What was met of one change: kept, dropped and added runs, each joined. -/
structure Pending where
  kept : Option Run
  dropped : Option Run
  added : Option Run

/-- The step of some dropped and added lines. -/
def changeStep : Option Run → Option Run → List Step
  | some d, some a => [⟨false, d.old, d.oldStop, a.new, a.newStop⟩]
  | some d, none => [Step.ofRun d]
  | none, some a => [Step.ofRun a]
  | none, none => []

def join : Option Run → Run → Run
  | some r, next => r.grow next.length
  | none, next => next

/-- Joins neighbouring runs of one change, and dropped with added ones. -/
def stepsFrom : Pending → List Run → List Step
  | p, [] => (p.kept.map Step.ofRun).toList ++ changeStep p.dropped p.added
  | p, r :: rest =>
    match r.change with
    | .keep =>
      changeStep p.dropped p.added ++ stepsFrom ⟨some (join p.kept r), none, none⟩ rest
    | .drop =>
      (p.kept.map Step.ofRun).toList ++ stepsFrom ⟨none, some (join p.dropped r), p.added⟩ rest
    | .add =>
      (p.kept.map Step.ofRun).toList ++ stepsFrom ⟨none, p.dropped, some (join p.added r)⟩ rest

def stepsOf (runs : List Run) : List Step := stepsFrom ⟨none, none, none⟩ runs

/-- The last kept lines of a step, as many as are shown. -/
def Step.tail (s : Step) : Step :=
  let n := (s.oldStop - s.old) - context
  { s with old := s.old + n, new := s.new + n }

/-- The first kept lines of a step, as many as are shown. -/
def Step.head (s : Step) : Step :=
  let n := (s.oldStop - s.old) - context
  { s with oldStop := s.oldStop - n, newStop := s.newStop - n }

/-- Cuts the kept lines that the first step starts with. -/
def cutFirst : List Step → List Step
  | [] => []
  | s :: rest => (if s.kept then s.tail else s) :: rest

/-- Cuts the kept lines that the last step ends with. -/
def cutLast : List Step → List Step
  | [] => []
  | [s] => [if s.kept then s.head else s]
  | s :: rest => s :: cutLast rest

/-- The steps of the hunks, given the steps of the hunk that is being filled. -/
def hunksFrom : List Step → List Step → List (List Step)
  | group, [] => if group.all (·.kept) then [] else [group]
  | group, s :: rest =>
    if s.kept ∧ 2 * context < s.oldStop - s.old then
      (group ++ [s.head]) :: hunksFrom [s.tail] rest
    else hunksFrom (group ++ [s]) rest

def hunks (steps : List Step) : List (List Step) := hunksFrom [] (cutLast (cutFirst steps))

/-- A range of lines in a hunk's heading: its first line, counted from one, and its length unless
that is one; an empty range stands after the line before it. -/
def rangeText (start stop : Nat) : List Char :=
  let length := stop - start
  if length = 1 then Decimal.digits (start + 1)
  else Decimal.digits (if length = 0 then start else start + 1) ++ ',' :: Decimal.digits length

/-- The heading of a hunk. -/
def heading (steps : List Step) : List Char :=
  match steps.head?, steps.getLast? with
  | some first, some last =>
    ['@', '@', ' ', '-'] ++ rangeText first.old last.oldStop ++ [' ', '+'] ++
      rangeText first.new last.newStop ++ [' ', '@', '@', '\n']
  | _, _ => []

/-- Some lines, each after a mark. -/
def marked (mark : Char) (all : Array (List Char)) (start stop : Nat) : List Char :=
  (all.extract start stop).toList.flatMap fun line => mark :: line

def stepText (old new : Array (List Char)) (s : Step) : List Char :=
  if s.kept then marked ' ' old s.old s.oldStop
  else marked '-' old s.old s.oldStop ++ marked '+' new s.new s.newStop

def hunkText (old new : Array (List Char)) (steps : List Step) : List Char :=
  heading steps ++ steps.flatMap (stepText old new)

/-- The hunks between two texts. -/
def body (old new : List Char) : List Char :=
  let olds := (lines old).toArray
  let news := (lines new).toArray
  let runs := Runs.between (fun i j => olds[i]? == news[j]?) olds.size news.size
  (hunks (stepsOf runs)).flatMap (hunkText olds news)

end Unified

/-- The unified diff of two texts with names for them, empty if they agree. -/
def unified (old new oldName newName : String) : String :=
  if old = new then ""
  else "--- " ++ oldName ++ "\n+++ " ++ newName ++ "\n" ++
    String.ofList (Unified.body old.toList new.toList)

end Roster.Text
