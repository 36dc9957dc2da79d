/-
Fixtures: remotes in files.

A fixture is a file with a JSON object that has the relations of every owner under the owner's name.
It stands for a remote in memory that is built anew from the file before each run, and whose owners
are written back after a run that may have changed them, also if the run failed.

* `finish_of_not_changes`: a run that cannot have changed the remote leaves the fixture alone.
-/
import Roster.Remote.Memory
import Roster.Run

namespace Roster

/-- Why a fixture cannot be used. -/
inductive FixtureError where
  | inaccessible (cause : DiskError)
  | unreadable (fault : Json.Fault)
  /-- A relation of an owner is refused. -/
  | relation (owner : String) (error : RelationError)

namespace FixtureError

def message : FixtureError → String
  | inaccessible cause => cause.message
  | unreadable _ => "fixture is not valid JSON"
  | relation owner _ => "invalid relation for owner '" ++ owner ++ "'"

/-- What lies behind the error, in words. -/
def causes : FixtureError → List String
  | inaccessible _ => []
  | unreadable fault => [fault.message]
  | relation _ error => [error.message]

end FixtureError

namespace Fixture

def decoder : Json.Decoder (List (String × List WireRelation)) :=
  Json.map (Json.list WireRelation.decoder)

/-- The relations of an owner that are written, unless one is refused. -/
def decodeOwner (e : String × List WireRelation) : Except FixtureError (String × List Relation) :=
  match WireRelation.decodeAll e.2 with
  | .ok relations => .ok (e.1, relations)
  | .error error => .error (.relation e.1 error)

def read (text : String) : Except FixtureError (List (String × List Relation)) :=
  match Json.readWhole decoder text with
  | .ok owners => owners.mapM decodeOwner
  | .error fault => .error (.unreadable fault)

def toJson (owners : List (String × List Relation)) : Json :=
  .object (owners.map fun e => (e.1, WireRelation.listJson e.2))

def text (owners : List (String × List Relation)) : String := (toJson owners).pretty

def load (l : Location) (d : Disk) : Except FixtureError MemoryRemote :=
  match d.read l with
  | .ok content => (read content).map MemoryRemote.ofOwners
  | .error cause => .error (.inaccessible cause)

def save (l : Location) (memory : MemoryRemote) : Action Disk DiskError Unit := fun d =>
  let o := Disk.replace (Path.temporary l) l (text memory.owners) d
  ⟨o.result.mapError (·.2), o.state, o.log⟩

/-- How a run on a fixture ends, and how writing the fixture does. -/
structure Finish where
  result : Except RunError RunResult
  saved : Except DiskError Unit

/-- Writes the fixture after a run that may have changed its remote. -/
def finish (l : Location) (mode : Mode) (o : Outcome (World MemoryRemote) RunError RunResult) :
    Outcome Disk FixtureError Finish :=
  if mode.changes then
    let s := save l o.state.remote o.state.disk
    ⟨.ok ⟨o.result, s.result⟩, s.state, o.log⟩
  else ⟨.ok ⟨o.result, .ok ()⟩, o.state.disk, o.log⟩

/-- Carries out a run on the fixture at a location. -/
def run (l : Location) (home : Home) (now : Timestamp) (declaration : Declaration) (mode : Mode) :
    Action Disk FixtureError Finish := fun d =>
  match load l d with
  | .error e => ⟨.error e, d, []⟩
  | .ok memory => finish l mode (Run.run MemoryRemote.remote home now declaration mode ⟨memory, d⟩)

theorem finish_of_not_changes {l : Location} {mode : Mode} (h : mode.changes = false)
    (o : Outcome (World MemoryRemote) RunError RunResult) :
    finish l mode o = ⟨.ok ⟨o.result, .ok ()⟩, o.state.disk, o.log⟩ := by
  simp [finish, h]

end Fixture

end Roster
