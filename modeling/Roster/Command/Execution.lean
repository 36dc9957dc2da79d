/-
Carrying out command lines.

The home is found first, then the declaration is loaded, and then the remote is chosen: an address
means a service, anything else the path of a fixture.  A plan asks no remote.  A command that fails
reports nothing; its error tells what it was about and what lies behind it.

* `exitCode_eq_zero_iff`: the exit code is zero if help or the version was asked for.
-/
import Roster.Command.Arguments
import Roster.Command.Report
import Roster.Fixture
import Roster.Web.Service

namespace Roster

/-- What a command is carried out in, with a server whose states have type `σ`. -/
structure Surroundings (σ : Type) where
  /-- The path of the user's own directory. -/
  userHome : Option String
  /-- The directory that paths count from. -/
  working : Location
  defaults : Defaults
  now : Timestamp
  coloured : Bool
  server : Server σ

/-- A fixture that could not be written. -/
structure Unsaved where
  path : String
  cause : DiskError

/-- Why a command fails. -/
inductive CommandError where
  | noHome
  | declaration (path : String) (error : DeclarationError)
  | noRemote
  | fixture (path : String) (error : FixtureError)
  | preview (owner : OwnerId) (error : StateError)
  /-- A run failed, and perhaps its fixture could not be written either. -/
  | run (mode : Mode) (owner : OwnerId) (error : RunError) (unsaved : Option Unsaved)
  /-- A run went well, but its fixture could not be written. -/
  | unsaved (unsaved : Unsaved)

/-- Why a command line comes to no report. -/
inductive Failure where
  | usage (usage : Usage)
  | command (error : CommandError)

def Mode.text : Mode → String
  | apply _ => "apply"
  | read => "read"
  | destroy _ => "destroy"

namespace Unsaved

def message (u : Unsaved) : String := "failed to write remote fixture " ++ u.path

/-- The error and what lies behind it, in one line. -/
def line (u : Unsaved) : String := u.message ++ ": " ++ u.cause.message

end Unsaved

namespace CommandError

def about (verb : String) (owner : OwnerId) : String := verb ++ " failed for '" ++ owner.text ++ "'"

/-- The error in words, and behind it what lies behind it. -/
def chain : CommandError → List String
  | noHome => ["could not determine home directory"]
  | declaration path error => ("failed to load declaration " ++ path) ::
      error.message :: error.causes
  | noRemote => ["no remote configured; pass --remote or set TETHER_REMOTE"]
  | fixture path error => ("failed to load remote fixture " ++ path) ::
      error.message :: error.causes
  | preview owner error => about "plan" owner :: error.message :: error.causes
  | run mode owner error none => about mode.text owner :: error.message :: error.causes
  | run mode owner error (some u) =>
    (about mode.text owner ++ " (also: " ++ u.line ++ ")") :: error.message :: error.causes
  | unsaved u => [u.message, u.cause.message]

end CommandError

/-- The exit code of a failure: asking for help or the version is none, and mistakes on the command
line have a code of their own. -/
def Failure.exitCode : Failure → Nat
  | usage .help => 0
  | usage .version => 0
  | usage _ => 2
  | command _ => 1

/-- What a failure tells, outermost first. -/
def Failure.chain : Failure → List String
  | usage u => [u.message]
  | command error => error.chain

/-- Whether warnings are shown, given the setting of what is logged. -/
def showsWarnings (setting : Option String) : Bool :=
  match setting with
  | none => true
  | some level => level.toLower ∉ ["", "off", "error", "0", "1"]

theorem exitCode_eq_zero_iff (f : Failure) :
    f.exitCode = 0 ↔ f = .usage .help ∨ f = .usage .version := by
  cases f with
  | usage u => cases u <;> simp [Failure.exitCode]
  | command e => simp [Failure.exitCode]

namespace Invocation

variable {σ α : Type}

def home (s : Surroundings σ) (i : Invocation) (d : Disk) : Except CommandError Home :=
  match i.settings.home <|> s.userHome with
  | some path => .ok ⟨path, Path.locate d s.working path⟩
  | none => .error .noHome

def load (s : Surroundings σ) (i : Invocation) (d : Disk) : Except CommandError Declaration :=
  (Declaration.load i.declaration (Path.locateFile d s.working i.declaration) d).mapError
    (.declaration i.declaration)

/-- Looks at the disk. -/
def onDisk (f : Disk → Except CommandError α) : Action (World σ) CommandError α := fun w =>
  ⟨f w.disk, w, []⟩

def isAddress (remote : String) : Bool :=
  remote.startsWith "http://" || remote.startsWith "https://"

/-- A run on a service. -/
def runOnService (s : Surroundings σ) (i : Invocation) (home : Home) (declaration : Declaration)
    (mode : Mode) (base : String) : Action (World σ) CommandError RunResult := fun w =>
  let service : Service := ⟨base, i.settings.token⟩
  let o := Run.run (service.remote s.server) home s.now declaration mode w
  ⟨o.result.mapError fun error => .run mode declaration.owner error none, o.state, o.log⟩

/-- The end of a run on a fixture: a failed run tells of a failed writing too. -/
def settle (mode : Mode) (owner : OwnerId) (path : String) (f : Fixture.Finish) :
    Except CommandError RunResult :=
  match f.result, f.saved with
  | .ok result, .ok () => .ok result
  | .ok _, .error cause => .error (.unsaved ⟨path, cause⟩)
  | .error error, .ok () => .error (.run mode owner error none)
  | .error error, .error cause => .error (.run mode owner error (some ⟨path, cause⟩))

/-- A run on a fixture. -/
def runOnFixture (s : Surroundings σ) (home : Home) (declaration : Declaration) (mode : Mode)
    (path : String) : Action (World σ) CommandError RunResult := fun w =>
  let o := Fixture.run (Path.locateFile w.disk s.working path) home s.now declaration mode w.disk
  ⟨(o.result.mapError (.fixture path)).bind (settle mode declaration.owner path),
    { w with disk := o.state }, o.log⟩

/-- A run on the remote that is set. -/
def runOnRemote (s : Surroundings σ) (i : Invocation) (home : Home) (declaration : Declaration)
    (mode : Mode) : Action (World σ) CommandError RunResult :=
  match i.settings.remote with
  | none => Action.fail .noRemote
  | some remote =>
    if isAddress remote then runOnService s i home declaration mode remote
    else runOnFixture s home declaration mode remote

/-- The report of a preview. -/
def preview (s : Surroundings σ) (home : Home) (declaration : Declaration) (d : Disk) :
    Except CommandError String :=
  match Run.preview home declaration d with
  | .ok p => .ok (Report.preview s.coloured s.now declaration.owner p)
  | .error error => .error (.preview declaration.owner error)

/-- Carries out a command; answers its report. -/
def execute (s : Surroundings σ) (i : Invocation) : Action (World σ) CommandError String := do
  let home ← onDisk (home s i)
  let declaration ← onDisk (load s i)
  match i.command with
  | .plan => onDisk (preview s home declaration)
  | .run mode json =>
    let result ← runOnRemote s i home declaration mode
    pure (Report.run s.coloured json mode declaration.owner result)

end Invocation

/-- Carries out a command line; answers the report. -/
def execute {σ : Type} (s : Surroundings σ) (arguments : List String) :
    Action (World σ) Failure String := fun w =>
  match Arguments.parse s.defaults arguments with
  | .error usage => ⟨.error (.usage usage), w, []⟩
  | .ok i =>
    let o := i.execute s w
    ⟨o.result.mapError .command, o.state, o.log⟩

end Roster
