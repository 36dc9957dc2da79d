/-
Command lines: what the arguments of the program ask for.

A command line names a command and the path of a declaration, and may give settings before and after
the command, and switches after it.  A setting's value stands in the same argument behind `=`, or is
the next argument that is neither an option nor `--`.  Behind `--` nothing is an option.

Arguments are taken in one after another.  A parameter that was named is kept back until the next
one is named, and only then is it refused for want of a value, because it was given before, or
because its value is no good; that is what decides which of several mistakes is told.  What stands
before the command is looked at once all that stands behind it was found good.

* `take_kept`, `settle_kept`: what is kept back while arguments are taken in;
* `settle_settled`: nothing is kept back after all was taken in.
-/
import Roster.Run

namespace Roster

/-- What may be given on a command line. -/
inductive Parameter where
  /-- The directory of what is remembered. -/
  | home
  /-- The remote: the address of a service, or the path of a fixture. -/
  | remote
  /-- The token for a service. -/
  | token
  /-- How many seconds a service may take to answer. -/
  | timeout
  /-- The path of the declaration. -/
  | declaration
  /-- Only to say what would be done. -/
  | dryRun
  /-- To report in JSON. -/
  | json
  deriving DecidableEq, Repr

namespace Parameter

/-- How the parameter is written. -/
def text : Parameter → String
  | home => "--home"
  | remote => "--remote"
  | token => "--token"
  | timeout => "--timeout-secs"
  | declaration => "<DECLARATION>"
  | dryRun => "--dry-run"
  | json => "--json"

def isSwitch : Parameter → Bool
  | dryRun => true
  | json => true
  | _ => false

end Parameter

/-- The words that name commands. -/
inductive Verb where
  | plan
  | apply
  | read
  | destroy
  deriving DecidableEq, Repr

namespace Verb

/-- The verb of a word. -/
def ofText? : String → Option Verb
  | "plan" => some plan
  | "apply" => some apply
  | "read" => some read
  | "destroy" => some destroy
  | _ => none

/-- The switches that a command takes. -/
def switches : Verb → List Parameter
  | plan => []
  | apply => [.dryRun, .json]
  | read => [.json]
  | destroy => [.dryRun, .json]

end Verb

/-- What a command line asks for when it asks for no command that can be carried out. -/
inductive Usage where
  /-- To be told how the program is used. -/
  | help
  | version
  /-- Nothing is given at all. -/
  | nothing
  | missingCommand
  | unknownCommand (word : String)
  | unknownArgument (word : String)
  | missingDeclaration
  | missingValue (parameter : Parameter)
  | unexpectedValue (option : String)
  | repeated (parameter : Parameter)
  | badNumber (word : String)
  deriving DecidableEq, Repr

/-- The name of the program, and its version. -/
def versionText : String := "tether 0.1.0"

/-- How the program is used. -/
def helpText : String :=
  "tether plan <declaration>\n" ++
  "tether apply <declaration> [--dry-run] [--json]\n" ++
  "tether read <declaration> [--json]\n" ++
  "tether destroy <declaration> [--dry-run] [--json]\n" ++
  "settings: --home <directory> --remote <address or fixture> --token <token> " ++
  "--timeout-secs <seconds>"

/-- What is told for lack of a command. -/
def Usage.message : Usage → String
  | help => helpText
  | version => versionText
  | nothing => helpText
  | missingCommand => "error: a command is missing"
  | unknownCommand word => "error: there is no command '" ++ word ++ "'"
  | unknownArgument word => "error: the argument '" ++ word ++ "' was not expected"
  | missingDeclaration => "error: the declaration is missing"
  | missingValue parameter => "error: " ++ parameter.text ++ " needs a value"
  | unexpectedValue option => "error: " ++ option ++ " takes no value"
  | repeated parameter => "error: " ++ parameter.text ++ " was given more than once"
  | badNumber word => "error: '" ++ word ++ "' is no number of seconds"

/-- What a command line and its surroundings set. -/
structure Settings where
  home : Option String
  remote : Option String
  token : Option String
  timeout : Nat
  deriving DecidableEq, Repr

/-- The settings that stand in the surroundings. -/
structure Defaults where
  remote : Option String
  token : Option String
  deriving DecidableEq, Repr

/-- What is to be done with a declaration. -/
inductive Command where
  /-- Says what an apply would change. -/
  | plan
  /-- Carries out a run and reports it. -/
  | run (mode : Mode) (json : Bool)
  deriving DecidableEq, Repr

/-- A command with the path of its declaration. -/
structure Invocation where
  settings : Settings
  declaration : String
  command : Command
  deriving DecidableEq, Repr

namespace Arguments

/-- The form of an argument. -/
inductive Word where
  /-- Two hyphens. -/
  | escape
  | long (name : String) (value : Option String)
  | short (letter : Char)
  | plain
  deriving DecidableEq, Repr

/-- The form of an argument.  A single hyphen is a plain word. -/
def Word.of (argument : String) : Word :=
  match argument.toList with
  | ['-', '-'] => .escape
  | '-' :: '-' :: cs =>
    let name := String.ofList (cs.takeWhile (· != '='))
    match cs.dropWhile (· != '=') with
    | [] => .long name none
    | _ :: value => .long name (some (String.ofList value))
  | '-' :: letter :: _ => .short letter
  | _ => .plain

/-- What an option names. -/
inductive Named where
  | help
  | version
  | parameter (p : Parameter)
  deriving DecidableEq, Repr

/-- The option with a long name, before the command or behind a given one. -/
def long? (verb : Option Verb) : String → Option Named
  | "help" => some .help
  | "version" => if verb = none then some .version else none
  | "home" => some (.parameter .home)
  | "remote" => some (.parameter .remote)
  | "token" => some (.parameter .token)
  | "timeout-secs" => some (.parameter .timeout)
  | "dry-run" => if .dryRun ∈ (verb.map Verb.switches).getD []
      then some (.parameter .dryRun) else none
  | "json" => if .json ∈ (verb.map Verb.switches).getD [] then some (.parameter .json) else none
  | _ => none

def short? (verb : Option Verb) : Char → Option Named
  | 'h' => some .help
  | 'V' => if verb = none then some .version else none
  | _ => none

/-- What was taken in. -/
structure Draft where
  /-- The parameters with their values. -/
  given : List (Parameter × String)
  /-- The parameter that was named last, with its value if that has come. -/
  kept : Option (Parameter × Option String)
  deriving DecidableEq, Repr

namespace Draft

def empty : Draft := ⟨[], none⟩

def get? (d : Draft) (p : Parameter) : Option String := (d.given.find? (·.1 == p)).map (·.2)

def contains (d : Draft) (p : Parameter) : Bool := (d.get? p).isSome

def awaits (d : Draft) : Bool :=
  match d.kept with
  | some (_, none) => true
  | _ => false

/-- The number of seconds in a text. -/
def readSeconds? (s : String) : Option Nat :=
  let digits := match s.toList with
    | '+' :: cs => cs
    | cs => cs
  (Text.Decimal.readNat? digits).filter (· < 0x10000000000000000)

/-- What is wrong with the value of a parameter, if anything is. -/
def refusal? (p : Parameter) (value : String) : Option Usage :=
  match p with
  | .home => if value.isEmpty then some (.missingValue p) else none
  | .declaration => if value.isEmpty then some (.missingValue p) else none
  | .timeout => if (readSeconds? value).isNone then some (.badNumber value) else none
  | _ => none

/-- Takes in a parameter. -/
def take (d : Draft) (p : Parameter) (value : String) : Except Usage Draft :=
  if d.contains p then .error (.repeated p)
  else
    match refusal? p value with
    | some usage => .error usage
    | none => .ok { d with given := d.given ++ [(p, value)] }

/-- Takes in the parameter that was kept back. -/
def settle (d : Draft) : Except Usage Draft :=
  match d.kept with
  | none => .ok d
  | some (p, none) => .error (.missingValue p)
  | some (p, some value) => take { d with kept := none } p value

/-- Keeps back a parameter, after what was kept back before. -/
def keep (d : Draft) (p : Parameter) (value : Option String) : Except Usage Draft :=
  d.settle.map fun d => { d with kept := some (p, value) }

/-- Takes in an option with the value that is attached to it, if there is one. -/
def option (d : Draft) (written : String) (value : Option String) : Named → Except Usage Draft
  | .help => if value.isSome then .error (.unexpectedValue written)
      else d.settle.bind fun _ => .error .help
  | .version =>
    if value.isSome then .error (.unexpectedValue written) else d.settle.bind fun _ =>
      .error .version
  | .parameter p =>
    match p.isSwitch, value with
    | true, some _ => .error (.unexpectedValue written)
    | true, none => d.settle.bind fun d => d.take p ""
    | false, some v => d.settle.bind fun d => d.take p v
    | false, none => d.keep p none

def hasDeclaration (d : Draft) : Bool :=
  d.contains .declaration || (d.kept.map (·.1) == some .declaration)

/-- Takes in a word that is no option and no value of one.  Before the command there is no place for
it. -/
def word (d : Draft) (verb : Option Verb) (argument : String) : Except Usage Draft :=
  match verb with
  | none => .error (.unknownCommand argument)
  | some _ =>
    if d.hasDeclaration then .error (.unknownArgument argument)
    else d.keep .declaration (some argument)

end Draft

/-- Takes in an argument in front of `--`. -/
def step (verb : Option Verb) (d : Draft) (argument : String) : Except Usage Draft :=
  match Word.of argument with
  | .long name value =>
    -- an unknown option is told at once, whatever is kept back
    match long? verb name with
    | some named => d.option ("--" ++ name) value named
    | none => .error (.unknownArgument argument)
  | .short letter =>
    match short? verb letter with
    | some named => d.option argument none named
    | none => .error (.unknownArgument argument)
  | _ =>
    match d.kept with
    | some (p, none) => .ok { d with kept := some (p, some argument) }
    | _ => d.word verb argument

/-- Takes in the arguments behind a command. -/
def readCommand (verb : Verb) : Draft → List String → Except Usage Draft
  | d, [] => d.settle
  | d, argument :: rest =>
    if Word.of argument = .escape then
      (rest.foldlM (fun d word => Draft.word d (some verb) word) d).bind Draft.settle
    else (step (some verb) d argument).bind fun d => readCommand verb d rest

/-- What a request for help about some words comes to. -/
def helpAbout : List String → Usage
  | [] => .help
  | word :: rest =>
    if word = "help" ∨ (Verb.ofText? word).isSome then
      match rest with
      | [] => .help
      | next :: _ => .unknownCommand next
    else .unknownCommand word

/-- What a word behind `--` comes to when no command was named. -/
def misplaced (word : String) : Usage :=
  if word = "help" ∨ (Verb.ofText? word).isSome then .unknownArgument word else .unknownCommand word

/-- Takes in the arguments up to the command; answers the command too, and what stands behind it. -/
def readUpTo : Draft → List String → Except Usage (Draft × Option (Verb × List String))
  | d, [] => .ok (d, none)
  | d, argument :: rest =>
    if Word.of argument = .escape then
      -- behind the hyphens no word names a command
      match rest with
      | [] => .ok (d, none)
      | next :: _ => .error (misplaced next)
    else if !d.awaits && argument == "help" then .error (helpAbout rest)
    else
      match if d.awaits then none else Verb.ofText? argument with
      | some verb => .ok (d, some (verb, rest))
      | none => (step none d argument).bind fun d => readUpTo d rest

/-- The settings of the arguments before and behind the command, and of the surroundings. -/
def settings (defaults : Defaults) (before behind : Draft) : Settings :=
  let pick (p : Parameter) : Option String := behind.get? p <|> before.get? p
  { home := pick .home
    remote := pick .remote <|> defaults.remote
    token := pick .token <|> defaults.token
    timeout := ((pick .timeout).bind Draft.readSeconds?).getD 30 }

/-- The command of a verb with its switches. -/
def command (behind : Draft) : Verb → Command
  | .plan => .plan
  | .apply => .run (.apply (behind.contains .dryRun)) (behind.contains .json)
  | .read => .run .read (behind.contains .json)
  | .destroy => .run (.destroy (behind.contains .dryRun)) (behind.contains .json)

def withoutCommand (defaults : Defaults) (before : Draft) : Usage :=
  if before.given = [] ∧ defaults.remote = none ∧ defaults.token = none then .nothing
  else .missingCommand

/-- What the arguments ask for. -/
def parse (defaults : Defaults) (arguments : List String) : Except Usage Invocation :=
  match readUpTo .empty arguments with
  | .error usage => .error usage
  | .ok (before, none) => before.settle.bind fun before => .error (withoutCommand defaults before)
  | .ok (before, some (verb, rest)) =>
    (readCommand verb .empty rest).bind fun behind =>
      match behind.get? .declaration with
      | none => .error .missingDeclaration
      | some declaration =>
        -- what was kept back before the command is taken in last
        before.settle.map fun before =>
          ⟨settings defaults before behind, declaration, command behind verb⟩

theorem take_kept {d e : Draft} {p : Parameter} {value : String} (h : d.take p value = .ok e) :
    e.kept = d.kept := by
  unfold Draft.take at h
  split at h
  · cases h
  · split at h
    · cases h
    · cases h; rfl

theorem settle_kept {d e : Draft} (h : d.settle = .ok e) : e.kept = none := by
  unfold Draft.settle at h
  split at h
  · rename_i hk
    cases h
    exact hk
  · cases h
  · rw [take_kept h]

theorem settle_settled {d e : Draft} (h : d.settle = .ok e) : e.settle = .ok e := by
  unfold Draft.settle
  rw [settle_kept h]

end Arguments

end Roster
