/-
The program.

It reads the files that a command line is about, carries the command line out on them, and writes
back what changed.  It reaches no servers.
-/
import Roster.Command.Execution
import Std.Time.DateTime.Timestamp

namespace Roster.Program

def pathOf (l : Location) : String := "/" ++ "/".intercalate l

/-- Reads what stands at a location into a disk. -/
def look (d : Disk) (l : Location) : IO Disk := do
  try
    return d.put l (.text (← IO.FS.readFile (pathOf l)))
  catch
    | .noFileOrDirectory .. => return d
    | .inappropriateType _ 20 _ => return d
    | .inappropriateType .. => return d.put l .directory
    | _ => return d.put l .binary

def lookAlong (d : Disk) (l : Location) : IO Disk :=
  ((List.range l.length).map fun n => l.take (n + 1)).foldlM look d

/-- Reads what stands at a path; names that go up are followed as far as the way to them is
known. -/
def lookAt (working : Location) (d : Disk) (path : String) : IO Disk :=
  (Path.names path).foldlM (fun d _ => lookAlong d (Path.locateFile d working path)) d

/-- Writes what is new at a location. -/
def store (before : Disk) (l : Location) (e : Entry) : IO Unit := do
  if before.find? l != some e then
    match e with
    | .directory => IO.FS.createDirAll (pathOf l)
    | .text content =>
      let temporary := pathOf (Path.temporary l)
      IO.FS.writeFile temporary content
      IO.FS.rename temporary (pathOf l)
    | .binary => pure ()

/-- Writes what changed. -/
def storeChanges (before after : Disk) : IO Unit := do
  for (l, e) in after.entries.reverse do
    store before l e
  for (l, _) in before.entries do
    if (after.find? l).isNone then IO.FS.removeFile (pathOf l)

def locationOf (path : String) : Location := (Path.names path).filter (· ≠ "")

/-- Reads the files that an invocation is about. -/
def lookFor (s : Surroundings Unit) (i : Invocation) : IO Disk := do
  let paths :=
    i.declaration :: ((i.settings.home <|> s.userHome).toList ++ i.settings.remote.toList)
  let d ← paths.foldlM (lookAt s.working) Disk.empty
  let beside :=
    (i.settings.remote.map fun path => Path.temporary (Path.locateFile d s.working path)).toList
  let d ← beside.foldlM lookAlong d
  match i.home s d, i.load s d with
  | .ok home, .ok declaration =>
    [StoredState.location, StoredState.temporaryLocation].foldlM
      (fun d place => lookAlong d (place home declaration.owner)) d
  | _, _ => return d

/-- What the program runs in. -/
def surroundings : IO (Surroundings Unit) := do
  let now ← Std.Time.Timestamp.now
  return {
    userHome := ← IO.getEnv "HOME"
    working := locationOf ((← IO.getEnv "PWD").getD "/")
    defaults := ⟨← IO.getEnv "TETHER_REMOTE", ← IO.getEnv "TETHER_TOKEN"⟩
    now := ⟨now.val.second.val, now.val.nano.val.toNat⟩
    coloured := ← (← IO.getStdout).isTty
    server := fun _ state => (none, state) }

/-- Carries out a command line; answers the exit code. -/
def run (arguments : List String) : IO Nat := do
  let s ← surroundings
  let d ←
    match Arguments.parse s.defaults arguments with
    | .ok i => lookFor s i
    | .error _ => pure Disk.empty
  let o := execute s arguments ⟨(), d⟩
  storeChanges d o.state.disk
  if showsWarnings (← IO.getEnv "TETHER_LOG") then
    for notice in o.log do
      if notice.level = .warn then IO.eprintln ("WARN " ++ notice.message)
  match o.result with
  | .ok report =>
    IO.print report
    return 0
  | .error failure =>
    match failure with
    | .usage u => if failure.exitCode = 0 then IO.println u.message else IO.eprintln u.message
    | .command error => IO.eprintln ("Error: " ++ "\n  ".intercalate error.chain)
    return failure.exitCode

end Roster.Program

def main (arguments : List String) : IO UInt32 := do
  return UInt32.ofNat (← Roster.Program.run arguments)
