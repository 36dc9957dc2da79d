/-
Files and directories.

A disk maps locations, which are lists of names from the root on, to directories and files; a file
holds a text, or bytes that are no text.  The root is a directory.  A name has at most 255 bytes:
asking for a longer one is an error of its own.

Besides what stands in the way of a request, a disk may have reasons of its own to put nothing at a
location, such as missing rights or a lack of room.  A file that there is no room for is left
without its text.  Looking and removing take neither.

* `find?_put_self`, `find?_put_of_ne`, `find?_erase_self`, `find?_erase_of_ne`: what changing an
  entry does to the others;
* `find?_spoiled_of_ne`: a write that fails touches only the location that it is told.
-/
import Roster.Action

namespace Roster

abbrev Location := List String

/-- What stands at a location. -/
inductive Entry where
  | directory
  | text (content : String)
  /-- A file whose bytes are no text. -/
  | binary
  deriving DecidableEq, Repr

/-- Why the disk refuses a request. -/
inductive DiskError where
  | notFound
  | notDirectory
  | isDirectory
  | nameTooLong
  | notText
  | notPermitted
  | noRoom
  deriving DecidableEq, Repr

/-- The error in words. -/
def DiskError.message : DiskError → String
  | notFound => "No such file or directory (os error 2)"
  | notDirectory => "Not a directory (os error 20)"
  | isDirectory => "Is a directory (os error 21)"
  | nameTooLong => "File name too long (os error 36)"
  | notText => "stream did not contain valid UTF-8"
  | notPermitted => "Permission denied (os error 13)"
  | noRoom => "No space left on device (os error 28)"

/-- The entries below the root, each at its location. -/
structure Disk where
  entries : List (Location × Entry)
  /-- Why the disk puts nothing at a location, whatever stands there. -/
  denies : Location → Option DiskError

namespace Disk

def empty : Disk := ⟨[], fun _ => none⟩

def find? (d : Disk) (l : Location) : Option Entry :=
  if l = [] then some .directory else (d.entries.find? (·.1 == l)).map (·.2)

def erase (d : Disk) (l : Location) : Disk := { d with entries := d.entries.filter (·.1 != l) }

def put (d : Disk) (l : Location) (e : Entry) : Disk :=
  { d with entries := (l, e) :: (d.erase l).entries }

def isName (name : String) : Bool := name.utf8ByteSize ≤ 255

/-- What stands at some names below a location. -/
def reach (d : Disk) (above : Location) : List String → Except DiskError Entry
  | [] =>
    match d.find? above with
    | some e => .ok e
    | none => .error .notFound
  | name :: rest =>
    match d.find? above with
    | some .directory =>
      if isName name then d.reach (above ++ [name]) rest else .error .nameTooLong
    | some _ => .error .notDirectory
    | none => .error .notFound

/-- What stands at a location, or why nothing does. -/
def entry (d : Disk) (l : Location) : Except DiskError Entry := d.reach [] l

def contains (d : Disk) (l : Location) : Bool := (d.entry l).isOk

def isDirectory (d : Disk) (l : Location) : Bool :=
  match d.entry l with
  | .ok .directory => true
  | _ => false

/-- The text of a file. -/
def read (d : Disk) (l : Location) : Except DiskError String :=
  match d.entry l with
  | .ok (.text content) => .ok content
  | .ok .directory => .error .isDirectory
  | .ok .binary => .error .notText
  | .error e => .error e

/-- Makes the directories of some names below a location. -/
def makeBelow (above : Location) : List String → Action Disk DiskError Unit
  | [] => pure ()
  | name :: rest => fun d =>
    if !isName name then ⟨.error .nameTooLong, d, []⟩
    else
      match d.find? (above ++ [name]) with
      | some .directory => makeBelow (above ++ [name]) rest d
      | some _ => ⟨.error .notDirectory, d, []⟩
      | none =>
        match d.denies (above ++ [name]) with
        | some error => ⟨.error error, d, []⟩
        | none => makeBelow (above ++ [name]) rest (d.put (above ++ [name]) .directory)

/-- Makes a directory and those above it, as far as they are missing. -/
def makeDirectories (l : Location) : Action Disk DiskError Unit := makeBelow [] l

/-- Why no file can stand at a location, if so: it must be a file, or a free name in a directory. -/
def misplaced (d : Disk) (l : Location) : Option DiskError :=
  match d.entry l with
  | .ok .directory => some .isDirectory
  | .ok _ => none
  | .error .notFound => if d.isDirectory l.dropLast then none else some .notFound
  | .error e => some e

/-- Why no file is put at a location, if so. -/
def refusesWrite (d : Disk) (l : Location) : Option DiskError :=
  match d.misplaced l with
  | some error => some error
  | none => d.denies l

/-- What a file that the disk does not let be written leaves at its location: that there is no room
for its text only shows when the file is there. -/
def spoiled (d : Disk) (l : Location) : DiskError → Disk
  | .noRoom => d.put l (.text "")
  | _ => d

def write (l : Location) (e : Entry) : Action Disk DiskError Unit := fun d =>
  match d.misplaced l, d.denies l with
  | some error, _ => ⟨.error error, d, []⟩
  | none, some error => ⟨.error error, d.spoiled l error, []⟩
  | none, none => ⟨.ok (), d.put l e, []⟩

/-- Removes a file. -/
def remove (l : Location) : Action Disk DiskError Unit := fun d =>
  match d.entry l with
  | .ok .directory => ⟨.error .isDirectory, d, []⟩
  | .ok _ => ⟨.ok (), d.erase l, []⟩
  | .error e => ⟨.error e, d, []⟩

/-- Moves a file to another location, in the place of a file that may stand there. -/
def rename (source target : Location) : Action Disk DiskError Unit := fun d =>
  match d.entry source, d.refusesWrite target with
  | .error e, _ => ⟨.error e, d, []⟩
  | .ok _, some e => ⟨.error e, d, []⟩
  | .ok e, none => ⟨.ok (), (d.erase source).put target e, []⟩

/-- Writes a file under another name first and then moves it to its place, so that the file is never
half written. -/
def replace (temporary l : Location) (content : String) : Action Disk (Location × DiskError) Unit :=
  fun d =>
    let written := write temporary (.text content) d
    match written.result with
    | .error e => ⟨.error (temporary, e), written.state, []⟩
    | .ok () =>
      let moved := rename temporary l written.state
      match moved.result with
      | .error e => ⟨.error (l, e), (remove temporary moved.state).state, []⟩
      | .ok () => ⟨.ok (), moved.state, []⟩

def names (d : Disk) (l : Location) : List String :=
  d.entries.filterMap fun e => if e.1.dropLast == l then e.1.getLast? else none

def withFile (d : Disk) (l : Location) (e : Entry) : Disk :=
  let o := makeDirectories l.dropLast d
  (write l e o.state).state

theorem find?_erase_of_ne {l k : Location} (h : k ≠ l) (d : Disk) :
    (d.erase l).find? k = d.find? k := by
  unfold find? erase
  split
  · rfl
  · congr 1
    rw [List.find?_filter]
    congr 1
    funext e
    by_cases he : e.1 = k
    · subst he; simp [h]
    · simp [he]

theorem find?_erase_self {l : Location} (h : l ≠ []) (d : Disk) : (d.erase l).find? l = none := by
  simp [find?, erase, h]

theorem find?_put_self {l : Location} (h : l ≠ []) (d : Disk) (e : Entry) :
    (d.put l e).find? l = some e := by
  simp [find?, put, h]

theorem find?_put_of_ne {l k : Location} (h : k ≠ l) (d : Disk) (e : Entry) :
    (d.put l e).find? k = d.find? k := by
  rw [← find?_erase_of_ne h d]
  unfold find? put
  split
  · rfl
  · simp [Ne.symm h]

theorem find?_spoiled_of_ne {l k : Location} (h : k ≠ l) (d : Disk) (error : DiskError) :
    (d.spoiled l error).find? k = d.find? k := by
  cases error with
  | noRoom => exact find?_put_of_ne h d _
  | notFound | notDirectory | isDirectory | nameTooLong | notText | notPermitted => rfl

@[simp] theorem denies_put (d : Disk) (l : Location) (e : Entry) :
    (d.put l e).denies = d.denies := rfl

end Disk

end Roster
