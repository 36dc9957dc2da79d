/-
What is remembered of an owner.

Of every owner a home keeps a file with the set that was last applied, the view that was shown then
and the time.  The file is named for the owner, its bytes percent-encoded where they are not plain,
and it is always replaced as a whole.  A file that names another owner is refused.

* `decode_fileStem`: the owner's bytes can be read back from the file name;
* `fileName_injective`: owners with the same file name have the same bytes.
-/
import Roster.Path
import Roster.Text.Percent
import Roster.Timestamp

namespace Roster

/-- The directory that holds what is remembered: its path as it was given, and its location. -/
structure Home where
  path : String
  location : Location

/-- What is remembered of an owner. -/
structure StoredState where
  /-- The owner that the state belongs to; an empty state belongs to none. -/
  owner : Option OwnerId
  reconciledAt : Option Timestamp
  declared : DesiredSet
  view : List Relation

/-- Why a state cannot be loaded, saved or removed. -/
inductive StateError where
  | inaccessible (path : String) (cause : DiskError)
  | unreadable (fault : Json.Fault)
  | ownerMismatch (path : String) (expected found : OwnerId)

/-- The error in words. -/
def StateError.message : StateError → String
  | inaccessible path cause => "I/O error at " ++ path ++ ": " ++ cause.message
  | unreadable fault => "state store JSON error: " ++ fault.message
  | ownerMismatch path expected found =>
    "state at " ++ path ++ " belongs to owner '" ++ found.text ++ "', not '" ++ expected.text ++ "'"

/-- What lies behind the error, in words. -/
def StateError.causes : StateError → List String
  | inaccessible _ cause => [cause.message]
  | unreadable fault => [fault.message]
  | ownerMismatch _ _ _ => []

namespace StoredState

def empty : StoredState := ⟨none, none, .empty, []⟩

/-! ### The file's text -/

/-- The state as a JSON object. -/
def toJson (s : StoredState) : Json :=
  .object
    [("owner", s.owner.elim .null fun owner => .string owner.text),
     ("reconciled_at", s.reconciledAt.elim .null fun t => .string t.text),
     ("declared", s.declared.toJson),
     ("view", WireRelation.listJson s.view)]

def text (s : StoredState) : String := s.toJson.pretty

/-- What was read of a state. -/
structure Draft where
  owner : Option (Option OwnerId)
  reconciledAt : Option (Option Timestamp)
  declared : Option DesiredSet
  view : Option (List Relation)

def ownerDecoder : Json.Decoder OwnerId := Json.checked Json.text fun s => some ⟨s⟩

def timeDecoder : Json.Decoder Timestamp := Json.checked Json.text Timestamp.read?

/-- The parts of the record. -/
def parts : List (Json.Part Draft) :=
  [.of "owner" Draft.owner (fun a d => { d with owner := some a }) (Json.optional ownerDecoder),
   .of "reconciled_at" Draft.reconciledAt (fun a d => { d with reconciledAt := some a })
     (Json.optional timeDecoder),
   .of "declared" Draft.declared (fun a d => { d with declared := some a }) DesiredSet.decoder,
   .of "view" Draft.view (fun a d => { d with view := some a })
     (Json.list WireRelation.relationDecoder)]

/-- The state of a draft; parts that were not read are empty. -/
def Draft.finish (d : Draft) : StoredState :=
  ⟨d.owner.join, d.reconciledAt.join, d.declared.getD .empty, d.view.getD []⟩

def decoder : Json.Decoder StoredState :=
  Json.record parts ⟨none, none, none, none⟩ fun d => some d.finish

def read (text : String) : Except Json.Fault StoredState := Json.readWhole decoder text

/-! ### The file -/

def fileStem (owner : OwnerId) : String :=
  Text.Percent.encode Text.Percent.isFileNameByte owner.text

def fileName (owner : OwnerId) : String := fileStem owner ++ ".json"

/-- The names of the directories that hold the files, below the home. -/
def directoryNames : List String := [".tether", "state"]

/-- The location of the directory that holds the files. -/
def directory (home : Home) : Location := home.location ++ directoryNames

/-- The path of the directory that holds the files. -/
def directoryPath (home : Home) : String := directoryNames.foldl Path.join home.path

def location (home : Home) (owner : OwnerId) : Location := directory home ++ [fileName owner]

def path (home : Home) (owner : OwnerId) : String := Path.join (directoryPath home) (fileName owner)

/-- The location of the temporary file that is written before an owner's file is replaced. -/
def temporaryLocation (home : Home) (owner : OwnerId) : Location :=
  Path.temporary (location home owner)

def temporaryPath (home : Home) (owner : OwnerId) : String :=
  Path.join (directoryPath home) (Path.temporaryName (fileName owner))

def isStored (home : Home) (owner : OwnerId) (d : Disk) : Bool := d.contains (location home owner)

/-- What is remembered of an owner. -/
def load (home : Home) (owner : OwnerId) (d : Disk) : Except StateError StoredState :=
  if isStored home owner d then
    match d.read (location home owner) with
    | .error cause => .error (.inaccessible (path home owner) cause)
    | .ok text =>
      match read text with
      | .error fault => .error (.unreadable fault)
      | .ok state =>
        match state.owner with
        | some found =>
          if found = owner then .ok state
          else .error (.ownerMismatch (path home owner) owner found)
        | none => .ok state
  else .ok empty

/-- The path of the file that stood in the way of a replacement. -/
def blamedPath (home : Home) (owner : OwnerId) (l : Location) : String :=
  if l = temporaryLocation home owner then temporaryPath home owner else path home owner

/-- Remembers a state of an owner. -/
def save (home : Home) (owner : OwnerId) (state : StoredState) : Action Disk StateError Unit :=
  fun d =>
    let made := Disk.makeDirectories (directory home) d
    match made.result with
    | .error cause => ⟨.error (.inaccessible (directoryPath home) cause), made.state, []⟩
    | .ok () =>
      let o :=
        Disk.replace (temporaryLocation home owner) (location home owner) state.text made.state
      ⟨o.result.mapError fun (l, cause) => .inaccessible (blamedPath home owner l) cause,
        o.state, []⟩

/-- Forgets an owner; answers whether anything was remembered. -/
def remove (home : Home) (owner : OwnerId) : Action Disk StateError Bool := fun d =>
  let o := Disk.remove (location home owner) d
  match o.result with
  | .ok () => ⟨.ok true, o.state, []⟩
  -- only a file that is not there means that nothing was remembered
  | .error .notFound => ⟨.ok false, o.state, []⟩
  | .error cause => ⟨.error (.inaccessible (path home owner) cause), o.state, []⟩

theorem decode_fileStem (owner : OwnerId) :
    Text.Percent.decode (fileStem owner).toList = some (Text.Percent.utf8 owner.text) := by
  unfold fileStem Text.Percent.encode
  rw [String.toList_ofList]
  exact Text.Percent.decode_encodeBytes Text.Percent.plain_isFileNameByte _

theorem fileName_injective {o p : OwnerId} (h : fileName o = fileName p) :
    Text.Percent.utf8 o.text = Text.Percent.utf8 p.text := by
  have hl := congrArg String.toList h
  simp only [fileName, String.toList_append] at hl
  have h' : fileStem o = fileStem p := String.toList_inj.1 (List.append_cancel_right hl)
  have := decode_fileStem o
  rw [h', decode_fileStem p] at this
  exact (Option.some.inj this).symm

end StoredState

end Roster
