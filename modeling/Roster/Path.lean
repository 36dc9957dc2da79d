/-
Paths: how locations are written.

A path is a text of names with slashes between them.  A path that starts with a slash counts from
the root, any other one from the working directory; `.` and empty names stay where they are, and
`..` goes up.  Joining an absolute path to another one forgets the other one.
-/
import Roster.Disk
import Roster.Text.Split

namespace Roster.Path

def isAbsolute (path : String) : Bool := path.toList.head? == some '/'

def join (above below : String) : String :=
  if isAbsolute below || above.isEmpty then below
  else if above.toList.getLast? == some '/' then above ++ below
  else above ++ "/" ++ below

/-- The names of a path, with the empty ones. -/
def names (path : String) : List String :=
  (Text.split (· == '/') path.toList).map String.ofList

/-- Follows names from a location.  Only a directory can be gone up from or stayed in: under
anything else the names stand for locations that hold nothing. -/
def walk (d : Disk) : Location → List String → Location
  | l, [] => l
  | l, name :: rest =>
    if name = "" ∨ name = "." then
      walk d (match d.find? l with
        | some (.text _) => l ++ ["."]
        | some .binary => l ++ ["."]
        | _ => l) rest
    else if name = ".." then
      walk d (if d.isDirectory l then l.dropLast else l ++ [".."]) rest
    else walk d (l ++ [name]) rest

/-- The location of a path, from a working directory on. -/
def locate (d : Disk) (working : Location) (path : String) : Location :=
  walk d (if isAbsolute path then [] else working) (names path)

/-- The location of the path of a file: the empty path is none. -/
def locateFile (d : Disk) (working : Location) (path : String) : Location :=
  if path.isEmpty then working ++ [""] else locate d working path

/-- The name without its extension, which is what follows the last dot; a dot in front starts
none. -/
def stem (name : List Char) : List Char :=
  let extension := (name.reverse.takeWhile (· != '.')).length
  let rest := name.take (name.length - extension - 1)
  if rest = [] then name else rest

/-- The name of the temporary file beside a file: the name without its extension, and an extension
of its own.  A name that is a dot in front of an extension leaves none, and stands for the directory
above. -/
def temporaryName (name : String) : String :=
  let stem := stem name.toList
  if stem = ['.'] then ".." else String.ofList stem ++ ".json.tmp"

def temporary (l : Location) : Location :=
  let name := l.getLast?.getD ""
  if stem name.toList = ['.'] then l.dropLast.dropLast else l.dropLast ++ [temporaryName name]

end Roster.Path
