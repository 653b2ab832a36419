import CFrontend.Text.Separated
import CFrontend.Text.Utf8

/-!
The files below a working directory and the texts at paths. A path is followed name by name: a
period stays where it is, two periods go up, and nothing is below a file. What lies outside of the
working directory is not known, but for the directories above it.
-/
namespace CFrontend

/-- Why there is no text at a path. -/
inductive PathFault where
  | missing
  | notDirectory
  | isDirectory
  | tooLong
  | invalid
  | denied
deriving DecidableEq, Repr

namespace PathFault

def reason : PathFault → String
  | .missing => "no such file or directory"
  | .notDirectory => "not a directory"
  | .isDirectory => "is a directory"
  | .tooLong => "file name too long"
  | .invalid => "invalid argument"
  | .denied => "permission denied"

/-- The message for a path. A directory can be opened; it is reading it that fails. -/
def message (path : String) (fault : PathFault) : String :=
  let attempt := if fault = .isDirectory then "read " else "open "
  attempt ++ path ++ ": " ++ fault.reason

end PathFault

/-- The names that lead from a directory to something in it. -/
abbrev Route := List String

/-- Files with their texts, each by its route from the working directory. -/
structure Directory where
  files : List (Route × String) := []
deriving DecidableEq, Repr

/-- What a path leads to. -/
inductive Place where
  | file (text : String)
  /-- A directory at or below the working directory. -/
  | inside (route : Route)
  /-- A directory that does not lie there. -/
  | outside
deriving DecidableEq, Repr

namespace Directory

/-- The names in a path, which are empty between two slashes and at the ends. -/
def namesIn (path : String) : List String := (Text.parts '/' path.toList).map String.ofList

/-- A directory of files that are given with their paths. -/
def ofFiles (files : List (String × String)) : Directory :=
  let route (path : String) : Route :=
    (namesIn path).filter fun name => !name.isEmpty && name ≠ "."
  ⟨files.map fun (path,text) => (route path,text)⟩

/-- The number of bytes that a name has at most. -/
def nameLimit : Nat := 255

/-- The number of bytes that a path has at most. -/
def pathLimit : Nat := 4095

/-- The path of the device that is empty to every reader. -/
def nullDevice : String := "/dev/null"

/-- What is at a route. Every file stands in all directories on the way to it. -/
def place? (directory : Directory) (route : Route) : Option Place :=
  match directory.files.lookup route with
  | some text => some (.file text)
  | none => if directory.files.any (route.isPrefixOf ·.1) then some (.inside route) else none

/-- Follows one name from a place. -/
def enter (directory : Directory) (place : Place) (name : String) : Except PathFault Place :=
  match place with
  | .file _ => .error .notDirectory
  | place =>
    if name.isEmpty || name = "." then .ok place
    else if name = ".." then
      match place with
      | .inside (first :: rest) => .ok (.inside (first :: rest).dropLast)
      | _ => .ok .outside
    else if nameLimit < (Text.bytesOf name).length then .error .tooLong
    else match place with
      | .inside route => match directory.place? (route ++ [name]) with
        | some place => .ok place
        | none => .error .missing
      | _ => .error .missing

/-- Follows names from a place. -/
def follow (directory : Directory) (place : Place) : List String → Except PathFault Place
  | [] => .ok place
  | name :: rest => match directory.enter place name with
    | .error fault => .error fault
    | .ok place => directory.follow place rest

/-- The text at a path. -/
def textAt (directory : Directory) (path : String) : Except PathFault String :=
  let start : Place := if path.toList.head? = some '/' then .outside else .inside []
  if path.toList.contains '\x00' then .error .invalid
  else if path.isEmpty then .error .missing
  else if pathLimit < (Text.bytesOf path).length then .error .tooLong
  else if path = nullDevice then .ok ""
  else match directory.follow start (namesIn path) with
    | .error fault => .error fault
    | .ok (.file text) => .ok text
    | .ok _ => .error .isDirectory

end Directory

end CFrontend
