import LetWhile.Path
import LetWhile.Text.Utf8

/-!
# Files

The files that a run can see and leave behind: a directory with directories and files in it, and
the faults that a path can lead to. Of what is outside the directory little is known: the
directories that hold it, those that every system has at its root, and some devices. Files can be
written there, but nobody looks at them.
-/

namespace LetWhile

/-- What is wrong with a path. -/
inductive FileFault where
  | missing
  | notDirectory
  | isDirectory
  | invalidName
  | nameTooLong
  | other (message : String)
deriving DecidableEq, Repr

/-- The wording of a fault. -/
def FileFault.message : FileFault → String
  | .missing => "no such file or directory"
  | .notDirectory => "not a directory"
  | .isDirectory => "is a directory"
  | .invalidName => "invalid argument"
  | .nameTooLong => "file name too long"
  | .other message => message

/-- Why a file could not be opened, or why it could not be read once it was open. -/
inductive FileError where
  | opening (path : String) (fault : FileFault)
  | reading (path : String) (fault : FileFault)
deriving DecidableEq, Repr

/-- The wording of an error. -/
def FileError.message : FileError → String
  | .opening path fault => "open " ++ path ++ ": " ++ fault.message
  | .reading path fault => "read " ++ path ++ ": " ++ fault.message

/-- Where a path leads. -/
inductive Place where
  /-- A place in the directory, by the names that lead to it. -/
  | inside (names : List String)
  /-- A place outside, by the names that lead to it from the root, or from a directory that holds
  ours. -/
  | outside (fromRoot : Bool) (names : List String)
deriving DecidableEq, Repr

namespace Place

/-- The place that one more name leads to. -/
def child (name : String) : Place → Place
  | .inside names => .inside (names ++ [name])
  | .outside fromRoot names => .outside fromRoot (names ++ [name])

/-- The directory that a place is in. What holds the root is the root. -/
def parent : Place → Place
  | .inside [] => .outside false []
  | .inside names => .inside names.dropLast
  | .outside fromRoot names => .outside fromRoot names.dropLast

end Place

/-- A file that stands for something else. -/
inductive Device where
  /-- It is empty, and what is written to it is lost. -/
  | null
  | input
  | output
  | errors
deriving DecidableEq, Repr

/-- The device at a place. -/
def Device.ofPlace? : Place → Option Device
  | .outside true ["dev", "null"] => some .null
  | .outside true ["dev", "stdin"] => some .input
  | .outside true ["dev", "stdout"] => some .output
  | .outside true ["dev", "stderr"] => some .errors
  | _ => none

/-- A directory. -/
structure Files where
  files : List (List String × List UInt8) := []
  directories : List (List String) := []
deriving DecidableEq, Repr

namespace Files

/-- The names of directories that every system has at its root. -/
def rootNames : List String :=
  ["bin", "dev", "etc", "home", "lib", "proc", "root", "sbin", "sys", "tmp", "usr", "var"]

/-- The content of the file at a place. -/
def find? (fs : Files) : Place → Option (List UInt8)
  | .inside names => fs.files.lookup names
  | place => (Device.ofPlace? place).map fun _ => []

/-- Whether a place is a directory. What contains something is one. -/
def isDirectory (fs : Files) : Place → Bool
  | .inside names =>
    names.isEmpty || fs.directories.any names.isPrefixOf ||
      fs.files.any fun (p, _) => names.isPrefixOf p && p ≠ names
  | .outside _ [] => true
  | .outside true [name] => rootNames.contains name
  | .outside _ _ => false

/-- The place that names lead to from `here`. All places on the way must be directories. -/
def walk (fs : Files) (here : Place) : List String → Except FileFault Place
  | [] => .ok here
  | name :: rest =>
    if !fs.isDirectory here then
      .error (if (fs.find? here).isSome then .notDirectory else .missing)
    else if name = "" ∨ name = "." then fs.walk here rest
    else if name = ".." then fs.walk here.parent rest
    else if 255 < name.utf8ByteSize then .error .nameTooLong
    else fs.walk (here.child name) rest

/-- What is wrong with a path whatever there is. -/
def pathFault? (path : String) : Option FileFault :=
  if path = "" then some .missing
  else if path.toList.contains '\x00' then some .invalidName
  else if 4096 ≤ path.utf8ByteSize then some .nameTooLong
  else none

/-- Where a path starts. -/
def start (path : String) : Place :=
  if path.toList.head? = some '/' then .outside true [] else .inside []

/-- The place that a path leads to. -/
def resolve (fs : Files) (path : String) : Except FileFault Place :=
  match pathFault? path with
  | some fault => .error fault
  | none => fs.walk (start path) (Path.names path)

/-- The device that a path leads to. -/
def device? (fs : Files) (path : String) : Option Device :=
  (fs.resolve path).toOption.bind Device.ofPlace?

/-- The content of the file at the end of a path. A directory can be opened but not read. -/
def load (fs : Files) (path : String) : Except FileError (List UInt8) :=
  match fs.resolve path with
  | .error fault => .error (.opening path fault)
  | .ok place =>
    match fs.find? place with
    | some content => .ok content
    | none =>
      if fs.isDirectory place then .error (.reading path .isDirectory)
      else .error (.opening path .missing)

/-- Writes the file at a place. -/
def put (fs : Files) (place : Place) (content : List UInt8) : Files :=
  match place with
  | .inside names => { fs with files := (names, content) :: fs.files.filter (·.1 ≠ names) }
  | .outside _ _ => fs

/-- The place of a file to be written. A slash at the end of a path asks for a directory. -/
def target (fs : Files) (path : String) : Except FileFault Place :=
  match pathFault? path with
  | some fault => .error fault
  | none => do
    let names := ((Path.names path).reverse.dropWhile (· = "")).reverse
    let place ← fs.walk (start path) names
    if path.toList.getLast? = some '/' || fs.isDirectory place then throw .isDirectory
    return place

/-- Writes the file at the end of a path, which need not exist before. -/
def save (fs : Files) (path : String) (content : List UInt8) : Except FileError Files :=
  match fs.target path with
  | .error fault => .error (.opening path fault)
  | .ok place => .ok (fs.put place content)

/-- The files that are new or have changed since `before`, with their paths. -/
def changesSince (fs before : Files) : List (String × List UInt8) :=
  (fs.files.filter fun (names, content) => before.find? (.inside names) ≠ some content).map
    fun (names, content) => ("/".intercalate names, content)

end Files

end LetWhile
