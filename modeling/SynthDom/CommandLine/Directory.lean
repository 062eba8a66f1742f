/-!
# Files of a directory

A `Directory` is where a run starts, given by the files below it.  `Directory.read` is what a path
names there: the path is walked name by name, and a name or a slash after something that is no
folder, like a folder at the end, is an error of its own.  Outside the directory there are folders
on the way up and nothing else.
-/

namespace SynthDom.CommandLine

/-- Why a file cannot be read. -/
inductive FileError where
  | notFound
  | notFolder
  | folder
  | nameTooLong
  | other (cause : String)
deriving DecidableEq

def FileError.message : FileError → String
  | .notFound => "No such file or directory (os error 2)"
  | .notFolder => "Not a directory (os error 20)"
  | .folder => "Is a directory (os error 21)"
  | .nameTooLong => "File name too long (os error 36)"
  | .other cause => cause

/-- What reading a file gives. -/
abbrev Files := String → Except FileError String

/-- The names of a path, with an empty one before, between or after slashes that have none. -/
def pathNames (path : String) : List String := path.splitOn "/"

/-- A name that stays where it is. -/
def staysPut (name : String) : Bool := name = "" || name = "."

/-- Files, each by the names that lead to it and its text. -/
structure Directory where
  files : List (List String × String)

namespace Directory

/-- How many bytes a path may have. -/
def maxPathSize : Nat := 4095

/-- How many bytes a name may have. -/
def maxNameSize : Nat := 255

/-- The directory of some files, each by its path and text. -/
def ofList (files : List (String × String)) : Directory :=
  ⟨files.map fun f => ((pathNames f.1).filter (!staysPut ·), f.2)⟩

/-- Where a walk has come to: below the directory by some names, or anywhere above it. -/
inductive Place where
  | below (names : List String)
  | above
deriving DecidableEq

namespace Place

/-- One level up.  Above the directory there is no end. -/
def parent : Place → Place
  | .below [] => .above
  | .below names => .below names.dropLast
  | .above => .above

/-- One level down, by a name. -/
def child? : Place → String → Option Place
  | .below names, name => some (.below (names ++ [name]))
  | .above, _ => none

end Place

/-- What stands at a place. -/
inductive Entry where
  | file (text : String)
  | folder
deriving DecidableEq

/-- What stands at a place.  A folder is there if a file is below it. -/
def find? (d : Directory) : Place → Option Entry
  | .above => some .folder
  | .below names =>
    match d.files.lookup names with
    | some text => some (.file text)
    | none =>
      if names.isEmpty || d.files.any fun f => names.isPrefixOf f.1 then some .folder else none

/-- One step of a walk. -/
def step (d : Directory) (place : Place) (name : String) : Except FileError Place :=
  match d.find? place with
  | none => .error .notFound
  | some (.file _) => .error .notFolder
  | some .folder =>
    if staysPut name then .ok place
    else if name = ".." then .ok place.parent
    else if maxNameSize < name.utf8ByteSize then .error .nameTooLong
    else
      match place.child? name with
      | some place => .ok place
      | none => .error .notFound

/-- The place that a path leads to.  A path that starts with a slash starts from above. -/
def walk (d : Directory) (path : String) : Except FileError Place :=
  (pathNames path).foldlM d.step (if path.startsWith "/" then .above else .below [])

/-- The text of the file that a path names. -/
def read (d : Directory) (path : String) : Except FileError String :=
  if path.isEmpty then .error .notFound
  else if maxPathSize < path.utf8ByteSize then .error .nameTooLong
  else do
    match d.find? (← d.walk path) with
    | some (.file text) => return text
    | some .folder => throw .folder
    | none => throw .notFound

@[simp] theorem find?_above (d : Directory) : d.find? .above = some .folder := rfl

end Directory

end SynthDom.CommandLine
