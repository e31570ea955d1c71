/-!
# Files of a directory

How a path is looked up from a working directory that holds plain files, and why a file cannot be read. A path is walked
one name at a time; nothing can be looked up in a plain file, and the directories above the working one hold nothing
that can be named.
-/

namespace LineScript

inductive FileError where
  | notFound
  | denied
  | notDirectory
  | isDirectory
  | nameTooLong
  | other (text : String)
deriving DecidableEq, Repr

/-- The system's words for an error. -/
def FileError.message : FileError → String
  | notFound => "No such file or directory (os error 2)"
  | denied => "Permission denied (os error 13)"
  | notDirectory => "Not a directory (os error 20)"
  | isDirectory => "Is a directory (os error 21)"
  | nameTooLong => "File name too long (os error 36)"
  | other text => text

/-- The files below a directory, each under the names that lead to it. -/
structure Directory where
  files : List (List String × ByteArray)

namespace Directory

/-- The names of a path. An empty name, before, between or behind slashes, means the place it stands in. -/
def names (path : String) : List String :=
  path.splitOn "/"

/-- A path is at most this many bytes long, and each of its names at most `maxName`. -/
def maxPath : Nat := 4095

def maxName : Nat := 255

/-- What a path has reached: a place below the working directory, or a directory above it. -/
inductive Place where
  | below (names : List String)
  | above
deriving DecidableEq, Repr

def isFile (d : Directory) (names : List String) : Bool :=
  (d.files.lookup names).isSome

def isDirectory (d : Directory) (names : List String) : Bool :=
  names.isEmpty || d.files.any fun file => names.isPrefixOf file.1 && names != file.1

/-- The place that a name leads to. -/
def enter (d : Directory) (name : String) : Place → Except FileError Place
  | .above =>
      if name = "" ∨ name = "." ∨ name = ".." then .ok .above
      else if maxName < name.utf8ByteSize then .error .nameTooLong
      else .error .notFound
  | .below names =>
      if d.isFile names then .error .notDirectory
      else if name = "" ∨ name = "." then .ok (.below names)
      else if name = ".." then .ok (if names.isEmpty then .above else .below names.dropLast)
      else if maxName < name.utf8ByteSize then .error .nameTooLong
      else if d.isFile (names ++ [name]) || d.isDirectory (names ++ [name]) then .ok (.below (names ++ [name]))
      else .error .notFound

def walk (d : Directory) (names : List String) (start : Place) : Except FileError Place :=
  names.foldlM (fun place name => d.enter name place) start

def read (d : Directory) (path : String) : Except FileError ByteArray := do
  if maxPath < path.utf8ByteSize then throw .nameTooLong
  let start : Place := if path.startsWith "/" then .above else .below []
  match ← d.walk (names path) start with
  | .above => throw .isDirectory
  | .below names =>
      match d.files.lookup names with
      | some bytes => return bytes
      | none => throw .isDirectory

end Directory

end LineScript
