/-! # Files of a directory

What a path leads to when the working directory holds given files.  A name that begins the path of a
file is a directory.  The working directory is one of the directories for temporary files.  Outside
of it only the places that every system has are known: its usual directories, the null device, which
is an empty file, standard input, and the links by which a process finds itself.

* `Directory.find`: what a path leads to, or why it leads to no file.
-/

namespace ModelLabels.CommandLine
set_option autoImplicit false

/-- Why a file is not read. -/
inductive FileError where
  | notFound
  /-- A directory stands where a file is wanted. -/
  | isDirectory
  /-- A file stands where a directory is wanted. -/
  | notDirectory
  /-- The path, or a name in it, is longer than the system takes. -/
  | nameTooLong
  /-- The file holds no text. -/
  | notText
  | other (message : String)
  deriving Repr, DecidableEq

/-- The wording of an error. -/
def FileError.message : FileError → String
  | notFound => "No such file or directory (os error 2)"
  | isDirectory => "Is a directory (os error 21)"
  | notDirectory => "Not a directory (os error 20)"
  | nameTooLong => "File name too long (os error 36)"
  | notText => "stream did not contain valid UTF-8"
  | other message => message

/-- The number of bytes that a name in a directory has at most. -/
def nameLimit : Nat := 255

/-- The number of bytes that a path has at most. -/
def pathLimit : Nat := 4095

/-- What a file holds. -/
inductive Contents where
  | text (text : String)
  /-- What comes in on standard input. -/
  | standardInput
  /-- Bytes that are no text, such as a program. -/
  | bytes
  deriving Repr, DecidableEq

/-- Where a path has led so far. -/
inductive Place where
  /-- The working directory or one below it, by the names that lead there. -/
  | directory (names : List String)
  /-- A directory of the system, by the names that lead there from its root. -/
  | system (names : List String)
  | file (contents : Contents)
  deriving Repr, DecidableEq

namespace Place

/-- The directories outside of the working directory that every system has. -/
def systemDirectories : List (List String) :=
  (["bin", "dev", "etc", "home", "lib", "media", "mnt", "opt", "proc", "root", "run", "sbin", "srv",
    "sys", "tmp", "usr", "var"].map ([·]))
  ++ [["proc", "self"], ["proc", "self", "fd"], ["usr", "bin"], ["usr", "lib"], ["usr", "local"],
    ["usr", "share"], ["var", "tmp"]]

/-- The files outside of the working directory that every system has, and the links there. -/
def landmarks : List (List String × Place) :=
  [(["bin", "sh"], .file .bytes),
   (["dev", "fd"], .system ["proc", "self", "fd"]),
   (["dev", "null"], .file (.text "")),
   (["dev", "stdin"], .file .standardInput),
   (["proc", "self", "cwd"], .directory []),
   (["proc", "self", "exe"], .file .bytes),
   (["proc", "self", "fd", "0"], .file .standardInput),
   (["proc", "self", "root"], .system [])]

/-- The place of a name in a directory of the system. -/
def enterSystem (names : List String) (name : String) : Except FileError Place :=
  let inside := names ++ [name]
  match landmarks.lookup inside with
  | some place => .ok place
  | none => if inside ∈ systemDirectories then .ok (.system inside) else .error .notFound

/-- The directory that holds the working directory. -/
def temporaryDirectory : List String := ["tmp"]

/-- The directory that holds a directory; the root of the system holds itself. -/
def parent : Place → Place
  | directory [] => system temporaryDirectory
  | directory names => directory names.dropLast
  | system names => system names.dropLast
  | file contents => file contents

/-- The place that a part of a path leads to from a directory, given the look-up of the names in
it. -/
def step (p : Place) (lookUp : String → Except FileError Place) (name : String) :
    Except FileError Place :=
  if name = "" ∨ name = "." then .ok p
  else if name = ".." then .ok p.parent
  else if nameLimit < name.utf8ByteSize then .error .nameTooLong
  else lookUp name

end Place

/-- The files of a directory by their paths from it. -/
abbrev Directory := List (String × String)

namespace Directory

/-- The names in the path of a file. -/
def names (path : String) : List String := (path.splitOn "/").filter fun n => n ≠ "" ∧ n ≠ "."

/-- The place of a name in a directory below the working directory; of two files with the same path
it is the later one. -/
def enter (d : Directory) (above : List String) (name : String) : Except FileError Place :=
  let inside := above ++ [name]
  match d.reverse.find? fun f => names f.1 = inside with
  | some f => .ok (.file (.text f.2))
  | none =>
    if d.any fun f => inside.isPrefixOf (names f.1) then .ok (.directory inside)
    else .error .notFound

/-- Follow a part of a path, which must start at a directory. -/
def follow (d : Directory) (p : Place) (name : String) : Except FileError Place :=
  match p with
  | .directory names => p.step (d.enter names) name
  | .system names => p.step (Place.enterSystem names) name
  | .file _ => .error .notDirectory

/-- What the file holds that a path leads to. -/
def find (d : Directory) (path : String) : Except FileError Contents := do
  if pathLimit < path.utf8ByteSize then throw .nameTooLong
  else
    let start : Place := if path.startsWith "/" then .system [] else .directory []
    match ← (path.splitOn "/").foldlM d.follow start with
    | .file contents => return contents
    | _ => throw .isDirectory

end Directory

end ModelLabels.CommandLine
