import Slidewalk.Text.Utf8

/-!
# Files that a command reads

A command sees files through what reading a path gives. A directory of files gives what a file
system gives whose working directory it is.
-/

namespace Slidewalk.Command

/-- Reasons a file system has for not giving the contents of a path. -/
inductive ReadFault where
  | notFound
  | denied
  | notDirectory
  | isDirectory
  | nameTooLong
  | notText
  | other (cause : String)
  deriving DecidableEq, Repr

namespace ReadFault

def message : ReadFault → String
  | notFound => "No such file or directory (os error 2)"
  | denied => "Permission denied (os error 13)"
  | notDirectory => "Not a directory (os error 20)"
  | isDirectory => "Is a directory (os error 21)"
  | nameTooLong => "File name too long (os error 36)"
  | notText => "stream did not contain valid UTF-8"
  | other cause => cause

end ReadFault

abbrev Files := String → Except ReadFault (List UInt8)

/-- The text of a file, which must be UTF-8. -/
def Files.readText (files : Files) (path : String) : Except ReadFault (List Char) :=
  match files path with
  | .error fault => .error fault
  | .ok bytes =>
      match Text.Utf8.decode 0 bytes with
      | .error _ => .error .notText
      | .ok text => .ok text

/-- Files below a working directory, under the names of the directories on the way and their own. -/
abbrev Directory := List (List String × List UInt8)

namespace Directory

/-- The longest name a file can have, in bytes. -/
def maxName : Nat := 255

/-- The longest path, in bytes. -/
def maxPath : Nat := 4095

/-- Where a path leads: into the working directory, or above it. -/
inductive Place where
  | below (names : List String)
  | above
  deriving DecidableEq, Repr

def isDirectory (directory : Directory) (names : List String) : Bool :=
  names.isEmpty || directory.any fun (file, _) =>
    names.isPrefixOf file && names.length < file.length

def contents? (directory : Directory) (names : List String) : Option (List UInt8) :=
  directory.lookup names

def enter (directory : Directory) (place : Place) (name : String) : Except ReadFault Place :=
  match place with
  | .above =>
      -- nothing above the working directory can be seen from it
      if name = "" ∨ name = "." ∨ name = ".." then .ok .above
      else if maxName < name.utf8ByteSize then .error .nameTooLong
      else .error .notFound
  | .below names =>
      if !directory.isDirectory names then .error .notDirectory
      else if name = "" ∨ name = "." then .ok place
      else if name = ".." then .ok (if names.isEmpty then .above else .below names.dropLast)
      else if maxName < name.utf8ByteSize then .error .nameTooLong
      else
        let longer := names ++ [name]
        if directory.isDirectory longer || (directory.contents? longer).isSome then
          .ok (.below longer)
        else .error .notFound

def walk (directory : Directory) (place : Place) : List String → Except ReadFault Place
  | [] => .ok place
  | name :: rest =>
      match directory.enter place name with
      | .error fault => .error fault
      | .ok place => walk directory place rest

/-- The parts of a path between slashes. -/
def splitPath : List Char → List (List Char)
  | [] => [[]]
  | c :: rest =>
      if c = '/' then [] :: splitPath rest
      else match splitPath rest with
        | [] => [[c]]
        | first :: more => (c :: first) :: more

/-- What reading a path gives in a directory. -/
def read (directory : Directory) : Files := fun path =>
  let names := (splitPath path.toList).map String.ofList
  let start : Place := if path.toList.head? = some '/' then .above else .below []
  if path.isEmpty then .error .notFound
  else if maxPath < path.utf8ByteSize then .error .nameTooLong
  else match directory.walk start names with
    | .error fault => .error fault
    | .ok .above => .error .isDirectory
    | .ok (.below names) =>
        match directory.contents? names with
        | some bytes => .ok bytes
        | none => .error .isDirectory

def ofFiles (files : List (String × List UInt8)) : Directory :=
  files.map fun (path, bytes) => ((splitPath path.toList).map String.ofList, bytes)

end Directory

end Slidewalk.Command
