import Pdp8.Text.Split

/-!
# Pdp8.FileTree — reading a file by its path

Files stand in a tree of directories.  A path is followed one name at a time, from the root if it
begins with a slash and from the working directory otherwise.  Whatever precedes a slash has to be
a directory, so an empty name, like the name `.`, stays in the directory it is in, and is an error
after a file.
-/

namespace Pdp8

/-- Why a file cannot be read as text. -/
inductive FileError
  | notFound
  | permissionDenied
  | notDirectory
  | isDirectory
  | nameTooLong
  | notUtf8
  | other (text : String)
  deriving DecidableEq, Repr

/-- The wording of a file error. -/
def FileError.message : FileError → String
  | .notFound => "No such file or directory (os error 2)"
  | .permissionDenied => "Permission denied (os error 13)"
  | .notDirectory => "Not a directory (os error 20)"
  | .isDirectory => "Is a directory (os error 21)"
  | .nameTooLong => "File name too long (os error 36)"
  | .notUtf8 => "stream did not contain valid UTF-8"
  | .other text => text

/-- The file error that an error code of the system stands for; a code without an error of its own
keeps its details. -/
def FileError.ofCode (code : Nat) (details : String) : FileError :=
  match code with
  | 2 => .notFound
  | 13 => .permissionDenied
  | 20 => .notDirectory
  | 21 => .isDirectory
  | 36 => .nameTooLong
  | _ => .other (details ++ " (os error " ++ toString code ++ ")")

/-- A file, or a directory with its entries by name. -/
inductive FileTree
  | file (contents : ByteArray)
  | directory (entries : List (String × FileTree))

namespace FileTree

/-- The longest name of an entry, in bytes. -/
def maxName : Nat := 255

/-- The longest path, in bytes. -/
def maxPath : Nat := 4095

/-- A place in a tree, with the directories above it, the nearest first. -/
structure Place where
  here : FileTree
  above : List FileTree

namespace Place

/-- The directory above a place; the root is above itself. -/
def parent (p : Place) : Place :=
  match p.above with
  | [] => p
  | up :: above => ⟨up, above⟩

/-- The root of the tree that a place is in. -/
def root (p : Place) : Place := ⟨p.above.getLast?.getD p.here, []⟩

/-- Go from a directory to what a name stands for there. -/
def enter (name : String) (p : Place) : Except FileError Place :=
  match p.here with
  | .file _ => .error .notDirectory
  | .directory entries =>
    if name = "" ∨ name = "." then .ok p
    else if name = ".." then .ok p.parent
    else if maxName < name.utf8ByteSize then .error .nameTooLong
    else
      match entries.find? fun e => e.1 == name with
      | none => .error .notFound
      | some e => .ok ⟨e.2, p.here :: p.above⟩

/-- Follow some names one after another. -/
def follow : List String → Place → Except FileError Place
  | [], p => .ok p
  | name :: names, p =>
    match p.enter name with
    | .error e => .error e
    | .ok p => p.follow names

/-- The contents of the file at a path, which is followed from the working directory `p`. -/
def read (p : Place) (path : String) : Except FileError ByteArray :=
  if path = "" then .error .notFound
  else if maxPath < path.utf8ByteSize then .error .nameTooLong
  else
    let names := (Text.splitWhen (· == '/') path.toList).map String.ofList
    match (if path.startsWith "/" then p.root else p).follow names with
    | .error e => .error e
    | .ok ⟨.file contents, _⟩ => .ok contents
    | .ok ⟨.directory _, _⟩ => .error .isDirectory

end Place

end FileTree

end Pdp8
