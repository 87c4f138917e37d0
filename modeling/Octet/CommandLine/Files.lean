import Octet.Text.Quoted

/-!
# Files

A `Path` is a list of names, possibly behind a root.  Empty names and single dots
say nothing and are dropped, so the same file is always named alike; a double dot
stays, since where it leads depends on the files.

A `FileTree` is a directory of files as a program sees it that was started there.
A path is followed name by name (`FileTree.follow`): every name but the last has
to lead to a directory.  What lies above the starting directory is a directory of
which nothing else is known, so no name is found there.
-/

namespace Octet
namespace CommandLine

/-- A path: its root, if it has one, and its names. -/
structure Path where
  root : String
  names : List String
  deriving DecidableEq, Repr

namespace Path

/-- The root of a path: two slashes stay two, more are one. -/
def rootOf : List Char → String
  | '/' :: '/' :: '/' :: _ => "/"
  | '/' :: '/' :: _ => "//"
  | '/' :: _ => "/"
  | _ => ""

/-- The path that a text spells. -/
def ofText (text : String) : Path :=
  ⟨rootOf text.toList, (text.splitOn "/").filter fun name => name != "" && name != "."⟩

/-- The text of a path. -/
def text (p : Path) : String :=
  if p.root = "" ∧ p.names = [] then "."
  else p.root ++ String.intercalate "/" p.names

end Path

/-- Why a file cannot be read. -/
inductive ReadFault where
  | missing | denied | notDirectory | isDirectory | nameTooLong
  deriving DecidableEq, Repr

namespace ReadFault

/-- Every fault. -/
def all : List ReadFault := [missing, denied, notDirectory, isDirectory, nameTooLong]

/-- The number of a fault. -/
def code : ReadFault → Nat
  | missing => 2
  | denied => 13
  | notDirectory => 20
  | isDirectory => 21
  | nameTooLong => 36

/-- The fault of a number. -/
def ofCode? (n : Nat) : Option ReadFault :=
  all.find? (·.code == n)

/-- The text of a fault. -/
def text : ReadFault → String
  | missing => "No such file or directory"
  | denied => "Permission denied"
  | notDirectory => "Not a directory"
  | isDirectory => "Is a directory"
  | nameTooLong => "File name too long"

/-- The wording of a fault with the path it is about. -/
def message (f : ReadFault) (path : Path) : String :=
  "[Errno " ++ toString f.code ++ "] " ++ f.text ++ ": " ++ Text.quoted path.text

end ReadFault

/-- Files by the names that lead to them. -/
structure FileTree where
  files : List (List String × List UInt8)

namespace FileTree

/-- Where following a path has led. -/
inductive Place where
  /-- The starting directory or something below it. -/
  | inside (names : List String)
  /-- Somewhere above the starting directory. -/
  | above
  deriving DecidableEq, Repr

/-- The longest name that a file may have, in bytes. -/
def maxName : Nat := 255

/-- The longest path that may be followed, in bytes. -/
def maxPath : Nat := 4095

/-- The contents of the file that names lead to. -/
def file? (t : FileTree) (names : List String) : Option (List UInt8) :=
  t.files.lookup names

/-- Whether names lead to a directory. -/
def isDirectory (t : FileTree) (names : List String) : Bool :=
  names.isEmpty || t.files.any fun f => names.isPrefixOf f.1 && names.length < f.1.length

/-- Follow one name. -/
def enter (t : FileTree) (place : Place) (name : String) : Except ReadFault Place :=
  match place with
  | .above => if name = ".." then .ok .above else .error .missing
  | .inside names =>
    if (t.file? names).isSome then .error .notDirectory
    else if name = ".." then .ok (if names.isEmpty then .above else .inside names.dropLast)
    else if maxName < name.utf8ByteSize then .error .nameTooLong
    else
      let below := names ++ [name]
      if (t.file? below).isSome || t.isDirectory below then .ok (.inside below)
      else .error .missing

/-- Follow a path from the starting directory. -/
def follow (t : FileTree) (p : Path) : Except ReadFault Place :=
  if maxPath < p.text.utf8ByteSize then .error .nameTooLong
  else p.names.foldlM t.enter (if p.root = "" then .inside [] else .above)

/-- The contents of the file at a path. -/
def read (t : FileTree) (p : Path) : Except ReadFault (List UInt8) := do
  match ← t.follow p with
  | .above => throw .isDirectory
  | .inside names =>
    match t.file? names with
    | some bytes => return bytes
    | none => throw .isDirectory

end FileTree
end CommandLine
end Octet
