import JvmGraph.Error
import JvmGraph.Text.Split
import JvmGraph.Text.Utf8

/-!
# File trees

Directories and files as a finite table, and how a path leads through them. The table says for each
path, from the root of the tree, whether it is a file or a directory; whatever leads to one of them is a
directory as well.
-/

namespace JvmGraph

open Text

/-- The names on the way from the root of a tree. -/
abbrev Path := List String

structure FileTree where
  /-- Where paths begin that do not begin with a slash. -/
  workingDirectory : Path
  /-- The bytes of a file, and none for a directory. -/
  entries : List (Path × Option Bytes)

inductive FileTree.Node where
  | directory
  | file (bytes : Bytes)
  deriving DecidableEq

namespace FileTree

def maxName : Nat := 255

def maxPath : Nat := 4095

def nodeAt? (t : FileTree) (p : Path) : Option Node :=
  match t.entries.lookup p with
  | some (some bytes) => some (.file bytes)
  | some none => some .directory
  | none =>
    if p.isPrefixOf t.workingDirectory || t.entries.any fun (q, _) => p.isPrefixOf q then
      some .directory
    else none

/-- Goes on from `here` along the names. Only a directory leads on, and a dot or nothing between two
slashes stays where it is. -/
def walk (t : FileTree) : (here : Path) → (names : List String) → Except FileFault Path
  | here, [] => .ok here
  | here, name :: rest =>
    match t.nodeAt? here with
    | none => .error .notFound
    | some (.file _) => .error .notADirectory
    | some .directory =>
      if name = "" ∨ name = "." then t.walk here rest
      else if name = ".." then t.walk here.dropLast rest
      else if maxName < name.utf8ByteSize then .error .nameTooLong
      else t.walk (here ++ [name]) rest

def origin (t : FileTree) (path : String) : Except FileFault Path :=
  if '\x00' ∈ path.toList then .error .nulInName
  else if path = "" then .error .notFound
  else if maxPath < path.utf8ByteSize then .error .nameTooLong
  else .ok (if path.toList.head? = some '/' then [] else t.workingDirectory)

/-- The place that a path names, whether there is anything or not. -/
def locate (t : FileTree) (path : String) : Except FileFault Path := do
  t.walk (← t.origin path) (split '/' path)

def read (t : FileTree) (path : String) : Except FileFault Bytes := do
  match t.nodeAt? (← t.locate path) with
  | some (.file bytes) => return bytes
  | some .directory => throw .isADirectory
  | none => throw .notFound

def parentNames (path : String) : List String :=
  (((split '/' path).reverse.dropWhile (· = "")).drop 1).reverse

/-- Puts a file in its place, over a file that is there. A path that ends with a slash can only be a
directory; its last name is not looked up, and the way to it must lead through directories. -/
def write (t : FileTree) (path : String) (bytes : Bytes) : Except FileFault (Path × FileTree) := do
  if path.toList.getLast? = some '/' then
    let _ ← t.walk (← t.origin path) (parentNames path ++ [""])
    throw .isADirectory
  let place ← t.locate path
  match t.nodeAt? place with
  | some .directory => throw .isADirectory
  | _ => return (place, { t with
      entries := (place, some bytes) :: t.entries.filter fun (q, _) => q ≠ place })

def fileCount (t : FileTree) : Nat := (t.entries.filter fun (_, bytes?) => bytes?.isSome).length

def below (workingDirectory : Path) (files : List (String × Option Bytes)) : FileTree where
  workingDirectory
  entries := files.map fun (path, bytes?) =>
    (workingDirectory ++ (split '/' path).filter (· ≠ ""), bytes?)

end FileTree

end JvmGraph
