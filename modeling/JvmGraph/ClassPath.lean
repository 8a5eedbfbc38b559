import JvmGraph.FileTree
import JvmGraph.Loading

/-!
# Class paths

Places where class files are looked for, one after the other. The file of a class is the name of the
class behind that of the place, with an ending.
-/

namespace JvmGraph

structure ClassPathEntry where
  /-- Empty, or with a slash at the end. -/
  directory : String
  /-- Classes found here are compiled against and never emitted. -/
  isExtern : Bool
  deriving DecidableEq, Repr

def ClassPathEntry.ofDirectory (directory : String) (isExtern : Bool) : ClassPathEntry where
  directory :=
    if directory = "" ∨ directory.toList.getLast? = some '/' then directory else directory ++ "/"
  isExtern

abbrev ClassPath := List ClassPathEntry

namespace ClassPath

def addFirst (p : ClassPath) (directory : String) : ClassPath :=
  .ofDirectory directory false :: p

def addLast (p : ClassPath) (directory : String) : ClassPath :=
  p ++ [.ofDirectory directory false]

def addExtern (p : ClassPath) (directory : String) : ClassPath :=
  p ++ [.ofDirectory directory true]

def find (t : FileTree) (name : String) : ClassPath → Except Error (Option Located)
  | [] => return none
  | entry :: rest =>
    match t.read (entry.directory ++ name ++ ".class") with
    | .ok bytes => return some { bytes, isExtern := entry.isExtern }
    | .error .notFound => find t name rest
    | .error fault => throw (.io fault)

def source (p : ClassPath) (t : FileTree) : ClassSource where
  find name := find t name p
  size := t.fileCount

end ClassPath

end JvmGraph
