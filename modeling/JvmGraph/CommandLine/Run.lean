import JvmGraph.ClassPath
import JvmGraph.CommandLine.Args
import JvmGraph.Compilation
import JvmGraph.Program.Text
import JvmGraph.Symbol.Demangle

/-!
# Commands

What a command prints and writes. Lines that were printed and files that were written before a failure
stay.
-/

namespace JvmGraph.CommandLine

open Text

inductive Failure where
  /-- The words on the command line make no sense. -/
  | usage
  | fault (error : Error)
  /-- A file could not be written. -/
  | output (fault : FileFault)
  deriving DecidableEq, Repr

def Failure.exitCode : Failure → UInt32
  | fault (.breakdown _) => 101
  | _ => 1

def Failure.report? : Failure → Option String
  | usage | fault (.breakdown _) => none
  | fault e => some e.inspect
  | output f => some f.shape.text

structure Outcome where
  /-- The lines that were printed. -/
  printed : List String := []
  /-- The files that were written, with their places in the tree. -/
  written : List (Path × String) := []
  failure? : Option Failure := none
  deriving DecidableEq, Repr

namespace Outcome

def exitCode (o : Outcome) : UInt32 := o.failure?.elim 0 Failure.exitCode

def printing {α : Type} (lines : α → Except Error (List String)) : List α → Outcome
  | [] => {}
  | item :: rest =>
    match lines item with
    | .error e => { failure? := some (.fault e) }
    | .ok ls => let o := printing lines rest; { o with printed := ls ++ o.printed }

end Outcome

/-- The symbols for `a/b/C.name:(I)V`, a method, for `a/b/C.name`, a field, and for `a/b/C`, the
dispatch table and the class object. -/
def mangled (isStatic : Bool) (item : String) : Except Error (List String) := do
  match cutOnce? '.' item with
  | none => return [← Symbol.mangleVTable item, ← Symbol.mangleClassObject item]
  | some (owner, member) =>
    let (name, descriptor) := (cutOnce? ':' member).getD (member, "")
    if descriptor = "" then return [← Symbol.mangleMember owner name .field]
    let type ← MethodType.parse descriptor
    return [← Symbol.mangleMember owner name (.method type isStatic)]

def demangled (symbol : String) : Except Error (List String) := do
  let d ← Symbol.demangle symbol
  match d.member? with
  | some member => return [d.owner ++ "." ++ member ++ d.signature]
  | none => return ["vtable for " ++ d.owner]

/-- The binary name of the class that is meant, be it written with dots or like a file. -/
def rootName (word : String) : String := substituted '.' '/' (withoutEndings ".class" word)

/-- Boot directories in order, then extern ones, and in front of them the others, the last one first.
Without any, the working directory is searched. -/
def classPathOf (a : Args) : ClassPath :=
  let path := (a.values .bootClassPath).foldl ClassPath.addLast []
  let path := (a.values .externClassPath).foldl ClassPath.addExtern path
  let path := (a.values .classPath).foldl ClassPath.addFirst path
  if path = [] then ClassPath.addFirst [] "." else path

/-- The file for the compiled program: as given, or the last part of the class name with an ending. -/
def outputPath (a : Args) (root : String) : String :=
  match a.values .output with
  | path :: _ => path
  | [] => ((split '/' root).getLast?.getD "") ++ ".ir"

/-- A file name without what follows its last dot. A dot in front of a name does not count. -/
def stem (name : List Char) : List Char :=
  let upTo := (name.reverse.dropWhile (· ≠ '.')).drop 1
  if upTo = [] then name else upTo.reverse

/-- The file for the startup source, beside the compiled program. Where nothing but a dot stands in
front of the ending, the two dots that are left without it name the directory above. -/
def startupPath (path : String) : String :=
  let name := path.toList.reverse.takeWhile (· ≠ '/')
  let directory := String.ofList (path.toList.take (path.length - name.length))
  let upTo := String.ofList (stem name.reverse)
  if upTo = "." then directory ++ ".." else directory ++ upTo ++ ".startup.c"

def writeAll (t : FileTree) : List (String × String) → Outcome
  | [] => {}
  | (path, text) :: rest =>
    match t.write path (Utf8.encode text) with
    | .error f => { failure? := some (.output f) }
    | .ok (place, t) =>
      let o := writeAll t rest
      { o with written := (place, text) :: o.written }

def compileRoot (t : FileTree) (a : Args) (word : String) : Outcome :=
  let root := rootName word
  let flavour := if Switch.gcj ∈ a.switches then .gcj else .simple
  match compile ((classPathOf a).source t) root flavour with
  | .error e => { failure? := some (.fault e) }
  | .ok c =>
    let output := outputPath a root
    writeAll t [(output, c.program.text), (startupPath output, c.startup)]

def Command.run (t : FileTree) : Command → Outcome
  | .nothing => {}
  | .mangle isStatic items => .printing (mangled isStatic) items
  | .demangle symbols => .printing demangled symbols
  | .compile args root => compileRoot t args root

def run (t : FileTree) (words : List String) : Outcome :=
  match Command.parse? {} words with
  | some c => c.run t
  | none => { failure? := some .usage }

end JvmGraph.CommandLine
