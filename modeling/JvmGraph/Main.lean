import JvmGraph.CommandLine.Run

/-!
# The command line

Reads the files below the directories of the class path into a tree, runs the command over it, prints
what it prints and writes what it writes.
-/

namespace JvmGraph.CommandLine

def namesOf (path : String) : Path :=
  (Text.split '/' path).foldl (fun p name =>
    if name = "" ∨ name = "." then p else if name = ".." then p.dropLast else p ++ [name]) []

/-- An entry of a directory with everything below it. -/
partial def readBelow (entry : IO.FS.DirEntry) : IO (List (Path × Option Text.Bytes)) := do
  let path := entry.path
  let names := namesOf path.toString
  if ← path.isDir then
    let mut found := [(names, none)]
    for inner in ← path.readDir do
      found := found ++ (← readBelow inner)
    return found
  else
    return [(names, some (← IO.FS.readBinFile path).toList)]

def directories (words : List String) : List String :=
  match Command.parse? {} words with
  | some (.compile args _) => (classPathOf args).map ClassPathEntry.directory
  | _ => []

def readTree (directories : List String) : IO FileTree := do
  let here ← IO.currentDir
  let mut entries := []
  for directory in directories do
    let top := here / directory
    if ← top.isDir then
      for entry in ← top.readDir do
        entries := entries ++ (← readBelow entry)
  return { workingDirectory := namesOf here.toString, entries }

end JvmGraph.CommandLine

open JvmGraph CommandLine

def main (words : List String) : IO UInt32 := do
  let outcome := run (← readTree (directories words)) words
  for line in outcome.printed do
    IO.println line
  for (path, text) in outcome.written do
    IO.FS.writeFile ("/" ++ "/".intercalate path) text
  match outcome.failure? with
  | some .usage => IO.eprintln "usage: mangle | demangle | translate"
  | some failure =>
    if let some report := failure.report? then
      IO.eprintln ("Error: " ++ report)
  | none => pure ()
  return outcome.exitCode
