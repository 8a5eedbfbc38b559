import JvmGraph.Abi.Basic
import JvmGraph.Text.Split

/-!
# Arguments

What the words on a command line ask for. Switches and settings may stand anywhere behind the name of
the command, and two dashes end them. A setting takes its value from the same word, or from the next one
unless that is an option; what stands in the word of a switch behind an equals sign is passed over.
-/

namespace JvmGraph.CommandLine

open Text

inductive Switch where
  | verbose | isStatic | gcj | simple
  deriving DecidableEq, Repr

inductive Setting where
  | classPath | bootClassPath | externClassPath | output
  deriving DecidableEq, Repr

def switchNames : List (String × Switch) :=
  [("verbose", .verbose), ("static", .isStatic), ("gcj", .gcj), ("simplert", .simple)]

def settingNames : List (String × Setting) :=
  [("classpath", .classPath), ("cp", .classPath), ("bootclasspath", .bootClassPath),
    ("externclasspath", .externClassPath), ("output", .output)]

structure Usage where
  switches : List Switch
  settings : List Setting

structure Args where
  switches : List Switch := []
  /-- Settings each time they are named, with or without a value. -/
  named : List Setting := []
  settings : List (Setting × String) := []
  words : List String := []
  deriving DecidableEq, Repr

namespace Args

def values (a : Args) (s : Setting) : List String :=
  (a.settings.filter fun (t, _) => t = s).map Prod.snd

def addSwitch (u : Usage) (a : Args) (s : Switch) : Option Args :=
  if s ∈ u.switches ∧ s ∉ a.switches then some { a with switches := a.switches ++ [s] } else none

def nameSetting (u : Usage) (a : Args) (s : Setting) : Option Args :=
  if s ∉ u.settings ∨ (s = .output ∧ s ∈ a.named) then none
  else some { a with named := a.named ++ [s] }

def addValue (a : Args) (s : Setting) (value : String) : Args :=
  { a with settings := a.settings ++ [(s, value)] }

def addWords (a : Args) (words : List String) : Args := { a with words := a.words ++ words }

/-- Arguments in which every setting that is named has a value, be it from another time. -/
def complete? (a : Args) : Option Args := if a.named.all fun s => a.values s ≠ [] then some a else none

/-- A value in the word of its setting may have an equals sign in front. -/
def inlineValue (value : List Char) : String := String.ofList (value.dropWhile (· = '='))

/-- The one-letter options in a word. A setting takes the rest of the word as its value, or waits for
the next word. -/
def readLetters (u : Usage) (a : Args) : List Char → Option (Args × Option Setting)
  | [] => some (a, none)
  | 'v' :: rest => do readLetters u (← a.addSwitch u .verbose) rest
  | 'o' :: rest => do
    let a ← a.nameSetting u .output
    if rest = [] then return (a, some .output)
    else return (a.addValue .output (inlineValue rest), none)
  | _ => none

def readName (u : Usage) (a : Args) (name : String) (value? : Option String) :
    Option (Args × Option Setting) :=
  match switchNames.lookup name, settingNames.lookup name with
  | some s, _ => do return (← a.addSwitch u s, none)
  | none, some s => do
    let a ← a.nameSetting u s
    match value? with
    | some value => return (a.addValue s value, none)
    | none => return (a, some s)
  | none, none => none

/-- An option by its name, which any number of dashes may stand in front of, with a value behind an
equals sign or not. -/
def readLong (u : Usage) (a : Args) (word : List Char) : Option (Args × Option Setting) :=
  let word := word.dropWhile (· = '-')
  match word.takeWhile (· ≠ '='), word.dropWhile (· ≠ '=') with
  | name, [] => a.readName u (String.ofList name) none
  | name, value => a.readName u (String.ofList name) (some (inlineValue value))

def readWord (u : Usage) (a : Args) (word : String) : Option (Args × Option Setting) :=
  match word.toList with
  | '-' :: '-' :: name => a.readLong u name
  | '-' :: c :: letters => a.readLetters u (c :: letters)
  | _ => some (a.addWords [word], none)

def isOption (word : String) : Bool :=
  match word.toList with
  | '-' :: _ :: _ => true
  | _ => false

def readAll (u : Usage) (a : Args) (waiting? : Option Setting) : List String → Option Args
  | [] => a.complete?
  | word :: rest =>
    if word = "--" then (a.addWords rest).complete?
    else match waiting?, isOption word with
      | some s, false => readAll u (a.addValue s word) none rest
      | _, _ => do
        let (a, waiting?) ← a.readWord u word
        readAll u a waiting? rest

end Args

inductive Command where
  | nothing
  | mangle (isStatic : Bool) (items : List String)
  | demangle (symbols : List String)
  | compile (args : Args) (root : String)
  deriving DecidableEq, Repr

namespace Command

def mangleUsage : Usage := ⟨[.verbose, .isStatic], []⟩
def demangleUsage : Usage := ⟨[.verbose], []⟩
def compileUsage : Usage :=
  ⟨[.verbose, .gcj, .simple], [.classPath, .bootClassPath, .externClassPath, .output]⟩

def named? (name : String) (words : List String) : Option Command :=
  if name = "mangle" then do
    let a ← Args.readAll mangleUsage {} none words
    if a.words = [] then none else return .mangle (.isStatic ∈ a.switches) a.words
  else if name = "demangle" then do
    let a ← Args.readAll demangleUsage {} none words
    if a.words = [] then none else return .demangle a.words
  else if name = "translate" then do
    let a ← Args.readAll compileUsage {} none words
    if Switch.gcj ∈ a.switches ∧ Switch.simple ∈ a.switches then none
    else match a.words with
      | [root] => return .compile a root
      | _ => none
  else none

/-- The command that the words ask for, if they are well formed. Options that every command knows may
come first. Without a command nothing is done, and no other words are understood. -/
def parse? (a : Args) : List String → Option Command
  | [] => some .nothing
  | word :: rest =>
    if word = "--" then if rest = [] then some .nothing else none
    else if Args.isOption word then do
      let (a, _) ← a.readWord ⟨[.verbose], []⟩ word
      parse? a rest
    else named? word rest

end Command

end JvmGraph.CommandLine
