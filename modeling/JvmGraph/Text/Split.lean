/-!
# Cutting texts

Texts cut at a character, and endings taken off.
-/

namespace JvmGraph.Text

def piecesFrom (cut : Char) (read : List Char) : List Char → List (List Char)
  | [] => [read.reverse]
  | c :: rest =>
    if c = cut then read.reverse :: piecesFrom cut [] rest else piecesFrom cut (c :: read) rest

/-- The pieces between the occurrences of `cut`; there is one more of them than of these. -/
def pieces (cut : Char) (s : List Char) : List (List Char) := piecesFrom cut [] s

def split (cut : Char) (s : String) : List String := (pieces cut s.toList).map String.ofList

def cutOnce? (cut : Char) (s : String) : Option (String × String) :=
  match s.toList.dropWhile (· ≠ cut) with
  | _ :: after => some (String.ofList (s.toList.takeWhile (· ≠ cut)), String.ofList after)
  | [] => none

def dropEndings (ending : List Char) : (times : Nat) → List Char → List Char
  | 0, s => s
  | times + 1, s =>
    if ending.isSuffixOf s then dropEndings ending times (s.take (s.length - ending.length)) else s

def withoutEndings (ending s : String) : String :=
  String.ofList (dropEndings ending.toList s.length s.toList)

end JvmGraph.Text
