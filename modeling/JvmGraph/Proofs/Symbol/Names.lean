import Mathlib.Tactic.Lemma
import JvmGraph.Symbol.Demangle

/-!
# Names in symbols

A class name is its parts with slashes between them, and the scopes of a class name are what one gets
by putting the parts together one after the other. A name behind its length is read back whatever
follows it, unless the name runs into the length: that is what a leading digit would do.
-/

namespace JvmGraph.Text

lemma piecesFrom_ne_nil (cut : Char) : ∀ (read s : List Char), piecesFrom cut read s ≠ []
  | read, [] => by simp [piecesFrom]
  | read, c :: rest => by
    rw [piecesFrom]
    split
    · simp
    · exact piecesFrom_ne_nil cut _ rest

lemma intercalate_piecesFrom (cut : Char) :
    ∀ read s : List Char, List.intercalate [cut] (piecesFrom cut read s) = read.reverse ++ s
  | read, [] => by simp [piecesFrom]
  | read, c :: rest => by
    rw [piecesFrom]
    split
    next hc =>
      subst hc
      simp [List.intercalate_cons_of_ne_nil (piecesFrom_ne_nil c [] rest), intercalate_piecesFrom c [] rest]
    next =>
      simp [intercalate_piecesFrom cut (c :: read) rest]

lemma intercalate_pieces (cut : Char) (s : List Char) : List.intercalate [cut] (pieces cut s) = s :=
  intercalate_piecesFrom cut [] s

lemma pieces_ne_nil (cut : Char) (s : List Char) : pieces cut s ≠ [] := piecesFrom_ne_nil cut [] s

end JvmGraph.Text

namespace JvmGraph.Symbol

open Text

variable {s name rest : List Char}

/-! ## Class names -/

def leadsWithDigit (s : List Char) : Bool := s.head?.any Char.isDigit

lemma leadsWithDigit_append (hs : s ≠ []) (rest : List Char) : leadsWithDigit (s ++ rest) = leadsWithDigit s := by
  obtain ⟨c, s, rfl⟩ := List.exists_cons_of_ne_nil hs
  rfl

def IsParted (name : List Char) : Prop := ∀ part ∈ pieces '/' name, part ≠ []

instance (name : List Char) : Decidable (IsParted name) := inferInstanceAs (Decidable (∀ _ ∈ _, _))

def IsDelimited (name : List Char) : Prop := ∀ part ∈ pieces '/' name, leadsWithDigit part = false

instance (name : List Char) : Decidable (IsDelimited name) := inferInstanceAs (Decidable (∀ _ ∈ _, _))

/-- The class name that ends with `part`, behind what has been read of it. -/
def joined (path? : Option (List Char)) (part : List Char) : List Char :=
  path?.elim part fun path => path ++ '/' :: part

/-- The parts of a class name that begins with `path?`, each behind the name up to its end. -/
def paths (path? : Option (List Char)) : List (List Char) → List (List Char × List Char)
  | [] => []
  | part :: rest => (joined path? part, part) :: paths (some (joined path? part)) rest

def front (path? : Option (List Char)) : List Char := path?.elim [] (· ++ ['/'])

lemma joined_eq (path? : Option (List Char)) (part : List Char) : joined path? part = front path? ++ part := by
  cases path? <;> simp [joined, front]

/-- Parts that go on with a class name lie in it where their scopes say. -/
lemma scopesFrom_paths {name : List Char} : ∀ (path? : Option (List Char)) (ps : List (List Char)),
    (∀ part ∈ ps, part ≠ []) → name = front path? ++ List.intercalate ['/'] ps →
    (scopesFrom (front path?).length ps).map (fun s => (name.take s.stop, s.part)) = paths path? ps
  | _, [], _, _ => rfl
  | path?, part :: ps, hne, hname => by
    have hpart : part ≠ [] := hne part (List.mem_cons_self ..)
    obtain ⟨rest, hrest⟩ : ∃ rest, name = (front path? ++ part) ++ rest := by
      cases ps with
      | nil => exact ⟨[], by simp [hname]⟩
      | cons q qs => exact ⟨_, by rw [hname]; simp only [List.append_assoc]; rfl⟩
    have htake : name.take ((front path?).length + part.length) = joined path? part := by
      rw [hrest, ← List.length_append, List.take_left, joined_eq]
    rw [scopesFrom, if_neg hpart, List.map_cons, htake]
    congr 1
    cases ps with
    | nil => rfl
    | cons q qs =>
      have hfront : front (some (joined path? part)) = front path? ++ part ++ ['/'] := by
        rw [← joined_eq]; rfl
      have hrec := @scopesFrom_paths name (some (joined path? part)) (q :: qs)
        (fun x hx => hne x (List.mem_cons_of_mem _ hx))
        (by rw [hname, hfront]; simp)
      rwa [hfront, List.length_append, List.length_append] at hrec

lemma scopes_paths (h : IsParted name) :
    (scopes name).map (fun s => (name.take s.stop, s.part)) = paths none (pieces '/' name) :=
  scopesFrom_paths none _ h (intercalate_pieces '/' name).symm

lemma scopesFrom_stop : ∀ {start : Nat} {ps : List (List Char)} {s : Scope}, s ∈ scopesFrom start ps → start < s.stop
  | start, [], s, h => by simp [scopesFrom] at h
  | start, part :: ps, s, h => by
    rw [scopesFrom] at h
    split at h
    next =>
      have := scopesFrom_stop h; omega
    next hpart =>
      rcases List.mem_cons.1 h with rfl | h
      · have := List.length_pos_iff.2 hpart; simpa using this
      · have := scopesFrom_stop h; omega

lemma scopesFrom_stop_le : ∀ {start : Nat} {ps : List (List Char)} {s : Scope}, s ∈ scopesFrom start ps →
    s.stop ≤ start + (List.intercalate ['/'] ps).length
  | start, [], s, h => by simp [scopesFrom] at h
  | start, [part], s, h => by
    rw [scopesFrom] at h
    split at h
    · simp [scopesFrom] at h
    · simp only [scopesFrom, List.mem_singleton] at h; simp [h]
  | start, part :: q :: qs, s, h => by
    rw [scopesFrom] at h
    have hrest : s ∈ scopesFrom (start + part.length + 1) (q :: qs) →
        s.stop ≤ start + (List.intercalate ['/'] (part :: q :: qs)).length := fun h => by
      have := scopesFrom_stop_le h
      simp only [List.intercalate_cons_cons, List.length_append, List.length_singleton]; omega
    split at h
    · exact hrest h
    · rcases List.mem_cons.1 h with rfl | h
      · simp only [List.intercalate_cons_cons, List.length_append]; omega
      · exact hrest h

lemma scopesFrom_sorted : ∀ (start : Nat) (ps : List (List Char)),
    (scopesFrom start ps).Pairwise fun a b => a.stop < b.stop
  | _, [] => List.Pairwise.nil
  | start, part :: ps => by
    rw [scopesFrom]
    split
    · exact scopesFrom_sorted _ ps
    · refine List.pairwise_cons.2 ⟨fun s hs => ?_, scopesFrom_sorted _ ps⟩
      have := scopesFrom_stop hs; simp only; omega

lemma scopes_distinct (name : List Char) : (scopes name).Pairwise fun a b => name.take a.stop ≠ name.take b.stop := by
  refine (scopesFrom_sorted 0 (pieces '/' name)).imp_of_mem fun {a b} ha hb hlt heq => ?_
  have hle := scopesFrom_stop_le hb
  rw [intercalate_pieces] at hle
  have := congrArg List.length heq
  simp only [List.length_take] at this
  omega

lemma map_part_scopesFrom : ∀ (start : Nat) (ps : List (List Char)),
    (scopesFrom start ps).map Scope.part = ps.filter (· ≠ [])
  | _, [] => rfl
  | start, part :: ps => by
    rw [scopesFrom]
    split
    next h => rw [map_part_scopesFrom, List.filter_cons_of_neg (by simpa using h)]
    next h => rw [List.map_cons, map_part_scopesFrom, List.filter_cons_of_pos (by simpa using h)]

lemma map_part_scopes (name : List Char) : (scopes name).map Scope.part = (pieces '/' name).filter (· ≠ []) :=
  map_part_scopesFrom 0 _

/-! ## Names behind their length -/

lemma takeBytes?_append : ∀ (name rest : List Char), takeBytes? (byteLength name) (name ++ rest) = some (name, rest)
  | [], rest => by simp [byteLength, takeBytes?]
  | c :: name, rest => by
    obtain ⟨n, hn⟩ : ∃ n, byteLength (c :: name) = n + 1 :=
      Nat.exists_eq_add_one.2 (Nat.add_pos_left c.utf8Size_pos _)
    have hc : c.utf8Size + byteLength name = n + 1 := hn
    rw [hn, List.cons_append, takeBytes?, if_pos (by omega), show n + 1 - c.utf8Size = byteLength name by omega,
      takeBytes?_append name rest]
    rfl

lemma number?_toDigits (n : Nat) : number? (Nat.toDigits 10 n) = some n := by
  have h : (Nat.toDigits 10 n).foldl (fun n d => n * 10 + (d.toNat - '0'.toNat)) 0 = n := by
    simpa only [Nat.ofDigitChars, Nat.mul_comm] using Nat.ofDigitChars_ten_toDigits (n := n)
  rw [number?, if_neg Nat.toDigits_ne_nil, h]

lemma isDigit_of_mem_toDigits {n : Nat} {c : Char} (h : c ∈ Nat.toDigits 10 n) : c.isDigit = true :=
  Nat.isDigit_of_mem_toDigits (by decide) (by decide) h

lemma takeWhile_isDigit (h : leadsWithDigit s = false) : s.takeWhile Char.isDigit = [] := by
  cases s with
  | nil => rfl
  | cons c s => exact List.takeWhile_cons_of_neg (by simpa [leadsWithDigit] using h)

lemma takeWhile_sourceName (h : leadsWithDigit (name ++ rest) = false) :
    (sourceName name ++ rest).takeWhile Char.isDigit = Nat.toDigits 10 (byteLength name) := by
  rw [sourceName, List.append_assoc, List.takeWhile_append_of_pos fun _ => isDigit_of_mem_toDigits,
    takeWhile_isDigit h, List.append_nil]

lemma dropWhile_sourceName (h : leadsWithDigit (name ++ rest) = false) :
    (sourceName name ++ rest).dropWhile Char.isDigit = name ++ rest := by
  rw [sourceName, List.append_assoc, List.dropWhile_append_of_pos fun _ => isDigit_of_mem_toDigits]
  have := List.takeWhile_append_dropWhile (p := Char.isDigit) (l := name ++ rest)
  rwa [takeWhile_isDigit h] at this

lemma sourceName_eq_cons (name : List Char) : ∃ d s, d.isDigit = true ∧ sourceName name = d :: s := by
  obtain ⟨d, s, hs⟩ := List.exists_cons_of_ne_nil (Nat.toDigits_ne_nil (n := byteLength name) (b := 10))
  exact ⟨d, s ++ name, isDigit_of_mem_toDigits (by rw [hs]; exact List.mem_cons_self ..), by simp [sourceName, hs]⟩

lemma length_le_length_flatMap_sourceName (parts : List (List Char)) :
    parts.length ≤ (parts.flatMap sourceName).length := by
  induction parts with
  | nil => simp
  | cons part parts ih =>
    obtain ⟨d, s, -, hs⟩ := sourceName_eq_cons part
    rw [List.flatMap_cons, hs]
    simp only [List.length_cons, List.length_append]; omega

lemma after?_append : ∀ s rest : List Char, after? s (s ++ rest) = some rest
  | [], rest => by cases rest <;> rfl
  | c :: s, rest => by rw [List.cons_append, after?, if_pos rfl, after?_append s rest]

end JvmGraph.Symbol
