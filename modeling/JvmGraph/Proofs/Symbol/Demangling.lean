import JvmGraph.Proofs.Symbol.Writing

/-!
# Symbols give their names back

The names in a symbol are read back one by one: each stands behind its length, and what follows it can
neither lengthen that number nor be taken for the mark of a reserved name. So the class and the member of
a symbol are those it was written for, and what is left is the text of its types.
-/

namespace JvmGraph.Symbol

open Text Steps List

variable {invalid : Error} {rest : List Char} {member : String} {name : List Char} {owner : String}

/-! ## Sizes -/

lemma byteLength_append (s t : List Char) : byteLength (s ++ t) = byteLength s + byteLength t := by
  induction s with
  | nil => simp [byteLength]
  | cons c s ih =>
    change c.utf8Size + byteLength (s ++ t) = c.utf8Size + byteLength s + byteLength t
    omega

lemma length_le_byteLength (s : List Char) : s.length ≤ byteLength s := by
  induction s with
  | nil => simp
  | cons c s ih =>
    have := c.utf8Size_pos
    change s.length + 1 ≤ c.utf8Size + byteLength s
    omega

lemma utf8ByteSize_ofList (s : List Char) : (String.ofList s).utf8ByteSize = byteLength s := by
  induction s with
  | nil => simp [byteLength]
  | cons c s ih =>
    have hsplit : String.ofList (c :: s) = String.singleton c ++ String.ofList s := by
      rw [String.singleton_eq_ofList, ← String.ofList_append]; rfl
    rw [hsplit, String.utf8ByteSize_append, String.utf8ByteSize_singleton, ih]; rfl

/-! ## One name -/

/-- A name that can be told from what stands around it: it does not run into its length, and is not the
spelling of the class initialiser. -/
def IsLegible (name : List Char) : Prop := leadsWithDigit name = false ∧ name ≠ classInitialiser.toList

instance (name : List Char) : Decidable (IsLegible name) := inferInstanceAs (Decidable (_ ∧ _))

lemma nameLength_toDigits {n : Nat} (h : (Nat.toDigits 10 n).length + n ≤ maxLength) :
    nameLength invalid (Nat.toDigits 10 n) = .ok n := by
  simp only [nameLength, number?_toDigits]
  rw [if_neg (by omega), if_neg (by omega)]

lemma nextName_sourceName (hdigit : leadsWithDigit (name ++ rest) = false)
    (hsize : byteLength (sourceName name ++ rest) ≤ maxLength) : nextName invalid (sourceName name ++ rest) =
      .ok (if String.ofList name = classInitialiser then "<clinit>" else String.ofList name,
        if String.ofList name ∈ reservedNames then (after? ['$'] rest).getD rest else rest) := by
  have hlength : (Nat.toDigits 10 (byteLength name)).length + byteLength name ≤ maxLength := by
    have := length_le_byteLength (Nat.toDigits 10 (byteLength name))
    simp only [sourceName, byteLength_append] at hsize; omega
  rw [nextName, takeWhile_sourceName hdigit, dropWhile_sourceName hdigit, nameLength_toDigits hlength]
  simp only [bind, Except.bind, takeBytes?_append]
  rfl

lemma nextName_legible (hname : IsLegible name) (hdigit : leadsWithDigit (name ++ rest) = false)
    (hmark : after? ['$'] rest = none) (hsize : byteLength (sourceName name ++ rest) ≤ maxLength) :
    nextName invalid (sourceName name ++ rest) = .ok (String.ofList name, rest) := by
  have hclinit : String.ofList name ≠ classInitialiser := fun h => hname.2 (by rw [← h, String.toList_ofList])
  rw [nextName_sourceName hdigit hsize, if_neg hclinit, hmark, Option.getD_none, ite_self]

/-! ## Names in a row -/

lemma namesUpToEnd_end (fuel : Nat) (rest : List Char) :
    namesUpToEnd invalid fuel ('E' :: rest) = .ok ([], rest) := by
  cases fuel <;> rfl

lemma namesUpToEnd_sourceName (fuel : Nat) (name rest : List Char) :
    namesUpToEnd invalid (fuel + 1) (sourceName name ++ rest) = (do
      let (name, rest) ← nextName invalid (sourceName name ++ rest)
      let (names, after) ← namesUpToEnd invalid fuel rest
      return (name :: names, after)) := by
  obtain ⟨d, s, hd, hs⟩ := sourceName_eq_cons name
  rw [hs]
  rw [namesUpToEnd]
  · intro rest' heq; rw [(List.cons.inj heq).1] at hd; simp at hd
  · intro rest' heq; rw [(List.cons.inj heq).1] at hd; simp at hd

lemma after?_dollar_sourceName (name rest : List Char) : after? ['$'] (sourceName name ++ rest) = none := by
  obtain ⟨d, s, hd, hs⟩ := sourceName_eq_cons name
  rw [hs, cons_append, after?, if_neg]
  rintro rfl
  simp at hd

lemma namesUpToEnd_parts {fuel : Nat} {after : List Char} {names : List String} (hmark : after? ['$'] rest = none)
    (hrest : namesUpToEnd invalid fuel rest = .ok (names, after)) :
    ∀ {parts : List (List Char)}, (∀ part ∈ parts, part ≠ [] ∧ IsLegible part) →
      byteLength (parts.flatMap sourceName ++ rest) ≤ maxLength →
      namesUpToEnd invalid (fuel + parts.length) (parts.flatMap sourceName ++ rest) =
        .ok (parts.map String.ofList ++ names, after)
  | [], _, _ => hrest
  | part :: parts, hparts, hsize => by
    obtain ⟨hne, hlegible⟩ := hparts part (mem_cons_self ..)
    have hdigit : ∀ s, leadsWithDigit (part ++ s) = false := fun s => leadsWithDigit_append hne s ▸ hlegible.1
    rw [flatMap_cons, append_assoc] at hsize ⊢
    have hunmarked : after? ['$'] (parts.flatMap sourceName ++ rest) = none := by
      cases parts with
      | nil => exact hmark
      | cons q qs => rw [flatMap_cons, append_assoc, after?_dollar_sourceName]
    have hrec := namesUpToEnd_parts hmark hrest (fun q hq => hparts q (mem_cons_of_mem _ hq))
      (by rw [byteLength_append] at hsize; omega)
    rw [length_cons, ← Nat.add_assoc, namesUpToEnd_sourceName, nextName_legible hlegible (hdigit _) hunmarked hsize]
    change (namesUpToEnd invalid (fuel + parts.length) (parts.flatMap sourceName ++ rest) >>= _) = _
    rw [hrec]; rfl

lemma namesUpToEnd_memberName (hmember : IsLegible member.toList) (fuel : Nat)
    (hsize : byteLength (memberName member ++ 'E' :: rest) ≤ maxLength) :
    namesUpToEnd invalid (fuel + 1) (memberName member ++ 'E' :: rest) = .ok ([member], rest) := by
  rw [memberName] at hsize ⊢
  split at hsize
  next hinit =>
    rw [if_pos hinit, hinit]
    change (namesUpToEnd invalid fuel ('E' :: rest) >>= _) = _
    rw [namesUpToEnd_end]; rfl
  next hinit =>
    rw [if_neg hinit]
    split at hsize
    next hclinit =>
      have hdigit : leadsWithDigit (classInitialiser.toList ++ 'E' :: rest) = false :=
        (leadsWithDigit_append (by decide) _).trans (by decide)
      rw [if_pos hclinit, namesUpToEnd_sourceName, nextName_sourceName hdigit hsize]
      change (namesUpToEnd invalid fuel ('E' :: rest) >>= _) = _
      rw [namesUpToEnd_end, hclinit]; rfl
    next hclinit =>
      rw [if_neg hclinit, append_assoc]
      rw [append_assoc] at hsize
      have hname : String.ofList member.toList = member := String.ofList_toList
      have hspelled : member ≠ classInitialiser := fun h => hmember.2 (by rw [h])
      have hdigit : leadsWithDigit (member.toList ++ ((if member ∈ reservedNames then ['$'] else []) ++ 'E' :: rest)) =
          false := by
        by_cases hnil : member.toList = []
        · rw [hnil]
          split <;> rfl
        · rw [leadsWithDigit_append hnil]; exact hmember.1
      rw [namesUpToEnd_sourceName, nextName_sourceName hdigit hsize, hname, if_neg hspelled]
      by_cases hreserved : member ∈ reservedNames
      · simp only [if_pos hreserved]
        change (namesUpToEnd invalid fuel ('E' :: rest) >>= _) = _
        rw [namesUpToEnd_end]; rfl
      · simp only [if_neg hreserved]
        change (namesUpToEnd invalid fuel ('E' :: rest) >>= _) = _
        rw [namesUpToEnd_end]; rfl

/-! ## Whole symbols -/

lemma intercalate_parts (name : String) :
    String.intercalate "/" ((pieces '/' name.toList).map String.ofList) = name := by
  rw [← String.toList_inj, String.toList_intercalate, map_map]
  have hparts : (pieces '/' name.toList).map (String.toList ∘ String.ofList) = pieces '/' name.toList :=
    (map_congr_left fun part _ => String.toList_ofList).trans (map_id _)
  rw [hparts]
  exact intercalate_pieces '/' name.toList

section

variable (howner : ∀ part ∈ pieces '/' owner.toList, part ≠ [] ∧ IsLegible part)
include howner

lemma demangleMember_written (hmember : IsLegible member.toList) {types : List Char}
    (hsize : byteLength
    ((pieces '/' owner.toList).flatMap sourceName ++ (memberName member ++ 'E' :: types)) ≤ maxLength) :
    demangleMember invalid ((pieces '/' owner.toList).flatMap sourceName ++ (memberName member ++ 'E' :: types)) =
      .ok ⟨owner, some member, String.ofList types⟩ := by
  generalize hfuel : ((pieces '/' owner.toList).flatMap sourceName ++ (memberName member ++ 'E' :: types)).length = fuel
  -- the letter that closes the names leaves fuel for the member
  obtain ⟨k, rfl⟩ : ∃ k, fuel = (k + 1) + (pieces '/' owner.toList).length := by
    have := length_le_length_flatMap_sourceName (pieces '/' owner.toList)
    simp only [length_append, length_cons] at hfuel
    exact ⟨fuel - 1 - (pieces '/' owner.toList).length, by omega⟩
  have hmark : after? ['$'] (memberName member ++ 'E' :: types) = none := by
    rw [memberName]
    split
    · rfl
    · split
      · rw [after?_dollar_sourceName]
      · rw [append_assoc, after?_dollar_sourceName]
  have hnames := @namesUpToEnd_parts invalid _ _ _ _ hmark
    (namesUpToEnd_memberName hmember k (by rw [byteLength_append] at hsize; omega)) _ howner hsize
  rw [demangleMember, hfuel, hnames]
  change (if ((pieces '/' owner.toList).map String.ofList ++ [member]).dropLast = [] then _ else _) = _
  rw [dropLast_concat, if_neg (by simpa using pieces_ne_nil '/' owner.toList)]
  change Except.ok (Demangled.mk _ _ _) = _
  rw [List.getLast?_concat, intercalate_parts]

lemma demangleVTable_written (hsize : byteLength ((pieces '/' owner.toList).flatMap sourceName ++ ['E']) ≤ maxLength) :
    demangleVTable invalid ((pieces '/' owner.toList).flatMap sourceName ++ ['E']) = .ok ⟨owner, none, ""⟩ := by
  generalize hfuel : ((pieces '/' owner.toList).flatMap sourceName ++ ['E']).length = fuel
  obtain ⟨k, rfl⟩ : ∃ k, fuel = k + (pieces '/' owner.toList).length := by
    have := length_le_length_flatMap_sourceName (pieces '/' owner.toList)
    simp only [length_append] at hfuel
    exact ⟨fuel - (pieces '/' owner.toList).length, by omega⟩
  have hnames := @namesUpToEnd_parts invalid ['E'] _ _ _ rfl (namesUpToEnd_end k []) _ howner hsize
  rw [demangleVTable, hfuel, hnames]
  change (if (pieces '/' owner.toList).map String.ofList ++ [] = [] ∨ ([] : List Char) ≠ [] then _ else _) = _
  rw [append_nil, if_neg (by simpa using pieces_ne_nil '/' owner.toList)]
  change Except.ok (Demangled.mk _ _ _) = _
  rw [intercalate_parts]

end

def typesText (owner member : String) (kind : MemberKind) : Except Error String :=
  run do
    let _ ← nestedScopes owner.toList
    encodedTypes member kind

lemma typesText_ok {kind : MemberKind} {symbol : String} (h : mangleMember owner member kind = .ok symbol) :
    ∃ types, typesText owner member kind = .ok (String.ofList types) ∧ symbol = String.ofList ("_ZN".toList ++
        (((pieces '/' owner.toList).filter (· ≠ [])).flatMap sourceName ++ (memberName member ++ 'E' :: types))) := by
  obtain ⟨ps, t, hps, rfl⟩ := run_ok.1 h
  obtain ⟨inner, t1, types, hinner, htypes, rfl⟩ := memberSymbol_ok hps
  refine ⟨render types, run_ok.2 ⟨types, t, state_bind_ok.2 ⟨inner, t1, ?_, htypes⟩, rfl⟩, ?_⟩
  · rwa [nestedScopes_eq]
  · obtain ⟨rfl, -⟩ := pathNames_namePaths hinner
    simp [render_owner]

lemma filter_parts (howner : ∀ part ∈ pieces '/' owner.toList, part ≠ [] ∧ IsLegible part) :
    (pieces '/' owner.toList).filter (· ≠ []) = pieces '/' owner.toList :=
  filter_eq_self.2 fun part hpart => by simpa using (howner part hpart).1

/-- A symbol gives back the class and the member that it names, with the text of the types as it stands
behind them; the symbol of a vtable gives back its class. No other fault than a full table keeps a symbol
from being written. -/
theorem demangle_mangle :
    (∀ (owner member : String) (kind : MemberKind) (symbol : String),
        (∀ part ∈ pieces '/' owner.toList, part ≠ [] ∧ IsLegible part) → IsLegible member.toList →
        mangleMember owner member kind = .ok symbol → symbol.utf8ByteSize ≤ maxLength →
        ∃ types, typesText owner member kind = .ok types ∧ (kind = .field → types = "") ∧
          demangle symbol = .ok ⟨owner, some member, types⟩) ∧
      (∀ owner symbol : String, (∀ part ∈ pieces '/' owner.toList, part ≠ [] ∧ IsLegible part) →
        mangleVTable owner = .ok symbol → symbol.utf8ByteSize ≤ maxLength →
        demangle symbol = .ok ⟨owner, none, ""⟩) ∧
      (∀ (owner member : String) (kind : MemberKind) (e : Error), mangleMember owner member kind = .error e →
        e = .compressionTableFull) ∧
      ∀ (owner : String) (e : Error), mangleVTable owner = .error e → e = .compressionTableFull := by
  refine ⟨?_, ?_, fun owner member kind e => OnlyFull.run_owner fun _ =>
    (OnlyFull.encodedTypes member kind).bind fun _ => .pure, fun owner e => OnlyFull.run_owner fun _ => .pure⟩
  · intro owner member kind symbol howner hmember h hsize
    obtain ⟨types, htypes, rfl⟩ := typesText_ok h
    rw [filter_parts howner, utf8ByteSize_ofList, byteLength_append] at hsize
    refine ⟨String.ofList types, htypes, ?_, ?_⟩
    · rintro rfl
      obtain ⟨ps, t, hps, hrender⟩ := run_ok.1 htypes
      obtain ⟨_, t1, -, hps⟩ := state_bind_ok.1 hps
      obtain ⟨rfl, -⟩ := state_pure_ok.1 hps
      exact hrender.symm
    · rw [filter_parts howner]
      simp only [demangle, String.toList_ofList]
      exact demangleMember_written howner hmember (by omega)
  · intro owner symbol howner h hsize
    obtain ⟨ps, t, hps, rfl⟩ := run_ok.1 h
    obtain ⟨inner, t1, hinner, hps⟩ := state_bind_ok.1 hps
    obtain ⟨rfl, rfl⟩ := state_pure_ok.1 hps
    rw [ownerScopes_nil] at hinner
    obtain ⟨rfl, -⟩ := pathNames_namePaths hinner
    have hclose : render [.text ['E']] = ['E'] := rfl
    rw [render_text, render_append, render_owner, filter_parts howner, hclose] at hsize ⊢
    rw [utf8ByteSize_ofList, byteLength_append] at hsize
    simp only [demangle, String.toList_ofList]
    exact demangleVTable_written howner (by omega)

/-- A method with the name of an operator, whose parameters refer back to its class. -/
theorem demangle_mangle_and :
    mangleMember "java/util/BitSet" "and" (.method ⟨[.object "java/util/BitSet"], none⟩ false) =
        .ok "_ZN4java4util6BitSet3and$EJvPS1_" ∧
      ∃ types, typesText "java/util/BitSet" "and" (.method ⟨[.object "java/util/BitSet"], none⟩ false) = .ok types ∧
        demangle "_ZN4java4util6BitSet3and$EJvPS1_" = .ok ⟨"java/util/BitSet", some "and", types⟩ := by
  have hsymbol : mangleMember "java/util/BitSet" "and" (.method ⟨[.object "java/util/BitSet"], none⟩ false) =
      .ok "_ZN4java4util6BitSet3and$EJvPS1_" := ok_of_toOption (by decide +kernel)
  obtain ⟨types, htypes, -, h⟩ := demangle_mangle.1 _ _ _ _ (by decide) (by decide) hsymbol (by decide)
  exact ⟨hsymbol, types, htypes, h⟩

end JvmGraph.Symbol
