import JvmGraph.Proofs.Symbol.Components

/-!
# Reading symbols with their types

A symbol can be read from its text alone, types included: the table is built up again while the text is
read, in the order in which it was built up when the text was written. What the entry means that a
reference leads to is a parameter (`Glossary`). Where the glossary gives back every component that a
reference stands for, reading gives back the owner, the member and the types that were written.
-/

namespace JvmGraph

open List Option

variable {rest : List Char} {t' : Table} {ps : List Piece} {fuel : Nat} {member : String} {type : FieldType}
  {path? : Option (List Char)} {path : List Char}

/-- Primitive types are of a primitive kind, as in every type that has a written form. -/
def FieldType.isProper : FieldType → Bool
  | base k => k ≠ .object ∧ k ≠ .void
  | object _ => true
  | array element => element.isProper

def MethodType.isProper (m : MethodType) : Bool := m.types.all FieldType.isProper

namespace Symbol

open Text Steps

variable {name : List Char} {i : Nat} {kind : MemberKind}

/-! ## The reader -/

structure Glossary where
  /-- As the beginning of a class name. -/
  path? : Component → Option (List Char)
  /-- As what an array type starts with. -/
  isTemplate : Component → Bool
  /-- As a type. -/
  type? : Component → Option FieldType

def readName (s : List Char) : Option (List Char × List Char) :=
  (number? (s.takeWhile Char.isDigit)).bind fun n => takeBytes? n (s.dropWhile Char.isDigit)

/-- The place that a reference names, behind its `S`. -/
def readPlace : List Char → Option (Nat × List Char)
  | '_' :: rest => some (0, rest)
  | d :: '_' :: rest => ((List.range Table.capacity).find? fun i => digit36 i = d).map fun i => (i + 1, rest)
  | _ => none

def readScopes (g : Glossary) :
    Nat → Option (List Char) → Table → List Char → Option (Option (List Char) × Table × List Char)
  | _, path?, t, 'E' :: rest => some (path?, t, rest)
  | 0, _, _, _ => none
  | fuel + 1, _, t, 'S' :: s => do
    let (i, rest) ← readPlace s
    let path ← t[i]?.bind g.path?
    readScopes g fuel (some path) t rest
  | fuel + 1, path?, t, s => do
    let (part, rest) ← readName s
    let path := joined path? part
    readScopes g fuel (some path) (t ++ [.scope path]) rest

def kindOfCode? (c : Char) : Option Kind :=
  [Kind.byte, .char, .short, .int, .long, .boolean, .float, .double].find? fun k => kindCode k = c

/-- What reading the front of a text gives: a type, the table after it, and what is left. -/
abbrev TypeRead := Option (FieldType × Table × List Char)

def readElement (element : Table → List Char → TypeRead) (t : Table) (s : List Char) : TypeRead := do
  let (type, t, rest) ← element t s
  match rest with
  | 'E' :: rest => return (.array type, t ++ [.array type, .arrayPointer type], rest)
  | _ => none

/-- What a pointer points to: a class by its scopes, a class by a reference, or an array. The last two are told
apart by the `I` behind the template of an array. -/
def readPointer (g : Glossary) (scopes : Table → List Char → Option (Option (List Char) × Table × List Char))
    (element : Table → List Char → TypeRead) (t : Table) : List Char → TypeRead
  | 'N' :: s => do
    let (path?, t, rest) ← scopes t s
    let path ← path?
    return (.object (String.ofList path), t ++ [.pointer path], rest)
  | 'S' :: s => do
    let (i, rest) ← readPlace s
    let entry ← t[i]?
    match rest with
    | 'I' :: rest => if g.isTemplate entry then readElement element t rest else none
    | rest =>
      let path ← g.path? entry
      return (.object (String.ofList path), t ++ [.pointer path], rest)
  | s => do
    let (name, rest) ← readName s
    match rest with
    | 'I' :: rest => if name = "JArray".toList then readElement element (t ++ [.template]) rest else none
    | _ => none

def readType (g : Glossary) : Nat → Table → List Char → TypeRead
  | 0, _, _ => none
  | _ + 1, t, 'S' :: s => do
    let (i, rest) ← readPlace s
    let type ← t[i]?.bind g.type?
    return (type, t, rest)
  | fuel + 1, t, 'P' :: s => readPointer g (readScopes g fuel none) (readType g fuel) t s
  | _ + 1, t, c :: rest => (kindOfCode? c).map fun k => (.base k, t, rest)
  | _ + 1, _, [] => none

def readTypes (g : Glossary) : Nat → Table → List Char → Option (List FieldType)
  | _, _, [] => some []
  | 0, _, _ => none
  | fuel + 1, t, s => do
    let (type, t, rest) ← readType g (fuel + 1) t s
    return type :: (← readTypes g fuel t rest)

def readResult (g : Glossary) (t : Table) : List Char → Option (Option FieldType × Table × List Char)
  | 'v' :: rest => some (none, t, rest)
  | s => (readType g s.length t s).map fun (type, t, rest) => (some type, t, rest)

def readParams (g : Glossary) (t : Table) (s : List Char) : Option (List FieldType) :=
  if s = ['v'] then some [] else readTypes g s.length t s

/-- The types behind the names of a symbol; there are none behind those of a field. -/
def readSignature (g : Glossary) (t : Table) : List Char → Option (Option MethodType)
  | [] => some none
  | 'J' :: s => do
    let (result?, t, rest) ← readResult g t s
    let params ← readParams g t rest
    return some { params, result? }
  | s => if s = ['v'] then some (some ⟨[], none⟩) else none

structure Reading where
  owner : String
  member : String
  type? : Option MethodType
  deriving DecidableEq

def spelledMember (name : List Char) : String :=
  if name = classInitialiser.toList then "<clinit>" else String.ofList name

/-- The names of a symbol: the owner, the member, the table after them, and what is left. -/
abbrev NamesRead := Option (Option (List Char) × String × Table × List Char)

/-- A name is the member if the names are closed behind it, and else a part of the owner, recorded as such. -/
def placeName (next : Option (List Char) → Table → List Char → NamesRead) (path? : Option (List Char)) (t : Table)
    (name : List Char) : List Char → NamesRead
  | 'E' :: rest => some (path?, spelledMember name, t, rest)
  | '$' :: 'E' :: rest => some (path?, spelledMember name, t, rest)
  | rest => next (some (joined path? name)) (t ++ [.scope (joined path? name)]) rest

def readNames : Nat → Option (List Char) → Table → List Char → NamesRead
  | 0, _, _, _ => none
  | _ + 1, path?, t, 'C' :: s => (after? ['1', 'E'] s).map fun rest => (path?, "<init>", t, rest)
  | fuel + 1, path?, t, s => (readName s).bind fun (name, rest) => placeName (readNames fuel) path? t name rest

def readSymbol (g : Glossary) (symbol : List Char) : Option Reading := do
  let s ← after? "_ZN".toList symbol
  let (path?, member, t, rest) ← readNames s.length none [] s
  let type? ← readSignature g t rest
  return { owner := String.ofList (← path?), member, type? }

/-! ## Names and references -/

lemma readName_sourceName (h : leadsWithDigit (name ++ rest) = false) :
    readName (sourceName name ++ rest) = some (name, rest) := by
  rw [readName, takeWhile_sourceName h, dropWhile_sourceName h, number?_toDigits, bind_some, takeBytes?_append]

lemma reference_eq_cons (i : Nat) : reference i = 'S' :: (reference i).tail := by cases i <;> rfl

lemma readPlace_reference (hi : i < Table.capacity) (rest : List Char) :
    readPlace ((reference i).tail ++ rest) = some (i, rest) := by
  cases i with
  | zero => rfl
  | succ i =>
    have hdigit : ∀ i < Table.capacity, digit36 i ≠ '_' ∧
        (List.range Table.capacity).find? (fun j => digit36 j = digit36 i) = some i := by decide
    obtain ⟨hne, hfind⟩ := hdigit i (by omega)
    change readPlace (digit36 i :: '_' :: rest) = _
    rw [readPlace]
    · simp [hfind]
    · exact hne

/-! ## Glossaries -/

namespace Glossary

def Understands (g : Glossary) (d : Component) : Component → Prop
  | .scope path => g.path? d = some path
  | .pointer name => g.type? d = some (.object (String.ofList name))
  | .template => g.isTemplate d = true
  | .arrayPointer element => g.type? d = some (.array element)
  -- never referred to
  | .array _ => True

def Masters (g : Glossary) (cs : List Component) : Prop :=
  ∀ c ∈ cs, ∀ d ∈ cs, d.key = c.key → g.Understands d c

lemma Masters.find {g : Glossary} {cs : List Component} (hg : g.Masters cs) {t : Table} (ht : t.Within cs)
    {c : Component} (hc : c ∈ cs) (h : t.index? c = some i) :
    ∃ d, t[i]? = some d ∧ d.key = c.key ∧ g.Understands d c ∧ i < Table.capacity := by
  obtain ⟨d, hd, hkey⟩ := Table.index?_eq_some h
  have hi : i < t.length := (List.getElem?_eq_some_iff.1 hd).1
  exact ⟨d, hd, hkey, hg c hc d (ht.mem d (List.mem_of_getElem? hd)) hkey, Nat.lt_of_lt_of_le hi ht.length_le⟩

end Glossary

/-! ## Class names -/

variable {g : Glossary} {cs : List Component} {t : Table}

lemma readScopes_end (fuel : Nat) (path? : Option (List Char)) (t : Table) (rest : List Char) :
    readScopes g fuel path? t ('E' :: rest) = some (path?, t, rest) := by
  cases fuel <;> rfl

lemma readScopes_back {q? : Option (List Char)} {d : Component}
    (hd : t[i]? = some d) (hpath : g.path? d = some path) (hi : i < Table.capacity) (rest : List Char) :
    readScopes g (fuel + 1) q? t (reference i ++ rest) = readScopes g fuel (some path) t rest := by
  rw [reference_eq_cons, cons_append]
  change (do let (i, rest) ← readPlace ((reference i).tail ++ rest); _) = _
  rw [readPlace_reference hi]
  change (t[i]?.bind g.path?).bind _ = _
  simp [hd, hpath]

lemma readScopes_sourceName {part : List Char} (hdigit : leadsWithDigit (part ++ rest) = false) :
    readScopes g (fuel + 1) path? t (sourceName part ++ rest) =
      readScopes g fuel (some (joined path? part)) (t ++ [.scope (joined path? part)]) rest := by
  have hname := readName_sourceName hdigit
  obtain ⟨c, s, hc, hs⟩ := sourceName_eq_cons part
  rw [hs] at hname ⊢
  rw [readScopes, hname]
  · rfl
  · intro _ heq; rw [(cons.inj heq).1] at hc; simp at hc
  · intro _ heq; rw [(cons.inj heq).1] at hc; simp at hc

/-- A reference to the beginning of a class name that ends with `path?`. -/
def IsHeld (g : Glossary) (t : Table) (path? : Option (List Char)) (p : Piece) : Prop :=
  ∃ path i d, p = .back (.scope path) i ∧ path? = some path ∧ t[i]? = some d ∧ d.key = path ∧ g.path? d = some path ∧
    i < Table.capacity

lemma readScopes_pathNames (hg : g.Masters cs) :
    ∀ {parts : List (List Char)} {path? q? : Option (List Char)} {held : Option Piece} {t t' : Table} {ps : List Piece}
      {fuel : Nat}, (∀ part ∈ parts, part ≠ [] ∧ leadsWithDigit part = false) →
    (∀ a ∈ paths path? parts, .scope a.1 ∈ cs) → t.Within cs →
    (parts = [] → held = none) → (parts ≠ [] → ∀ d ∈ t, some d.key ≠ wholePath path? parts) →
    (held = none → q? = path?) → (∀ p ∈ held, IsHeld g t path? p) →
    pathNames held (paths path? parts) t = .ok (ps, t') → (render ps).length ≤ fuel →
    readScopes g fuel q? t (render ps ++ 'E' :: rest) = some (wholePath path? parts, t', rest)
  | [], path?, q?, held, t, t', ps, fuel, _, _, _, hheld, _, hq, _, h, _ => by
    cases h
    change readScopes g fuel q? t ('E' :: rest) = _
    rw [readScopes_end, hq (hheld rfl)]; rfl
  | part :: parts, path?, q?, held, t, t', ps, fuel, hparts, hcs, ht, _, hnew, hq, hheld, h, hfuel => by
    obtain ⟨hne, hdigit⟩ := hparts part (mem_cons_self ..)
    have hparts' : ∀ q ∈ parts, q ≠ [] ∧ leadsWithDigit q = false := fun q hq => hparts q (mem_cons_of_mem _ hq)
    have hpath : .scope (joined path? part) ∈ cs := hcs (joined path? part, part) (mem_cons_self ..)
    have hcs' : ∀ a ∈ paths (some (joined path? part)) parts, .scope a.1 ∈ cs :=
      fun a ha => hcs a (mem_cons_of_mem _ ha)
    have hnew : ∀ d ∈ t, some d.key ≠ wholePath (some (joined path? part)) parts := hnew (cons_ne_nil part parts)
    change readScopes g fuel q? t (render ps ++ 'E' :: rest) =
      some (wholePath (some (joined path? part)) parts, t', rest)
    obtain ⟨i, hi, h⟩ | ⟨-, hlt, after, hafter, rfl⟩ := pathNames_cons_ok h
    · obtain ⟨d, hd, hkey, hd', hi'⟩ := hg.find ht hpath hi
      -- the class name itself is not in the table, so something follows what is held back
      refine readScopes_pathNames hg hparts' hcs' ht ?_ (fun _ => hnew) (fun hnone => by cases hnone) ?_ h hfuel
      · rintro rfl; exact absurd (congrArg some hkey) (hnew d (mem_of_getElem? hd))
      · rintro p ⟨⟩; exact ⟨joined path? part, i, d, rfl, rfl, hd, hkey, hd', hi'⟩
    · have hrest : ∀ {fuel}, (render after).length ≤ fuel →
          readScopes g fuel (some (joined path? part)) (t ++ [.scope (joined path? part)])
            (render after ++ 'E' :: rest) =
            some (wholePath (some (joined path? part)) parts, t', rest) := by
        intro fuel hfuel
        refine readScopes_pathNames hg hparts' hcs' (ht.record hpath hlt) (fun _ => rfl) ?_ (fun _ => rfl) nofun hafter
          hfuel
        intro hparts d hd
        rcases mem_append.1 hd with hd | hd
        · exact hnew d hd
        · rw [mem_singleton.1 hd]; exact (wholePath_ne hparts).symm
      have hpart : ∀ {fuel}, (render (.text (sourceName part) :: after)).length ≤ fuel →
          readScopes g fuel path? t (render (.text (sourceName part) :: after) ++ 'E' :: rest) =
            some (wholePath (some (joined path? part)) parts, t', rest) := by
        intro fuel hfuel
        obtain ⟨c, s, -, hs⟩ := sourceName_eq_cons part
        obtain ⟨k, rfl⟩ : ∃ k, fuel = k + 1 := by
          rw [hs] at hfuel; exact ⟨fuel - 1, by simp at hfuel; omega⟩
        rw [render_text, append_assoc, readScopes_sourceName ((leadsWithDigit_append hne _).trans hdigit)]
        refine hrest ?_
        rw [hs] at hfuel; simp at hfuel; omega
      cases held with
      | none => rw [hq rfl]; exact hpart hfuel
      | some p =>
        obtain ⟨path, i, d, rfl, rfl, hd, -, hpath, hi⟩ := hheld p rfl
        have hrender : render ((some (.back (.scope path) i)).toList ++ .text (sourceName part) :: after) =
            reference i ++ render (.text (sourceName part) :: after) := rfl
        rw [hrender, reference_eq_cons] at hfuel
        simp only [length_cons, length_append] at hfuel
        obtain ⟨k, rfl⟩ : ∃ k, fuel = k + 1 := ⟨fuel - 1, by omega⟩
        rw [hrender, append_assoc, readScopes_back hd hpath hi]; exact hpart (by omega)

/-! ## Types -/

section

variable {scopes : Table → List Char → Option (Option (List Char) × Table × List Char)}
  {element : Table → List Char → TypeRead} {d : Component}

lemma readType_back (hd : t[i]? = some d) (htype : g.type? d = some type) (hi : i < Table.capacity) (rest : List Char) :
    readType g (fuel + 1) t (reference i ++ rest) = some (type, t, rest) := by
  rw [reference_eq_cons, cons_append]
  change (do let (i, rest) ← readPlace ((reference i).tail ++ rest); _) = _
  rw [readPlace_reference hi]
  change (t[i]?.bind g.type?).bind _ = _
  simp [hd, htype]

lemma readPointer_template_back (hd : t[i]? = some d) (htemplate : g.isTemplate d = true) (hi : i < Table.capacity)
    (rest : List Char) :
    readPointer g scopes element t (reference i ++ 'I' :: rest) = readElement element t rest := by
  rw [reference_eq_cons]
  change (do let (i, rest) ← readPlace ((reference i).tail ++ 'I' :: rest); _) = _
  rw [readPlace_reference hi]
  change t[i]?.bind _ = _
  rw [hd]
  exact if_pos htemplate

lemma readPointer_back (hd : t[i]? = some d) (hpath : g.path? d = some path)
    (hi : i < Table.capacity) (hrest : rest.head? ≠ some 'I') : readPointer g scopes element t (reference i ++ rest) =
      some (.object (.ofList path), t ++ [.pointer path], rest) := by
  rw [reference_eq_cons, cons_append]
  change (do let (i, rest) ← readPlace ((reference i).tail ++ rest); _) = _
  rw [readPlace_reference hi]
  change t[i]?.bind _ = _
  rw [hd, bind_some]
  split
  next heq => exact absurd (by simpa using congrArg List.head? heq) hrest
  next =>
    simp [hpath]

lemma readElement_ok {s : List Char} (h : element t s = some (type, t', 'E' :: rest)) :
    readElement element t s = some (.array type, t' ++ [.array type, .arrayPointer type], rest) := by
  simp [readElement, h]

end

lemma kindOfCode?_kindCode {k : Kind} (h : (FieldType.base k).isProper = true) : kindOfCode? (kindCode k) = some k := by
  cases k <;> first | rfl | cases h

/-- What follows a type does not turn a class into an array. -/
def Follows (rest : List Char) : Prop := rest.head? ≠ some 'I'

lemma render_typeName (hproper : type.isProper = true) (h : typeName type t = .ok (ps, t')) :
    ∃ c s, render ps = c :: s ∧ c ≠ 'I' ∧ c ≠ 'v' := by
  cases type with
  | base k =>
    cases h
    refine ⟨kindCode k, [], rfl, ?_⟩
    cases k <;> first | decide | cases hproper
  | object name =>
    obtain ⟨i, -, rfl, -⟩ | ⟨i, -, -, rfl, -⟩ | ⟨-, inner, t1, -, -, rfl, -⟩ := pointerName_ok h
    · exact ⟨'S', (reference i).tail, by rw [render_back, render_nil, append_nil, ← reference_eq_cons], by decide⟩
    · exact ⟨'P', _, rfl, by decide⟩
    · exact ⟨'P', _, rfl, by decide⟩
  | array e =>
    obtain ⟨i, -, rfl, -⟩ | ⟨p, t1, inner, t2, -, -, -, rfl, -⟩ := typeName_array_ok h
    · exact ⟨'S', (reference i).tail, by rw [render_back, render_nil, append_nil, ← reference_eq_cons], by decide⟩
    · exact ⟨'P', _, rfl, by decide⟩

lemma exists_fuel_of_typeName (hproper : type.isProper = true) (h : typeName type t = .ok (ps, t'))
    (hfuel : (render ps).length ≤ fuel) : ∃ n, fuel = n + 1 := by
  obtain ⟨c, s, hs, -⟩ := render_typeName hproper h
  rw [hs, length_cons] at hfuel
  exact ⟨fuel - 1, by omega⟩

lemma readType_typeName (hg : g.Masters cs) : ∀ {type : FieldType} {t t' : Table} {ps : List Piece} {fuel : Nat}
    {rest : List Char}, type.isProper = true →
    (∀ name ∈ type.classNames, IsParted name.toList ∧ IsDelimited name.toList) →
    (∀ c ∈ typeComponents type, c ∈ cs) → t.Within cs → typeName type t = .ok (ps, t') → (render ps).length ≤ fuel →
    Follows rest → readType g fuel t (render ps ++ rest) = some (type, t', rest)
  | .base k, t, t', ps, fuel, rest, hproper, _, _, _, h, hfuel, _ => by
    obtain ⟨n, rfl⟩ := exists_fuel_of_typeName hproper h hfuel
    cases h
    have hcode : readType g (n + 1) t (kindCode k :: rest) = (kindOfCode? (kindCode k)).map fun k =>
      (.base k, t, rest) := by
      cases k <;> rfl
    change readType g (n + 1) t (kindCode k :: rest) = _
    simp [hcode, kindOfCode?_kindCode hproper]
  | .object name, t, t', ps, fuel, rest, hproper, hnames, hcs, ht, h, hfuel, hrest => by
    obtain ⟨n, rfl⟩ := exists_fuel_of_typeName hproper h hfuel
    obtain ⟨hparted, hdelimited⟩ := hnames name (mem_singleton_self name)
    have hpointer : .pointer name.toList ∈ cs := hcs _ (by simp [typeComponents])
    have hscopes : ∀ c ∈ scopeComponents name.toList, c ∈ cs := fun c hc => hcs c (mem_append_left _ hc)
    obtain ⟨i, hi, rfl, rfl⟩ | ⟨i, hi, -, rfl, rfl⟩ | ⟨hnone, inner, t1, hinner, -, rfl, rfl⟩ := pointerName_ok h
    · obtain ⟨d, hd, -, htype, hi⟩ := hg.find ht hpointer hi
      simp only [render_back, render_nil, append_nil]
      rw [readType_back hd htype hi, String.ofList_toList]
    · obtain ⟨d, hd, -, hpath, hi⟩ := hg.find ht (hscopes _ (scope_mem_scopeComponents hparted)) hi
      simp only [render_text, render_back, render_nil, append_nil]
      change readPointer g (readScopes g n none) (readType g n) t (reference i ++ rest) = _
      rw [readPointer_back hd hpath hi hrest, String.ofList_toList]
    · simp only [render_text, render_append, append_assoc, length_cons, length_append] at hfuel ⊢
      rw [namePaths_eq hparted] at hinner
      have hread : readScopes g n none t (render inner ++ 'E' :: rest) = some (wholePath none _, t1, rest) :=
        readScopes_pathNames hg (fun part hpart => ⟨hparted part hpart, hdelimited part hpart⟩)
        (fun a ha => hscopes _ (mem_map.2 ⟨a, namePaths_eq hparted ▸ ha, rfl⟩)) ht (fun _ => rfl)
        (fun _ d hd heq => Table.index?_eq_none.1 hnone d hd (some.inj (heq.trans (wholePath_pieces name.toList))))
        (fun _ => rfl) (by simp) hinner (by omega)
      change (do let (path?, t, rest) ← readScopes g n none t (render inner ++ 'E' :: rest); _) = _
      rw [hread, wholePath_pieces]
      change some (FieldType.object (String.ofList name.toList), _, _) = _
      rw [String.ofList_toList]
  | .array e, t, t', ps, fuel, rest, hproper, hnames, hcs, ht, h, hfuel, hrest => by
    obtain ⟨n, rfl⟩ := exists_fuel_of_typeName hproper h hfuel
    have hcs' : ∀ c ∈ typeComponents e ++ [.array e, .arrayPointer e], c ∈ cs :=
      fun c hc => hcs c (.tail _ hc)
    have htemplate : .template ∈ cs := hcs _ (mem_cons_self ..)
    obtain ⟨i, hi, rfl, rfl⟩ | ⟨p, t1, inner, t2, hp, hinner, hlt, rfl, rfl⟩ := typeName_array_ok h
    · obtain ⟨d, hd, -, htype, hi⟩ := hg.find ht (hcs' (.arrayPointer e) (by simp)) hi
      simp only [render_back, render_nil, append_nil]
      rw [readType_back hd htype hi]
    · have hwithin := (writes_templateName htemplate ht hp).within
      have helement : ∀ {n}, (render inner).length ≤ n → readElement (readType g n) t1 (render inner ++ 'E' :: rest) =
            some (.array e, t2 ++ [.array e, .arrayPointer e], rest) := fun hn =>
        readElement_ok (readType_typeName hg hproper hnames (fun c hc => hcs' c (by simp [hc])) hwithin
          hinner hn (by simp [Follows]))
      obtain ⟨i, hi, rfl, rfl⟩ | ⟨-, rfl, rfl⟩ := templateName_ok hp
      · obtain ⟨d, hd, -, hd', hi⟩ := hg.find ht htemplate hi
        simp only [render_text, render_back, render_append, append_assoc, length_cons, length_append] at hfuel ⊢
        change readPointer g (readScopes g n none) (readType g n) t1 (reference i ++ 'I' :: _) = _
        rw [readPointer_template_back hd hd' hi]; exact helement (by omega)
      · simp only [render_text, render_append, append_assoc, length_cons, length_append] at hfuel ⊢
        change readPointer g (readScopes g n none) (readType g n) t (sourceName "JArray".toList ++ 'I' :: _) = _
        exact helement (by omega)

structure Readable (cs : List Component) (type : FieldType) : Prop where
  proper : type.isProper = true
  names : ∀ name ∈ type.classNames, IsParted name.toList ∧ IsDelimited name.toList
  components : ∀ c ∈ typeComponents type, c ∈ cs

lemma Readable.within (hr : Readable cs type) (ht : t.Within cs) (h : typeName type t = .ok (ps, t')) :
    t'.Within cs :=
  (writes_typeName (fun n hn => (hr.names n hn).1) hr.components ht h).within

lemma follows_mapM_typeName : ∀ {types : List FieldType} {t t' : Table} {pss : List (List Piece)},
    (∀ type ∈ types, type.isProper = true) → types.mapM typeName t = .ok (pss, t') → Follows (render pss.flatten)
  | [], t, t', pss, _, h => by
    cases h; simp [Follows]
  | type :: types, t, t', pss, hproper, h => by
    obtain ⟨ps, t1, rest, hps, hrest, rfl⟩ := mapM_typeName_cons_ok h
    obtain ⟨c, s, hs, hc, -⟩ := render_typeName (hproper type (mem_cons_self ..)) hps
    simpa [Follows, hs] using hc

lemma readTypes_mapM_typeName (hg : g.Masters cs) : ∀ {types : List FieldType} {t t' : Table}
    {pss : List (List Piece)} {fuel : Nat}, (∀ type ∈ types, Readable cs type) → t.Within cs →
    types.mapM typeName t = .ok (pss, t') → (render pss.flatten).length ≤ fuel →
    readTypes g fuel t (render pss.flatten) = some types
  | [], t, t', pss, fuel, _, _, h, _ => by
    cases h; cases fuel <;> rfl
  | type :: types, t, t', pss, fuel, hr, ht, h, hfuel => by
    obtain ⟨ps, t1, rest, hps, hrest, rfl⟩ := mapM_typeName_cons_ok h
    have hr0 : Readable cs type := hr type (mem_cons_self ..)
    have hr' : ∀ type ∈ types, Readable cs type := fun q hq => hr q (.tail _ hq)
    obtain ⟨c, s, hs, -⟩ := render_typeName hr0.proper hps
    rw [flatten_cons, render_append, length_append] at hfuel
    obtain ⟨n, rfl⟩ : ∃ n, fuel = n + 1 := by
      rw [hs, length_cons] at hfuel; exact ⟨fuel - 1, by omega⟩
    have hfirst : readType g (n + 1) t (render ps ++ render rest.flatten) = some (type, t1, render rest.flatten) :=
      readType_typeName hg hr0.proper hr0.names hr0.components ht hps (by omega)
        (follows_mapM_typeName (fun q hq => (hr' q hq).proper) hrest)
    have hlast : readTypes g n t1 (render rest.flatten) = some types :=
      readTypes_mapM_typeName hg hr' (hr0.within ht hps) hrest (by rw [hs, length_cons] at hfuel; omega)
    rw [flatten_cons, render_append, readTypes, hfirst]
    · change (readTypes g n t1 (render rest.flatten)).bind _ = _; simp [hlast]
    · simp [hs]

lemma readResult_resultName (hg : g.Masters cs) {result? : Option FieldType}
    (hr : ∀ type ∈ result?, Readable cs type) (ht : t.Within cs) (h : resultName result? t = .ok (ps, t'))
    (hrest : Follows rest) : readResult g t (render ps ++ rest) = some (result?, t', rest) := by
  cases result? with
  | none =>
    obtain ⟨rfl, rfl⟩ := state_pure_ok.1 h; rfl
  | some type =>
    have hr : Readable cs type := hr type rfl
    obtain ⟨c, s, hs, -, hc⟩ := render_typeName hr.proper h
    have hread : readType g (render ps ++ rest).length t (render ps ++ rest) = some (type, t', rest) :=
      readType_typeName hg hr.proper hr.names hr.components ht h (by simp) hrest
    rw [hs] at hread ⊢
    rw [readResult, hread]
    · rfl
    · exact fun _ heq => hc (cons.inj heq).1

lemma readParams_paramNames (hg : g.Masters cs) {params : List FieldType}
    (hr : ∀ type ∈ params, Readable cs type) (ht : t.Within cs) (h : paramNames params t = .ok (ps, t')) :
    readParams g t (render ps) = some params ∧ Follows (render ps) := by
  rw [paramNames] at h
  split at h
  next hnil =>
    cases h
    subst hnil; exact ⟨rfl, by simp [Follows]⟩
  next hne =>
    obtain ⟨pss, t1, hpss, h⟩ := state_bind_ok.1 h
    cases h
    have hfollows := follows_mapM_typeName (fun type htype => (hr type htype).proper) hpss
    refine ⟨?_, hfollows⟩
    have hv : render pss.flatten ≠ ['v'] := by
      obtain ⟨type, types, rfl⟩ := exists_cons_of_ne_nil hne
      obtain ⟨ps, t2, rest, hps, -, rfl⟩ := mapM_typeName_cons_ok hpss
      obtain ⟨c, s, hs, -, hc⟩ := render_typeName (hr type (mem_cons_self ..)).proper hps
      rw [flatten_cons, render_append, hs]; exact fun heq => hc (cons.inj heq).1
    rw [readParams, if_neg hv]; exact readTypes_mapM_typeName hg hr ht hpss (by omega)

lemma readSignature_encodedTypes (hg : g.Masters cs)
    (hr : ∀ type ∈ kind.type?.toList.flatMap MethodType.types, Readable cs type) (ht : t.Within cs)
    (h : encodedTypes member kind t = .ok (ps, t')) : readSignature g t (render ps) = some kind.type? := by
  cases kind with
  | field =>
    obtain ⟨rfl, rfl⟩ := state_pure_ok.1 h; rfl
  | method type isStatic =>
    obtain ⟨rfl, rfl, rfl⟩ | ⟨result, t1, params, hresult, hparams, rfl⟩ := signature_ok h
    · rfl
    · obtain ⟨ptypes, result?⟩ := type
      simp only [MemberKind.type?, toList_some, flatMap_cons, flatMap_nil, append_nil,
        MethodType.types, mem_append, mem_toList] at hr
      have hr1 : ∀ type ∈ result?, Readable cs type := fun q hq => hr q (.inl hq)
      have hwithin : t1.Within cs := by
        cases result? with
        | none =>
          cases hresult; exact ht
        | some type => exact (hr1 type rfl).within ht hresult
      obtain ⟨hread, hfollows⟩ := readParams_paramNames hg (fun q hq => hr q (.inr hq)) hwithin hparams
      rw [render_text, render_append]
      change (do let (result?, t, rest) ← readResult g t (render result ++ render params); _) = _
      rw [readResult_resultName hg hr1 ht hresult hfollows]
      change (readParams g t1 (render params)).bind _ = _
      rw [hread]; rfl

lemma render_signature_ne_nil {type : MethodType} {isStatic : Bool}
    (h : signature member type isStatic t = .ok (ps, t')) : render ps ≠ [] := by
  obtain ⟨-, rfl, -⟩ | ⟨result, t1, params, -, -, rfl⟩ := signature_ok h <;> simp

/-! ## Whole symbols -/

/-- The name that a member's spelling is read as. -/
def shownMember (member : String) : String := if member = classInitialiser then "<clinit>" else member

lemma readNames_sourceName (hdigit : leadsWithDigit (name ++ rest) = false) :
    readNames (fuel + 1) path? t (sourceName name ++ rest) = placeName (readNames fuel) path? t name rest := by
  have hname := readName_sourceName hdigit
  obtain ⟨c, s, hc, hs⟩ := sourceName_eq_cons name
  rw [hs] at hname ⊢
  rw [readNames, hname]
  · rfl
  · intro _ heq; rw [(cons.inj heq).1] at hc; simp at hc

lemma readNames_memberName (hmember : leadsWithDigit member.toList = false) (rest : List Char) :
    readNames (fuel + 1) path? t (memberName member ++ 'E' :: rest) = some (path?, shownMember member, t, rest) := by
  rw [memberName]
  split
  next hinit =>
    subst hinit; rfl
  next =>
    split
    next hclinit =>
      subst hclinit; rfl
    next =>
      have hspelled : spelledMember member.toList = shownMember member := by
        simp only [spelledMember, shownMember, String.toList_inj, String.ofList_toList]
      have hdigit : ∀ s, leadsWithDigit s = false → leadsWithDigit (member.toList ++ s) = false := by
        intro s hs
        by_cases hnil : member.toList = []
        · rwa [hnil]
        · rwa [leadsWithDigit_append hnil]
      rw [append_assoc]
      split
      · rw [readNames_sourceName (hdigit _ rfl), ← hspelled]; rfl
      · rw [readNames_sourceName (hdigit _ rfl), ← hspelled]; rfl

lemma memberName_eq_cons (member : String) (rest : List Char) :
    ∃ c s, (c.isDigit = true ∨ c = 'C') ∧ memberName member ++ rest = c :: s := by
  rw [memberName]
  split
  · exact ⟨'C', '1' :: rest, .inr rfl, rfl⟩
  · split
    · obtain ⟨c, s, hc, hs⟩ := sourceName_eq_cons classInitialiser.toList
      exact ⟨c, s ++ rest, .inl hc, by simp [hs]⟩
    · obtain ⟨c, s, hc, hs⟩ := sourceName_eq_cons member.toList
      exact ⟨c, _, .inl hc, by rw [hs]; rfl⟩

lemma readNames_written (hmember : leadsWithDigit member.toList = false) (rest : List Char) :
    ∀ {parts : List (List Char)} {fuel : Nat} {path? : Option (List Char)} {t : Table},
    (∀ part ∈ parts, part ≠ [] ∧ leadsWithDigit part = false) → parts.length < fuel →
    readNames fuel path? t (parts.flatMap sourceName ++ (memberName member ++ 'E' :: rest)) =
      some (wholePath path? parts, shownMember member, t ++ (paths path? parts).map (fun a => .scope a.1), rest)
  | [], fuel, path?, t, _, hfuel => by
    obtain ⟨n, rfl⟩ : ∃ n, fuel = n + 1 := ⟨fuel - 1, by simp at hfuel; omega⟩
    change readNames (n + 1) path? t (memberName member ++ 'E' :: rest) = _
    rw [readNames_memberName hmember]; simp [wholePath, paths]
  | part :: parts, fuel, path?, t, hparts, hfuel => by
    obtain ⟨hne, hdigit⟩ := hparts part (mem_cons_self ..)
    rw [length_cons] at hfuel
    obtain ⟨n, rfl⟩ : ∃ n, fuel = n + 1 := ⟨fuel - 1, by omega⟩
    have hnext : ∃ c s, (c.isDigit = true ∨ c = 'C') ∧
        parts.flatMap sourceName ++ (memberName member ++ 'E' :: rest) = c :: s := by
      cases parts with
      | nil => exact memberName_eq_cons member _
      | cons q qs =>
        obtain ⟨c, s, hc, hs⟩ := sourceName_eq_cons q
        exact ⟨c, _, .inl hc, by rw [flatMap_cons, hs]; rfl⟩
    have hrec := @readNames_written hmember rest parts n (some (joined path? part))
      (t ++ [.scope (joined path? part)]) (fun q hq => hparts q (.tail _ hq)) (by omega)
    rw [flatMap_cons, append_assoc, readNames_sourceName ((leadsWithDigit_append hne _).trans hdigit)]
    obtain ⟨c, s, hc, hs⟩ := hnext
    rw [hs] at hrec ⊢
    rw [placeName, hrec]
    · simp [wholePath, paths]
    · intro _ heq; rw [(cons.inj heq).1] at hc; exact absurd hc (by decide)
    · intro _ heq; rw [(cons.inj heq).1] at hc; exact absurd hc (by decide)

/-- What is asked of a symbol that is to be read back. -/
structure IsReadable (owner member : String) (kind : MemberKind) : Prop where
  owner : IsParted owner.toList ∧ IsDelimited owner.toList
  member : leadsWithDigit member.toList = false
  names : ∀ type ∈ kind.type?, ∀ name ∈ type.classNames, IsParted name.toList ∧ IsDelimited name.toList
  proper : ∀ type ∈ kind.type?, type.isProper = true

lemma readSymbol_memberSymbol {owner : String} (hg : g.Masters (components owner kind))
    (hr : IsReadable owner member kind) (h : memberSymbol owner member kind [] = .ok (ps, t)) :
    readSymbol g (render ps) = some ⟨owner, shownMember member, kind.type?⟩ := by
  obtain ⟨inner, t1, types, hinner, htypes, rfl⟩ := memberSymbol_ok h
  obtain ⟨rfl, rfl⟩ := pathNames_namePaths hinner
  have hwithin := (@writes_pathNames (components owner kind) _ _ _ _ _
    (fun a ha => mem_append_left _ (mem_map_of_mem ha)) (by simp) Table.Within.nil hinner).within
  have hparts : (pieces '/' owner.toList).filter (· ≠ []) = pieces '/' owner.toList :=
    filter_eq_self.2 fun part hpart => by simpa using hr.owner.1 part hpart
  have hsignature : readSignature g ((namePaths owner.toList).map fun a => .scope a.1)
    (render types) = some kind.type? := by
    refine readSignature_encodedTypes hg (fun type htype => ?_) hwithin htypes
    obtain ⟨m, hm, htype⟩ := mem_flatMap.1 htype
    rw [mem_toList] at hm
    exact {
      proper := all_eq_true.1 (hr.proper m hm) type htype
      names := fun name hname => hr.names m hm name (mem_flatMap.2 ⟨type, htype, hname⟩)
      components := fun c hc => mem_append_right _ (mem_flatMap.2
        ⟨m, mem_toList.2 hm, mem_flatMap.2 ⟨type, htype, hc⟩⟩) }
  have hnames := @readNames_written _ hr.member (render types) _
    ((pieces '/' owner.toList).flatMap sourceName ++ (memberName member ++ 'E' :: render types)).length none []
    (fun part hpart => ⟨hr.owner.1 part hpart, hr.owner.2 part hpart⟩) (by
      have := length_le_length_flatMap_sourceName (pieces '/' owner.toList)
      simp only [length_append, length_cons]
      omega)
  rw [nil_append, ← namePaths_eq hr.owner.1, wholePath_pieces] at hnames
  simp only [render_text, render_append, render_owner, hparts, cons_append, nil_append]
  rw [readSymbol, after?_append]
  change (do let (path?, member, t, rest) ← readNames _ none [] _; _) = _
  rw [hnames]
  change (readSignature g _ (render types)).bind _ = _
  rw [hsignature]
  change some (Reading.mk (String.ofList owner.toList) _ _) = _
  rw [String.ofList_toList]

end Symbol

end JvmGraph
