import JvmGraph.Proofs.Symbol.Writing

/-!
# What a symbol mentions

The components of a symbol are the scopes of its class names, the pointers to them, the array template and
the arrays that it is applied for. The table of a symbol holds only these, and a reference, whatever
component it stands for, leads to an entry with the key of that component.
-/

namespace JvmGraph

open List

def FieldType.classNames : FieldType → List String
  | base _ => []
  | object name => [name]
  | array element => element.classNames

def MethodType.types (m : MethodType) : List FieldType := m.result?.toList ++ m.params

def MethodType.classNames (m : MethodType) : List String := m.types.flatMap FieldType.classNames

variable {name : List Char} {p : Piece} {cs : List Component} {t : Table} {c : Component}

namespace Symbol

open Text Steps

def scopeComponents (name : List Char) : List Component := (namePaths name).map fun a => .scope a.1

def typeComponents : FieldType → List Component
  | .base _ => []
  | .object name => scopeComponents name.toList ++ [.pointer name.toList]
  | .array element => .template :: (typeComponents element ++ [.array element, .arrayPointer element])

def MemberKind.type? : MemberKind → Option MethodType
  | field => none
  | method type _ => some type

def components (owner : String) (kind : MemberKind) : List Component :=
  scopeComponents owner.toList ++ kind.type?.toList.flatMap fun type => type.types.flatMap typeComponents

/-! ## Whole class names -/

/-- A class name that begins with `path?` and goes on with these parts. -/
def wholePath (path? : Option (List Char)) (parts : List (List Char)) : Option (List Char) :=
  parts.foldl (fun path? part => some (joined path? part)) path?

lemma wholePath_eq : ∀ (path? : Option (List Char)) {parts : List (List Char)}, parts ≠ [] →
    wholePath path? parts = some (front path? ++ List.intercalate ['/'] parts)
  | path?, [part], _ => by simp [wholePath, joined_eq]
  | path?, part :: q :: qs, _ => by
    change wholePath (some (joined path? part)) (q :: qs) = _
    rw [wholePath_eq _ (cons_ne_nil q qs), joined_eq]; simp [front]

lemma wholePath_pieces (name : List Char) : wholePath none (pieces '/' name) = some name := by
  rw [wholePath_eq none (pieces_ne_nil '/' name), intercalate_pieces]
  rfl

lemma wholePath_ne {path : List Char} {parts : List (List Char)} (h : parts ≠ []) :
    wholePath (some path) parts ≠ some path := by
  rw [wholePath_eq _ h]
  intro heq
  have := congrArg List.length (Option.some.inj heq)
  simp [front] at this

lemma wholePath_mem : ∀ (path? : Option (List Char)) {parts : List (List Char)}, parts ≠ [] →
    wholePath path? parts ∈ (paths path? parts).map fun a => some a.1
  | path?, [part], _ => by simp [wholePath, paths]
  | path?, part :: q :: qs, _ => by
    have := wholePath_mem (some (joined path? part)) (cons_ne_nil q qs); exact .tail _ this

lemma namePaths_eq (h : IsParted name) : namePaths name = paths none (pieces '/' name) :=
  scopes_paths h

lemma scope_mem_scopeComponents (h : IsParted name) : .scope name ∈ scopeComponents name := by
  have hmem := wholePath_mem none (pieces_ne_nil '/' name)
  rw [wholePath_pieces, ← namePaths_eq h] at hmem
  obtain ⟨a, ha, heq⟩ := mem_map.1 hmem
  exact mem_map.2 ⟨a, ha, congrArg Component.scope (Option.some.inj heq)⟩

/-! ## Tables and references -/

structure Table.Within (cs : List Component) (t : Table) : Prop where
  length_le : t.length ≤ Table.capacity
  mem : ∀ c ∈ t, c ∈ cs

lemma Table.Within.record (h : t.Within cs) (hc : c ∈ cs)
    (hlt : t.length < Table.capacity) : Table.Within cs (t ++ [c]) where
  length_le := by rwa [length_append]
  mem := by
    intro d hd
    rcases mem_append.1 hd with hd | hd
    · exact h.mem d hd
    · rwa [mem_singleton.1 hd]

def Piece.Refers (cs : List Component) (t : Table) : Piece → Prop
  | text _ => True
  | back c i => c ∈ cs ∧ ∃ d, t[i]? = some d ∧ d.key = c.key

lemma Piece.Refers.mono {t' : Table} (h : p.Refers cs t) (ht : t <+: t') : p.Refers cs t' := by
  cases p with
  | text s => trivial
  | back c i =>
    obtain ⟨hc, d, hd, hkey⟩ := h
    obtain ⟨new, rfl⟩ := ht
    have hi : i < t.length := (List.getElem?_eq_some_iff.1 hd).1
    exact ⟨hc, d, by rw [List.getElem?_append_left hi, hd], hkey⟩

structure Writes (cs : List Component) (t : Table) (ps : List Piece) (t' : Table) : Prop where
  grows : t <+: t'
  within : t'.Within cs
  refers : ∀ p ∈ ps, p.Refers cs t'

namespace Writes

variable {t' t'' : Table} {ps qs : List Piece}

lemma nil (h : t.Within cs) : Writes cs t [] t := ⟨prefix_refl t, h, by simp⟩

lemma append (h : Writes cs t ps t') (h' : Writes cs t' qs t'') : Writes cs t (ps ++ qs) t'' where
  grows := h.grows.trans h'.grows
  within := h'.within
  refers := by
    intro p hp
    rcases mem_append.1 hp with hp | hp
    · exact (h.refers p hp).mono h'.grows
    · exact h'.refers p hp

lemma single (h : t.Within cs) (hp : p.Refers cs t) : Writes cs t [p] t :=
  ⟨prefix_refl t, h, by simpa using hp⟩

lemma text (s : List Char) (h : Writes cs t ps t') : Writes cs t (.text s :: ps) t' where
  grows := h.grows
  within := h.within
  refers := by
    intro p hp
    rcases mem_cons.1 hp with rfl | hp
    · trivial
    · exact h.refers p hp

lemma record (h : Writes cs t ps t') (hc : c ∈ cs) (hlt : t'.length < Table.capacity) :
    Writes cs t ps (t' ++ [c]) where
  grows := h.grows.trans (prefix_append t' [c])
  within := h.within.record hc hlt
  refers := fun p hp => (h.refers p hp).mono (prefix_append t' [c])

end Writes

variable {t' : Table} {ps : List Piece} {member : String}

lemma writes_pathNames : ∀ {l : List (List Char × List Char)} {held : Option Piece} {t t' : Table} {ps : List Piece},
    (∀ a ∈ l, .scope a.1 ∈ cs) → (∀ p ∈ held, p.Refers cs t) → t.Within cs → pathNames held l t = .ok (ps, t') →
    Writes cs t ps t'
  | [], held, t, t', ps, _, _, ht, h => by
    cases h; exact Writes.nil ht
  | (path, part) :: l, held, t, t', ps, hl, hheld, ht, h => by
    have hpath : .scope path ∈ cs := hl (path, part) (mem_cons_self ..)
    have hrest : ∀ a ∈ l, .scope a.1 ∈ cs := fun a ha => hl a (.tail _ ha)
    obtain ⟨i, hi, h⟩ | ⟨-, hlt, after, hafter, rfl⟩ := pathNames_cons_ok h
    · refine writes_pathNames hrest ?_ ht h
      rintro p ⟨⟩; exact ⟨hpath, Table.index?_eq_some hi⟩
    · have hfront : Writes cs t held.toList t := ⟨prefix_refl t, ht, by simpa using hheld⟩
      exact (hfront.record hpath hlt).append ((writes_pathNames hrest (by simp) (ht.record hpath hlt) hafter).text _)

lemma writes_pointerName (hname : IsParted name)
    (hcs : ∀ c ∈ scopeComponents name ++ [.pointer name], c ∈ cs) (ht : t.Within cs)
    (h : pointerName name t = .ok (ps, t')) : Writes cs t ps t' := by
  have hpointer : .pointer name ∈ cs := hcs _ (by simp)
  have hscope : ∀ c ∈ scopeComponents name, c ∈ cs := fun c hc => hcs c (by simp [hc])
  obtain ⟨i, hi, rfl, rfl⟩ | ⟨i, hi, hlt, rfl, rfl⟩ | ⟨-, inner, t1, hinner, hlt, rfl, rfl⟩ := pointerName_ok h
  · exact .single ht ⟨hpointer, Table.index?_eq_some hi⟩
  · have hrefers : (Piece.back (.scope name) i).Refers cs t :=
      ⟨hscope _ (scope_mem_scopeComponents hname), Table.index?_eq_some hi⟩
    exact ((Writes.single ht hrefers).text _).record hpointer hlt
  · have hw := writes_pathNames (fun a ha => hscope _ (mem_map_of_mem ha)) (by simp) ht hinner
    exact ((hw.append ((Writes.nil hw.within).text ['E'])).text _).record hpointer hlt

lemma writes_templateName (hcs : .template ∈ cs) (ht : t.Within cs)
    (h : templateName t = .ok (p, t')) : Writes cs t [p] t' := by
  obtain ⟨i, hi, rfl, rfl⟩ | ⟨hlt, rfl, rfl⟩ := templateName_ok h
  · exact .single ht ⟨hcs, Table.index?_eq_some hi⟩
  · exact ((Writes.nil ht).text _).record hcs hlt

lemma writes_typeName : ∀ {type : FieldType} {t t' : Table} {ps : List Piece},
    (∀ name ∈ type.classNames, IsParted name.toList) → (∀ c ∈ typeComponents type, c ∈ cs) → t.Within cs →
    typeName type t = .ok (ps, t') → Writes cs t ps t'
  | .base k, t, t', ps, _, _, ht, h => by
    obtain ⟨rfl, rfl⟩ := state_pure_ok.1 h; exact (Writes.nil ht).text _
  | .object name, t, t', ps, hnames, hcs, ht, h => writes_pointerName (hnames name (mem_singleton_self name)) hcs ht h
  | .array e, t, t', ps, hnames, hcs, ht, h => by
    have hcs' : ∀ c ∈ typeComponents e ++ [.array e, .arrayPointer e], c ∈ cs :=
      fun c hc => hcs c (.tail _ hc)
    obtain ⟨i, hi, rfl, rfl⟩ | ⟨p, t1, inner, t2, hp, hinner, hlt, rfl, rfl⟩ := typeName_array_ok h
    · exact .single ht ⟨hcs' _ (by simp), Table.index?_eq_some hi⟩
    · have hw1 := writes_templateName (hcs _ (mem_cons_self ..)) ht hp
      have hnames' : ∀ name ∈ e.classNames, IsParted name.toList := hnames
      have hw2 := writes_typeName hnames' (fun c hc => hcs' c (by simp [hc])) hw1.within hinner
      have hw : Writes cs t (.text ['P'] :: ([p] ++ (.text ['I'] :: (inner ++ [.text ['E']])))) t2 :=
        (hw1.append ((hw2.append ((Writes.nil hw2.within).text ['E'])).text ['I'])).text ['P']
      have hw' := (hw.record (c := .array e) (hcs' _ (by simp)) (by omega)).record (c := .arrayPointer e)
        (hcs' _ (by simp)) (by simpa using hlt)
      rwa [append_assoc] at hw'

lemma writes_mapM_typeName : ∀ {types : List FieldType} {t t' : Table} {pss : List (List Piece)},
    (∀ name ∈ types.flatMap FieldType.classNames, IsParted name.toList) →
    (∀ c ∈ types.flatMap typeComponents, c ∈ cs) → t.Within cs → types.mapM typeName t = .ok (pss, t') →
    Writes cs t pss.flatten t'
  | [], t, t', pss, _, _, ht, h => by
    obtain ⟨rfl, rfl⟩ := state_pure_ok.1 h; exact Writes.nil ht
  | type :: types, t, t', pss, hnames, hcs, ht, h => by
    simp only [flatMap_cons, mem_append] at hnames hcs
    obtain ⟨ps, t1, rest, hps, hrest, rfl⟩ := mapM_typeName_cons_ok h
    have hw := writes_typeName (fun n hn => hnames n (.inl hn)) (fun c hc => hcs c (.inl hc)) ht hps
    exact hw.append
      (writes_mapM_typeName (fun n hn => hnames n (.inr hn)) (fun c hc => hcs c (.inr hc)) hw.within hrest)

lemma writes_resultName {result? : Option FieldType}
    (hnames : ∀ name ∈ result?.toList.flatMap FieldType.classNames, IsParted name.toList)
    (hcs : ∀ c ∈ result?.toList.flatMap typeComponents, c ∈ cs) (ht : t.Within cs)
    (h : resultName result? t = .ok (ps, t')) : Writes cs t ps t' := by
  cases result? with
  | none =>
    cases h; exact (Writes.nil ht).text _
  | some type => exact writes_typeName (by simpa using hnames) (by simpa using hcs) ht h

lemma writes_paramNames {params : List FieldType}
    (hnames : ∀ name ∈ params.flatMap FieldType.classNames, IsParted name.toList)
    (hcs : ∀ c ∈ params.flatMap typeComponents, c ∈ cs) (ht : t.Within cs)
    (h : paramNames params t = .ok (ps, t')) : Writes cs t ps t' := by
  rw [paramNames] at h
  split at h
  · cases h; exact (Writes.nil ht).text _
  · obtain ⟨pss, t1, hpss, h⟩ := state_bind_ok.1 h
    cases h; exact writes_mapM_typeName hnames hcs ht hpss

lemma writes_signature {type : MethodType} {isStatic : Bool} (hnames : ∀ name ∈ type.classNames, IsParted name.toList)
    (hcs : ∀ c ∈ type.types.flatMap typeComponents, c ∈ cs) (ht : t.Within cs)
    (h : signature member type isStatic t = .ok (ps, t')) : Writes cs t ps t' := by
  simp only [MethodType.classNames, MethodType.types, flatMap_append, mem_append] at hnames hcs
  obtain ⟨-, rfl, rfl⟩ | ⟨result, t1, params, hresult, hparams, rfl⟩ := signature_ok h
  · exact (Writes.nil ht).text _
  · have hw := writes_resultName (fun n hn => hnames n (.inl hn)) (fun c hc => hcs c (.inl hc)) ht hresult
    exact (hw.append (writes_paramNames (fun n hn => hnames n (.inr hn)) (fun c hc => hcs c (.inr hc)) hw.within
      hparams)).text _

lemma Table.Within.nil : Table.Within cs [] := ⟨Nat.zero_le _, by simp⟩

lemma writes_memberSymbol {owner : String} {kind : MemberKind}
    (hnames : ∀ name ∈ kind.type?.toList.flatMap MethodType.classNames, IsParted name.toList)
    (h : memberSymbol owner member kind [] = .ok (ps, t)) : Writes (components owner kind) [] ps t := by
  obtain ⟨inner, t1, types, hinner, htypes, rfl⟩ := memberSymbol_ok h
  have hw : Writes (components owner kind) [] inner t1 := writes_pathNames
    (fun a ha => mem_append_left _ (mem_map_of_mem ha)) (by simp) Table.Within.nil hinner
  have hw' : Writes (components owner kind) t1 types t := by
    cases kind with
    | field =>
      cases htypes; exact Writes.nil hw.within
    | method type isStatic =>
      refine writes_signature (by simpa [MemberKind.type?] using hnames)
        (fun c hc => mem_append_right _ ?_) hw.within htypes
      simpa [MemberKind.type?] using hc
  exact (hw.append ((hw'.text _).text _)).text _

end Symbol

end JvmGraph
