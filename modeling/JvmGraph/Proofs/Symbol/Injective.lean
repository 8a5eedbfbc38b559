import JvmGraph.Proofs.Descriptor
import JvmGraph.Proofs.Symbol.Reading

/-!
# Different methods have different symbols

A reference may lead to an entry that was recorded for something else with the same key: a class `Pa` and a
pointer to a class `a` share one. Still nothing is lost, since the key alone says what was meant wherever it
stands, as long as no class name has a `<`, with which arrays are spelled. So a symbol can be read through
the keys of its table, and two methods with one symbol are the same method.
-/

namespace JvmGraph

open List FieldType Option

/-! ## Types that can be written -/

lemma FieldType.IsDescribed.isProper : ∀ {t : FieldType}, t.IsDescribed → t.isProper = true
  | .base _, h => decide_eq_true h
  | .object _, _ => rfl
  | .array element, h => isProper (t := element) h

lemma MethodType.isProper_of_parse {s : String} {m : MethodType} (h : parse s = .ok m) : m.isProper = true := by
  rw [parse] at h
  split at h
  next m' hm =>
    cases h
    obtain ⟨hparams, hresult⟩ := (ofChars?_eq_some_iff.1 hm).1
    refine all_eq_true.2 fun t ht => ?_
    rcases mem_append.1 ht with ht | ht
    · exact (hresult t (mem_toList.1 ht)).isProper
    · exact (hparams t ht).isProper
  next => cases h

namespace Symbol

open Text Steps

/-! ## Spellings -/

lemma spellingOnto_eq : ∀ (t : FieldType) (rest : List Char), spellingOnto t rest = spelling t ++ rest
  | .base k, rest => by rw [spelling, spellingOnto, spellingOnto, cons_append, nil_append]
  | .object name, rest => by
    rw [spelling, spellingOnto, spellingOnto, append_nil, cons_append]
  | .array e, rest => by
    rw [spelling, spellingOnto, spellingOnto, spellingOnto_eq e ('>' :: rest), spellingOnto_eq e ['>'],
      append_assoc, append_assoc, singleton_append]

lemma spelling_array (e : FieldType) : spelling (.array e) = arrayOpening ++ (spelling e ++ ['>']) := by
  rw [spelling, spellingOnto, spellingOnto_eq]

lemma kindCode_injective {k k' : Kind} (hk : (base k).isProper = true)
    (hk' : (base k').isProper = true) (h : kindCode k = kindCode k') : k = k' :=
  some.inj ((kindOfCode?_kindCode hk).symm.trans (h ▸ kindOfCode?_kindCode hk'))

lemma kindCode_ne (k : Kind) : kindCode k ≠ 'P' ∧ kindCode k ≠ 'J' := by cases k <;> decide

lemma spelling_injective : ∀ {t t' : FieldType}, t.isProper = true → t'.isProper = true → spelling t = spelling t' →
    t = t'
  | .base k, .base k', ht, ht', h => by
    rw [kindCode_injective ht ht' (cons.inj h).1]
  | .base k, .object name, _, _, h => absurd (cons.inj h).1 (kindCode_ne k).1
  | .base k, .array e, _, _, h => absurd (cons.inj h).1 (kindCode_ne k).2
  | .object name, .base k, _, _, h => absurd (cons.inj h).1.symm (kindCode_ne k).1
  | .object name, .object name', _, _, h => by
    have := (cons.inj h).2
    rw [append_nil, append_nil] at this
    rw [String.toList_inj.1 this]
  | .object name, .array e, _, _, h => by
    exact absurd (cons.inj h).1 (by decide)
  | .array e, .base k, _, _, h => absurd (cons.inj h).1.symm (kindCode_ne k).2
  | .array e, .object name, _, _, h => by
    exact absurd (cons.inj h).1 (by decide)
  | .array e, .array e', ht, ht', h => by
    rw [spelling_array, spelling_array, append_cancel_left_eq, append_cancel_right_eq] at h
    rw [@spelling_injective e e' ht ht' h]

/-! ## Reading through keys -/

def Glossary.byKey : Glossary where
  path? c := some c.key
  isTemplate c := c.key = "JArray".toList
  type?
    | .scope ('P' :: name) | .pointer name => some (.object (String.ofList name))
    | .arrayPointer element => some (.array element)
    | _ => none

def Component.IsPlain : Component → Prop
  | scope path => '<' ∉ path
  | pointer name => '<' ∉ name
  | template => True
  | array element | arrayPointer element => element.isProper = true

lemma mem_spelling_array (e : FieldType) : '<' ∈ spelling (.array e) := by
  exact mem_append_left _ (by decide)

lemma Glossary.byKey_masters {cs : List Component} (h : ∀ c ∈ cs, c.IsPlain) : Glossary.byKey.Masters cs := by
  intro c hc d hd hkey
  have hc := h c hc
  have hd := h d hd
  cases c with
  | scope path => exact congrArg some hkey
  | template => exact decide_eq_true hkey
  | array e => trivial
  | pointer name =>
    cases d with
    | scope path => rw [show path = 'P' :: name from hkey]; rfl
    | pointer name' => rw [show name' = name from (cons.inj hkey).2]; rfl
    | template => exact absurd (cons.inj hkey).1 (by decide)
    | array e => exact absurd (cons.inj hkey).1 (by decide)
    | arrayPointer e =>
      have hname : spelling (.array e) = name := (cons.inj hkey).2
      exact absurd (hname ▸ mem_spelling_array e) hc
  | arrayPointer e =>
    cases d with
    | scope path =>
      have hpath : path = 'P' :: spelling (.array e) := hkey
      exact absurd (hpath ▸ mem_cons_of_mem _ (mem_spelling_array e)) hd
    | pointer name =>
      have hname : name = spelling (.array e) := (cons.inj hkey).2
      exact absurd (hname ▸ mem_spelling_array e) hd
    | template => exact absurd (cons.inj hkey).1 (by decide)
    | array e' => exact absurd (cons.inj hkey).1 (by decide)
    | arrayPointer e' =>
      have heq : spelling (.array e') = spelling (.array e) := (cons.inj hkey).2
      have htypes : array e' = .array e := spelling_injective hd hc heq
      cases htypes
      rfl

lemma isPlain_of_mem_scopeComponents {name : List Char} (h : '<' ∉ name) : ∀ c ∈ scopeComponents name, c.IsPlain := by
  intro c hc
  obtain ⟨a, ha, rfl⟩ := mem_map.1 hc
  obtain ⟨s, -, rfl⟩ := mem_map.1 ha
  exact fun hmem => h (mem_of_mem_take hmem)

lemma isPlain_of_mem_typeComponents : ∀ {type : FieldType}, type.isProper = true →
    (∀ name ∈ type.classNames, '<' ∉ name.toList) → ∀ c ∈ typeComponents type, c.IsPlain
  | .base _, _, _, c, hc => by simp [typeComponents] at hc
  | .object name, _, hnames, c, hc => by
    have hname := hnames name (mem_singleton_self name)
    rcases mem_append.1 hc with hc | hc
    · exact isPlain_of_mem_scopeComponents hname c hc
    · rwa [mem_singleton.1 hc]
  | .array e, hproper, hnames, c, hc => by
    simp only [typeComponents, mem_cons, mem_append, not_mem_nil, or_false] at hc
    rcases hc with rfl | hc | rfl | rfl
    · trivial
    · exact @isPlain_of_mem_typeComponents e hproper hnames c hc
    · exact hproper
    · exact hproper

/-- A method whose symbol is not to be mistaken: the parts of its class names are not empty and begin with no
digit, its class names have no `<`, its own name begins with no digit and is not the spelling of the class
initialiser. -/
structure IsNameable (owner member : String) (type : MethodType) : Prop where
  parts : ∀ name ∈ owner :: type.classNames, ∀ part ∈ pieces '/' name.toList, part ≠ [] ∧ leadsWithDigit part = false
  plain : ∀ name ∈ owner :: type.classNames, '<' ∉ name.toList
  member : leadsWithDigit member.toList = false ∧ member ≠ classInitialiser
  proper : type.isProper = true

namespace IsNameable

variable {owner member : String} {type : MethodType} (h : IsNameable owner member type)
include h

lemma isReadable (isStatic : Bool) : IsReadable owner member (.method type isStatic) where
  owner := ⟨fun part hpart => (h.parts owner (mem_cons_self ..) part hpart).1,
    fun part hpart => (h.parts owner (mem_cons_self ..) part hpart).2⟩
  member := h.member.1
  names := by
    rintro _ ⟨⟩ name hname
    exact ⟨fun part hpart => (h.parts name (.tail _ hname) part hpart).1,
      fun part hpart => (h.parts name (.tail _ hname) part hpart).2⟩
  proper := by
    rintro _ ⟨⟩; exact h.proper

lemma isPlain (isStatic : Bool) : ∀ c ∈ components owner (.method type isStatic), c.IsPlain := by
  intro c hc
  rcases mem_append.1 hc with hc | hc
  · exact isPlain_of_mem_scopeComponents (h.plain owner (mem_cons_self ..)) c hc
  · simp only [MemberKind.type?, toList_some, flatMap_cons, flatMap_nil, append_nil] at hc
    obtain ⟨t, ht, hc⟩ := mem_flatMap.1 hc
    exact isPlain_of_mem_typeComponents (all_eq_true.1 h.proper t ht)
      (fun name hname => h.plain name (.tail _ (mem_flatMap.2 ⟨t, ht, hname⟩))) c hc

lemma read {isStatic : Bool} {symbol : String} (hs : mangleMember owner member (.method type isStatic) = .ok symbol) :
    readSymbol .byKey symbol.toList = some ⟨owner, member, some type⟩ := by
  obtain ⟨ps, t, hps, rfl⟩ := run_ok.1 hs
  rw [String.toList_ofList, readSymbol_memberSymbol (Glossary.byKey_masters (h.isPlain isStatic))
    (h.isReadable isStatic) hps,
    shownMember, if_neg h.member.2]
  rfl

end IsNameable

lemma readNames_mangleMember {owner member : String} {kind : MemberKind} {symbol : String}
    (howner : IsDelimited owner.toList) (hmember : leadsWithDigit member.toList = false)
    (h : mangleMember owner member kind = .ok symbol) :
    ∃ t t' types s read, encodedTypes member kind t = .ok (types, t') ∧ symbol = String.ofList ("_ZN".toList ++ s) ∧
      readNames s.length none [] s = some read ∧ read.2.2.2 = render types := by
  obtain ⟨ps, t', hps, rfl⟩ := run_ok.1 h
  obtain ⟨inner, t, types, hinner, htypes, rfl⟩ := memberSymbol_ok hps
  obtain ⟨rfl, -⟩ := pathNames_namePaths hinner
  have hparts : ∀ part ∈ (pieces '/' owner.toList).filter (· ≠ []), part ≠ [] ∧ leadsWithDigit part = false := by
    intro part hpart
    obtain ⟨hpart, hne⟩ := mem_filter.1 hpart; exact ⟨by simpa using hne, howner part hpart⟩
  have hlength := length_le_length_flatMap_sourceName ((pieces '/' owner.toList).filter (· ≠ []))
  refine ⟨t, t', types, _, _, htypes, ?_, readNames_written hmember (render types) hparts ?_, rfl⟩
  · simp [render_owner]
  · simp only [length_append, length_cons]; omega

/-- Two methods with the same symbol are the same method, and no method has the symbol of a field. -/
theorem mangleMember_injective :
    (∀ (owner₁ owner₂ member₁ member₂ : String) (type₁ type₂ : MethodType) (isStatic₁ isStatic₂ : Bool)
        (symbol : String), IsNameable owner₁ member₁ type₁ → IsNameable owner₂ member₂ type₂ →
        mangleMember owner₁ member₁ (.method type₁ isStatic₁) = .ok symbol →
        mangleMember owner₂ member₂ (.method type₂ isStatic₂) = .ok symbol →
        owner₁ = owner₂ ∧ member₁ = member₂ ∧ type₁ = type₂) ∧
      ∀ (owner member owner' field symbol : String) (type : MethodType) (isStatic : Bool),
        IsDelimited owner.toList → leadsWithDigit member.toList = false →
        IsDelimited owner'.toList → leadsWithDigit field.toList = false →
        mangleMember owner member (.method type isStatic) = .ok symbol →
          mangleMember owner' field .field ≠ .ok symbol := by
  constructor
  · intro owner₁ owner₂ member₁ member₂ type₁ type₂ isStatic₁ isStatic₂ symbol hn₁ hn₂ h₁ h₂
    have heq := (hn₁.read h₁).symm.trans (hn₂.read h₂)
    simpa using heq
  · intro owner member owner' field symbol type isStatic howner hmember howner' hfield h h'
    obtain ⟨t, t', types, s, read, htypes, hs, hread, hrest⟩ := readNames_mangleMember howner hmember h
    obtain ⟨u, u', types', s', read', htypes', hs', hread', hrest'⟩ := readNames_mangleMember howner' hfield h'
    obtain rfl : s = s' := append_cancel_left (String.ofList_injective (hs.symm.trans hs'))
    obtain rfl : read = read' := some.inj (hread.symm.trans hread')
    obtain ⟨rfl, -⟩ := state_pure_ok.1 htypes'
    exact render_signature_ne_nil htypes (hrest.symm.trans hrest')

/-- The pointer to `a` is written as a reference to the scope `Pa`, static or not. -/
theorem mangleMember_injective_shared_key :
    mangleMember "Pa" "f" (.method ⟨[.object "a"], none⟩ false) = .ok "_ZN2Pa1fEJvS_" ∧
      mangleMember "Pa" "f" (.method ⟨[.object "a"], none⟩ true) = .ok "_ZN2Pa1fEJvS_" ∧
      ("Pa" = "Pa" ∧ "f" = "f" ∧ (⟨[.object "a"], none⟩ : MethodType) = ⟨[.object "a"], none⟩) ∧
      mangleMember "Pa" "f" .field ≠ .ok "_ZN2Pa1fEJvS_" := by
  have hinstance : mangleMember "Pa" "f" (.method ⟨[.object "a"], none⟩ false) = .ok "_ZN2Pa1fEJvS_" :=
    ok_of_toOption (by decide +kernel)
  have hstatic : mangleMember "Pa" "f" (.method ⟨[.object "a"], none⟩ true) = .ok "_ZN2Pa1fEJvS_" :=
    ok_of_toOption (by decide +kernel)
  have hnameable : IsNameable "Pa" "f" ⟨[.object "a"], none⟩ := ⟨by decide, by decide, by decide, by decide⟩
  exact ⟨hinstance, hstatic,
    mangleMember_injective.1 _ _ _ _ _ _ _ _ _ hnameable hnameable hinstance hstatic,
    mangleMember_injective.2 _ _ _ _ _ _ _ (by decide) (by decide) (by decide) (by decide) hinstance⟩

end Symbol

end JvmGraph
