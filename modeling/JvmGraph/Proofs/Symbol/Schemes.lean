import JvmGraph.Proofs.Symbol.Injective

/-!
# Telling symbols apart

The symbol of a member says which member of which class it is, and a method type says how its descriptor is written. The
symbol of a dispatch table says whose table it is.
-/

namespace JvmGraph

/-! ## Descriptors -/

namespace MethodType

/-- A descriptor is the written form of the type that is read from it. -/
lemma text_of_parse {s : String} {m : MethodType} (h : parse s = .ok m) : m.text = s := by
  rw [text, ← (parse_eq_ok_iff.1 h).2, String.ofList_toList]

end MethodType

namespace Symbol

open Steps Text

/-! ## Members -/

/-- The name of a class is not to be mistaken: its parts are not empty and begin with no digit, and it has no `<`. -/
structure IsClassName (name : String) : Prop where
  parts : ∀ part ∈ pieces '/' name.toList, part ≠ [] ∧ leadsWithDigit part = false
  plain : '<' ∉ name.toList

instance (name : String) : Decidable (IsClassName name) :=
  decidable_of_iff ((∀ part ∈ pieces '/' name.toList, part ≠ [] ∧ leadsWithDigit part = false) ∧ '<' ∉ name.toList)
    ⟨fun h => ⟨h.1, h.2⟩, fun h => ⟨h.parts, h.plain⟩⟩

/-- The name of a member is not to be mistaken: it begins with no digit and is not the spelling of the class
initialiser. -/
def IsMemberName (name : String) : Prop := leadsWithDigit name.toList = false ∧ name ≠ classInitialiser

instance (name : String) : Decidable (IsMemberName name) := inferInstanceAs (Decidable (_ ∧ _))

variable {owner member symbol : String} {name : String}

lemma IsClassName.read_field (ho : IsClassName owner) (hm : IsMemberName member)
    (hs : mangleMember owner member .field = .ok symbol) :
    readSymbol .byKey symbol.toList = some ⟨owner, member, none⟩ := by
  obtain ⟨ps, t, hps, rfl⟩ := run_ok.1 hs
  have hplain : ∀ c ∈ components owner .field, c.IsPlain := by
    intro c hc
    rcases List.mem_append.1 hc with hc | hc
    · exact isPlain_of_mem_scopeComponents ho.plain c hc
    · cases hc
  have hreadable : IsReadable owner member .field :=
    ⟨⟨fun part hpart => (ho.parts part hpart).1, fun part hpart => (ho.parts part hpart).2⟩, hm.1, nofun, nofun⟩
  rw [String.toList_ofList, readSymbol_memberSymbol (Glossary.byKey_masters hplain) hreadable hps,
    shownMember, if_neg hm.2]
  rfl

lemma IsClassName.read_method (ho : IsClassName owner) (hm : IsMemberName member) {descriptor : String}
    {type : MethodType}
    (htype : MethodType.parse descriptor = .ok type) (hnames : ∀ name ∈ type.classNames, IsClassName name)
    {isStatic : Bool}
    (hs : mangleMember owner member (.method type isStatic) = .ok symbol) :
    readSymbol .byKey symbol.toList = some ⟨owner, member, some type⟩ := by
  have hall : ∀ name ∈ owner :: type.classNames, IsClassName name := List.forall_mem_cons.2 ⟨ho, hnames⟩
  exact IsNameable.read ⟨fun name h => (hall name h).parts, fun name h => (hall name h).plain, hm,
    MethodType.isProper_of_parse htype⟩ hs

/-! ## Dispatch tables -/

lemma mangleVTable_ok (h : mangleVTable name = .ok symbol) :
    symbol.toList = "_ZTVN".toList ++ (((pieces '/' name.toList).filter (· ≠ [])).flatMap sourceName ++ ['E']) := by
  obtain ⟨ps, t, hps, rfl⟩ := run_ok.1 h
  obtain ⟨inner, t1, hinner, hps⟩ := state_bind_ok.1 hps
  cases hps
  rw [ownerScopes_nil] at hinner
  obtain ⟨rfl, -⟩ := pathNames_namePaths hinner
  simp [render_owner]

lemma IsClassName.eq_of_mangleVTable {name' : String} (hn : IsClassName name) (hn' : IsClassName name')
    (h : mangleVTable name = .ok symbol) (h' : mangleVTable name' = .ok symbol) : name = name' := by
  have hparts : ∀ {name : String}, IsClassName name →
      (pieces '/' name.toList).filter (· ≠ []) = pieces '/' name.toList :=
    fun hn => List.filter_eq_self.2 fun part hpart => by simpa using (hn.parts part hpart).1
  have htext : (pieces '/' name.toList).flatMap sourceName = (pieces '/' name'.toList).flatMap sourceName := by
    have := (mangleVTable_ok h).symm.trans (mangleVTable_ok h')
    rw [hparts hn, hparts hn'] at this
    exact List.append_cancel_right (List.append_cancel_left this)
  -- behind the parts of the name, any member can be read
  have hread : ∀ {name : String}, IsClassName name → ∀ fuel, (pieces '/' name.toList).length < fuel →
      ∃ read, readNames fuel none [] ((pieces '/' name.toList).flatMap sourceName ++ (memberName "x" ++ ['E'])) =
        some read ∧
        read.1 = some name.toList := by
    intro name hn fuel hfuel
    refine ⟨_, readNames_written (by decide) [] hn.parts hfuel, ?_⟩
    exact wholePath_pieces name.toList
  obtain ⟨read, h1, hname⟩ := hread hn ((pieces '/' name.toList).length + (pieces '/' name'.toList).length + 1)
    (by omega)
  obtain ⟨read', h2, hname'⟩ := hread hn' ((pieces '/' name.toList).length + (pieces '/' name'.toList).length + 1)
    (by omega)
  rw [htext] at h1
  obtain rfl : read = read' := Option.some.inj (h1.symm.trans h2)
  exact String.toList_inj.1 (Option.some.inj (hname.symm.trans hname'))

/-! ## Numbers -/

lemma repr_injective {m n : Nat} (h : Nat.repr m = Nat.repr n) : m = n := by
  have hdigits : Nat.toDigits 10 m = Nat.toDigits 10 n := by
    rw [← Nat.toList_repr, h, Nat.toList_repr]
  have hread := number?_toDigits m
  rw [hdigits, number?_toDigits] at hread
  exact (Option.some.inj hread).symm

/-! ## Beginnings -/

lemma take_mangleVTable (h : mangleVTable name = .ok symbol) : symbol.toList.take 3 = ['_', 'Z', 'T'] := by
  simp [mangleVTable_ok h]

lemma take_mangleMember {kind : MemberKind} (h : mangleMember owner member kind = .ok symbol) :
    symbol.toList.take 3 = ['_', 'Z', 'N'] := by
  obtain ⟨ps, t, hps, rfl⟩ := run_ok.1 h
  obtain ⟨inner, t1, types, -, -, rfl⟩ := memberSymbol_ok hps
  simp

end Symbol

end JvmGraph
