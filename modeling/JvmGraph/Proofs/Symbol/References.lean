import JvmGraph.Proofs.Symbol.Injective

/-!
# What references denote

A reference is found by the key of what it stands for. So it denotes that very thing wherever no two
components of a symbol share a key, and then a reader that takes every entry for what it was recorded for
gives back the owner, the member and the types. The scope `Pa` and the pointer to a class `a` do share a key,
and so do the scope `JArray` and the array template.
-/

namespace JvmGraph.Symbol

open Text Steps List

/-- Takes an entry for what it was recorded for. -/
def Glossary.byMeaning : Glossary where
  path?
    | .scope path => some path
    | _ => none
  isTemplate c := c = .template
  type?
    | .pointer name => some (.object (String.ofList name))
    | .arrayPointer element => some (.array element)
    | _ => none

def Unambiguous (cs : List Component) : Prop := ∀ c ∈ cs, ∀ d ∈ cs, d.key = c.key → d = c

instance (cs : List Component) : Decidable (Unambiguous cs) := inferInstanceAs (Decidable (∀ _ ∈ _, _))

lemma Unambiguous.masters {cs : List Component} (h : Unambiguous cs) : Glossary.byMeaning.Masters cs := by
  intro c hc d hd hkey
  rw [h c hc d hd hkey]
  cases c with
  | template => simp [Glossary.Understands, Glossary.byMeaning]
  | array e => trivial
  | scope path => rfl
  | pointer name => rfl
  | arrayPointer e => rfl

/-! ## References -/

/-- Every reference of a symbol leads to the entry that was recorded for what the reference stands for, and
the symbol read with the table that it builds up gives back its owner, its member and its types, provided that no
two of its components share a key. -/
theorem references_denote {owner member : String} {kind : MemberKind} {ps : List Piece} {t : Table}
    (hparts : ∀ name ∈ owner :: kind.type?.toList.flatMap MethodType.classNames, IsParted name.toList)
    (hkeys : Unambiguous (components owner kind)) (h : memberSymbol owner member kind [] = .ok (ps, t)) :
    mangleMember owner member kind = .ok (String.ofList (render ps)) ∧
      (∀ c i, .back c i ∈ ps → t[i]? = some c) ∧
      ((∀ name ∈ owner :: kind.type?.toList.flatMap MethodType.classNames, IsDelimited name.toList) →
        leadsWithDigit member.toList = false → member ≠ classInitialiser → (∀ type ∈ kind.type?, type.isProper = true) →
        readSymbol .byMeaning (render ps) = some ⟨owner, member, kind.type?⟩) := by
  refine ⟨run_ok.2 ⟨ps, t, h, rfl⟩, ?_, ?_⟩
  · intro c i hmem
    have hw := writes_memberSymbol (fun name hname => hparts name (mem_cons_of_mem _ hname)) h
    obtain ⟨hc, d, hd, hkey⟩ := hw.refers _ hmem
    rw [hd, hkeys c hc d (hw.within.mem d (mem_of_getElem? hd)) hkey]
  · intro hdelimited hdigit hmember hproper
    have hr : IsReadable owner member kind := {
      owner := ⟨hparts owner (mem_cons_self ..), hdelimited owner (mem_cons_self ..)⟩
      member := hdigit
      names := fun type htype name hname => by
        have hmem : name ∈ owner :: kind.type?.toList.flatMap MethodType.classNames :=
          mem_cons_of_mem _ (mem_flatMap.2 ⟨type, Option.mem_toList.2 htype, hname⟩)
        exact ⟨hparts name hmem, hdelimited name hmem⟩
      proper := hproper }
    rw [readSymbol_memberSymbol hkeys.masters hr h, shownMember, if_neg hmember]

/-- A signature that refers to a package, to a pointer and to the array template. -/
theorem references_denote_arrays :
    ∃ ps t, memberSymbol "a/B" "f" (.method ⟨[.array (.object "a/C"), .object "a/C", .array (.base .int)], none⟩ true)
    [] =
        .ok (ps, t) ∧
      render ps = "_ZN1a1B1fEJvP6JArrayIPNS_1CEES3_PS1_IiE".toList ∧
      (∀ c i, .back c i ∈ ps → t[i]? = some c) ∧
      readSymbol .byMeaning (render ps) =
        some ⟨"a/B", "f", some ⟨[.array (.object "a/C"), .object "a/C", .array (.base .int)], none⟩⟩ := by
  have hsymbol : mangleMember "a/B" "f"
      (.method ⟨[.array (.object "a/C"), .object "a/C", .array (.base .int)], none⟩ true) =
      .ok "_ZN1a1B1fEJvP6JArrayIPNS_1CEES3_PS1_IiE" := ok_of_toOption (by decide +kernel)
  obtain ⟨ps, t, h, hrender⟩ := run_ok.1 hsymbol
  obtain ⟨-, hback, hread⟩ := references_denote (by decide) (by decide +kernel) h
  exact ⟨ps, t, h, by rw [← hrender, String.toList_ofList], hback, hread (by decide) (by decide)
    (by decide) (by decide)⟩

/-- The pointer to `a` is written as a reference to the scope `Pa`. -/
example : memberSymbol "Pa" "f" (.method ⟨[.object "a"], none⟩ false) [] =
    .ok ([.text "_ZN".toList, .text "2Pa".toList, .text "1f".toList, .text ['E'], .text ['J'], .text ['v'],
      .back (.pointer ['a']) 0], [.scope "Pa".toList]) := by
  cbv

end JvmGraph.Symbol
