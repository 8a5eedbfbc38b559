import JvmGraph.Proofs.Linking.Members

/-!
# Linking interface methods

Every instance method of an interface becomes a member of the classes that implement it. A method that the
class has is noted as an implementation of it, and otherwise a stand-in is added: for the inherited method,
or for one that subclasses are to provide.
-/

open Relation (TransGen)

namespace JvmGraph

open Steps Load World List Option Program

variable {new o : EntityId} {mo : Method} {own im : EntityId} {p : Program} {entity : Entity} {mi : Method} {P : Prop}
  {file : ClassFile} {fields declared standIns : List EntityId} {name descriptor : String}

namespace Program

variable {p' : Program} {c a : ClassId} {i : ClassId}

/-! ## Interfaces -/

lemma collectInterfaces_interfaceOf {fuel : Nat} {seen work : List ClassId}
    (hseen : ∀ i ∈ seen, p.InterfaceOf c i) (hwork : ∀ i ∈ work, p.InterfaceOf c i) :
    ∀ i ∈ p.collectInterfaces fuel seen work, p.InterfaceOf c i := by
  induction fuel generalizing seen work with
  | zero => exact hseen
  | succ fuel ih =>
    cases work with
    | nil => exact hseen
    | cons j work =>
      have hj := hwork j (by simp)
      rw [collectInterfaces]
      split
      · exact ih hseen fun i hi => hwork i (by simp [hi])
      · apply ih
        · intro i hi
          rcases mem_append.1 hi with hi | hi
          · exact hseen i hi
          · rw [mem_singleton] at hi; exact hi ▸ hj
        · intro i hi
          rcases mem_append.1 hi with hi | hi
          · exact hj.tail hi
          · exact hwork i (by simp [hi])

private def edges (p : Program) (left : List ClassId) : Nat :=
  left.foldr (fun i n => (p.classAt i).interfaces.length + n) 0

private lemma edges_erase {left : List ClassId} (hi : i ∈ left) :
    p.edges left = (p.classAt i).interfaces.length + p.edges (left.erase i) := by
  induction left with
  | nil => cases hi
  | cons j rest ih =>
    by_cases hj : j = i
    · rw [hj, erase_cons_head]; rfl
    · have hrest := ih ((mem_cons.1 hi).resolve_left (Ne.symm hj))
      rw [erase_cons_tail (by simpa using hj)]
      simp only [edges, foldr_cons] at hrest ⊢; omega

private lemma collectInterfaces_closed (fuel : Nat) (seen work left : List ClassId)
    (hfuel : work.length + p.edges left ≤ fuel)
    (hleft : ∀ i, i ∉ seen → i ∈ left ∨ (p.classAt i).interfaces = [])
    (hseen : ∀ i ∈ seen, ∀ j ∈ (p.classAt i).interfaces, j ∈ seen ∨ j ∈ work) :
    (∀ i, i ∈ seen ∨ i ∈ work → i ∈ p.collectInterfaces fuel seen work) ∧
      ∀ i ∈ p.collectInterfaces fuel seen work, ∀ j ∈ (p.classAt i).interfaces,
        j ∈ p.collectInterfaces fuel seen work := by
  induction fuel generalizing seen work left with
  | zero =>
    obtain rfl : work = [] := eq_nil_of_length_eq_zero (by omega)
    simpa [collectInterfaces] using hseen
  | succ fuel ih =>
    cases work with
    | nil => simpa [collectInterfaces] using hseen
    | cons i work =>
      rw [length_cons] at hfuel
      rw [collectInterfaces]
      split
      · rename_i hi
        obtain ⟨h1, h2⟩ := ih seen work left (by omega) hleft (by grind)
        exact ⟨fun j hj => h1 j (by grind), h2⟩
      · rename_i hi
        have hrest : (p.classAt i).interfaces.length + p.edges (left.erase i) ≤ p.edges left := by
          by_cases hmem : i ∈ left
          · rw [edges_erase hmem]
          · simp [erase_of_not_mem hmem, (hleft i hi).resolve_left hmem]
        have hleft' : ∀ j, j ∉ seen ++ [i] → j ∈ left.erase i ∨ (p.classAt j).interfaces = [] := by
          intro j hj
          rw [mem_append, mem_singleton, not_or] at hj
          exact (hleft j hj.1).imp (mem_erase_of_ne hj.2).2 id
        obtain ⟨h1, h2⟩ := ih (seen ++ [i]) ((p.classAt i).interfaces ++ work) (left.erase i)
          (by rw [length_append]; omega) hleft' (by grind)
        exact ⟨fun j hj => h1 j (by grind), h2⟩

lemma mem_allInterfaces : i ∈ p.allInterfaces c ↔ p.InterfaceOf c i := by
  refine ⟨fun hi => collectInterfaces_interfaceOf (by simp) (fun j hj => .single hj) i hi, fun hi => ?_⟩
  have hall : p.classes.toList = (List.range p.classes.size).map fun n => p.classAt ⟨n⟩ := by
    refine ext_getElem (by simp) fun n h _ => ?_
    simp [classAt, show n < p.classes.size by simpa using h]
  have hedges : p.classes.toList.foldr (fun info n => info.interfaces.length + n) 0 =
      p.edges ((List.range p.classes.size).map ClassId.mk) := by
    rw [hall, edges, foldr_map, foldr_map]
  have hleft : ∀ i, i ∉ [] → i ∈ (List.range p.classes.size).map ClassId.mk ∨ (p.classAt i).interfaces = [] := by
    intro i _
    by_cases hi : p.HasClass i
    · exact .inl (mem_map.2 ⟨i.index, mem_range.2 hi, rfl⟩)
    · exact .inr (by rw [p.classAt_of_not i hi])
  obtain ⟨hwork, hclosed⟩ := p.collectInterfaces_closed _ [] (p.classAt c).interfaces _ le_rfl hleft (by simp)
  rw [allInterfaces, hedges]
  induction hi with
  | single hi => exact hwork _ (.inr hi)
  | tail _ hab ih => exact hclosed _ ih _ hab

/-! ## Inherited methods -/

lemma Based.real (h : p.Based c) (ho : p.InheritedMember c o) (hm : p.declAt? o = some mo) :
    ∃ mr, p.declAt? (mo.implementation?.getD o) = some mr ∧
      mr.implementation? = none ∧ p.InheritedMember c (mo.implementation?.getD o) ∧
      (p.entityAt (mo.implementation?.getD o)).name = (p.entityAt o).name ∧
      mr.descriptor = mo.descriptor ∧ mr.flags = mo.flags := by
  obtain ⟨s, hs, a, ha, hmem⟩ := ho
  obtain ⟨mr, hmr, hown, ⟨b, hb, hreal⟩, hrest⟩ := ((h.super s hs).ancestor ha).real hmem hm
  exact ⟨mr, hmr, hown, ⟨s, hs, b, (h.super s hs).ancestry_trans ha hb, hreal⟩, hrest⟩

lemma realImplementation_eq {mr : Method} (hm : p.declAt? o = some mo)
    (hmr : p.declAt? (mo.implementation?.getD o) = some mr) (hnone : mr.implementation? = none) :
    p.realImplementation o = mo.implementation?.getD o := by
  have hhas : p.HasEntity o := by
    obtain ⟨m, hm', -⟩ := map_eq_some_iff.1 hm; exact hasEntity_of_methodAt? hm'
  obtain ⟨n, hn⟩ : ∃ n, p.entities.size = n + 1 := by
    rw [HasEntity] at hhas; exact ⟨p.entities.size - 1, by omega⟩
  rw [realImplementation, hn, followImplementation, implementation?_declAt?, hm, bind_some]
  cases himp : mo.implementation? with
  | none => rfl
  | some r =>
    rw [himp, getD_some] at hmr
    cases n with
    | zero => rfl
    | succ n => simp [followImplementation, implementation?_declAt?, hmr, hnone]

lemma Based.realImplementation_eq (h : p.Based c) (ho : p.InheritedMember c o) (hm : p.declAt? o = some mo) :
    p.realImplementation o = mo.implementation?.getD o := by
  obtain ⟨mr, hmr, hnone, -⟩ := h.real ho hm
  exact Program.realImplementation_eq hm hmr hnone

/-! ## A method of the class itself -/

section Relink

private def relinked (p : Program) (own im : EntityId) : Program :=
  p.modifyMethod own fun m => { m with overwrites := m.overwrites ++ [im] }

section

variable (p : Program) (own im x : EntityId)

private lemma declAt?_relinked : (p.relinked own im).declAt? x = if x = own then
      (p.declAt? own).map fun m => { m with overwrites := m.overwrites ++ [im] } else p.declAt? x := by
  simp only [declAt?, relinked, methodAt?_modifyMethod]
  split
  · rename_i h; subst h; cases p.methodAt? x <;> rfl
  · rfl

private lemma name_relinked : ((p.relinked own im).entityAt x).name = (p.entityAt x).name := by
  refine modifyEntity_congr (·.name) ?_
  simp only []
  split <;> rfl

private lemma isInstanceMethod_relinked (name descriptor : String) :
    isInstanceMethod name descriptor ((p.relinked own im).entityAt x) =
      isInstanceMethod name descriptor (p.entityAt x) := by
  rw [Bool.eq_iff_iff, isInstanceMethod_iff, isInstanceMethod_iff, name_relinked, declAt?_relinked]
  split
  · rename_i h
    subst h
    cases hm : p.declAt? x with
    | none => simp
    | some m => simp [Method.isStatic]
  · rfl

end

lemma Parts.relink (hp : p.Parts c file fields declared standIns) (hsame : SameAbove p (p.relinked own im) c)
    (him : p.InterfaceMember c im) : (p.relinked own im).Parts c file fields declared standIns := by
  have hmore : ∀ {l : List EntityId}, (∀ x ∈ l, (p.relinked own im).InterfaceMember c x) →
      ∀ x ∈ l ++ [im], (p.relinked own im).InterfaceMember c x := by
    intro l hl x hx
    rcases mem_append.1 hx with hx | hx
    · exact hl x hx
    · exact mem_singleton.1 hx ▸ (hsame.interface im him).1
  have hat : ∀ {x m}, p.declAt? x = some m → (p.relinked own im).declAt? x =
      some (if x = own then { m with overwrites := m.overwrites ++ [im] } else m) := by
    intro x m hm
    rw [declAt?_relinked]
    split
    · rename_i hx; simp [← hx, hm]
    · exact hm
  -- a declared method stays one with the new note
  have hdecl : ∀ {member x}, p.IsDeclared c file member x → (p.relinked own im).IsDeclared c file member x := by
    rintro member x ⟨m, hm, hd⟩
    refine ⟨_, hat hm, ?_⟩
    rw [name_relinked]
    have hd' := hsame.declared hd
    split
    · obtain ⟨ims, h1, h2⟩ := hd'.overwrites
      exact { hd' with overwrites := ⟨ims ++ [im], by rw [h1, append_assoc]; rfl, hmore h2⟩ }
    · exact hd'
  have hstand : ∀ {x}, p.IsStandIn c x → (p.relinked own im).IsStandIn c x := by
    rintro x ⟨m, hm, hd⟩
    refine ⟨_, hat hm, ?_⟩
    rw [name_relinked]
    rcases hd with ⟨o, r, mr, hi⟩ | hv
    · refine .inl ⟨o, r, mr, ?_⟩
      split
      · exact { hsame.inherits hi with }
      · exact hsame.inherits hi
    · refine .inr ?_
      split
      · exact { hsame.vacant hv with overwrites := hmore (hsame.vacant hv).overwrites }
      · exact hsame.vacant hv
  refine ⟨hp.members, ?_, hp.isDeclared.imp fun _ _ => hdecl, fun e he => hstand (hp.isStandIn e he), ?_, hp.plain, ?_⟩
  · intro e he
    rw [declAt?_relinked]
    split
    · rename_i h; simp [← h, hp.isField e he]
    · exact hp.isField e he
  · intro name descriptor e he e' he'
    rw [isInstanceMethod_relinked, isInstanceMethod_relinked]
    exact hp.sole name descriptor e he e' he'
  · intro e he m hm
    rw [declAt?_relinked] at hm
    split at hm
    · rename_i h
      subst h
      obtain ⟨m', hm', rfl⟩ := map_eq_some_iff.1 hm; exact hp.unslotted e he m' hm'
    · exact hp.unslotted e he m hm

end Relink

/-! ## A stand-in -/

lemma Parts.stand (hp : p.Parts c file fields declared standIns) (hsame : SameAbove p p' c)
    (hmem : (p'.classAt c).members = (p.classAt c).members ++ [new])
    (hold : ∀ e ∈ (p.classAt c).members, SameMethod p p' e) (hnew : p'.IsStandIn c new)
    (hinst : isInstanceMethod name descriptor (p'.entityAt new) = true)
    (hnone : p.memberWhere? c (isInstanceMethod name descriptor) = none) (hplain : (p.classAt c).isInterface = false)
    (hslot : ∀ m, p'.declAt? new = some m → m.implementation? = none →
      (m.excluded = true ∨ (p'.classAt c).isInterface = true) → m.slot? = none) :
    p'.Parts c file fields declared (standIns ++ [new]) := by
  obtain ⟨hfields, hdeclared, hstandIns⟩ := hsame.sorts hold hp
  have hother : ∀ e ∈ (p.classAt c).members, isInstanceMethod name descriptor (p'.entityAt e) = false := by
    intro e he
    rw [(hold e he).isInstanceMethod]
    exact Bool.eq_false_iff.2 (by simpa using List.find?_eq_none.1 hnone e he)
  refine ⟨?_, hfields, hdeclared, ?_, ?_, ?_, ?_⟩
  · simp [hmem, hp.members]
  · intro e he
    rcases mem_append.1 he with he | he
    · exact hstandIns e he
    · rw [mem_singleton] at he; exact he ▸ hnew
  · intro n d e he e' he' hn hn'
    rw [hmem] at he
    have hmem' : ∀ x ∈ standIns, x ∈ (p.classAt c).members := by
      intro x hx
      rw [hp.members]; simp [hx]
    rw [mem_append, mem_singleton] at he he'
    rcases he with he | rfl <;> rcases he' with he' | rfl
    · rw [(hold e he).isInstanceMethod] at hn
      rw [(hold e' (hmem' e' he')).isInstanceMethod] at hn'; exact hp.sole n d e he e' he' hn hn'
    · obtain ⟨rfl, rfl⟩ := isInstanceMethod_unique hinst hn'; simp [hother e he] at hn
    · obtain ⟨rfl, rfl⟩ := isInstanceMethod_unique hinst hn; simp [hother e' (hmem' e' he')] at hn'
    · rfl
  · intro hi; simp [hsame.isInterface, hplain] at hi
  · intro e he m hm
    rw [hmem] at he
    rcases mem_append.1 he with he | he
    · rw [(hold e he).decl] at hm; rw [hsame.isInterface]; exact hp.unslotted e he m hm
    · rw [mem_singleton] at he; subst he; exact hslot m hm

end Program

/-! ## Steps -/

variable {w w' w'' : World} {c : ClassId}

/-- The methods of `c` that are to take a slot have none yet. -/
def World.Free (w : World) (c : ClassId) : Prop :=
  ∀ e ∈ (w.classAt c).members, ∀ m, w.program.declAt? e = some m → m.excluded = false → m.slot? = none

lemma World.Free.of_members (h : (w.classAt c).members = []) : w.Free c := by
  intro e he
  simp [h] at he

structure World.Links (c : ClassId) (w w' : World) : Prop extends Gathers c w w' where
  standIns : ∃ new, (w'.classAt c).members = (w.classAt c).members ++ new ∧ ∀ e ∈ new, w'.Bare e
  free : w.Free c → w'.Free c

namespace World.Links

lemma refl (h : w.Sound) : Links c w w := ⟨.refl h, ⟨[], by simp⟩, id⟩

lemma trans (h : Links c w w') (h' : Links c w' w'') : Links c w w'' where
  toGathers := h.toGathers.trans h'.toGathers
  standIns := by
    obtain ⟨new, hmem, hbare⟩ := h.standIns
    obtain ⟨new', hmem', hbare'⟩ := h'.standIns
    refine ⟨new ++ new', by rw [hmem', hmem, append_assoc], fun e he => ?_⟩
    rcases mem_append.1 he with he | he
    · exact (hbare e he).mono h'.works.keeps.program.toContinues
    · exact hbare' e he
  free := fun hf => h'.free (h.free hf)

end World.Links

lemma World.Appends.links (h : Appends c [new] w w')
    (hnew : ∀ m, w'.program.declAt? new = some m → m.excluded = false → m.slot? = none)
    (hbare : w'.Bare new)
    (hhas : ∀ e ∈ (w.classAt c).members, w.HasEntity e) : Links c w w' where
  toGathers := h.toGathers
  standIns := ⟨[new], h.members, by simpa using hbare⟩
  free := fun hf => by
    intro e he m hm
    rw [h.members, mem_append, mem_singleton] at he
    rcases he with he | rfl
    · rw [declAt?_eq_method?, h.entityAt e (hhas e he), ← declAt?_eq_method?] at hm
      exact hf e he m hm
    · exact hnew m hm

lemma works_relink (hs : w.Sound) (hown : own ∈ (w.classAt c).members) (im : EntityId) :
    Works c w (w.modifyProgram fun p => p.relinked own im) :=
  works_modifyEntity (.link w.program own im) (.modifyMethod (fun _ => rfl) fun _ => rfl) (hs.member c own hown).2

lemma links_relink (hs : w.Sound) (hown : own ∈ (w.classAt c).members) (im : EntityId) :
    Links c w (w.modifyProgram fun p => p.relinked own im) where
  works := works_relink hs hown im
  sound := (works_relink hs hown im).sound_of_members hs rfl (.inr rfl)
  superclass := rfl
  interfaces := rfl
  data := fun x _ hk => by
    change (w.program.modifyMethod own _).entityAt x = _
    rw [modifyMethod, entityAt_modifyEntity]
    split
    · rename_i hx; rw [hx.1] at hk ⊢; simp [hk]
    · rfl
  fresh := fun x he => .inl (by
    simpa [Program.HasEntity, World.modifyProgram, Image.modifyProgram, World.program, relinked] using he)
  standIns := ⟨[], by simp; rfl, by simp⟩
  free := fun hf => by
    intro e he m hm
    rw [show (w.modifyProgram fun p => p.relinked own im).program = w.program.relinked own im from rfl,
      declAt?_relinked] at hm
    split at hm
    · rename_i h
      subst h
      obtain ⟨m', hm', rfl⟩ := map_eq_some_iff.1 hm; exact hf e he m' hm'
    · exact hf e he m hm

lemma standIn_some {implementation? : Option EntityId} (h : standIn p c im implementation? = some entity) :
    ∃ m, p.methodAt? (implementation?.getD im) = some m ∧ entity.name = (p.entityAt im).name ∧ entity.method? = some {
        descriptor := m.descriptor
        type := m.type
        flags := m.flags
        overwrites := implementation?.toList ++ [im]
        slot? := if implementation?.isSome then m.slot? else none
        binding := .dynamic
        excluded := implementation?.isSome
        isAbstract := implementation?.isNone
        isFinal := m.isFinal
        implementation? } ∧ entity.initializer? = none := by
  obtain ⟨m, hm, h⟩ := bind_eq_some_iff.1 h
  cases h
  exact ⟨m, hm, rfl, rfl, rfl⟩

lemma isStandIn_of_standIn {p' : Program}
    (hbased : p.Based c) (hsame : Program.SameAbove p p' c) (him : p.InterfaceMember c im)
    (hmi : p.methodAt? im = some mi) (hstatic : mi.isStatic = false) (hname : (p.entityAt im).name = name)
    (hdescriptor : mi.descriptor = descriptor)
    (h : standIn p c im ((p.overridden? c name descriptor).map p.realImplementation) = some entity)
    (hnew : p'.entityAt new = { entity with owner? := some c }) :
    p'.IsStandIn c new ∧ isInstanceMethod name descriptor (p'.entityAt new) = true := by
  have hat : p'.declAt? new = entity.method?.map Method.decl := by
    rw [declAt?, methodAt?, hnew]; rfl
  cases ho : p.overridden? c name descriptor with
  | none =>
    rw [ho, map_none] at h
    obtain ⟨m, hm, hn, hmethod, -⟩ := standIn_some h
    rw [getD_none, hmi, Option.some.injEq] at hm
    subst hm
    rw [hmethod, map_some] at hat
    have hnameNew : (p'.entityAt new).name = name := by rwa [hnew, ← hname]
    refine ⟨⟨_, hat, .inr ⟨?_, ?_, rfl, hstatic, rfl, rfl, rfl⟩⟩,
      isInstanceMethod_iff.2 ⟨hnameNew, _, hat, hdescriptor, hstatic⟩⟩
    · rw [hnameNew, hsame.overridden]; exact hdescriptor ▸ ho
    · intro x hx
      obtain rfl : x = im := by simpa [Method.decl] using hx
      exact (hsame.interface x him).1
  | some o =>
    obtain ⟨habove, hover⟩ := overridden?_some ho
    obtain ⟨hno, mo, hmo, hdo, hso, -⟩ := isOverridable_iff.1 hover
    obtain ⟨mr, hmr, hunlinked, hin, hnr, hdr, hfr⟩ := hbased.real habove hmo
    rw [ho, map_some, hbased.realImplementation_eq habove hmo] at h
    set r := mo.implementation?.getD o with hr
    obtain ⟨m, hm, hn, hmethod, -⟩ := standIn_some h
    rw [getD_some] at hm
    rw [hmethod, map_some] at hat
    have hmr' : mr = m.decl := by
      rw [declAt?_of_methodAt? hm, Option.some.injEq] at hmr; exact hmr.symm
    have hnameNew : (p'.entityAt new).name = name := by rwa [hnew, ← hname]
    have hdm : m.descriptor = descriptor := by rw [← hdo, ← hdr, hmr']; rfl
    have hsameO := Program.SameMethod.of_decl (hsame.inherited o habove).2
    have hsameR := Program.SameMethod.of_decl (hsame.inherited r hin).2
    have hsm : m.isStatic = false := by
      rwa [Method.isStatic, show m.flags = mr.flags by rw [hmr']; rfl, hfr]
    refine ⟨⟨_, hat, .inl ⟨o, r, mr, ?_⟩⟩, isInstanceMethod_iff.2 ⟨hnameNew, _, hat, hdm, hsm⟩⟩
    rw [hnameNew]
    subst hmr'
    exact {
      overridden := by rw [hsame.overridden]; exact hdm ▸ ho
      real := by rw [hsameO.decl, hmo]; rfl
      decl := by rw [hsameR.decl, hmr]
      realName := by rw [hsameR.name, hnr, hno]
      realDescriptor := rfl
      unlinked := hunlinked
      inherited := (hsame.inherited r hin).1
      implementation := rfl
      flags := rfl
      slot := rfl
      isFinal := rfl
      isAbstract := rfl
      excluded := rfl
      binding := rfl }

/-- What linking makes of the members of `c` for the methods in `ims`. -/
structure Program.Joins (c : ClassId) (ims : EntityId → Prop) (p p' : Program) : Prop where
  parts : ∀ file fields declared standIns, p.Parts c file fields declared standIns →
    ∃ standIns', p'.Parts c file fields declared standIns'
  provides : ∀ e, ims e → p'.Provides c e
  solid : p.Solid c → p'.Solid c

def World.Joins (c : ClassId) (P : Prop) (ims : EntityId → Prop) (w w' : World) : Prop :=
  Links c w w' ∧ ((w.classAt c).isInterface = false → w.program.Based c → P → w.program.Joins c ims w'.program)

lemma World.Joins.refl (hs : w.Sound) {ims : EntityId → Prop}
    (h : w.program.Based c → P → ∀ e, ims e → w.program.Provides c e) : Joins c P ims w w :=
  ⟨.refl hs, fun _ hb hP => ⟨fun _ _ _ standIns hp => ⟨standIns, hp⟩, h hb hP, id⟩⟩

lemma World.Joins.ends_then {Q R : Prop} {A B C : EntityId → Prop} {x : Load Unit} (h : Joins c P A w w')
    (hc : w.Protected c) (hstate : ¬ w.Finalized c)
    (hx : w'.Sound → w'.Protected c → ¬ w'.Finalized c →
      Ends (x w') (fun _ w'' => Joins c Q B w' w'') (Works c w'))
    (hrest : w.program.Based c → Program.SameAbove w.program w'.program c → R →
      P ∧ Q ∧ (∀ e, A e → w.program.InterfaceMember c e) ∧ ∀ e, C e → A e ∨ B e) :
    Ends (x w') (fun _ w'' => Joins c R C w w'') (Works c w) := by
  obtain ⟨hlinks, hjoins⟩ := h
  have hstate' : ¬ w'.Finalized c := mt (hlinks.works.finalized_iff c).1 hstate
  refine (hx hlinks.sound (hlinks.works.protected_iff.2 hc) hstate').imp ?_ fun _ h' => hlinks.works.trans h'
  rintro _ w'' ⟨hlinks', hjoins'⟩
  refine ⟨hlinks.trans hlinks', fun hplain hbased hR => ?_⟩
  obtain ⟨hbased', hsame⟩ := hlinks.based hstate hbased
  obtain ⟨hP, hQ, hA, hC⟩ := hrest hbased hsame hR
  have h1 := hjoins hplain hbased hP
  have h2 := hjoins' (hsame.isInterface.trans hplain) hbased' hQ
  refine ⟨fun file fields declared standIns hp => ?_, fun e he => ?_, fun hs => h2.solid (h1.solid hs)⟩
  · obtain ⟨standIns', hp'⟩ := h1.parts file fields declared standIns hp
    exact h2.parts file fields declared standIns' hp'
  · rcases hC e he with he | he
    · exact (h1.provides e he).mono hlinks'.works.keeps.program (hlinks'.based hstate' hbased').2
        (hsame.interface e (hA e he)).1
    · exact h2.provides e he

lemma standIn_isSome (hbased : p.Based c) (hmi : p.methodAt? im = some mi) (name descriptor : String) :
    (standIn p c im ((p.overridden? c name descriptor).map p.realImplementation)).isSome := by
  have hmethod : ∃ m, p.methodAt? (((p.overridden? c name descriptor).map p.realImplementation).getD im) = some m := by
    cases ho : p.overridden? c name descriptor with
    | none => exact ⟨mi, hmi⟩
    | some o =>
      obtain ⟨habove, hover⟩ := overridden?_some ho
      obtain ⟨-, mo, hmo, -⟩ := isOverridable_iff.1 hover
      obtain ⟨mr, hmr, -⟩ := hbased.real habove hmo
      obtain ⟨m, hm, -⟩ := map_eq_some_iff.1 hmr
      exact ⟨m, by rwa [map_some, hbased.realImplementation_eq habove hmo]⟩
  obtain ⟨m, hm⟩ := hmethod
  simp [standIn, show (p.entityAt _).method? = some m from hm]

section

variable (hs : w.Sound) (hc : w.Protected c) (hstate : ¬ w.Finalized c)

include hs hc hstate

lemma linkInterfaceMethod_ends (interface : ClassId) (e : EntityId) : Ends (linkInterfaceMethod c interface e w)
    (fun _ w' => Joins c (w.program.InterfaceMember c e) (· = e) w w') (Works c w) := by
  have hmem : ∀ x ∈ (w.classAt c).members, w.HasEntity x := fun x hx => (hs.member c x hx).1
  apply ends_get_bind
  cases hm : (w.program.entityAt e).method? with
  | none =>
    refine World.Joins.refl hs ?_
    rintro _ _ _ rfl m hdecl; simp [Program.declAt?, Program.methodAt?, hm] at hdecl
  | some m =>
    have hdecl : w.program.declAt? e = some m.decl := Program.declAt?_of_methodAt? hm
    simp only []
    split
    · rename_i hstatic
      refine World.Joins.refl hs ?_
      rintro _ _ _ rfl m' hm' hinst
      cases hdecl.symm.trans hm'
      exact absurd (hstatic.symm.trans hinst) (by simp)
    · rename_i hstatic
      replace hstatic : m.isStatic = false := by simpa using hstatic
      cases hown : w.program.memberWhere? c (Program.isInstanceMethod (w.program.entityAt e).name m.descriptor) with
      | some own =>
        obtain ⟨hmember, hkey⟩ := Program.memberWhere?_some hown
        have hlinks := links_relink hs hmember e
        refine ends_modifyProgram ⟨hlinks, fun _ hbased him => ?_⟩
        change w.program.Joins c (· = e) (w.program.relinked own e)
        have hsame := (hlinks.based hstate hbased).2
        refine ⟨fun file fields declared standIns hp => ⟨standIns, hp.relink hsame him⟩, ?_, fun hsolid =>
          hsolid.mono hlinks.works.keeps.program.toContinues hsame hmem rfl⟩
        rintro _ rfl m' hm' -
        obtain ⟨-, mo, hmo, -⟩ := Program.isInstanceMethod_iff.1 hkey
        obtain ⟨mo', hmo', -⟩ := map_eq_some_iff.1 hmo
        have hsameE := Program.SameMethod.of_decl (hsame.interface _ him).2
        cases (hsameE.decl.trans hdecl).symm.trans hm'
        refine ⟨own, hmember, ?_, _, (w.program.methodAt?_modifyMethod own own _).trans
          (by rw [if_pos rfl, hmo']; rfl), by simp⟩
        rwa [Program.isInstanceMethod_relinked, Program.name_relinked]
      | none =>
        split
        · exact ends_throw (.refl c w)
        · rename_i hmissing
          cases hstand : standIn w.program c e ((w.program.overridden? c (w.program.entityAt e).name m.descriptor).map
              w.program.realImplementation) with
          | none =>
            refine World.Joins.refl hs fun hbased => ?_
            have hsome := standIn_isSome hbased hm (w.program.entityAt e).name m.descriptor
            simp [hstand] at hsome
          | some entity =>
            apply ends_onProgram_bind
            obtain ⟨m', -, hname, hmethod, hinit⟩ := standIn_some hstand
            have hg : entity.graph? = none := by simp [Entity.graph?, hmethod]
            obtain ⟨happ, hhas, hat⟩ := appends_addMember hs hc hg
            have hslot : ∀ x, (w.modifyProgram fun p => (p.addMember c entity).2).program.declAt?
                ⟨w.program.entities.size⟩ = some x → x.implementation? = none ∨ x.excluded = false →
                  x.slot? = none := by
              intro x hx himp
              rw [Program.declAt?, Program.methodAt?, hat] at hx
              change entity.method?.map Method.decl = some x at hx
              rw [hmethod, map_some, Option.some.injEq] at hx
              subst hx
              rcases himp with himp | himp <;> simp_all [Method.decl]
            have hbare : (w.modifyProgram fun p => (p.addMember c entity).2).Bare ⟨w.program.entities.size⟩ := by
              refine ⟨hhas, ?_, by rwa [hat]⟩
              rw [Program.methodAt?, hat]; exact isSome_of_eq_some hmethod
            have hlinks := happ.links (fun x hx hex => hslot x hx (.inr hex)) hbare hmem
            refine ends_pure ⟨hlinks, fun hplain hbased him => ?_⟩
            have hsame := (hlinks.based hstate hbased).2
            obtain ⟨hnew, hinst⟩ := isStandIn_of_standIn hbased hsame him hm hstatic rfl rfl hstand hat
            refine ⟨fun file fields declared standIns hp =>
              ⟨_, hp.stand hsame happ.members (fun x hx => ?_) hnew hinst hown
              hplain fun x hx himp _ => hslot x hx (.inl himp)⟩, ?_, fun hsolid => ?_⟩
            · exact .of_decl (congrArg (·.decl) (happ.entityAt x (hmem x hx)))
            · rintro _ rfl mi hmi -
              have hsameE := Program.SameMethod.of_decl (hsame.interface _ him).2
              cases (hsameE.decl.trans hdecl).symm.trans hmi
              refine ⟨⟨w.program.entities.size⟩, ?_, by rwa [hsameE.name], _,
                (congrArg (·.method?) hat).trans hmethod, by simp⟩
              simp [show (Program.classAt _ c).members = _ from happ.members]
            · refine hsolid.add hlinks.works.keeps.program.toContinues hsame hmem fun x hx => ?_
              rw [show (Program.classAt _ c).members = _ from happ.members, mem_append, mem_singleton] at hx
              refine hx.imp id fun hx name descriptor hd => ?_
              obtain ⟨rfl, rfl⟩ := Program.isInstanceMethod_unique hinst (hx ▸ hd)
              refine ⟨⟨e, him, Program.isInstanceMethod_iff.2 ⟨rfl, m.decl, hdecl, rfl, hstatic⟩⟩, fun habs => ?_⟩
              simpa [show (w.program.classAt c).isAbstract = false from habs, isSome_iff_ne_none] using hmissing

lemma linkInterface_ends (interface : ClassId) (es : List EntityId) : Ends (linkInterface c interface es w)
    (fun _ w' => Joins c (∀ e ∈ es, w.program.InterfaceMember c e) (· ∈ es) w w') (Works c w) := by
  induction es generalizing w with
  | nil => exact ends_pure (.refl hs fun _ _ e he => nomatch he)
  | cons e rest ih =>
    refine ends_bind (linkInterfaceMethod_ends hs hc hstate interface e) fun _ w1 h1 => h1.ends_then hc hstate ih ?_
    intro _ hsame hes
    refine ⟨hes e (by simp), fun x hx => (hsame.interface x (hes x (by simp [hx]))).1, ?_, fun x hx => mem_cons.1 hx⟩
    rintro _ rfl; exact hes _ (by simp)

lemma linkInterfaces_ends (is : List ClassId) :
    Ends (linkInterfaces c is w) (fun _ w' => Joins c (∀ i ∈ is, w.program.InterfaceOf c i)
      (fun e => ∃ i ∈ is, e ∈ (w.classAt i).members) w w') (Works c w) := by
  induction is generalizing w with
  | nil => exact ends_pure (.refl hs fun _ _ e ⟨_, hi, _⟩ => nomatch hi)
  | cons i rest ih =>
    apply ends_get_bind
    refine ends_bind (linkInterface_ends hs hc hstate i _) fun _ w1 h1 => h1.ends_then hc hstate ih ?_
    intro hbased hsame his
    have hmem : ∀ e ∈ (w.classAt i).members, w.program.InterfaceMember c e := fun e he => ⟨i, his i (by simp), he⟩
    refine ⟨hmem, fun j hj => hsame.interfaceOf j (his j (by simp [hj])), hmem, ?_⟩
    rintro e ⟨j, hj, he⟩
    rcases mem_cons.1 hj with rfl | hj
    · exact .inl he
    · -- the interface is settled, and so another class than the one at work
      have hset := hbased.interfaceOf (his j (by simp [hj]))
      have hjc : j ≠ c := by rintro rfl; exact hstate hset.linked.finalized
      have hdecl := h1.1.works.keeps.program.kept j hset.linked.has hjc
      exact .inr ⟨j, hj, (congrArg (·.members) hdecl :) ▸ he⟩

end

end JvmGraph
