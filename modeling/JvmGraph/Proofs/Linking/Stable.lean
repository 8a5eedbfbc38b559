import JvmGraph.Proofs.Linking.Settled

/-!
# Finalized classes stay as they are

A class that is finalized together with its supertypes is not touched by work on other classes, and neither
is what a class in the making sees of its supertypes.
-/

open Relation (TransGen)

namespace JvmGraph

open List Option ClassInfo Entity VTable

variable {α β : Type} {e o trap : EntityId} {file : ClassFile} {descriptor name : String} {m : Method}
  {fields standIns : List EntityId} {i : ClassId}

variable {R : α → β → Prop} {l : List α} {u : List β}

lemma forall₂_imp_right {T : α → β → Prop} {Q : β → Prop} (h : Forall₂ R l u)
    (hQ : ∀ b ∈ u, Q b) (hT : ∀ a b, Q b → R a b → T a b) : Forall₂ T l u := by
  induction h with
  | nil => exact .nil
  | cons hab _ ih => exact .cons (hT _ _ (hQ _ (by simp)) hab) (ih fun b hb => hQ b (by simp [hb]))

lemma forall₂_mem_left (h : Forall₂ R l u) {a : α} (ha : a ∈ l) : ∃ b ∈ u, R a b := by
  induction h with
  | nil => cases ha
  | cons hr _ ih =>
    rcases mem_cons.1 ha with rfl | ha
    · exact ⟨_, (.head _), hr⟩
    · obtain ⟨b, hb, hr⟩ := ih ha; exact ⟨b, .tail _ hb, hr⟩

lemma forall₂_mem_right (h : Forall₂ R l u) {b : β} (hb : b ∈ u) : ∃ a ∈ l, R a b :=
  forall₂_mem_left h.flip hb

namespace Program

variable {p p' : Program} {c : ClassId} {accept : Entity → Bool}

/-! ## Searching members -/

lemma isInstanceMethod_iff : isInstanceMethod name descriptor (p.entityAt e) = true ↔ (p.entityAt e).name = name ∧
      ∃ m, p.declAt? e = some m ∧ m.descriptor = descriptor ∧ m.isStatic = false := by
  simp only [isInstanceMethod, declAt?, methodAt?]
  cases (p.entityAt e).method? with
  | none => simp
  | some m =>
    simp only [Bool.and_eq_true, decide_eq_true_eq, Bool.not_eq_true', map_some, Option.some.injEq,
      exists_eq_left', and_assoc]
    rfl

lemma isInstanceMethod_unique {name' descriptor' : String} (h : isInstanceMethod name descriptor (p.entityAt e) = true)
    (h' : isInstanceMethod name' descriptor' (p.entityAt e) = true) : name' = name ∧ descriptor' = descriptor := by
  obtain ⟨rfl, m, hm, rfl, -⟩ := isInstanceMethod_iff.1 h
  obtain ⟨rfl, m', hm', rfl, -⟩ := isInstanceMethod_iff.1 h'
  cases hm.symm.trans hm'
  exact ⟨rfl, rfl⟩

lemma isOverridable_iff : isOverridable name descriptor (p.entityAt e) = true ↔ (p.entityAt e).name = name ∧
      ∃ m, p.declAt? e = some m ∧ m.descriptor = descriptor ∧ m.isStatic = false ∧ m.flags.isPrivate = false := by
  rw [isOverridable, Bool.and_eq_true, isInstanceMethod_iff]
  simp only [declAt?, methodAt?]
  cases (p.entityAt e).method? with
  | none => simp
  | some m =>
    simp only [map_some, Option.some.injEq, exists_eq_left', Bool.not_eq_true', and_assoc]
    rfl

structure SameMethod (p p' : Program) (e : EntityId) : Prop where
  decl : p'.declAt? e = p.declAt? e
  name : (p'.entityAt e).name = (p.entityAt e).name

lemma SameMethod.of_decl (h : (p'.entityAt e).decl = (p.entityAt e).decl) : SameMethod p p' e where
  decl := by rw [declAt?_eq_method?, h, ← declAt?_eq_method?]
  name := name_eq h

lemma SameMethod.isInstanceMethod (h : SameMethod p p' e) (name descriptor : String) :
    isInstanceMethod name descriptor (p'.entityAt e) = isInstanceMethod name descriptor (p.entityAt e) := by
  rw [Bool.eq_iff_iff, isInstanceMethod_iff, isInstanceMethod_iff, h.decl, h.name]

lemma SameMethod.isOverridable (h : SameMethod p p' e) (name descriptor : String) :
    isOverridable name descriptor (p'.entityAt e) = isOverridable name descriptor (p.entityAt e) := by
  rw [Bool.eq_iff_iff, isOverridable_iff, isOverridable_iff, h.decl, h.name]

lemma memberWhere?_congr (hm : (p'.classAt c).members = (p.classAt c).members)
    (h : ∀ e ∈ (p.classAt c).members, accept (p'.entityAt e) = accept (p.entityAt e)) :
    p'.memberWhere? c accept = p.memberWhere? c accept := by
  rw [memberWhere?, memberWhere?, hm]
  revert h
  induction (p.classAt c).members with
  | nil => exact fun _ => rfl
  | cons e rest ih =>
    intro h
    rw [List.find?_cons, List.find?_cons, h e (by simp), ih fun x hx => h x (by simp [hx])]

lemma overridden?_eq (p : Program) (c : ClassId) (name descriptor : String) :
    p.overridden? c name descriptor = (p.classAt c).superclass?.bind fun s =>
      (p.ancestry s).findSome? fun a => p.memberWhere? a (isOverridable name descriptor) := rfl

lemma memberWhere?_some (h : p.memberWhere? c accept = some e) :
    e ∈ (p.classAt c).members ∧ accept (p.entityAt e) = true :=
  ⟨mem_of_find?_eq_some h, by simpa using List.find?_some h⟩

lemma overridden?_some (h : p.overridden? c name descriptor = some o) :
    p.InheritedMember c o ∧ isOverridable name descriptor (p.entityAt o) = true := by
  obtain ⟨s, hs, h⟩ := bind_eq_some_iff.1 h
  obtain ⟨a, ha, h⟩ := exists_of_findSome?_eq_some h
  obtain ⟨h1, h2⟩ := memberWhere?_some h
  exact ⟨⟨s, hs, a, ha, h1⟩, h2⟩

/-! ## What a settled class keeps -/

section Keeps

variable {S : ClassId → Prop} (hk : p.Keeps S p') (hS : ∀ d, p.Finalized d → S d)

include hk hS

lemma Settled.decl_eq (h : p.Settled c) : (p'.classAt c).decl = (p.classAt c).decl :=
  hk.kept c h.linked.has (hS c h.linked.finalized)

lemma Linked.owned_decl_eq (h : p.Linked c) (he : p.HasEntity e) (ho : (p.entityAt e).owner? = some c) :
    (p'.entityAt e).decl = (p.entityAt e).decl := by
  apply hk.owned e he
  intro d hd
  rw [ho, Option.some.injEq] at hd
  exact hd ▸ hS c h.finalized

lemma Settled.member_decl_eq (h : p.Settled c) (he : e ∈ (p.classAt c).members) :
    (p'.entityAt e).decl = (p.entityAt e).decl := by
  obtain ⟨h1, h2⟩ := h.linked.owned e he
  exact h.linked.owned_decl_eq hk hS h1 h2

lemma Settled.ancestry_eq (h : p.Settled c) : p'.ancestry c = p.ancestry c := by
  have hl := h.lineage_ancestry
  have hl' : p'.Lineage c (p.ancestry c) := by
    apply hl.congr
    intro d hd; exact (congrArg superclass? ((h.ancestor hd).decl_eq hk hS) :)
  apply hl'.ancestry_eq
  intro d hd
  exact hk.hasClass (h.ancestor hd).linked.has

lemma Settled.nearest_eq (h : p.Settled c) (name descriptor : String) :
    ((p'.ancestry c).findSome? fun a => p'.memberWhere? a (isOverridable name descriptor)) =
      (p.ancestry c).findSome? fun a => p.memberWhere? a (isOverridable name descriptor) := by
  rw [h.ancestry_eq hk hS]
  have hall : ∀ a ∈ p.ancestry c, p'.memberWhere? a (isOverridable name descriptor) =
      p.memberWhere? a (isOverridable name descriptor) := by
    intro a ha
    have hset := h.ancestor ha
    apply memberWhere?_congr (congrArg members (hset.decl_eq hk hS) :)
    intro e he
    exact (SameMethod.of_decl (hset.member_decl_eq hk hS he)).isOverridable name descriptor
  revert hall
  induction p.ancestry c with
  | nil => exact fun _ => rfl
  | cons a rest ih =>
    intro hall
    rw [List.findSome?_cons, List.findSome?_cons, hall a (by simp), ih fun x hx => hall x (by simp [hx])]

lemma Settled.interfaceOf_keeps (h : p.Settled c) (hi : p.InterfaceOf c i) : p'.InterfaceOf c i := by
  induction hi with
  | single hi =>
    rw [← show (p'.classAt c).interfaces = (p.classAt c).interfaces from
      (congrArg interfaces (h.decl_eq hk hS) :)] at hi
    exact .single hi
  | @tail a b hca hab ih =>
    have ha := h.interfaceOf hca
    rw [← show (p'.classAt a).interfaces = (p.classAt a).interfaces from
      (congrArg interfaces (ha.decl_eq hk hS) :)] at hab
    exact .tail ih hab

lemma Settled.inherited_eq (h : p.Settled c) : ((p'.classAt c).vtable?.bind fun v => (p'.entityAt v).initializer?) =
      (p.classAt c).vtable?.bind fun v => (p.entityAt v).initializer? := by
  rw [show (p'.classAt c).vtable? = (p.classAt c).vtable? from (congrArg vtable? (h.decl_eq hk hS) :)]
  cases hv : (p.classAt c).vtable? with
  | none => rfl
  | some v =>
    obtain ⟨h1, h2⟩ := h.linked.vtable v hv
    exact initializer?_eq (h.linked.owned_decl_eq hk hS h1 h2)

end Keeps

/-! ## What a class sees of its supertypes -/

structure SameAbove (p p' : Program) (c : ClassId) : Prop where
  flags : (p'.classAt c).flags = (p.classAt c).flags
  overridden : ∀ name descriptor, p'.overridden? c name descriptor = p.overridden? c name descriptor
  inherited : ∀ e, p.InheritedMember c e →
    p'.InheritedMember c e ∧ (p'.entityAt e).decl = (p.entityAt e).decl
  interfaceOf : ∀ i, p.InterfaceOf c i → p'.InterfaceOf c i
  interface : ∀ e, p.InterfaceMember c e →
    p'.InterfaceMember c e ∧ (p'.entityAt e).decl = (p.entityAt e).decl
  table : VTable.inherited p' c = VTable.inherited p c

structure Based (p : Program) (c : ClassId) : Prop where
  super : ∀ s, (p.classAt c).superclass? = some s → p.Settled s
  interfaces : ∀ i ∈ (p.classAt c).interfaces, p.Settled i

lemma Based.interfaceOf (h : p.Based c) (hi : p.InterfaceOf c i) : p.Settled i := by
  rcases TransGen.head'_iff.1 hi with ⟨j, hj, hji⟩
  have hset := h.interfaces j hj
  rcases Relation.reflTransGen_iff_eq_or_transGen.1 hji with rfl | hji
  · exact hset
  · exact hset.interfaceOf hji

section

variable {S : ClassId → Prop} (h : p.Based c) (hk : p.Keeps S p') (hS : ∀ d, p.Finalized d → S d)
  (hinter : ∀ i ∈ (p.classAt c).interfaces, i ∈ (p'.classAt c).interfaces)

include h hk hS hinter

lemma Based.interfaceOf_keeps (hi : p.InterfaceOf c i) : p'.InterfaceOf c i := by
  rcases TransGen.head'_iff.1 hi with ⟨j, hj, hji⟩
  rcases Relation.reflTransGen_iff_eq_or_transGen.1 hji with rfl | hji
  · exact .single (hinter _ hj)
  · exact .head (hinter j hj) ((h.interfaces j hj).interfaceOf_keeps hk hS hji)

lemma Based.sameAbove (hflags : (p'.classAt c).flags = (p.classAt c).flags)
    (hsuper : (p'.classAt c).superclass? = (p.classAt c).superclass?) : SameAbove p p' c where
  flags := hflags
  overridden := fun name descriptor => by
    rw [overridden?_eq, overridden?_eq, hsuper]
    cases hs : (p.classAt c).superclass? with
    | none => rfl
    | some s => exact (h.super s hs).nearest_eq hk hS name descriptor
  inherited := fun e he => by
    obtain ⟨s, hs, a, ha, he⟩ := he
    have hset := (h.super s hs).ancestor ha
    refine ⟨⟨s, hsuper.trans hs, a, ?_, ?_⟩, hset.member_decl_eq hk hS he⟩
    · rwa [(h.super s hs).ancestry_eq hk hS]
    · rwa [show (p'.classAt a).members = (p.classAt a).members from (congrArg members (hset.decl_eq hk hS) :)]
  interfaceOf := fun i hi => h.interfaceOf_keeps hk hS hinter hi
  interface := fun e he => by
    obtain ⟨i, hi, he⟩ := he
    have hset := h.interfaceOf hi
    refine ⟨⟨i, h.interfaceOf_keeps hk hS hinter hi, ?_⟩, hset.member_decl_eq hk hS he⟩
    · rwa [show (p'.classAt i).members = (p.classAt i).members from (congrArg members (hset.decl_eq hk hS) :)]
  table := by
    rw [inherited, inherited, hsuper]
    cases hs : (p.classAt c).superclass? with
    | none => rfl
    | some s =>
      have hset := h.super s hs
      simp [hset.inherited_eq hk hS, show (p'.classAt s).vtableSize = (p.classAt s).vtableSize from
        (congrArg vtableSize (hset.decl_eq hk hS) :)]

end

structure SameRoots (p p' : Program) (c : ClassId) : Prop where
  flags : (p'.classAt c).flags = (p.classAt c).flags
  superclass : (p'.classAt c).superclass? = (p.classAt c).superclass?
  interfaces : (p'.classAt c).interfaces = (p.classAt c).interfaces

lemma SameRoots.of_decl (h : (p'.classAt c).decl = (p.classAt c).decl) : SameRoots p p' c :=
  ⟨(congrArg (·.flags) h :), (congrArg (·.superclass?) h :), (congrArg (·.interfaces) h :)⟩

lemma SameRoots.above {S : ClassId → Prop} (K : SameRoots p p' c) (h : p.Based c) (hk : p.Keeps S p')
    (hS : ∀ d, p.Finalized d → S d) : SameAbove p p' c :=
  h.sameAbove hk hS (fun _ hi => K.interfaces.symm ▸ hi) K.flags K.superclass

namespace SameAbove

variable (h : SameAbove p p' c) {member : Member}

include h

lemma overrides?_eq (name : String) (m : Method) : p'.overrides? c name m = p.overrides? c name m := by
  rw [overrides?, overrides?, h.overridden]

lemma isInterface : (p'.classAt c).isInterface = (p.classAt c).isInterface :=
  congrArg AccessFlags.isInterface h.flags

lemma isFinal : (p'.classAt c).isFinal = (p.classAt c).isFinal :=
  congrArg AccessFlags.isFinal h.flags

lemma declared (hd : p.Declared c file member name m) : p'.Declared c file member name m where
  nameOf := hd.nameOf
  descriptorOf := hd.descriptorOf
  flags := hd.flags
  isAbstract := hd.isAbstract
  isFinal := by rw [h.isFinal, hd.isFinal]
  implementation := hd.implementation
  overwrites := by
    obtain ⟨ims, h1, h2⟩ := hd.overwrites
    exact ⟨ims, by rw [h.overrides?_eq, h1], fun im him => (h.interface im (h2 im him)).1⟩
  excluded := by rw [h.overrides?_eq, hd.excluded]
  binding := by rw [h.isInterface, hd.binding]

lemma inherits {r : EntityId} {mr : Method} (hi : p.Inherits c name m o r mr) : p'.Inherits c name m o r mr where
  overridden := by rw [h.overridden, hi.overridden]
  real := by
    have ho := (h.inherited o (overridden?_some hi.overridden).1).2
    rw [declAt?_eq_method?, ho, ← declAt?_eq_method?, hi.real]
  decl := by
    have hr := (h.inherited r hi.inherited).2
    rw [declAt?_eq_method?, hr, ← declAt?_eq_method?, hi.decl]
  realName := (name_eq (h.inherited r hi.inherited).2).trans hi.realName
  realDescriptor := hi.realDescriptor
  unlinked := hi.unlinked
  inherited := (h.inherited r hi.inherited).1
  implementation := hi.implementation
  flags := hi.flags
  slot := hi.slot
  isFinal := hi.isFinal
  isAbstract := hi.isAbstract
  excluded := hi.excluded
  binding := hi.binding

lemma vacant (hv : p.Vacant c name m) : p'.Vacant c name m where
  overridden := by rw [h.overridden, hv.overridden]
  overwrites := fun im him => (h.interface im (hv.overwrites im him)).1
  implementation := hv.implementation
  isStatic := hv.isStatic
  isAbstract := hv.isAbstract
  excluded := hv.excluded
  binding := hv.binding

lemma isDeclared (he : SameMethod p p' e) (hd : p.IsDeclared c file member e) : p'.IsDeclared c file member e := by
  obtain ⟨m, hm, hd⟩ := hd
  refine ⟨m, he.decl.trans hm, ?_⟩
  rw [he.name]
  exact h.declared hd

lemma isStandIn (he : SameMethod p p' e) (hd : p.IsStandIn c e) : p'.IsStandIn c e := by
  obtain ⟨m, hm, hd⟩ := hd
  refine ⟨m, he.decl.trans hm, ?_⟩
  · rw [he.name]
    rcases hd with ⟨o, r, mr, hd⟩ | hd
    · exact .inl ⟨o, r, mr, h.inherits hd⟩
    · exact .inr (h.vacant hd)

variable {declared : List EntityId}

lemma sorts (he : ∀ e ∈ (p.classAt c).members, SameMethod p p' e)
    (hp : p.Parts c file fields declared standIns) : (∀ e ∈ fields, p'.declAt? e = none) ∧
      Forall₂ (p'.IsDeclared c file) file.methods declared ∧ ∀ e ∈ standIns, p'.IsStandIn c e := by
  rw [hp.members] at he
  refine ⟨fun e hef => (he e (by simp [hef])).decl.trans (hp.isField e hef), ?_,
    fun e hes => h.isStandIn (he e (by simp [hes])) (hp.isStandIn e hes)⟩
  exact forall₂_imp_right hp.isDeclared (fun e hed => he e (by simp [hed])) fun _ _ hde hd => h.isDeclared hde hd

lemma parts (hm : (p'.classAt c).members = (p.classAt c).members)
    (he : ∀ e ∈ (p.classAt c).members, SameMethod p p' e) (hp : p.Parts c file fields declared standIns) :
    p'.Parts c file fields declared standIns := by
  obtain ⟨hfields, hdeclared, hstandIns⟩ := h.sorts he hp
  refine ⟨hm.trans hp.members, hfields, hdeclared, hstandIns, ?_, fun hi => hp.plain (h.isInterface ▸ hi), ?_⟩
  · intro name descriptor e hem e' hes
    rw [hm] at hem
    rw [(he e hem).isInstanceMethod, (he e' (hp.members ▸ by simp [hes])).isInstanceMethod]
    exact hp.sole name descriptor e hem e' hes
  · intro e hem m hdm
    rw [hm] at hem
    rw [(he e hem).decl] at hdm
    rw [h.isInterface]; exact hp.unslotted e hem m hdm

end SameAbove

variable {declared : List EntityId}

lemma Parts.declared_at (hp : p.Parts c file fields declared standIns) (he : e ∈ declared) (hm : p.declAt? e = some m) :
    ∃ i, ∃ hi : i < file.methods.length, declared[i]? = some e ∧
      p.Declared c file file.methods[i] (p.entityAt e).name m := by
  obtain ⟨i, hi, hie⟩ := getElem_of_mem he
  have hi' : i < file.methods.length := by rwa [hp.isDeclared.length_eq]
  obtain ⟨m', hm', hd⟩ := hp.isDeclared.get hi' hi
  simp only [get_eq_getElem, hie] at hm' hd
  cases hm.symm.trans hm'
  exact ⟨i, hi', by rw [List.getElem?_eq_getElem hi, hie], hd⟩

lemma Parts.origin (hp : p.Parts c file fields declared standIns)
    (he : e ∈ (p.classAt c).members) (hm : p.declAt? e = some m) :
    (e ∈ declared ∧ ∃ member ∈ file.methods, p.Declared c file member (p.entityAt e).name m) ∨
      (e ∈ standIns ∧ ((∃ o r mr, p.Inherits c (p.entityAt e).name m o r mr) ∨ p.Vacant c (p.entityAt e).name m)) := by
  rw [hp.members, mem_append, mem_append] at he
  rcases he with he | he | he
  · simp [hp.isField e he] at hm
  · obtain ⟨i, hi, -, hd⟩ := hp.declared_at he hm
    exact .inl ⟨he, _, getElem_mem hi, hd⟩
  · obtain ⟨m', hm', hd⟩ := hp.isStandIn e he
    rw [hm, Option.some.injEq] at hm'
    subst hm'; exact .inr ⟨he, hd⟩

lemma Settled.own_or_inherits (h : p.Settled c) (he : e ∈ (p.classAt c).members) (hm : p.declAt? e = some m) :
    m.implementation? = none ∨ ∃ o r mr, p.Inherits c (p.entityAt e).name m o r mr := by
  obtain ⟨file, fields, declared, standIns, -, hp⟩ := h.linked.parts
  rcases hp.origin he hm with ⟨-, member, -, hd⟩ | ⟨-, hi | hv⟩
  · exact .inl hd.implementation
  · exact .inr hi
  · exact .inl hv.implementation

lemma Settled.real {mo : Method} (h : p.Settled c) (ho : o ∈ (p.classAt c).members) (hm : p.declAt? o = some mo) :
    ∃ mr, p.declAt? (mo.implementation?.getD o) = some mr ∧ mr.implementation? = none ∧
      (∃ b ∈ p.ancestry c, mo.implementation?.getD o ∈ (p.classAt b).members) ∧
      (p.entityAt (mo.implementation?.getD o)).name = (p.entityAt o).name ∧
      mr.descriptor = mo.descriptor ∧ mr.flags = mo.flags := by
  rcases h.own_or_inherits ho hm with hnone | ⟨o', r, mr, hi⟩
  · rw [hnone]; exact ⟨mo, hm, hnone, ⟨c, h.self_mem, ho⟩, rfl, rfl, rfl⟩
  · obtain ⟨s, hs, b, hb, hmem⟩ := hi.inherited
    rw [hi.implementation]
    refine ⟨mr, hi.decl, hi.unlinked, ⟨b, ?_, hmem⟩, hi.realName, hi.realDescriptor, hi.flags.symm⟩
    rw [h.ancestry_sub hs]; exact .tail _ hb

/-- What a method that takes a slot implements are methods of supertypes. -/
lemma Parts.overwrites_above (hp : p.Parts c file fields declared standIns)
    (he : p.Enters c e m) (ho : o ∈ m.overwrites) : p.InheritedMember c o ∨ p.InterfaceMember c o := by
  obtain ⟨hmem, hm, hex⟩ := he
  rcases hp.origin hmem hm with ⟨-, member, -, hd⟩ | ⟨-, ⟨o', r, mr, hi⟩ | hv⟩
  · obtain ⟨ims, h1, h2⟩ := hd.overwrites
    rw [h1, mem_append] at ho
    rcases ho with ho | ho
    · rw [mem_toList, overrides?] at ho
      split at ho
      · cases ho
      · exact .inl (overridden?_some ho).1
    · exact .inr (h2 o ho)
  · simp [hi.excluded] at hex
  · exact .inr (hv.overwrites o ho)

lemma SameAbove.inheritedSlot?_eq (h : SameAbove p p' c)
    (hp : p.Parts c file fields declared standIns) (he : p.Enters c e m) :
    inheritedSlot? p' m = inheritedSlot? p m := by
  apply inheritedSlot?_congr
  intro o ho
  have hdecl : (p'.entityAt o).decl = (p.entityAt o).decl := by
    rcases hp.overwrites_above he ho with ho | ho
    · exact (h.inherited o ho).2
    · exact (h.interface o ho).2
  rw [slotAt?_eq, slotAt?_eq, declAt?_eq_method?, hdecl, ← declAt?_eq_method?]

lemma Tabled.congr (h : p.Tabled c trap) (hp : p.Parts c file fields declared standIns)
    (hsame : SameAbove p p' c) (hmem : (p'.classAt c).members = (p.classAt c).members)
    (hvtable : (p'.classAt c).vtable? = (p.classAt c).vtable?)
    (hsize : (p'.classAt c).vtableSize = (p.classAt c).vtableSize)
    (hdecl : ∀ e ∈ (p.classAt c).members, p'.declAt? e = p.declAt? e)
    (hinit : ∀ v, (p.classAt c).vtable? = some v → (p'.entityAt v).initializer? = (p.entityAt v).initializer?) :
    p'.Tabled c trap := by
  intro hint
  rw [hsame.isInterface] at hint
  obtain ⟨v, entries, hv, hcompound, hlaid⟩ := h hint
  have henters : ∀ e m, p'.Enters c e m ↔ p.Enters c e m := by
    intro e m; simp only [Enters, hmem]; exact and_congr_right fun he => by rw [hdecl e he]
  refine ⟨v, entries, hvtable.trans hv, (hinit v hv).trans hcompound, ?_⟩
  intro hroom
  have hroom' : p.Roomy c := by
    rw [Roomy, hsame.table] at hroom
    refine ⟨hroom.1, fun e m he s hs => hroom.2 e m ((henters e m).2 he) s ?_⟩
    rwa [hsame.inheritedSlot?_eq hp he]
  have hl := hlaid hroom'
  refine ⟨?_, ?_, ?_, ?_, ?_⟩
  · rw [hsame.table, hsize]; exact hl.size_le
  · rw [hsize]; exact hl.length
  · intro e m he
    rw [henters] at he
    rw [hsize, hsame.inheritedSlot?_eq hp he, hsame.table]; exact hl.slot e m he
  · intro e e' m m' he he'
    rw [henters] at he he'
    rw [hsame.inheritedSlot?_eq hp he, hsame.inheritedSlot?_eq hp he']
    exact hl.fresh e e' m m' he he'
  · intro j hj; simp only [henters, hsame.table]; exact hl.entry j hj

lemma Described.congr (h : p.Described c trap) (hmem : (p'.classAt c).members = (p.classAt c).members)
    (hobject : (p'.classAt c).classObject? = (p.classAt c).classObject?)
    (hdecl : ∀ e ∈ (p.classAt c).members, p'.declAt? e = p.declAt? e)
    (hinit : ∀ o, (p.classAt c).classObject? = some o → (p'.entityAt o).initializer? = (p.entityAt o).initializer?)
    (hglobal : ∀ t, p.HasEntity t → (p.entityAt t).owner? = none →
      p'.HasEntity t ∧ (p'.entityAt t).decl = (p.entityAt t).decl) : p'.Described c trap := by
  have hfield : p'.classObjectField? c "methods" = p.classObjectField? c "methods" := by
    unfold classObjectField?
    rw [hobject]
    cases ho : (p.classAt c).classObject? with
    | none => rfl
    | some o => simp [bind_some, hinit o ho]
  have htable : ∀ t, p.classObjectField? c "methods" = some (.address t) →
      p'.HasEntity t ∧ (p'.entityAt t).decl = (p.entityAt t).decl :=
    fun t ht => hglobal t (h.table t ht).1 (h.table t ht).2
  have hrows : p'.methodTable c = p.methodTable c := by
    unfold methodTable
    rw [hfield]
    split
    · rename_i t ht; rw [initializer?_eq (htable t ht).2]
    · rfl
  have hids : p'.methodIds c = p.methodIds c := by
    rw [methodIds, hmem]
    apply filter_congr
    intro e he
    rw [hdecl e he]
  refine ⟨?_, ?_⟩
  · intro t ht
    rw [hfield] at ht
    exact ⟨(htable t ht).1, (owner?_eq (htable t ht).2).trans (h.table t ht).2⟩
  · rw [hrows, hids]
    refine Forall₂.flip (forall₂_imp_right (Q := fun e => e ∈ p.methodIds c) h.rows.flip (fun _ h => h) ?_)
    rintro row e hem ⟨m, hm, hcode, hslot⟩
    exact ⟨m, (hdecl e (mem_of_mem_filter hem)).trans hm, hcode, hslot⟩

section Keeps

variable {S : ClassId → Prop} (hk : p.Keeps S p') (hS : ∀ d, p.Finalized d → S d)

include hk

lemma IsTrap.keeps (h : p.IsTrap trap) : p'.IsTrap trap := by
  refine ⟨hk.hasEntity h.1, ?_⟩
  have hdecl : (p'.entityAt trap).decl = (p.entityAt trap).decl := by
    apply hk.owned trap h.1
    intro d hd
    rw [h.2] at hd; cases hd
  rw [← h.2]
  apply eq_of_decl _ hdecl
  rw [h.2]
  rfl

include hS

lemma Linked.keeps (h : p.Linked c) (hb : p.Based c) : p'.Linked c := by
  have hcl := hk.kept c h.has (hS c h.finalized)
  have hmem : (p'.classAt c).members = (p.classAt c).members := (congrArg members hcl :)
  have hvtable : (p'.classAt c).vtable? = (p.classAt c).vtable? := (congrArg vtable? hcl :)
  have hobject : (p'.classAt c).classObject? = (p.classAt c).classObject? :=
    (congrArg classObject? hcl :)
  have hsize : (p'.classAt c).vtableSize = (p.classAt c).vtableSize := (congrArg vtableSize hcl :)
  have hsame := (SameRoots.of_decl hcl).above hb hk hS
  have howned : ∀ e, p.HasEntity e → (p.entityAt e).owner? = some c →
      (p'.entityAt e).decl = (p.entityAt e).decl := fun e => h.owned_decl_eq hk hS
  have hdecl : ∀ e ∈ (p.classAt c).members, (p'.entityAt e).decl = (p.entityAt e).decl :=
    fun e he => howned e (h.owned e he).1 (h.owned e he).2
  have hdeclAt : ∀ e ∈ (p.classAt c).members, p'.declAt? e = p.declAt? e := by
    intro e he
    rw [declAt?_eq_method?, hdecl e he, ← declAt?_eq_method?]
  obtain ⟨file, fields, declared, standIns, hfile, hp⟩ := h.parts
  obtain ⟨trap, htrap, htabled, hdescribed⟩ := h.tables
  refine ⟨hk.hasClass h.has, ?_, hmem ▸ h.nodup, ?_, ?_, ?_, ?_, trap, htrap.keeps hk, ?_, ?_⟩
  · exact (congrArg state hcl :).trans h.finalized
  · intro e he
    rw [hmem] at he
    obtain ⟨h1, h2⟩ := h.owned e he
    exact ⟨hk.hasEntity h1, (owner?_eq (hdecl e he)).trans h2⟩
  · intro v hv
    rw [hvtable] at hv
    obtain ⟨h1, h2⟩ := h.vtable v hv
    exact ⟨hk.hasEntity h1, (owner?_eq (howned v h1 h2)).trans h2⟩
  · intro o ho
    rw [hobject] at ho
    obtain ⟨h1, h2⟩ := h.classObject o ho
    exact ⟨hk.hasEntity h1, (owner?_eq (howned o h1 h2)).trans h2⟩
  · exact ⟨file, fields, declared, standIns, hk.file_eq_some hfile,
      hsame.parts hmem (fun e he => .of_decl (hdecl e he)) hp⟩
  · refine htabled.congr hp hsame hmem hvtable hsize hdeclAt fun v hv => ?_
    exact initializer?_eq (howned v (h.vtable v hv).1 (h.vtable v hv).2)
  · intro hext
    refine (hdescribed ((congrArg isExtern hcl :).symm.trans hext)).congr hmem hobject hdeclAt ?_ ?_
    · intro o ho
      exact initializer?_eq (howned o (h.classObject o ho).1 (h.classObject o ho).2)
    · intro t ht hown
      refine ⟨hk.hasEntity ht, hk.owned t ht ?_⟩
      intro d hd; simp [hown] at hd

lemma Settled.keeps (h : p.Settled c) : p'.Settled c := by
  induction h with
  | intro c hl hs hi ihs ihi =>
    have hcl := hk.kept c hl.has (hS c hl.finalized)
    refine .intro c (hl.keeps hk hS ⟨hs, hi⟩) ?_ ?_
    · intro s hsuper; exact ihs s ((congrArg superclass? hcl :).symm.trans hsuper)
    · intro i hinter; exact ihi i ((congrArg interfaces hcl :) ▸ hinter)

lemma Based.keeps (h : p.Based c) (K : SameRoots p p' c) : p'.Based c where
  super := fun s hs => (h.super s (K.superclass ▸ hs)).keeps hk hS
  interfaces := fun i hi => (h.interfaces i (K.interfaces ▸ hi)).keeps hk hS

end Keeps

end Program

end JvmGraph
