import JvmGraph.Proofs.Linking.Stable

/-!
# Interface methods and the members of a class

A finalized class has a member for every instance method of its interfaces, which is noted as an implementation of it.
It has no other methods than these and those of its class file, and unless it is abstract, what it does not declare is
there in a superclass. All of this stays true while other classes are worked on.
-/

namespace JvmGraph.Program

variable {p p' : Program} {c : ClassId} {im : EntityId} {name descriptor : String}

def Provides (p : Program) (c : ClassId) (im : EntityId) : Prop :=
  ∀ m, p.declAt? im = some m → m.isStatic = false → ∃ e ∈ (p.classAt c).members,
    isInstanceMethod (p.entityAt im).name m.descriptor (p.entityAt e) = true ∧
      ∃ m', p.methodAt? e = some m' ∧ im ∈ m'.overwrites

def declaredFlags (p : Program) (c : ClassId) (name descriptor : String) : List AccessFlags :=
  (p.classAt c).file?.toList.flatMap fun file => (file.methods.filter fun member =>
    (file.nameOf member).toOption = some name && (file.descriptorOf member).toOption = some descriptor &&
      !member.flags.isStatic).map Member.flags

/-- An interface of `c` has a method with this name and descriptor, and unless `c` is abstract, so has a superclass. -/
def Borrows (p : Program) (c : ClassId) (name descriptor : String) : Prop :=
  (∃ im, p.InterfaceMember c im ∧ isInstanceMethod name descriptor (p.entityAt im) = true) ∧
    ((p.classAt c).isAbstract = false → (p.overridden? c name descriptor).isSome)

def Solid (p : Program) (c : ClassId) : Prop :=
  ∀ e ∈ (p.classAt c).members, ∀ name descriptor, isInstanceMethod name descriptor (p.entityAt e) = true →
    p.declaredFlags c name descriptor ≠ [] ∨ p.Borrows c name descriptor

structure Covers (p : Program) (c : ClassId) : Prop where
  provides : (p.classAt c).isInterface = false → ∀ im, p.InterfaceMember c im → p.Provides c im
  solid : p.Solid c
  /-- The superclass is the one that the class file names. -/
  above : ∀ s, (p.classAt c).superclass? = some s → p.Above s c

lemma isInstanceMethod_of_face {e e' : Entity} (h : e'.face = e.face) (name descriptor : String) :
    isInstanceMethod name descriptor e' = isInstanceMethod name descriptor e := by
  have hkey : ∀ x : Entity, isInstanceMethod name descriptor x = isInstanceMethod name descriptor x.face := by
    intro x
    cases hk : x.kind <;> simp [isInstanceMethod, Entity.method?, Entity.face, EntityKind.face, hk, Method.face,
      Method.isStatic]
  rw [hkey e', h, ← hkey e]

lemma mem_declaredFlags {file : ClassFile} (hfile : (p.classAt c).file? = some file)
    {flags : AccessFlags} : flags ∈ p.declaredFlags c name descriptor ↔ ∃ member ∈ file.methods,
      file.nameOf member = .ok name ∧ file.descriptorOf member = .ok descriptor ∧ member.flags = flags ∧
        flags.isStatic = false := by
  have hok : ∀ {x : Except Error String} {s : String}, x.toOption = some s ↔ x = .ok s := by
    intro x s; cases x <;> simp [Except.toOption]
  simp only [declaredFlags, hfile, Option.toList_some, List.flatMap_singleton, List.mem_map, List.mem_filter,
    Bool.and_eq_true, decide_eq_true_eq, hok, Bool.not_eq_true']
  constructor
  · rintro ⟨member, ⟨hmember, ⟨hname, hdescriptor⟩, hstatic⟩, rfl⟩
    exact ⟨member, hmember, hname, hdescriptor, rfl, hstatic⟩
  · rintro ⟨member, hmember, hname, hdescriptor, rfl, hstatic⟩
    exact ⟨member, ⟨hmember, ⟨hname, hdescriptor⟩, hstatic⟩, rfl⟩

lemma hasClass_of_member {e : EntityId} (he : e ∈ (p.classAt c).members) : p.HasClass c := by
  by_contra hc
  simp [p.classAt_of_not c hc] at he

lemma Provides.mono {S : ClassId → Prop} (hk : p.Keeps S p') (hsame : SameAbove p p' c) (him : p.InterfaceMember c im)
    (h : p.Provides c im) : p'.Provides c im := by
  intro m hm hstatic
  have hdecl := SameMethod.of_decl (hsame.interface im him).2
  obtain ⟨e, he, hinst, m', hm', hover⟩ := h m (hdecl.decl ▸ hm) hstatic
  obtain ⟨m'', hm'', hlast⟩ := hk.becomes.lasts hm'
  refine ⟨e, (hk.members c (hasClass_of_member he)).subset he, ?_, m'', hm'', hlast.overwrites hover⟩
  rwa [isInstanceMethod_of_face (hk.face e (hasEntity_of_methodAt? hm')), hdecl.name]

lemma Borrows.mono (hsame : SameAbove p p' c) (h : p.Borrows c name descriptor) : p'.Borrows c name descriptor := by
  obtain ⟨⟨im, him, hkey⟩, habove⟩ := h
  refine ⟨⟨im, (hsame.interface im him).1, ?_⟩, ?_⟩
  · rwa [(SameMethod.of_decl (hsame.interface im him).2).isInstanceMethod]
  · rwa [ClassInfo.isAbstract, hsame.flags, hsame.overridden]

section Mono

variable (hc : p.Continues p') (hsame : SameAbove p p' c) (howned : ∀ e ∈ (p.classAt c).members, p.HasEntity e)

include hc hsame howned

lemma Solid.add (h : p.Solid c) (hnew : ∀ e ∈ (p'.classAt c).members, e ∈ (p.classAt c).members ∨
      ∀ name descriptor, isInstanceMethod name descriptor (p'.entityAt e) = true → p.Borrows c name descriptor) :
    p'.Solid c := by
  intro e he name descriptor hinst
  rcases hnew e he with he | hover
  · rw [isInstanceMethod_of_face (hc.face e (howned e he))] at hinst
    rw [declaredFlags, hc.file (hasClass_of_member he)]
    exact (h e he name descriptor hinst).imp id (·.mono hsame)
  · exact .inr ((hover name descriptor hinst).mono hsame)

lemma Solid.mono (hm : (p'.classAt c).members = (p.classAt c).members) (h : p.Solid c) : p'.Solid c :=
  h.add hc hsame howned fun _ he => .inl (hm ▸ he)

end Mono

section Keeps

variable {S : ClassId → Prop} (hk : p.Keeps S p') (hS : ∀ d, p.Finalized d → S d)

include hk hS

lemma Based.interfaceMember_of_keeps (hb : p.Based c) (hinter : (p'.classAt c).interfaces = (p.classAt c).interfaces)
    (him : p'.InterfaceMember c im) : p.InterfaceMember c im := by
  obtain ⟨i, hi, hmem⟩ := him
  have hof : p.InterfaceOf c i := by
    clear hmem
    induction hi with
    | single hi => exact .single (hinter ▸ hi)
    | tail _ hab ih =>
      have hdecl := (hb.interfaceOf ih).decl_eq hk hS
      exact ih.tail ((congrArg (·.interfaces) hdecl :) ▸ hab)
  exact ⟨i, hof, (congrArg (·.members) ((hb.interfaceOf hof).decl_eq hk hS) :) ▸ hmem⟩

lemma Based.covers (hb : p.Based c) (K : SameRoots p p' c) (hmem : (p'.classAt c).members = (p.classAt c).members)
    (howned : ∀ e ∈ (p.classAt c).members, p.HasEntity e) (h : p.Covers c) : p'.Covers c := by
  have hsame := K.above hb hk hS
  refine ⟨fun hplain im him => ?_, h.solid.mono hk.toContinues hsame howned hmem,
    fun s hs => hk.above (h.above s (K.superclass ▸ hs))⟩
  have him' := hb.interfaceMember_of_keeps hk hS K.interfaces him
  exact (h.provides (hsame.isInterface ▸ hplain) im him').mono hk hsame him'

lemma Settled.covers (h : p.Settled c) (hcov : p.Covers c) : p'.Covers c := by
  have hdecl := h.decl_eq hk hS
  exact Based.covers hk hS ⟨fun s hs => h.super hs, fun i hi => h.interface hi⟩ (.of_decl hdecl)
    (congrArg (·.members) hdecl :)
    (fun e he => (h.linked.owned e he).1) hcov

end Keeps

lemma Settled.covers_ancestor (h : p.Settled c) (hg : p.Grounded c)
    (hv : ∀ d, p.Finalized d → p.Grounded d → p.Covers d) : ∀ a ∈ p.ancestry c, p.Covers a := by
  induction h using Settled.down with
  | step c h ih =>
    have hc := hv c h.linked.finalized hg
    exact h.forall_ancestry.2 ⟨hc, fun s hs => ih s hs (hg.of_above (hc.above s hs))⟩

end JvmGraph.Program
