import JvmGraph.Proofs.ClassFile.Writer
import JvmGraph.Proofs.Linking.Dispatch
import JvmGraph.Proofs.Loading.Session

/-!
# Interface methods of finalized classes
A finalized class has a member for every instance method of its interfaces, and adds one only for what it does not
declare itself, once for each name and descriptor. What a class that is not abstract finds under such a name and
descriptor has code, provided that the nearest class that declares the method declares it neither private nor
abstract, and that no abstract class leaves open what nobody declares.
-/

namespace JvmGraph

open Steps List Program Session Option

namespace Program

variable {p : Program} {c : ClassId} {name descriptor : String} {file : ClassFile}
    {fields declared standIns : List EntityId}

/-! ## Members -/

structure LinksInterfaces (p : Program) (c : ClassId) : Prop where
  provides : ∀ i, p.InterfaceOf c i → ∀ im ∈ (p.classAt i).members, p.Provides c im
  standIns : ∃ file fields declared standIns, (p.classAt c).file? = some file ∧
    p.Parts c file fields declared standIns ∧ ∀ name descriptor,
      (standIns.filter fun e => isInstanceMethod name descriptor (p.entityAt e)).length ≤
        if p.declaredFlags c name descriptor = [] then 1 else 0

lemma Parts.declares (hp : p.Parts c file fields declared standIns) (hfile : (p.classAt c).file? = some file)
    {flags : AccessFlags} (hd : flags ∈ p.declaredFlags c name descriptor) :
    ∃ e ∈ declared, ∃ m, p.declAt? e = some m ∧ (p.entityAt e).name = name ∧ m.descriptor = descriptor ∧
      m.flags = flags ∧ m.isStatic = false := by
  obtain ⟨member, hmember, hname, hdescriptor, hflags, hstatic⟩ := (mem_declaredFlags hfile).1 hd
  obtain ⟨e, he, m, hm, hdecl⟩ := forall₂_mem_left hp.isDeclared hmember
  have hmf : m.flags = flags := hdecl.flags.trans hflags
  exact ⟨e, he, m, hm, Except.ok.inj (hdecl.nameOf.symm.trans hname),
    Except.ok.inj (hdecl.descriptorOf.symm.trans hdescriptor), hmf, by rwa [Method.isStatic, hmf]⟩

lemma Declared.mem_declaredFlags {member : Member} {m : Method} (hd : p.Declared c file member name m)
    (hfile : (p.classAt c).file? = some file) (hmember : member ∈ file.methods) (hstatic : m.isStatic = false) :
    m.flags ∈ p.declaredFlags c name m.descriptor :=
  (Program.mem_declaredFlags hfile).2 ⟨member, hmember, hd.nameOf, hd.descriptorOf, hd.flags.symm, hstatic⟩

lemma Settled.not_standIn (h : p.Settled c) (hp : p.Parts c file fields declared standIns)
    (hfile : (p.classAt c).file? = some file) (hd : p.declaredFlags c name descriptor ≠ []) {e : EntityId}
    (he : e ∈ standIns) : isInstanceMethod name descriptor (p.entityAt e) = false := by
  by_contra hinst
  obtain ⟨flags, hflags⟩ := exists_mem_of_ne_nil _ hd
  obtain ⟨e', he', m, hm, hname, hdescriptor, -, hstatic⟩ := hp.declares hfile hflags
  obtain rfl := hp.sole name descriptor e' (by simp [hp.members, he']) e he
    (isInstanceMethod_iff.2 ⟨hname, m, hm, hdescriptor, hstatic⟩) (by simpa using hinst)
  have hnodup : (fields ++ (declared ++ standIns)).Nodup := hp.members ▸ h.linked.nodup
  exact (nodup_append.1 (nodup_append.1 hnodup).2.1).2.2 e' he' e' he rfl

lemma Settled.linksInterfaces (h : p.Settled c) (hv : p.Covers c) (hplain : (p.classAt c).isInterface = false) :
    p.LinksInterfaces c := by
  obtain ⟨file, fields, declared, standIns, hfile, hp⟩ := h.linked.parts
  refine ⟨fun i hi im him => hv.provides hplain im ⟨i, hi, him⟩, file, fields, declared, standIns, hfile, hp,
    fun name descriptor => ?_⟩
  split_ifs with hd
  · -- two stand-ins with one name and descriptor are the same
    have hnodup : (fields ++ (declared ++ standIns)).Nodup := hp.members ▸ h.linked.nodup
    have hone := (nodup_append.1 (nodup_append.1 hnodup).2.1).2.1.filter
      fun e => isInstanceMethod name descriptor (p.entityAt e)
    have hsame : ∀ e ∈ standIns.filter fun e => isInstanceMethod name descriptor (p.entityAt e),
        ∀ e' ∈ standIns.filter fun e => isInstanceMethod name descriptor (p.entityAt e), e = e' := by
      intro e he e' he'
      rw [mem_filter] at he he'
      exact hp.sole name descriptor e (by simp [hp.members, he.1]) e' he'.1 he.2 he'.2
    generalize standIns.filter (fun e => isInstanceMethod name descriptor (p.entityAt e)) = l at hone hsame ⊢
    rcases l with _ | ⟨e, _ | ⟨e', rest⟩⟩
    · exact Nat.zero_le 1
    · exact le_refl 1
    · exact absurd (hsame e (by simp) e' (by simp) ▸ (.head _)) (nodup_cons.1 hone).1
  · rw [Nat.le_zero, length_eq_zero_iff, filter_eq_nil_iff]
    intro e he; simp [h.not_standIn hp hfile hd he]

/-! ## Implementations -/

/-- What objects of `c` have under this name and descriptor is or stands for a method with code. -/
def HasCode (p : Program) (c : ClassId) (name descriptor : String) : Prop :=
  ∃ o m, p.nearest? c name descriptor = some o ∧ p.declAt? (p.realOf o) = some m ∧ m.implementation? = none ∧
    m.isAbstract = false

def wellDeclared (p : Program) (name descriptor : String) : List ClassId → Bool
  | [] => true
  | a :: rest =>
    if p.declaredFlags a name descriptor = [] then p.wellDeclared name descriptor rest
    else (p.declaredFlags a name descriptor).all fun flags => !flags.isPrivate && !flags.isAbstract

lemma Settled.hasCode_own (h : p.Settled c) (hown : p.declaredFlags c name descriptor ≠ [])
    (hall : ∀ flags ∈ p.declaredFlags c name descriptor, flags.isPrivate = false ∧ flags.isAbstract = false) :
    p.HasCode c name descriptor := by
  obtain ⟨file, fields, declared, standIns, hfile, hp⟩ := h.linked.parts
  obtain ⟨flags, hflags⟩ := exists_mem_of_ne_nil _ hown
  obtain ⟨e, he, m, hm, hname, hdescriptor, hmf, hstatic⟩ := hp.declares hfile hflags
  have hover : isOverridable name descriptor (p.entityAt e) = true :=
    isOverridable_iff.2 ⟨hname, m, hm, hdescriptor, hstatic, hmf ▸ (hall flags hflags).1⟩
  -- perhaps another method is the first, but it is declared as well
  obtain ⟨x, hx⟩ : ∃ x, p.memberWhere? c (isOverridable name descriptor) = some x :=
    isSome_iff_exists.1 (find?_isSome.2 ⟨e, by simp [hp.members, he], hover⟩)
  obtain ⟨hxmem, hxover⟩ := memberWhere?_some hx
  obtain ⟨hxname, mx, hmx, hxd, hxs, -⟩ := isOverridable_iff.1 hxover
  rcases hp.origin hxmem hmx with ⟨-, member, hmember, hdecl⟩ | ⟨hstand, -⟩
  · have hlink := hdecl.implementation
    refine ⟨x, mx, by rw [h.nearest?_eq, hx, some_or], ?_, hlink, ?_⟩
    · rwa [realOf_eq_self (by rwa [hmx])]
    · rw [hdecl.isAbstract]
      exact (hall mx.flags (hxname ▸ hxd ▸ hdecl.mem_declaredFlags hfile hmember hxs)).2
  · cases (h.not_standIn hp hfile hown hstand).symm.trans (isInstanceMethod_of_overridable hxover)

lemma Settled.hasCode_sub (h : p.Settled c) {s : ClassId} (hs : (p.classAt c).superclass? = some s)
    (hown : p.declaredFlags c name descriptor = []) (hcode : p.HasCode s name descriptor) :
    p.HasCode c name descriptor := by
  obtain ⟨o, m, ho, hm, hlink, habs⟩ := hcode
  rw [← overridden?_sub hs] at ho
  cases hx : p.memberWhere? c (isOverridable name descriptor) with
  | none => exact ⟨o, m, by rw [h.nearest?_eq, hx, none_or, ho], hm, hlink, habs⟩
  | some x =>
    obtain ⟨hxmem, hxover⟩ := memberWhere?_some hx
    obtain ⟨rfl, mx, hmx, rfl, hxs, -⟩ := isOverridable_iff.1 hxover
    obtain ⟨file, fields, declared, standIns, hfile, hp⟩ := h.linked.parts
    refine ⟨x, m, by rw [h.nearest?_eq, hx, some_or], ?_, hlink, habs⟩
    rcases hp.origin hxmem hmx with ⟨-, member, hmember, hdecl⟩ | ⟨-, ⟨o', r, mr, hi⟩ | hv⟩
    · exact absurd hown (ne_nil_of_mem (hdecl.mem_declaredFlags hfile hmember hxs))
    · -- the stand-in and what it stands for lead to the same method
      cases hi.overridden.symm.trans ho
      have hreal : p.realOf o = r := hi.real; rwa [hi.realOf_self hmx, ← hreal]
    · cases hv.overridden.symm.trans ho

lemma Settled.hasCode (h : p.Settled c) (hd : ∃ a ∈ p.ancestry c, p.declaredFlags a name descriptor ≠ [])
    (hwell : p.wellDeclared name descriptor (p.ancestry c) = true) : p.HasCode c name descriptor := by
  induction h using Settled.down with
  | step c h ih =>
    have hhead : ∀ {rest}, p.declaredFlags c name descriptor ≠ [] → p.wellDeclared name descriptor (c :: rest) = true →
        p.HasCode c name descriptor := by
      intro rest hown hwell
      rw [wellDeclared, if_neg hown] at hwell; exact h.hasCode_own hown (by simpa using hwell)
    obtain ⟨a, ha, hflags⟩ := hd
    cases hs : (p.classAt c).superclass? with
    | none =>
      rw [h.ancestry_root hs] at ha hwell; exact hhead (mem_singleton.1 ha ▸ hflags) hwell
    | some s =>
      rw [h.ancestry_sub hs] at ha hwell
      by_cases hown : p.declaredFlags c name descriptor = []
      · rw [wellDeclared, if_pos hown] at hwell
        have habove := (mem_cons.1 ha).resolve_left fun hac => hflags (hac ▸ hown)
        exact h.hasCode_sub hs hown (ih s hs ⟨a, habove, hflags⟩ hwell)
      · exact hhead hown hwell

lemma Settled.not_member (h : p.Settled c) (hv : ∀ a ∈ p.ancestry c, p.Solid a)
    (hnone : ∀ a ∈ p.ancestry c, p.declaredFlags a name descriptor = [])
    (hopen : ∀ a ∈ p.ancestry c, (p.classAt a).isAbstract = true → ∀ im, p.InterfaceMember a im →
      isInstanceMethod name descriptor (p.entityAt im) = false) :
    ∀ a ∈ p.ancestry c, ∀ e ∈ (p.classAt a).members, isInstanceMethod name descriptor (p.entityAt e) = false := by
  induction h using Settled.down with
  | step c h ih =>
    rw [h.forall_ancestry] at hv hnone hopen ⊢
    have habove := fun s hs => ih s hs (hv.2 s hs) (hnone.2 s hs) (hopen.2 s hs)
    refine ⟨fun e he => ?_, habove⟩
    by_contra hinst
    rcases hv.1 e he name descriptor (by simpa using hinst) with hd | ⟨⟨im, him, hkey⟩, hborrow⟩
    · exact hd hnone.1
    · cases habs : (p.classAt c).isAbstract with
      | true => cases (hopen.1 habs im him).symm.trans hkey
      | false =>
        obtain ⟨o, ho⟩ := isSome_iff_exists.1 (hborrow habs)
        obtain ⟨⟨s, hs, b, hb, hmem⟩, hover⟩ := overridden?_some ho
        cases (habove s hs b hb o hmem).symm.trans (isInstanceMethod_of_overridable hover)

end Program

/-! ## Missing methods -/

section Missing

variable {w w' : World} {c i : ClassId} {e : EntityId} {err : Error}

def World.Lacks (w : World) (c i : ClassId) (e : EntityId) (err : Error) : Prop :=
  ∃ m, w.program.methodAt? e = some m ∧ m.isStatic = false ∧ (w.classAt c).isAbstract = false ∧
    w.program.memberWhere? c (Program.isInstanceMethod (w.program.entityAt e).name m.descriptor) = none ∧
    w.program.overridden? c (w.program.entityAt e).name m.descriptor = none ∧
    err = .missingInterfaceImplementation (w.classAt c).name (w.program.entityAt e).name (w.classAt i).name

lemma linkInterfaceMethod_error (h : linkInterfaceMethod c i e w = .error err w') : w'.Lacks c i e err := by
  unfold linkInterfaceMethod at h
  rw [Steps.get_bind] at h
  cases hm : (w.program.entityAt e).method? with
  | none => simp only [hm] at h; cases h
  | some m =>
    simp only [hm] at h
    cases hstatic : m.isStatic with
    | true => rw [hstatic] at h; cases h
    | false =>
      rw [hstatic] at h
      cases hown : w.program.memberWhere? c (isInstanceMethod (w.program.entityAt e).name m.descriptor) with
      | some own => simp only [hown] at h; cases h
      | none =>
        simp only [hown, Bool.false_eq_true, if_false] at h
        split at h
        · rename_i hmissing
          cases h
          simp only [Bool.and_eq_true, isNone_iff_eq_none, map_eq_none_iff, Bool.not_eq_true'] at hmissing
          exact ⟨m, hm, hstatic, hmissing.2, hown, hmissing.1, rfl⟩
        · cases hstand : standIn w.program c e ((w.program.overridden? c (w.program.entityAt e).name m.descriptor).map
              w.program.realImplementation) <;> simp only [hstand] at h <;> cases h

lemma bind_error {α β : Type} {x : Load α} {f : α → Load β} (h : (x >>= f) w = .error err w') :
    x w = .error err w' ∨ ∃ a w1, x w = .ok a w1 ∧ f a w1 = .error err w' := by
  cases hx : x w with
  | ok a w1 => exact .inr ⟨a, w1, rfl, by rwa [Steps.bind_of_ok hx] at h⟩
  | error e w1 =>
    rw [Steps.bind_of_error hx] at h
    cases h
    exact .inl rfl

lemma linkInterface_error {es : List EntityId} (h : linkInterface c i es w = .error err w') :
    ∃ e ∈ es, w'.Lacks c i e err := by
  induction es generalizing w with
  | nil => cases h
  | cons e rest ih =>
    rcases bind_error h with h | ⟨_, w1, -, h⟩
    · exact ⟨e, by simp, linkInterfaceMethod_error h⟩
    · obtain ⟨x, hx, hlacks⟩ := ih h; exact ⟨x, by simp [hx], hlacks⟩

/-- The methods of interfaces are linked unless one of them is missing. -/
lemma linkInterfaces_error {is : List ClassId} (hs : w.Sound) (hc : w.Protected c)
    (hstate : ¬ w.Finalized c) (h : linkInterfaces c is w = .error err w') :
    ∃ i ∈ is, ∃ e ∈ (w'.classAt i).members, w'.Lacks c i e err := by
  induction is generalizing w with
  | nil => cases h
  | cons i rest ih =>
    have hends := linkInterface_ends hs hc hstate i (w.classAt i).members
    rcases bind_error ((get_bind _ w).symm.trans h) with h | ⟨_, w1, hok, h⟩
    · obtain ⟨e, he, hlacks⟩ := linkInterface_error h
      rw [h] at hends
      have hworks : World.Works c w w' := hends
      exact ⟨i, by simp, e, (hworks.keeps.program.members i (hasClass_of_member he)).subset he, hlacks⟩
    · have hlinks := (hends.ok hok).1
      obtain ⟨j, hj, hlacks⟩ := ih hlinks.sound (hlinks.works.protected_iff.2 hc)
        (mt (hlinks.works.finalized_iff c).1 hstate) h
      exact ⟨j, by simp [hj], hlacks⟩

end Missing

/-! ## Sessions -/

lemma Session.finalized_covers {source : ClassSource} {calls later : List Call} {c : ClassId} {s : Session}
    (hs : s = run source (calls ++ .finalize c :: later)) (hok : s.failures = [])
    (hg : s.world.program.Grounded c) :
    s.world.program.Settled c ∧ ∀ a ∈ s.world.program.ancestry c, s.world.program.Covers a := by
  subst hs
  have hset := (ready hok).fine c (finalized hok) hg
  exact ⟨hset, hset.covers_ancestor hg (covered hok)⟩

/-- In a session without failures, a class that was finalized and whose supertypes form no circle has the methods of its
interfaces, unless it is an interface. -/
theorem finalized_linksInterfaces (source : ClassSource) (calls later : List Call) (c : ClassId) (s : Session)
    (hs : s = Session.run source (calls ++ .finalize c :: later)) (hok : s.failures = [])
    (hg : s.world.program.Grounded c) (hplain : (s.world.classAt c).isInterface = false) :
    s.world.program.LinksInterfaces c := by
  obtain ⟨hset, hcovers⟩ := finalized_covers hs hok hg
  exact hset.linksInterfaces (hcovers c hset.self_mem) hplain

/-- A class that implements a method of a superinterface twice over, declares one and inherits another. -/
def diamond : ClassSource :=
  .ofDrafts [
    { name := "I", flags := 0x601, methods := [⟨0x401, "m", "()V", none⟩, ⟨0x401, "n", "()V", none⟩] },
    { name := "J", flags := 0x601, interfaces := ["I"], methods := [⟨0x401, "n", "()V", none⟩] },
    { name := "K", flags := 0x601, interfaces := ["I"] },
    { name := "A", methods := [⟨1, "n", "()V", none⟩] },
    { name := "C", super? := some "A", interfaces := ["J", "K"], methods := [⟨1, "m", "()V", none⟩] }]

def diamondSession : Session := .run diamond ([.lookup "C"] ++ .finalize ⟨0⟩ :: [])

theorem finalized_linksInterfaces_diamond :
    (diamondSession.failures = [] ∧ (diamondSession.world.classAt ⟨0⟩).name = "C" ∧
      (diamondSession.world.program.allInterfaces ⟨0⟩).map (fun i => (diamondSession.world.classAt i).name) =
      ["J", "I", "K"] ∧
      (diamondSession.world.classAt ⟨0⟩).members.map (fun e => ((diamondSession.world.program.entityAt e).name,
        (diamondSession.world.program.methodAt? e).elim 0 (·.overwrites.length))) = [("m", 1), ("n", 3)]) ∧
    diamondSession.world.program.LinksInterfaces ⟨0⟩ := by
  have hok : diamondSession.failures = [] := isEmpty_iff.1 (by decide +kernel)
  refine ⟨⟨hok, by decide +kernel, by decide +kernel, by decide +kernel⟩, ?_⟩
  exact finalized_linksInterfaces diamond [.lookup "C"] [] ⟨0⟩ diamondSession rfl hok
    (grounded_of_ranked (show ranked _ [3, 2, 0, 2, 1, 2] = true by decide +kernel) ⟨0⟩) (by decide +kernel)

def rootImplementation : ClassSource :=
  .ofDrafts [
    { name := "java/lang/Object", super? := none, interfaces := ["I"], methods := [⟨1, "m", "()V", none⟩] },
    { name := "I", flags := 0x601, methods := [⟨0x401, "m", "()V", none⟩] }]

def interfaceFirst : Session := .run rootImplementation ([.lookup "I", .finalize ⟨0⟩] ++ .finalize ⟨1⟩ :: [])

/-- An interface of the class of objects has no members yet when that class is linked. -/
theorem not_linksInterfaces_interfaceFirst :
    interfaceFirst.failures = [] ∧ (interfaceFirst.world.classAt ⟨1⟩).interfaces = [⟨0⟩] ∧
    (interfaceFirst.world.classAt ⟨0⟩).interfaces = [] ∧ (interfaceFirst.world.classAt ⟨0⟩).state = .finalized ∧
    ¬ interfaceFirst.world.program.LinksInterfaces ⟨1⟩ := by
  have hinter : (interfaceFirst.world.classAt ⟨1⟩).interfaces = [⟨0⟩] := by decide +kernel
  refine ⟨isEmpty_iff.1 (by decide +kernel), hinter, by decide +kernel, by decide +kernel, fun h => ?_⟩
  have hmethod : (interfaceFirst.world.program.declAt? ⟨11⟩).any (fun m => !m.isStatic) = true := by decide +kernel
  obtain ⟨m, hm, hstatic⟩ := (any_eq_true _ _).1 hmethod
  obtain ⟨e, he, -, m', hm', hover⟩ :=
    h.provides ⟨0⟩ (.single (by rw [show (classAt _ _).interfaces = _ from hinter]; simp))
    ⟨11⟩ (by decide +kernel) m hm (by simpa using hstatic)
  have hmem : (interfaceFirst.world.program.classAt ⟨1⟩).members = [⟨4⟩] := by decide +kernel
  have hnone : (interfaceFirst.world.program.methodAt? ⟨4⟩).elim [] Method.overwrites = [] := by decide +kernel
  rw [hmem, mem_singleton] at he
  rw [← he, hm', elim_some] at hnone
  rw [hnone] at hover
  cases hover

/-- In a session without failures, a class that was finalized, whose supertypes form no circle and none of whose
superclasses is an interface has code for the methods of its interfaces and of those of its superclasses, if the
nearest class that declares such a method declares it neither private nor abstract, and no abstract class among them
has it from an interface if no class declares it. Linking the interfaces of a class fails for no other reason than a
missing method. -/
theorem interfaceMethods_haveCode (source : ClassSource) (calls later : List Call) (c : ClassId) (s : Session)
    (hs : s = Session.run source (calls ++ .finalize c :: later)) (hok : s.failures = [])
    (hg : s.world.program.Grounded c) (hplain : ∀ a ∈ s.world.program.ancestry c,
    (s.world.classAt a).isInterface = false)
    (name descriptor : String)
    (hwell : s.world.program.wellDeclared name descriptor (s.world.program.ancestry c) = true)
    (hopen : (∀ a ∈ s.world.program.ancestry c, s.world.program.declaredFlags a name descriptor = []) →
      ∀ a ∈ s.world.program.ancestry c, (s.world.classAt a).isAbstract = true → ∀ im,
      s.world.program.InterfaceMember a im →
        Program.isInstanceMethod name descriptor (s.world.program.entityAt im) = false) :
    (∀ a ∈ s.world.program.ancestry c, ∀ im, s.world.program.InterfaceMember a im →
      Program.isInstanceMethod name descriptor (s.world.program.entityAt im) = true →
        s.world.program.HasCode c name descriptor) ∧
    ∀ (w w' : World) (err : Error), w.Sound → w.Protected c → (w.classAt c).state ≠ .finalized →
      linkInterfaces c (w.program.allInterfaces c) w = .error err w' →
        ∃ i, w.program.InterfaceOf c i ∧ ∃ e ∈ (w'.classAt i).members, w'.Lacks c i e err := by
  refine ⟨fun a ha im him hkey => ?_, fun w w' err hsound hprotected hstate herr => ?_⟩
  · obtain ⟨hset, hcovers⟩ := finalized_covers hs hok hg
    by_cases hd : ∃ a ∈ s.world.program.ancestry c, s.world.program.declaredFlags a name descriptor ≠ []
    · exact hset.hasCode hd hwell
    · simp only [not_exists, not_and, not_not] at hd
      obtain ⟨hname, m, hm, hdescriptor, hstatic⟩ := isInstanceMethod_iff.1 hkey
      obtain ⟨e, he, hinst, -⟩ := (hcovers a ha).provides (hplain a ha) im him m hm hstatic
      rw [hname, hdescriptor] at hinst
      cases (hset.not_member (fun a ha => (hcovers a ha).solid) hd (hopen hd) a ha e he).symm.trans hinst
  · obtain ⟨i, hi, hlacks⟩ := linkInterfaces_error hsound hprotected hstate herr
    exact ⟨i, mem_allInterfaces.1 hi, hlacks⟩

theorem interfaceMethods_haveCode_diamond :
    (diamondSession.failures = [] ∧ (diamondSession.world.classAt ⟨0⟩).isAbstract = false ∧
      diamondSession.world.program.nearest? ⟨0⟩ "n" "()V" = some ⟨29⟩ ∧
      diamondSession.world.program.realOf ⟨29⟩ = ⟨9⟩) ∧
    diamondSession.world.program.HasCode ⟨0⟩ "n" "()V" := by
  have hok : diamondSession.failures = [] := isEmpty_iff.1 (by decide +kernel)
  have hinter : (diamondSession.world.program.classAt ⟨0⟩).interfaces = [⟨3⟩, ⟨5⟩] := by decide +kernel
  have hdeclared : diamondSession.world.program.declaredFlags ⟨1⟩ "n" "()V" ≠ [] := by decide +kernel
  have hmember : ∃ im ∈ (diamondSession.world.program.classAt ⟨3⟩).members,
    isInstanceMethod "n" "()V" (diamondSession.world.program.entityAt im) = true := by decide +kernel
  obtain ⟨im, him, hkey⟩ := hmember
  refine ⟨⟨hok, by decide +kernel, by decide +kernel, by decide +kernel⟩, ?_⟩
  refine (interfaceMethods_haveCode diamond [.lookup "C"] [] ⟨0⟩ diamondSession rfl hok
    (grounded_of_ranked (show ranked _ [3, 2, 0, 2, 1, 2] = true by decide +kernel) ⟨0⟩) (by decide +kernel)
    "n" "()V" (by decide +kernel) (fun hnone => absurd (hnone ⟨1⟩ (by decide +kernel)) hdeclared)).1 ⟨0⟩
      (by decide +kernel) im
      ⟨⟨3⟩, .single (by rw [hinter]; simp), him⟩ hkey

end JvmGraph
