import JvmGraph.Proofs.Loading.Works

/-!
# Adding the members of a class

Fields and methods are appended to the members of a class in the order of its class file. A method is
linked to the one that it overrides and has no slot yet.
-/

namespace JvmGraph

open Steps Load World List Option Program Entity

variable {w w' w'' : World} {c : ClassId} {e : EntityId} {file : ClassFile} {f member : Member}

namespace World

/-! ## Fields and methods of the class file -/

structure FieldOf (w : World) (c : ClassId) (file : ClassFile) (f : Member) (e : EntityId) : Prop where
  has : w.HasEntity e
  field : (w.program.entityAt e).field?.isSome
  name : file.nameOf f = .ok (w.program.entityAt e).name
  symbol : Symbol.mangleMember (w.classAt c).name (w.program.entityAt e).name .field = .ok (w.program.entityAt e).symbol

structure MethodOf (w : World) (c : ClassId) (file : ClassFile) (member : Member) (e : EntityId) : Prop where
  has : w.HasEntity e
  name : file.nameOf member = .ok (w.program.entityAt e).name
  method : ∃ m, w.program.methodAt? e = some m ∧ file.descriptorOf member = .ok m.descriptor ∧
    MethodType.parse m.descriptor = .ok m.type ∧ m.flags = member.flags ∧
      Symbol.mangleMember (w.classAt c).name (w.program.entityAt e).name (.method m.type m.isStatic) =
        .ok (w.program.entityAt e).symbol
  initializer : (w.program.entityAt e).initializer? = none

structure Bare (w : World) (e : EntityId) : Prop where
  has : w.HasEntity e
  method : (w.program.methodAt? e).isSome
  initializer : (w.program.entityAt e).initializer? = none

lemma kind_ne_data_of_field (h : (w.program.entityAt e).field?.isSome) : (w.program.entityAt e).kind ≠ .data := by
  intro hk
  simp [field?, hk] at h

lemma kind_ne_data_of_method (h : (w.program.methodAt? e).isSome) : (w.program.entityAt e).kind ≠ .data := by
  intro hk
  simp [methodAt?, method?, hk] at h

section Face

variable (hc : w.program.Continues w'.program)

include hc

lemma FieldOf.mono (hclass : w.HasClass c) (h : w.FieldOf c file f e) : w'.FieldOf c file f e := by
  have hface := hc.face e h.has
  refine ⟨hc.hasEntity h.has, ?_, ?_, ?_⟩
  · have hkind := kind_of_face hface
    have hfield := h.field
    revert hkind hfield
    unfold field?
    cases (w.program.entityAt e).kind <;> cases (w'.program.entityAt e).kind <;> simp [EntityKind.face]
  · rw [name_of_face hface]; exact h.name
  · rw [name_of_face hface, symbol_of_face hface, show (w'.classAt c).name = _ from hc.name hclass]
    exact h.symbol

lemma MethodOf.mono (hclass : w.HasClass c) (h : w.MethodOf c file member e) : w'.MethodOf c file member e := by
  have hface := hc.face e h.has
  obtain ⟨m, hm, hdesc, htype, hflags, hsymbol⟩ := h.method
  obtain ⟨m', hm', hmm⟩ : ∃ m', w'.program.methodAt? e = some m' ∧ m'.face = m.face := by
    have := method?_of_face hface
    rwa [show (w.program.entityAt e).method? = some m from hm, map_some, map_eq_some_iff] at this
  have hdesc' : m'.descriptor = m.descriptor := (congrArg (·.descriptor) hmm :)
  have htype' : m'.type = m.type := (congrArg (·.type) hmm :)
  have hflags' : m'.flags = m.flags := (congrArg (·.flags) hmm :)
  refine ⟨hc.hasEntity h.has, ?_, ⟨m', hm', ?_, ?_, ?_, ?_⟩, ?_⟩
  · rw [name_of_face hface]; exact h.name
  · rwa [hdesc']
  · rwa [hdesc', htype']
  · rwa [hflags']
  · rwa [name_of_face hface, symbol_of_face hface, show (w'.classAt c).name = _ from hc.name hclass, htype',
      Method.isStatic, hflags']
  · rw [initializer?_of_face hface (kind_ne_data_of_method (by rw [hm]; rfl))]
    exact h.initializer

lemma Bare.mono (h : w.Bare e) : w'.Bare e := by
  have hface := hc.face e h.has
  refine ⟨hc.hasEntity h.has, ?_, ?_⟩
  · rw [methodAt?, isMethod_of_face hface]; exact h.method
  · rw [initializer?_of_face hface (kind_ne_data_of_method h.method)]; exact h.initializer

end Face

/-! ## Work on a class -/

structure Tends (c : ClassId) (w w' : World) : Prop where
  works : Works c w w'
  sound : w'.Sound
  superclass : (w'.classAt c).superclass? = (w.classAt c).superclass?
  interfaces : (w'.classAt c).interfaces = (w.classAt c).interfaces

lemma Tends.refl (h : w.Sound) : Tends c w w := ⟨.refl c w, h, rfl, rfl⟩

lemma Tends.trans (h : Tends c w w') (h' : Tends c w' w'') : Tends c w w'' :=
  ⟨h.works.trans h'.works, h'.sound, h'.superclass.trans h.superclass, h'.interfaces.trans h.interfaces⟩

lemma Tends.roots (h : Tends c w w') : Program.SameRoots w.program w'.program c :=
  ⟨h.works.flags_eq, h.superclass, h.interfaces⟩

lemma Tends.based (h : Tends c w w') (hc : ¬ w.Finalized c) (hb : w.program.Based c) :
    w'.program.Based c ∧ Program.SameAbove w.program w'.program c := by
  have hS : ∀ d, w.program.Finalized d → d ≠ c := by rintro d hd rfl; exact hc hd
  exact ⟨hb.keeps h.works.keeps.program hS h.roots, h.roots.above hb h.works.keeps.program hS⟩

structure Gathers (c : ClassId) (w w' : World) : Prop extends Tends c w w' where
  data : ∀ e, w.HasEntity e → (w.program.entityAt e).kind = .data →
    w'.program.entityAt e = w.program.entityAt e
  fresh : ∀ e, w'.HasEntity e → w.HasEntity e ∨ e ∈ (w'.classAt c).members

lemma Gathers.refl (h : w.Sound) : Gathers c w w := ⟨.refl h, fun _ _ _ => rfl, fun _ he => .inl he⟩

lemma Gathers.trans (h : Gathers c w w') (h' : Gathers c w' w'') : Gathers c w w'' where
  toTends := h.toTends.trans h'.toTends
  data := fun e he hk => by
    have hsame := h.data e he hk
    exact (h'.data e (h.works.keeps.program.hasEntity he) (by rwa [hsame])).trans hsame
  fresh := fun e he => by
    rcases h'.fresh e he with he | he
    · refine (h.fresh e he).imp id fun hm => ?_
      exact (h'.works.keeps.program.members c (hasClass_of_member hm)).subset hm
    · exact .inr he

/-- Members were added to `c`, and nothing else happened to it or to any entity. -/
structure Appends (c : ClassId) (new : List EntityId) (w w' : World) : Prop extends Gathers c w w' where
  members : (w'.classAt c).members = (w.classAt c).members ++ new
  entityAt : ∀ e, w.HasEntity e → w'.program.entityAt e = w.program.entityAt e

namespace Appends

variable {new new' : List EntityId}

lemma nil (h : w.Sound) : Appends c [] w w := ⟨.refl h, by simp, fun _ _ => rfl⟩

lemma trans (h : Appends c new w w') (h' : Appends c new' w' w'') : Appends c (new ++ new') w w'' where
  toGathers := h.toGathers.trans h'.toGathers
  members := by rw [h'.members, h.members, append_assoc]
  entityAt := fun e he => (h'.entityAt e (h.works.keeps.program.hasEntity he)).trans (h.entityAt e he)

end Appends

end World

variable {entity : Entity}

lemma appends_addMember (h : w.Sound) (hc : w.Protected c) (hg : entity.graph? = none) :
    Appends c [⟨w.program.entities.size⟩] w (w.modifyProgram fun p => (p.addMember c entity).2) ∧
      (w.modifyProgram fun p => (p.addMember c entity).2).program.HasEntity ⟨w.program.entities.size⟩ ∧
      (w.modifyProgram fun p => (p.addMember c entity).2).program.entityAt ⟨w.program.entities.size⟩ =
        { entity with owner? := some c } := by
  obtain ⟨hat, hlast, hnow⟩ := addMember_spec entity (h.hasClass hc)
  replace hat : (w.modifyProgram fun p => (p.addMember c entity).2).classAt c =
      { w.classAt c with members := (w.classAt c).members ++ [⟨w.program.entities.size⟩] } := hat
  have hsize : (w.modifyProgram fun p => (p.addMember c entity).2).program.entities.size =
    w.program.entities.size + 1 := by
    change (w.program.addMember c entity).2.entities.size = _
    simp [addMember_snd]
  have hold : ∀ e, w.HasEntity e →
      (w.modifyProgram fun p => (p.addMember c entity).2).program.entityAt e = w.program.entityAt e :=
    fun e he => entityAt_newEntity_of_has _ _ he
  have hworks := works_addMember (h.hasClass hc) hg
  have hnew := (hnow ⟨w.program.entities.size⟩).trans (if_pos rfl)
  refine ⟨⟨⟨⟨hworks, hworks.sound h (fun e he => ?_) ?_ (.inl hc), by rw [hat], by rw [hat]⟩, fun e he _ => hold e he,
    fun e he => ?_⟩, by rw [hat], hold⟩, hlast, hnew⟩
  · rw [hat, mem_append, mem_singleton] at he
    refine he.imp id ?_
    rintro rfl; exact ⟨hlast, congrArg (·.owner?) hnew⟩
  · rw [hat, nodup_append]
    refine ⟨h.members_nodup c, nodup_singleton _, ?_⟩
    rintro x hx y hy rfl
    rw [mem_singleton] at hy
    subst hy; exact lt_irrefl _ (h.member c _ hx).1
  · rw [World.HasEntity, Program.HasEntity, hsize] at he
    rcases Nat.lt_succ_iff_lt_or_eq.1 he with he | he
    · exact .inl he
    · obtain rfl : e = ⟨w.program.entities.size⟩ := EntityId.ext he; rw [hat]; exact .inr (by simp)

/-! ## Fields -/

lemma some_of_elim {o : Option ClassFile} {e : Error} (h : o.elim (.error e) Except.ok = .ok file) : o = some file := by
  cases o <;> cases h
  rfl

lemma fieldEntity_ok {info : ClassInfo} (h : fieldEntity info c f = .ok entity) :
    (∃ f, entity.field? = some f ∧ f.type.IsDescribed ∧ f.offset? = none) ∧ ∃ file, info.file? = some file ∧
      file.nameOf f = .ok entity.name ∧ Symbol.mangleMember info.name entity.name .field = .ok entity.symbol := by
  obtain ⟨file, hfile, h⟩ := except_bind_ok.1 h
  obtain ⟨name, hname, h⟩ := except_bind_ok.1 h
  obtain ⟨descriptor, -, h⟩ := except_bind_ok.1 h
  obtain ⟨type, htype, h⟩ := except_bind_ok.1 h
  obtain ⟨symbol, hsymbol, h⟩ := except_bind_ok.1 h
  have hdescribed : type.IsDescribed := (FieldType.ofChars_eq_ok_iff.1 htype).1
  cases hs : f.flags.isStatic <;> cases hx : info.isExtern <;> rw [hs] at h <;> cases h <;>
    exact ⟨⟨_, rfl, hdescribed, rfl⟩, file, some_of_elim hfile, hname, hsymbol⟩

lemma addFields_ends (fs : List Member) (hs : w.Sound) (hc : w.Protected c) (hfile : (w.classAt c).file? = some file) :
    Ends (addFields c fs w)
      (fun _ w' => ∃ new, Appends c new w w' ∧ Forall₂ (w'.FieldOf c file) fs new) (Works c w) := by
  induction fs generalizing w with
  | nil => exact ends_pure ⟨[], .nil hs, .nil⟩
  | cons f rest ih =>
    refine ends_pureStep_bind ?_ (.refl c w)
    intro entity hentity
    obtain ⟨⟨field, hfield, -⟩, file', hfile', hname, hsymbol⟩ := fieldEntity_ok hentity
    cases hfile.symm.trans hfile'
    have hg : entity.graph? = none := by simp [graph?, method?_of_field? hfield]
    obtain ⟨happ, hhas, hat⟩ := appends_addMember hs hc hg
    refine (ih happ.sound ((happ.works.protected_iff).2 hc) (by rwa [happ.works.file_eq])).imp ?_ ?_
    · rintro _ w' ⟨new, hnew, hfields⟩
      have hnow : w'.program.entityAt ⟨w.program.entities.size⟩ = { entity with owner? := some c } :=
        (hnew.entityAt _ hhas).trans hat
      refine ⟨_, happ.trans hnew, .cons ⟨?_, ?_, ?_, ?_⟩ hfields⟩
      · exact hnew.works.keeps.program.hasEntity hhas
      · rw [hnow]; exact isSome_of_eq_some hfield
      · rwa [hnow]
      · rwa [hnow, show (w'.classAt c).name = (w.classAt c).name from
          (congrArg (·.name) (happ.trans hnew).works.origin :)]
    · exact fun w' h => happ.works.trans h

/-! ## Methods -/

/-- A method as it is declared, before it is linked to interfaces. -/
lemma methodEntity_ok {p : Program} (h : methodEntity p c member = .ok entity) :
    ∃ m file, (p.classAt c).file? = some file ∧ entity.method? = some m ∧ m.slot? = none ∧ m.graph? = none ∧
      p.Declared c file member entity.name m ∧ MethodType.parse m.descriptor = .ok m.type ∧
      Symbol.mangleMember (p.classAt c).name entity.name (.method m.type m.isStatic) = .ok entity.symbol ∧
        entity.initializer? = none := by
  obtain ⟨file, hfile, h⟩ := except_bind_ok.1 h
  obtain ⟨name, hname, h⟩ := except_bind_ok.1 h
  obtain ⟨descriptor, hdescriptor, h⟩ := except_bind_ok.1 h
  obtain ⟨type, htype, h⟩ := except_bind_ok.1 h
  obtain ⟨symbol, hsymbol, h⟩ := except_bind_ok.1 h
  cases h
  have hover : (if member.flags.isStatic || member.flags.isPrivate || name.toList.head? = some '<' then []
      else (p.overridden? c name descriptor).toList) =
        (if member.flags.isStatic || member.flags.isPrivate || name.toList.head? = some '<' then none
          else p.overridden? c name descriptor).toList := by
    split <;> rfl
  have hempty : ∀ o? : Option EntityId, o?.toList.isEmpty = o?.isNone := by
    intro o?; cases o? <;> rfl
  refine ⟨_, file, some_of_elim hfile, rfl, rfl, rfl, ⟨hname, hdescriptor, rfl, rfl, rfl, rfl, ⟨[], ?_, by simp⟩, ?_,
    rfl⟩, htype, hsymbol, rfl⟩
  · rwa [append_nil]
  · rw [hover, hempty]; rfl

lemma addMethods_ends (ms : List Member) (hs : w.Sound) (hc : w.Protected c)
    (hstate : ¬ w.Finalized c) (hfile : (w.classAt c).file? = some file) :
    Ends (addMethods c ms w) (fun _ w' => ∃ new, Appends c new w w' ∧
        (w.program.Based c → Forall₂ (w'.program.IsDeclared c file) ms new) ∧
        Forall₂ (w'.MethodOf c file) ms new ∧
        ∀ e ∈ new, ∀ m, w'.program.declAt? e = some m → m.slot? = none) (Works c w) := by
  induction ms generalizing w with
  | nil => exact ends_pure ⟨[], .nil hs, fun _ => .nil, .nil, by simp⟩
  | cons member rest ih =>
    refine ends_pureStep_bind ?_ (.refl c w)
    intro entity hentity
    obtain ⟨m, file', hfile', hm, hslot, hgraph, hdecl, htype, hsymbol, hinit⟩ := methodEntity_ok hentity
    cases hfile.symm.trans hfile'
    have hg : entity.graph? = none := by simp [graph?, hm, hgraph]
    obtain ⟨happ, hhas, hat⟩ := appends_addMember hs hc hg
    refine (ih happ.sound ((happ.works.protected_iff).2 hc) (mt (happ.works.finalized_iff c).1 hstate)
      (by rwa [happ.works.file_eq])).imp ?_ ?_
    · rintro _ w' ⟨new, hnew, hrest, hmethods, hslots⟩
      have hnow : w'.program.entityAt ⟨w.program.entities.size⟩ = { entity with owner? := some c } :=
        (hnew.entityAt _ hhas).trans hat
      have hmethod : w'.program.methodAt? ⟨w.program.entities.size⟩ = some m := by
        rwa [methodAt?, hnow]
      have hdecl' : w'.program.declAt? ⟨w.program.entities.size⟩ = some m := by
        rw [declAt?, hmethod, map_some, Method.decl, ← hgraph]
      refine ⟨_, happ.trans hnew, fun hbased => ?_,
        .cons ⟨?_, ?_, ⟨m, hmethod, hdecl.descriptorOf, htype, hdecl.flags, ?_⟩, ?_⟩
        hmethods, forall_mem_cons.2 ⟨fun m' hm' => ?_, hslots⟩⟩
      · refine .cons ⟨m, hdecl', ?_⟩ (hrest (happ.based hstate hbased).1)
        rw [hnow]; exact ((happ.trans hnew).based hstate hbased).2.declared hdecl
      · exact hnew.works.keeps.program.hasEntity hhas
      · rw [hnow]; exact hdecl.nameOf
      · rwa [hnow, show (w'.classAt c).name = (w.classAt c).name from
          (congrArg (·.name) (happ.trans hnew).works.origin :)]
      · rwa [hnow]
      · rw [hdecl', Option.some.injEq] at hm'; rw [← hm', hslot]
    · exact fun w' h => happ.works.trans h

end JvmGraph
