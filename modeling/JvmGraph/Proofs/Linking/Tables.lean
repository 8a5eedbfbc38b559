import JvmGraph.Proofs.Linking.Interfaces

/-!
# Fields and dispatch table of a class

Laying out a class places its fields, gives slots to its methods and fills its dispatch table. Its methods
stay what they are apart from the slots, and all that the table says follows from what supertypes have.
-/

namespace JvmGraph

open Steps Load World List Program ClassInfo Entity VTable

variable {e trap : EntityId} {m : Method} {p : Program} {t : VTable} {entries : List Initializer}

namespace Program

variable {p' p'' : Program} {c : ClassId} {members : List EntityId}

/-- Some of `members` were changed, and stayed what they are. -/
structure Reworks (members : List EntityId) (p p' : Program) : Prop where
  becomes : Becomes p p'
  classes : p'.classes = p.classes
  size : p'.entities.size = p.entities.size
  other : ∀ e, e ∉ members → p'.entityAt e = p.entityAt e
  face : ∀ e, (p'.entityAt e).face = (p.entityAt e).face
  graph : ∀ e, p'.graphAt? e = p.graphAt? e
  data : ∀ e, (p.entityAt e).kind = .data → p'.entityAt e = p.entityAt e

namespace Reworks

lemma refl (members : List EntityId) (p : Program) : Reworks members p p :=
  ⟨.refl, rfl, rfl, fun _ _ => rfl, fun _ => rfl, fun _ => rfl, fun _ _ => rfl⟩

variable (h : Reworks members p p')

include h

lemma trans (h' : Reworks members p' p'') : Reworks members p p'' where
  becomes := h.becomes.trans h'.becomes
  classes := h'.classes.trans h.classes
  size := h'.size.trans h.size
  other := fun e he => (h'.other e he).trans (h.other e he)
  face := fun e => (h'.face e).trans (h.face e)
  graph := fun e => (h'.graph e).trans (h.graph e)
  data := fun e he => (h'.data e (by rwa [h.data e he])).trans (h.data e he)

lemma classAt (d : ClassId) : p'.classAt d = p.classAt d := by
  rw [Program.classAt, Program.classAt, h.classes]

lemma enlarges : Enlarges p p' := .of_entities h.classes h.size h.face h.graph

lemma hasEntity : p'.HasEntity e ↔ p.HasEntity e := by
  rw [HasEntity, HasEntity, h.size]

lemma keeps (hm : ∀ e ∈ members, (p.entityAt e).owner? = some c) : Keeps (· ≠ c) p p' where
  toContinues := h.enlarges.toContinues
  becomes := h.becomes
  kept := fun d _ _ => by rw [h.classAt]
  owned := fun e _ ho => by
    rw [h.other e]
    intro he; exact ho c (hm e he) rfl

end Reworks

/-! ## Fields -/

lemma reworks_modifyField (he : e ∈ members) (place? : Option Nat) :
    Reworks members p (p.modifyField e fun d => { d with offset? := place? }) ∧
      ∀ x, (p.modifyField e fun d => { d with offset? := place? }).methodAt? x = p.methodAt? x := by
  have hat : ∀ x, (p.modifyField e fun d => { d with offset? := place? }).entityAt x = p.entityAt x ∨
      ∃ d, (p.entityAt x).kind = .field d ∧ (p.modifyField e fun d => { d with offset? := place? }).entityAt x =
        { p.entityAt x with kind := .field { d with offset? := place? } } := by
    intro x
    rw [modifyField, entityAt_modifyEntity]
    split
    · rename_i h
      obtain ⟨rfl, -⟩ := h
      split
      · rename_i d hd; exact .inr ⟨d, hd, rfl⟩
      · exact .inl rfl
    · exact .inl rfl
  have hmethod := fun x => methodAt?_modifyField p e x fun d => { d with offset? := place? }
  refine ⟨⟨.single (.place p e _), rfl, by simp, ?_, ?_, ?_, ?_⟩, hmethod⟩
  · intro x hx; exact entityAt_modifyField_ne p e x fun h => hx (h ▸ he)
  · intro x
    rcases hat x with h | ⟨d, hd, h⟩
    · rw [h]
    · rw [h]; simp [face, EntityKind.face, hd]
  · exact fun x => congrArg (·.bind Method.graph?) (hmethod x)
  · intro x hx
    rcases hat x with h | ⟨d, hd, -⟩
    · exact h
    · simp [hx] at hd

lemma placeFields_reworks (members rest : List EntityId) (hrest : ∀ e ∈ rest, e ∈ members) (p : Program)
    (offset : Nat) :
    Reworks members p (p.placeFields offset rest).2 ∧
      ∀ x, (p.placeFields offset rest).2.methodAt? x = p.methodAt? x := by
  induction rest generalizing p offset with
  | nil => exact ⟨.refl members p, fun _ => rfl⟩
  | cons e rest ih =>
    have hrest' : ∀ x ∈ rest, x ∈ members := fun x hx => hrest x (by simp [hx])
    rw [placeFields]
    cases hf : p.fieldAt? e with
    | none => exact ih hrest' p offset
    | some f =>
      simp only []
      split
      · exact ih hrest' p offset
      · obtain ⟨h1, h2⟩ := reworks_modifyField (p := p) (hrest e (by simp)) (some (align offset f.type.mode.size))
        obtain ⟨h3, h4⟩ := ih hrest' (p.modifyField e fun d =>
          { d with offset? := some (align offset f.type.mode.size) })
          (align offset f.type.mode.size + f.type.mode.size)
        exact ⟨h1.trans h3, fun x => (h4 x).trans (h2 x)⟩

lemma placeFields_placed (hnodup : members.Nodup)
    (hfree : ∀ e ∈ members, ∀ f, p.fieldAt? e = some f → f.type.IsDescribed ∧ f.offset? = none) (offset : Nat) :
    (p.placeFields offset members).2.Placed offset members (p.placeFields offset members).1 := by
  induction members generalizing p offset with
  | nil => exact .nil offset
  | cons e rest ih =>
    obtain ⟨hfirst, hrest⟩ := forall_mem_cons.1 hfree
    obtain ⟨hnot, hnodup⟩ := nodup_cons.1 hnodup
    -- later fields are placed without touching this one
    have hkept : ∀ (q : Program) (next : Nat), (q.placeFields next rest).2.fieldAt? e = q.fieldAt? e := fun q next =>
      congrArg (·.field?) ((placeFields_reworks rest rest (fun _ h => h) q next).1.other e hnot)
    rw [placeFields]
    cases hf : p.fieldAt? e with
    | none => exact .other ((hkept p offset).trans hf) (ih hnodup hrest offset)
    | some f =>
      obtain ⟨hdescribed, hnone⟩ := hfirst f hf
      simp only []
      split
      · rename_i hs; exact .static ((hkept p offset).trans hf) hs hnone (ih hnodup hrest offset)
      · rename_i hs
        have hat := fun x => p.fieldAt?_modifyField x
          (fun f' => { f' with offset? := some (align offset f.type.mode.size) }) hf
        have hs : f.isStatic = false := by simpa using hs
        refine .inObject (f := { f with offset? := some (align offset f.type.mode.size) }) ?_ hs hdescribed.size_pos rfl
          (ih hnodup (fun x hx g hg => ?_) _)
        · rw [hkept, hat, if_pos rfl]
        · have hxe : x ≠ e := fun hxe => hnot (hxe ▸ hx)
          rw [hat, if_neg hxe] at hg; exact hrest x hx g hg

lemma layoutFields_eq (p : Program) (c : ClassId) :
    p.layoutFields c = (p.placeFields (p.fieldStart c) (p.classAt c).members).2.modifyClass c fun info =>
      { info with size := align (p.placeFields (p.fieldStart c) (p.classAt c).members).1 Abi.pointerSize } := rfl

/-! ## Dispatch tables -/

lemma enter_reworks (trap : EntityId) (t : VTable) (hnodup : members.Nodup)
    (hfree : ∀ e ∈ members, ∀ m, p.methodAt? e = some m → m.excluded = false → m.slot? = none) :
    Reworks members p (enter trap p t members).2 := by
  obtain ⟨h1, h2, h3, h4⟩ := enter_frame trap members p t
  refine ⟨enter_becomes trap members p t hnodup hfree, h1, h2, h4, ?_, ?_, ?_⟩
  · intro e
    rcases h3 e with h | ⟨m, slot, hk, -, h⟩
    · rw [h]
    · rw [h]; simp [face, EntityKind.face, Method.face, hk]
  · intro e
    rcases h3 e with h | ⟨m, slot, hk, -, h⟩
    · simp [graphAt?, h]
    · rw [graphAt?, h, graphAt?]; simp [graph?, method?, hk]
  · intro e he
    rcases h3 e with h | ⟨m, slot, hk, -, -⟩
    · exact h
    · simp [he] at hk

structure Slots (p p' : Program) (c : ClassId) : Prop where
  members : (p'.classAt c).members = (p.classAt c).members
  name : ∀ e, (p'.entityAt e).name = (p.entityAt e).name
  decl : ∀ e, p'.declAt? e = p.declAt? e ∨ ∃ m slot, p.declAt? e = some m ∧ m.excluded = false ∧
    p'.declAt? e = some { m with slot? := some slot }

lemma Slots.isInstanceMethod (h : Slots p p' c) (e : EntityId) (name descriptor : String) :
    isInstanceMethod name descriptor (p'.entityAt e) = isInstanceMethod name descriptor (p.entityAt e) := by
  rw [Bool.eq_iff_iff, isInstanceMethod_iff, isInstanceMethod_iff, h.name]
  rcases h.decl e with hd | ⟨m, slot, hm, -, hd⟩
  · rw [hd]
  · rw [hd, hm]; simp [Method.isStatic]

/-- Giving out slots changes nothing about where members come from. -/
lemma Parts.slots {file : ClassFile} {fields declared standIns : List EntityId}
    (hp : p.Parts c file fields declared standIns) (hsame : SameAbove p p' c) (hs : Slots p p' c)
    (hint : (p.classAt c).isInterface = false) : p'.Parts c file fields declared standIns := by
  refine ⟨hs.members.trans hp.members, ?_, ?_, ?_, ?_, fun hi => hp.plain (hsame.isInterface ▸ hi), ?_⟩
  · intro e he
    rcases hs.decl e with hd | ⟨m, slot, hm, -, -⟩
    · rw [hd]; exact hp.isField e he
    · simp [hp.isField e he] at hm
  · refine hp.isDeclared.imp ?_
    rintro member e ⟨m, hm, hd⟩
    have hd' := hsame.declared hd
    rcases hs.decl e with he | ⟨m', slot, hm', -, he⟩
    · exact ⟨m, he.trans hm, by rwa [hs.name]⟩
    · rw [hm, Option.some.injEq] at hm'
      subst hm'
      refine ⟨_, he, ?_⟩
      rw [hs.name]
      exact ⟨hd'.nameOf, hd'.descriptorOf, hd'.flags, hd'.isAbstract, hd'.isFinal, hd'.implementation,
        hd'.overwrites, hd'.excluded, hd'.binding⟩
  · intro e he
    obtain ⟨m, hm, hd⟩ := hp.isStandIn e he
    rcases hs.decl e with hde | ⟨m', slot, hm', hex, hde⟩
    · refine ⟨m, hde.trans hm, ?_⟩
      rw [hs.name]
      rcases hd with ⟨o, r, mr, hi⟩ | hv
      · exact .inl ⟨o, r, mr, hsame.inherits hi⟩
      · exact .inr (hsame.vacant hv)
    · rw [hm, Option.some.injEq] at hm'
      subst hm'
      refine ⟨_, hde, ?_⟩
      rw [hs.name]
      rcases hd with ⟨o, r, mr, hi⟩ | hv
      · simp [hi.excluded] at hex
      · have hv' := hsame.vacant hv
        exact .inr ⟨hv'.overridden, hv'.overwrites, hv'.implementation, hv'.isStatic, hv'.isAbstract,
          hv'.excluded, hv'.binding⟩
  · intro name descriptor e he e' he'
    rw [hs.isInstanceMethod, hs.isInstanceMethod]
    exact hp.sole name descriptor e (hs.members ▸ he) e' he'
  · intro e he m hm himp hex
    rw [hsame.isInterface, hint] at hex
    rcases hs.decl e with hd | ⟨m', slot, hm', hex', hd⟩
    · exact hp.unslotted e (hs.members ▸ he) m (hd ▸ hm) himp (.inl (by simpa using hex))
    · rw [hd, Option.some.injEq] at hm; subst hm; simp [hex'] at hex

lemma close_ok {classObject? : Option EntityId} (h : t.close classObject? = .ok entries) : entries.length = t.size ∧
      ∀ j, Abi.headerSlots ≤ j → entries[j]? = t.full[j]? := by
  have hlen := t.length_full
  unfold close at h
  unfold full at hlen ⊢
  split at h
  · rename_i a b methods heq
    cases h
    rw [heq] at hlen ⊢
    refine ⟨by simpa using hlen, ?_⟩
    intro j hj
    obtain ⟨i, rfl⟩ : ∃ i, j = i + 2 := ⟨j - 2, by simp only [Abi.headerSlots] at hj; omega⟩; rfl
  · cases h

lemma layoutVTable_ok (h : p.layoutVTable c trap = .ok p') :
    (p' = p ∧ ((p.classAt c).isInterface = true ∨ (p.classAt c).vtable? = none)) ∨
      ∃ v entries, (p.classAt c).isInterface = false ∧ (p.classAt c).vtable? = some v ∧
        (enter trap p (.inherited p c) (p.classAt c).members).1.close (p.classAt c).classObject? = .ok entries ∧
        p' = ((enter trap p (.inherited p c) (p.classAt c).members).2.modifyEntity v fun e =>
          { e with initializer? := some (.compound entries) }).modifyClass c fun info =>
            { info with vtableSize := (enter trap p (.inherited p c) (p.classAt c).members).1.size } := by
  unfold layoutVTable at h
  cases hint : (p.classAt c).isInterface with
  | true =>
    simp only [hint] at h
    cases h
    exact .inl ⟨rfl, .inl rfl⟩
  | false =>
    cases hv : (p.classAt c).vtable? with
    | none =>
      simp only [hint, hv] at h
      cases h
      exact .inl ⟨rfl, .inr rfl⟩
    | some v =>
      simp only [hint, hv] at h
      obtain ⟨entries, hclose, h⟩ := except_bind_ok.1 h
      cases h
      exact .inr ⟨v, entries, rfl, rfl, hclose, rfl⟩

lemma Enters.methodAt? (h : p.Enters c e m) : ∃ m', p.methodAt? e = some m' ∧ m = m'.decl ∧ m'.excluded = false := by
  obtain ⟨-, hm, hex⟩ := h
  obtain ⟨m', hm', rfl⟩ := Option.map_eq_some_iff.1 hm
  exact ⟨m', hm', rfl, hex⟩

lemma enters_of_methodAt? (he : e ∈ (p.classAt c).members) (hm : p.methodAt? e = some m) (hex : m.excluded = false) :
    p.Enters c e m.decl :=
  ⟨he, declAt?_of_methodAt? hm, hex⟩

lemma Based.not_member (hb : p.Based c) (hstate : ¬ p.Finalized c)
    (howned : ∀ e ∈ (p.classAt c).members, (p.entityAt e).owner? = some c) {o : EntityId}
    (ho : p.InheritedMember c o ∨ p.InterfaceMember c o) : o ∉ (p.classAt c).members := by
  intro hmem
  have hown := howned o hmem
  -- `o` is owned by a settled class
  have hset : ∃ a, p.Settled a ∧ o ∈ (p.classAt a).members := by
    rcases ho with ⟨s, hs, a, ha, ho⟩ | ⟨i, hi, ho⟩
    · exact ⟨a, (hb.super s hs).ancestor ha, ho⟩
    · exact ⟨i, hb.interfaceOf hi, ho⟩
  obtain ⟨a, ha, ho⟩ := hset
  rw [(ha.linked.owned o ho).2, Option.some.injEq] at hown
  subst hown
  exact hstate ha.linked.finalized

lemma slots_of_enter (p p' : Program) (c : ClassId) (trap : EntityId) (t : VTable)
    (hclass : (p'.classAt c).members = (p.classAt c).members)
    (hname : ∀ e, (p'.entityAt e).name = (p.entityAt e).name)
    (hmethod : ∀ e, p'.methodAt? e = (enter trap p t (p.classAt c).members).2.methodAt? e) :
    Slots p p' c where
  members := hclass
  name := hname
  decl := fun e => by
    rw [declAt?, hmethod]
    rcases methodAt?_of_slotted ((enter_frame trap (p.classAt c).members p t).2.2.1 e) with
      h | ⟨m, slot, hm, hex, h⟩
    · exact .inl (by rw [h, declAt?])
    · exact .inr ⟨m.decl, slot, declAt?_of_methodAt? hm, hex, by rw [h]; rfl⟩

section Slots

variable {file : ClassFile} {fields declared standIns : List EntityId}
  (hp : p.Parts c file fields declared standIns) (hsame : SameAbove p p' c) (hslots : Slots p p' c)

include hp hsame hslots

lemma Slots.enters_before (he : p'.Enters c e m) : ∃ m', p.methodAt? e = some m' ∧
    m'.excluded = false ∧ e ∈ (p.classAt c).members ∧ m.slot? = p'.slotAt? e ∧ m.isAbstract = m'.isAbstract ∧
      inheritedSlot? p' m = inheritedSlot? p m' := by
  have hslot : p'.slotAt? e = m.slot? := by simp [slotAt?_eq, he.2.1]
  have hmem : e ∈ (p.classAt c).members := hslots.members ▸ he.1
  rcases hslots.decl e with hd | ⟨m', slot, hm', hex, hd⟩
  · have he' : p.Enters c e m := ⟨hmem, hd ▸ he.2.1, he.2.2⟩
    obtain ⟨m', hm', rfl, hex⟩ := he'.methodAt?
    exact ⟨m', hm', hex, hmem, hslot.symm, rfl, hsame.inheritedSlot?_eq hp he'⟩
  · have he' : p.Enters c e m' := ⟨hmem, hm', hex⟩
    obtain ⟨m'', hm'', rfl, hex''⟩ := he'.methodAt?
    have hmd : m = { m''.decl with slot? := some slot } := by
      have h1 := he.2.1
      rw [hd, Option.some.injEq] at h1; exact h1.symm
    have hinh := hsame.inheritedSlot?_eq hp he'
    exact ⟨m'', hm'', hex'', hmem, hslot.symm, by rw [hmd]; rfl, by rwa [hmd]⟩

lemma Slots.enters_after (he : e ∈ (p.classAt c).members) (hm : p.methodAt? e = some m) (hex : m.excluded = false) :
    ∃ m', p'.Enters c e m' ∧
      m'.isAbstract = m.isAbstract ∧ inheritedSlot? p' m' = inheritedSlot? p m := by
  have hinh := hsame.inheritedSlot?_eq hp (enters_of_methodAt? he hm hex)
  rcases hslots.decl e with hd | ⟨m', slot, hm', -, hd⟩
  · exact ⟨m.decl, ⟨hslots.members ▸ he, hd.trans (declAt?_of_methodAt? hm), hex⟩, rfl, hinh⟩
  · rw [declAt?_of_methodAt? hm, Option.some.injEq] at hm'
    subst hm'; exact ⟨_, ⟨hslots.members ▸ he, hd, hex⟩, rfl, hinh⟩

lemma laid_of_entered (hsize : (p'.classAt c).vtableSize = t.size)
    (hlength : entries.length = t.size) (hentries : ∀ j, Abi.headerSlots ≤ j → entries[j]? = t.full[j]?)
    (h : VTable.Entered trap p (.inherited p c) (p.classAt c).members p' t) : p'.Laid c trap entries := by
  refine ⟨?_, hlength.trans hsize.symm, ?_, ?_, ?_⟩
  · rw [hsame.table, hsize]; exact h.size_le
  · intro e m he
    obtain ⟨m', hm', hex, hmem, hslot, -, hinh⟩ := hslots.enters_before hp hsame he
    obtain ⟨slot, h1, h2, h3, h4⟩ := h.slot e hmem m' hm' hex
    rw [hinh, hsize, hsame.table]; exact ⟨slot, hslot.trans h1, h2, h3, h4⟩
  · intro e e' m m' he he' hn hn' hmm
    obtain ⟨x, hx, hex, hmem, hslot, -, hinh⟩ := hslots.enters_before hp hsame he
    obtain ⟨x', hx', hex', hmem', hslot', -, hinh'⟩ := hslots.enters_before hp hsame he'
    rw [hinh] at hn
    rw [hinh'] at hn'
    exact h.fresh e hmem e' hmem' x x' hx hx' hex hex' hn hn' (hslot.symm.trans (hmm.trans hslot'))
  · intro j hj
    rw [hentries j hj]
    rcases h.entry j with ⟨e, hmem, m', hm', hex, hslot, hentry⟩ | ⟨hno, hentry⟩
    · obtain ⟨m, he, habs, -⟩ := hslots.enters_after hp hsame hmem hm' hex
      refine .inl ⟨e, m, he, ?_, ?_⟩
      · simp [← hslot, slotAt?_eq, he.2.1]
      · rw [hentry, codeOrTrap, habs]
    · refine .inr ⟨?_, by rw [hentry, hsame.table]⟩
      intro e m he hm
      obtain ⟨m', hm', hex, hmem, hslot, -⟩ := hslots.enters_before hp hsame he
      exact hno e hmem m' hm' hex (hslot.symm.trans hm)

end Slots

end Program

/-! ## Steps -/

variable {w w' w'' : World} {c : ClassId}

lemma works_reworks {members : List EntityId} (hr : w.program.Reworks members p)
    (hm : ∀ e ∈ members, (w.program.entityAt e).owner? = some c) : Works c w (w.modifyProgram fun _ => p) :=
  works_modifyProgram (hr.keeps hm) hr.enlarges.toIdle (congrArg (·.size) hr.classes) (congrArg origin (hr.classAt c))

/-- What work on `c` does that leaves its supertypes and members in place. -/
structure World.Fits (c : ClassId) (w w' : World) : Prop extends Tends c w w' where
  members : (w'.classAt c).members = (w.classAt c).members

lemma World.Fits.trans (h : Fits c w w') (h' : Fits c w' w'') : Fits c w w'' :=
  ⟨h.toTends.trans h'.toTends, h'.members.trans h.members⟩

lemma layoutFields_fits (hs : w.Sound) (hc : w.Protected c) : Fits c w (w.modifyProgram fun p => p.layoutFields c) ∧
      (∀ e, Program.SameMethod w.program (w.modifyProgram fun p => p.layoutFields c).program e) ∧
      (w.program.layoutFields c).entities.size = w.program.entities.size ∧
      ∀ e, (w.program.entityAt e).kind = .data → (w.program.layoutFields c).entityAt e = w.program.entityAt e := by
  have howner : ∀ e ∈ (w.classAt c).members, (w.program.entityAt e).owner? = some c :=
    fun e he => (hs.member c e he).2
  obtain ⟨hr, hm⟩ := placeFields_reworks (w.program.classAt c).members (w.program.classAt c).members
    (fun _ h => h) w.program (w.program.fieldStart c)
  have heq := layoutFields_eq w.program c
  generalize w.program.placeFields (w.program.fieldStart c) (w.program.classAt c).members = q at hr hm heq
  have hworld : (w.modifyProgram fun p => p.layoutFields c) = (w.modifyProgram fun _ => q.2).modifyClass c fun info =>
      { info with size := align q.1 Abi.pointerSize } := congrArg (fun p => w.modifyProgram fun _ => p) heq
  rw [hworld]
  have hworks := works_reworks hr howner
  have hat : (w.modifyProgram fun _ => q.2).classAt c = w.classAt c := hr.classAt c
  have hinfo : ((w.modifyProgram fun _ => q.2).modifyClass c fun info =>
      { info with size := align q.1 Abi.pointerSize }).classAt c =
        { w.classAt c with size := align q.1 Abi.pointerSize } := by
    rw [← hat]
    exact classAt_modifyClass_self (f := fun info => { info with size := align q.1 Abi.pointerSize }) q.2 c
      (hworks.keeps.program.hasClass (hs.hasClass hc))
  have hmod := works_modifyClass c (w.modifyProgram fun _ => q.2)
    (f := fun info => { info with size := align q.1 Abi.pointerSize }) rfl rfl prefix_rfl
  have hwhole := hworks.trans hmod
  refine ⟨⟨⟨hwhole, hwhole.sound_of_members hs (by rw [hinfo]) (.inl hc), by rw [hinfo], by rw [hinfo]⟩, by rw [hinfo]⟩,
    fun e => ⟨congrArg (Option.map Method.decl) (hm e), name_of_face (hr.face e)⟩,
    by rw [heq]; exact hr.size, fun e he => by rw [heq]; exact hr.data e he⟩

lemma layoutVTable_fits (hs : w.Sound) (hc : w.Protected c) (hstate : ¬ w.Finalized c)
    (hfree : ∀ e ∈ (w.classAt c).members, ∀ m, w.program.declAt? e = some m → m.excluded = false → m.slot? = none)
    (h : w.program.layoutVTable c trap = .ok p) :
    Fits c w (w.modifyProgram fun _ => p) ∧
      (∀ file, (w.classAt c).file? = some file → w.program.Based c → ∀ fields declared standIns,
        w.program.Parts c file fields declared standIns →
          p.Parts c file fields declared standIns ∧ p.Tabled c trap) := by
  rcases layoutVTable_ok h with ⟨rfl, hnone⟩ | ⟨v, entries, hint, hv, hclose, hp'⟩
  · refine ⟨⟨.refl hs, rfl⟩, ?_⟩
    intro file hfile _ fields declared standIns hp
    refine ⟨hp, fun hint => ?_⟩
    rcases hnone with hnone | hnone
    · simp [hint] at hnone
    · have := ((hs.loaded c file hfile).2.1).2 hint
      simp [show (w.classAt c).vtable? = none from hnone] at this
  · have hreworks : w.program.Reworks (w.program.classAt c).members
        (enter trap w.program (.inherited w.program c) (w.program.classAt c).members).2 := by
      apply enter_reworks _ _ (hs.members_nodup c)
      intro e he m hm hex; exact hfree e he m.decl (declAt?_of_methodAt? hm) hex
    have hentered := enter_spec trap (w.program.classAt c).members w.program (.inherited w.program c)
      (hs.members_nodup c)
    have hslotted := slots_of_enter w.program p c trap (.inherited w.program c)
    generalize enter trap w.program (.inherited w.program c) (w.program.classAt c).members = q
      at hclose hp' hreworks hentered hslotted
    obtain ⟨t, q⟩ := q
    have howner : ∀ e ∈ (w.classAt c).members, (w.program.entityAt e).owner? = some c :=
      fun e he => (hs.member c e he).2
    obtain ⟨hvhas, hvowner, hvdata, -⟩ := hs.vtable c v hv
    rw [← hreworks.data v hvdata] at hvowner hvdata
    -- the methods, the contents of the table, its size
    have hworks1 := works_reworks hreworks howner
    have hworks2 := hworks1.trans (works_modifyEntity (.dress q v
      (fun e => { e with initializer? := some (.compound entries) }) (fun _ => rfl) fun _ => rfl)
      (.fillTable hvdata (.compound entries)) hvowner)
    have hworks3 := hworks2.trans (works_modifyClass c _ (f := fun info => { info with vtableSize := t.size }) rfl rfl
      prefix_rfl)
    have hinfo : p.classAt c = { w.classAt c with vtableSize := t.size } := by
      have hq : q.classAt c = w.classAt c := hreworks.classAt c
      rw [hp', ← hq]
      exact classAt_modifyClass_self (f := fun info => { info with vtableSize := t.size }) _ c
        (hworks2.keeps.program.hasClass (hs.hasClass hc))
    have hat : ∀ e, p.entityAt e = (q.modifyEntity v fun e =>
        { e with initializer? := some (.compound entries) }).entityAt e := fun e => by simp [hp']
    have hmethod : ∀ e, p.methodAt? e = q.methodAt? e := by
      intro e
      rw [methodAt?, hat]; exact methodAt?_modifyEntity_of_kind q v e rfl
    have hname : ∀ e, (p.entityAt e).name = (w.program.entityAt e).name := by
      intro e
      rw [hat, entityAt_modifyEntity, ← name_of_face (hreworks.face e)]
      split
      · rename_i hv; rw [hv.1]
      · rfl
    have hwhole : Works c w (w.modifyProgram fun _ => p) := by rwa [hp']
    have hfits : Fits c w (w.modifyProgram fun _ => p) :=
      ⟨⟨hwhole, hwhole.sound_of_members hs (congrArg members hinfo :) (.inl hc), (congrArg superclass? hinfo :),
        (congrArg interfaces hinfo :)⟩, (congrArg members hinfo :)⟩
    refine ⟨hfits, ?_⟩
    intro file hfile hbased fields declared standIns hp
    have hsame : Program.SameAbove w.program p c := (hfits.based hstate hbased).2
    have hslots := hslotted hfits.members hname hmethod
    obtain ⟨hlength, hentries⟩ := close_ok hclose
    refine ⟨hp.slots hsame hslots hint, fun _ => ⟨v, entries, ?_, ?_, ?_⟩⟩
    · rwa [hinfo]
    · rw [hat, entityAt_modifyEntity, if_pos ⟨rfl, hreworks.hasEntity.2 hvhas⟩]
    · rintro ⟨hlen, hsmall⟩
      rw [hsame.table] at hlen hsmall
      refine laid_of_entered hp hsame hslots (by rw [hinfo]) hlength hentries ?_
      refine (hentered ?_ hlen ?_).congr hmethod
      · intro e he m hm hex o ho
        have henters := enters_of_methodAt? he hm hex
        exact hbased.not_member hstate howner (hp.overwrites_above henters ho)
      · intro e he m hm hex s hinh
        obtain ⟨m', he', -, hinh'⟩ := hslots.enters_after hp hsame he hm hex
        exact hsmall e m' he' s (hinh'.trans hinh)

end JvmGraph
