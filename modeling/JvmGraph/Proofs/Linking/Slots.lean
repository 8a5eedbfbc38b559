import JvmGraph.Proofs.Linking.Stable

/-!
# Slots along a superclass chain

A class takes over the slots of its superclass and gives out new ones behind them. Down a chain of classes
that are no interfaces, tables therefore only grow, no place behind the header stays empty, and a slot stands
for one name and descriptor.
-/

namespace JvmGraph.Program

open List Option VTable

variable {j : Nat} {ranks : List Nat} {b : ClassId} {o : EntityId}

variable {p : Program} {c s a : ClassId} {e e' : EntityId} {m m' : Method}

def tableOf (p : Program) (c : ClassId) : List Initializer :=
  match (p.classAt c).vtable?.bind fun v => (p.entityAt v).initializer? with
  | some (.compound entries) => entries
  | _ => []

def inheritedSize (p : Program) (c : ClassId) : Nat :=
  (p.classAt c).superclass?.elim Abi.headerSlots fun s => (p.classAt s).vtableSize

lemma inherited_eq (p : Program) (c : ClassId) :
    inherited p c = ⟨p.inheritedSize c, (p.classAt c).superclass?.elim [] p.tableOf⟩ := by
  unfold inherited inheritedSize
  cases (p.classAt c).superclass? <;> rfl

@[simp] lemma inherited_size (p : Program) (c : ClassId) : (inherited p c).size = p.inheritedSize c := by
  rw [inherited_eq]

lemma inheritedSize_root (hs : (p.classAt c).superclass? = none) : p.inheritedSize c = Abi.headerSlots := by
  simp [inheritedSize, hs]

lemma inheritedSize_sub (hs : (p.classAt c).superclass? = some s) : p.inheritedSize c = (p.classAt s).vtableSize := by
  simp [inheritedSize, hs]

/-- A class whose supertypes form no circle, with classes above it and interfaces beside. -/
structure Regular (p : Program) (c : ClassId) : Prop where
  grounded : p.Grounded c
  classes : ∀ a ∈ p.ancestry c, (p.classAt a).isInterface = false
  interfaces : ∀ a ∈ p.ancestry c, ∀ i, p.InterfaceOf a i → (p.classAt i).isInterface = true

structure Orderly (p : Program) (c : ClassId) : Prop where
  settled : p.Settled c
  classes : ∀ a ∈ p.ancestry c, (p.classAt a).isInterface = false
  interfaces : ∀ a ∈ p.ancestry c, ∀ i, p.InterfaceOf a i → (p.classAt i).isInterface = true

def MethodAbove (p : Program) (c : ClassId) (e : EntityId) (m : Method) : Prop :=
  ∃ a ∈ p.ancestry c, e ∈ (p.classAt a).members ∧ p.declAt? e = some m

def Fresh (p : Program) (m : Method) : Prop := ∀ o ∈ m.overwrites, p.slotAt? o = none

lemma inheritedSlot?_eq_none : inheritedSlot? p m = none ↔ p.Fresh m :=
  findSome?_eq_none_iff

lemma exists_of_inheritedSlot? (h : inheritedSlot? p m = some j) : ∃ o ∈ m.overwrites, p.slotAt? o = some j :=
  exists_of_findSome?_eq_some h

lemma MethodAbove.self (h : p.Settled c) (he : e ∈ (p.classAt c).members) (hm : p.declAt? e = some m) :
    p.MethodAbove c e m := ⟨c, h.self_mem, he, hm⟩

lemma Settled.methodAbove_iff (h : p.Settled c) : p.MethodAbove c e m ↔
    (e ∈ (p.classAt c).members ∧ p.declAt? e = some m) ∨
      ∃ s, (p.classAt c).superclass? = some s ∧ p.MethodAbove s e m := by
  cases hs : (p.classAt c).superclass? with
  | none => simp [MethodAbove, h.ancestry_root hs]
  | some s => simp [MethodAbove, h.ancestry_sub hs]

lemma methodAbove_of_inherited (hs : (p.classAt c).superclass? = some s)
    (he : p.InheritedMember c e) (hm : p.declAt? e = some m) : p.MethodAbove s e m := by
  obtain ⟨s', hs', a, ha, hea⟩ := he
  rw [hs, some.injEq] at hs'
  subst hs'
  exact ⟨a, ha, hea, hm⟩

lemma methodAbove_of_overridden {name descriptor : String} (h : p.overridden? c name descriptor = some o) :
    ∃ s m, (p.classAt c).superclass? = some s ∧ p.MethodAbove s o m ∧ (p.entityAt o).name = name ∧
      m.descriptor = descriptor ∧ m.isStatic = false ∧ m.flags.isPrivate = false := by
  obtain ⟨⟨s, hs, a, ha, hoa⟩, hacc⟩ := overridden?_some h
  obtain ⟨hname, m, hm, hrest⟩ := isOverridable_iff.1 hacc
  exact ⟨s, m, hs, ⟨a, ha, hoa, hm⟩, hname, hrest⟩

def SlotAbove (p : Program) (c : ClassId) (e : EntityId) (m : Method) (j : Nat) : Prop :=
  ∃ s o mo, (p.classAt c).superclass? = some s ∧ p.MethodAbove s o mo ∧ mo.slot? = some j ∧
    (p.entityAt o).name = (p.entityAt e).name ∧ mo.descriptor = m.descriptor

namespace Orderly

lemma super (h : p.Orderly c) (hs : (p.classAt c).superclass? = some s) : p.Orderly s where
  settled := h.settled.super hs
  classes := fun a ha => h.classes a (by simp [h.settled.ancestry_sub hs, ha])
  interfaces := fun a ha => h.interfaces a (by simp [h.settled.ancestry_sub hs, ha])

lemma isInterface (h : p.Orderly c) : (p.classAt c).isInterface = false := h.classes c h.settled.self_mem

lemma slotAt?_interface (h : p.Orderly c) (he : p.InterfaceMember c e) : p.slotAt? e = none := by
  obtain ⟨i, hi, hei⟩ := he
  have hiface := h.interfaces c h.settled.self_mem i hi
  obtain ⟨file, fields, declared, standIns, -, hp⟩ := (h.settled.interfaceOf hi).linked.parts
  rw [slotAt?_eq]
  cases hm : p.declAt? e with
  | none => rfl
  | some m =>
    rcases hp.origin hei hm with ⟨-, member, -, hd⟩ | ⟨hstand, -⟩
    · exact hp.unslotted e hei m hm hd.implementation (.inr hiface)
    · simp [hp.plain hiface] at hstand

lemma overridden_of_slot (h : p.Orderly c) (he : p.Enters c e m) (ho : o ∈ m.overwrites) (hj : p.slotAt? o = some j) :
    p.overridden? c (p.entityAt e).name m.descriptor = some o ∧ inheritedSlot? p m = some j := by
  obtain ⟨file, fields, declared, standIns, -, hp⟩ := h.settled.linked.parts
  have hinter : ¬ p.InterfaceMember c o := by intro hx; simp [h.slotAt?_interface hx] at hj
  rcases hp.origin he.1 he.2.1 with ⟨-, member, -, hd⟩ | ⟨-, ⟨o', r, mr, hi⟩ | hv⟩
  · obtain ⟨ims, h1, h2⟩ := hd.overwrites
    have hover : p.overrides? c (p.entityAt e).name m = some o := by
      rw [h1, mem_append, mem_toList] at ho
      exact ho.resolve_right fun hx => hinter (h2 o hx)
    rw [hover] at h1
    constructor
    · rw [overrides?] at hover
      split at hover
      · cases hover
      · exact hover
    · have hfirst : (p.methodAt? o).bind Method.slot? = some j := hj
      simp [inheritedSlot?, h1, hfirst]
  · have := he.2.2; simp [hi.excluded] at this
  · exact absurd (hv.overwrites o ho) hinter

lemma inheritedSlot? (h : p.Orderly c) (he : p.Enters c e m) (hj : inheritedSlot? p m = some j) :
    p.SlotAbove c e m j := by
  obtain ⟨o, ho, hslot⟩ := exists_of_inheritedSlot? hj
  obtain ⟨s, mo, hs, habove, hname, hdesc, -⟩ := methodAbove_of_overridden (h.overridden_of_slot he ho hslot).1
  refine ⟨s, o, mo, hs, habove, ?_, hname, hdesc⟩
  obtain ⟨a, -, -, hmo⟩ := habove
  rwa [slotAt?_eq, hmo] at hslot

end Orderly

/-! ## Tables without gaps -/

structure Filled (p : Program) (c : ClassId) : Prop where
  header : Abi.headerSlots ≤ (p.classAt c).vtableSize
  length : (p.tableOf c).length = (p.classAt c).vtableSize
  slot : ∀ e m, p.MethodAbove c e m → ∀ j, m.slot? = some j → Abi.headerSlots ≤ j ∧ j < (p.classAt c).vtableSize
  entry : ∀ j, Abi.headerSlots ≤ j → j < (p.classAt c).vtableSize → ∃ x, (p.tableOf c)[j]? = some (.address x)
  laid : ∃ trap, p.IsTrap trap ∧ p.Laid c trap (p.tableOf c) ∧ ((p.classAt c).isExtern = false → p.Described c trap)

/-- What a class takes over from one with such a table. -/
structure Grounds (p : Program) (c : ClassId) : Prop where
  header : Abi.headerSlots ≤ p.inheritedSize c
  length : (VTable.inherited p c).entries.length ≤ p.inheritedSize c
  slot : ∀ s e m, (p.classAt c).superclass? = some s → p.MethodAbove s e m → ∀ j, m.slot? = some j →
    Abi.headerSlots ≤ j ∧ j < p.inheritedSize c
  entry : ∀ j, Abi.headerSlots ≤ j → j < p.inheritedSize c → ∃ x, (VTable.inherited p c).full[j]? = some (.address x)

lemma Filled.full_inherited (h : p.Filled s) (hs : (p.classAt c).superclass? = some s) :
    (inherited p c).full = p.tableOf s := by
  apply ext_getElem?
  intro i
  rw [getElem?_full, inherited_size, inheritedSize_sub hs, inherited_eq, hs, ← h.length]
  simp only [elim_some, getD_eq_getElem?_getD]
  split
  · rename_i hi; rw [getElem?_eq_getElem hi, getD_some]
  · rw [getElem?_eq_none (by omega)]

lemma grounds_of_filled (h : ∀ s, (p.classAt c).superclass? = some s → p.Filled s) : p.Grounds c := by
  cases hs : (p.classAt c).superclass? with
  | none =>
    have hsize := inheritedSize_root hs
    refine ⟨hsize.ge, ?_, ?_, ?_⟩
    · simp [inherited_eq, hs]
    · intro s e m hs'; simp [hs] at hs'
    · omega
  | some s =>
    have hf := h s hs
    have hsize := inheritedSize_sub hs
    refine ⟨?_, ?_, ?_, ?_⟩
    · rw [hsize]; exact hf.header
    · simp [hsize, inherited_eq, hs, ← hf.length]
    · intro s' e m hs' hm
      rw [hs, some.injEq] at hs'
      subst hs'
      rw [hsize]; exact hf.slot e m hm
    · rw [hsize, hf.full_inherited hs]; exact hf.entry

lemma Grounds.roomy (h : p.Grounds c) (ho : p.Orderly c) : p.Roomy c := by
  refine ⟨by simpa using h.length, ?_⟩
  intro e m he j hj
  obtain ⟨s, o, mo, hs, hmo, hslot, -⟩ := ho.inheritedSlot? he hj
  rw [inherited_size]
  exact (h.slot s o mo hs hmo j hslot).2

lemma Grounds.laid (h : p.Grounds c) (ho : p.Orderly c) : ∃ trap, p.IsTrap trap ∧ p.Laid c trap (p.tableOf c) ∧
      ((p.classAt c).isExtern = false → p.Described c trap) := by
  obtain ⟨trap, htrap, htable, hrows⟩ := ho.settled.linked.tables
  obtain ⟨v, entries, hv, hinit, hlaid⟩ := htable ho.isInterface
  have htab : p.tableOf c = entries := by simp [tableOf, hv, hinit]
  rw [htab]
  exact ⟨trap, htrap, hlaid (h.roomy ho), hrows⟩

lemma Grounds.slot_cases (h : p.Grounds c) (ho : p.Orderly c) (he : e ∈ (p.classAt c).members)
    (hm : p.declAt? e = some m) (hj : m.slot? = some j) :
    p.SlotAbove c e m j ∨
    (p.Enters c e m ∧ p.Fresh m ∧ p.inheritedSize c ≤ j ∧ j < (p.classAt c).vtableSize) := by
  obtain ⟨file, fields, declared, standIns, -, hp⟩ := ho.settled.linked.parts
  obtain ⟨trap, -, hlaid, -⟩ := h.laid ho
  cases hex : m.excluded with
  | true =>
    rcases hp.origin he hm with ⟨-, member, -, hd⟩ | ⟨-, ⟨o, r, mr, hi⟩ | hv⟩
    · simp [hp.unslotted e he m hm hd.implementation (.inl hex)] at hj
    · obtain ⟨s, hs, -⟩ := hi.inherited
      refine .inl ⟨s, r, mr, hs, ?_, hi.slot ▸ hj, hi.realName, hi.realDescriptor⟩
      exact methodAbove_of_inherited hs hi.inherited hi.decl
    · simp [hv.excluded] at hex
  | false =>
    have henters : p.Enters c e m := ⟨he, hm, hex⟩
    obtain ⟨j', hj', hlt, hsome, hnone⟩ := hlaid.slot e m henters
    rw [hj, some.injEq] at hj'
    subst hj'
    rw [inherited_size] at hnone
    cases hinh : inheritedSlot? p m with
    | none => exact .inr ⟨henters, inheritedSlot?_eq_none.1 hinh, hnone hinh, hlt⟩
    | some i =>
      obtain rfl := hsome i hinh; exact .inl (ho.inheritedSlot? henters hinh)

lemma Orderly.filled (ho : p.Orderly c) : p.Filled c := by
  induction ho.settled using Settled.down with
  | step c _ ih =>
    have hg := grounds_of_filled fun s hs => ih s hs (ho.super hs)
    obtain ⟨trap, htrap, hlaid, hrows⟩ := hg.laid ho
    have hsize : p.inheritedSize c ≤ (p.classAt c).vtableSize := by simpa using hlaid.size_le
    have hheader := hg.header
    refine ⟨hheader.trans hsize, hlaid.length, ?_, ?_, trap, htrap, hlaid, hrows⟩
    · intro e m hm j hj
      rcases ho.settled.methodAbove_iff.1 hm with ⟨he, hm⟩ | ⟨s, hs, hm⟩
      · rcases hg.slot_cases ho he hm hj with ⟨s, o, mo, hs, hmo, hslot, -⟩ | ⟨-, -, h1, h2⟩
        · have := hg.slot s o mo hs hmo j hslot; omega
        · omega
      · have := hg.slot s e m hs hm j hj; omega
    · intro j hj hlt
      rcases hlaid.entry j hj with ⟨e, m, -, -, hentry⟩ | ⟨-, hentry⟩
      · exact ⟨_, hentry⟩
      · by_cases hinh : j < p.inheritedSize c
        · rw [hentry]; exact hg.entry j hj hinh
        · -- no slot behind those of the superclass is left out
          rw [getElem?_full, if_neg (by simpa using hinh), getElem?_eq_none_iff, hlaid.length] at hentry
          omega

lemma Orderly.grounds (h : p.Orderly c) : p.Grounds c := grounds_of_filled fun _ hs => (h.super hs).filled

/-! ## One name and descriptor for a slot -/

lemma Orderly.same_of_slot (ho : p.Orderly c) (he : p.MethodAbove c e m) (he' : p.MethodAbove c e' m')
    (hj : m.slot? = some j) (hj' : m'.slot? = some j) :
    (p.entityAt e).name = (p.entityAt e').name ∧ m.descriptor = m'.descriptor := by
  induction ho.settled using Settled.down generalizing e e' m m' with
  | step c _ ih =>
    have hg := ho.grounds
    -- each of them has its slot from above, under its own name, or got it as a new one
    have hcases : ∀ {x mx}, p.MethodAbove c x mx → mx.slot? = some j →
        p.SlotAbove c x mx j ∨ (p.Enters c x mx ∧ p.Fresh mx ∧ p.inheritedSize c ≤ j) := by
      intro x mx hx hslot
      rcases ho.settled.methodAbove_iff.1 hx with ⟨hmem, hm⟩ | ⟨s, hs, hm⟩
      · rcases hg.slot_cases ho hmem hm hslot with hold | ⟨h1, h2, h3, -⟩
        · exact .inl hold
        · exact .inr ⟨h1, h2, h3⟩
      · exact .inl ⟨s, x, mx, hs, hm, hslot, rfl, rfl⟩
    have hlow : ∀ {s o mo}, (p.classAt c).superclass? = some s → p.MethodAbove s o mo → mo.slot? = some j →
        ¬ p.inheritedSize c ≤ j := fun hs hmo hslot => not_le.2 (hg.slot _ _ _ hs hmo j hslot).2
    rcases hcases he hj with ⟨s, o, mo, hs, hmo, hslot, hn, hd⟩ | ⟨henters, hfresh, hle⟩
    · rcases hcases he' hj' with ⟨s', o', mo', hs', hmo', hslot', hn', hd'⟩ | ⟨-, -, hle'⟩
      · rw [hs, some.injEq] at hs'
        subst hs'
        obtain ⟨h1, h2⟩ := ih s hs (ho.super hs) hmo hmo' hslot hslot'
        exact ⟨hn.symm.trans (h1.trans hn'), hd.symm.trans (h2.trans hd')⟩
      · exact absurd hle' (hlow hs hmo hslot)
    · rcases hcases he' hj' with ⟨s', o', mo', hs', hmo', hslot', -⟩ | ⟨henters', hfresh', -⟩
      · exact absurd hle (hlow hs' hmo' hslot')
      · obtain ⟨trap, -, hlaid, -⟩ := hg.laid ho
        obtain rfl := hlaid.fresh e e' m m' henters henters' (inheritedSlot?_eq_none.2 hfresh)
          (inheritedSlot?_eq_none.2 hfresh') (hj.trans hj'.symm)
        have := henters.2.1.symm.trans henters'.2.1
        rw [some.injEq] at this; exact ⟨rfl, this ▸ rfl⟩

/-! ## The laws of slots -/

/-- How the slots of a class relate to those of its superclass and to its dispatch table. -/
structure SlotLaws (p : Program) (c : ClassId) : Prop where
  size : Abi.headerSlots ≤ p.inheritedSize c ∧ p.inheritedSize c ≤ (p.classAt c).vtableSize
  length : (p.tableOf c).length = (p.classAt c).vtableSize
  /-- No place behind the header is empty. -/
  entry : ∀ j, Abi.headerSlots ≤ j → (p.tableOf c)[j]? ≠ some .null
  /-- Each method that takes a slot has that of every method it overrides. If these have none, it has one
  that is new, and its own. -/
  slot : ∀ e ∈ (p.classAt c).members, ∀ m, p.methodAt? e = some m → m.excluded = false →
    ∃ j, m.slot? = some j ∧ Abi.headerSlots ≤ j ∧ j < (p.classAt c).vtableSize ∧
      (∀ o ∈ m.overwrites, ∀ i, p.slotAt? o = some i → i = j) ∧
      (p.Fresh m → p.inheritedSize c ≤ j ∧ ∀ e' ∈ (p.classAt c).members, ∀ m', p.methodAt? e' = some m' →
        m'.excluded = false → p.Fresh m' → m'.slot? = some j → e' = e)

lemma Orderly.slotLaws (h : p.Orderly c) : p.SlotLaws c := by
  have hf := h.filled
  obtain ⟨trap, -, hlaid, -⟩ := hf.laid
  have hsize : p.inheritedSize c ≤ (p.classAt c).vtableSize := by simpa using hlaid.size_le
  refine ⟨⟨h.grounds.header, hsize⟩, hf.length, ?_, ?_⟩
  · intro j hj hnull
    have hlt : j < (p.tableOf c).length := (List.getElem?_eq_some_iff.1 hnull).1
    obtain ⟨x, hx⟩ := hf.entry j hj (hf.length ▸ hlt); simp [hnull] at hx
  · intro e he m hm hex
    have henters : p.Enters c e m.decl := ⟨he, declAt?_of_methodAt? hm, hex⟩
    obtain ⟨j, hj, hlt, hsome, hnone⟩ := hlaid.slot e m.decl henters
    refine ⟨j, hj, ?_, hlt, ?_, ?_⟩
    · exact (hf.slot e m.decl (.self h.settled he henters.2.1) j hj).1
    · intro o ho i hi; exact (hsome i (h.overridden_of_slot henters ho hi).2).symm
    · intro hm'
      refine ⟨by simpa using hnone (inheritedSlot?_eq_none.2 hm'), ?_⟩
      intro e' he' m' hm'' hex' hf' hj'
      have henters' : p.Enters c e' m'.decl := ⟨he', declAt?_of_methodAt? hm'', hex'⟩
      exact hlaid.fresh e' e m'.decl m.decl henters' henters (inheritedSlot?_eq_none.2 hf')
        (inheritedSlot?_eq_none.2 hm') (hj'.trans hj.symm)

lemma SlotLaws.headerSlots_lt (h : p.SlotLaws c)
    (hm : ((p.classAt c).members.any fun e => (p.methodAt? e).any fun m => !m.excluded) = true) :
    Abi.headerSlots < (p.classAt c).vtableSize := by
  obtain ⟨e, he, hm⟩ := any_eq_true.1 hm
  obtain ⟨m, hm, hex⟩ := (any_eq_true _ _).1 hm
  obtain ⟨j, -, hle, hlt, -⟩ := h.slot e he m hm (by simpa using hex)
  omega

/-! ## Testing for regular classes -/

def climbs (p : Program) (ranks : List Nat) : Bool :=
  (List.range p.classes.size).all fun j => (List.range p.classes.size).all fun i =>
    !decide (p.Above ⟨i⟩ ⟨j⟩) || decide (ranks.getD i 0 < ranks.getD j 0)

/-- Moreover, what stands among interfaces is one. -/
def ranked (p : Program) (ranks : List Nat) : Bool :=
  p.climbs ranks && (List.range p.classes.size).all fun j => (p.classAt ⟨j⟩).interfaces.all
    fun i => (p.classAt i).isInterface

lemma Above.hasClass (h : p.Above a b) : p.HasClass b := by
  obtain ⟨-, file, hfile, -⟩ := h
  by_contra hb
  simp [p.classAt_of_not b hb] at hfile

lemma rank_lt_of_climbs (h : p.climbs ranks = true) (hab : Relation.TransGen p.Above a b) :
    ranks.getD a.index 0 < ranks.getD b.index 0 := by
  have hstep : ∀ {a b}, p.Above a b → ranks.getD a.index 0 < ranks.getD b.index 0 := by
    intro a b hab
    have hrow := all_eq_true.1 h b.index (mem_range.2 hab.hasClass)
    have hcell := all_eq_true.1 hrow a.index (mem_range.2 hab.1); simpa [hab] using hcell
  induction hab with
  | single hab => exact hstep hab
  | tail _ hbc ih => exact lt_trans ih (hstep hbc)

lemma grounded_of_climbs (h : p.climbs ranks = true) (c : ClassId) : p.Grounded c :=
  fun _ _ hcycle => lt_irrefl _ (rank_lt_of_climbs h hcycle)

lemma grounded_of_ranked (h : p.ranked ranks = true) :
    ∀ c, p.Grounded c := grounded_of_climbs (Bool.and_eq_true_iff.1 h).1

lemma isInterface_of_ranked (h : p.ranked ranks = true) {i : ClassId} (hi : i ∈ (p.classAt a).interfaces) :
    (p.classAt i).isInterface = true := by
  have ha : p.HasClass a := by by_contra ha; simp [p.classAt_of_not a ha] at hi
  exact all_eq_true.1 (all_eq_true.1 (Bool.and_eq_true_iff.1 h).2 a.index (mem_range.2 ha)) i hi

lemma regular_of_ranked (ranks : List Nat) (h : p.ranked ranks = true)
    (hc : ∀ a ∈ p.ancestry c, (p.classAt a).isInterface = false) : p.Regular c where
  grounded := grounded_of_ranked h c
  classes := hc
  interfaces := fun _ _ i hi => by
    obtain ⟨b, -, hb⟩ := Relation.TransGen.tail'_iff.1 hi; exact isInterface_of_ranked h hb

end JvmGraph.Program
