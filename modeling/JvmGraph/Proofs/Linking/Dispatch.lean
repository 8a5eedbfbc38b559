import JvmGraph.Proofs.Linking.Slots

/-!
# What a slot leads to

The entry of a dispatch table in the slot of a method is the code of the nearest method with that name and
descriptor, a stand-in counting as the method that it stands for.
-/

namespace JvmGraph.Program

open Option Bool

variable {p : Program} {c s a : ClassId} {e e' o r : EntityId} {m m' mo mr : Method} {name descriptor : String}
  {j : Nat}

/-! ## The nearest method -/

def nearest? (p : Program) (c : ClassId) (name descriptor : String) : Option EntityId :=
  (p.ancestry c).findSome? fun a => p.memberWhere? a (isOverridable name descriptor)

def realOf (p : Program) (e : EntityId) : EntityId := ((p.declAt? e).bind Method.implementation?).getD e

lemma overridden?_sub (hs : (p.classAt c).superclass? = some s) (name descriptor : String) :
    p.overridden? c name descriptor = p.nearest? s name descriptor := by
  rw [overridden?_eq, hs]
  rfl

lemma isInstanceMethod_of_overridable (h : isOverridable name descriptor (p.entityAt e) = true) :
    isInstanceMethod name descriptor (p.entityAt e) = true := by
  rw [isOverridable, and_eq_true] at h
  exact h.1

namespace Settled

lemma findSome?_ancestry (h : p.Settled c) (f : ClassId → Option EntityId) : (p.ancestry c).findSome? f =
      (f c).or ((p.classAt c).superclass?.bind fun s => (p.ancestry s).findSome? f) := by
  cases hs : (p.classAt c).superclass? with
  | none => rw [h.ancestry_root hs]; cases hf : f c <;> simp [hf]
  | some s => rw [h.ancestry_sub hs]; cases hf : f c <;> simp [hf]

/-- A method of the class itself, or else the one that it would override. -/
lemma nearest?_eq (h : p.Settled c) (name descriptor : String) : p.nearest? c name descriptor =
      (p.memberWhere? c (isOverridable name descriptor)).or (p.overridden? c name descriptor) :=
  h.findSome?_ancestry _

end Settled

/-! ## Classes that declare a method once -/

def Distinct (p : Program) (c : ClassId) : Prop :=
  ∀ file, (p.classAt c).file? = some file →
    (file.methods.map fun m => (file.nameOf m, file.descriptorOf m)).Nodup

instance (p : Program) (c : ClassId) : Decidable (p.Distinct c) :=
  match h : (p.classAt c).file? with
  | none => .isTrue fun _ hf => by simp [h] at hf
  | some file =>
    decidable_of_iff (file.methods.map fun m => (file.nameOf m, file.descriptorOf m)).Nodup (by simp [Distinct, h])

/-- An orderly class such that neither it nor a class above declares a method twice. -/
structure Plain (p : Program) (c : ClassId) : Prop extends p.Orderly c where
  distinct : ∀ a ∈ p.ancestry c, p.Distinct a

namespace Plain

lemma super (h : p.Plain c) (hs : (p.classAt c).superclass? = some s) : p.Plain s where
  toOrderly := h.toOrderly.super hs
  distinct := fun a ha => h.distinct a (by simp [h.settled.ancestry_sub hs, ha])

lemma unique (h : p.Plain c) (he : e ∈ (p.classAt c).members) (he' : e' ∈ (p.classAt c).members)
    (hi : isInstanceMethod name descriptor (p.entityAt e) = true)
    (hi' : isInstanceMethod name descriptor (p.entityAt e') = true) : e = e' := by
  obtain ⟨file, fields, declared, standIns, hfile, hp⟩ := h.settled.linked.parts
  have hnodup := h.distinct c h.settled.self_mem file hfile
  by_cases hs' : e' ∈ standIns
  · exact hp.sole name descriptor e he e' hs' hi hi'
  by_cases hs : e ∈ standIns
  · exact (hp.sole name descriptor e' he' e hs hi' hi).symm
  -- both come from the class file
  have hindex : ∀ {x}, x ∈ (p.classAt c).members → x ∉ standIns →
      isInstanceMethod name descriptor (p.entityAt x) = true →
        ∃ i, ∃ hi : i < file.methods.length, declared[i]? = some x ∧
          file.nameOf file.methods[i] = .ok name ∧ file.descriptorOf file.methods[i] = .ok descriptor := by
    intro x hx hns hix
    obtain ⟨hname, mx, hmx, hdesc, -⟩ := isInstanceMethod_iff.1 hix
    have hdecl : x ∈ declared := by
      rcases hp.origin hx hmx with ⟨hd, -⟩ | ⟨hd, -⟩
      · exact hd
      · exact absurd hd hns
    obtain ⟨i, hlt, hget, hd⟩ := hp.declared_at hdecl hmx
    exact ⟨i, hlt, hget, hname ▸ hd.nameOf, hdesc ▸ hd.descriptorOf⟩
  obtain ⟨i, hlt, hget, hname, hdesc⟩ := hindex he hs hi
  obtain ⟨i', hlt', hget', hname', hdesc'⟩ := hindex he' hs' hi'
  have hii : i = i' := by
    refine (List.getElem?_inj (by simpa using hlt) hnodup).1 ?_
    simp [hlt, hlt', hname, hdesc, hname', hdesc']
  subst hii
  rwa [hget, some.injEq] at hget'

lemma memberWhere?_eq (h : p.Plain c) {accept : Entity → Bool}
    (hacc : ∀ x, accept (p.entityAt x) = true → isInstanceMethod name descriptor (p.entityAt x) = true)
    (he : e ∈ (p.classAt c).members) (hae : accept (p.entityAt e) = true) : p.memberWhere? c accept = some e := by
  cases hf : p.memberWhere? c accept with
  | none =>
    have := List.find?_eq_none.1 hf e he
    exact absurd hae (by simpa using this)
  | some x =>
    obtain ⟨hx, hax⟩ := memberWhere?_some hf
    rw [h.unique hx he (hacc x hax) (hacc e hae)]

lemma nearest?_self (h : p.Plain c) (he : e ∈ (p.classAt c).members)
    (hacc : isOverridable name descriptor (p.entityAt e) = true) : p.nearest? c name descriptor = some e := by
  simp [h.settled.nearest?_eq, h.memberWhere?_eq (fun _ => isInstanceMethod_of_overridable) he hacc]

lemma nearest_cases (h : p.Plain c) (hn : p.nearest? c name descriptor = some o) :
    (o ∈ (p.classAt c).members ∧ isOverridable name descriptor (p.entityAt o) = true ∧
      (p.declAt? o).bind Method.implementation? = none) ∨
    (o ∈ (p.classAt c).members ∧ isOverridable name descriptor (p.entityAt o) = true ∧
      ∃ m o' r mr, p.declAt? o = some m ∧ p.Inherits c name m o' r mr) ∨
    (p.memberWhere? c (isOverridable name descriptor) = none ∧ p.overridden? c name descriptor = some o) := by
  rw [h.settled.nearest?_eq, or_eq_some_iff] at hn
  rcases hn with hn | ⟨hnone, hn⟩
  · obtain ⟨ho, hacc⟩ := memberWhere?_some hn
    obtain ⟨hname, m, hm, -⟩ := isOverridable_iff.1 hacc
    rcases h.settled.own_or_inherits ho hm with hnone | ⟨o', r, mr, hi⟩
    · exact .inl ⟨ho, hacc, by rw [hm]; exact hnone⟩
    · exact .inr (.inl ⟨ho, hacc, m, o', r, mr, hm, hname ▸ hi⟩)
  · exact .inr (.inr ⟨hnone, hn⟩)

end Plain

lemma realOf_eq_self (h : (p.declAt? e).bind Method.implementation? = none) : p.realOf e = e := by
  rw [realOf, h, getD_none]

lemma Inherits.realOf_self (h : p.Inherits c name m o r mr) (hm : p.declAt? e = some m) : p.realOf e = r := by
  rw [realOf, hm, bind_some, h.implementation, getD_some]

/-! ## The entry in a slot -/

lemma Settled.same_real (h : p.Settled c) (ho : o ∈ (p.classAt c).members) (hm : p.declAt? o = some mo)
    (hr : p.declAt? (p.realOf o) = some mr) : mo.slot? = mr.slot? ∧ mo.flags = mr.flags := by
  rcases h.own_or_inherits ho hm with hnone | ⟨o', r, mr', hi⟩
  · rw [realOf_eq_self (by rwa [hm]), hm, some.injEq] at hr; simp [hr]
  · rw [hi.realOf_self hm, hi.decl, some.injEq] at hr; exact hr ▸ ⟨hi.slot, hi.flags⟩

lemma Enters.isStatic (he : p.Enters c e m) (h : p.Settled c) : m.isStatic = false := by
  obtain ⟨hmem, hm, hex⟩ := he
  obtain ⟨file, fields, declared, standIns, -, hp⟩ := h.linked.parts
  rcases hp.origin hmem hm with ⟨-, member, -, hd⟩ | ⟨-, ⟨o', r, mr, hi⟩ | hv⟩
  · rw [hd.excluded] at hex; simp only [or_eq_false_iff] at hex; exact hex.1.1.1
  · simp [hi.excluded] at hex
  · exact hv.isStatic

/-- A member whose code is its own stays in the table of its class. -/
lemma Plain.entry_of_enters (h : p.Plain c) {trap : EntityId} (hlaid : p.Laid c trap (p.tableOf c))
    (he : p.Enters c e m) (hj : m.slot? = some j) :
    (p.tableOf c)[j]? = some (codeOrTrap trap e m) := by
  have habove : p.MethodAbove c e m := .self h.settled he.1 he.2.1
  have hheader := (h.filled.slot e m habove j hj).1
  rcases hlaid.entry j hheader with ⟨e', m', he', hj', hentry⟩ | ⟨hno, -⟩
  · -- the last method entered into the slot is `e` itself
    have habove' : p.MethodAbove c e' m' := .self h.settled he'.1 he'.2.1
    obtain ⟨hname, hdesc⟩ := h.same_of_slot habove' habove hj' hj
    have hi : isInstanceMethod (p.entityAt e).name m.descriptor (p.entityAt e) = true :=
      isInstanceMethod_iff.2 ⟨rfl, m, he.2.1, rfl, he.isStatic h.settled⟩
    have hi' : isInstanceMethod (p.entityAt e).name m.descriptor (p.entityAt e') = true :=
      isInstanceMethod_iff.2 ⟨hname, m', he'.2.1, hdesc, he'.isStatic h.settled⟩
    obtain rfl := h.unique he'.1 he.1 hi' hi
    have := he.2.1.symm.trans he'.2.1
    rw [some.injEq] at this
    rw [hentry, this]
  · exact absurd hj (hno e m he)

lemma Plain.entry_of_overridden (h : p.Plain c) (hover : p.overridden? c name descriptor = some o)
    (hr : p.declAt? (p.realOf o) = some mr) (hj : mr.slot? = some j)
    (hno : ∀ e m, p.Enters c e m → isInstanceMethod name descriptor (p.entityAt e) = true → j < p.inheritedSize c →
      m.slot? ≠ some j) :
    ∃ s, (p.classAt c).superclass? = some s ∧ p.nearest? s name descriptor = some o ∧
      (p.tableOf c)[j]? = (p.tableOf s)[j]? := by
  obtain ⟨s, mo, hs, habove, hname, hdesc, -⟩ := methodAbove_of_overridden hover
  have hslot : mo.slot? = some j := by
    obtain ⟨a, ha, hoa, hmo⟩ := habove
    rw [← hj]; exact (((h.super hs).settled.ancestor ha).same_real hoa hmo hr).1
  obtain ⟨hheader, hlt⟩ := h.grounds.slot s o mo hs habove j hslot
  refine ⟨s, hs, overridden?_sub hs name descriptor ▸ hover, ?_⟩
  obtain ⟨trap, -, hlaid, -⟩ := h.filled.laid
  rcases hlaid.entry j hheader with ⟨e, m, he, hej, -⟩ | ⟨-, hentry⟩
  · have hself : p.MethodAbove c e m := .self h.settled he.1 he.2.1
    have hupper : p.MethodAbove c o mo := h.settled.methodAbove_iff.2 (.inr ⟨s, hs, habove⟩)
    obtain ⟨hn, hd⟩ := h.same_of_slot hself hupper hej hslot
    have hi : isInstanceMethod name descriptor (p.entityAt e) = true :=
      isInstanceMethod_iff.2 ⟨hn.trans hname, m, he.2.1, hd.trans hdesc, he.isStatic h.settled⟩
    exact absurd hej (hno e m he hi hlt)
  · rw [hentry, (h.super hs).filled.full_inherited hs]

/-- A method of a class that is private takes no slot of a method above. -/
lemma Orderly.inheritedSize_le_of_private (h : p.Orderly c) (he : p.Enters c e m)
    (hprivate : m.flags.isPrivate = true) (hj : m.slot? = some j) : p.inheritedSize c ≤ j := by
  obtain ⟨file, fields, declared, standIns, -, hp⟩ := h.settled.linked.parts
  obtain ⟨trap, -, hlaid, -⟩ := h.filled.laid
  rcases hp.origin he.1 he.2.1 with ⟨-, member, -, hd⟩ | ⟨-, ⟨o', r, mr, hi⟩ | hv⟩
  · have hex := he.2.2; rw [hd.excluded, hprivate] at hex; simp at hex
  · have hex := he.2.2; simp [hi.excluded] at hex
  · have hfresh : p.Fresh m := fun o ho => h.slotAt?_interface (hv.overwrites o ho)
    obtain ⟨j', hj', -, -, hnone⟩ := hlaid.slot e m he
    rw [hj, some.injEq] at hj'
    subst hj'; simpa using hnone (inheritedSlot?_eq_none.2 hfresh)

lemma Plain.entry_of_nearest (h : p.Plain c) (hn : p.nearest? c name descriptor = some o)
    (hr : p.declAt? (p.realOf o) = some mr) (hj : mr.slot? = some j) :
    ∃ trap, p.IsTrap trap ∧ (p.tableOf c)[j]? = some (codeOrTrap trap (p.realOf o) mr) := by
  induction h.settled using Settled.down generalizing o with
  | step c _ ih =>
    rcases h.nearest_cases hn with ⟨ho, hover, hunlinked⟩ | ⟨ho, hover, m, o', r, mr', hm, hi⟩ | ⟨hfind, hover⟩
    · rw [realOf_eq_self hunlinked] at hr ⊢
      obtain ⟨file, fields, declared, standIns, -, hp⟩ := h.settled.linked.parts
      have hex : mr.excluded = false := by
        by_contra hex
        rw [not_eq_false] at hex
        rw [hr] at hunlinked; simp [hp.unslotted o ho mr hr hunlinked (.inl hex)] at hj
      obtain ⟨trap, htrap, hlaid, -⟩ := h.filled.laid
      exact ⟨trap, htrap, h.entry_of_enters hlaid ⟨ho, hr, hex⟩ hj⟩
    · have hdesc : m.descriptor = descriptor := by
        obtain ⟨-, m', hm', hdesc, -⟩ := isOverridable_iff.1 hover
        rw [hm, some.injEq] at hm'; exact hm' ▸ hdesc
      have hreal : p.realOf o' = p.realOf o := by rw [hi.realOf_self hm]; exact hi.real
      rw [← hreal] at hr ⊢
      have hover' := hi.overridden
      rw [hdesc] at hover'
      obtain ⟨s, hs, hnear, hentry⟩ := h.entry_of_overridden hover' hr hj fun e m' he hinst => by
        -- the stand-in itself takes no slot
        have heo := h.unique he.1 ho hinst (isInstanceMethod_of_overridable hover)
        have hex := he.2.2
        have hmm := he.2.1
        rw [heo, hm, some.injEq] at hmm; simp [← hmm, hi.excluded] at hex
      rw [hentry]; exact ih s hs (h.super hs) hnear hr
    · obtain ⟨s, hs, hnear, hentry⟩ := h.entry_of_overridden hover hr hj fun e m he hinst hlow hslot => by
        obtain ⟨hname, m', hm', hdesc, hstatic⟩ := isInstanceMethod_iff.1 hinst
        rw [he.2.1, some.injEq] at hm'
        subst hm'
        have hprivate : m.flags.isPrivate = true := by
          by_contra hp
          rw [not_eq_true] at hp
          have := List.find?_eq_none.1 hfind e he.1
          exact this (isOverridable_iff.2 ⟨hname, m, he.2.1, hdesc, hstatic, hp⟩)
        exact absurd (h.inheritedSize_le_of_private he hprivate hslot) (not_le.2 hlow)
      rw [hentry]; exact ih s hs (h.super hs) hnear hr

end JvmGraph.Program
