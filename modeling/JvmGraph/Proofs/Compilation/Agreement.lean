import JvmGraph.Proofs.Compilation.Slots
import JvmGraph.Proofs.Linking.Agreement
import JvmGraph.Proofs.Lowering.Image

/-!
# Dispatch by slot and by name in compiled programs

After lowering, the dispatch tables of extern classes are dropped. The two ways to find a method of a class that
is not extern, by slot and by name, are what they were when the class was finalized.
-/

namespace JvmGraph

open Steps Option Program

namespace Program

variable {p q : Program} {c : ClassId} {e : EntityId}

/-! ## What depends on the classes alone -/

section

variable (h : q.classes = p.classes)

include h

lemma classAt_of_classes (c : ClassId) : q.classAt c = p.classAt c := by rw [classAt, classAt, h]

lemma ancestry_of_classes (c : ClassId) : q.ancestry c = p.ancestry c := by
  have hchain : ∀ fuel c, q.chain fuel c = p.chain fuel c := by
    intro fuel
    induction fuel with
    | zero => exact fun _ => rfl
    | succ fuel ih =>
      intro c
      rw [chain, chain, classAt_of_classes h, funext ih]
  rw [ancestry, ancestry, h, hchain]

lemma above_of_classes : q.Above = p.Above := by
  funext a b
  rw [Above, Above, HasClass, HasClass, classAt_of_classes h, classAt_of_classes h, h]

lemma interfaceOf_of_classes : q.InterfaceOf = p.InterfaceOf := by
  simp [InterfaceOf, classAt_of_classes h]

lemma Regular.of_classes (hr : q.Regular c) : p.Regular c where
  grounded := by
    have hg := hr.grounded; rwa [Grounded, above_of_classes h] at hg
  classes := fun a ha => by
    rw [← classAt_of_classes h]; exact hr.classes a (by rwa [ancestry_of_classes h])
  interfaces := fun a ha i hi => by
    rw [← classAt_of_classes h]
    exact hr.interfaces a (by rwa [ancestry_of_classes h]) i (by rwa [interfaceOf_of_classes h])

end

/-! ## Dropping dispatch tables -/

def IsExternVTable (p : Program) (e : EntityId) : Prop :=
  ∃ d, (p.classAt d).isExtern = true ∧ (p.classAt d).vtable? = some e

/-- Nothing but the contents of dispatch tables of extern classes was changed. -/
structure Stripped (p q : Program) : Prop where
  classes : q.classes = p.classes
  size : q.entities.size = p.entities.size
  method : ∀ e, q.methodAt? e = p.methodAt? e
  entity : ∀ e, ¬ p.IsExternVTable e → q.entityAt e = p.entityAt e

lemma Stripped.refl (p : Program) : Stripped p p := ⟨rfl, rfl, fun _ => rfl, fun _ _ => rfl⟩

lemma Stripped.step (h : Stripped p q) {v : EntityId} (hv : p.IsExternVTable v) {f : Entity → Entity}
    (hf : ∀ x, (f x).kind = x.kind) : Stripped p (q.modifyEntity v f) where
  classes := h.classes
  size := by simp [h.size]
  method := fun e => by
    rw [methodAt?_modifyEntity_of_kind, h.method]; simp [Entity.method?, hf]
  entity := fun e he => by
    have hne : e ≠ v := by rintro rfl; exact he hv
    rw [entityAt_modifyEntity_ne _ _ _ hne, h.entity e he]

lemma stripped_foldl (cs : List ClassId) : ∀ q : Program, Stripped p q → Stripped p (cs.foldl (fun p c =>
    let info := p.classAt c
    match info.isExtern, info.vtable? with
    | true, some v => p.modifyEntity v fun e => { e with initializer? := none, visibility := .external }
    | _, _ => p) q) := by
  induction cs with
  | nil => exact fun _ h => h
  | cons c rest ih =>
    intro q h
    apply ih
    simp only []
    split
    · rename_i v hext hv
      rw [classAt_of_classes h.classes] at hext hv; exact h.step ⟨c, hext, hv⟩ fun _ => rfl
    · exact h

lemma stripped_dropExternVTables (p : Program) : Stripped p p.dropExternVTables :=
  stripped_foldl _ p (.refl p)

/-! ## What is kept of the tables -/

def SameEntity (p q : Program) (e : EntityId) : Prop :=
  p.HasEntity e → q.HasEntity e ∧ (q.entityAt e).decl = (p.entityAt e).decl

lemma SameEntity.initializer? (h : SameEntity p q e) (he : p.HasEntity e) :
    (q.entityAt e).initializer? = (p.entityAt e).initializer? := Entity.initializer?_eq (h he).2

structure Shipped (p q : Program) : Prop where
  classes : q.classes = p.classes
  method : ∀ e, p.HasEntity e → q.declAt? e = p.declAt? e
  entity : ∀ e, ¬ p.IsExternVTable e → SameEntity p q e

lemma Redrawn.shipped {p' : Program} (h : p.Redrawn p') (h' : Stripped p' q) : Shipped p q where
  classes := h'.classes.trans h.classes
  method := fun e he => by
    rw [← h.declAt? he, Program.declAt?, Program.declAt?, h'.method]
  entity := fun e he hhas => by
    have he' : ¬ p'.IsExternVTable e := by rintro ⟨d, hd⟩; rw [h.classAt] at hd; exact he ⟨d, hd⟩
    refine ⟨?_, by rw [h'.entity e he', h.entity e hhas]⟩
    rw [HasEntity, h'.size]; exact h.hasEntity hhas

namespace Shipped

variable (h : Shipped p q)

include h

lemma declAt?_members (hset : p.Settled c) (he : e ∈ (p.classAt c).members) : q.declAt? e = p.declAt? e :=
  h.method e (hset.linked.owned e he).1

lemma tableOf_eq (hset : p.Settled c) (hv : ∀ v, (p.classAt c).vtable? = some v → ¬ p.IsExternVTable v) :
    q.tableOf c = p.tableOf c := by
  rw [tableOf, tableOf, classAt_of_classes h.classes]
  cases hvt : (p.classAt c).vtable? with
  | none => rfl
  | some v =>
    rw [bind_some, bind_some, (h.entity v (hv v hvt)).initializer? (hset.linked.vtable v hvt).1]

lemma rowCode?_eq (hset : p.Settled c) (hext : (p.classAt c).isExtern = false)
    (ho : ∀ o, (p.classAt c).classObject? = some o → ¬ p.IsExternVTable o)
    (hglobal : ∀ t, (p.entityAt t).owner? = none → p.HasEntity t → ¬ p.IsExternVTable t) (e : EntityId) :
    q.rowCode? c e = p.rowCode? c e := by
  obtain ⟨trap, -, -, hdescribed⟩ := hset.linked.tables
  have hd := hdescribed hext
  have hfield : q.classObjectField? c "methods" = p.classObjectField? c "methods" := by
    rw [classObjectField?, classObjectField?, classAt_of_classes h.classes]
    cases hobj : (p.classAt c).classObject? with
    | none => rfl
    | some o =>
      rw [bind_some, bind_some, (h.entity o (ho o hobj)).initializer? (hset.linked.classObject o hobj).1]
  have htable : q.methodTable c = p.methodTable c := by
    rw [methodTable, methodTable, hfield]
    split
    · rename_i t ht
      obtain ⟨hhas, howner⟩ := hd.table t ht
      rw [(h.entity t (hglobal t howner hhas)).initializer? hhas]
    · rfl
  have hids : q.methodIds c = p.methodIds c := by
    rw [methodIds, classAt_of_classes h.classes]
    apply List.filter_congr
    intro x hx
    rw [h.declAt?_members hset hx]
  rw [rowCode?, rowCode?, htable, hids]

lemma isTrap {trap : EntityId} (ht : p.IsTrap trap) (hno : ¬ p.IsExternVTable trap) : q.IsTrap trap := by
  obtain ⟨hhas, hdecl⟩ := h.entity trap hno ht.1
  refine ⟨hhas, ?_⟩
  rw [← ht.2]
  apply Entity.eq_of_decl _ hdecl
  rw [ht.2]
  rfl

lemma standsForAbstract_iff {m : Method} (hm : ∀ r, m.implementation? = some r → p.HasEntity r) :
    q.StandsForAbstract m ↔ p.StandsForAbstract m := by
  constructor
  · rintro ⟨r, mr, hr, hdecl, habs⟩
    exact ⟨r, mr, hr, (h.method r (hm r hr)).symm.trans hdecl, habs⟩
  · rintro ⟨r, mr, hr, hdecl, habs⟩; exact ⟨r, mr, hr, (h.method r (hm r hr)).trans hdecl, habs⟩

end Shipped

lemma Settled.hasEntity_implementation (h : p.Settled c) (he : e ∈ (p.classAt c).members) {m : Method}
    (hm : p.declAt? e = some m) {r : EntityId} (hr : m.implementation? = some r) : p.HasEntity r := by
  rcases h.own_or_inherits he hm with hnone | ⟨o, r', mr, hi⟩
  · simp [hnone] at hr
  · rw [hi.implementation, Option.some.injEq] at hr
    subst hr
    obtain ⟨mr', hmr, -⟩ := map_eq_some_iff.1 hi.decl; exact hasEntity_of_methodAt? hmr

end Program

/-! ## Compiled programs -/

variable {flavour : Flavour} {source : ClassSource} {root : String} {result : Compilation} {w : World}

lemma compile_ok (h : compile source root flavour = .ok result) :
    ∃ w w', loadFrom source root (source.size + 1) {} = .ok result.root w ∧ lowerWorld flavour w = .ok () w' ∧
      result.program = w'.program.dropExternVTables := by
  unfold compile at h
  split at h
  · rename_i result' w'' hsteps
    cases h
    obtain ⟨rootId, w, hload, hsteps⟩ := bind_ok.1 hsteps
    obtain ⟨u, w', hlower, hsteps⟩ := bind_ok.1 hsteps
    obtain ⟨u', w1, hdrop, hsteps⟩ := bind_ok.1 hsteps
    replace hsteps := get_bind_ok.1 hsteps
    have hprogram : w1.program = w'.program.dropExternVTables := by
      cases hdrop
      rfl
    cases hobj : (w1.program.classAt rootId).classObject? with
    | none => simp only [hobj] at hsteps; cases hsteps
    | some e =>
      simp only [hobj] at hsteps
      cases hsteps; exact ⟨w, w', hload, hlower, hprogram⟩
  · cases h

lemma lowers_lowerWorld {w' : World} (h : lowerWorld flavour w = .ok () w') : w.image.Lowers w'.image := by
  have hlower := Image.lowering_lower flavour w.image trivial
  unfold lowerWorld Load.imageStep at h
  simp only [] at h
  split at h
  · rename_i hrun
    cases h
    rw [hrun] at hlower; exact hlower.2
  · cases h

lemma compile_shipped
    (h : compile source root flavour = .ok result) : ∃ w : World, w.Ready ∧ w.program.Shipped result.program := by
  obtain ⟨w, w', hload, hlower, hprogram⟩ := compile_ok h
  have hready := ((honours_loadFrom root (source.size + 1)) {} ready_empty).ok hload
  refine ⟨w, hready.1, ?_⟩
  rw [hprogram]
  exact (lowers_lowerWorld hlower).redrawn.shipped (stripped_dropExternVTables _)

/-- Only dispatch tables are dispatch tables, each of its own class. -/
lemma World.Sound.not_isExternVTable (hw : w.Sound) {c : ClassId} {e : EntityId}
    (hc : (w.program.classAt c).isExtern = false)
    (he : (w.program.entityAt e).owner? = some c ∨ (w.program.entityAt e).owner? = none) :
    ¬ w.program.IsExternVTable e := by
  rintro ⟨d, hext, hv⟩
  have howner := (hw.vtable d e hv).2.1
  rcases he with he | he
  · rw [he, Option.some.injEq] at howner; subst howner; simp [hc] at hext
  · simp [he] at howner

/-- In every compiled program, the method table and the dispatch table of a class agree on a method with a slot if and
only if it is no stand-in for an abstract method. -/
theorem tables_agree (source : ClassSource) (root : String) (flavour : Flavour) (result : Compilation)
    (h : compile source root flavour = .ok result) (c : ClassId)
    (hfinal : (result.program.classAt c).state = .finalized) (hext : (result.program.classAt c).isExtern = false)
    (hregular : result.program.Regular c) (hdistinct : ∀ a ∈ result.program.ancestry c, result.program.Distinct a) :
    ∀ e ∈ (result.program.classAt c).members, ∀ m j, result.program.declAt? e = some m → m.slot? = some j →
      ∃ row entry trap, result.program.rowCode? c e = some row ∧ (result.program.tableOf c)[j]? = some entry ∧
        result.program.Agreement c e m row entry trap := by
  obtain ⟨w, hw, hship⟩ := compile_shipped h
  have hclass := classAt_of_classes hship.classes c
  rw [hclass] at hfinal hext
  have hplain : w.program.Plain c := by
    refine ⟨hw.fine.orderly hfinal (hregular.of_classes hship.classes), fun a ha => ?_⟩
    have := hdistinct a (by rwa [ancestry_of_classes hship.classes])
    rwa [Program.Distinct, classAt_of_classes hship.classes] at this
  have hset := hplain.settled
  have hnot := @World.Sound.not_isExternVTable w hw.sound c
  rw [hclass]
  intro e he m j hm hj
  rw [hship.declAt?_members hset he] at hm
  obtain ⟨row, entry, trap, hrow, hentry, hagree⟩ := hplain.agreement hext he hm hj
  have hstands := hship.standsForAbstract_iff fun r hr => hset.hasEntity_implementation he hm hr
  refine ⟨row, entry, trap, ?_, ?_, ?_, ?_, ?_, hagree.abstract⟩
  · rw [hship.rowCode?_eq hset hext (fun o ho => hnot hext (.inl (hset.linked.classObject o ho).2))
      (fun t ht _ => hnot hext (.inr ht)), hrow]
  · rw [hship.tableOf_eq hset fun v hv => hnot hext (.inl (hset.linked.vtable v hv).2), hentry]
  · refine hship.isTrap hagree.isTrap (hnot hext (.inr ?_))
    rw [hagree.isTrap.2]
    rfl
  · rw [hstands]
    exact hagree.agree
  · rw [hstands]
    exact hagree.differ

def inheritedAbstract : ClassSource :=
  .ofDrafts [
    { name := "I", flags := 0x601, methods := [⟨0x401, "m", "()V", none⟩] },
    { name := "A", flags := 0x421, methods := [⟨0x401, "m", "()V", none⟩] },
    { name := "B", super? := some "A", flags := 0x421, interfaces := ["I"] }]

/-- The stand-in of such a class has the trap in the dispatch table and the abstract method in the method table. -/
theorem tables_agree_inherited_abstract :
    ∃ result m, compile inheritedAbstract "B" .simple = .ok result ∧
      (result.program.classAt ⟨1⟩).state = .finalized ∧ (result.program.classAt ⟨1⟩).isExtern = false ∧
      result.program.Regular ⟨1⟩ ∧ (∀ a ∈ result.program.ancestry ⟨1⟩, result.program.Distinct a) ∧
      ⟨21⟩ ∈ (result.program.classAt ⟨1⟩).members ∧ result.program.declAt? ⟨21⟩ = some m ∧ m.slot? = some 2 ∧
      ∃ row entry trap, result.program.rowCode? ⟨1⟩ ⟨21⟩ = some row ∧ (result.program.tableOf ⟨1⟩)[2]? = some entry ∧
        result.program.Agreement ⟨1⟩ ⟨21⟩ m row entry trap ∧ row ≠ entry := by
  have run : ((compile inheritedAbstract "B" .simple).toOption.any fun result =>
      let p := result.program
      decide ((p.classAt ⟨1⟩).state = .finalized ∧ (p.classAt ⟨1⟩).isExtern = false ∧ p.ranked [1, 3, 0, 2, 1] = true ∧
        (∀ a ∈ p.ancestry ⟨1⟩, (p.classAt a).isInterface = false) ∧ (∀ a ∈ p.ancestry ⟨1⟩, p.Distinct a) ∧
        ⟨21⟩ ∈ (p.classAt ⟨1⟩).members) &&
      (p.declAt? ⟨21⟩).any fun m => decide (m.slot? = some 2) &&
        m.implementation?.any fun r => (p.declAt? r).any Method.isAbstract) = true := by decide +kernel
  obtain ⟨result, h, run⟩ := ok_of_any run
  simp only [Bool.and_eq_true, decide_eq_true_eq] at run
  obtain ⟨⟨hfinal, hext, hranked, hclasses, hdistinct, hmem⟩, hm⟩ := run
  obtain ⟨m, hm, hslot⟩ := (any_eq_true _ _).1 hm
  obtain ⟨hslot, hr⟩ := Bool.and_eq_true_iff.1 hslot
  obtain ⟨r, hr, hmr⟩ := (any_eq_true _ _).1 hr
  obtain ⟨mr, hmr, habs⟩ := (any_eq_true _ _).1 hmr
  have hregular := regular_of_ranked _ hranked hclasses
  have hslot := of_decide_eq_true hslot
  obtain ⟨row, entry, trap, hrow, hentry, hagree⟩ := tables_agree _ _ _ _ h _ hfinal hext
    hregular hdistinct _ hmem m 2 hm hslot
  refine ⟨result, m, h, hfinal, hext, hregular, hdistinct, hmem, hm, hslot, row, entry, trap, hrow,
    hentry, hagree, ?_⟩
  intro heq
  exact hagree.agree.1 heq ⟨r, mr, hr, hmr, habs⟩

end JvmGraph
