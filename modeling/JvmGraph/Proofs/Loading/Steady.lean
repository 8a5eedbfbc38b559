import JvmGraph.Proofs.Loading.Construction
import JvmGraph.Proofs.Loading.Session

/-!
# Steps that any world can take
A session goes on in the world that a failed call has left behind, where little is known of the classes. Most steps of
a call do not touch what the layout of objects depends on, whatever the world is like. A contract that puts up with
these is honoured by whole calls if lookups and finalizations honour it (`Tolerates.call`), and the part of a
finalization that comes before the layout honours it if the steps do that add members and link supertypes
(`GatherRules.leads`).
-/

open Relation (ReflTransGen TransGen)

namespace JvmGraph

open Steps Load World ClassInfo

variable {f : ClassInfo → ClassInfo}

/-- An entity without its kind and its contents. -/
def Entity.label (e : Entity) : String × String × Option ClassId := (e.name, e.symbol, e.owner?)

/-- What the layout of objects depends on. -/
def ClassInfo.plan (c : ClassInfo) : ClassInfo where
  name := ""
  state := c.state
  superclass? := c.superclass?
  members := c.members
  size := c.size

/-! ## Programs -/

namespace Program

/-- Entities keep their labels, too. -/
structure GrowsTo (p p' : Program) : Prop extends Grows p p' where
  label : ∀ e, p.HasEntity e → (p'.entityAt e).label = (p.entityAt e).label

/-- Besides, the classes in `S` keep their layout. -/
structure Spares (S : ClassId → Prop) (p p' : Program) : Prop extends GrowsTo p p' where
  plan : ∀ c, p.HasClass c → S c → (p'.classAt c).plan = (p.classAt c).plan
  field : ∀ e, p.HasEntity e → (∀ c, (p.entityAt e).owner? = some c → S c) → p'.fieldAt? e = p.fieldAt? e

/-- No class is added, and all keep their layout. -/
structure Steady (p p' : Program) : Prop extends Spares (fun _ => True) p p' where
  same : p'.classes.size = p.classes.size

variable {S T : ClassId → Prop} {p p' p'' : Program} {a b c : ClassId} {e : EntityId}

namespace GrowsTo

lemma refl (p : Program) : GrowsTo p p := ⟨.refl p, fun _ _ => rfl⟩

lemma of_continues (h : Continues p p') : GrowsTo p p' :=
  ⟨h.toGrows, fun e he => (congrArg (·.label) (h.face e he) :)⟩

variable (h : GrowsTo p p')

include h

lemma owner (he : p.HasEntity e) : (p'.entityAt e).owner? = (p.entityAt e).owner? :=
  (congrArg (·.2.2) (h.label e he) :)

lemma trans (h' : GrowsTo p' p'') : GrowsTo p p'' where
  toGrows := h.toGrows.trans h'.toGrows
  label e he := (h'.label e (h.hasEntity he)).trans (h.label e he)

end GrowsTo

namespace Spares

lemma mono (h : Spares S p p') (hST : ∀ c, T c → S c) : Spares T p p' :=
  ⟨h.toGrowsTo, fun c hc ht => h.plan c hc (hST c ht), fun e he ht => h.field e he fun c hc => hST c (ht c hc)⟩

lemma trans (h : Spares S p p') (h' : Spares S p' p'') : Spares S p p'' where
  toGrowsTo := h.toGrowsTo.trans h'.toGrowsTo
  plan c hc hs := (h'.plan c (h.hasClass hc) hs).trans (h.plan c hc hs)
  field e he hs := (h'.field e (h.hasEntity he) (by rwa [h.owner he])).trans (h.field e he hs)

lemma modifyClass (hbirth : ∀ info, (f info).birth = info.birth)
    (hplan : S c → ∀ info, (f info).plan = info.plan) : Spares S p (p.modifyClass c f) := by
  refine ⟨⟨⟨by simp, by simp, fun d _ => modifyClass_congr birth (hbirth _)⟩, fun _ _ => rfl⟩, fun d _ hd => ?_,
    fun _ _ _ => rfl⟩
  rw [classAt_modifyClass]
  split
  · rename_i hdc; rw [hdc.1, hplan (hdc.1 ▸ hd)]
  · rfl

lemma newEntity (entity : Entity) : Spares S p (p.newEntity entity).2 := by
  have hat : ∀ e, p.HasEntity e → (p.newEntity entity).2.entityAt e = p.entityAt e :=
    fun e he => entityAt_newEntity_of_has p entity he
  exact ⟨⟨⟨by simp, by simp, fun _ _ => rfl⟩, fun e he => by rw [hat e he]⟩, fun _ _ _ => rfl, fun e he _ =>
    congrArg (·.field?) (hat e he)⟩

lemma addMember (entity : Entity) (hc : ¬ S c) : Spares S p (p.addMember c entity).2 := by
  rw [addMember_snd]
  exact (newEntity _).trans (modifyClass (fun _ => rfl) fun h => absurd h hc)

lemma layoutFields (hm : ∀ e ∈ (p.classAt c).members, (p.entityAt e).owner? = some c) (hc : ¬ S c) :
    Spares S p (p.layoutFields c) := by
  obtain ⟨hr, -⟩ := placeFields_reworks (p.classAt c).members (p.classAt c).members (fun _ h => h) p (p.fieldStart c)
  rw [layoutFields_eq]
  refine trans ⟨.of_continues hr.enlarges.toContinues, fun d _ _ => by rw [hr.classAt], fun e _ he => ?_⟩
    (modifyClass (fun _ => rfl) fun h => absurd h hc)
  exact congrArg (·.field?) (hr.other e fun hmem => hc (he c (hm e hmem)))

end Spares

namespace Steady

variable {trap : EntityId} {im : Image}

lemma refl (p : Program) : Steady p p := ⟨⟨.refl p, fun _ _ _ => rfl, fun _ _ _ => rfl⟩, rfl⟩

lemma trans (h : Steady p p') (h' : Steady p' p'') : Steady p p'' :=
  ⟨h.toSpares.trans h'.toSpares, h'.same.trans h.same⟩

lemma modifyClass (hbirth : ∀ info, (f info).birth = info.birth)
    (hplan : ∀ info, (f info).plan = info.plan) : Steady p (p.modifyClass c f) :=
  ⟨.modifyClass hbirth fun _ => hplan, by simp⟩

lemma modifyEntity {f : Entity → Entity} (hlabel : ∀ entity, (f entity).label = entity.label)
    (hfield : ∀ entity, (f entity).field? = entity.field?) : Steady p (p.modifyEntity e f) :=
  ⟨⟨⟨⟨le_rfl, by simp, fun _ _ => rfl⟩, fun _ _ => modifyEntity_congr (·.label) (hlabel _)⟩, fun _ _ _ => rfl,
    fun _ _ _ => modifyEntity_congr (·.field?) (hfield _)⟩, rfl⟩

lemma modifyMethod (f : Method → Method) : Steady p (p.modifyMethod e f) := by
  refine modifyEntity (fun entity => ?_) fun entity => ?_
  · cases entity.kind <;> rfl
  · cases hk : entity.kind <;> simp [Entity.field?, hk]

lemma enter (trap : EntityId) (t : VTable) (members : List EntityId) : Steady p (VTable.enter trap p t members).2 := by
  induction members generalizing p t with
  | nil => exact .refl p
  | cons e rest ih =>
    unfold VTable.enter
    split
    · exact ih t
    · split
      · exact ih t
      · exact (modifyMethod _).trans (ih _)

lemma layoutVTable (h : p.layoutVTable c trap = .ok p') : Steady p p' := by
  unfold Program.layoutVTable at h
  simp only [] at h
  split at h
  · obtain ⟨entries, -, h⟩ := except_bind_ok.1 h
    cases h
    refine ((enter trap _ _).trans (modifyEntity ?_ ?_)).trans (modifyClass ?_ ?_) <;> exact fun _ => rfl
  · cases h
    exact .refl p

lemma of_supplies {im' : Image} {T : EntityId → Prop} (h : im.Supplies T im') : Steady im.program im'.program := by
  refine ⟨⟨⟨⟨by rw [h.classes], h.size, fun c _ => by rw [h.classAt]⟩, fun e he => by rw [h.entityAt e he]⟩,
    fun c _ _ => by rw [h.classAt], fun e he _ => ?_⟩, by rw [h.classes]⟩
  exact congrArg (·.field?) (h.entityAt e he)

lemma of_emit {classVTable? : Option EntityId} :
    Ends (ClassObject.emit classVTable? trap c im) (fun _ im' => Steady im.program im'.program)
      fun im' => Steady im.program im'.program := by
  cases ho : (im.program.classAt c).classObject? with
  | none =>
    apply ends_get_bind
    simp only [ho]; exact ends_pure (.refl _)
  | some o =>
    refine (ClassObject.emit_ends classVTable? trap c ho).imp ?_ fun _ h => of_supplies h
    rintro _ _ ⟨im1, values, tableOf, entriesOf, h, rfl, -⟩
    exact (of_supplies h).trans (modifyEntity (fun _ => rfl) fun _ => rfl)

end Steady

end Program

/-! ## Calls -/

variable {source : ClassSource} {finalize : ClassId → Load Unit} {c : ClassId} {file : ClassFile} {C : Contract World}
  {entity : Entity} {p : Program}

/-- Steps that leave the layout of all classes alone are within the contract. -/
def Tolerates (C : Contract World) : Prop :=
  ∀ w w' : World, C.inv w → w.program.Steady w'.program → w'.names = w.names → w'.finalizing = w.finalizing →
    C.inv w' ∧ C.does w w'

namespace Tolerates

variable (ht : Tolerates C) {α : Type}

include ht

lemma onProgram {f : Program → α × Program} (hf : ∀ p : Program, p.Steady (f p).2) : C.Honours (onProgram f) :=
  fun w hw => ht w _ hw (hf w.program) rfl rfl

lemma modifyProgram {f : Program → Program} (hf : ∀ p : Program, p.Steady (f p)) : C.Honours (Load.modifyProgram f) :=
  ht.onProgram hf

lemma modifyClass (hbirth : ∀ info, (f info).birth = info.birth)
    (hplan : ∀ info, (f info).plan = info.plan) : C.Honours (Load.modifyClass c f) :=
  ht.modifyProgram fun _ => .modifyClass hbirth hplan

lemma onImage {f : Image → α × Image} (hf : ∀ im : Image, im.Supplies (fun _ => False) (f im).2) :
    C.Honours (onImage f) :=
  fun w hw => ht w _ hw (.of_supplies (hf w.image)) rfl rfl

/-- What is left of the layout of a class once its fields have their places. -/
lemma layoutTables : C.Honours (do
    let trap ← Load.onImage fun im => im.function .throwAbstractMethodError
    let p ← pureStep ((← get).program.layoutVTable c trap)
    Load.modifyProgram fun _ => p
    let w ← get
    if !(w.classAt c).isExtern then
      let classVTable? := (w.named? classClassName).bind fun k => (w.classAt k).vtable?
      imageStep (ClassObject.emit classVTable? trap c) : Load Unit) := by
  refine (ht.onImage fun im => (im.supplies_function _).1).bind fun trap w hw => ?_
  refine ends_pureStep_bind (fun p hp => ?_) (C.fails_refl hw)
  apply ends_modifyProgram_bind
  obtain ⟨hw1, h1⟩ := ht w (w.modifyProgram fun _ => p) hw (.layoutVTable hp) rfl rfl
  refine C.ends_then h1 ?_
  refine (Contract.Honours.get fun w => .ite (fun w hw => ?_) .pure : C.Honours _) _ hw1
  refine ends_imageStep (Program.Steady.of_emit.imp (fun _ im h => ht w _ hw h rfl rfl) fun im h => ?_)
  obtain ⟨hw2, h2⟩ := ht w { w with image := im } hw h rfl rfl
  exact C.fails_trans h2 (C.fails_refl hw2)

section

variable (hnamed : ∀ name, C.Honours (classNamed source name)) (hfinalize : ∀ c, C.Honours (finalizeClass source c))

include hnamed hfinalize

lemma rules : LoadRules source C where
  image := ht.onImage
  note _ _ hf := ht.modifyClass (fun info => (congrArg birth (hf info) :)) fun info => (congrArg plan (hf info) :)
  classNamed := hnamed
  finalizeClass := hfinalize

lemma constructMethods (methods : List (Member × EntityId)) : C.Honours (constructMethods source c file methods) := by
  induction methods with
  | nil => exact .pure
  | cons method rest ih =>
    refine .ite (.bind (methodGraph_honours ((ht.rules hnamed hfinalize).refs _).world _ _) fun g => ?_) ih
    exact .bind (ht.modifyProgram fun p => .modifyMethod _) fun _ => ih

/-- A contract for lookups and finalizations is one for all calls. -/
lemma call (call : Call) : C.Honours (call.run source) := by
  refine (ht.rules hnamed hfinalize).call (fun c => .get fun w => .ite .pure ?_) call
  refine (honours_classFileOf c).bind fun file => (ht.constructMethods hnamed hfinalize _).bind fun _ => ?_
  exact ht.modifyClass (fun _ => rfl) fun _ => rfl

end

end Tolerates

/-! ## Finalizations -/

/-- Entities that can be made members: a field has its place yet to get. -/
def Entity.Placeable (e : Entity) : Prop := ∀ f, e.field? = some f → f.type.IsDescribed ∧ f.offset? = none

lemma placeable_of_fieldEntity {info : ClassInfo} {f : Member}
    (h : fieldEntity info c f = .ok entity) : entity.Placeable := by
  obtain ⟨⟨field, hfield, hplace⟩, -⟩ := fieldEntity_ok h
  intro f' hf'
  cases hfield.symm.trans hf'
  exact hplace

lemma Entity.Placeable.of_method {m : Method} (h : entity.method? = some m) : entity.Placeable :=
  fun _ hf => nomatch (Entity.field?_of_method? h).symm.trans hf

lemma placeable_of_methodEntity {m : Member} (h : methodEntity p c m = .ok entity) : entity.Placeable := by
  obtain ⟨m, -, -, hm, -⟩ := methodEntity_ok h
  exact .of_method hm

lemma placeable_of_standIn {e : EntityId} {implementation? : Option EntityId}
    (h : standIn p c e implementation? = some entity) : entity.Placeable := by
  obtain ⟨m, -, h⟩ := Option.bind_eq_some_iff.1 h
  cases h
  exact .of_method rfl

/-- Rules for what the finalization of class `c` does before it lays out the class. -/
structure GatherRules (source : ClassSource) (finalize : ClassId → Load Unit) (c : ClassId) (file : ClassFile)
    (C : Contract World) : Prop where
  tolerates : Tolerates C
  member : ∀ entity, entity.Placeable → C.Honours (onProgram fun p => p.addMember c entity)
  super : ∀ name, file.superName? = .ok (some name) → C.Honours (do
    let s ← classNamed source name
    finalize s
    let vptr? := ((← get).classAt s).vptr?
    modifyClass c fun info => { info with superclass? := some s, vptr? } : Load Unit)
  interface : ∀ {α : Type} (name : String) {f : ClassId → Load α}, file.Names name → (∀ i, C.Honours (f i)) →
    C.Honours (do
      let i ← classNamed source name
      finalize i
      f i)

namespace GatherRules

variable (R : GatherRules source finalize c file C)

include R

lemma linkSuperclass {superName? : Option String} (h : file.superName? = .ok superName?) :
    C.Honours (linkSuperclass source finalize c superName?) := by
  cases superName? with
  | none =>
    refine .get fun w => (R.tolerates.onProgram fun p => ⟨.newEntity _, by simp⟩).bind fun e =>
      R.tolerates.modifyClass ?_ ?_ <;>
      exact fun _ => rfl
  | some name => exact R.super name h

lemma addFields (fields : List Member) : C.Honours (addFields c fields) := by
  induction fields with
  | nil => exact .pure
  | cons f rest ih =>
    refine .get fun w => honours_read _ fun entity h => (R.member entity ?_).bind fun _ => ih
    exact placeable_of_fieldEntity h

lemma addMethods (methods : List Member) : C.Honours (addMethods c methods) := by
  induction methods with
  | nil => exact .pure
  | cons m rest ih =>
    refine .get fun w => honours_read _ fun entity h => (R.member entity ?_).bind fun _ => ih
    exact placeable_of_methodEntity h

lemma addInterfaces (indices : List UInt16) (h : ∀ index ∈ indices, index ∈ file.interfaces) :
    C.Honours (addInterfaces source finalize c file.pool indices) := by
  induction indices with
  | nil => exact .pure
  | cons index rest ih =>
    obtain ⟨hfirst, hrest⟩ := List.forall_mem_cons.1 h
    refine honours_read _ fun name hname => R.interface name (.inr ⟨index, hfirst, hname⟩) fun i =>
      .bind (R.tolerates.modifyClass ?_ ?_) fun _ => ih hrest <;> exact fun _ => rfl

lemma linkInterfaceMethod (i : ClassId) (e : EntityId) : C.Honours (linkInterfaceMethod c i e) := by
  refine .get fun w => ?_
  simp only []
  split
  · exact .pure
  · refine .ite .pure ?_
    split
    · exact R.tolerates.modifyProgram fun p => .modifyMethod _
    · refine .ite .throw ?_
      split
      · rename_i h; exact (R.member _ (placeable_of_standIn h)).bind fun _ => .pure
      · exact .pure

lemma linkInterface (i : ClassId) (members : List EntityId) : C.Honours (linkInterface c i members) := by
  induction members with
  | nil => exact .pure
  | cons e rest ih => exact (R.linkInterfaceMethod i e).bind fun _ => ih

lemma linkInterfaces (interfaces : List ClassId) : C.Honours (linkInterfaces c interfaces) := by
  induction interfaces with
  | nil => exact .pure
  | cons i rest ih => exact .get fun w => (R.linkInterface i _).bind fun _ => ih

/-- Up to the layout, a finalization keeps to the contract. -/
lemma leads {w : World} {Q : Unit → World → Prop} {last : Load Unit} (hlast : C.Leads w Q last) : C.Leads w Q (do
    JvmGraph.linkSuperclass source finalize c (← pureStep file.superName?)
    JvmGraph.addFields c file.fields
    JvmGraph.addMethods c file.methods
    JvmGraph.addInterfaces source finalize c file.pool file.interfaces
    if !file.isInterface then
      JvmGraph.linkInterfaces c ((← get).program.allInterfaces c)
    last : Load Unit) := by
  intro w' hinv hdoes
  refine ends_pureStep_bind (fun superName? hname => ?_) (C.fails_trans hdoes (C.fails_refl hinv))
  revert w'
  refine (R.linkSuperclass hname).leads fun _ => (R.addFields _).leads fun _ => (R.addMethods _).leads fun _ =>
    (R.addInterfaces _ fun _ h => h).leads fun _ => ?_
  split
  · exact .get fun w => (R.linkInterfaces _).leads fun _ => hlast
  · exact hlast

end GatherRules

end JvmGraph
