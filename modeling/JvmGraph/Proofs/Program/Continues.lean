import JvmGraph.Proofs.Program.Update

/-!
# What never changes

Loading, linking and laying out a class change what is known about it: its members get places and slots, its
tables get contents. What a class is from its beginning and what its entities are called and declared as stays the
same from then on, and members are only ever added at the end.
-/

namespace JvmGraph

open List

variable {f : ClassFile} {entity : Entity}

/-- What is known about a class once it is loaded. -/
def ClassInfo.origin (c : ClassInfo) : ClassInfo where
  name := c.name
  file? := c.file?
  flags := c.flags
  isExtern := c.isExtern
  state := c.state
  vtable? := c.vtable?
  classObject? := c.classObject?

def ClassInfo.birth (c : ClassInfo) : ClassInfo := { c.origin with state := .loaded }

/-- How far the methods of a class are compiled, and what is noted of its constants on the way. -/
def ClassInfo.progress (c : ClassInfo) : ClassInfo where
  name := ""
  constructed := c.constructed
  classLinks := c.classLinks
  memberLinks := c.memberLinks

def Method.face (m : Method) : Method := { m with overwrites := [], slot? := none, graph? := none }

def EntityKind.face : EntityKind → EntityKind
  | .method m => .method m.face
  | .field f => .field { f with offset? := none }
  | kind => kind

/-- An entity without what is found out about it by and by: the contents of a table count as such, those of a static
field do not. -/
def Entity.face (e : Entity) : Entity :=
  { e with
    kind := e.kind.face
    initializer? := match e.kind with
      | .data => none
      | _ => e.initializer? }

namespace Entity

variable {e e' : Entity}

section

variable (h : e'.face = e.face)

include h

lemma name_of_face : e'.name = e.name := (congrArg (·.name) h :)

lemma symbol_of_face : e'.symbol = e.symbol := (congrArg (·.symbol) h :)

lemma owner?_of_face : e'.owner? = e.owner? := (congrArg (·.owner?) h :)

lemma visibility_of_face : e'.visibility = e.visibility := (congrArg (·.visibility) h :)

lemma kind_of_face : e'.kind.face = e.kind.face := (congrArg (·.kind) h :)

end

lemma method?_face : e.face.method? = e.method?.map Method.face := by
  cases hk : e.kind <;> simp [face, EntityKind.face, method?, hk]

section

variable (h : e'.face = e.face)

include h

lemma method?_of_face : e'.method?.map Method.face = e.method?.map Method.face := by
  rw [← method?_face, h, method?_face]

lemma isMethod_of_face : e'.method?.isSome = e.method?.isSome := by
  simpa using congrArg Option.isSome (method?_of_face h)

lemma data_of_face : e'.kind = .data ↔ e.kind = .data := by
  have hface : ∀ k : EntityKind, k.face = .data ↔ k = .data := by
    intro k; cases k <;> simp [EntityKind.face]
  rw [← hface, kind_of_face h, hface]

lemma initializer?_of_face (hk : e.kind ≠ .data) : e'.initializer? = e.initializer? := by
  have hself : ∀ x : Entity, x.kind ≠ .data → x.face.initializer? = x.initializer? := by
    intro x hx; cases hk : x.kind <;> simp_all [face]
  rw [← hself e hk, ← hself e' (fun hd => hk ((data_of_face h).1 hd)), h]

lemma eq_of_face {params : List Mode} {result? : Option Mode} (hk : e.kind = .function params result?) : e' = e := by
  have hk' : e'.kind = .function params result? := by
    have hface := kind_of_face h
    rw [hk] at hface
    revert hface
    cases e'.kind <;> simp [EntityKind.face]
  have hself : ∀ x : Entity, x.kind = .function params result? → x.face = x := by rintro ⟨⟩ rfl; rfl
  rw [← hself e hk, ← hself e' hk', h]

end

end Entity

namespace Program

/-- Classes and entities are only added. -/
structure Grows (p p' : Program) : Prop where
  classes : p.classes.size ≤ p'.classes.size
  entities : p.entities.size ≤ p'.entities.size
  birth : ∀ c, p.HasClass c → (p'.classAt c).birth = (p.classAt c).birth

structure Continues (p p' : Program) : Prop extends Grows p p' where
  members : ∀ c, p.HasClass c → (p.classAt c).members <+: (p'.classAt c).members
  face : ∀ e, p.HasEntity e → (p'.entityAt e).face = (p.entityAt e).face

structure Idle (p p' : Program) : Prop where
  graph : ∀ e, p'.graphAt? e = p.graphAt? e
  progress : ∀ c, (p'.classAt c).progress = (p.classAt c).progress

/-- What classes and entities are stays so, and no method is compiled. -/
structure Enlarges (p p' : Program) : Prop extends Continues p p', Idle p p'

variable {p p' p'' : Program} {c : ClassId} {e : EntityId}

lemma hasClass_of_file (h : (p.classAt c).file? = some f) : p.HasClass c := by
  by_contra hc
  simp [p.classAt_of_not c hc] at h

namespace Grows

lemma refl (p : Program) : Grows p p := ⟨le_rfl, le_rfl, fun _ _ => rfl⟩

variable (h : Grows p p')

include h

lemma hasClass (hc : p.HasClass c) : p'.HasClass c := lt_of_lt_of_le hc h.classes

lemma hasEntity (he : p.HasEntity e) : p'.HasEntity e := lt_of_lt_of_le he h.entities

lemma trans (h' : Grows p' p'') : Grows p p'' where
  classes := h.classes.trans h'.classes
  entities := h.entities.trans h'.entities
  birth c hc := (h'.birth c (h.hasClass hc)).trans (h.birth c hc)

lemma name (hc : p.HasClass c) : (p'.classAt c).name = (p.classAt c).name :=
  (congrArg (·.name) (h.birth c hc) :)

lemma file (hc : p.HasClass c) : (p'.classAt c).file? = (p.classAt c).file? :=
  (congrArg (·.file?) (h.birth c hc) :)

lemma isExtern (hc : p.HasClass c) : (p'.classAt c).isExtern = (p.classAt c).isExtern :=
  (congrArg (·.isExtern) (h.birth c hc) :)

lemma vtable? (hc : p.HasClass c) : (p'.classAt c).vtable? = (p.classAt c).vtable? :=
  (congrArg (·.vtable?) (h.birth c hc) :)

lemma classObject? (hc : p.HasClass c) : (p'.classAt c).classObject? = (p.classAt c).classObject? :=
  (congrArg (·.classObject?) (h.birth c hc) :)

lemma file_eq_some (hf : (p.classAt c).file? = some f) : (p'.classAt c).file? = some f :=
  (h.file (hasClass_of_file hf)).trans hf

end Grows

namespace Continues

lemma refl (p : Program) : Continues p p := ⟨.refl p, fun _ _ => prefix_rfl, fun _ _ => rfl⟩

lemma trans (h : Continues p p') (h' : Continues p' p'') : Continues p p'' where
  toGrows := h.toGrows.trans h'.toGrows
  members c hc := (h.members c hc).trans (h'.members c (h.hasClass hc))
  face e he := (h'.face e (h.hasEntity he)).trans (h.face e he)

lemma attach (e : EntityId) (g : Graph) : Continues p (p.modifyMethod e fun m => { m with graph? := some g }) := by
  refine ⟨⟨le_rfl, by simp, fun _ _ => rfl⟩, fun _ _ => prefix_rfl, fun x _ => modifyEntity_congr (·.face) ?_⟩
  cases hk : (p.entityAt e).kind <;> simp [Entity.face, EntityKind.face, hk, Method.face]

lemma modifyClass {f : ClassInfo → ClassInfo} (hbirth : (f (p.classAt c)).birth = (p.classAt c).birth)
    (hmembers : (p.classAt c).members <+: (f (p.classAt c)).members) : Continues p (p.modifyClass c f) := by
  refine ⟨⟨by simp, le_rfl, fun d _ => modifyClass_congr (·.birth) hbirth⟩, fun d _ => ?_, fun _ _ => rfl⟩
  rw [classAt_modifyClass]
  split
  · rename_i hd; rwa [hd.1]
  · exact prefix_rfl

end Continues

namespace Idle

lemma refl (p : Program) : Idle p p := ⟨fun _ => rfl, fun _ => rfl⟩

lemma trans (h : Idle p p') (h' : Idle p' p'') : Idle p p'' :=
  ⟨fun e => (h'.graph e).trans (h.graph e), fun c => (h'.progress c).trans (h.progress c)⟩

lemma constructed (h : Idle p p') (c : ClassId) : (p'.classAt c).constructed = (p.classAt c).constructed :=
  (congrArg (·.constructed) (h.progress c) :)

end Idle

namespace Enlarges

lemma trans (h : Enlarges p p') (h' : Enlarges p' p'') : Enlarges p p'' :=
  ⟨h.toContinues.trans h'.toContinues, h.toIdle.trans h'.toIdle⟩

lemma newEntity (hg : entity.graph? = none) : Enlarges p (p.newEntity entity).2 := by
  refine ⟨⟨⟨le_rfl, by simp, fun _ _ => rfl⟩, fun _ _ => prefix_rfl, fun e he => ?_⟩, fun e => ?_, fun _ => rfl⟩
  · rw [entityAt_newEntity_of_has p entity he]
  · rw [graphAt?, entityAt_newEntity]
    split
    · rename_i he
      have hnot : ¬ p.HasEntity e := by simp [HasEntity, he]
      rw [hg, graphAt?, entityAt_of_not p e hnot]; rfl
    · rfl

lemma modifyClass {f : ClassInfo → ClassInfo} (hbirth : (f (p.classAt c)).birth = (p.classAt c).birth)
    (hmembers : (p.classAt c).members <+: (f (p.classAt c)).members)
    (hdone : (f (p.classAt c)).progress = (p.classAt c).progress) : Enlarges p (p.modifyClass c f) :=
  ⟨.modifyClass hbirth hmembers, fun _ => rfl, fun _ => modifyClass_congr (·.progress) hdone⟩

lemma addMember (hg : entity.graph? = none) : Enlarges p (p.addMember c entity).2 := by
  rw [addMember_snd]
  have hnew : Enlarges p (p.newEntity { entity with owner? := some c }).2 := newEntity hg
  exact hnew.trans (modifyClass rfl (prefix_append _ _) rfl)

lemma of_entities (hclasses : p'.classes = p.classes) (hsize : p'.entities.size = p.entities.size)
    (hface : ∀ e, (p'.entityAt e).face = (p.entityAt e).face) (hg : ∀ e, p'.graphAt? e = p.graphAt? e) :
    Enlarges p p' := by
  have hat : ∀ c, p'.classAt c = p.classAt c := fun c => by rw [classAt, classAt, hclasses]
  exact ⟨⟨⟨by rw [hclasses], by rw [hsize], fun c _ => by rw [hat]⟩, fun c _ => hat c ▸ prefix_rfl,
    fun e _ => hface e⟩, hg, fun c => by rw [hat]⟩

lemma modifyEntity {f : Entity → Entity} (hface : (f (p.entityAt e)).face = (p.entityAt e).face)
    (hg : (f (p.entityAt e)).graph? = (p.entityAt e).graph?) : Enlarges p (p.modifyEntity e f) :=
  of_entities rfl (by simp) (fun _ => modifyEntity_congr (·.face) hface) fun _ => modifyEntity_congr (·.graph?) hg

lemma modifyMethod {f : Method → Method} (hface : ∀ m, (f m).face = m.face) (hg : ∀ m, (f m).graph? = m.graph?) :
    Enlarges p (p.modifyMethod e f) := by
  apply modifyEntity
  · cases hk : (p.entityAt e).kind <;> simp [Entity.face, EntityKind.face, hk, hface]
  · cases hk : (p.entityAt e).kind <;> simp [Entity.graph?, Entity.method?, hk, hg]

lemma fillTable (hk : (p.entityAt e).kind = .data) (contents : Initializer) :
    Enlarges p (p.modifyEntity e fun x => { x with initializer? := some contents }) := by
  apply modifyEntity
  · simp [Entity.face, hk]
  · rfl

end Enlarges

end Program

end JvmGraph
