import JvmGraph.Proofs.Program.Continues

/-!
# What a change leaves alone

Compiling a method leaves notes with its class and a graph with the method; the rest of a class or an
entity is its declaration. A change that is made for one class touches the declaration of that class and of
the entities that it owns, and no other.
-/

namespace JvmGraph

variable {m : Method} {e : EntityId}

def ClassInfo.decl (c : ClassInfo) : ClassInfo :=
  { c with constructed := false, classLinks := [], memberLinks := [] }

def Method.decl (m : Method) : Method := { m with graph? := none }

def Entity.decl (e : Entity) : Entity :=
  match e.kind with
  | .method m => { e with kind := .method m.decl }
  | _ => e

namespace Entity

variable {e e' : Entity}

lemma decl_eq_self (h : e.method? = none) : e.decl = e := by
  cases hk : e.kind <;> simp_all [decl, method?]

@[simp] lemma name_decl : e.decl.name = e.name := by
  unfold decl
  split <;> rfl

@[simp] lemma owner?_decl : e.decl.owner? = e.owner? := by
  unfold decl
  split <;> rfl

@[simp] lemma initializer?_decl : e.decl.initializer? = e.initializer? := by
  unfold decl
  split <;> rfl

@[simp] lemma method?_decl : e.decl.method? = e.method?.map Method.decl := by
  cases hk : e.kind <;> simp [decl, method?, hk]

lemma name_eq (h : e'.decl = e.decl) : e'.name = e.name := by simpa using congrArg (·.name) h

lemma owner?_eq (h : e'.decl = e.decl) : e'.owner? = e.owner? := by
  simpa using congrArg (·.owner?) h

lemma initializer?_eq (h : e'.decl = e.decl) : e'.initializer? = e.initializer? := by
  simpa using congrArg (·.initializer?) h

lemma field?_of_method? (h : e.method? = some m) : e.field? = none := by
  cases hk : e.kind <;> simp_all [method?, field?]

lemma method?_of_field? {f : Field} (h : e.field? = some f) : e.method? = none := by
  cases hk : e.kind <;> simp_all [method?, field?]

lemma method?_eq (h : e'.decl = e.decl) : e'.method?.map Method.decl = e.method?.map Method.decl := by
  simpa using congrArg (·.method?) h

lemma eq_of_decl (hm : e.method? = none) (h : e'.decl = e.decl) : e' = e := by
  have hm' : e'.method? = none := by
    have := method?_eq h
    rw [hm] at this; simpa using this
  rw [← decl_eq_self hm, ← decl_eq_self hm', h]

lemma face_of_decl (h : e'.decl = e.decl) : e'.face = e.face := by
  have hdecl : ∀ x : Entity, x.decl.face = x.face := by
    intro x; cases hk : x.kind <;> simp [decl, face, EntityKind.face, hk, Method.face, Method.decl]
  rw [← hdecl e, ← hdecl e', h]

end Entity

namespace Program

def declAt? (p : Program) (e : EntityId) : Option Method := (p.methodAt? e).map Method.decl

lemma declAt?_eq_method? (p : Program) (e : EntityId) : p.declAt? e = (p.entityAt e).decl.method? := by
  simp [declAt?, methodAt?]

lemma declAt?_of_methodAt? {p : Program} (h : p.methodAt? e = some m) : p.declAt? e = some m.decl := by
  simp [declAt?, h]

lemma implementation?_declAt? (p : Program) (e : EntityId) :
    (p.methodAt? e).bind Method.implementation? = (p.declAt? e).bind Method.implementation? := by
  simp only [declAt?]
  cases p.methodAt? e <;> rfl

lemma slotAt?_eq (p : Program) (e : EntityId) : p.slotAt? e = (p.declAt? e).bind Method.slot? := by
  simp only [slotAt?, declAt?]
  cases p.methodAt? e <;> rfl

/-- From `p` to `p'`, the classes in `S` and the entities that are owned by none but classes in `S` stay as they
are, and all others stay what they are. -/
structure Keeps (S : ClassId → Prop) (p p' : Program) : Prop extends Continues p p' where
  becomes : Becomes p p'
  kept : ∀ c, p.HasClass c → S c → (p'.classAt c).decl = (p.classAt c).decl
  owned : ∀ e, p.HasEntity e → (∀ c, (p.entityAt e).owner? = some c → S c) →
    (p'.entityAt e).decl = (p.entityAt e).decl

lemma decl_regraph {p : Program} {e x : EntityId} {g? : Option Graph} :
    ((p.modifyMethod e fun m => { m with graph? := g? }).entityAt x).decl = (p.entityAt x).decl := by
  refine modifyEntity_congr (·.decl) ?_
  cases hk : (p.entityAt e).kind <;> simp [Entity.decl, hk, Method.decl]

namespace Keeps

variable {S T : ClassId → Prop} {p p' p'' : Program} {c : ClassId}

lemma refl (S : ClassId → Prop) (p : Program) : Keeps S p p :=
  ⟨.refl p, .refl, fun _ _ _ => rfl, fun _ _ _ => rfl⟩

lemma mono (h : Keeps S p p') (hST : ∀ c, T c → S c) : Keeps T p p' where
  toContinues := h.toContinues
  becomes := h.becomes
  kept := fun c hc hs => h.kept c hc (hST c hs)
  owned := fun e he hs => h.owned e he fun c ho => hST c (hs c ho)

lemma trans (h : Keeps S p p') (h' : Keeps S p' p'') : Keeps S p p'' where
  toContinues := h.toContinues.trans h'.toContinues
  becomes := h.becomes.trans h'.becomes
  kept := fun c hc hs => (h'.kept c (h.hasClass hc) hs).trans (h.kept c hc hs)
  owned := fun e he hs => by
    have h1 := h.owned e he hs
    refine (h'.owned e (h.hasEntity he) ?_).trans h1
    intro c ho; exact hs c (Entity.owner?_eq h1 ▸ ho)

lemma modifyClass {f : ClassInfo → ClassInfo} (hbirth : (f (p.classAt c)).birth = (p.classAt c).birth)
    (hmembers : (p.classAt c).members <+: (f (p.classAt c)).members)
    (hf : S c → (f (p.classAt c)).decl = (p.classAt c).decl) : Keeps S p (p.modifyClass c f) where
  toContinues := .modifyClass hbirth hmembers
  becomes := .single (.changeClass p c f hmembers.subset)
  kept := fun d _ hs => by
    rw [classAt_modifyClass]
    split
    · rename_i h; rw [h.1] at hs ⊢; exact hf hs
    · rfl
  owned := fun _ _ _ => rfl

lemma newEntity (entity : Entity) (h : entity.method? = none) : Keeps S p (p.newEntity entity).2 where
  toContinues := (Enlarges.newEntity (by simp [Entity.graph?, h])).toContinues
  becomes := .single (.addEntity p entity h)
  kept := fun _ _ _ => rfl
  owned := fun e he _ => by rw [entityAt_newEntity_of_has p entity he]

lemma addMember {entity : Entity} (hg : entity.graph? = none) (hc : p.HasClass c) (hS : ¬ S c) :
    Keeps S p (p.addMember c entity).2 where
  toContinues := (Enlarges.addMember hg).toContinues
  becomes := .single (.addMember p c entity hc hg)
  kept := fun d _ hd => by
    have hdc : d ≠ c := by rintro rfl; exact hS hd
    rw [addMember_snd, classAt_modifyClass_ne _ c d hdc]; rfl
  owned := fun e he _ => by rw [entityAt_addMember, if_neg (ne_of_lt he)]

lemma modifyEntity {f : Entity → Entity} (hu : Update p (p.modifyEntity e f)) (hc : Continues p (p.modifyEntity e f))
    (ho : (p.entityAt e).owner? = some c) (hS : ¬ S c) : Keeps S p (p.modifyEntity e f) where
  toContinues := hc
  becomes := .single hu
  kept := fun _ _ _ => rfl
  owned := fun x _ hx => by
    have hne : x ≠ e := by rintro rfl; exact hS (hx c ho)
    rw [entityAt_modifyEntity_ne p e x hne]

lemma attach (e : EntityId) {g : Graph} (hg : p.Selects g) :
    Keeps S p (p.modifyMethod e fun m => { m with graph? := some g }) where
  toContinues := .attach e g
  becomes := .single (.attach p e g hg)
  kept := fun _ _ _ => rfl
  owned := fun _ _ _ => decl_regraph

end Keeps

end Program

end JvmGraph
