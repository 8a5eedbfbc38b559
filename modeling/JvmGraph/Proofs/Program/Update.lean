import Mathlib.Logic.Relation
import Mathlib.Data.List.Chain
import JvmGraph.Proofs.Program.Change

/-!
# How programs change

A program comes about by small changes: classes and entities are added, what is known about a class
changes, fields are placed, methods are linked to those they implement, get graphs, and get slots of
dispatch tables. A slot is only given to a method that has none, so along any history of such changes every
slot stays what it was when it was given. Methods keep their flags and stay members of their classes, and
graphs that select methods of objects go on doing so.
-/

open Relation (ReflTransGen)

namespace JvmGraph

open Option

variable {m : Method} {e x : EntityId}

def Entity.graph? (e : Entity) : Option Graph := e.method?.bind Method.graph?

namespace Program

variable {p p' : Program}

def slotAt? (p : Program) (e : EntityId) : Option Nat := (p.methodAt? e).bind Method.slot?

def graphAt? (p : Program) (e : EntityId) : Option Graph := (p.entityAt e).graph?

def IsInstance (p : Program) (e : EntityId) : Prop := ∃ m, p.methodAt? e = some m ∧ m.isStatic = false

def Selects (p : Program) (g : Graph) : Prop := ∀ n e, (g.node n).op = .methodSel e → p.IsInstance e

inductive Update : Program → Program → Prop
  | addClass (p : Program) (name : String) : Update p (p.newClass name).2
  | addEntity (p : Program) (entity : Entity) (h : entity.method? = none) : Update p (p.newEntity entity).2
  | addMember (p : Program) (c : ClassId) (entity : Entity) (hc : p.HasClass c) (h : entity.graph? = none) :
      Update p (p.addMember c entity).2
  | changeClass (p : Program) (c : ClassId) (f : ClassInfo → ClassInfo)
      (h : (p.classAt c).members ⊆ (f (p.classAt c)).members) : Update p (p.modifyClass c f)
  /-- Gives an entity other contents, or another visibility. -/
  | dress (p : Program) (e : EntityId) (f : Entity → Entity) (h : ∀ x, (f x).kind = x.kind)
      (ho : ∀ x, (f x).owner? = x.owner?) : Update p (p.modifyEntity e f)
  | place (p : Program) (e : EntityId) (f : Field → Field) : Update p (p.modifyField e f)
  | link (p : Program) (e o : EntityId) :
      Update p (p.modifyMethod e fun m => { m with overwrites := m.overwrites ++ [o] })
  | attach (p : Program) (e : EntityId) (g : Graph) (h : p.Selects g) :
      Update p (p.modifyMethod e fun m => { m with graph? := some g })
  | assign (p : Program) (e : EntityId) (slot : Nat) (h : p.slotAt? e = none) :
      Update p (p.modifyMethod e fun m => { m with slot? := some slot })

/-- What several small changes make of a program. -/
abbrev Becomes : Program → Program → Prop := ReflTransGen Update

lemma addMember_snd (p : Program) (c : ClassId) (entity : Entity) : (p.addMember c entity).2 =
      (p.newEntity { entity with owner? := some c }).2.modifyClass c fun info =>
        { info with members := info.members ++ [⟨p.entities.size⟩] } := rfl

lemma entityAt_addMember (p : Program) (c : ClassId) (entity : Entity) (x : EntityId) :
    (p.addMember c entity).2.entityAt x =
      if x.index = p.entities.size then { entity with owner? := some c } else p.entityAt x :=
  entityAt_newEntity p x _

/-- A new member is the last entity, and is owned by its class. -/
lemma addMember_spec {c : ClassId} (entity : Entity) (hc : p.HasClass c) :
    (p.addMember c entity).2.classAt c = { p.classAt c with members := (p.classAt c).members ++ [⟨p.entities.size⟩] } ∧
      (p.addMember c entity).2.HasEntity ⟨p.entities.size⟩ ∧ ∀ x, (p.addMember c entity).2.entityAt x =
        if x.index = p.entities.size then { entity with owner? := some c } else p.entityAt x := by
  refine ⟨?_, ?_, entityAt_addMember p c entity⟩
  · exact classAt_modifyClass_self (p.newEntity { entity with owner? := some c }).2 c
      (f := fun info => { info with members := info.members ++ [⟨p.entities.size⟩] }) hc
  · change _ < (p.addMember c entity).2.entities.size
    simp [addMember_snd]

lemma hasEntity_of_methodAt? (h : p.methodAt? e = some m) : p.HasEntity e := by
  by_contra hne
  simp [methodAt?, p.entityAt_of_not e hne, Entity.method?, Entity.global] at h

section

variable (p : Program) (e x : EntityId) {f : Entity → Entity}

lemma methodAt?_modifyEntity_of_kind (hf : (f (p.entityAt e)).method? = (p.entityAt e).method?) :
    (p.modifyEntity e f).methodAt? x = p.methodAt? x := modifyEntity_congr (·.method?) hf

lemma methodAt?_modifyField (f : Field → Field) : (p.modifyField e f).methodAt? x = p.methodAt? x := by
  apply methodAt?_modifyEntity_of_kind
  cases hk : (p.entityAt e).kind <;> simp [Entity.method?, hk]

end

structure Lasts (m m' : Method) : Prop where
  flags : m'.flags = m.flags
  slot : ∀ slot, m.slot? = some slot → m'.slot? = some slot
  overwrites : m.overwrites ⊆ m'.overwrites

lemma Lasts.refl (m : Method) : Lasts m m := ⟨rfl, fun _ h => h, fun _ h => h⟩

lemma Lasts.trans {m' m'' : Method} (h : Lasts m m') (h' : Lasts m' m'') : Lasts m m'' :=
  ⟨h'.flags.trans h.flags, fun slot hs => h'.slot slot (h.slot slot hs), fun _ ho => h'.overwrites (h.overwrites ho)⟩

lemma lasts_modifyMethod (hm : p.methodAt? x = some m) {f : Method → Method}
    (hf : x = e → Lasts m (f m)) : ∃ m', (p.modifyMethod e f).methodAt? x = some m' ∧ Lasts m m' := by
  rw [methodAt?_modifyMethod]
  by_cases hx : x = e
  · subst hx; exact ⟨f m, by simp [hm], hf rfl⟩
  · exact ⟨m, by simp [hx, hm], .refl m⟩

lemma Update.lasts (h : Update p p') (hm : p.methodAt? x = some m) : ∃ m', p'.methodAt? x = some m' ∧ Lasts m m' := by
  cases h with
  | addClass name => exact ⟨m, hm, .refl m⟩
  | addEntity entity =>
    refine ⟨m, ?_, .refl m⟩
    rwa [methodAt?, p.entityAt_newEntity_of_has entity (hasEntity_of_methodAt? hm)]
  | addMember c entity =>
    refine ⟨m, ?_, .refl m⟩
    rwa [methodAt?, entityAt_addMember, if_neg (ne_of_lt (hasEntity_of_methodAt? hm))]
  | changeClass c f => exact ⟨m, hm, .refl m⟩
  | dress e f hf =>
    refine ⟨m, ?_, .refl m⟩
    rwa [methodAt?_modifyEntity_of_kind]
    simp only [Entity.method?, hf]
  | place e f => exact ⟨m, by rwa [methodAt?_modifyField], .refl m⟩
  | link e o => exact lasts_modifyMethod hm fun _ => ⟨rfl, fun _ h => h, List.subset_append_left _ _⟩
  | attach e g => exact lasts_modifyMethod hm fun _ => ⟨rfl, fun _ h => h, fun _ h => h⟩
  | assign e slot he =>
    refine lasts_modifyMethod hm fun hxe => ⟨rfl, fun s hs => ?_, fun _ h => h⟩
    -- the method that gets a slot has none
    simp [← hxe, slotAt?, hm, hs] at he

namespace Becomes

lemma lasts (h : Becomes p p') (hm : p.methodAt? x = some m) : ∃ m', p'.methodAt? x = some m' ∧ Lasts m m' := by
  induction h with
  | refl => exact ⟨m, hm, .refl m⟩
  | tail _ hstep ih =>
    obtain ⟨m1, hm1, h1⟩ := ih
    obtain ⟨m2, hm2, h2⟩ := hstep.lasts hm1; exact ⟨m2, hm2, h1.trans h2⟩

lemma slotAt?_eq (h : Becomes p p') {slot : Nat} (hs : p.slotAt? e = some slot) : p'.slotAt? e = some slot := by
  obtain ⟨m, hm, hslot⟩ := bind_eq_some_iff.1 hs
  obtain ⟨m', hm', hlast⟩ := h.lasts hm
  exact bind_eq_some_iff.2 ⟨m', hm', hlast.slot slot hslot⟩

lemma isInstance (h : Becomes p p') (he : p.IsInstance e) : p'.IsInstance e := by
  obtain ⟨m, hm, hstatic⟩ := he
  obtain ⟨m', hm', hlast⟩ := h.lasts hm
  exact ⟨m', hm', by rwa [Method.isStatic, hlast.flags]⟩

lemma selects (h : Becomes p p') {g : Graph} (hg : p.Selects g) : p'.Selects g :=
  fun n e he => h.isInstance (hg n e he)

end Becomes

/-! ## Graphs -/

lemma graphAt?_regraph (p : Program) (e x : EntityId) (g? : Option Graph) :
    (p.modifyMethod e fun m => { m with graph? := g? }).graphAt? x =
      if x = e ∧ (p.methodAt? e).isSome then g? else p.graphAt? x := by
  have hgraph : ∀ p : Program, p.graphAt? x = (p.methodAt? x).bind Method.graph? := fun _ => rfl
  rw [hgraph, hgraph, methodAt?_modifyMethod]
  by_cases hx : x = e
  · rw [hx]
    cases hm : p.methodAt? e with
    | none => simp
    | some m => simp
  · rw [if_neg hx, if_neg fun h => hx h.1]

/-! ## Histories -/

structure History (p p' : Program) where
  states : List Program
  nonempty : states ≠ []
  /-- One change leads from each state to the next. -/
  steps : states.IsChain Update
  first : states.head nonempty = p
  last : states.getLast nonempty = p'

lemma Becomes.history (h : Becomes p p') : Nonempty (History p p') := by
  induction h with
  | refl => exact ⟨[p], by simp, by simp, rfl, rfl⟩
  | @tail q r _ hstep ih =>
    obtain ⟨states, nonempty, steps, first, last⟩ := ih
    refine ⟨states ++ [r], by simp, ?_, ?_, by simp⟩
    · refine List.isChain_append.2 ⟨steps, by simp, ?_⟩
      intro x hx y hy
      rw [List.getLast?_eq_some_getLast nonempty, mem_some_iff] at hx
      rw [List.head?_cons, mem_some_iff] at hy; rwa [← hx, ← hy, last]
    · rwa [List.head_append_of_ne_nil nonempty]

def SlotsKept (p p' : Program) : Prop := ∀ e slot, p.slotAt? e = some slot → p'.slotAt? e = some slot

lemma History.slotsKept (h : History p p') : h.states.Pairwise SlotsKept := by
  have : Trans SlotsKept SlotsKept SlotsKept := ⟨fun h1 h2 e slot hs => h2 e slot (h1 e slot hs)⟩
  apply List.IsChain.pairwise
  exact h.steps.imp fun q q' hstep e slot => Becomes.slotAt?_eq (.single hstep)

end Program

end JvmGraph
