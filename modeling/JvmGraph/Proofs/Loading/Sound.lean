import JvmGraph.Proofs.Loading.Keeps
import JvmGraph.Proofs.Steps

/-!
# Worlds in order

What holds of the classes and entities of a world at all times while classes are loaded and finalized.
Every member, dispatch table and class object is owned by its class, and nothing is known about the
supertypes and members of a class before its finalization begins.
-/

open Relation (ReflTransGen TransGen)

namespace JvmGraph

open Steps Program ClassInfo

def ClassFile.Names (f : ClassFile) (name : String) : Prop :=
  f.superName? = .ok (some name) ∨ ∃ index ∈ f.interfaces, f.pool.className index = .ok name

instance (f : ClassFile) (name : String) : Decidable (f.Names name) :=
  inferInstanceAs (Decidable (_ ∨ ∃ index ∈ f.interfaces, f.pool.className index = .ok name))

def ClassInfo.lineage (c : ClassInfo) : ClassInfo where
  name := ""
  superclass? := c.superclass?
  interfaces := c.interfaces
  members := c.members
  vtableSize := c.vtableSize

namespace Program

variable {p p' : Program} {a c : ClassId} {S : ClassId → Prop}

def Above (p : Program) (a b : ClassId) : Prop :=
  p.HasClass a ∧ ∃ f, (p.classAt b).file? = some f ∧ f.Names (p.classAt a).name

instance (p : Program) (a b : ClassId) : Decidable (p.Above a b) :=
  match h : (p.classAt b).file? with
  | none => .isFalse fun ⟨_, f, hf, _⟩ => by simp [h] at hf
  | some f => decidable_of_iff (a.index < p.classes.size ∧ f.Names (p.classAt a).name) (by simp [Above, HasClass, h])

/-- The supertypes of `c`, and `c` itself, are not their own supertypes. -/
def Grounded (p : Program) (c : ClassId) : Prop :=
  ∀ a, ReflTransGen p.Above a c → ¬ TransGen p.Above a a

lemma Grounded.of_above (h : p.Grounded c) (ha : p.Above a c) : p.Grounded a :=
  fun b hb => h b (hb.tail ha)

lemma Grows.above {b : ClassId} (h : Grows p p') (hab : p.Above a b) : p'.Above a b := by
  obtain ⟨ha, f, hf, hn⟩ := hab
  exact ⟨h.hasClass ha, f, h.file_eq_some hf, by rwa [h.name ha]⟩

lemma Grows.transGen {b : ClassId} (h : Grows p p') (hab : TransGen p.Above a b) : TransGen p'.Above a b :=
  TransGen.mono (fun _ _ => h.above) a b hab

lemma Keeps.grounded (h : Keeps S p p') (hc : p'.Grounded c) : p.Grounded c := by
  intro a ha hcycle
  refine hc a ?_ ?_
  · exact ReflTransGen.mono (fun _ _ => h.above) a c ha
  · exact h.transGen hcycle

abbrev Finalized (p : Program) (c : ClassId) : Prop := (p.classAt c).state = .finalized

def IsTableOf (q : Program) (c : ClassId) (e : EntityId) : Prop :=
  (q.classAt c).vtable? = some e ∨ (q.classAt c).classObject? = some e

lemma isTableOf_congr {e : EntityId} (hv : (p'.classAt c).vtable? = (p.classAt c).vtable?)
    (ho : (p'.classAt c).classObject? = (p.classAt c).classObject?) : p'.IsTableOf c e ↔ p.IsTableOf c e := by
  simp [IsTableOf, hv, ho]

end Program

abbrev ClassInfo.Extends (info : ClassInfo) (s : ClassId) : Prop := info.superclass? = some s ∨ s ∈ info.interfaces

namespace World

abbrev HasClass (w : World) (c : ClassId) : Prop := w.program.HasClass c

abbrev HasEntity (w : World) (e : EntityId) : Prop := w.program.HasEntity e

lemma hasClass_iff {w w' : World} {c : ClassId} (hsize : w'.program.classes.size = w.program.classes.size) :
    w'.HasClass c ↔ w.HasClass c := by
  rw [HasClass, HasClass, Program.HasClass, Program.HasClass, hsize]

structure Keeps (S : ClassId → Prop) (w w' : World) : Prop where
  program : w.program.Keeps S w'.program
  named : ∀ name c, w.named? name = some c → w'.named? name = some c
  functions : ∀ f e, w.image.functions.lookup f = some e → w'.image.functions.lookup f = some e
  records : w.image.strings.records <+: w'.image.strings.records
  literals : w.image.strings.literals <+: w'.image.strings.literals

namespace Keeps

variable {S T : ClassId → Prop} {w w' w'' : World}

lemma refl (S : ClassId → Prop) (w : World) : Keeps S w w :=
  ⟨.refl S _, fun _ _ h => h, fun _ _ h => h, List.prefix_rfl, List.prefix_rfl⟩

lemma trans (h : Keeps S w w') (h' : Keeps S w' w'') : Keeps S w w'' where
  program := h.program.trans h'.program
  named := fun name c hn => h'.named name c (h.named name c hn)
  functions := fun f e hf => h'.functions f e (h.functions f e hf)
  records := h.records.trans h'.records
  literals := h.literals.trans h'.literals

lemma mono (h : Keeps S w w') (hST : ∀ c, T c → S c) : Keeps T w w' :=
  { h with program := h.program.mono hST }

lemma decl_eq (h : Keeps S w w') (hsize : w'.program.classes.size = w.program.classes.size) {c : ClassId} (hc : S c) :
    (w'.classAt c).decl = (w.classAt c).decl := by
  by_cases hh : w.HasClass c
  · exact h.program.kept c hh hc
  · rw [classAt, classAt, classAt_of_not _ c hh, classAt_of_not _ c (mt (hasClass_iff hsize).1 hh)]

end Keeps

abbrev Finalized (w : World) (c : ClassId) : Prop := (w.classAt c).state = .finalized

/-- The declaration of a class that is finalized, or on the way to it, is left alone by others. -/
def Protected (w : World) (c : ClassId) : Prop :=
  (w.classAt c).state = .finalized ∨ c ∈ w.finalizing

def functionEntity (f : RuntimeFunction) : Entity :=
  .global f.symbol (.function f.params f.result?) .external none

/-- Runtime functions that are new are what they are asked for. -/
def AddsFunctions (w w' : World) : Prop :=
  ∀ f e, w'.image.functions.lookup f = some e → w.image.functions.lookup f = some e ∨
    w'.HasEntity e ∧ w'.program.entityAt e = functionEntity f

structure Sound (w : World) : Prop where
  named : ∀ name c, w.named? name = some c → w.HasClass c ∧ (w.classAt c).name = name
  member : ∀ c, ∀ e ∈ (w.classAt c).members,
    w.HasEntity e ∧ (w.program.entityAt e).owner? = some c
  members_nodup : ∀ c, (w.classAt c).members.Nodup
  vtable : ∀ c v, (w.classAt c).vtable? = some v → w.HasEntity v ∧
    (w.program.entityAt v).owner? = some c ∧ (w.program.entityAt v).kind = .data ∧
      (w.program.entityAt v).name = "vtable"
  classObject : ∀ c o, (w.classAt c).classObject? = some o → w.HasEntity o ∧
    (w.program.entityAt o).owner? = some c ∧ (w.program.entityAt o).kind = .data ∧
      (w.program.entityAt o).name = Symbol.classObjectName
  filed : ∀ c, w.HasClass c → ∃ f, (w.classAt c).file? = some f ∧ f.name = .ok (w.classAt c).name
  loaded : ∀ c f, (w.classAt c).file? = some f → (w.classAt c).flags = f.flags ∧
    ((w.classAt c).vtable?.isSome ↔ (w.classAt c).isInterface = false) ∧ (w.classAt c).classObject?.isSome
  finalizing : ∀ c ∈ w.finalizing, w.HasClass c ∧ (w.classAt c).state ≠ .finalized
  fresh : ∀ c, ¬ w.Protected c → (w.classAt c).superclass? = none ∧ (w.classAt c).interfaces = [] ∧
    (w.classAt c).members = [] ∧ (w.classAt c).vtableSize = 0
  functions : ∀ f e, w.image.functions.lookup f = some e →
    w.HasEntity e ∧ w.program.entityAt e = functionEntity f

lemma hasClass_of_state {p : Program} {c : ClassId} (h : (p.classAt c).state ≠ .placeholder) : p.HasClass c := by
  by_contra hc
  rw [p.classAt_of_not c hc] at h
  exact h rfl

variable {w : World} {c : ClassId} {e : EntityId}

lemma Sound.hasClass (h : w.Sound) (hc : w.Protected c) : w.HasClass c := by
  rcases hc with hc | hc
  · apply hasClass_of_state
    intro hp; simp [classAt, hp] at hc
  · exact (h.finalizing c hc).1

lemma Sound.isTableOf (h : w.Sound) (he : w.program.IsTableOf c e) :
    w.HasEntity e ∧ (w.program.entityAt e).owner? = some c ∧ (w.program.entityAt e).kind = .data := by
  rcases he with he | he
  · exact ⟨(h.vtable c e he).1, (h.vtable c e he).2.1, (h.vtable c e he).2.2.1⟩
  · exact ⟨(h.classObject c e he).1, (h.classObject c e he).2.1, (h.classObject c e he).2.2.1⟩

lemma hasClass_of_table (h : w.program.IsTableOf c e) : w.HasClass c := by
  by_contra hc
  rw [Program.IsTableOf, classAt_of_not _ c hc] at h
  rcases h with h | h <;> cases h

lemma Sound.vtable_ne_classObject (h : w.Sound) {v : EntityId}
    (hv : (w.classAt c).vtable? = some v) : (w.classAt c).classObject? ≠ some v := by
  intro ho
  have hname := (h.vtable c v hv).2.2.2.symm.trans (h.classObject c v ho).2.2.2
  exact absurd hname (by decide)

/-! ## Changes that keep a world in order -/

lemma classAt_empty (c : ClassId) : ({} : World).classAt c = { name := "" } :=
  classAt_of_not _ c (by simp [Program.HasClass, World.program])

namespace Sound

variable {w' : World}

lemma empty : Sound {} where
  named := fun _ _ h => by cases h
  member := fun c e he => by
    cases he
  members_nodup := fun c => by
    exact List.nodup_nil
  vtable := fun c v hv => by
    cases hv
  classObject := fun c o ho => by
    cases ho
  filed := fun _ hc => absurd hc (Nat.not_lt_zero _)
  loaded := fun c f hf => by
    cases hf
  finalizing := fun _ h => by cases h
  fresh := fun c _ => by
    exact ⟨rfl, rfl, rfl, rfl⟩
  functions := fun _ _ h => by cases h

lemma continues (h : w.Sound) (hk : w.program.Continues w'.program)
    (hsize : w'.program.classes.size = w.program.classes.size) (hnames : w'.names = w.names)
    (hfunctions : AddsFunctions w w')
    (hfinalizing : ∀ c ∈ w'.finalizing, c ∈ w.finalizing ∧ (w'.classAt c).state = (w.classAt c).state)
    (hmember : ∀ c, ∀ e ∈ (w'.classAt c).members, e ∈ (w.classAt c).members ∨
      w'.HasEntity e ∧ (w'.program.entityAt e).owner? = some c)
    (hnodup : ∀ c, (w'.classAt c).members.Nodup)
    (hfresh : ∀ c, ¬ w'.Protected c → ¬ w.Protected c ∧ (w'.classAt c).lineage = (w.classAt c).lineage) : w'.Sound := by
  have hbirth : ∀ c, (w'.classAt c).birth = (w.classAt c).birth := by
    intro c
    by_cases hc : w.HasClass c
    · exact hk.birth c hc
    · have hc' : ¬ w'.HasClass c := mt (hasClass_iff hsize).1 hc
      rw [classAt, classAt, classAt_of_not _ c hc, classAt_of_not _ c hc']
  have hname : ∀ c, (w'.classAt c).name = (w.classAt c).name := fun c => (congrArg name (hbirth c) :)
  have hfile : ∀ c, (w'.classAt c).file? = (w.classAt c).file? := fun c => (congrArg file? (hbirth c) :)
  have hvtable : ∀ c, (w'.classAt c).vtable? = (w.classAt c).vtable? := fun c => (congrArg vtable? (hbirth c) :)
  have hobject : ∀ c, (w'.classAt c).classObject? = (w.classAt c).classObject? :=
    fun c => (congrArg classObject? (hbirth c) :)
  have hflags : ∀ c, (w'.classAt c).flags = (w.classAt c).flags := fun c => (congrArg flags (hbirth c) :)
  have howner : ∀ {e c}, w.HasEntity e → (w.program.entityAt e).owner? = some c →
      w'.HasEntity e ∧ (w'.program.entityAt e).owner? = some c :=
    fun he ho => ⟨hk.hasEntity he, (Entity.owner?_of_face (hk.face _ he)).trans ho⟩
  -- the tables of a class stay data
  have htable : ∀ {e c name}, w.HasEntity e ∧ (w.program.entityAt e).owner? = some c ∧
      (w.program.entityAt e).kind = .data ∧ (w.program.entityAt e).name = name →
      w'.HasEntity e ∧ (w'.program.entityAt e).owner? = some c ∧
        (w'.program.entityAt e).kind = .data ∧ (w'.program.entityAt e).name = name := by
    rintro e c name ⟨he, ho, hd, hn⟩
    have hface := hk.face e he
    exact ⟨hk.hasEntity he, (howner he ho).2, (Entity.data_of_face hface).2 hd, (Entity.name_of_face hface).trans hn⟩
  refine ⟨fun name c hc => ?_, fun c e he => ?_, hnodup, fun c v hv => ?_, fun c o ho => ?_, fun c hc => ?_,
    fun c f hf => ?_, fun c hc => ?_, fun c hc => ?_, fun f e hf => ?_⟩
  · rw [named?, hnames] at hc
    obtain ⟨h1, h2⟩ := h.named name c hc; exact ⟨hk.hasClass h1, (hname c).trans h2⟩
  · rcases hmember c e he with he | he
    · exact howner (h.member c e he).1 (h.member c e he).2
    · exact he
  · rw [hvtable] at hv; exact htable (h.vtable c v hv)
  · rw [hobject] at ho; exact htable (h.classObject c o ho)
  · rw [hfile, hname]; exact h.filed c ((hasClass_iff hsize).1 hc)
  · rw [hfile] at hf; rw [isInterface, hflags, hvtable, hobject]; exact h.loaded c f hf
  · obtain ⟨hc', hstate⟩ := hfinalizing c hc
    obtain ⟨h1, h2⟩ := h.finalizing c hc'; exact ⟨hk.hasClass h1, by rwa [hstate]⟩
  · obtain ⟨hc', hl⟩ := hfresh c hc
    obtain ⟨h1, h2, h3, h4⟩ := h.fresh c hc'
    exact ⟨(congrArg superclass? hl :).trans h1, (congrArg interfaces hl :).trans h2,
      (congrArg members hl :).trans h3, (congrArg vtableSize hl :).trans h4⟩
  · rcases hfunctions f e hf with hf | hf
    · obtain ⟨h1, h2⟩ := h.functions f e hf
      have hk' : (w.program.entityAt e).kind = .function f.params f.result? := by rw [h2]; rfl
      exact ⟨hk.hasEntity h1, (Entity.eq_of_face (hk.face e h1) hk').trans h2⟩
    · exact hf

lemma keeps (h : w.Sound) (hk : w.Keeps (fun _ => True) w')
    (hsize : w'.program.classes.size = w.program.classes.size) (hnames : w'.names = w.names)
    (hfunctions : AddsFunctions w w') (hfinalizing : w'.finalizing = w.finalizing) : w'.Sound := by
  have hdecl : ∀ c, (w'.classAt c).decl = (w.classAt c).decl := fun c => hk.decl_eq hsize trivial
  have hmembers : ∀ c, (w'.classAt c).members = (w.classAt c).members := fun c => (congrArg members (hdecl c) :)
  have hstate : ∀ c, (w'.classAt c).state = (w.classAt c).state := fun c => (congrArg state (hdecl c) :)
  refine h.continues hk.program.toContinues hsize hnames hfunctions (fun c hc => ⟨hfinalizing ▸ hc, hstate c⟩)
    (fun c e he => .inl (hmembers c ▸ he)) (fun c => hmembers c ▸ h.members_nodup c) fun c hc => ?_
  rw [Protected, hstate, hfinalizing] at hc
  exact ⟨hc, (congrArg lineage (hdecl c) :)⟩

end Sound

end World

end JvmGraph
