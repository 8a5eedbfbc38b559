import JvmGraph.Proofs.Linking.Description
import JvmGraph.Proofs.Loading.Classes

/-!
# What is known of every class

A world keeps account of its classes and entities. Every class was loaded from the file of its name. Until it is
finalized its tables are empty; afterwards its supertypes, its members and its tables are those of its class file, and
nothing about them changes any more. Every entity is a table or a member of a class, or is shared by all.
-/

namespace JvmGraph

open Steps Load World List Program ClassInfo

def FieldType.elementClass? : FieldType → Option String
  | .base _ => none
  | .object name => some name
  | .array element => element.elementClass?

def ClassFile.NamesElement (f : ClassFile) (name : String) : Prop :=
  ∃ index descriptor type, f.pool.className index = .ok descriptor ∧ descriptor.toList.head? = some '[' ∧
    FieldType.parse descriptor = .ok type ∧ type.elementClass? = some name

/-- A method of a class file that is compiled. -/
def Member.hasBody (m : Member) : Bool := !m.flags.isAbstract && !m.flags.isNative

namespace World

variable {w w' w'' : World} {c d : ClassId} {e : EntityId} {source : ClassSource} {file : ClassFile}

/-! ## Going on -/

structure Retains (w w' : World) : Prop where
  keeps : w.Keeps (fun c => (w.classAt c).state = .finalized) w'

namespace Retains

lemma refl (w : World) : Retains w w := ⟨.refl _ w⟩

lemma continues (h : Retains w w') : w.program.Continues w'.program := h.keeps.program.toContinues

lemma decl_eq (h : Retains w w') (hc : w.Finalized c) :
    (w'.classAt c).decl = (w.classAt c).decl := by
  refine h.keeps.program.kept c (hasClass_of_state ?_) hc
  rw [show w.program.classAt c = w.classAt c from rfl, hc]
  exact nofun

lemma state_eq (h : Retains w w') (hc : w.Finalized c) : w'.Finalized c :=
  (congrArg state (h.decl_eq hc) :).trans hc

lemma trans (h : Retains w w') (h' : Retains w' w'') : Retains w w'' :=
  ⟨h.keeps.trans (h'.keeps.mono fun _ => h.state_eq)⟩

lemma entityAt_eq (h : Retains w w') (he : w.HasEntity e) (hm : (w.program.entityAt e).method? = none)
    (ho : ∀ c, (w.program.entityAt e).owner? = some c → w.Finalized c) :
    w'.program.entityAt e = w.program.entityAt e :=
  Entity.eq_of_decl hm (h.keeps.program.owned e he ho)

lemma of_image (himage : w'.image = w.image) (hnames : w'.names = w.names) : Retains w w' := by
  have hprogram : w'.program = w.program := congrArg (·.program) himage
  exact ⟨by rw [hprogram]; exact .refl _ _, fun n d hd => by rwa [named?, hnames], fun f e he => by rwa [himage],
    himage ▸ prefix_rfl, himage ▸ prefix_rfl⟩

end Retains

structure Queues (w w' : World) : Prop where
  queue : ∃ new, w'.queue = w.queue ++ new ∧ w'.queued = new.reverse ++ w.queued
  nodup : w.queued.Nodup → w'.queued.Nodup

namespace Queues

lemma of_eq (hq : w'.queue = w.queue) (hd : w'.queued = w.queued) : Queues w w' :=
  ⟨⟨[], by simp [hq], by simp [hd]⟩, fun hn => hd ▸ hn⟩

lemma refl (w : World) : Queues w w := .of_eq rfl rfl

lemma trans (h : Queues w w') (h' : Queues w' w'') : Queues w w'' where
  queue := by
    obtain ⟨new, hq, hd⟩ := h.queue
    obtain ⟨new', hq', hd'⟩ := h'.queue
    exact ⟨new ++ new', by rw [hq', hq, append_assoc], by simp [hd', hd]⟩
  nodup := fun hn => h'.nodup (h.nodup hn)

lemma subset (h : Queues w w') (hc : c ∈ w.queued) : c ∈ w'.queued := by
  obtain ⟨new, -, hd⟩ := h.queue
  rw [hd]
  simp [hc]

lemma enqueue (w : World) (c : ClassId) : Queues w (w.enqueue c) := by
  unfold World.enqueue
  split
  · exact .refl w
  · rename_i hc; exact ⟨⟨[c], rfl, rfl⟩, fun hn => nodup_cons.2 ⟨hc, hn⟩⟩

end Queues

lemma mem_enqueue (w : World) (c : ClassId) : c ∈ (w.enqueue c).queued := by
  unfold World.enqueue
  split
  · assumption
  · exact (.head _)

structure SameCode (w w' : World) : Prop where
  graph : ∀ e, w'.program.graphAt? e = w.program.graphAt? e
  constructed : ∀ c, (w'.classAt c).constructed = (w.classAt c).constructed

lemma SameCode.of_idle (h : w.program.Idle w'.program) : SameCode w w' := ⟨h.graph, h.constructed⟩

/-- What resolving constants and finalizing classes does: nothing is compiled. -/
structure Advances (w w' : World) : Prop extends Retains w w', Queues w w', SameCode w w'

namespace Advances

lemma refl (w : World) : Advances w w := ⟨.refl w, .refl w, ⟨fun _ => rfl, fun _ => rfl⟩⟩

lemma trans (h : Advances w w') (h' : Advances w' w'') : Advances w w'' :=
  ⟨h.toRetains.trans h'.toRetains, h.toQueues.trans h'.toQueues,
    ⟨fun e => (h'.graph e).trans (h.graph e), fun c => (h'.constructed c).trans (h.constructed c)⟩⟩

end Advances

lemma Works.advances (h : Works c w w') (hc : ¬ w.Finalized c) : Advances w w' :=
  ⟨⟨h.keeps.mono (by rintro d hd rfl; exact hc hd)⟩, .of_eq h.queue h.queued, .of_idle h.idle⟩

/-! ## Accounts -/

def Bears (w : World) (c : ClassId) (symbol : Except Error String) (e : EntityId) : Prop :=
  w.HasEntity e ∧ symbol = .ok (w.program.entityAt e).symbol ∧
    (w.program.entityAt e).visibility = tableVisibility (w.classAt c).isExtern

/-- The class has the file that is found under its name, and its tables are declared under the symbols that go with the
name. -/
structure Known (source : ClassSource) (w : World) (c : ClassId) : Prop where
  file : ∃ file, source.load (w.classAt c).name = .ok (file, (w.classAt c).isExtern) ∧ (w.classAt c).file? = some file
  vtable : ∀ v, (w.classAt c).vtable? = some v → w.Bears c (Symbol.mangleVTable (w.classAt c).name) v
  classObject : ∀ o, (w.classAt c).classObject? = some o → w.Bears c (Symbol.mangleClassObject (w.classAt c).name) o

lemma Known.mono (h : w.Known source c) (hc : w.HasClass c) (ha : Retains w w') : w'.Known source c := by
  have hname : (w'.classAt c).name = (w.classAt c).name := ha.continues.name hc
  have hext : (w'.classAt c).isExtern = (w.classAt c).isExtern := ha.continues.isExtern hc
  have hfile : (w'.classAt c).file? = (w.classAt c).file? := ha.continues.file hc
  have hbears : ∀ {symbol e}, w.Bears c symbol e → w'.Bears c symbol e := by
    rintro symbol e ⟨hhas, hs, hvis⟩
    have hface := ha.continues.face e hhas
    rw [Bears, hext, Entity.symbol_of_face hface, Entity.visibility_of_face hface]
    exact ⟨ha.continues.hasEntity hhas, hs, hvis⟩
  refine ⟨?_, ?_, ?_⟩
  · rw [hname, hext, hfile]; exact h.file
  · intro v hv
    rw [show (w'.classAt c).vtable? = _ from ha.continues.vtable? hc] at hv
    exact hname ▸ hbears (h.vtable v hv)
  · intro o ho
    rw [show (w'.classAt c).classObject? = _ from ha.continues.classObject? hc] at ho
    exact hname ▸ hbears (h.classObject o ho)

def Blank (w : World) (c : ClassId) : Prop :=
  ∀ e, w.program.IsTableOf c e → (w.program.entityAt e).initializer? = none

def Composed (w : World) (c : ClassId) (file : ClassFile) : Prop :=
  ∃ fields declared standIns, (w.classAt c).members = fields ++ declared ++ standIns ∧
    List.Forall₂ (w.FieldOf c file) file.fields fields ∧ List.Forall₂ (w.MethodOf c file) file.methods declared ∧
      ∀ e ∈ standIns, w.Bare e

lemma Composed.mono (hc : w.program.Continues w'.program) (hclass : w.HasClass c)
    (hm : (w'.classAt c).members = (w.classAt c).members)
    (h : w.Composed c file) : w'.Composed c file := by
  obtain ⟨fields, declared, standIns, hmem, hf, hd, hs⟩ := h
  refine ⟨fields, declared, standIns, hm.trans hmem, hf.imp fun _ _ h => h.mono hc hclass,
    hd.imp fun _ _ h => h.mono hc hclass, fun e he => (hs e he).mono hc⟩

/-- The superclass of `c` is the one that its class file names, and its interfaces are those that the class constants at
`indices` name. -/
structure Supertypes (w : World) (c : ClassId) (file : ClassFile) (indices : List UInt16) : Prop where
  has : ∀ s, (w.classAt c).Extends s → w.HasClass s
  superclass : file.superName? = .ok ((w.classAt c).superclass?.map fun s => (w.classAt s).name)
  interfaces : List.Forall₂ (fun index i => file.pool.className index = .ok (w.classAt i).name) indices
    (w.classAt c).interfaces

namespace Supertypes

variable {indices : List UInt16} (h : w.Supertypes c file indices) (hc : w.program.Continues w'.program)
  (hsuper : (w'.classAt c).superclass? = (w.classAt c).superclass?)

include h hc hsuper

lemma extend {extra : List UInt16} {is : List ClassId}
    (hinter : (w'.classAt c).interfaces = (w.classAt c).interfaces ++ is)
    (his : ∀ i ∈ is, w.HasClass i)
    (hnames : Forall₂ (fun index i => file.pool.className index = .ok (w.classAt i).name) extra is) :
    w'.Supertypes c file (indices ++ extra) := by
  have has : ∀ s, (w.classAt c).superclass? = some s ∨ s ∈ (w.classAt c).interfaces ++ is → w.HasClass s := by
    rintro s (hs | hs)
    · exact h.has s (.inl hs)
    · exact (mem_append.1 hs).elim (fun hs => h.has s (.inr hs)) (his s)
  have hname : ∀ s, _ → (w'.classAt s).name = (w.classAt s).name := fun s hs => hc.name (has s hs)
  refine ⟨?_, ?_, ?_⟩
  · simp only [Extends, hsuper, hinter]; exact fun s hs => hc.hasClass (has s hs)
  · rw [hsuper, h.superclass]
    cases hsup : (w.classAt c).superclass? with
    | none => rfl
    | some s => rw [Option.map_some, Option.map_some, hname s (.inl hsup)]
  · rw [hinter]
    refine forall₂_imp_right (rel_append h.interfaces hnames) (fun i hi => hname i (.inr hi)) fun index i hi h => ?_
    rwa [hi]

lemma mono (hinter : (w'.classAt c).interfaces = (w.classAt c).interfaces) : w'.Supertypes c file indices := by
  have h' := h.extend hc hsuper (by rw [hinter, append_nil]) (forall_mem_nil _) .nil
  rwa [append_nil] at h'

end Supertypes

structure Finished (w : World) (c : ClassId) (file : ClassFile) : Prop where
  loaded : (w.classAt c).file? = some file
  supertypes : w.Supertypes c file file.interfaces
  composed : w.Composed c file
  vtable : ∀ v, (w.classAt c).vtable? = some v → (w.program.entityAt v).initializer?.isSome
  classObject : ∀ o, (w.classAt c).classObject? = some o →
    ((w.program.entityAt o).initializer?.isSome ↔ (w.classAt c).isExtern = false)
  tables : (w.classAt c).isExtern = false → w.HasTables c (w.classAt c).name

lemma Finished.table {sort : TableSort} (h : w.Finished c file) (hx : (w.classAt c).isExtern = false)
    (he : w.program.classObjectField? c sort.field = some (.address e)) : w.HasEntity e ∧
      ∃ entries, w.program.entityAt e = .global (sort.nameFor (w.classAt c).name) .data .hidden
      (some (.compound entries)) := by
  obtain ⟨table?, hfield, htable⟩ := h.tables hx sort
  rw [he] at hfield
  cases table? with
  | none => cases hfield
  | some t =>
    cases hfield
    exact htable e rfl

lemma Retains.table_eq (ha : Retains w w') (hs : w.Sound) (hc : w.Finalized c)
    (he : w.program.IsTableOf c e) : w'.program.entityAt e = w.program.entityAt e := by
  obtain ⟨hhas, howner, hkind⟩ := hs.isTableOf he
  refine ha.entityAt_eq hhas (by simp [Entity.method?, hkind]) ?_
  intro d hd
  rw [howner, Option.some.injEq] at hd
  exact hd ▸ hc

lemma Retains.classObjectField?_eq (ha : Retains w w') (hs : w.Sound) (hc : w.Finalized c)
    (name : String) : w'.program.classObjectField? c name = w.program.classObjectField? c name := by
  have hobject : (w'.program.classAt c).classObject? = (w.program.classAt c).classObject? :=
    (congrArg classObject? (ha.decl_eq hc) :)
  rw [classObjectField?, classObjectField?, hobject]
  cases ho : (w.program.classAt c).classObject? with
  | none => rfl
  | some o =>
    simp only [Option.bind_some]
    rw [ha.table_eq hs hc (.inr ho)]

lemma Finished.mono (h : w.Finished c file) (hs : w.Sound) (hc : w.Finalized c)
    (ha : Retains w w') : w'.Finished c file := by
  have hdecl := ha.decl_eq hc
  have hclass : w.HasClass c := hs.hasClass (.inl hc)
  have hext : (w'.classAt c).isExtern = (w.classAt c).isExtern := (congrArg isExtern hdecl :)
  refine ⟨?_, ?_, ?_, ?_, ?_, ?_⟩
  · exact (congrArg file? hdecl :).trans h.loaded
  · exact h.supertypes.mono ha.continues (congrArg superclass? hdecl :) (congrArg interfaces hdecl :)
  · exact h.composed.mono ha.continues hclass (congrArg members hdecl :)
  · intro v hv
    rw [show (w'.classAt c).vtable? = _ from (congrArg vtable? hdecl :)] at hv
    rw [ha.table_eq hs hc (.inl hv)]; exact h.vtable v hv
  · intro o ho
    rw [show (w'.classAt c).classObject? = _ from (congrArg classObject? hdecl :)] at ho
    rw [ha.table_eq hs hc (.inr ho), hext]; exact h.classObject o ho
  · intro hx sort
    rw [hext] at hx
    obtain ⟨table?, hfield, htable⟩ := h.tables hx sort
    refine ⟨table?, (ha.classObjectField?_eq hs hc _).trans hfield, fun t ht => ?_⟩
    obtain ⟨hhas, entries, hat⟩ := htable t ht
    refine ⟨ha.continues.hasEntity hhas, entries, ?_⟩
    rw [ha.entityAt_eq hhas (by rw [hat]; rfl) (by rw [hat]; rintro d ⟨⟩), hat,
      show (w'.classAt c).name = (w.classAt c).name from ha.continues.name hclass]

inductive Origin (w : World) (e : EntityId) : Prop
  | vtable (c : ClassId) (h : (w.classAt c).vtable? = some e)
  | classObject (c : ClassId) (h : (w.classAt c).classObject? = some e)
  | member (c : ClassId) (h : e ∈ (w.classAt c).members)
  | table (c : ClassId) (sort : TableSort) (hc : (w.classAt c).state = .finalized) (hx : (w.classAt c).isExtern = false)
      (h : w.program.classObjectField? c sort.field = some (.address e))
  | shared (h : w.image.Shared e)
  /-- The hidden field for the dispatch table. -/
  | hidden (hf : (w.program.entityAt e).field?.isSome) (hi : (w.program.entityAt e).initializer? = none)

lemma Origin.mono (h : w.Origin e) (he : w.HasEntity e) (hs : w.Sound) (ha : Retains w w') : w'.Origin e := by
  cases h with
  | vtable c h => exact .vtable c ((ha.continues.vtable? (hasClass_of_table (.inl h))).trans h)
  | classObject c h => exact .classObject c ((ha.continues.classObject? (hasClass_of_table (.inr h))).trans h)
  | member c h => exact .member c ((ha.continues.members c (hasClass_of_member h)).subset h)
  | table c sort hc hx h =>
    exact .table c sort (ha.state_eq hc) ((congrArg isExtern (ha.decl_eq hc) :).trans hx)
      ((ha.classObjectField?_eq hs hc _).trans h)
  | shared h =>
    refine .shared (h.mono (ha.entityAt_eq he h.method? ?_) ha.keeps.records ha.keeps.literals)
    intro c hc; cases hc.symm.trans h.owner?
  | hidden hf hi =>
    have hface := ha.continues.face e he
    have hkind := kind_ne_data_of_field hf
    refine .hidden ?_ ((Entity.initializer?_of_face hface hkind).trans hi)
    have hk := Entity.kind_of_face hface
    revert hk hf
    unfold Entity.field?
    cases (w.program.entityAt e).kind <;> cases (w'.program.entityAt e).kind <;> simp [EntityKind.face]

def bodies (w : World) (c : ClassId) (file : ClassFile) : List (Member × EntityId) :=
  file.methods.zip ((w.classAt c).members.filter fun e => (w.program.methodAt? e).isSome)

def IsCompiled (w : World) (e : EntityId) : Prop :=
  ∃ c file member, (w.classAt c).state = .finalized ∧ (w.classAt c).isExtern = false ∧
    (w.classAt c).file? = some file ∧ (member, e) ∈ w.bodies c file ∧ member.hasBody = true

lemma bodies_eq (hs : w.Sound) (hm : (w'.classAt c).members = (w.classAt c).members)
    (hc : w.program.Continues w'.program) (file : ClassFile) : w'.bodies c file = w.bodies c file := by
  rw [bodies, hm]
  congr 1
  refine filter_congr fun e he => ?_
  simp [methodAt?, Entity.isMethod_of_face (hc.face e (hs.member c e he).1)]

lemma IsCompiled.mono (h : w.IsCompiled e) (hs : w.Sound) (ha : Retains w w') : w'.IsCompiled e := by
  obtain ⟨c, file, member, hc, hx, hfile, he, hbody⟩ := h
  have hdecl := ha.decl_eq hc
  refine ⟨c, file, member, ha.state_eq hc, (congrArg isExtern hdecl :).trans hx,
    (congrArg file? hdecl :).trans hfile, ?_, hbody⟩
  rwa [bodies_eq hs (congrArg members hdecl :) ha.continues]

def Constructed (w : World) (c : ClassId) : Prop :=
  (w.classAt c).state = .finalized ∧ (w.classAt c).isExtern = false ∧ ∀ file, (w.classAt c).file? = some file →
    ∀ body ∈ w.bodies c file, body.1.hasBody = true → (w.program.graphAt? body.2).isSome

structure Entry (source : ClassSource) (w : World) (c : ClassId) : Prop where
  known : w.HasClass c → w.Known source c
  blank : (w.classAt c).state ≠ .finalized → w.Blank c
  finished : (w.classAt c).state = .finalized → c ∈ w.queued ∧ ∃ file, w.Finished c file
  above : ∀ s, (w.classAt c).Extends s → w.Protected s

structure Ledger (source : ClassSource) (w : World) : Prop where
  entry : ∀ c, w.Entry source c
  origin : ∀ e, w.HasEntity e → w.Origin e
  graph : ∀ e, (w.program.graphAt? e).isSome → w.IsCompiled e
  constructed : ∀ c, (w.classAt c).constructed = true → w.Constructed c

namespace Ledger

variable (L : w.Ledger source)

include L

lemma known (c : ClassId) (hc : w.HasClass c) : w.Known source c := (L.entry c).known hc

lemma blank (c : ClassId) (hc : ¬ w.Finalized c) : w.Blank c := (L.entry c).blank hc

lemma finished (c : ClassId) (hc : w.Finalized c) : c ∈ w.queued ∧ ∃ file, w.Finished c file :=
  (L.entry c).finished hc

lemma above (c s : ClassId) (h : (w.classAt c).Extends s) : w.Protected s :=
  (L.entry c).above s h

end Ledger

lemma Constructed.mono (h : w.Constructed c) (hs : w.Sound) (ha : Retains w w')
    (hg : ∀ e, (w.program.graphAt? e).isSome → (w'.program.graphAt? e).isSome) : w'.Constructed c := by
  obtain ⟨hc, hx, hbodies⟩ := h
  have hdecl := ha.decl_eq hc
  refine ⟨ha.state_eq hc, (congrArg isExtern hdecl :).trans hx, fun file hfile body hb hbody => ?_⟩
  rw [show (w'.classAt c).file? = _ from (congrArg file? hdecl :)] at hfile
  rw [bodies_eq hs (congrArg members hdecl :) ha.continues] at hb
  exact hg _ (hbodies file hfile body hb hbody)

/-- The class `d` is the innermost element class of an array type that a class constant of a finalized class names. -/
def IsElement (w : World) (d : ClassId) : Prop :=
  ∃ k file, (w.classAt k).state = .finalized ∧ (w.classAt k).isExtern = false ∧ (w.classAt k).file? = some file ∧
    file.NamesElement (w.classAt d).name

/-- There is a reason for the class `d` to be loaded: its finalization has begun or ended, or it is in the queue, or it
is an element class. -/
def Accounted (w : World) (d : ClassId) : Prop := w.Protected d ∨ d ∈ w.queued ∨ w.IsElement d

lemma Accounted.mono (h : w.Accounted d) (hd : w.HasClass d) (ha : Retains w w')
    (hp : w.Protected d → w'.Protected d) (hq : d ∈ w.queued → d ∈ w'.queued) : w'.Accounted d := by
  refine h.imp hp (Or.imp hq ?_)
  rintro ⟨k, file, hk, hx, hfile, hn⟩
  have hdecl := ha.decl_eq hk
  refine ⟨k, file, ha.state_eq hk, (congrArg isExtern hdecl :).trans hx, (congrArg file? hdecl :).trans hfile, ?_⟩
  rwa [show (w'.classAt d).name = _ from ha.continues.name hd]

/-! ## Steps that keep account -/

structure Unchanged (c : ClassId) (w w' : World) : Prop where
  has : w'.HasClass c → w.HasClass c
  decl : (w'.classAt c).decl = (w.classAt c).decl
  owned : ∀ e, w.HasEntity e → (w.program.entityAt e).owner? = some c →
    (w'.program.entityAt e).decl = (w.program.entityAt e).decl

lemma Unchanged.of_keeps (h : w.Keeps (· ≠ c) w') (hclasses : w'.program.classes.size = w.program.classes.size)
    (hd : d ≠ c) : Unchanged d w w' := by
  have hhas : w'.HasClass d ↔ w.HasClass d := by simp [Program.HasClass, hclasses]
  refine ⟨hhas.1, ?_, fun e he ho => h.program.owned e he fun d' hd' => ?_⟩
  · by_cases hh : w.HasClass d
    · exact h.program.kept d hh hd
    · rw [classAt, classAt, classAt_of_not _ d hh, classAt_of_not _ d (mt hhas.1 hh)]
  · rw [ho, Option.some.injEq] at hd'; exact hd' ▸ hd

lemma Blank.mono (h : w.Blank c) (hs : w.Sound) (hu : Unchanged c w w') : w'.Blank c := by
  intro e he
  rw [isTableOf_congr (congrArg vtable? hu.decl :) (congrArg classObject? hu.decl :)] at he
  obtain ⟨hhas, howner, -⟩ := hs.isTableOf he
  rw [Entity.initializer?_eq (hu.owned e hhas howner)]
  exact h e he

lemma Entry.mono (h : w.Entry source c) (hs : w.Sound) (hr : Retains w w') (hu : Unchanged c w w')
    (hprotected : ∀ d, w.Protected d → w'.Protected d) (hqueued : ∀ d ∈ w.queued, d ∈ w'.queued) :
    w'.Entry source c := by
  have hstate : (w'.classAt c).state = (w.classAt c).state := (congrArg state hu.decl :)
  refine ⟨fun hc => (h.known (hu.has hc)).mono (hu.has hc) hr, fun hc => ?_, fun hc => ?_, fun s hc => ?_⟩
  · rw [hstate] at hc; exact (h.blank hc).mono hs hu
  · rw [hstate] at hc
    obtain ⟨hq, file, hf⟩ := h.finished hc; exact ⟨hqueued c hq, file, hf.mono hs hc hr⟩
  · rw [Extends, show (w'.classAt c).superclass? = _ from (congrArg superclass? hu.decl :),
      show (w'.classAt c).interfaces = _ from (congrArg interfaces hu.decl :)] at hc
    exact hprotected s (h.above s hc)

namespace Ledger

variable (L : w.Ledger source) (hs : w.Sound)

include L hs

lemma step (hr : Retains w w') (hprotected : ∀ d, w.Protected d → w'.Protected d)
    (hqueued : ∀ d ∈ w.queued, d ∈ w'.queued) (hentry : ∀ d, Unchanged d w w' ∨ w'.Entry source d)
    (hnew : ∀ e, w'.HasEntity e → w.HasEntity e ∨ w'.Origin e)
    (hgraph : ∀ e, (w'.program.graphAt? e).isSome → w'.IsCompiled e)
    (hdone : ∀ d, (w'.classAt d).constructed = true → w'.Constructed d) : w'.Ledger source := by
  refine ⟨fun d => ?_, fun e he => ?_, hgraph, hdone⟩
  · exact (hentry d).elim (fun hu => (L.entry d).mono hs hr hu hprotected hqueued) id
  · exact (hnew e he).elim (fun he' => (L.origin e he').mono he' hs hr) id

lemma advance (ha : Advances w w')
    (hprotected : ∀ d, w.Protected d → w'.Protected d) (hentry : ∀ d, Unchanged d w w' ∨ w'.Entry source d)
    (hnew : ∀ e, w'.HasEntity e → w.HasEntity e ∨ w'.Origin e) : w'.Ledger source := by
  refine L.step hs ha.toRetains hprotected (fun _ => ha.subset) hentry hnew (fun e he => ?_) fun d hd => ?_
  · rw [ha.graph] at he; exact (L.graph e he).mono hs ha.toRetains
  · rw [ha.constructed] at hd
    exact (L.constructed d hd).mono hs ha.toRetains fun e he => by rwa [ha.graph]

lemma of_image (himage : w'.image = w.image) (hnames : w'.names = w.names)
    (hprotected : ∀ d, w.Protected d → w'.Protected d) (hqueued : ∀ d ∈ w.queued, d ∈ w'.queued) :
    w'.Ledger source := by
  have hprogram : w'.program = w.program := congrArg (·.program) himage
  have hclass : ∀ d, w'.classAt d = w.classAt d := fun d => by simp [classAt, hprogram]
  have hr : Retains w w' := .of_image himage hnames
  refine L.step hs hr hprotected hqueued
    (fun d => .inl ⟨fun h => by rwa [HasClass, ← hprogram], by rw [hclass], fun e _ _ => by rw [hprogram]⟩)
    (fun e he => .inl (by rwa [HasEntity, ← hprogram])) (fun e he => ?_) fun d hd => ?_
  · rw [hprogram] at he; exact (L.graph e he).mono hs hr
  · rw [hclass] at hd; exact (L.constructed d hd).mono hs hr fun e he => by rwa [hprogram]

lemma works (hw : Works c w w') (hc : w.HasClass c) (hstate : ¬ w.Finalized c)
    (hblank : ∀ e, w.program.IsTableOf c e → w'.program.entityAt e = w.program.entityAt e)
    (habove : ∀ s, (w'.classAt c).Extends s → w.Protected s)
    (hnew : ∀ e, w'.HasEntity e → w.HasEntity e ∨ w'.Origin e) : w'.Ledger source := by
  have ha := hw.advances hstate
  have hprotected : ∀ d, w.Protected d → w'.Protected d := by
    intro d hd
    rw [Protected, hw.finalizing]; exact hd.imp ha.state_eq id
  refine L.advance hs ha hprotected (fun d => ?_) hnew
  by_cases hdc : d = c
  · subst hdc
    refine .inr ⟨fun _ => (L.known d hc).mono hc ha.toRetains, fun _ e he => ?_, fun hd => ?_, fun s hs => hprotected s
      (habove s hs)⟩
    · rw [isTableOf_congr (congrArg vtable? hw.origin :) (congrArg classObject? hw.origin :)] at he
      rw [hblank e he]; exact L.blank d hstate e he
    · rw [hw.state_eq] at hd; exact absurd hd hstate
  · exact .inl (.of_keeps hw.keeps hw.classes hdc)

lemma gathers (hg : Gathers c w w') (hc : w.HasClass c)
    (hstate : ¬ w.Finalized c) : w'.Ledger source := by
  refine L.works hs hg.works hc hstate (fun e he => ?_) (fun s h => ?_) fun e he => (hg.fresh e he).imp id (.member c)
  · exact hg.data e (hs.isTableOf he).1 (hs.isTableOf he).2.2
  · rw [Extends, hg.superclass, hg.interfaces] at h; exact L.above c s h

end Ledger

/-! ## Looking up a class -/

/-- What looking up and finalizing classes does. -/
structure Prepares (source : ClassSource) (w w' : World) : Prop extends Loads w w' where
  idle : w.program.Idle w'.program
  queues : Queues w w'
  ledger : w.Ledger source → w'.Ledger source

namespace Prepares

lemma refl (hs : w.Sound) (hf : w.Fine) : Prepares source w w := ⟨.refl hs hf, .refl _, .refl w, id⟩

lemma trans (h : Prepares source w w') (h' : Prepares source w' w'') : Prepares source w w'' :=
  ⟨h.toLoads.trans h'.toLoads, h.idle.trans h'.idle, h.queues.trans h'.queues, fun L => h'.ledger (h.ledger L)⟩

lemma advances (h : Prepares source w w') : Advances w w' :=
  ⟨⟨h.keeps.mono fun _ => .inl⟩, h.queues, .of_idle h.idle⟩

end Prepares

variable {name : String}

lemma Enters.known (h : Enters source name c w w') : w'.Known source c := by
  obtain ⟨file, hload, hfile, -⟩ := h.file
  refine ⟨⟨file, by rwa [h.called], hfile⟩, fun v hv => ?_, fun o ho => ?_⟩
  · obtain ⟨hhas, symbol, hsymbol, hat⟩ := h.vtable v hv
    rw [h.called, Bears, hat]; exact ⟨hhas, hsymbol, rfl⟩
  · obtain ⟨hhas, symbol, hsymbol, hat⟩ := h.classObject o ho
    rw [h.called, Bears, hat]; exact ⟨hhas, hsymbol, rfl⟩

lemma Enters.blank (h : Enters source name c w w') : w'.Blank c := by
  rintro e (he | he)
  · obtain ⟨-, symbol, -, hat⟩ := h.vtable e he; rw [hat]; rfl
  · obtain ⟨-, symbol, -, hat⟩ := h.classObject e he; rw [hat]; rfl

lemma Enters.prepares (h : Enters source name c w w') (hs : w.Sound) (hf : w.Fine) : Prepares source w w' := by
  have hl := h.loads hs hf
  have ha : Advances w w' := ⟨⟨h.keeps⟩, .of_eq h.queue h.queued, .of_idle h.enlarges.toIdle⟩
  refine ⟨hl, h.enlarges.toIdle, ha.toQueues, fun L => L.advance hs ha (fun _ => hl.protected) (fun d => ?_)
    fun e he => ?_⟩
  · by_cases hdc : d = c
    · subst hdc
      refine .inr ⟨fun _ => h.known, fun _ => h.blank, fun hd => absurd hd h.state, fun s hs => ?_⟩
      rw [h.bare] at hs
      rcases hs with hs | hs <;> cases hs
    · refine .inl ⟨fun hd => (h.has_or hd).resolve_right hdc, ?_, fun e he _ => congrArg (·.decl) (h.entityAt e he)⟩
      rw [(h.classAt_or d).resolve_right hdc]
  · exact (h.new e he).imp id fun hnew => hnew.elim (.vtable c) (.classObject c)

end World

lemma classNamed_prepares (source : ClassSource) (name : String) {w : World} (hs : w.Sound) (hf : w.Fine) :
    Ends (classNamed source name w)
      (fun c w' => Prepares source w w' ∧ w'.HasClass c ∧ (w'.classAt c).name = name ∧
        ∀ d, w'.HasClass d → w.HasClass d ∨ d = c) (Grows w) := by
  refine (classNamed_enters source name w).imp ?_ ?_
  · rintro c w' (⟨hn, rfl⟩ | ⟨-, h⟩)
    · obtain ⟨hhas, hname⟩ := hs.named name c hn
      exact ⟨.refl hs hf, hhas, hname, fun d hd => .inl hd⟩
    · exact ⟨h.prepares hs hf, h.has, h.called, fun d hd => h.has_or hd⟩
  · rintro w' ⟨-, c, h⟩; exact h.grows hf

end JvmGraph
