import JvmGraph.Proofs.Abi.Image

/-!
# Looking up classes

A class is given its number when its name is first looked up, and everything that was there before stays as
it is. What is known of it then is what its class file says and where its tables are.
-/

namespace JvmGraph

open Steps Load List Program ClassInfo

namespace World

variable {w w' w'' : World} {c : ClassId} {source : ClassSource} {name : String}

/-- What loading leaves behind, whether it succeeds or not: classes that are finalized, or on the way to it,
were left alone. -/
structure Grows (w w' : World) : Prop where
  keeps : w.Keeps w.Protected w'
  fine : w'.Fine

structure Loads (w w' : World) : Prop extends Grows w w' where
  sound : w'.Sound
  finalizing : w'.finalizing = w.finalizing
  covered : w.Covered → w'.Covered

lemma Grows.refl (hf : w.Fine) : Grows w w := ⟨.refl _ w, hf⟩

lemma Loads.refl (hs : w.Sound) (hf : w.Fine) : Loads w w := ⟨.refl hf, hs, rfl, id⟩

lemma Grows.state_eq (h : Grows w w') (hc : w.Finalized c) : w'.Finalized c := by
  have hhas : w.HasClass c := by
    apply hasClass_of_state
    rw [show w.program.classAt c = w.classAt c from rfl, hc]
    exact nofun
  exact (congrArg state (h.keeps.program.kept c hhas (.inl hc)) :).trans hc

lemma Loads.protected (h : Loads w w') (hc : w.Protected c) : w'.Protected c := by
  rcases hc with hc | hc
  · exact .inl (h.state_eq hc)
  · exact .inr (h.finalizing ▸ hc)

lemma Loads.grows (h : Loads w w') (h' : Grows w' w'') : Grows w w'' :=
  ⟨h.keeps.trans (h'.keeps.mono fun _ => h.protected), h'.fine⟩

lemma Loads.trans (h : Loads w w') (h' : Loads w' w'') : Loads w w'' :=
  ⟨h.grows h'.toGrows, h'.sound, h'.finalizing.trans h.finalizing, fun hv => h'.covered (h.covered hv)⟩

lemma Loads.decl_eq (h : Loads w w') (hs : w.Sound) (hc : w.Protected c) : (w'.classAt c).decl = (w.classAt c).decl :=
  h.keeps.program.kept c (hs.hasClass hc) hc

lemma Loads.of_keeps (hs : w.Sound) (hf : w.Fine) (hk : w.Keeps (fun _ => True) w')
    (hsize : w'.program.classes.size = w.program.classes.size) (hnames : w'.names = w.names)
    (hfunctions : AddsFunctions w w') (hfinalizing : w'.finalizing = w.finalizing) : Loads w w' := by
  have hstate : ∀ d, w'.Finalized d → w.Finalized d := fun d hd =>
    (congrArg state (hk.decl_eq hsize trivial) :).symm.trans hd
  exact ⟨⟨hk.mono fun _ _ => trivial, hf.keeps hk (fun _ _ => trivial) hstate⟩,
    hs.keeps hk hsize hnames hfunctions hfinalizing, hfinalizing, fun hv => hv.keeps hf hk (fun _ _ => trivial) hstate⟩

lemma Loads.supplies (hs : w.Sound) (hf : w.Fine) {im : Image} {T : EntityId → Prop} (h : w.image.Supplies T im) :
    Loads w { w with image := im } :=
  .of_keeps hs hf (keeps_supplies h) (congrArg (·.size) h.classes) rfl h.functions rfl

/-! ## A new class -/

lemma name_of_load {file : ClassFile} {isExtern : Bool}
    (h : source.load name = .ok (file, isExtern)) : file.name = .ok name := by
  unfold ClassSource.load at h
  cases hfind : source.find name with
  | error e => simp [hfind, bind, Except.bind] at h
  | ok located? =>
    cases located? with
    | none => simp [hfind, bind, Except.bind] at h
    | some located =>
      cases hparse : ClassFile.parse located.bytes with
      | error e => simp [hfind, hparse, bind, Except.bind] at h
      | ok found =>
        cases hname : found.name with
        | error e => simp [hfind, hparse, hname, bind, Except.bind] at h
        | ok defined =>
          by_cases hne : defined = name
          · simp [hfind, hparse, hname, hne, bind, Except.bind, pure, Except.pure] at h
            rw [← h.1, hname, hne]
          · simp [hfind, hparse, hname, hne, bind, Except.bind] at h

/-- How the tables of a class are seen by others. -/
def tableVisibility (isExtern : Bool) : Visibility := if isExtern then .external else .exported

def tableEntity (c : ClassId) (isExtern : Bool) (name symbol : String) : Entity where
  name := name
  symbol := symbol
  owner? := some c
  kind := .data
  visibility := tableVisibility isExtern

def declared (w : World) (c : ClassId) (entity : Entity) (note : EntityId → ClassInfo → ClassInfo) : World :=
  (w.modifyProgram fun p => (p.newEntity entity).2).modifyClass c (note ⟨w.program.entities.size⟩)

/-- `c` is a new class, of which nothing is known but what its file says and where its tables are. -/
structure Declares (name : String) (c : ClassId) (w w' : World) : Prop where
  becomes : w.program.Becomes w'.program
  number : c = ⟨w.program.classes.size⟩
  classes : w'.program.classes.size = w.program.classes.size + 1
  entities : w.program.entities.size ≤ w'.program.entities.size
  classAt : ∀ d, w.HasClass d → w'.classAt d = w.classAt d
  entityAt : ∀ e, w.HasEntity e → w'.program.entityAt e = w.program.entityAt e
  called : (w'.classAt c).name = name
  state : (w'.classAt c).state ≠ .finalized
  bare : w'.classAt c = (w'.classAt c).origin
  vtable : ∀ v, (w'.classAt c).vtable? = some v → w'.HasEntity v ∧
    ∃ symbol, Symbol.mangleVTable name = .ok symbol ∧
      w'.program.entityAt v = tableEntity c (w'.classAt c).isExtern "vtable" symbol
  classObject : ∀ o, (w'.classAt c).classObject? = some o → w'.HasEntity o ∧
    ∃ symbol, Symbol.mangleClassObject name = .ok symbol ∧
      w'.program.entityAt o = tableEntity c (w'.classAt c).isExtern Symbol.classObjectName symbol
  new : ∀ e, w'.HasEntity e → w.HasEntity e ∨
    (w'.classAt c).vtable? = some e ∨ (w'.classAt c).classObject? = some e
  names : w'.names = w.names ++ [(name, c)]
  finalizing : w'.finalizing = w.finalizing
  queue : w'.queue = w.queue
  queued : w'.queued = w.queued
  strings : w'.image.strings = w.image.strings
  functions : w'.image.functions = w.image.functions

structure Enters (source : ClassSource) (name : String) (c : ClassId) (w w' : World) : Prop
    extends Declares name c w w' where
  file : ∃ file, source.load name = .ok (file, (w'.classAt c).isExtern) ∧ (w'.classAt c).file? = some file ∧
    (w'.classAt c).flags = file.flags
  tables : ((w'.classAt c).vtable?.isSome ↔ (w'.classAt c).isInterface = false) ∧ (w'.classAt c).classObject?.isSome

namespace Declares

variable {d : ClassId} {e : EntityId} {info : ClassInfo}

variable (h : Declares name c w w')

include h

lemma hasEntity (he : w.HasEntity e) : w'.HasEntity e :=
  lt_of_lt_of_le he h.entities

lemma hasClass (hd : w.HasClass d) : w'.HasClass d := by
  rw [HasClass, Program.HasClass, h.classes]
  exact Nat.lt_succ_of_lt hd

lemma has : w'.HasClass c := by
  rw [HasClass, Program.HasClass, h.classes, h.number]
  exact Nat.lt_succ_self _

lemma not_has : ¬ w.HasClass c := by
  rw [h.number]
  exact lt_irrefl _

lemma has_or (hd : w'.HasClass d) : w.HasClass d ∨ d = c := by
  rw [HasClass, Program.HasClass, h.classes] at hd
  rcases Nat.lt_succ_iff_lt_or_eq.1 hd with hd | hd
  · exact .inl hd
  · rw [h.number]; exact .inr (ClassId.ext hd)

lemma classAt_or (d : ClassId) : w'.classAt d = w.classAt d ∨ d = c := by
  by_cases hd : w'.HasClass d
  · exact (h.has_or hd).imp (h.classAt d) id
  · left
    have hd' : ¬ w.HasClass d := fun hd' => hd (h.hasClass hd')
    rw [World.classAt, World.classAt, classAt_of_not _ d hd, classAt_of_not _ d hd']

lemma named?_eq (n : String) : w'.named? n = (w.named? n).or (if n = name then some c else none) := by
  rw [named?, h.names]
  exact Image.lookup_append_singleton w.names name n c

lemma plain (he : ¬ w.HasEntity e) : (w'.program.entityAt e).method? = none := by
  by_cases he' : w'.HasEntity e
  · rcases (h.new e he').resolve_left he with hv | ho
    · obtain ⟨-, symbol, -, hat⟩ := h.vtable e hv; rw [hat]; rfl
    · obtain ⟨-, symbol, -, hat⟩ := h.classObject e ho; rw [hat]; rfl
  · rw [entityAt_of_not _ e he']; rfl

lemma enlarges : w.program.Enlarges w'.program := by
  refine ⟨⟨⟨by rw [h.classes]; exact Nat.le_succ _, h.entities, fun d hd => ?_⟩, fun d hd => ?_, fun e he => ?_⟩,
    fun e => ?_, fun d => ?_⟩
  · exact congrArg birth (h.classAt d hd)
  · exact (congrArg members (h.classAt d hd) :) ▸ prefix_rfl
  · rw [h.entityAt e he]
  · by_cases he : w.HasEntity e
    · simp [graphAt?, h.entityAt e he]
    · rw [graphAt?, Entity.graph?, h.plain he, graphAt?, entityAt_of_not _ e he]
      rfl
  · change (w'.classAt d).progress = (w.classAt d).progress
    rcases h.classAt_or d with hd | rfl
    · rw [hd]
    · rw [h.bare, World.classAt, World.classAt, classAt_of_not _ d h.not_has]; rfl

lemma keeps {S : ClassId → Prop} : w.Keeps S w' where
  program := {
    toContinues := h.enlarges.toContinues
    becomes := h.becomes
    kept := fun d hd _ => congrArg decl (h.classAt d hd)
    owned := fun e he _ => congrArg (·.decl) (h.entityAt e he) }
  named := fun n d hd => by rw [h.named?_eq, hd, Option.some_or]
  functions := fun f e hf => by rwa [h.functions]
  records := h.strings ▸ prefix_rfl
  literals := h.strings ▸ prefix_rfl

lemma finalized (d : ClassId) (hd : w'.Finalized d) : w.Finalized d := by
  rcases h.classAt_or d with hd' | rfl
  · rwa [Finalized, ← hd']
  · exact absurd hd h.state

lemma fine (hf : w.Fine) : w'.Fine :=
  hf.keeps (h.keeps (S := fun _ => True)) (fun _ _ => trivial) h.finalized

lemma grows (hf : w.Fine) : Grows w w' := ⟨h.keeps, h.fine hf⟩

/-- What is known about the new class changes, before it has any tables. -/
lemma modifyClass {f : ClassInfo → ClassInfo}
    (hinfo : f (w'.classAt c) = info) (hcalled : info.name = name) (hstate : info.state ≠ .finalized)
    (hbare : info = info.origin) (hv : (w'.classAt c).vtable? = none) (ho : (w'.classAt c).classObject? = none)
    (hv' : info.vtable? = none) (ho' : info.classObject? = none) :
    Declares name c w (w'.modifyClass c f) ∧ (w'.modifyClass c f).classAt c = info := by
  have hself : (w'.modifyClass c f).classAt c = info := (classAt_modifyClass_self _ c h.has).trans hinfo
  have hmembers : (w'.program.classAt c).members ⊆ (f (w'.program.classAt c)).members := by
    rw [show f (w'.program.classAt c) = _ from hinfo, show w'.program.classAt c = _ from h.bare, hbare]
    exact fun _ h => h
  refine ⟨⟨h.becomes.tail (.changeClass _ c f hmembers), h.number, (size_modifyClass _ _ _).trans h.classes,
    h.entities, fun d hd => ?_, h.entityAt, by rw [hself, hcalled], by rwa [hself],
    by rwa [hself], fun v hv => ?_, fun o ho => ?_, fun e he => ?_, h.names, h.finalizing, h.queue, h.queued,
    h.strings, h.functions⟩, hself⟩
  · have hdc : d ≠ c := by rintro rfl; exact h.not_has hd
    exact (classAt_modifyClass_ne _ c d hdc).trans (h.classAt d hd)
  · simp [hself, hv'] at hv
  · simp [hself, ho'] at ho
  · rcases h.new e he with he | he | he
    · exact .inl he
    · cases hv.symm.trans he
    · cases ho.symm.trans he

lemma declare (entity : Entity) (note : EntityId → ClassInfo → ClassInfo)
    (hinfo : note ⟨w'.program.entities.size⟩ (w'.classAt c) = info) (hm : entity.method? = none)
    (hcalled : info.name = (w'.classAt c).name) (hstate : info.state = (w'.classAt c).state)
    (hext : info.isExtern = (w'.classAt c).isExtern) (hbare : info = info.origin)
    (hvtable : ∀ v, info.vtable? = some v → (w'.classAt c).vtable? = some v ∨ v = ⟨w'.program.entities.size⟩ ∧
      ∃ symbol, Symbol.mangleVTable name = .ok symbol ∧ entity = tableEntity c info.isExtern "vtable" symbol)
    (hobject : ∀ o, info.classObject? = some o → (w'.classAt c).classObject? = some o ∨
      o = ⟨w'.program.entities.size⟩ ∧ ∃ symbol, Symbol.mangleClassObject name = .ok symbol ∧
        entity = tableEntity c info.isExtern Symbol.classObjectName symbol)
    (hnew : ∀ e, (w'.classAt c).vtable? = some e ∨ (w'.classAt c).classObject? = some e ∨
      e = ⟨w'.program.entities.size⟩ → info.vtable? = some e ∨ info.classObject? = some e) :
    Declares name c w (w'.declared c entity note) ∧ (w'.declared c entity note).classAt c = info := by
  have hself : (w'.declared c entity note).classAt c = info :=
    (classAt_modifyClass_self (w'.program.newEntity entity).2 c h.has).trans hinfo
  have hat : ∀ e, (w'.declared c entity note).program.entityAt e =
      if e.index = w'.program.entities.size then entity else w'.program.entityAt e :=
    fun e => entityAt_newEntity w'.program e entity
  have hsize : (w'.declared c entity note).program.entities.size = w'.program.entities.size + 1 :=
    size_newEntity w'.program entity
  have hold : ∀ {e}, w'.HasEntity e → (w'.declared c entity note).program.HasEntity e ∧
      (w'.declared c entity note).program.entityAt e = w'.program.entityAt e := by
    intro e he
    refine ⟨?_, by rw [hat, if_neg (ne_of_lt he)]⟩
    rw [Program.HasEntity, hsize]; exact Nat.lt_succ_of_lt he
  have hlast : (w'.declared c entity note).program.HasEntity ⟨w'.program.entities.size⟩ ∧
      (w'.declared c entity note).program.entityAt ⟨w'.program.entities.size⟩ = entity :=
    ⟨lt_of_lt_of_eq (Nat.lt_succ_self _) hsize.symm, by rw [hat, if_pos rfl]⟩
  have hmembers : (w'.classAt c).members <+: (note ⟨w'.program.entities.size⟩ (w'.classAt c)).members := by
    rw [hinfo, h.bare, hbare]; exact prefix_rfl
  refine ⟨⟨?_, h.number, (size_modifyClass _ _ _).trans h.classes, ?_, fun d hd => ?_, fun e he => ?_, ?_, ?_, ?_,
    fun v hv => ?_, fun o ho => ?_, fun e he => ?_, h.names, h.finalizing, h.queue, h.queued, h.strings, h.functions⟩,
      hself⟩
  · exact (h.becomes.tail (.addEntity _ entity hm)).tail (.changeClass _ c _ hmembers.subset)
  · exact h.entities.trans (by omega)
  · have hdc : d ≠ c := by rintro rfl; exact h.not_has hd
    exact (classAt_modifyClass_ne _ c d hdc).trans (h.classAt d hd)
  · exact (hold (h.hasEntity he)).2.trans (h.entityAt e he)
  · rw [hself, hcalled, h.called]
  · rw [hself, hstate]; exact h.state
  · rwa [hself]
  · rw [hself] at hv ⊢
    rcases hvtable v hv with hv | ⟨rfl, symbol, hsymbol, hent⟩
    · obtain ⟨hhas, symbol, hsymbol, hent⟩ := h.vtable v hv
      exact ⟨(hold hhas).1, symbol, hsymbol, by rw [(hold hhas).2, hent, hext]⟩
    · exact ⟨hlast.1, symbol, hsymbol, hlast.2.trans hent⟩
  · rw [hself] at ho ⊢
    rcases hobject o ho with ho | ⟨rfl, symbol, hsymbol, hent⟩
    · obtain ⟨hhas, symbol, hsymbol, hent⟩ := h.classObject o ho
      exact ⟨(hold hhas).1, symbol, hsymbol, by rw [(hold hhas).2, hent, hext]⟩
    · exact ⟨hlast.1, symbol, hsymbol, hlast.2.trans hent⟩
  · rw [hself]
    rw [HasEntity, Program.HasEntity, hsize] at he
    rcases Nat.lt_succ_iff_lt_or_eq.1 he with he | he
    · exact (h.new e he).imp id fun h => hnew e (h.elim .inl fun h => .inr (.inl h))
    · exact .inr (hnew e (.inr (.inr (EntityId.ext he))))

end Declares

/-- The world is in order once the tables of the new class are declared. -/
lemma Enters.sound (h : Enters source name c w w') (hs : w.Sound) : w'.Sound := by
  obtain ⟨file, hload, hfile, hflags⟩ := h.file
  have hempty : (w'.classAt c).superclass? = none ∧ (w'.classAt c).interfaces = [] ∧ (w'.classAt c).members = [] ∧
      (w'.classAt c).vtableSize = 0 := by
    rw [h.bare]; exact ⟨rfl, rfl, rfl, rfl⟩
  refine ⟨?_, ?_, ?_, ?_, ?_, ?_, ?_, ?_, ?_, ?_⟩
  · intro n d hd
    rw [h.named?_eq] at hd
    rcases Option.or_eq_some_iff.1 hd with hd | ⟨-, hd⟩
    · obtain ⟨h1, h2⟩ := hs.named n d hd; exact ⟨h.hasClass h1, by rwa [h.classAt d h1]⟩
    · split at hd
      · rename_i hn
        cases hd
        exact ⟨h.has, h.called.trans hn.symm⟩
      · cases hd
  · intro d e he
    rcases h.classAt_or d with hd | rfl
    · rw [hd] at he
      obtain ⟨h1, h2⟩ := hs.member d e he; exact ⟨h.hasEntity h1, by rwa [h.entityAt e h1]⟩
    · simp [hempty.2.2.1] at he
  · intro d
    rcases h.classAt_or d with hd | rfl
    · rw [hd]; exact hs.members_nodup d
    · rw [hempty.2.2.1]; exact nodup_nil
  · intro d v hv
    rcases h.classAt_or d with hd | rfl
    · rw [hd] at hv
      obtain ⟨h1, h2⟩ := hs.vtable d v hv; exact ⟨h.hasEntity h1, by rwa [h.entityAt v h1]⟩
    · obtain ⟨h1, symbol, -, hat⟩ := h.vtable v hv; rw [hat]; exact ⟨h1, rfl, rfl, rfl⟩
  · intro d o ho
    rcases h.classAt_or d with hd | rfl
    · rw [hd] at ho
      obtain ⟨h1, h2⟩ := hs.classObject d o ho; exact ⟨h.hasEntity h1, by rwa [h.entityAt o h1]⟩
    · obtain ⟨h1, symbol, -, hat⟩ := h.classObject o ho; rw [hat]; exact ⟨h1, rfl, rfl, rfl⟩
  · intro d hd
    rcases h.has_or hd with hd | rfl
    · rw [h.classAt d hd]; exact hs.filed d hd
    · exact ⟨file, hfile, h.called.symm ▸ name_of_load hload⟩
  · intro d f hf
    rcases h.classAt_or d with hd | rfl
    · rw [hd] at hf ⊢; exact hs.loaded d f hf
    · cases hfile.symm.trans hf
      exact ⟨hflags, h.tables⟩
  · intro d hd
    rw [h.finalizing] at hd
    obtain ⟨h1, h2⟩ := hs.finalizing d hd; exact ⟨h.hasClass h1, by rwa [h.classAt d h1]⟩
  · intro d hd
    rcases h.classAt_or d with hdc | rfl
    · rw [hdc]
      apply hs.fresh
      rwa [Protected, ← hdc, ← h.finalizing]
    · exact hempty
  · intro f e hf
    rw [h.functions] at hf
    obtain ⟨h1, h2⟩ := hs.functions f e hf; exact ⟨h.hasEntity h1, by rw [h.entityAt e h1, h2]⟩

lemma Enters.loads (h : Enters source name c w w') (hs : w.Sound) (hf : w.Fine) : Loads w w' :=
  ⟨h.grows hf, h.sound hs, h.finalizing, fun hv => hv.keeps hf (h.keeps (S := fun _ => True))
    (fun _ _ => trivial) h.finalized⟩

end World

open World

variable {w w' : World} {c : ClassId} {source : ClassSource} {name : String}

private lemma declareClassObject_ends (h : Declares name c w w') (hnone : (w'.classAt c).classObject? = none) :
    Ends ((do
      let symbol ← pureStep (Symbol.mangleClassObject name)
      let classObject ← onProgram fun p =>
      p.newEntity (tableEntity c (w'.classAt c).isExtern Symbol.classObjectName symbol)
      modifyClass c fun info => { info with classObject? := some classObject } : Load Unit) w')
      (fun _ w'' => Declares name c w w'' ∧ ∃ o, w''.classAt c = { w'.classAt c with classObject? := some o })
      (Declares name c w) := by
  refine ends_pureStep_bind (fun symbol hsymbol => ?_) h
  apply ends_onProgram_bind
  apply ends_modifyClass
  obtain ⟨h1, hat⟩ := h.declare (tableEntity c (w'.classAt c).isExtern Symbol.classObjectName symbol)
    (fun o info => { info with classObject? := some o }) rfl rfl rfl rfl rfl (by rw [h.bare]; rfl)
    (fun v hv => .inl hv) (by rintro o ⟨⟩; exact .inr ⟨rfl, symbol, hsymbol, rfl⟩) (by
      rintro e (he | he | rfl)
      · exact .inl he
      · cases hnone.symm.trans he
      · exact .inr rfl)
  exact ⟨h1, _, hat⟩

lemma declareTables_ends (h : Declares name c w w') (hvtable : (w'.classAt c).vtable? = none)
    (hobject : (w'.classAt c).classObject? = none) :
    Ends (declareTables c w') (fun _ w'' => Declares name c w w'' ∧ ∃ v? o,
        w''.classAt c = { w'.classAt c with vtable? := v?, classObject? := some o } ∧
          (v?.isSome ↔ (w'.classAt c).isInterface = false)) (Declares name c w) := by
  obtain rfl := h.called
  apply ends_get_bind
  cases hint : (w'.classAt c).isInterface with
  | true =>
    refine (declareClassObject_ends h hobject).imp ?_ fun _ h => h
    rintro _ w'' ⟨h1, o, hat⟩; exact ⟨h1, none, o, by rw [hat, ← hvtable], by simp⟩
  | false =>
    refine ends_pureStep_bind (fun symbol hsymbol => ?_) h
    obtain ⟨h1, hat⟩ := h.declare (tableEntity c (w'.classAt c).isExtern "vtable" symbol)
      (fun v info => { info with vtable? := some v }) rfl rfl rfl rfl rfl (by rw [h.bare]; rfl)
      (by rintro v ⟨⟩; exact .inr ⟨rfl, symbol, hsymbol, rfl⟩) (fun o ho => .inl ho) (by
        rintro e (he | he | rfl)
        · cases hvtable.symm.trans he
        · exact .inr he
        · exact .inl rfl)
    have hlast := declareClassObject_ends h1 (by rwa [hat])
    rw [hat] at hlast
    refine hlast.imp ?_ fun _ h => h
    rintro _ w'' ⟨h2, o, hat2⟩; exact ⟨h2, _, o, hat2, by simp⟩

lemma declares_newClass (w : World) (name : String) :
    Declares name ⟨w.program.classes.size⟩ w { (w.modifyProgram fun p => (p.newClass name).2) with
      names := w.names ++ [(name, ⟨w.program.classes.size⟩)] } ∧
    World.classAt { (w.modifyProgram fun p => (p.newClass name).2) with
      names := w.names ++ [(name, ⟨w.program.classes.size⟩)] } ⟨w.program.classes.size⟩ = { name } := by
  have hnew : (w.program.newClass name).2.classAt ⟨w.program.classes.size⟩ = { name } :=
    (classAt_newClass _ _ _).trans (if_pos rfl)
  refine ⟨⟨.single (.addClass _ name), rfl, size_newClass _ _, le_rfl, fun d hd => ?_, fun _ _ => rfl, ?_, ?_, ?_,
    fun v hv => ?_, fun o ho => ?_, fun e he => .inl he, rfl, rfl, rfl, rfl, rfl, rfl⟩, hnew⟩
  · exact (classAt_newClass _ _ _).trans (if_neg (ne_of_lt hd))
  · exact (congrArg (·.name) hnew :)
  · intro h; cases (congrArg (·.state) hnew :).symm.trans h
  · exact (hnew.trans rfl).trans (congrArg (·.origin) hnew :).symm
  · cases (congrArg (·.vtable?) hnew :).symm.trans hv
  · cases (congrArg (·.classObject?) hnew :).symm.trans ho

lemma classNamed_enters (source : ClassSource) (name : String) (w : World) : Ends (classNamed source name w)
      (fun c w' => w.named? name = some c ∧ w' = w ∨ w.named? name = none ∧ Enters source name c w w')
      (fun w' => w.named? name = none ∧ ∃ c, Declares name c w w') := by
  apply ends_get_bind
  cases hn : w.named? name with
  | some c => exact ends_pure (.inl ⟨rfl, rfl⟩)
  | none =>
    obtain ⟨h1, hat1⟩ := declares_newClass w name
    refine ends_pureStep_bind ?_ ⟨rfl, _, h1⟩
    rintro ⟨file, isExtern⟩ hload
    apply ends_modifyClass_bind
    obtain ⟨h2, hself⟩ := h1.modifyClass (f := fun info =>
      { info with file? := some file, flags := file.flags, isExtern := isExtern, state := .loaded }) (by rw [hat1])
      rfl (by exact nofun) rfl (by rw [hat1]) (by rw [hat1]) rfl rfl
    refine ends_bind ((declareTables_ends h2 (congrArg vtable? hself :)
      (congrArg classObject? hself :)).imp (fun _ _ h => h) fun w' h => ⟨rfl, _, h⟩) ?_
    rintro _ w3 ⟨h3, v?, o, hat, hv⟩
    rw [hself] at hat hv
    have hfile : (w3.classAt ⟨w.program.classes.size⟩).file? = some file := by rw [hat]
    have hflags : (w3.classAt ⟨w.program.classes.size⟩).flags = file.flags := by rw [hat]
    have he : Enters source name ⟨w.program.classes.size⟩ w w3 := by
      refine ⟨h3, ⟨file, ?_, hfile, hflags⟩, ?_⟩
      · rwa [hat]
      · rw [hat]; exact ⟨hv, rfl⟩
    exact ends_pure (.inr ⟨rfl, he⟩)

lemma classNamed_ends (source : ClassSource) (name : String) (hs : w.Sound) (hf : w.Fine) :
    Ends (classNamed source name w)
      (fun c w' => Loads w w' ∧ w'.HasClass c ∧ (w'.classAt c).name = name) (Grows w) := by
  refine (classNamed_enters source name w).imp ?_ ?_
  · rintro c w' (⟨hn, rfl⟩ | ⟨-, h⟩)
    · exact ⟨.refl hs hf, hs.named name c hn⟩
    · exact ⟨h.loads hs hf, h.has, h.called⟩
  · rintro w' ⟨-, c, h⟩; exact h.grows hf

end JvmGraph
