import JvmGraph.Proofs.Loading.Steady

/-!
# What holds in any world
A class is laid out by its finalization, behind its superclass. A class that could not be finalized stays marked and
is never finalized, so a superclass that is finalized in the end was finalized when the class was laid out, or the
class was laid out while the superclass was waiting for it: then the superclass is its own supertype. This holds in
every world that a session can reach, whichever of its calls fail. A call that succeeds adds complete classes and
leaves no mark.
-/

open Relation (ReflTransGen TransGen)

namespace JvmGraph

open Steps Load World List Program ClassInfo

namespace World

variable {S : ClassId → Prop} {w w' w'' : World} {c d s : ClassId} {name : String} {file : ClassFile}
    {source : ClassSource}

/-- The class has its file and its class object. -/
structure Complete (w : World) (c : ClassId) : Prop where
  file : ∃ file, (w.classAt c).file? = some file ∧ file.name = .ok (w.classAt c).name
  classObject : ∃ o symbol, (w.classAt c).classObject? = some o ∧ w.HasEntity o ∧
    Symbol.mangleClassObject (w.classAt c).name = .ok symbol ∧
      (w.program.entityAt o).label = (Symbol.classObjectName, symbol, some c)

lemma Complete.mono (h : w.Complete c) (hg : w.program.GrowsTo w'.program) : w'.Complete c := by
  obtain ⟨⟨file, hfile, hname⟩, o, symbol, ho, hhas, hsymbol, hlabel⟩ := h
  have hbirth := hg.birth c (hasClass_of_file hfile)
  have hcalled : (w'.classAt c).name = (w.classAt c).name := (congrArg name hbirth :)
  refine ⟨⟨file, (congrArg file? hbirth :).trans hfile, by rwa [hcalled]⟩, o, symbol,
    (congrArg classObject? hbirth :).trans ho, hg.hasEntity hhas, by rwa [hcalled],
    (hg.label o hhas).trans hlabel⟩

lemma Enters.complete (h : Enters source name c w w') : w'.Complete c := by
  obtain ⟨file, hload, hfile, -⟩ := h.file
  obtain ⟨o, ho⟩ := Option.isSome_iff_exists.1 h.tables.2
  obtain ⟨hhas, symbol, hsymbol, hat⟩ := h.classObject o ho
  refine ⟨⟨file, hfile, by rw [h.called]; exact name_of_load hload⟩, o, symbol, ho, hhas, by rwa [h.called], ?_⟩
  rw [hat]
  rfl

/-- Names lead to classes of that name. -/
def Registered (w : World) : Prop :=
  ∀ name c, w.named? name = some c → w.HasClass c ∧ (w.classAt c).name = name

lemma Registered.mono (h : w.Registered) (hg : w.program.GrowsTo w'.program) (hn : w'.names = w.names) :
    w'.Registered := by
  intro name c hc
  rw [named?, hn] at hc
  obtain ⟨hhas, hname⟩ := h name c hc
  exact ⟨hg.hasClass hhas, (congrArg (·.name) (hg.birth c hhas) :).trans hname⟩

lemma Declares.registered (h : Declares name c w w') (hr : w.Registered) : w'.Registered := by
  intro n d hd
  rw [h.named?_eq] at hd
  cases hold : w.named? n with
  | some d' =>
    rw [hold, Option.some_or, Option.some.injEq] at hd
    obtain ⟨hhas, hname⟩ := hr n d' hold
    subst hd; exact ⟨h.hasClass hhas, by rwa [h.classAt _ hhas]⟩
  | none =>
    rw [hold] at hd
    split at hd
    · rename_i hn
      cases hd
      exact ⟨h.has, h.called.trans hn.symm⟩
    · cases hd

/-! ## Layouts -/

/-- What is known of class `c` in any world. -/
structure Plan (w : World) (c : ClassId) : Prop where
  member : ∀ e ∈ (w.classAt c).members, w.HasEntity e ∧ (w.program.entityAt e).owner? = some c
  nodup : (w.classAt c).members.Nodup
  fresh : ¬ w.Protected c → (w.classAt c).members = []
  super : ∀ s, (w.classAt c).superclass? = some s → w.program.Above s c ∧ w.Protected s
  laid : (w.classAt c).state = .finalized → (∀ s, (w.classAt c).superclass? = some s →
    (w.classAt s).state = .finalized ∧ ¬ TransGen w.program.Above s s) → w.program.Fielded c

structure Planned (w : World) : Prop where
  registered : w.Registered
  marked : ∀ c ∈ w.finalizing, (w.classAt c).state ≠ .finalized
  plan : ∀ c, w.Plan c

lemma hasClass_of_finalized (hd : w.Finalized d) : w.HasClass d :=
  hasClass_of_state (by rw [show w.program.classAt d = w.classAt d from rfl, hd]; exact nofun)

/-- Nothing has happened to the class yet. -/
def Untouched (w : World) (c : ClassId) : Prop := w.classAt c = (w.classAt c).origin ∧ (w.classAt c).state ≠ .finalized

lemma untouched_of_not (hc : ¬ w.HasClass c) : w.Untouched c := by
  rw [Untouched, show w.classAt c = { name := "" } from classAt_of_not _ c hc]
  exact ⟨rfl, nofun⟩

lemma Untouched.plan (h : w.Untouched c) : w.Plan c := by
  obtain ⟨hbare, hstate⟩ := h
  refine ⟨fun e he => ?_, ?_, fun _ => ?_, fun s hs => ?_, fun h => absurd h hstate⟩
  · rw [hbare] at he; cases he
  · rw [hbare]; exact nodup_nil
  · rw [hbare]; rfl
  · rw [hbare] at hs; cases hs

lemma planned_empty : Planned {} :=
  ⟨fun _ _ h => (nomatch h), fun _ h => (nomatch h), fun _ => (untouched_of_not (Nat.not_lt_zero _)).plan⟩

namespace Planned

variable (h : w.Planned)

include h

section

variable (hk : w.program.Spares S w'.program) (hd : w.HasClass d) (hS : S d)

include hk hd hS

lemma fielded (hsuper : ∀ s, (w.classAt d).superclass? = some s → S s) (hf : w.program.Fielded d) :
    w'.program.Fielded d := by
  have hplan := hk.plan d hd hS
  refine hf.congr (fieldStart_congr (congrArg superclass? hplan :) fun s hs => ?_)
    (congrArg members hplan :) (fun e he => ?_) (congrArg size hplan :)
  · exact (congrArg size (hk.plan s ((h.plan d).super s hs).1.1 (hsuper s hs)) :)
  · obtain ⟨hhas, howner⟩ := (h.plan d).member e he
    refine hk.field e hhas fun c hc => ?_
    cases howner.symm.trans hc
    exact hS

/-- What is known of a class that keeps its layout stays so, if a superclass of it that is new among the finalized
ones is its own supertype. -/
lemma spares (hprotected : ∀ a, w.Protected a → w'.Protected a)
    (hnew : ∀ s, (w.classAt d).superclass? = some s → w.Finalized d →
    w'.Finalized s →
      w.Finalized s ∧ S s ∨ TransGen w'.program.Above s s) : w'.Plan d := by
  have hplan := hk.plan d hd hS
  have hmembers : (w'.classAt d).members = (w.classAt d).members := (congrArg members hplan :)
  have hsuper : (w'.classAt d).superclass? = (w.classAt d).superclass? := (congrArg superclass? hplan :)
  obtain ⟨hmember, hnodup, hfresh, habove, hlaid⟩ := h.plan d
  refine ⟨fun e he => ?_, hmembers ▸ hnodup, fun hd => ?_, fun s hs => ?_, fun hdone hs => ?_⟩
  · rw [hmembers] at he
    exact ⟨hk.hasEntity (hmember e he).1, (hk.owner (hmember e he).1).trans (hmember e he).2⟩
  · rw [hmembers]; exact hfresh fun h => hd (hprotected d h)
  · rw [hsuper] at hs
    exact ⟨hk.above (habove s hs).1, hprotected s (habove s hs).2⟩
  · rw [show (w'.classAt d).state = _ from (congrArg state hplan :)] at hdone
    rw [hsuper] at hs
    have hold : ∀ s, (w.classAt d).superclass? = some s → w.Finalized s ∧ S s := fun s hs' =>
      (hnew s hs' hdone (hs s hs').1).resolve_right (hs s hs').2
    refine h.fielded hk hd hS (fun s hs' => (hold s hs').2) (hlaid hdone fun s hs' => ⟨(hold s hs').1, ?_⟩)
    exact fun hcircle => (hs s hs').2 (hk.transGen hcircle)

end

/-- All classes keep their layout. -/
lemma keeps (hk : w.program.Spares (fun _ => True) w'.program) (hr : w'.Registered)
    (hold : ∀ a ∈ w.finalizing, a ∈ w'.finalizing)
    (hmarked : ∀ a ∈ w'.finalizing, a ∈ w.finalizing ∨ ¬ w'.Finalized a)
    (hnew : ∀ d, ¬ w.HasClass d → w'.Untouched d) : w'.Planned := by
  have hstate : ∀ {d}, w.HasClass d → (w'.classAt d).state = (w.classAt d).state := fun hd =>
    (congrArg state (hk.plan _ hd trivial) :)
  refine ⟨hr, fun c hc => ?_, fun c => ?_⟩ <;> by_cases hhas : w.HasClass c
  · exact (hmarked c hc).elim (fun hc => by rw [hstate hhas]; exact h.marked c hc) id
  · exact (hnew c hhas).2
  · refine h.spares hk hhas trivial (fun a ha => ha.imp (fun ha => ?_) (hold a)) fun s hs _ hdone => ?_
    · rwa [hstate (hasClass_of_finalized ha)]
    · exact .inl ⟨(hstate ((h.plan c).super s hs).1.1).symm.trans hdone, trivial⟩
  · exact (hnew c hhas).plan

lemma steady (hp : w.program.Steady w'.program) (hn : w'.names = w.names) (hf : w'.finalizing = w.finalizing) :
    w'.Planned := by
  refine h.keeps hp.toSpares (h.registered.mono hp.toGrowsTo hn) (fun a ha => hf ▸ ha) (fun a ha => .inl (hf ▸ ha))
    fun d hd => ?_
  exact untouched_of_not (mt (hasClass_iff hp.same).1 hd)

lemma mark (hc : ¬ w.Finalized c) : Planned { w with finalizing := c :: w.finalizing } := by
  refine h.keeps (Program.Steady.refl w.program).toSpares h.registered (fun a => mem_cons_of_mem c) (fun a ha => ?_)
    fun d => untouched_of_not
  exact (mem_cons.1 ha).elim (fun hac => .inr (hac ▸ hc)) .inl

/-- All classes but `c` keep their layout. Where `c` is finalized now, classes that have it for their superclass are its
supertypes. -/
lemma around (hk : w.program.Spares (· ≠ c) w'.program) (hsame : w'.program.classes.size = w.program.classes.size)
    (hn : w'.names = w.names) (hold : ∀ a ∈ w.finalizing, a ≠ c → a ∈ w'.finalizing)
    (hmarked : ∀ a ∈ w'.finalizing, a ∈ w.finalizing ∧ (a = c → ¬ w'.Finalized c))
    (hself : w'.Protected c) (hc : w'.Plan c) (hnew : ∀ d, (w.classAt d).superclass? = some c →
    w.Finalized d →
      w'.Finalized c → TransGen w'.program.Above c c) : w'.Planned := by
  have hstate : ∀ {d}, d ≠ c → (w'.classAt d).state = (w.classAt d).state := by
    intro d hdc
    by_cases hd : w.HasClass d
    · exact (congrArg state (hk.plan d hd hdc) :)
    · rw [classAt, classAt, classAt_of_not _ d hd, classAt_of_not _ d (mt (hasClass_iff hsame).1 hd)]
  refine ⟨h.registered.mono hk.toGrowsTo hn, fun a ha => ?_, fun d => ?_⟩
  · by_cases hac : a = c
    · exact hac ▸ (hmarked a ha).2 hac
    · rw [hstate hac]; exact h.marked a (hmarked a ha).1
  · by_cases hdc : d = c
    · exact hdc ▸ hc
    by_cases hd : w.HasClass d
    · refine h.spares hk hd hdc (fun a ha => ?_) fun s hs hdone hs' => ?_
      · by_cases hac : a = c
        · exact hac ▸ hself
        · exact ha.imp (fun ha => (hstate hac).trans ha) fun ha => hold a ha hac
      · by_cases hsc : s = c
        · subst hsc; exact .inr (hnew d hs hdone hs')
        · exact .inl ⟨(hstate hsc).symm.trans hs', hsc⟩
    · exact (untouched_of_not (mt (hasClass_iff hsame).1 hd)).plan

end Planned

lemma Declares.spares (h : Declares name c w w') : w.program.Spares S w'.program :=
  ⟨.of_continues h.enlarges.toContinues, fun d hd _ => congrArg plan (h.classAt d hd), fun e he _ =>
    congrArg (·.field?) (h.entityAt e he)⟩

lemma Declares.planned (h : Declares name c w w') (hw : w.Planned) : w'.Planned := by
  refine hw.keeps h.spares (h.registered hw.registered) (fun a ha => h.finalizing ▸ ha)
    (fun a ha => .inl (h.finalizing ▸ ha))
    fun d hd => ?_
  rcases h.classAt_or d with hat | rfl
  · rw [Untouched, hat]; exact untouched_of_not hd
  · exact ⟨h.bare, h.state⟩

/-! ## Finalization -/

/-- What calls do that succeed. -/
structure Extends (w w' : World) : Prop where
  grows : w.program.GrowsTo w'.program
  complete : ∀ d, w'.HasClass d → w.HasClass d ∨ w'.Complete d
  finalizing : w'.finalizing = w.finalizing

lemma Extends.trans (h : Extends w w') (h' : Extends w' w'') : Extends w w'' :=
  ⟨h.grows.trans h'.grows, fun d hd => (h'.complete d hd).elim
    (fun hd => (h.complete d hd).imp id (·.mono h'.grows)) .inr,
    h'.finalizing.trans h.finalizing⟩

lemma Extends.steady (hp : w.program.Steady w'.program) (hf : w'.finalizing = w.finalizing) : Extends w w' :=
  ⟨hp.toGrowsTo, fun _ hd => .inl (lt_of_lt_of_eq hd hp.same), hf⟩

lemma Enters.extends (h : Enters source name c w w') : Extends w w' :=
  ⟨.of_continues h.enlarges.toContinues, fun d hd => (h.has_or hd).imp id fun (hdc : d = c) => hdc ▸ h.complete,
    h.finalizing⟩

/-- What calls leave behind that fail. -/
structure Fails (w w' : World) : Prop where
  grows : w.program.GrowsTo w'.program
  planned : w'.Planned

/-- A finalization of `c` that has succeeded: classes that are finalized since are supertypes of `c`. -/
structure Completes (c : ClassId) (w w' : World) : Prop where
  spares : w.program.Spares w.Protected w'.program
  planned : w'.Planned
  adds : Extends w w'
  isProtected : w'.Protected c
  new : ∀ d, (w'.classAt d).state = .finalized → (w.classAt d).state = .finalized ∨ ReflTransGen w'.program.Above d c

/-- A finalization of `c` that began in `w`. -/
structure Begun (c : ClassId) (file : ClassFile) (w w' : World) : Prop where
  spares : w.program.Spares w.Protected w'.program
  planned : w'.Planned
  adds : Extends { w with finalizing := c :: w.finalizing } w'
  file : (w'.classAt c).file? = some file
  new : ∀ d, (w'.classAt d).state = .finalized → (w.classAt d).state = .finalized ∨ TransGen w'.program.Above d c

/-- The fields of `c` have their places yet to get. -/
def Unplaced (w : World) (c : ClassId) : Prop :=
  ∀ e ∈ (w.classAt c).members, (w.program.entityAt e).Placeable

/-- The fields of `c` have got their places, behind a superclass that is finalized. -/
def Placed (w : World) (c : ClassId) : Prop :=
  (∀ s, (w.classAt c).superclass? = some s → (w.classAt s).state = .finalized) → w.program.Fielded c

lemma Unplaced.spares (h : w.Unplaced c) (hw : w.Planned) (hk : w.program.Spares S w'.program)
    (hc : w.HasClass c) (hS : S c) : w'.Unplaced c := by
  intro e he f hf
  rw [show (w'.classAt c).members = _ from (congrArg members (hk.plan c hc hS) :)] at he
  obtain ⟨hhas, howner⟩ := (hw.plan c).member e he
  refine h e he f ((hk.field e hhas fun d hd => ?_).symm.trans hf)
  cases howner.symm.trans hd
  exact hS

namespace Begun

section

variable (h : Begun c file w w')

include h

lemma mem_finalizing : c ∈ w'.finalizing := h.adds.finalizing ▸ mem_cons_self

lemma hasClass : w'.HasClass c := hasClass_of_file h.file

lemma state : ¬ w'.Finalized c := h.planned.marked c h.mem_finalizing

lemma protects (hd : w.Protected d) : w'.Protected d := by
  refine hd.imp (fun hd => ?_) fun hd => h.adds.finalizing ▸ mem_cons_of_mem c hd
  exact (congrArg (·.state) (h.spares.plan d (hasClass_of_finalized hd) (.inl hd)) :).trans hd

/-- A step that leaves alone what is on the way to being finalized, `c` included. -/
lemma grows (hk : w'.program.Spares w'.Protected w''.program) (hp : w''.Planned) (ha : Extends w' w'')
    (hnew : ∀ d, w''.Finalized d → w'.Finalized d ∨
      TransGen w''.program.Above d c) : Begun c file w w'' where
  spares := h.spares.trans (hk.mono fun _ => h.protects)
  planned := hp
  adds := h.adds.trans ha
  file := hk.file_eq_some h.file
  new d hd := (hnew d hd).elim (fun hd => (h.new d hd).imp id hk.transGen) .inr

lemma steady (hp : w'.program.Steady w''.program) (hn : w''.names = w'.names) (hf : w''.finalizing = w'.finalizing) :
    Begun c file w w'' := by
  refine h.grows (hp.mono fun _ _ => trivial) (h.planned.steady hp hn hf) (.steady hp hf) fun d hd => .inl ?_
  have hhas : w'.HasClass d := lt_of_lt_of_eq (hasClass_of_finalized hd) hp.same
  exact (congrArg (·.state) (hp.plan d hhas trivial) :).symm.trans hd

lemma enters (hd : Enters source name d w' w'') : Begun c file w w'' :=
  h.grows hd.spares (hd.planned h.planned) hd.extends fun _ ha => .inl (hd.finalized _ ha)

lemma completes (hs : w'.program.Above s c) (hd : Completes s w' w'') : Begun c file w w'' :=
  h.grows hd.spares hd.planned hd.adds fun a ha => (hd.new a ha).imp id fun ha => .tail' ha (hd.spares.above hs)

/-- Work on `c` alone. -/
lemma works (hc : ¬ w.Protected c) (hk : w'.program.Spares (· ≠ c) w''.program)
    (hsame : w''.program.classes.size = w'.program.classes.size) (hn : w''.names = w'.names)
    (hf : w''.finalizing = w'.finalizing) (hstate : (w''.classAt c).state = (w'.classAt c).state)
    (hmember : ∀ e ∈ (w''.classAt c).members, e ∈ (w'.classAt c).members ∨
      w''.HasEntity e ∧ (w''.program.entityAt e).owner? = some c)
    (hnodup : (w''.classAt c).members.Nodup)
    (hsuper : ∀ s, (w''.classAt c).superclass? = some s → w'.program.Above s c ∧ w'.Protected s) :
    Begun c file w w'' := by
  have hc' : ¬ w''.Finalized c := by rw [Finalized, hstate]; exact h.state
  have hself : w''.Protected c := .inr (hf ▸ h.mem_finalizing)
  have hprotected : ∀ a, w'.Protected a → w''.Protected a := by
    refine fun a ha => ha.imp (fun ha => ?_) fun ha => hf ▸ ha
    have hac : a ≠ c := by rintro rfl; exact h.state ha
    exact (congrArg (·.state) (hk.plan a (hasClass_of_finalized ha) hac) :).trans ha
  have hold : ∀ d, w''.Finalized d → w'.Finalized d := by
    intro d hd
    have hdc : d ≠ c := by rintro rfl; exact hc' hd
    exact (congrArg (·.state) (hk.plan d (lt_of_lt_of_eq (hasClass_of_finalized hd) hsame) hdc) :).symm.trans hd
  refine ⟨h.spares.trans (hk.mono ?_), h.planned.around hk hsame hn (fun a ha _ => hf ▸ ha)
    (fun a ha => ⟨hf ▸ ha, fun _ => hc'⟩)
    hself ⟨fun e he => ?_, hnodup, fun hnot => absurd hself hnot, fun s hs =>
      ⟨hk.above (hsuper s hs).1, hprotected s (hsuper s hs).2⟩, fun hdone => absurd hdone hc'⟩
    fun _ _ _ hdone => absurd hdone hc', h.adds.trans ⟨hk.toGrowsTo, fun d hd => .inl (lt_of_lt_of_eq hd hsame), hf⟩,
    hk.file_eq_some h.file, fun d hd => (h.new d (hold d hd)).imp id hk.transGen⟩
  · rintro d hd rfl; exact hc hd
  · refine (hmember e he).elim (fun he => ?_) id
    obtain ⟨hhas, howner⟩ := (h.planned.plan c).member e he
    exact ⟨hk.hasEntity hhas, (hk.owner hhas).trans howner⟩

lemma addMember (hc : ¬ w.Protected c) (hu : w'.Unplaced c) {entity : Entity} (hplace : entity.Placeable) :
    Begun c file w (w'.modifyProgram fun p => (p.addMember c entity).2) ∧
      (w'.modifyProgram fun p => (p.addMember c entity).2).Unplaced c := by
  obtain ⟨hself, hlast, hat⟩ := addMember_spec entity h.hasClass
  have hplan := h.planned.plan c
  generalize hw : (w'.modifyProgram fun p => (p.addMember c entity).2) = w''
  obtain ⟨hp, hn, hf⟩ : w''.program = (w'.program.addMember c entity).2 ∧ w''.names = w'.names ∧
      w''.finalizing = w'.finalizing := by rw [← hw]; exact ⟨rfl, rfl, rfl⟩
  rw [← hp] at hself hlast hat
  have hk : w'.program.Spares (· ≠ c) w''.program := hp ▸ .addMember entity fun h => h rfl
  have hold : ∀ e ∈ (w''.classAt c).members, e ∈ (w'.classAt c).members ∨ e = ⟨w'.program.entities.size⟩ := by
    intro e he
    rwa [classAt, hself, mem_append, mem_singleton] at he
  refine ⟨h.works hc hk (by rw [hp, addMember_snd, size_modifyClass]; rfl) hn hf ?_ (fun e he => ?_) ?_
    fun s hs => ?_, fun e he => ?_⟩
  · rw [classAt, hself]; rfl
  · refine (hold e he).imp id ?_
    rintro rfl; exact ⟨hlast, by rw [hat, if_pos rfl]⟩
  · rw [classAt, hself, nodup_append]
    refine ⟨hplan.nodup, nodup_singleton _, ?_⟩
    rintro x hx y hy rfl
    rw [mem_singleton] at hy
    subst hy; exact lt_irrefl _ (hplan.member _ hx).1
  · rw [classAt, hself] at hs; exact hplan.super s hs
  · rcases hold e he with hmem | rfl
    · rw [hat, if_neg (ne_of_lt (hplan.member e hmem).1)]; exact hu e hmem
    · rw [hat, if_pos rfl]; exact hplace

lemma linkTo (hc : ¬ w.Protected c) (hu : w'.Unplaced c) (hs : w'.program.Above s c) (hp : w'.Protected s)
    {f : ClassInfo → ClassInfo} (hbirth : ∀ info, (f info).birth = info.birth)
    (hplan : ∀ info, (f info).plan = { info.plan with superclass? := some s }) :
    Begun c file w (w'.modifyClass c f) ∧ (w'.modifyClass c f).Unplaced c := by
  have hself : ((w'.modifyClass c f).classAt c).plan = { (w'.classAt c).plan with superclass? := some s } := by
    rw [← hplan]
    exact congrArg (·.plan) (classAt_modifyClass_self _ c h.hasClass)
  have hmembers : ((w'.modifyClass c f).classAt c).members = (w'.classAt c).members := (congrArg (·.members) hself :)
  refine ⟨h.works hc (.modifyClass hbirth fun h => absurd rfl h) (size_modifyClass w'.program c f) rfl rfl
    (congrArg (·.state) hself :) (fun e he => .inl (hmembers ▸ he)) (hmembers ▸ (h.planned.plan c).nodup)
      fun s' hs' => ?_,
    fun e he => hu e (hmembers ▸ he)⟩
  cases (congrArg (·.superclass?) hself :).symm.trans hs'
  exact ⟨hs, hp⟩

lemma layoutFields (hc : ¬ w.Protected c) (hu : w'.Unplaced c) :
    Begun c file w (w'.modifyProgram fun p => p.layoutFields c) ∧
      (w'.modifyProgram fun p => p.layoutFields c).Placed c := by
  generalize hw : (w'.modifyProgram fun p => p.layoutFields c) = w''
  obtain ⟨hp, hn, hf⟩ : w''.program = w'.program.layoutFields c ∧ w''.names = w'.names ∧
      w''.finalizing = w'.finalizing := by rw [← hw]; exact ⟨rfl, rfl, rfl⟩
  obtain ⟨hr, -⟩ := placeFields_reworks (w'.program.classAt c).members (w'.program.classAt c).members
    (fun _ h => h) w'.program (w'.program.fieldStart c)
  have hplan := h.planned.plan c
  have hplaced : (w'.program.placeFields (w'.program.fieldStart c) (w'.program.classAt c).members).2.Placed _
      (w'.program.classAt c).members
        (w'.program.placeFields (w'.program.fieldStart c) (w'.program.classAt c).members).1 :=
    placeFields_placed hplan.nodup hu (w'.program.fieldStart c)
  have hk : w'.program.Spares (· ≠ c) w''.program :=
    hp ▸ .layoutFields (fun e he => (hplan.member e he).2) fun h => h rfl
  rw [layoutFields_eq] at hp
  generalize w'.program.placeFields (w'.program.fieldStart c) (w'.program.classAt c).members = q at hr hp hplaced
  have hself : w''.classAt c = { w'.classAt c with size := align q.1 Abi.pointerSize } := by
    rw [classAt, hp, classAt_modifyClass_self _ c (by rw [Program.HasClass, hr.classes]; exact h.hasClass), hr.classAt]
    rfl
  have h1 : Begun c file w w'' := by
    refine h.works hc hk (by rw [hp, size_modifyClass, hr.classes]) hn hf (by rw [hself])
      (fun e he => .inl ?_) (by rw [hself]; exact hplan.nodup) fun s hs => ?_
    · rwa [hself] at he
    · rw [hself] at hs; exact hplan.super s hs
  refine ⟨h1, fun hsuper => ⟨q.1, ?_, congrArg size hself⟩⟩
  -- the superclass is another class, so its size is the one that was used
  have hstart : w''.program.fieldStart c = w'.program.fieldStart c := by
    refine fieldStart_congr (congrArg superclass? hself :) fun s hs => ?_
    have hsc : s ≠ c := by
      rintro rfl
      exact h1.state (hsuper s ((congrArg superclass? hself :).trans hs))
    exact (congrArg size (hk.plan s (hplan.super s hs).1.1 hsc) :)
  rw [hstart, show (w''.program.classAt c).members = _ from congrArg members hself]
  exact hplaced.congr fun e _ => by rw [hp]; rfl

/-- In the end, classes that have `c` for their superclass were finalized since, and for its sake. -/
lemma finished (hw : w.Planned) (hc : ¬ w.Protected c) (hplaced : w'.Placed c) : Completes c w (w'.finished c) := by
  have hat := finished_classAt h.hasClass
  have hself : (w'.finished c).classAt c = { w'.classAt c with state := .finalized } := (hat c).trans (if_pos rfl)
  have hdone : (w'.finished c).Protected c := .inl (by rw [hself])
  have hold : ∀ {d}, d ≠ c → (w'.finished c).classAt d = w'.classAt d := fun hd => (hat _).trans (if_neg hd)
  have hk : w'.program.Spares (· ≠ c) (w'.finished c).program := by
    rw [finished_program]
    exact .modifyClass (fun _ => rfl) fun h => absurd rfl h
  have hsame : (w'.finished c).program.classes.size = w'.program.classes.size := by
    rw [finished_program, size_modifyClass]
  have hfinalizing : (w'.finished c).finalizing = w.finalizing := by
    rw [finished_finalizing, h.adds.finalizing, filter_cons, if_neg (by simp), filter_eq_self]
    rintro d hd; simpa using fun (hdc : d = c) => hc (.inr (hdc ▸ hd))
  have hmarks : ∀ a ∈ w'.finalizing, a ≠ c → a ∈ (w'.finished c).finalizing := by
    intro a ha hac
    rw [h.adds.finalizing] at ha
    exact hfinalizing ▸ (mem_cons.1 ha).resolve_left hac
  have hplan := h.planned.plan c
  have hp : (w'.finished c).Planned := by
    refine h.planned.around hk hsame (finished_names w' c) hmarks (fun a ha => ?_) hdone
      ⟨fun e he => ?_, by rw [hself]; exact hplan.nodup, fun hnot => absurd hdone hnot, fun s hs => ?_, fun _ hs => ?_⟩
      fun d hs hd _ => ?_
    · rw [hfinalizing] at ha
      exact ⟨h.adds.finalizing ▸ mem_cons_of_mem c ha, fun hac => absurd (.inr (hac ▸ ha)) hc⟩
    · rw [hself] at he
      exact ⟨hk.hasEntity (hplan.member e he).1, (hk.owner (hplan.member e he).1).trans (hplan.member e he).2⟩
    · rw [hself] at hs
      refine ⟨hk.above (hplan.super s hs).1, ?_⟩
      by_cases hsc : s = c
      · exact hsc ▸ hdone
      · exact (hplan.super s hs).2.imp (fun h => (hold hsc).symm ▸ h) fun h => hmarks s h hsc
    · rw [hself] at hs
      have hsc : ∀ s, (w'.classAt c).superclass? = some s → s ≠ c := by
        rintro s hs' rfl; exact (hs s hs').2 (.single (hk.above (hplan.super s hs').1))
      refine (hplaced fun s hs' => hold (hsc s hs') ▸ (hs s hs').1).congr
        (fieldStart_congr (congrArg superclass? hself :) fun s hs' => ?_)
        (congrArg members hself :) (fun e _ => ?_) (congrArg size hself :)
      · exact congrArg size (hold (hsc s hs'))
      · exact congrArg (·.field?) (finished_entityAt w' c e)
    · -- `d` was not finalized before `c` was begun
      refine .head (hk.above ((h.planned.plan d).super c hs).1) (hk.transGen ((h.new d hd).resolve_left fun h0 => ?_))
      have hsuper : (w'.classAt d).superclass? = (w.classAt d).superclass? :=
        (congrArg superclass? (h.spares.plan d (hasClass_of_finalized h0) (.inl h0)) :)
      exact hc ((hw.plan d).super c (hsuper.symm.trans hs)).2
  refine ⟨h.spares.trans (hk.mono ?_), hp, ⟨h.adds.grows.trans hk.toGrowsTo, fun d hd => ?_, hfinalizing⟩, hdone,
    fun d hd => ?_⟩
  · rintro d hd rfl; exact hc hd
  · exact (h.adds.complete d (lt_of_lt_of_eq hd hsame)).imp id (·.mono hk.toGrowsTo)
  · by_cases hdc : d = c
    · exact hdc ▸ .inr .refl
    · rw [hold hdc] at hd
      exact (h.new d hd).imp id fun hd => (hk.transGen hd).to_reflTransGen

end

end Begun

/-- Steps of a finalization that keep up `P`. -/
def begun (c : ClassId) (file : ClassFile) (w : World) (P : World → Prop) : Contract World where
  inv w' := Begun c file w w' ∧ P w'
  does _ _ := True
  fails _ := Fails w
  refl _ := trivial
  trans _ _ := trivial
  fails_refl h := ⟨h.1.adds.grows, h.1.planned⟩
  fails_trans _ h := h

end World

variable {source : ClassSource} {finalize : ClassId → Load Unit} {w w' : World} {c : ClassId} {file : ClassFile}

def Completing (finalize : ClassId → Load Unit) : Prop :=
  ∀ s w, w.Planned → Ends (finalize s w) (fun _ w' => Completes s w w') (Fails w)

lemma begun_tolerates {P : World → Prop} (hP : ∀ w1 w2 : World, Begun c file w w1 → w1.program.Steady w2.program →
    P w1 → P w2) : Tolerates (begun c file w P) :=
  fun w1 w2 h hp hn hf => ⟨⟨h.1.steady hp hn hf, hP w1 w2 h.1 hp h.2⟩, trivial⟩

/-- Supertypes are looked up and finalized on the way. -/
lemma begun_supertype {α : Type} {next : ClassId → Load α} {Q : α → World → Prop} (hfin : Completing finalize)
    {name : String} (hname : file.Names name) (h : Begun c file w w') (hu : w'.Unplaced c)
    (hnext : ∀ s w2, Begun c file w w2 → w2.Unplaced c → w2.program.Above s c → w2.Protected s →
      Ends (next s w2) Q (Fails w)) :
    Ends ((do
      let s ← classNamed source name
      finalize s
      next s) w') Q (Fails w) := by
  refine ends_bind (Q := fun s w1 => Begun c file w w1 ∧ w1.Unplaced c ∧ w1.program.Above s c)
    ((classNamed_enters source name w').imp ?_ ?_) ?_
  · rintro s w1 (⟨hs, rfl⟩ | ⟨-, hd⟩)
    · obtain ⟨hhas, hcalled⟩ := h.planned.registered name s hs
      exact ⟨h, hu, hhas, file, h.file, by rwa [show (w1.program.classAt s).name = name from hcalled]⟩
    · have h1 := h.enters hd
      refine ⟨h1, hu.spares h.planned hd.spares (S := fun _ => True) h.hasClass trivial, hd.has, file, h1.file, ?_⟩
      rwa [show (w1.program.classAt s).name = name from hd.called]
  · rintro w1 ⟨-, d, hd⟩
    exact ⟨h.adds.grows.trans (.of_continues hd.enlarges.toContinues), hd.planned h.planned⟩
  · rintro s w1 ⟨h1, hu1, habove⟩
    refine ends_bind ((hfin s w1 h1.planned).imp (fun _ _ h => h) fun _ h => ⟨h1.adds.grows.trans h.grows, h.planned⟩)
      fun _ w2 hd => ?_
    exact hnext s w2 (h1.completes habove hd) (hu1.spares h1.planned hd.spares h1.hasClass (.inr h1.mem_finalizing))
      (hd.spares.above habove) hd.isProtected

lemma begun_gathers (hfin : Completing finalize) (hc : ¬ w.Protected c) :
    GatherRules source finalize c file (begun c file w (Unplaced · c)) where
  tolerates := begun_tolerates fun w1 w2 h hp hu => hu.spares h.planned hp.toSpares h.hasClass trivial
  member entity he w1 h := ⟨h.1.addMember hc h.2 he, trivial⟩
  super name hname w1 h := begun_supertype hfin (.inl hname) h.1 h.2 fun s w2 h2 hu habove hp => by
    refine ⟨h2.linkTo hc hu habove hp ?_ ?_, trivial⟩ <;> exact fun _ => rfl
  interface name _ hname hf w1 h := begun_supertype hfin hname h.1 h.2 fun s w2 h2 hu _ _ => hf s w2 ⟨h2, hu⟩

lemma begun_layoutClass (hc : ¬ w.Protected c) (h : Begun c file w w') (hu : w'.Unplaced c) :
    Ends (layoutClass c w') (fun _ w'' => Begun c file w w'' ∧ w''.Placed c) (Fails w) := by
  have ht : Tolerates (begun c file w (Placed · c)) := by
    refine begun_tolerates fun w1 w2 h hp hplaced hs => ?_
    rw [show (w2.classAt c).superclass? = _ from (congrArg superclass? (hp.plan c h.hasClass trivial) :)] at hs
    refine h.planned.fielded hp.toSpares h.hasClass trivial (fun _ _ => trivial) (hplaced fun s hs' => ?_)
    exact (congrArg state (hp.plan s ((h.planned.plan c).super s hs').1.1 trivial) :).symm.trans (hs s hs')
  apply ends_modifyProgram_bind
  exact (ht.layoutTables _ (h.layoutFields hc hu)).imp (fun _ _ h => h.1) fun _ h => h

lemma finalizeWith_completes (hfin : Completing finalize) : Completing (finalizeWith source finalize) := by
  intro c w hw
  have hrefl : w.program.Spares w.Protected w.program := (Program.Steady.refl _).mono fun _ _ => trivial
  apply ends_get_bind
  split
  · rename_i hdone
    exact ends_pure ⟨hrefl, hw, .steady (.refl _) rfl, by simpa [Protected] using hdone, fun d hd => .inl hd⟩
  · rename_i hdone
    have hc : ¬ w.Protected c := by simpa [Protected] using hdone
    have hm : Planned { w with finalizing := c :: w.finalizing } := hw.mark fun h => hc (.inl h)
    change Ends ((classFileOf c >>= _) { w with finalizing := c :: w.finalizing }) _ _
    refine ends_bind ((classFileOf_ends c _).imp (fun _ _ h => h) (by rintro _ rfl; exact ⟨.refl _, hm⟩)) ?_
    rintro file _ ⟨rfl, hfile⟩
    have h : Begun c file w { w with finalizing := c :: w.finalizing } :=
      ⟨hrefl, hm, .steady (.refl _) rfl, hfile, fun d hd => .inl hd⟩
    have hu : Unplaced { w with finalizing := c :: w.finalizing } c := by
      intro e he
      rw [show (World.classAt { w with finalizing := c :: w.finalizing } c).members = [] from
        (hw.plan c).fresh hc] at he
      cases he
    refine (begun_gathers hfin hc).leads (w := w) (fun w1 h1 _ => ?_) _ ⟨h, hu⟩ trivial
    exact ends_bind (begun_layoutClass hc h1.1 h1.2) fun _ w2 h2 => h2.1.finished hw hc h2.2

lemma finalizeWithin_completes (depth : Nat) : Completing (finalizeWithin source depth) := by
  induction depth with
  | zero => exact fun _ _ hw => ⟨.refl _, hw⟩
  | succ depth ih => exact finalizeWith_completes ih

/-! ## Calls -/

/-- What calls rely on and what they do. -/
def planning : Contract World where
  inv := Planned
  does := Extends
  fails := Fails
  refl _ := .steady (.refl _) rfl
  trans := Extends.trans
  fails_refl h := ⟨.refl _, h⟩
  fails_trans h h' := ⟨h.grows.trans h'.grows, h'.planned⟩

lemma planning_call (call : Call) : planning.Honours (call.run source) := by
  have ht : Tolerates planning := fun w w' hw hp hn hf => ⟨Planned.steady hw hp hn hf, .steady hp hf⟩
  refine ht.call (fun name w hw => ?_) (fun c w hw => ?_) call
  · refine (classNamed_enters source name w).imp ?_ fun w' ⟨_, d, hd⟩ =>
      ⟨.of_continues hd.enlarges.toContinues, hd.planned hw⟩
    rintro c w' (⟨-, rfl⟩ | ⟨-, hd⟩)
    · exact ⟨hw, planning.refl hw⟩
    · exact ⟨hd.planned hw, hd.extends⟩
  · exact (finalizeWithin_completes _ c w hw).imp (fun _ _ h => ⟨h.planned, h.adds⟩) fun _ h => h

end JvmGraph
