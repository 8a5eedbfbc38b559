import JvmGraph.Proofs.Abi.Image
import JvmGraph.Proofs.Linking.Tables

/-!
# Class objects

Filling a class object adds the tables it refers to. The rows of the method table are those of the methods of
the class, in their order, each with the code that the method is called by.
-/

namespace JvmGraph

open Steps World Image Text List Program ClassInfo

inductive TableSort where
  | methods | fields | interfaces
  deriving DecidableEq, Repr

namespace TableSort

def field : TableSort → String
  | methods => "methods"
  | fields => "fields"
  | interfaces => "interfaces"

def mark : TableSort → String
  | methods => "_MT_"
  | fields => "_FL_"
  | interfaces => "_IF_"

def nameFor (sort : TableSort) (name : String) : String := sort.mark ++ substituted '/' '_' name

end TableSort

namespace ClassObject

variable {im im' : Image} {T : EntityId → Prop}

/-! ## Rows -/

lemma methodNumber_ok {m : Method} {n s : Nat} (h : methodNumber m = .ok n) (hs : m.slot? = some s) :
    Abi.headerSlots ≤ s := by
  rw [methodNumber, hs, Option.elim_some, slotNumber] at h
  split at h
  · assumption
  · cases h

lemma methodEntry_ends (trap e : EntityId) (name : String) (m : Method) : Ends (methodEntry trap e name m im)
      (fun row im' => Supplies T im im' ∧ codePointer? row = some (.address (codeOf trap e m)) ∧
        ∀ s, m.slot? = some s → Abi.headerSlots ≤ s) (Supplies T im) := by
  have h := (supplies_record (T := T) im (Utf8.encode name)).trans (supplies_record _ (Utf8.encode m.descriptor))
  apply ends_modifyGet_bind
  cases hn : methodNumber m with
  | error err => exact ends_throw h
  | ok n => exact ends_pure ⟨h, rfl, fun s hs => methodNumber_ok hn hs⟩

lemma methodEntries_ends (trap : EntityId) (members : List EntityId) : Ends (methodEntries trap members im)
      (fun rows im' => Supplies T im im' ∧ Forall₂ (im.program.IsRow trap)
        (members.filter fun e => (im.program.declAt? e).isSome) rows) (Supplies T im) := by
  -- the members are looked up in later images, which have the same methods
  suffices h : ∀ rest : List EntityId, ∀ im1, Supplies T im im1 → Ends (methodEntries trap rest im1)
        (fun rows im' => Supplies T im im' ∧ Forall₂ (im.program.IsRow trap)
          (rest.filter fun e => (im.program.declAt? e).isSome) rows) (Supplies T im) from h members im (.refl T im)
  intro rest
  induction rest with
  | nil => exact fun im1 h1 => ends_pure ⟨h1, .nil⟩
  | cons e rest ih =>
    intro im1 h1
    apply ends_get_bind
    have hdecl : im.program.declAt? e = ((im1.program.entityAt e).method?).map Method.decl := h1.declAt? e
    cases hmethod : (im1.program.entityAt e).method? with
    | none => rw [hmethod] at hdecl; simpa [hdecl] using ih im1 h1
    | some m =>
      rw [hmethod] at hdecl
      have hfilter : (e :: rest).filter (fun e => (im.program.declAt? e).isSome) =
          e :: rest.filter fun e => (im.program.declAt? e).isSome := by
        rw [filter_cons, if_pos (by simp [hdecl])]
      rw [hfilter]
      refine ends_bind ((methodEntry_ends trap e _ m).imp (fun _ _ h => h) fun _ h => h1.trans h) ?_
      rintro row im2 ⟨h2, hcode, hslot⟩
      refine ends_bind (ih im2 (h1.trans h2)) ?_
      rintro rows im3 ⟨h3, hrows⟩; exact ends_pure ⟨h3, .cons ⟨m.decl, hdecl, hcode, hslot⟩ hrows⟩

lemma fieldEntry_ends (e : EntityId) (name : String) (f : Field) :
    Ends (fieldEntry e name f im) (fun _ im' => Supplies T im im') (Supplies T im) := by
  obtain ⟨descriptor, type, flags, offset?⟩ := f
  cases type with
  | base k => exact (supplies_primitiveClass im k).trans (supplies_record _ _)
  | object name => exact (supplies_record im _).trans (supplies_record _ _)
  | array element => exact (supplies_record im _).trans (supplies_record _ _)

lemma fieldEntries_ends (fields : List EntityId) :
    Ends (fieldEntries fields im) (fun _ im' => Supplies T im im') (Supplies T im) := by
  induction fields generalizing im with
  | nil => exact ends_pure (.refl T im)
  | cons e rest ih =>
    apply ends_get_bind
    cases (im.program.entityAt e).field? with
    | none => exact ih
    | some f =>
      refine ends_bind (fieldEntry_ends e _ f) ?_
      intro row im1 h1
      refine ends_bind (ih.imp (fun _ _ h => h1.trans h) fun _ h => h1.trans h) ?_
      exact fun rows im2 h2 => ends_pure h2

/-! ## Tables -/

def Tables (name : String) (entries : List Initializer) (t? : Option EntityId) (im im' : Image) : Prop :=
  match t? with
  | none => entries = []
  | some t => ¬ im.program.HasEntity t ∧ im'.program.HasEntity t ∧
    im'.program.entityAt t = .global name .data .hidden (some (.compound entries))

lemma Tables.mono {im0 im1 : Image} {name : String} {entries : List Initializer} {t? : Option EntityId}
    {T0 T1 : EntityId → Prop} (h : Tables name entries t? im im') (h0 : Supplies T0 im0 im) (h1 : Supplies T1 im' im1) :
    Tables name entries t? im0 im1 := by
  cases t? with
  | none => exact h
  | some t =>
    obtain ⟨hnew, hhas, hat⟩ := h
    exact ⟨fun h => hnew (h0.hasEntity h), h1.hasEntity hhas, (h1.entityAt t hhas).trans hat⟩

lemma table_ends (name : String) (entries : List Initializer) {E : Image → Prop} : Ends (table name entries im)
      (fun t? im' => Supplies (fun e => t? = some e) im im' ∧ Tables name entries t? im im') E := by
  cases entries with
  | nil => exact ends_pure ⟨.refl _ im, rfl⟩
  | cons x xs =>
    refine ⟨supplies_newEntity rfl rfl (.inr rfl) (fun _ _ h => h) (fun _ _ h => .inl h) prefix_rfl
      prefix_rfl, lt_irrefl _, ?_, (entityAt_newEntity im.program _ _).trans (if_pos rfl)⟩
    exact lt_of_lt_of_eq (Nat.lt_succ_self _) (size_newEntity im.program _).symm

def holding (values : List Initializer) (e : Entity) : Entity := { e with initializer? := some (.compound values) }

lemma emit_ends (classVTable? : Option EntityId) (trap : EntityId) (c : ClassId) {o : EntityId}
    (ho : (im.program.classAt c).classObject? = some o) :
    Ends (emit classVTable? trap c im)
      (fun _ im' => ∃ im1 values, ∃ tableOf : TableSort → Option EntityId, ∃ entriesOf : TableSort → List Initializer,
        Supplies (fun e => ∃ sort, tableOf sort = some e) im im1 ∧
        im' = im1.modifyProgram (fun p => p.modifyEntity o (holding values)) ∧
        (∀ sort, values[fieldNames.idxOf sort.field]? = some (.addressOrNull (tableOf sort)) ∧
          Tables (sort.nameFor (im.program.classAt c).name) (entriesOf sort) (tableOf sort) im im1) ∧
        Forall₂ (im.program.IsRow trap) (im.program.methodIds c) (entriesOf .methods))
      (Supplies (fun _ => False) im) := by
  apply ends_get_bind
  simp only [ho]
  refine ends_bind (methodEntries_ends (T := fun _ => False) trap _) ?_
  rintro methods im1 ⟨h1, hrows⟩
  refine ends_bind ((fieldEntries_ends (T := fun _ => False) _).imp (fun _ _ h => h) fun _ h => h1.trans h)
    fun fields im2 h2 => ?_
  refine ends_bind (table_ends _ methods) ?_
  rintro mt im3 ⟨h3, hmt⟩
  refine ends_bind (table_ends _ fields) ?_
  rintro ft im4 ⟨h4, hft⟩
  refine ends_bind (table_ends _ _) ?_
  rintro it im5 ⟨h5, hit⟩
  have h6 := supplies_record (T := fun _ => False) im5 (Utf8.encode (substituted '/' '.' (im.program.classAt c).name))
  let tableOf : TableSort → Option EntityId
    | .methods => mt
    | .fields => ft
    | .interfaces => it
  let entriesOf : TableSort → List Initializer
    | .methods => methods
    | .fields => fields
    | .interfaces => (im.program.classAt c).interfaces.map fun i => .addressOrNull (im.program.classAt i).classObject?
  have hnone : ∀ e, False → ∃ sort, tableOf sort = some e := fun _ h => h.elim
  have s2 := (h1.trans h2).mono hnone
  have s3 := s2.trans (h3.mono fun e he => ⟨.methods, he⟩)
  have s4 := h4.mono fun e he => (⟨.fields, he⟩ : ∃ sort, tableOf sort = some e)
  have s6 := (h5.mono fun e he => (⟨.interfaces, he⟩ : ∃ sort, tableOf sort = some e)).trans (h6.mono hnone)
  refine ends_modify ⟨_, _, tableOf, entriesOf, (s3.trans s4).trans s6, rfl, fun sort => ?_, hrows⟩
  cases sort with
  | methods => exact ⟨rfl, hmt.mono s2 (s4.trans s6)⟩
  | fields => exact ⟨rfl, hft.mono s3 s6⟩
  | interfaces => exact ⟨rfl, hit.mono (s3.trans s4) h6⟩

end ClassObject

/-! ## Laying out a class -/

variable {w w' w1 w2 : World} {c : ClassId} {p p' : Program}

lemma fits_supplies (hs : w.Sound) {im : Image} {T : EntityId → Prop} (h : w.image.Supplies T im) :
    Fits c w { w with image := im } where
  works := works_supplies c h
  sound := hs.supplies h
  superclass := congrArg superclass? (h.classAt c)
  interfaces := congrArg interfaces (h.classAt c)
  members := congrArg members (h.classAt c)

def World.HasTables (w : World) (c : ClassId) (name : String) : Prop :=
  ∀ sort : TableSort, ∃ table?, w.program.classObjectField? c sort.field = some (.addressOrNull table?) ∧
    ∀ t, table? = some t → w.HasEntity t ∧
      ∃ entries, w.program.entityAt t = .global (sort.nameFor name) .data .hidden (some (.compound entries))

structure World.Describes (c : ClassId) (trap : EntityId) (w w' : World) : Prop where
  fits : Fits c w w'
  vtable : (w'.classAt c).vtable? = (w.classAt c).vtable?
  vtableSize : (w'.classAt c).vtableSize = (w.classAt c).vtableSize
  entityAt : ∀ e, w.HasEntity e → (w.classAt c).classObject? ≠ some e →
    w'.program.entityAt e = w.program.entityAt e
  method : ∀ e, w.HasEntity e → Program.SameMethod w.program w'.program e
  described : w'.program.Described c trap
  tables : w'.HasTables c (w.classAt c).name
  fresh : ∀ e, w'.HasEntity e → ¬ w.HasEntity e →
    w'.image.Shared e ∨ ∃ sort : TableSort, w'.program.classObjectField? c sort.field = some (.address e)

variable {trap : EntityId}

lemma described_of_values {rows : List Initializer} {table? : Option EntityId}
    (hfield : p'.classObjectField? c "methods" = some (.addressOrNull table?)) (hnone : table? = none → rows = [])
    (htable : ∀ t, table? = some t → p'.HasEntity t ∧ (p'.entityAt t).owner? = none ∧
      (p'.entityAt t).initializer? = some (.compound rows))
    (hids : p'.methodIds c = p.methodIds c) (hdecl : ∀ e ∈ p.methodIds c, p'.declAt? e = p.declAt? e)
    (hrows : Forall₂ (p.IsRow trap) (p.methodIds c) rows) : p'.Described c trap := by
  have hmethods : p'.methodTable c = rows := by
    rw [methodTable, hfield]
    cases table? with
    | none => exact (hnone rfl).symm
    | some t => simp [Initializer.addressOrNull, (htable t rfl).2.2]
  refine ⟨?_, ?_⟩
  · intro t ht
    rw [hfield] at ht
    cases table? with
    | none => cases ht
    | some t' =>
      cases ht
      exact ⟨(htable _ rfl).1, (htable _ rfl).2.1⟩
  · rw [hmethods, hids]
    refine Forall₂.flip (forall₂_imp_right (Q := fun e => e ∈ p.methodIds c) hrows.flip (fun _ h => h) ?_)
    rintro row e he ⟨m, hm, hcode, hslot⟩; exact ⟨m, (hdecl e he).trans hm, hcode, hslot⟩

lemma describe_ends (hs : w.Sound) (classVTable? : Option EntityId) (trap : EntityId) {o : EntityId}
    (ho : (w.classAt c).classObject? = some o) :
    Ends (Load.imageStep (ClassObject.emit classVTable? trap c) w) (fun _ w' => Describes c trap w w') (Works c w) := by
  apply ends_imageStep
  refine (ClassObject.emit_ends classVTable? trap c ho).imp ?_ fun im h => works_supplies c h
  rintro - im' ⟨im, values, tableOf, entriesOf, h, rfl, htables, hrows⟩
  obtain ⟨hohas, hoowner, hokind, -⟩ := hs.classObject c o ho
  have hokept := h.entityAt o hohas
  set p' := im.program.modifyEntity o (ClassObject.holding values) with hp'
  have hfits := fits_supplies (c := c) hs h
  have howner : (im.program.entityAt o).owner? = some c := (congrArg (·.owner?) hokept).trans hoowner
  have hdata : (im.program.entityAt o).kind = .data := (congrArg (·.kind) hokept).trans hokind
  have hworks : Works c { w with image := im } (World.modifyProgram { w with image := im } fun _ => p') :=
    works_modifyEntity (.dress im.program o (ClassObject.holding values) (fun _ => rfl) fun _ => rfl)
      (.fillTable hdata (.compound values)) howner
  have hwritten : Fits c { w with image := im } (World.modifyProgram { w with image := im } fun _ => p') :=
    ⟨⟨hworks, hworks.sound_of_members hfits.sound rfl (.inr rfl), rfl, rfl⟩, rfl⟩
  have hclass : p'.classAt c = w.program.classAt c := h.classAt c
  have hat : ∀ e, e ≠ o → p'.entityAt e = im.program.entityAt e :=
    fun e he => entityAt_modifyEntity_ne im.program o e he
  have hato : p'.entityAt o = ClassObject.holding values (im.program.entityAt o) :=
    (entityAt_modifyEntity im.program o o _).trans (if_pos ⟨rfl, h.hasEntity hohas⟩)
  have hhas : ∀ {e}, p'.HasEntity e ↔ im.program.HasEntity e := by
    intro e
    rw [Program.HasEntity, size_modifyEntity]; rfl
  have hsame : ∀ e, w.HasEntity e → Program.SameMethod w.program p' e := by
    intro e he
    have hmethod : p'.methodAt? e = im.program.methodAt? e :=
      methodAt?_modifyEntity_of_kind im.program o e rfl
    refine ⟨?_, ?_⟩
    · rw [declAt?, hmethod, methodAt?, h.entityAt e he]; rfl
    · rw [← show (im.program.entityAt e).name = (w.program.entityAt e).name from congrArg (·.name) (h.entityAt e he)]
      by_cases heo : e = o
      · rw [heo, hato]; rfl
      · rw [hat e heo]
  have hmem : ∀ e ∈ (w.program.classAt c).members, p'.declAt? e = w.program.declAt? e :=
    fun e he => (hsame e (hs.member c e he).1).decl
  have hfield : ∀ sort : TableSort, p'.classObjectField? c sort.field = some (.addressOrNull (tableOf sort)) := by
    intro sort
    have ho' : (p'.classAt c).classObject? = some o := by rwa [hclass]
    rw [classObjectField?, ho', Option.bind_some, hato]; exact (htables sort).1
  -- the class object was there before, and the tables are new
  have htable : ∀ sort t, tableOf sort = some t → p'.HasEntity t ∧
      p'.entityAt t = .global (sort.nameFor (w.classAt c).name) .data .hidden (some (.compound (entriesOf sort))) := by
    intro sort t ht
    have hnew := (htables sort).2
    rw [ht] at hnew
    have hto : t ≠ o := by rintro rfl; exact hnew.1 hohas
    exact ⟨hhas.2 hnew.2.1, (hat t hto).trans hnew.2.2⟩
  refine ⟨hfits.trans hwritten, (congrArg vtable? hclass :), (congrArg vtableSize hclass :),
    fun e he hne => ?_, hsame, ?_,
    fun sort => ⟨tableOf sort, hfield sort, fun t ht => ⟨(htable sort t ht).1, entriesOf sort, (htable sort t ht).2⟩⟩,
    fun e he hnot => ?_⟩
  · have heo : e ≠ o := by rintro rfl; exact hne ho
    exact (hat e heo).trans (h.entityAt e he)
  · change p'.Described c trap
    refine described_of_values (hfield .methods) (fun hnone => ?_) (fun t ht => ?_) ?_ ?_ hrows
    · have hnew := (htables .methods).2; rwa [hnone] at hnew
    · obtain ⟨h1, h2⟩ := htable .methods t ht
      exact ⟨h1, (congrArg (·.owner?) h2 :), (congrArg (·.initializer?) h2 :)⟩
    · rw [methodIds, hclass]; exact filter_congr fun e he => by rw [hmem e he]; rfl
    · exact fun e he => hmem e (mem_of_mem_filter he)
  · have heo : e ≠ o := by rintro rfl; exact hnot hohas
    rcases h.new e (hhas.1 he) with he1 | hshared | ⟨sort, hsort⟩
    · exact absurd he1 hnot
    · exact .inl (hshared.mono (hat e heo) prefix_rfl prefix_rfl)
    · refine .inr ⟨sort, (hfield sort).trans ?_⟩; rw [hsort]; rfl

lemma Program.layoutVTable_fills (h : p.layoutVTable c trap = .ok p') : p'.entities.size = p.entities.size ∧
      (∀ e, (p.entityAt e).method? = none → (p.classAt c).vtable? ≠ some e → p'.entityAt e = p.entityAt e) ∧
      ((p.classAt c).isInterface = false → ∀ v, (p.classAt c).vtable? = some v → p.HasEntity v →
        (p'.entityAt v).initializer?.isSome) := by
  rcases layoutVTable_ok h with ⟨rfl, hno⟩ | ⟨v, entries, -, hv, -, rfl⟩
  · refine ⟨rfl, fun _ _ _ => rfl, fun hint v hv _ => ?_⟩
    rcases hno with hno | hno
    · simp [hint] at hno
    · simp [hno] at hv
  · obtain ⟨-, hsize, hat, -⟩ := VTable.enter_frame trap (p.classAt c).members p (.inherited p c)
    refine ⟨by simpa using hsize, fun e he hne => ?_, fun _ v' hv' hhas => ?_⟩
    · have hve : e ≠ v := by rintro rfl; exact hne hv
      rw [entityAt_modifyClass, entityAt_modifyEntity_ne _ v e hve]
      rcases hat e with h | ⟨m, slot, hk, -, -⟩
      · exact h
      · rw [Entity.method?, hk] at he; cases he
    · cases hv.symm.trans hv'
      have hhas' : (VTable.enter trap p (.inherited p c) (p.classAt c).members).2.HasEntity v := by
        rwa [Program.HasEntity, hsize]
      rw [entityAt_modifyClass, entityAt_modifyEntity, if_pos ⟨rfl, hhas'⟩]; rfl

structure World.Fills (c : ClassId) (w w' : World) : Prop where
  vtable : ∀ v, (w.classAt c).vtable? = some v → (w'.program.entityAt v).initializer?.isSome
  classObject : (w.classAt c).isExtern = true → ∀ o, (w.classAt c).classObject? = some o →
    w'.program.entityAt o = w.program.entityAt o
  tables : (w.classAt c).isExtern = false → w'.HasTables c (w.classAt c).name
  fresh : ∀ e, w'.HasEntity e → ¬ w.HasEntity e → w'.image.Shared e ∨
    (w.classAt c).isExtern = false ∧ ∃ sort : TableSort, w'.program.classObjectField? c sort.field = some (.address e)

structure World.Lays (c : ClassId) (w w' : World) : Prop where
  fits : Fits c w w'
  fills : Fills c w w'
  parts : ∀ file, (w.classAt c).file? = some file → w.program.Based c → ∀ fields declared standIns,
    w.program.Parts c file fields declared standIns → w'.program.Parts c file fields declared standIns ∧
      ∃ trap, w'.program.IsTrap trap ∧ w'.program.Tabled c trap ∧
        ((w'.classAt c).isExtern = false → w'.program.Described c trap)

/-- The class object is filled after the dispatch table is laid out. -/
lemma World.Describes.tabled (h : Describes c trap w w') (hs : w.Sound)
    (hstate : ¬ w.Finalized c) (hbased : w.program.Based c) {file : ClassFile}
    {fields declared standIns : List EntityId} (hp : w.program.Parts c file fields declared standIns)
    (ht : w.program.Tabled c trap) :
    w'.program.Parts c file fields declared standIns ∧ w'.program.Tabled c trap := by
  have hsame := (h.fits.based hstate hbased).2
  have hmem : ∀ e ∈ (w.program.classAt c).members, Program.SameMethod w.program w'.program e :=
    fun e he => h.method e (hs.member c e he).1
  refine ⟨hsame.parts h.fits.members hmem hp, ht.congr hp hsame h.fits.members h.vtable h.vtableSize
    (fun e he => (hmem e he).decl) ?_⟩
  intro v hv
  rw [h.entityAt v (hs.vtable c v hv).1 (hs.vtable_ne_classObject hv)]

lemma layoutVTable_tables (hs : w.Sound) (hc : w.HasClass c) (hw : Works c w w1)
    (hdata : ∀ e, w.HasEntity e → (w.program.entityAt e).kind = .data →
      w1.program.entityAt e = w.program.entityAt e)
    (hfresh : ∀ e, w1.HasEntity e → ¬ w.HasEntity e → w1.image.Shared e)
    (hp : w1.program.layoutVTable c trap = .ok p) :
    (∀ v, (w.classAt c).vtable? = some v → (p.entityAt v).initializer?.isSome) ∧
      (∀ o, (w.classAt c).classObject? = some o → p.entityAt o = w.program.entityAt o) ∧
      ∀ e, p.HasEntity e → ¬ w.HasEntity e → (w1.modifyProgram fun _ => p).image.Shared e := by
  obtain ⟨file, hfile, -⟩ := hs.filed c hc
  obtain ⟨hsize, hkept, hfilled⟩ := layoutVTable_fills hp
  have hvtable : (w1.program.classAt c).vtable? = (w.classAt c).vtable? := (congrArg vtable? hw.origin :)
  have hflags : (w1.program.classAt c).isInterface = (w.classAt c).isInterface :=
    (congrArg isInterface hw.origin :)
  refine ⟨fun v hv => ?_, fun o ho => ?_, fun e he hnot => ?_⟩
  · obtain ⟨hhas, -, -, -⟩ := hs.vtable c v hv
    have hint := (hs.loaded c file hfile).2.1.1 (by simp [hv])
    exact hfilled (hflags.trans hint) v (hvtable.trans hv) (hw.keeps.program.hasEntity hhas)
  · obtain ⟨hhas, -, hkind, -⟩ := hs.classObject c o ho
    have hat := hdata o hhas hkind
    refine (hkept o (by rw [hat, Entity.method?, hkind]) ?_).trans hat
    rw [hvtable]; exact fun hv => hs.vtable_ne_classObject hv ho
  · have hshared := hfresh e (by rwa [World.HasEntity, Program.HasEntity, ← hsize]) hnot
    refine hshared.mono (hkept e hshared.method? ?_) prefix_rfl prefix_rfl
    intro hv
    rw [hvtable] at hv; exact hnot (hs.vtable c e hv).1

lemma layoutClass_ends (hs : w.Sound) (hc : w.Protected c) (hstate : ¬ w.Finalized c)
    (hfree : w.Free c) : Ends (layoutClass c w) (fun _ w' => Lays c w w') (Works c w) := by
  apply ends_modifyProgram_bind
  obtain ⟨hfits1, hmethod1, hsize1, hdata1⟩ := layoutFields_fits hs hc
  apply ends_onImage_bind
  obtain ⟨hadds, hlook⟩ := supplies_function (T := fun _ => False) (w.modifyProgram fun p => p.layoutFields c).image
    .throwAbstractMethodError
  generalize (w.modifyProgram fun p => p.layoutFields c).image.function .throwAbstractMethodError = found at hadds hlook
  obtain ⟨trap, im⟩ := found
  have hfits2 := hfits1.trans (fits_supplies (c := c) hfits1.sound hadds)
  have hmethod2 : ∀ e, w.HasEntity e → Program.SameMethod w.program im.program e := by
    intro e he
    have he1 := hfits1.works.keeps.program.hasEntity he
    have hadd := Program.SameMethod.of_decl (congrArg (·.decl) (hadds.entityAt e he1))
    exact ⟨hadd.decl.trans (hmethod1 e).decl, hadd.name.trans (hmethod1 e).name⟩
  have hdata2 : ∀ e, w.HasEntity e → (w.program.entityAt e).kind = .data →
      im.program.entityAt e = w.program.entityAt e := fun e he hk =>
    (hadds.entityAt e (hfits1.works.keeps.program.hasEntity he)).trans (hdata1 e hk)
  have hfresh2 : ∀ e, im.program.HasEntity e → ¬ w.HasEntity e → im.Shared e := fun e he hnot =>
    ((hadds.new e he).resolve_left fun h => hnot (lt_of_lt_of_eq h hsize1)).resolve_right id
  have htrap2 : Program.IsTrap im.program trap := hfits2.sound.functions _ trap hlook
  generalize hw2 : ({ (w.modifyProgram fun p => p.layoutFields c) with image := im } : World) = w2 at hfits2
  obtain rfl : w2.image = im := by rw [← hw2]
  have hstate2 : ¬ w2.Finalized c := mt (hfits2.works.finalized_iff c).1 hstate
  have hfree2 : ∀ e ∈ (w2.classAt c).members, ∀ m, w2.program.declAt? e = some m → m.excluded = false →
    m.slot? = none := by
    intro e he m hm
    rw [hfits2.members] at he
    exact hfree e he m ((hmethod2 e (hs.member c e he).1).decl ▸ hm)
  refine ends_pureStep_bind (fun p hp => ?_) hfits2.works
  apply ends_modifyProgram_bind
  obtain ⟨hfits3, hparts3⟩ := layoutVTable_fits hfits2.sound (hfits2.works.protected_iff.2 hc) hstate2 hfree2 hp
  have hlaid : ∀ file, (w.classAt c).file? = some file → w.program.Based c → ∀ fields declared standIns,
      w.program.Parts c file fields declared standIns → p.Parts c file fields declared standIns ∧ p.Tabled c trap := by
    intro file hfile hbased fields declared standIns hp
    obtain ⟨hbased2, hsame2⟩ := hfits2.based hstate hbased
    refine hparts3 file (by rwa [hfits2.works.file_eq]) hbased2 fields declared standIns ?_
    exact hsame2.parts hfits2.members (fun e he => hmethod2 e (hs.member c e he).1) hp
  have htrap3 : Program.IsTrap p trap := htrap2.keeps hfits3.works.keeps.program
  obtain ⟨hvtable3, hobject3, hfresh3⟩ := layoutVTable_tables hs (hs.hasClass hc) hfits2.works hdata2 hfresh2 hp
  replace hfits3 := hfits2.trans hfits3
  generalize hw3 : (w2.modifyProgram fun _ => p) = w3 at hfits3 hfresh3
  obtain rfl : w3.program = p := by rw [← hw3]; rfl
  have hstate3 : ¬ w3.Finalized c := mt (hfits3.works.finalized_iff c).1 hstate
  have hext3 : (w3.classAt c).isExtern = (w.classAt c).isExtern := (congrArg isExtern hfits3.works.origin :)
  have hobject : (w3.classAt c).classObject? = (w.classAt c).classObject? :=
    (congrArg classObject? hfits3.works.origin :)
  apply ends_get_bind
  cases hext : (w3.classAt c).isExtern with
  | true =>
    refine ends_pure ⟨hfits3, ⟨hvtable3, fun _ => hobject3, fun hx => ?_, fun e he hnot => .inl (hfresh3 e he hnot)⟩,
      ?_⟩
    · cases (hext3.symm.trans hext).symm.trans hx
    intro file hfile hbased fields declared standIns hp
    obtain ⟨hp3, ht3⟩ := hlaid file hfile hbased fields declared standIns hp
    refine ⟨hp3, trap, htrap3, ht3, ?_⟩
    rw [hext]
    exact nofun
  | false =>
    obtain ⟨file, hfile, -⟩ := hs.filed c (hs.hasClass hc)
    obtain ⟨o, ho⟩ := Option.isSome_iff_exists.1 (hs.loaded c file hfile).2.2
    refine (describe_ends hfits3.sound _ trap (hobject.trans ho)).imp ?_ fun w' h => hfits3.works.trans h
    intro _ w4 h4
    have hname : (w3.classAt c).name = (w.classAt c).name := (congrArg name hfits3.works.origin :)
    refine ⟨hfits3.trans h4.fits, ⟨fun v hv => ?_, fun hx => ?_, fun _ => hname ▸ h4.tables, fun e he hnot => ?_⟩, ?_⟩
    · rw [h4.entityAt v (hfits3.works.keeps.program.hasEntity (hs.vtable c v hv).1) ?_]
      · exact hvtable3 v hv
      · rw [hobject]; exact hs.vtable_ne_classObject hv
    · cases (hext3.symm.trans hext).symm.trans hx
    · by_cases he3 : w3.HasEntity e
      · refine .inl ((hfresh3 e he3 hnot).mono (h4.entityAt e he3 ?_) h4.fits.works.keeps.records
          h4.fits.works.keeps.literals)
        rw [hobject]; exact fun ho => hnot (hs.classObject c e ho).1
      · exact (h4.fresh e he he3).imp id fun h => ⟨hext3.symm.trans hext, h⟩
    intro file hfile hbased fields declared standIns hp
    obtain ⟨hp3, ht3⟩ := hlaid file hfile hbased fields declared standIns hp
    obtain ⟨hp4, ht4⟩ := h4.tabled hfits3.sound hstate3 (hfits3.based hstate hbased).1 hp3 ht3
    exact ⟨hp4, trap, htrap3.keeps h4.fits.works.keeps.program, ht4, fun _ => h4.described⟩

end JvmGraph
