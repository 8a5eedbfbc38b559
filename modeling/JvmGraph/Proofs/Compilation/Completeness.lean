import JvmGraph.Proofs.Compilation.Delivery

/-!
# Nothing is left undone
In a compiled program every finalized class has finalized supertypes, and every finalized class that is emitted was
built once, so that exactly its methods with a body have graphs. Nothing is defined for extern classes.
A table that others may refer to has contents if and only if its class was finalized. A class that is emitted and was
not finalized is the innermost element class of an array type that a class constant names.
-/

namespace JvmGraph

open Steps Load World List Option Program Entity

/-! ## Methods of a class file -/

namespace Program

structure Implements (q : Program) (file : ClassFile) (member : Member) (e : EntityId) : Prop where
  name : file.nameOf member = .ok (q.entityAt e).name
  method : ∃ m, q.methodAt? e = some m ∧ file.descriptorOf member = .ok m.descriptor ∧ m.flags = member.flags
  graph : (q.graphAt? e).isSome = member.hasBody

structure Complete (q : Program) (c : ClassId) (file : ClassFile) : Prop where
  superclass : file.superName? = .ok ((q.classAt c).superclass?.map fun s => (q.classAt s).name)
  interfaces : List.Forall₂ (fun index i => file.pool.className index = .ok (q.classAt i).name) file.interfaces
    (q.classAt c).interfaces
  finalized : ∀ s, (q.classAt c).superclass? = some s ∨ s ∈ (q.classAt c).interfaces → (q.classAt s).state = .finalized
  methods : (q.classAt c).isExtern = false → ∃ fields declared standIns,
    (q.classAt c).members = fields ++ declared ++ standIns ∧ List.Forall₂ (q.Implements file) file.methods declared ∧
      ∀ e ∈ fields ++ standIns, q.graphAt? e = none

structure Undefined (q : Program) (c : ClassId) : Prop where
  methods : ∀ e, (q.entityAt e).owner? = some c → q.graphAt? e = none
  tables : ∀ e, q.IsTableOf c e → (q.entityAt e).initializer? = none

end Program

namespace World

variable {w : World} {c : ClassId} {e : EntityId} {source : ClassSource} {file : ClassFile}
  {member : Member} {taken built : List ClassId} {im : Image} {q : Program}

lemma not_method_of_field (h : (w.program.entityAt e).field?.isSome) : w.program.methodAt? e = none := by
  revert h
  rw [methodAt?]
  unfold field? method?
  cases (w.program.entityAt e).kind <;> simp

lemma MethodOf.isSome (h : w.MethodOf c file member e) : (w.program.methodAt? e).isSome := by
  obtain ⟨m, hm, -⟩ := h.method
  simp [hm]

lemma bodies_eq_zip {fields declared standIns : List EntityId}
    (hm : (w.classAt c).members = fields ++ declared ++ standIns)
    (hf : Forall₂ (w.FieldOf c file) file.fields fields) (hd : Forall₂ (w.MethodOf c file) file.methods declared)
    (hs : ∀ e ∈ standIns, w.Bare e) : w.bodies c file = file.methods.zip declared := by
  have hfields : fields.filter (fun e => (w.program.methodAt? e).isSome) = [] := by
    have hall : (∀ e ∈ fields, w.program.methodAt? e = none) ∧ _ := (forall₂_and_left fields file.fields).1
      (hf.flip.imp fun e f h => ⟨not_method_of_field h.field, h⟩)
    exact filter_eq_nil_iff.2 fun e he => by simp [hall.1 e he]
  have hdeclared : declared.filter (fun e => (w.program.methodAt? e).isSome) = declared := by
    have hall : (∀ e ∈ declared, (w.program.methodAt? e).isSome) ∧ _ := (forall₂_and_left declared file.methods).1
      (hd.flip.imp fun e m h => ⟨h.isSome, h⟩)
    exact filter_eq_self.2 hall.1
  have hstand : standIns.filter (fun e => (w.program.methodAt? e).isSome) = standIns :=
    filter_eq_self.2 fun e he => (hs e he).method
  have hzip : (file.methods ++ []).zip (declared ++ standIns) = file.methods.zip declared ++ List.zip [] standIns :=
    zip_append hd.length_eq
  rw [bodies, hm, filter_append, filter_append, hfields, hdeclared, hstand]
  simpa using hzip

lemma eq_of_mem_zip {α β : Type} {l : List α} {u : List β} {a a' : α} {b : β} (hu : u.Nodup) (h : (a, b) ∈ l.zip u)
    (h' : (a', b) ∈ l.zip u) : a = a' := by
  obtain ⟨i, hi, hz⟩ := mem_iff_getElem.1 h
  obtain ⟨j, hj, hz'⟩ := mem_iff_getElem.1 h'
  rw [getElem_zip, Prod.mk.injEq] at hz hz'
  obtain rfl := (hu.getElem_inj_iff).1 (hz.2.trans hz'.2.symm)
  exact hz.1.symm.trans hz'.1

lemma InOrder.graphs (hw : w.InOrder source) (hc : w.IsEmitted c file) (hbuilt : (w.classAt c).constructed = true) :
    ∃ fields declared standIns, (w.classAt c).members = fields ++ declared ++ standIns ∧
      Forall₂ (fun member e => w.MethodOf c file member e ∧ (w.program.graphAt? e).isSome = member.hasBody) file.methods
        declared ∧ ∀ e ∈ fields ++ standIns, w.program.graphAt? e = none := by
  obtain ⟨-, file', hfin⟩ := hw.ledger.finished c hc.finalized
  obtain rfl : file' = file := some.inj (hfin.loaded.symm.trans hc.file)
  obtain ⟨fields, declared, standIns, hm, hf, hd, hs⟩ := hfin.composed
  have hbodies := bodies_eq_zip hm hf hd hs
  have hnodup : (fields ++ declared ++ standIns).Nodup := hm ▸ hw.sound.members_nodup c
  have hzip : ∀ e ∈ (w.classAt c).members, (w.program.graphAt? e).isSome →
      ∃ member, (member, e) ∈ file'.methods.zip declared ∧ member.hasBody = true := by
    intro e he hg
    obtain ⟨d, file, member, -, -, hfile, hb, hbody⟩ := hw.ledger.graph e hg
    have hmem := (mem_filter.1 (of_mem_zip hb).2).1
    obtain rfl : d = c := some.inj ((hw.sound.member d e hmem).2.symm.trans (hw.sound.member c e he).2)
    obtain rfl : file = file' := some.inj (hfile.symm.trans hc.file)
    exact ⟨member, hbodies ▸ hb, hbody⟩
  refine ⟨fields, declared, standIns, hm, forall₂_iff_zip.2 ⟨hd.length_eq, fun {member e} hmem => ?_⟩, fun e he => ?_⟩
  · refine ⟨forall₂_iff_zip.1 hd |>.2 hmem, ?_⟩
    have he : e ∈ (w.classAt c).members := by
      rw [hm]; exact mem_append_left _ (mem_append_right _ (of_mem_zip hmem).2)
    rw [Bool.eq_iff_iff]
    constructor
    · intro hg
      obtain ⟨member', hmem', hbody⟩ := hzip e he hg
      have hdeclared : declared.Nodup := (nodup_append.1 (nodup_append.1 hnodup).1).2.1
      rwa [eq_of_mem_zip hdeclared hmem hmem']
    · intro hbody
      exact (hw.ledger.constructed c hbuilt).2.2 file' hc.file (member, e) (hbodies ▸ hmem) hbody
  · obtain ⟨hmem, hnot⟩ : e ∈ fields ++ declared ++ standIns ∧ e ∉ declared := by grind
    have he : e ∈ (w.classAt c).members := hm ▸ hmem
    rw [← not_isSome_iff_eq_none]
    intro hg
    obtain ⟨member, hmem, -⟩ := hzip e he hg; exact hnot (of_mem_zip hmem).2

lemma Standing.mem_built_iff (h : Standing source w taken built) (hempty : w.queue = []) :
    c ∈ built ↔ w.Finalized c ∧ (w.classAt c).isExtern = false := by
  constructor
  · intro hc
    have hdone := h.ledger.constructed c ((h.constructed c).2 hc); exact ⟨hdone.1, hdone.2.1⟩
  · rintro ⟨hc, hx⟩
    have hqueued := mem_reverse.2 (h.ledger.finished c hc).1
    rw [h.order, hempty, append_nil] at hqueued; exact h.complete c hqueued hx

lemma not_isExternVTable_of_method (hw : w.Sound) (he : (w.program.methodAt? e).isSome) :
    ¬ w.program.IsExternVTable e := by
  rintro ⟨d, -, hv⟩
  exact kind_ne_data_of_method he (hw.vtable d e hv).2.2.1

lemma Delivers.implements (h : Delivers w im q) (hw : w.Sound)
    (hof : w.MethodOf c file member e) (hg : (w.program.graphAt? e).isSome = member.hasBody) :
    q.Implements file member e := by
  obtain ⟨m, hm, hdescriptor, -, hflags, -⟩ := hof.method
  have hdecl := h.decl_eq hof.has (not_isExternVTable_of_method hw hof.isSome)
  have hsame : q.declAt? e = some m.decl := by rw [h.declAt?_eq hof.has, declAt?, hm, map_some]
  obtain ⟨m', hm', hmm⟩ := map_eq_some_iff.1 hsame
  refine ⟨?_, ⟨m', hm', ?_, ?_⟩, (h.graph_isSome e).trans hg⟩
  · rw [name_eq hdecl]; exact hof.name
  · rwa [show m'.descriptor = m.descriptor from (congrArg (·.descriptor) hmm :)]
  · exact (congrArg (·.flags) hmm :).trans hflags

lemma Delivers.complete (h : Delivers w im q)
    (hw : Standing source w taken built) (hempty : w.queue = []) (hc : w.Finalized c) :
    ∃ file, source.load (w.classAt c).name = .ok (file, (w.classAt c).isExtern) ∧ q.Complete c file := by
  have hclass := hw.sound.hasClass (.inl hc)
  obtain ⟨file, hload, hfile⟩ := (hw.ledger.known c hclass).file
  obtain ⟨-, file', hfin⟩ := hw.ledger.finished c hc
  obtain rfl : file' = file := some.inj (hfin.loaded.symm.trans hfile)
  refine ⟨file', hload, ?_, ?_, ?_, ?_⟩
  · simp only [h.classAt]; exact hfin.supertypes.superclass
  · simp only [h.classAt]; exact hfin.supertypes.interfaces
  · simp only [h.classAt]
    intro s hs
    refine (hw.ledger.above c s hs).resolve_right fun hf => ?_
    simp [hw.idle] at hf
  · rw [h.classAt]
    intro hx
    have hbuilt := (hw.constructed c).2 ((hw.mem_built_iff hempty).2 ⟨hc, hx⟩)
    obtain ⟨fields, declared, standIns, hm, hd, hnone⟩ := hw.graphs ⟨hc, hx, hfile⟩ hbuilt
    refine ⟨fields, declared, standIns, hm, hd.imp fun member e hof => h.implements hw.sound hof.1 hof.2,
      fun e he => ?_⟩
    · rw [← not_isSome_iff_eq_none, h.graph_isSome, hnone e he]
      exact nofun

lemma Delivers.undefined (h : Delivers w im q) (hw : w.InOrder source)
    (hx : (w.classAt c).isExtern = true) : q.Undefined c := by
  refine ⟨fun e he => ?_, fun e he => ?_⟩
  · rw [← not_isSome_iff_eq_none, h.graph_isSome]
    intro hg
    obtain ⟨d, file, member, -, hd, -, hb, -⟩ := hw.ledger.graph e hg
    obtain ⟨hhas, howner⟩ := hw.sound.member d e (mem_filter.1 (of_mem_zip hb).2).1
    obtain rfl : d = c := some.inj ((howner.symm.trans (h.owner?_eq hhas).symm).trans he)
    simp [hx] at hd
  · rw [IsTableOf, h.classAt] at he
    by_cases hv : w.program.IsExternVTable e
    · exact h.initializer?_extern hv
    · have ho : (w.classAt c).classObject? = some e := he.resolve_left fun h => hv ⟨c, hx, h⟩
      rw [initializer?_eq (h.decl_eq (hw.sound.classObject c e ho).1 hv)]
      by_cases hc : w.Finalized c
      · obtain ⟨-, file, hfin⟩ := hw.ledger.finished c hc
        simp [← not_isSome_iff_eq_none, hfin.classObject e ho, hx]
      · exact hw.ledger.blank c hc e he

end World

/-- A compilation that succeeds leaves nothing undone. Classes leave the queue in the order in which they first entered
it, each once, and those that are built are the finalized classes that are emitted. A finalized class has what its class
file says, its supertypes are finalized, and exactly its methods with a body have graphs if it is emitted; nothing is
defined for an extern class. -/
theorem compile_completes (source : ClassSource) (root : String) (flavour : Flavour) (result : Compilation)
    (h : compile source root flavour = .ok result) :
    (∃ w₀ w taken built, Opens source root result.root w₀ ∧ Drains source w₀ taken built w ∧
      taken = w.queued.reverse ∧ taken.Nodup ∧ built.Nodup ∧ ∀ c, c ∈ built ↔
        (result.program.classAt c).state = .finalized ∧ (result.program.classAt c).isExtern = false) ∧
    (∀ c, (result.program.classAt c).state = .finalized → ∃ file,
      source.load (result.program.classAt c).name = .ok (file, (result.program.classAt c).isExtern) ∧
        result.program.Complete c file) ∧
    ∀ c, (result.program.classAt c).isExtern = true → result.program.Undefined c := by
  obtain ⟨w₀, w, im, taken, built, hopens, hdrains, hw, hempty, hq⟩ := compile_delivers h
  have htaken : taken = w.queued.reverse := by rw [hw.order, hempty, append_nil]
  have hnodup : taken.Nodup := htaken ▸ nodup_reverse.2 hw.nodup
  simp only [hq.classAt]
  exact ⟨⟨w₀, w, taken, built, hopens, hdrains, htaken, hnodup, hw.sublist.nodup hnodup,
    fun c => hw.mem_built_iff hempty⟩,
    fun c hc => hq.complete hw hempty hc, fun c hx => hq.undefined hw.toInOrder hx⟩

def arrayOwner : ClassSource :=
  .ofDrafts [
    { name := "java/lang/Object", super? := none, methods := [⟨0x101, "hashCode", "()I", none⟩] },
    { name := "A" },
    { name := "X", isExtern := true },
    { name := "R", methods := [⟨0x9, "m", "()V", some [0x01, 0xb6, 0, 6, 0x57, 0xbb, 0, 8, 0x57, 0xb1]⟩],
      constants := [.ascii "[LA;", .classRef 1, .ascii "hashCode", .ascii "()I", .nameAndType 3 4, .member .method 2 5,
        .ascii "X", .classRef 7] }]

/-- The class `R` is complete, and nothing is defined for `X`. -/
theorem compile_completes_array_owner :
    ∃ result file, compile arrayOwner "R" .simple = .ok result ∧ (result.program.classAt ⟨1⟩).state = .finalized ∧
      arrayOwner.load "R" = .ok (file, false) ∧ result.program.Complete ⟨1⟩ file ∧
      (result.program.classAt ⟨4⟩).isExtern = true ∧ result.program.Undefined ⟨4⟩ := by
  have run : ((compile arrayOwner "R" .simple).toOption.any fun result =>
      decide ((result.program.classAt ⟨1⟩).state = .finalized ∧ (result.program.classAt ⟨1⟩).name = "R" ∧
        (result.program.classAt ⟨1⟩).isExtern = false ∧ (result.program.classAt ⟨4⟩).isExtern = true)) = true := by
    decide +kernel
  obtain ⟨result, h, run⟩ := ok_of_any run
  obtain ⟨hfinal, hname, hemitted, hextern⟩ := of_decide_eq_true run
  obtain ⟨-, hcomplete, hundefined⟩ := compile_completes _ _ _ _ h
  obtain ⟨file, hload, hfile⟩ := hcomplete ⟨1⟩ hfinal
  rw [hname, hemitted] at hload
  exact ⟨result, file, h, hfinal, hload, hfile, hextern, hundefined ⟨4⟩ hextern⟩

/-! ## Tables -/

namespace World

variable {w : World} {c : ClassId} {e : EntityId} {source : ClassSource} {im : Image} {q : Program}

lemma Known.visibility (h : w.Known source c) (he : w.program.IsTableOf c e) :
    (w.program.entityAt e).visibility = tableVisibility (w.classAt c).isExtern :=
  he.elim (fun he => (h.vtable e he).2.2) fun he => (h.classObject e he).2.2

lemma InOrder.finalized_of_member (hw : w.InOrder source) (he : e ∈ (w.classAt c).members) :
    w.Finalized c := by
  by_contra hc
  have hno : ¬ w.Protected c := by
    rintro (h | h)
    · exact hc h
    · simp [hw.idle] at h
  simp [(hw.sound.fresh c hno).2.2.1] at he

lemma InOrder.kind_ne_data (hw : w.InOrder source) (he : e ∈ (w.classAt c).members) :
    (w.program.entityAt e).kind ≠ .data := by
  obtain ⟨-, file, hfin⟩ := hw.ledger.finished c (hw.finalized_of_member he)
  obtain ⟨fields, declared, standIns, hm, hf, hd, hs⟩ := hfin.composed
  have hfields : (∀ e ∈ fields, (w.program.entityAt e).kind ≠ .data) ∧ _ := (forall₂_and_left fields file.fields).1
    (hf.flip.imp fun e f h => ⟨kind_ne_data_of_field h.field, h⟩)
  have hdeclared : (∀ e ∈ declared, (w.program.entityAt e).kind ≠ .data) ∧ _ :=
    (forall₂_and_left declared file.methods).1 (hd.flip.imp fun e m h => ⟨kind_ne_data_of_method h.isSome, h⟩)
  rw [hm, mem_append, mem_append] at he
  rcases he with (he | he) | he
  · exact hfields.1 e he
  · exact hdeclared.1 e he
  · exact kind_ne_data_of_method (hs e he).method

lemma InOrder.isTableOf_of_exported (hw : w.InOrder source) (he : w.HasEntity e)
    (hk : (w.program.entityAt e).kind = .data) (hv : (w.program.entityAt e).visibility = .exported) :
    ∃ c, (w.classAt c).isExtern = false ∧ w.program.IsTableOf c e := by
  have hemitted : ∀ c, w.HasClass c → w.program.IsTableOf c e → (w.classAt c).isExtern = false := by
    intro c hc ht
    rw [(hw.ledger.known c hc).visibility ht, tableVisibility] at hv
    split at hv
    · cases hv
    · rename_i hx; simpa using hx
  cases hw.ledger.origin e he with
  | vtable c h => exact ⟨c, hemitted c (hasClass_of_table (.inl h)) (.inl h), .inl h⟩
  | classObject c h => exact ⟨c, hemitted c (hasClass_of_table (.inr h)) (.inr h), .inr h⟩
  | member c h => exact absurd hk (hw.kind_ne_data h)
  | table c sort hc hx h =>
    obtain ⟨-, file, hfin⟩ := hw.ledger.finished c hc
    obtain ⟨-, entries, hat⟩ := hfin.table hx h
    rw [hat] at hv; cases hv
  | shared h => exact absurd hv h.not_exported
  | hidden hf hi => exact absurd hk (kind_ne_data_of_field hf)

lemma Sound.not_externVTable (hw : w.Sound) (hx : (w.classAt c).isExtern = false) (he : w.program.IsTableOf c e) :
    ¬ w.program.IsExternVTable e :=
  hw.not_isExternVTable hx (.inl (hw.isTableOf he).2.1)

lemma Delivers.kind_iff (h : Delivers w im q) (he : w.HasEntity e) :
    (q.entityAt e).kind = .data ↔ (w.program.entityAt e).kind = .data := by
  have hlower := data_of_face (face_of_decl (h.lowers.redrawn.entity e he))
  rw [h.program, entityAt_dropExternVTables]
  split
  · exact hlower
  · exact hlower

lemma Delivers.isTableOf (h : Delivers w im q) : q.IsTableOf c e ↔ w.program.IsTableOf c e := by
  rw [IsTableOf, h.classAt]
  rfl

lemma Delivers.exported_iff (h : Delivers w im q) (hw : w.InOrder source) (he : q.HasEntity e)
    (hk : (q.entityAt e).kind = .data) :
    (q.entityAt e).visibility = .exported ↔ ∃ c, (w.classAt c).isExtern = false ∧ w.program.IsTableOf c e := by
  constructor
  · intro hv
    have hno : ¬ w.program.IsExternVTable e := by
      intro hx
      rw [h.program, entityAt_dropExternVTables, if_pos (h.isExternVTable_iff.2 hx)] at hv
      cases hv
    rcases h.lowers.new e (h.hasEntity_iff.1 he) with hold | hs
    · refine hw.isTableOf_of_exported hold ((h.kind_iff hold).1 hk) ?_
      rwa [← visibility_of_face (face_of_decl (h.decl_eq hold hno))]
    · rw [h.program, entityAt_dropExternVTables, if_neg (h.isExternVTable_iff.not.2 hno)] at hv
      exact absurd hv hs.not_exported
  · rintro ⟨c, hx, ht⟩
    have hhas := (hw.sound.isTableOf ht).1
    have hclass : w.HasClass c := hasClass_of_table ht
    have hvis := (hw.ledger.known c hclass).visibility ht
    rw [visibility_of_face (face_of_decl (h.decl_eq hhas (hw.sound.not_externVTable hx ht))), hvis, hx]
    rfl

lemma Delivers.initializer_iff (h : Delivers w im q) (hw : w.InOrder source) (hx : (w.classAt c).isExtern = false)
    (ht : w.program.IsTableOf c e) : (q.entityAt e).initializer?.isSome ↔ w.Finalized c := by
  rw [initializer?_eq (h.decl_eq (hw.sound.isTableOf ht).1 (hw.sound.not_externVTable hx ht))]
  constructor
  · intro hi
    by_contra hc
    simp [show (w.program.entityAt e).initializer? = none from hw.ledger.blank c hc e ht] at hi
  · intro hc
    obtain ⟨-, file, hfin⟩ := hw.ledger.finished c hc
    exact ht.elim (hfin.vtable e) fun ho => (hfin.classObject e ho).2 hx

lemma Standing.isElement {taken built : List ClassId} (hw : Standing source w taken built) (hempty : w.queue = [])
    (hclass : w.HasClass c) (hx : (w.classAt c).isExtern = false) (hc : ¬ w.Finalized c) :
    w.IsElement c := by
  rcases hw.accounted c hclass with (hp | hp) | hq | he
  · exact absurd hp hc
  · simp [hw.idle] at hp
  · have htaken := mem_reverse.2 hq
    rw [hw.order, hempty, append_nil] at htaken
    exact absurd ((hw.mem_built_iff hempty).1 (hw.complete c htaken hx)).1 hc
  · exact he

end World

/-- In a compiled program, what is exported besides members are the tables of emitted classes. Such a table has contents
if and only if its class was finalized, and a class that was not is the innermost element class of an array type that a
class constant of a finalized class names. -/
theorem exported_tables_defined (source : ClassSource) (root : String) (flavour : Flavour) (result : Compilation)
    (h : compile source root flavour = .ok result) :
    (∀ e, result.program.HasEntity e → (result.program.entityAt e).kind = .data →
      ((result.program.entityAt e).visibility = .exported ↔
        ∃ c, (result.program.classAt c).isExtern = false ∧ result.program.IsTableOf c e)) ∧
    (∀ c e, (result.program.classAt c).isExtern = false → result.program.IsTableOf c e →
      ((result.program.entityAt e).initializer?.isSome ↔ (result.program.classAt c).state = .finalized)) ∧
    ∀ c, result.program.HasClass c → (result.program.classAt c).isExtern = false →
      (result.program.classAt c).state ≠ .finalized →
      ∃ k file, (result.program.classAt k).state = .finalized ∧ (result.program.classAt k).isExtern = false ∧
        (result.program.classAt k).file? = some file ∧ file.NamesElement (result.program.classAt c).name := by
  obtain ⟨w₀, w, im, taken, built, -, -, hw, hempty, hq⟩ := compile_delivers h
  simp only [hq.classAt, hq.isTableOf]
  refine ⟨fun e he hk => hq.exported_iff hw.toInOrder he hk, fun c e hx ht => hq.initializer_iff hw.toInOrder hx ht, ?_⟩
  intro c hclass hx hc
  rw [Program.HasClass, hq.classes] at hclass
  exact hw.isElement hempty hclass hx hc

/-- The element class `A` of the array is declared, exported and never defined. -/
theorem exported_tables_defined_array_owner :
    ∃ result, compile arrayOwner "R" .simple = .ok result ∧ (result.program.classAt ⟨3⟩).name = "A" ∧
      result.program.IsTableOf ⟨3⟩ ⟨20⟩ ∧ (result.program.entityAt ⟨20⟩).visibility = .exported ∧
      (result.program.entityAt ⟨20⟩).initializer?.isSome = false ∧ (result.program.classAt ⟨3⟩).state ≠ .finalized ∧
      ∃ k file, (result.program.classAt k).state = .finalized ∧ (result.program.classAt k).isExtern = false ∧
        (result.program.classAt k).file? = some file ∧ file.NamesElement "A" := by
  have run : ((compile arrayOwner "R" .simple).toOption.any fun result =>
      decide ((result.program.classAt ⟨3⟩).name = "A" ∧ (result.program.classAt ⟨3⟩).vtable? = some ⟨20⟩ ∧
        (result.program.classAt ⟨3⟩).isExtern = false ∧ (result.program.classAt ⟨3⟩).state ≠ .finalized ∧
        result.program.HasClass ⟨3⟩ ∧ (result.program.entityAt ⟨20⟩).visibility = .exported)) = true := by
    decide +kernel
  obtain ⟨result, h, run⟩ := ok_of_any run
  obtain ⟨hname, hvtable, hemitted, hstate, hclass, hexported⟩ := of_decide_eq_true run
  obtain ⟨-, hdefined, helement⟩ := exported_tables_defined _ _ _ _ h
  have htable : result.program.IsTableOf ⟨3⟩ ⟨20⟩ := .inl hvtable
  refine ⟨result, h, hname, htable, hexported, ?_, hstate, ?_⟩
  · rw [Bool.eq_false_iff]
    exact fun hi => hstate ((hdefined _ _ hemitted htable).1 hi)
  · exact hname ▸ helement _ hclass hemitted hstate

end JvmGraph
