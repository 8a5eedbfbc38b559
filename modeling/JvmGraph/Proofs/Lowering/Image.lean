import JvmGraph.Lowering
import JvmGraph.Proofs.Abi.Image

/-!
# What lowering does to a program

Lowering a graph declares runtime functions, class objects of primitive kinds and records of names that are not
there yet. Lowering a program also puts new graphs in the place of the old ones. Everything else stays as it is:
the classes, and all entities but for the graphs of methods.
-/

namespace JvmGraph

open Steps List Program Contract.Honours

/-! ## Lowering a graph -/

namespace Lower

def adding : Contract Lowering where
  inv _ := True
  does s s' := s.image.Supplies (fun _ => False) s'.image
  fails s s' := s.image.Supplies (fun _ => False) s'.image
  refl _ := .refl _ _
  trans := .trans
  fails_refl _ := .refl _ _
  fails_trans := .trans

section Adding

variable {α : Type} {place n memory : NodeId}

lemma adding_onGraph (f : Graph → α × Graph) : adding.Honours (onGraph f) := fun _ _ => ⟨trivial, .refl _ _⟩

lemma adding_modifyGraph (f : Graph → Graph) : adding.Honours (modifyGraph f) := adding_onGraph _

lemma adding_onImage {f : Image → α × Image} (hf : ∀ im : Image, im.Supplies (fun _ => False) (f im).2) :
    adding.Honours (onImage f) :=
  fun s _ => ⟨trivial, hf s.image⟩

lemma adding_refuse (what : Unsupported) : adding.Honours (refuse what : Lower α) := .throw

lemma adding_program {f : Program → Lower α} (hf : ∀ p, adding.Honours (f p)) : adding.Honours (program >>= f) :=
  bind (.get fun _ => .pure) hf

lemma adding_addAt (op : Op) (mode : Mode) (inputs : List NodeId) : adding.Honours (addAt place op mode inputs) :=
  adding_onGraph _

lemma adding_address (e : EntityId) : adding.Honours (address e) := adding_onGraph _

lemma adding_insert (op : Op) (inputs : List NodeId) (mode : Mode) : adding.Honours (insert place op inputs mode) :=
  (adding_addAt _ _ _).bind fun _ => (adding_onGraph _).bind fun _ => (adding_onGraph _).bind fun _ => .pure

lemma adding_store (target value : NodeId) : adding.Honours (store place memory target value) :=
  (adding_addAt _ _ _).bind fun _ => adding_onGraph _

lemma adding_functionAddress (f : RuntimeFunction) : adding.Honours (functionAddress f) :=
  (adding_onImage fun im => (im.supplies_function f).1).bind fun _ => adding_address _

lemma adding_call (f : RuntimeFunction) (args : List NodeId) : adding.Honours (call place memory f args) :=
  (adding_functionAddress f).bind fun _ => adding_insert _ _ _

lemma adding_classObject (type : TypeRef) : adding.Honours (classObject type) := by
  cases type with
  | ofClass c =>
    refine adding_program fun p => ?_
    simp only []
    split
    · exact .pure
    · exact .throw
  | prim k => exact adding_onImage fun im => im.supplies_primitiveClass k
  | array element => exact adding_refuse _

lemma adding_operands {f : NodeId × NodeId → Lower α} (hf : ∀ x, adding.Honours (f x)) :
    adding.Honours (operands n >>= f) :=
  bind (.get fun _ => .pure) hf

lemma adding_become (op : Op) (inputs : List NodeId) : adding.Honours (become n op inputs) := adding_modifyGraph _

lemma adding_storeVTable (object : NodeId) (vtable? : Option EntityId) :
    adding.Honours (storeVTable place memory object vtable?) := by
  cases vtable? with
  | some v => exact (adding_address v).bind fun _ => adding_store _ _
  | none => exact .pure

lemma adding_callocObject (c : ClassId) : adding.Honours (callocObject n memory c) :=
  adding_program fun _ => (adding_onGraph _).bind fun _ => (adding_onGraph _).bind fun _ =>
    (adding_call _ _).bind fun _ => (adding_storeVTable _ _).bind fun _ => .pure

lemma adding_callocArray (count : NodeId) (element : TypeRef) : adding.Honours (callocArray n memory count element) :=
  (adding_onGraph _).bind fun _ => (adding_onGraph _).bind fun _ => (adding_onGraph _).bind fun _ =>
    (adding_addAt _ _ _).bind fun _ => (adding_addAt _ _ _).bind fun _ => (adding_call _ _).bind fun _ =>
      bind (adding_program fun _ => .pure) fun _ => (adding_storeVTable _ _).bind fun _ =>
        (adding_onGraph _).bind fun _ => (adding_addAt _ _ _).bind fun _ => (adding_addAt _ _ _).bind fun _ =>
          (adding_store _ _).bind fun _ => .pure

lemma adding_libraryArray (count : NodeId) (element : TypeRef) :
    adding.Honours (libraryArray n memory count element) := by
  refine (adding_addAt _ _ _).bind fun _ => (adding_classObject _).bind fun _ => (adding_address _).bind fun _ => ?_
  cases element with
  | prim k => exact adding_call _ _
  | ofClass c => exact (adding_onGraph _).bind fun _ => adding_call _ _
  | array element => exact (adding_onGraph _).bind fun _ => adding_call _ _

lemma adding_allocate (flavour : Flavour) (count : NodeId) (type : TypeRef) :
    adding.Honours (allocate flavour n memory count type) := by
  cases type with
  | prim k => cases flavour <;> exact adding_refuse _
  | ofClass c =>
    cases flavour with
    | simple => exact adding_callocObject c
    | gcj => exact (adding_classObject _).bind fun _ => (adding_address _).bind fun _ => adding_call _ _
  | array element =>
    cases flavour with
    | simple => exact adding_callocArray _ element
    | gcj => exact adding_libraryArray _ element

lemma adding_lowerAlloc (flavour : Flavour) (type : TypeRef) : adding.Honours (lowerAlloc flavour n type) :=
  adding_operands fun _ => (adding_allocate flavour _ type).bind fun _ => .get fun _ =>
    (adding_modifyGraph _).bind fun _ => adding_modifyGraph _

lemma adding_rethreadCalls : adding.Honours (rethreadCalls n memory) := .get fun _ => adding_modifyGraph _

lemma adding_lookupMethod (name descriptor : String) : adding.Honours (lookupMethod n name descriptor) :=
  adding_operands fun _ => (adding_insert _ _ _).bind fun _ => (adding_insert _ _ _).bind fun _ =>
    (adding_onImage fun im => im.supplies_record _).bind fun _ =>
      (adding_onImage fun im => im.supplies_record _).bind fun _ =>
      (adding_address _).bind fun _ => (adding_address _).bind fun _ => (adding_call _ _).bind fun _ =>
        adding_rethreadCalls.bind fun _ => .pure

lemma adding_loadSlot (slot : Nat) : adding.Honours (loadSlot n slot) :=
  adding_operands fun _ => (adding_insert _ _ _).bind fun _ => (adding_onGraph _).bind fun _ =>
    (adding_addAt _ _ _).bind fun _ => (adding_insert _ _ _).bind fun _ => adding_rethreadCalls.bind fun _ => .pure

lemma adding_methodCode (e : EntityId) (name : String) (m : Method) : adding.Honours (methodCode n e name m) := by
  unfold methodCode
  split
  · exact adding_lookupMethod _ _
  · exact adding_loadSlot _
  · exact adding_address _

lemma adding_lowerMethodSel (e : EntityId) : adding.Honours (lowerMethodSel n e) := by
  refine adding_program fun p => ?_
  simp only []
  split
  · exact adding_refuse _
  · exact (adding_methodCode e _ _).bind fun _ => adding_modifyGraph _

lemma adding_lowerSel (e : EntityId) : adding.Honours (lowerSel n e) := by
  refine adding_program fun p => ?_
  simp only []
  split
  · exact adding_refuse _
  · exact (adding_onGraph _).bind fun _ => .get fun _ => adding_become _ _

lemma adding_lowerArrayLength : adding.Honours (lowerArrayLength n) :=
  adding_operands fun _ => (adding_onGraph _).bind fun _ => (adding_addAt _ _ _).bind fun _ => adding_become _ _

lemma adding_lowerInstanceOf (type : TypeRef) : adding.Honours (lowerInstanceOf n type) :=
  adding_operands fun _ => (adding_classObject _).bind fun _ => (adding_address _).bind fun _ =>
    (adding_functionAddress _).bind fun _ => adding_become _ _

lemma adding_lowerNode (flavour : Flavour) (n : NodeId) : adding.Honours (lowerNode flavour n) := by
  refine .get fun s => ?_
  cases (s.graph.node n).op with
  | sel e => exact adding_lowerSel e
  | arrayLength => exact adding_lowerArrayLength
  | instanceOf type => exact adding_lowerInstanceOf type
  | alloc type => exact adding_lowerAlloc flavour type
  | methodSel e => exact adding_lowerMethodSel e
  | _ => exact .pure

lemma adding_lowerNodes (flavour : Flavour) (ns : List NodeId) : adding.Honours (lowerNodes flavour ns) := by
  induction ns with
  | nil => exact .pure
  | cons n rest ih => exact (adding_lowerNode flavour n).bind fun _ => ih

end Adding

end Lower

lemma adding_lowerGraph (flavour : Flavour) : Lower.adding.Honours (lowerGraph flavour) :=
  .get fun _ => (Lower.adding_lowerNodes flavour _).bind fun _ => Lower.adding_modifyGraph _

/-! ## Lowering a program -/

variable {e : EntityId} {im im' : Image}

namespace Program

/-- Graphs were replaced and entities added, and nothing else happened. -/
structure Redrawn (p p' : Program) : Prop where
  classes : p'.classes = p.classes
  size : p.entities.size ≤ p'.entities.size
  entity : ∀ e, p.HasEntity e → (p'.entityAt e).decl = (p.entityAt e).decl

namespace Redrawn

variable {p p' p'' : Program}

lemma refl (p : Program) : Redrawn p p := ⟨rfl, le_rfl, fun _ _ => rfl⟩

lemma hasEntity (h : Redrawn p p') (he : p.HasEntity e) : p'.HasEntity e :=
  lt_of_lt_of_le he h.size

lemma trans (h : Redrawn p p') (h' : Redrawn p' p'') : Redrawn p p'' where
  classes := h'.classes.trans h.classes
  size := h.size.trans h'.size
  entity := fun e he => (h'.entity e (h.hasEntity he)).trans (h.entity e he)

lemma classAt (h : Redrawn p p') (c : ClassId) : p'.classAt c = p.classAt c := by
  rw [Program.classAt, Program.classAt, h.classes]

lemma declAt? (h : Redrawn p p') (he : p.HasEntity e) : p'.declAt? e = p.declAt? e := by
  rw [declAt?_eq_method?, h.entity e he, ← declAt?_eq_method?]

lemma regraph (p : Program) (e : EntityId) (g? : Option Graph) :
    Redrawn p (p.modifyMethod e fun m => { m with graph? := g? }) where
  classes := rfl
  size := by simp
  entity := fun _ _ => decl_regraph

end Redrawn

end Program

lemma Image.Supplies.redrawn {T : EntityId → Prop} (h : im.Supplies T im') : im.program.Redrawn im'.program :=
  ⟨h.classes, h.size, fun e he => congrArg Entity.decl (h.entityAt e he)⟩

namespace Image

structure Lowers (im im' : Image) : Prop where
  redrawn : im.program.Redrawn im'.program
  records : im.strings.records <+: im'.strings.records
  literals : im.strings.literals <+: im'.strings.literals
  new : ∀ e, im'.program.HasEntity e → im.program.HasEntity e ∨ im'.Shared e
  graph : ∀ e, (im'.program.graphAt? e).isSome = (im.program.graphAt? e).isSome

namespace Lowers

variable {im'' : Image}

lemma refl (im : Image) : Lowers im im :=
  ⟨.refl _, prefix_rfl, prefix_rfl, fun _ he => .inl he, fun _ => rfl⟩

lemma shared (h : Lowers im im') (he : im.program.HasEntity e) (hs : im.Shared e) : im'.Shared e :=
  hs.mono (Entity.eq_of_decl hs.method? (h.redrawn.entity e he)) h.records h.literals

lemma trans (h : Lowers im im') (h' : Lowers im' im'') : Lowers im im'' where
  redrawn := h.redrawn.trans h'.redrawn
  records := h.records.trans h'.records
  literals := h.literals.trans h'.literals
  new := fun e he => by
    rcases h'.new e he with he | he
    · exact (h.new e he).imp_right (h'.shared he)
    · exact .inr he
  graph := fun e => (h'.graph e).trans (h.graph e)

end Lowers

def lowering : Contract Image where
  inv _ := True
  does := Lowers
  fails _ _ := True
  refl _ := .refl _
  trans := .trans
  fails_refl _ := trivial
  fails_trans _ _ := trivial

lemma lowers_regraph {g g' : Graph} (hg : im.program.graphAt? e = some g)
    (h : (im.modifyProgram fun p => p.modifyMethod e fun m => { m with graph? := none }).Supplies
    (fun _ => False) im') :
    Lowers im (im'.modifyProgram fun p => p.modifyMethod e fun m => { m with graph? := some g' }) := by
  have hmid := (Program.Redrawn.regraph im.program e none).trans h.redrawn
  have hput := Program.Redrawn.regraph im'.program e (some g')
  have hsize : (im'.program.modifyMethod e fun m => { m with graph? := some g' }).entities.size =
    im'.program.entities.size := by
    simp
  have hold : (im.program.methodAt? e).isSome := by
    obtain ⟨m, hm, -⟩ := Option.bind_eq_some_iff.1 hg
    rw [show im.program.methodAt? e = some m from hm]; rfl
  have hhas : im.program.HasEntity e := by
    by_contra hnot
    rw [methodAt?, entityAt_of_not _ e hnot] at hold; cases hold
  have hmethod : (im'.program.methodAt? e).isSome := by
    have hdecl := congrArg Option.isSome (hmid.declAt? hhas)
    rw [declAt?, declAt?, Option.isSome_map, Option.isSome_map] at hdecl
    exact hdecl.trans hold
  refine ⟨hmid.trans hput, h.records, h.literals, fun x hx => ?_, fun x => ?_⟩
  · have hx : im'.program.HasEntity x := lt_of_lt_of_eq hx hsize
    rcases h.new x hx with hx' | hs | hf
    · exact .inl (lt_of_lt_of_eq hx' (by simp [modifyProgram]))
    · exact .inr (hs.mono (Entity.eq_of_decl hs.method? (hput.entity x hx)) prefix_rfl prefix_rfl)
    · exact hf.elim
  · have hmiddle := h.enlarges.graph x
    have htaken := im.program.graphAt?_regraph e x none
    have hnew := im'.program.graphAt?_regraph e x (some g')
    by_cases hxe : x = e
    · rw [if_pos ⟨hxe, hmethod⟩] at hnew
      have hold : (im.program.graphAt? x).isSome = true := by rw [hxe, hg]; rfl
      exact (congrArg Option.isSome hnew).trans hold.symm
    · rw [if_neg fun h => hxe h.1] at hnew htaken
      exact congrArg Option.isSome (hnew.trans (hmiddle.trans htaken))

lemma lowering_lowerEntity (flavour : Flavour) (e : EntityId) : lowering.Honours (lowerEntity flavour e) := by
  intro im _
  unfold lowerEntity
  split
  · exact ⟨trivial, .refl _⟩
  · rename_i g hg
    have hlower := adding_lowerGraph flavour
      ⟨im.modifyProgram fun p => p.modifyMethod e fun m => { m with graph? := none }, g, g.uses⟩ trivial
    simp only []
    split
    · rename_i hrun; rw [hrun] at hlower; exact ⟨trivial, lowers_regraph hg hlower.2⟩
    · trivial

lemma lowering_lowerEntities (flavour : Flavour) (es : List EntityId) :
    lowering.Honours (lowerEntities flavour es) := by
  induction es with
  | nil => exact .pure
  | cons e rest ih => exact (lowering_lowerEntity flavour e).bind fun _ => ih

lemma lowering_lower (flavour : Flavour) : lowering.Honours (lower flavour) :=
  .get fun _ => lowering_lowerEntities flavour _

end Image

end JvmGraph
