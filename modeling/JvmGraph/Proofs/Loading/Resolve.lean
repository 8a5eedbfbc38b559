import JvmGraph.Proofs.Linking.Finalize
import JvmGraph.Resolution

/-!
# Resolving constants

Between the finalizations that it asks for, a run has no class underway. Looking up what the constants of a
class refer to loads and finalizes classes and leaves notes with the class.
-/

namespace JvmGraph

open Steps Load World

namespace World

variable {w w' : World} {c : ClassId}

structure Ready (w : World) : Prop where
  sound : w.Sound
  fine : w.Fine
  idle : w.finalizing = []

lemma Loads.ready (h : Loads w w') (hr : w.Ready) : w'.Ready :=
  ⟨h.sound, h.fine, h.finalizing.trans hr.idle⟩

lemma Ready.pending (h : w.Ready) (c : ClassId) : w.Pending c := by
  intro d hd
  simp [h.idle] at hd

lemma classAt_modifyClass (w : World) (c d : ClassId) (f : ClassInfo → ClassInfo) :
    (w.modifyClass c f).classAt d = if d = c ∧ w.HasClass c then f (w.classAt c) else w.classAt d :=
  w.program.classAt_modifyClass c d f

def loading : Contract World where
  inv := Ready
  does := Loads
  fails := Grows
  refl h := .refl h.sound h.fine
  trans := Loads.trans
  fails_refl h := .refl h.fine
  fails_trans := Loads.grows

lemma Loads.note (hr : w.Ready) {f : ClassInfo → ClassInfo} (hf : ∀ info, (f info).decl = info.decl) :
    Loads w (w.modifyClass c f) := by
  have hdecl := hf (w.classAt c)
  have hmembers : (f (w.classAt c)).members = (w.classAt c).members := (congrArg (·.members) hdecl :)
  refine .of_keeps hr.sound hr.fine (keeps_modifyProgram ?_) (Program.size_modifyClass _ _ _) rfl
    (fun _ _ h => .inl h) rfl
  exact .modifyClass (congrArg (·.birth) hdecl :) (hmembers ▸ List.prefix_rfl) fun _ => hdecl

lemma Loads.attach (hr : w.Ready) (e : EntityId) {g : Graph} (hg : w.program.Selects g) :
    Loads w (w.modifyProgram fun p => p.modifyMethod e fun m => { m with graph? := some g }) :=
  .of_keeps hr.sound hr.fine (keeps_modifyProgram (.attach e hg)) rfl rfl (fun _ _ h => .inl h) rfl

end World

/-! ## Steps -/

variable {source : ClassSource} {c : ClassId} {C : Contract World}

lemma honours_pureStep {α : Type} (x : Except Error α) : C.Honours (pureStep x) := by
  cases x with
  | ok a => exact .pure
  | error e => exact .throw

lemma honours_classFileOf (c : ClassId) : C.Honours (classFileOf c) := by
  refine .get fun w => ?_
  simp only []
  split
  · exact .pure
  · exact .throw

/-- Data and functions may be added to the image. -/
structure ImageRules (C : Contract World) : Prop where
  image : ∀ {α : Type} {f : Image → α × Image}, (∀ im : Image, im.Supplies (fun _ => False) (f im).2) →
    C.Honours (onImage f)

structure LoadRules (source : ClassSource) (C : Contract World) : Prop extends ImageRules C where
  note : ∀ c {f : ClassInfo → ClassInfo}, (∀ info, (f info).decl = info.decl) → C.Honours (Load.modifyClass c f)
  classNamed : ∀ name, C.Honours (classNamed source name)
  finalizeClass : ∀ c, C.Honours (finalizeClass source c)

/-- Rules for the constants of class `c`: the element class of an array type is only looked up, any other class is
finalized. -/
structure RefRules (source : ClassSource) (c : ClassId) (file : ClassFile) (C : Contract World) :
    Prop extends ImageRules C where
  note : ∀ {f : ClassInfo → ClassInfo}, (∀ info, (f info).decl = info.decl) →
    (∀ info, (f info).constructed = info.constructed) → C.Honours (Load.modifyClass c f)
  element : ∀ name, file.NamesElement name → C.Honours (classNamed source name)
  found : ∀ {α : Type} (name : String) {f : ClassId → Load α}, (∀ d, C.Honours (f d)) → C.Honours (do
    let d ← classNamed source name
    finalizeClass source d
    f d)

lemma LoadRules.refs (R : LoadRules source C) (file : ClassFile) : RefRules source c file C where
  image := R.image
  note hf _ := R.note c hf
  element name _ := R.classNamed name
  found name _ hf := (R.classNamed name).bind fun d => (R.finalizeClass d).bind fun _ => hf d

lemma honours_read {α β : Type} (x : Except Error α) {f : α → Load β} (hf : ∀ a, x = .ok a → C.Honours (f a)) :
    C.Honours (pureStep x >>= f) := by
  cases x with
  | ok a => exact hf a rfl
  | error e => exact fun _ => C.fails_refl

namespace RefRules

variable {file : ClassFile} (R : RefRules source c file C)

include R

lemma typeOf (type : FieldType) (ht : ∀ name, type.elementClass? = some name → file.NamesElement name) :
    C.Honours (typeOf source type) := by
  induction type with
  | base k => exact .pure
  | object name => exact (R.element name (ht name rfl)).bind fun c => .pure
  | array element ih => exact (ih ht).bind fun t => .pure

lemma classRef (index : UInt16) : C.Honours (classRef source c file index) := by
  refine (honours_pureStep _).bind fun _ => .get fun w => ?_
  split
  · exact .pure
  · refine honours_read _ fun name hname => ?_
    split
    · rename_i harray
      refine honours_read _ fun type htype => R.typeOf type fun element helement => ?_
      exact ⟨index, name, type, hname, harray, htype, helement⟩
    · refine R.found name fun found => .bind (R.note ?_ ?_) fun _ => .pure
      · exact fun _ => rfl
      · exact fun _ => rfl

lemma memberOwner (type : TypeRef) : C.Honours (memberOwner source type) := by
  cases type with
  | ofClass c => exact .pure
  | prim k => exact R.found _ fun _ => .pure
  | array element => exact R.found _ fun _ => .pure

lemma memberEntity (index : UInt16) (kind : RefKind) : C.Honours (memberEntity source c file index kind) := by
  refine (honours_pureStep _).bind fun _ => .get fun w => ?_
  split
  · exact .pure
  · refine (honours_pureStep _).bind fun ref => (R.classRef _).bind fun type =>
      (R.memberOwner type).bind fun owner => .get fun w => ?_
    split
    · exact .throw
    · refine .bind (R.note ?_ ?_) fun _ => .pure
      · exact fun _ => rfl
      · exact fun _ => rfl

end RefRules

lemma World.loading_rules (source : ClassSource) : LoadRules source loading where
  image hf w hr := by
    have h := Loads.supplies hr.sound hr.fine (hf w.image); exact ends_onImage ⟨h.ready hr, h⟩
  note c f hf w hr := by
    have h := Loads.note (c := c) hr hf; exact ends_modifyClass ⟨h.ready hr, h⟩
  classNamed name w hr :=
    (classNamed_ends source name hr.sound hr.fine).imp (fun c w' h => ⟨h.1.ready hr, h.1⟩) fun _ h => h
  finalizeClass c w hr := by
    refine (finalizeClass_finalizes source w c hr.sound hr.fine (hr.pending c)).imp ?_ fun _ h => h
    exact fun _ w' h => ⟨h.1.ready hr, h.1.toLoads⟩

end JvmGraph
