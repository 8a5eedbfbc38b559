import JvmGraph.Compilation
import JvmGraph.Proofs.Body.Selection

/-!
# Runs of the loader

From an empty world on, everything that is done up to lowering keeps the world in order: going through the
bodies of methods, compiling classes, and working through the queue. What was finalized stays as it is, and
the graphs that methods get select methods of objects.
-/

namespace JvmGraph

open Steps Load World NodeContract JvmGraph.Frame

/-! ## Bodies -/

def Body.compiling : Contract BodyState where
  inv t := t.world.Ready ∧ t.world.program.Selects t.frame.graph
  does t t' := Loads t.world t'.world
  fails t t' := Grows t.world t'.world
  refl h := .refl h.1.sound h.1.fine
  trans := Loads.trans
  fails_refl h := .refl h.1.fine
  fails_trans := Loads.grows

namespace Body

variable {ctx : MethodContext} {α : Type}

lemma compiling_onFrame {x : Frame.Step α} (hx : unselecting.Honours x) : compiling.Honours (onFrame x) := by
  rintro ⟨world, frame, blocks, initialized⟩ ⟨hready, hsel⟩
  have h := hx frame trivial
  simp only [onFrame]
  cases hr : x frame with
  | ok a f => rw [hr] at h; exact ⟨⟨hready, h.2.selects hsel⟩, .refl hready.sound hready.fine⟩
  | error e f => exact Grows.refl hready.fine

lemma compiling_onWorld {x : Load α} (hx : loading.Honours x) : compiling.Honours (onWorld x) := by
  rintro ⟨world, frame, blocks, initialized⟩ ⟨hready, hsel⟩
  have h := hx world hready
  simp only [onWorld]
  cases hr : x world with
  | ok a w => rw [hr] at h; exact ⟨⟨h.1, h.2.keeps.program.becomes.selects hsel⟩, h.2⟩
  | error e w => rwa [hr] at h

/-- The blocks and the classes that were initialised do not matter. -/
lemma compiling_modify {f : BodyState → BodyState} (hw : ∀ t, (f t).world = t.world)
    (hf : ∀ t, (f t).frame = t.frame) : compiling.Honours (modify f : Body Unit) := by
  rintro t ⟨hready, hsel⟩
  refine ends_modify ⟨⟨by rwa [hw], by rwa [hw, hf]⟩, ?_⟩
  show Loads t.world (f t).world
  rw [hw]
  exact .refl hready.sound hready.fine

lemma compiling_select (e : EntityId) (args : List NodeId) (t : BodyState) (ht : compiling.inv t)
    (he : t.world.program.IsInstance e) :
    Ends (callSelected e args t) (fun _ t' => compiling.inv t' ∧ compiling.does t t') (compiling.fails t) := by
  refine ends_bind (compiling_onFrame unselecting_getStore t ht) fun memory t1 h1 => ?_
  have he1 := h1.2.keeps.program.becomes.isInstance he
  refine compiling.ends_then h1.2 ?_
  have hnode : Ends (onFrame (addNode (.methodSel e) .reference (memory :: args.take 1)) t1)
      (fun _ t2 => compiling.inv t2 ∧ compiling.does t1 t2) (compiling.fails t1) := by
    obtain ⟨⟨hready, hsel⟩, -⟩ := h1; exact ⟨⟨hready, hsel.add he1⟩, .refl hready.sound hready.fine⟩
  exact ends_bind hnode fun code t2 h2 => compiling.ends_then h2.2
    (compiling_onFrame (unselecting_memoryOp _ _ rfl) t2 h2.1)

lemma compiling_rules : ControlRules ctx compiling where
  frame := ⟨.ofContract unselecting, unselecting_rules, fun h => keeps_of_honours (compiling_onFrame h.honours)⟩
  world := ⟨loading, ((loading_rules ctx.source).refs _).world, fun h => keeps_of_honours (compiling_onWorld h)⟩
  initialized _ := keeps_of_honours (compiling_modify (fun _ => rfl) fun _ => rfl)
  select := by
    refine ⟨fun t e => t.world.program.IsInstance e, fun _ _ h => h, fun _ _ _ h => h.keeps.program.becomes.isInstance,
      ?_⟩
    exact fun e args t ht _ he => (compiling_select e args t ht he).imp (fun _ _ h => ⟨h, fun _ _ => trivial⟩)
      fun _ h => h
  blocks _ := compiling_modify (fun _ => rfl) fun _ => rfl
  note f hf := compiling_onFrame fun x _ => ⟨trivial, .of_nodes (by simp [graph, hf])⟩
  newBlock := by
    refine compiling_onFrame
      (sparing_build (.bind (Ssa.sparing_onGraph fun _ => .of_nodes rfl) fun _ => .bind ?_ fun _ => .pure))
    exact fun _ _ => ⟨trivial, .refl⟩
  nameBlock b pc := compiling_onFrame (sparing_build (Ssa.sparing_modifyGraph fun g => .of_nodes rfl))
  setCurrent b? := compiling_onFrame (sparing_build fun _ _ => ⟨trivial, .refl⟩)
  addPred b edge := compiling_onFrame (sparing_build (Ssa.sparing_modifyGraph fun _ => .of_nodes rfl))
  mature b := compiling_onFrame (sparing_build (Ssa.sparing_mature isSelection_foreign b))
  keepAlive n := compiling_onFrame (sparing_build (Ssa.sparing_modifyGraph fun g => .of_nodes rfl))
  ret inputs := compiling_onFrame (sparing_addNode rfl)
  arg n mode := compiling_onFrame (sparing_onGraph fun _ => .add rfl)

end Body

/-! ## Methods and classes -/

variable {source : ClassSource} {w : World} {c : ClassId}

lemma selects_new (p : Program) (name : String) (maxStack maxLocals : UInt16) :
    p.Selects (new name maxStack maxLocals).graph := by
  have hempty : p.Selects (Graph.empty name) := by
    rintro ⟨i⟩ e h
    cases i with
    | zero => cases h
    | succ i => cases h
  exact Graph.Spares.selects (.add rfl) hempty

lemma runBody_ends {frame : Frame} {x : Body Unit} (hx : Body.compiling.Honours x) (codeLength : Nat) (hr : w.Ready)
    (hg : w.program.Selects frame.graph) :
    Ends (runBody frame codeLength x w) (fun g w' => w'.Ready ∧ Loads w w' ∧ w'.program.Selects g) (Grows w) := by
  have h := hx { world := w, frame, blocks := Array.replicate codeLength none, initialized := [] } ⟨hr, hg⟩
  unfold runBody
  split
  · rename_i heq; rw [heq] at h; exact ⟨h.1.1, h.2, Graph.Spares.selects (.tidy rfl) h.1.2⟩
  · rename_i heq; rwa [heq] at h

lemma methodGraph_ends (file : ClassFile) (member : Member) (e : EntityId) (hr : w.Ready) :
    Ends (methodGraph source c file member e w) (fun g w' => w'.Ready ∧ Loads w w' ∧ w'.program.Selects g)
      (Grows w) := by
  have hrefl : Grows w w := .refl hr.fine
  refine ends_get_bind ?_
  cases (w.program.entityAt e).method? with
  | none => exact hrefl
  | some m =>
    cases member.code? with
    | none => exact hrefl
    | some code =>
      refine ends_pureStep_bind (fun ops _ => ends_pureStep_bind (fun boundaries _ => ?_) hrefl) hrefl
      exact runBody_ends (Body.compiling_rules.whole _ _ _ _) _ hr (selects_new _ _ _ _)

lemma honours_constructMethods (file : ClassFile) (methods : List (Member × EntityId)) :
    loading.Honours (constructMethods source c file methods) := by
  induction methods with
  | nil => exact .pure
  | cons method rest ih =>
    refine .ite ?_ ih
    intro w hr
    refine ends_bind (methodGraph_ends file method.1 method.2 hr) ?_
    rintro g w' ⟨hr', hl, hsel⟩
    have hattach := Loads.attach hr' method.2 hsel
    refine ends_modifyProgram_bind ?_
    exact loading.ends_then (hl.trans hattach) (ih _ (hattach.ready hr'))

lemma honours_constructClass (c : ClassId) : loading.Honours (constructClass source c) := by
  refine .get fun w => .ite .pure ?_
  refine (honours_classFileOf c).bind fun file => (honours_constructMethods file _).bind fun _ =>
    (loading_rules source).note c ?_
  exact fun _ => rfl

/-! ## The queue -/

lemma World.Ready.requeue (hr : w.Ready) (queue queued : List ClassId) :
    Ready { w with queue, queued } ∧ Loads w { w with queue, queued } := by
  have hs : Sound { w with queue, queued } :=
    ⟨hr.sound.named, hr.sound.member, hr.sound.members_nodup, hr.sound.vtable, hr.sound.classObject, hr.sound.filed,
      hr.sound.loaded, hr.sound.finalizing, hr.sound.fresh, hr.sound.functions⟩
  have hk : w.Keeps w.Protected { w with queue, queued } :=
    ⟨.refl _ _, fun _ _ h => h, fun _ _ h => h, List.prefix_rfl, List.prefix_rfl⟩
  exact ⟨⟨hs, hr.fine, hr.idle⟩, ⟨⟨hk, hr.fine⟩, hs, rfl, id⟩⟩

lemma honours_enqueue (c : ClassId) : loading.Honours (modify fun w => w.enqueue c : Load Unit) := by
  intro w hr
  refine ends_modify ?_
  unfold World.enqueue
  split
  · exact ⟨hr, .refl hr.sound hr.fine⟩
  · exact hr.requeue _ _

lemma honours_dequeue : loading.Honours (modifyGet World.dequeue : Load (Option ClassId)) := by
  intro w hr
  refine ends_modifyGet ?_
  unfold World.dequeue
  split
  · exact ⟨hr, .refl hr.sound hr.fine⟩
  · exact hr.requeue _ _

lemma honours_processClass (c : ClassId) : loading.Honours (processClass source c) :=
  .get fun _ => .ite .pure (((loading_rules source).finalizeClass c).bind fun _ => honours_constructClass c)

lemma honours_processQueue (fuel : Nat) : loading.Honours (processQueue source fuel) := by
  induction fuel with
  | zero => exact .throw
  | succ fuel ih =>
    refine honours_dequeue.bind fun c? => ?_
    cases c? with
    | none => exact .pure
    | some c => exact (honours_processClass c).bind fun _ => ih

lemma honours_loadFrom (root : String) (fuel : Nat) : loading.Honours (loadFrom source root fuel) :=
  ((loading_rules source).classNamed _).bind fun _ => (honours_enqueue _).bind fun _ =>
    ((loading_rules source).classNamed _).bind fun _ =>
    (honours_enqueue _).bind fun _ => (honours_processQueue fuel).bind fun _ => .pure

lemma ready_empty : Ready {} where
  sound := .empty
  fine := by
    intro c hc; cases hc
  idle := rfl

end JvmGraph
