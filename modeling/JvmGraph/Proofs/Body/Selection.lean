import JvmGraph.Proofs.Body.Rules
import JvmGraph.Proofs.Graph.Pruning

/-!
# Methods that a graph selects

A builder adds placeholders and Phis of its own, and replaces Phis; no node with any other operation comes about
unless it is asked for. So the methods that the graph of a body selects are those that calls were compiled for,
and these are methods of objects.
-/

namespace JvmGraph

open Steps World Contract.Honours

variable {α : Type} {mode : Mode} {inputs : List NodeId} {op : Op}
  {b : BlockId} {p : NodeId} {f : Graph → α × Graph} {g : Graph}

/-- Operations of nodes that a builder adds by itself. -/
def Op.isInternal : Op → Bool
  | .phi | .forward | .unknown | .bad | .proj _ => true
  | _ => false

namespace Graph

def Spares (P : Op → Bool) (g g' : Graph) : Prop := ∀ n, P (g'.node n).op = true → (g.node n).op = (g'.node n).op

variable {P : Op → Bool} {g' g'' : Graph}

namespace Spares

lemma refl : Spares P g g := fun _ _ => rfl

lemma trans (h : Spares P g g') (h' : Spares P g' g'') : Spares P g g'' := by
  intro n hn
  have h1 := h' n hn
  rw [← h1] at hn
  exact (h n hn).trans h1

lemma of_nodes (h : g'.nodes = g.nodes) : Spares P g g' := by
  intro n _
  rw [Graph.node, Graph.node, h]

lemma of_op (h : ∀ n, (g'.node n).op = (g.node n).op) : Spares P g g' := fun n _ => (h n).symm

lemma add (ho : P op = false) : Spares P g (g.add b op mode inputs).2 := by
  intro n hn
  rw [node_add] at hn ⊢
  split
  · rename_i h; rw [if_pos h] at hn; simp [ho] at hn
  · rfl

lemma setNode {v : Node} (hv : P v.op = false ∨ v.op = (g.node p).op) : Spares P g (g.setNode p v) := by
  intro n hn
  rw [node_setNode] at hn ⊢
  split
  · rename_i h
    rw [if_pos h] at hn
    rcases hv with hv | hv
    · simp [hv] at hn
    · rw [hv, h.1]
  · rfl

lemma exchange {q : NodeId} (hP : P .forward = false) : Spares P g (g.exchange p q) := by
  unfold Graph.exchange
  split
  · exact refl
  · exact setNode (.inl hP)

lemma bad (hP : P .bad = false) : Spares P g (g.bad mode).2 := by
  unfold Graph.bad
  split
  · exact refl
  · exact (add hP).trans (of_nodes rfl)

/-! ## Tidying -/

lemma simplifyPhis (hP : P .forward = false) (ns : List NodeId) (changed : Bool) :
    Spares P g (g.simplifyPhis changed ns).1 := by
  induction ns generalizing g changed with
  | nil => exact refl
  | cons n rest ih =>
    have hstep : Spares P g (g.simplifyPhi n).1 := by
      unfold Graph.simplifyPhi
      simp only []
      split
      · split
        · exact exchange hP
        · exact refl
      · exact refl
    exact hstep.trans (ih _)

lemma settlePhis (hP : P .forward = false) (fuel : Nat) (g : Graph) : Spares P g (g.settlePhis fuel) := by
  induction fuel generalizing g with
  | zero => exact refl
  | succ fuel ih =>
    have hround := simplifyPhis hP g.nodeIds false (g := g)
    unfold Graph.settlePhis
    simp only []
    split
    · exact hround.trans (ih _)
    · exact hround

lemma tidy (hP : P .forward = false) : Spares P g g.tidy := by
  have hdetach : Spares P g g.removeUnreachable.2 := by
    refine of_op fun n => ?_
    rw [show g.removeUnreachable.2 = (g.bury g.seen).detach g.seen from rfl, node_detach]
    split
    · unfold detachPhi
      simp only []
      split <;> rfl
    · rfl
  have hsettle := settlePhis hP g.removeUnreachable.2.nodes.size g.removeUnreachable.2
  exact hdetach.trans (hsettle.trans (of_op (op_redirect _)))

end Spares

end Graph

/-! ## Steps of builders and frames -/

section Sparing

variable {P : Op → Bool}

def Ssa.sparing (P : Op → Bool) : Contract Ssa.Builder :=
  .ofDoes (fun _ => True) (fun s s' => s.graph.Spares P s'.graph) (fun _ => .refl) .trans

def Frame.sparing (P : Op → Bool) : Contract Frame :=
  .ofDoes (fun _ => True) (fun f f' => f.graph.Spares P f'.graph) (fun _ => .refl) .trans

/-- No operation that a builder adds by itself is in `P`. -/
def Op.Foreign (P : Op → Bool) : Prop := ∀ op : Op, op.isInternal = true → P op = false

namespace Ssa

lemma sparing_onGraph (hf : ∀ g : Graph, g.Spares P (f g).2) :
    (sparing P).Honours (onGraph f) := fun s _ => ⟨trivial, hf s.graph⟩

lemma sparing_modifyGraph {f : Graph → Graph} (hf : ∀ g : Graph, g.Spares P (f g)) :
    (sparing P).Honours (modifyGraph f) :=
  sparing_onGraph hf

lemma sparing_modifyState (b : Builder → BlockId) (f : BlockState → BlockState) :
    (sparing P).Honours (modify fun s => s.modifyState (b s) f : Build Unit) := fun _ _ => ⟨trivial, .refl⟩

lemma sparing_addNode (ho : P op = false) : (sparing P).Honours (addNode op mode inputs) :=
  .get fun _ => sparing_onGraph fun _ => .add ho

section Foreign

variable (hP : Op.Foreign P)

include hP

lemma sparing_removeTrivialPhi (phi : NodeId) : (sparing P).Honours (removeTrivialPhi phi) := by
  refine .get fun s => ?_
  simp only []
  split
  · exact (sparing_onGraph fun _ => .add (hP _ rfl)).bind fun _ =>
      (sparing_modifyGraph fun _ => .exchange (hP _ rfl)).bind fun _ => .pure
  · exact (sparing_modifyGraph fun _ => .exchange (hP _ rfl)).bind fun _ => .pure
  · exact .pure

lemma sparing_addOperands {read : BlockId → Mode → Build NodeId} (hread : ∀ b mode, (sparing P).Honours (read b mode))
    (phi : NodeId) : (sparing P).Honours (addOperands read phi) := by
  refine .get fun s => ?_
  have hinputs : ∀ ps : List NodeId, (sparing P).Honours (ps.mapM fun p => do
      read ((← get).graph.predBlock p) (s.graph.node phi).mode : Build (List NodeId)) := by
    intro ps
    induction ps with
    | nil => exact .pure
    | cons p rest ih =>
      rw [List.mapM_cons]
      exact bind (.get fun s => hread _ _) fun _ => ih.bind fun _ => .pure
  refine (hinputs _).bind fun inputs => .bind (sparing_modifyGraph ?_) fun _ => sparing_removeTrivialPhi hP phi
  exact fun g => .setNode (.inr rfl)

lemma sparing_readAt (fuel : Nat) (x : Var) (b : BlockId) (mode : Mode) :
    (sparing P).Honours (readAt fuel x b mode) := by
  induction fuel generalizing b mode with
  | zero => exact .throw
  | succ fuel ih =>
    refine .get fun s => ?_
    have hrest : ∀ value, (sparing P).Honours (do
        modify fun s => s.define b x value
        return value : Build NodeId) :=
      fun value => (sparing_modifyState _ _).bind fun _ => .pure
    have hphi : (sparing P).Honours (onGraph fun g => g.add b .phi mode []) := sparing_onGraph fun _ => .add (hP _ rfl)
    split
    · exact .pure
    · refine .ite ?_ ?_
      · exact hphi.bind fun _ => (sparing_modifyState _ _).bind fun _ => pure.bind hrest
      · split
        · exact bind (sparing_onGraph fun _ => .add (hP _ rfl)) hrest
        · exact (ih _ _).bind hrest
        · exact hphi.bind fun _ => (sparing_modifyState _ _).bind fun _ =>
            (sparing_addOperands hP (fun p m => ih p m) _).bind hrest

lemma sparing_read (x : Var) (b : BlockId) (mode : Mode) : (sparing P).Honours (read x b mode) :=
  .get fun _ => sparing_readAt hP _ x b mode

lemma sparing_getValue (x : Var) (mode : Mode) : (sparing P).Honours (getValue x mode) :=
  .get fun _ => sparing_read hP x _ mode

lemma sparing_completeAll (phis : List (Var × NodeId)) : (sparing P).Honours (completeAll phis) := by
  induction phis with
  | nil => exact .pure
  | cons phi rest ih =>
    exact (sparing_addOperands hP (fun b mode => sparing_read hP _ b mode) _).bind fun _ => ih

lemma sparing_mature (b : BlockId) : (sparing P).Honours (mature b) := by
  refine .get fun s => .ite ?_ .pure
  exact .get fun s => (sparing_modifyState _ _).bind fun _ => (sparing_completeAll hP _).bind fun _ =>
    sparing_modifyState _ _

end Foreign

end Ssa

namespace Frame

lemma sparing_build {x : Ssa.Build α} (hx : (Ssa.sparing P).Honours x) : (sparing P).Honours (build x) := by
  rintro ⟨builder, maxStack, maxLocals, depth, pc⟩ -
  have h := hx builder trivial
  simp only [build]
  cases hr : x builder with
  | ok a b => rwa [hr] at h
  | error e b => trivial

lemma sparing_set {f : Frame} (r : Frame) {x : Step α} (h : r.graph = f.graph) (hx : (sparing P).Honours x) :
    Ends ((do set r; x : Step α) f) (fun _ f' => True ∧ f.graph.Spares P f'.graph) fun _ => True := by
  have hends := hx r trivial
  rwa [← h]

lemma sparing_reserve (n : Nat) : (sparing P).Honours (reserve n) := by
  intro f _
  refine ends_get_bind ?_
  split
  · exact trivial
  · exact sparing_set { f with depth := f.depth + n } rfl .pure

lemma sparing_release : (sparing P).Honours release := by
  intro f _
  refine ends_get_bind ?_
  cases hd : f.depth with
  | zero => exact trivial
  | succ d => exact sparing_set { f with depth := d } rfl .pure

lemma sparing_localVar (index : UInt16) (mode : Mode) : (sparing P).Honours (localVar index mode) :=
  .get fun _ => .ite (throw.bind fun _ => .pure) .pure

section Foreign

variable (hP : Op.Foreign P)

include hP

lemma sparing_bad (mode : Mode) : (sparing P).Honours (build (Ssa.onGraph fun g => g.bad mode)) :=
  sparing_build (Ssa.sparing_onGraph fun _ => .bad (hP _ rfl))

omit hP in
lemma sparing_setValue (x : Ssa.Var) (v : NodeId) : (sparing P).Honours (build (Ssa.setValue x v)) :=
  sparing_build (Ssa.sparing_modifyState _ _)

lemma sparing_getValue (x : Ssa.Var) (mode : Mode) : (sparing P).Honours (build (Ssa.getValue x mode)) :=
  sparing_build (Ssa.sparing_getValue hP x mode)

lemma sparing_push (v : NodeId) : (sparing P).Honours (push v) :=
  .get fun _ => .ite
    ((sparing_reserve 2).bind fun _ => (sparing_bad hP _).bind fun _ => (sparing_setValue _ _).bind fun _ =>
      sparing_setValue _ _)
    ((sparing_reserve 1).bind fun _ => sparing_setValue _ _)

lemma sparing_pop (mode : Mode) : (sparing P).Honours (pop mode) := by
  refine sparing_release.bind fun _ => (sparing_getValue hP _ _).bind fun _ => .ite ?_ ?_
  · exact sparing_release.bind fun _ => (sparing_getValue hP _ _).bind fun _ => .get fun _ =>
      .ite (throw.bind fun _ => .pure) .pure
  · exact .get fun _ => .ite (throw.bind fun _ => .pure) .pure

lemma sparing_popSlot : (sparing P).Honours popSlot := by
  refine sparing_release.bind fun _ => .get fun f => ?_
  split
  · exact sparing_getValue hP _ _
  · exact .throw

lemma sparing_setLocal (index : UInt16) (v : NodeId) : (sparing P).Honours (setLocal index v) :=
  .get fun _ => (sparing_localVar _ _).bind fun _ => (sparing_setValue _ _).bind fun _ =>
    .ite ((sparing_bad hP _).bind fun _ => sparing_setValue _ _) .pure

end Foreign

lemma sparing_addNode (ho : P op = false) :
    (sparing P).Honours (addNode op mode inputs) := sparing_build (Ssa.sparing_addNode ho)

lemma sparing_onGraph (hf : ∀ g : Graph, g.Spares P (f g).2) :
    (sparing P).Honours (onGraph f) := sparing_build (Ssa.sparing_onGraph hf)

end Frame

end Sparing

/-! ## Bodies -/

lemma isSelection_foreign : Op.Foreign Op.isSelection := by
  intro op h
  cases op <;> first | rfl | cases h

lemma Graph.Spares.selects {g' : Graph} {p : Program} (h : g.Spares Op.isSelection g') (hg : p.Selects g) :
    p.Selects g' := by
  intro n e he
  apply hg n e
  rw [h n (by rw [he]; rfl), he]

lemma Program.Selects.add {p : Program} (h : p.Selects g) {e : EntityId} (he : p.IsInstance e)
    : p.Selects (g.add b (.methodSel e) mode inputs).2 := by
  intro n x hx
  rw [Graph.node_add] at hx
  split at hx
  · simp only [Op.methodSel.injEq] at hx; exact hx ▸ he
  · exact h n x hx

abbrev Frame.unselecting : Contract Frame := Frame.sparing Op.isSelection

namespace Frame

lemma unselecting_memoryOp (op : Op) (inputs : List NodeId) (ho : op.isSelection = false) :
    unselecting.Honours (memoryOp op inputs) :=
  bind (.get fun _ => sparing_getValue isSelection_foreign _ _) fun _ => (sparing_addNode ho).bind fun _ =>
    (sparing_build (Ssa.sparing_onGraph fun _ => .add rfl)).bind fun _ =>
      bind (.get fun _ => sparing_setValue _ _) fun _ => .pure

lemma unselecting_getStore : unselecting.Honours (build Ssa.getStore) :=
  .get fun _ => sparing_getValue isSelection_foreign _ _

open NodeContract

lemma unselecting_rules : FrameRules true (.ofContract unselecting) where
  push _ := keeps_of_honours (sparing_push isSelection_foreign _)
  pop := keeps_of_honours (sparing_pop isSelection_foreign _)
  pushSlot _ := keeps_of_honours ((sparing_reserve 1).bind fun _ => sparing_setValue _ _)
  popSlot := keeps_of_honours (sparing_popSlot isSelection_foreign)
  getLocal := keeps_of_honours ((sparing_localVar _ _).bind fun _ => sparing_getValue isSelection_foreign _ _)
  setLocal _ := keeps_of_honours (sparing_setLocal isSelection_foreign _ _)
  node ho _ := keeps_of_honours (sparing_addNode (Op.isSelection_of_isOrdinary ho))
  constant := keeps_of_honours (sparing_onGraph fun _ => .add rfl)
  address := keeps_of_honours (sparing_onGraph fun _ => .add rfl)
  proj _ _ := keeps_of_honours (sparing_build (Ssa.sparing_onGraph fun _ => .add rfl))
  memoryOp ho _ _ := keeps_of_honours (unselecting_memoryOp _ _ (Op.isSelection_of_leavesMemory ho))
  callAt _ := keeps_of_honours ((sparing_onGraph fun _ => .add rfl).bind fun _ => unselecting_memoryOp _ _ rfl)
  getStore := keeps_of_honours unselecting_getStore

end Frame

end JvmGraph
