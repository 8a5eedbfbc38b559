import JvmGraph.Lowering
import JvmGraph.Proofs.Graph.Linear
import JvmGraph.Proofs.Graph.WellFormed

/-!
# Graphs whose nodes are reworked

Lowering puts in new nodes, and changes nodes that speak of objects, what takes these apart, and calls. The control
flow stays, and so do Phis and returns. In the thread of a block, a node makes way for others that lead from the
state that it took to the state that it left. Such changes keep memory linear.
-/

namespace JvmGraph

/-- Operations that a node can come to have when it is reworked or put in. -/
def Op.isLowered (op : Op) : Bool := op ≠ .phi && op ≠ .ret && !op.isObjectOp

/-- Operations of control flow, which lowering does not deal with. -/
def Op.isSteady : Op → Bool
  | phi | ret | cond | jmp | start => true
  | _ => false

variable {x : NodeId} {e : NodeId}

namespace Graph

/-- Nodes that lowering may change: those that speak of objects, calls, and what takes an allocation apart. -/
def Reworkable (g : Graph) (x : NodeId) : Prop :=
  (g.node x).op.isObjectOp = true ∨ (g.node x).op = .call ∨
    ∃ number t type, (g.node x).op = .proj number ∧ (g.node x).inputs.head? = some t ∧ (g.node t).op = .alloc type

structure Reworks (g g' : Graph) (F : NodeId → Prop) (σ : NodeId → List NodeId) : Prop
    extends Reweaves g g' g.resolve g'.resolve σ where
  size_le : g.nodes.size ≤ g'.nodes.size
  blocks : g'.blocks = g.blocks
  settled : g'.Settled
  old : ∀ x, F x → g.Reworkable x
  keep : ∀ x : NodeId, x.index < g.nodes.size → ¬ F x → g'.node x = g.node x
  block : ∀ x : NodeId, x.index < g.nodes.size → (g'.node x).block = (g.node x).block
  fresh : ∀ x : NodeId, g.nodes.size ≤ x.index → (g'.node x).block = startBlock ∨ ∃ k,
    (g'.node x).block = (g.node k).block
  lowered : ∀ x : NodeId, F x ∨ g.nodes.size ≤ x.index → (g'.node x).op.isLowered = true
  /-- What stands for a node has been computed where the node had. -/
  home : ∀ n : NodeId, n.index < g.nodes.size → ∀ w : Walk, g.IsWalk w → (g.node (g.resolve n)).block ∈ w.blocks →
    (g'.node (g'.resolve n)).block ∈ w.blocks
  /-- Nothing new takes apart what stays. -/
  left : ∀ b k p, k.index < g.nodes.size → (g.node k).op ≠ .forward → ¬ F k → g'.Leaves g'.resolve b k p →
    g.Leaves g.resolve b k p

structure Orderly (g : Graph) (leave : BlockId → Option NodeId) : Prop where
  merging : g.Merging
  start_phi : ∀ n, (g.node n).op = .phi → (g.node n).block ≠ startBlock
  operand_lt : ∀ n, (g.node n).op = .phi → g.Reached (g.node n).block → ∀ i ∈ (g.node n).inputs, i.index < g.nodes.size
  live : g.Live
  control : ∀ b, ∀ e ∈ (g.block b).preds, g.IsControl e
  linear : g.Linear g.resolve leave

namespace Reworks

variable {g g' : Graph} {F : NodeId → Prop} {σ : NodeId → List NodeId} {leave : BlockId → Option NodeId}
    (R : g.Reworks g' F σ)

include R

lemma keep_of_op (h : ¬ g.Reworkable x) (hb : (g.node x).op ≠ .bad) : g'.node x = g.node x :=
  R.keep x (lt_of_op hb) fun hF => h (R.old x hF)

lemma old_of_op (h : (g'.node x).op.isLowered = false) : g'.node x = g.node x := by
  by_cases hx : F x ∨ g.nodes.size ≤ x.index
  · simp [R.lowered x hx] at h
  · rw [not_or, not_le] at hx; exact R.keep x hx.2 hx.1

lemma steady {op : Op} (h : (g.node x).op = op) (ho : op.isSteady = true) : g'.node x = g.node x := by
  subst h
  refine R.keep_of_op (fun hx => ?_) fun hb => by rw [hb] at ho; cases ho
  rcases hx with hx | hx | ⟨_, _, _, hx, -⟩
  · revert ho hx; cases (g.node x).op <;> simp [Op.isSteady, Op.isObjectOp]
  · rw [hx] at ho; cases ho
  · rw [hx] at ho; cases ho

lemma proj_of_steady {c : NodeId} {number : Nat} (h : (g.node x).op = .proj number) (hi : (g.node x).inputs = [c])
    (hc : (g.node c).op.isSteady = true) : g'.node x = g.node x := by
  refine R.keep_of_op (fun hx => ?_) (by rw [h]; simp)
  rcases hx with hx | hx | ⟨_, t, type, -, hx, ht⟩
  · rw [h] at hx; cases hx
  · rw [h] at hx; cases hx
  · rw [hi] at hx
    cases hx
    rw [ht] at hc; cases hc

lemma old_phi (h : (g'.node x).op = .phi) : g'.node x = g.node x := R.old_of_op (by rw [h]; rfl)

lemma old_ret (h : (g'.node x).op = .ret) : g'.node x = g.node x := R.old_of_op (by rw [h]; rfl)

lemma isControl (h : g.IsControl e) : g'.IsControl e ∧ g'.node e = g.node e := by
  have hkeep : g'.node e = g.node e := by
    rcases h with h | h | ⟨number, c, h, hi, hc⟩
    · exact R.steady h rfl
    · exact R.steady h rfl
    · exact R.proj_of_steady h hi (by rw [hc]; rfl)
  refine ⟨?_, hkeep⟩
  unfold IsControl at h ⊢
  rw [hkeep]
  exact h.imp_right (Or.imp_right fun ⟨k, c, hk, hi, hc⟩ => ⟨k, c, hk, hi, by rwa [R.steady hc rfl]⟩)

section

variable (hc : ∀ b, ∀ e ∈ (g.block b).preds, g.IsControl e) (S : g.Settled)

include hc S

lemma predBlock {b : BlockId} (he : e ∈ (g.block b).preds) : g'.predBlock e = g.predBlock e := by
  obtain ⟨hc', hkeep⟩ := R.isControl (hc b e he)
  unfold Graph.predBlock
  rw [R.settled.resolve_of_op hc'.op_ne.2, S.resolve_of_op (hc b e he).op_ne.2, hkeep]

lemma isWalk : ∀ {w : Walk}, g'.IsWalk w ↔ g.IsWalk w
  | [] => .rfl
  | (b, k) :: w => by
    refine and_congr ?_ (isWalk (w := w))
    rw [show g'.block b = g.block b by simp [Graph.block, R.blocks]]
    cases he : (g.block b).preds[k]? with
    | none => simp
    | some e => rw [Option.map_some, Option.map_some, R.predBlock hc S (List.mem_of_getElem? he)]

lemma reached (b : BlockId) : g'.Reached b ↔ g.Reached b :=
  exists_congr fun _ => and_congr_left fun _ => R.isWalk hc S

end

lemma block_cases (x : NodeId) : (g'.node x).block = startBlock ∨ ∃ k, (g'.node x).block = (g.node k).block := by
  by_cases hx : g.Has x
  · exact .inr ⟨x, R.block x hx⟩
  · exact R.fresh x (by omega)

lemma start_phi (O : g.Orderly leave) (x : NodeId) (h : (g'.node x).op = .phi) : (g'.node x).block ≠ startBlock := by
  have e := R.old_phi h
  rw [e] at h ⊢
  exact O.start_phi x h

lemma merging (O : g.Orderly leave) : g'.Merging := by
  have M := O.merging
  have S := M.settled
  have hc := O.control
  have hblock : ∀ b, g'.block b = g.block b := fun b => by simp only [Graph.block, R.blocks]
  refine ⟨R.settled, fun b e he => ?_, fun x ho hr => ?_, fun x ho k i e hi he => ?_⟩
  · rw [hblock] at he
    obtain ⟨hp, hf⟩ := (R.isControl (hc b e he)).1.op_ne; rwa [R.settled.resolve_of_op hf]
  · have e := R.old_phi ho
    rw [e] at ho hr ⊢
    rw [hblock]; exact M.arity x ho ((R.reached hc S _).1 hr)
  · have hx := R.old_phi ho
    rw [hx] at ho hi he
    rw [hblock] at he
    rw [R.predBlock hc S (List.mem_of_getElem? he)]
    intro w hw hlast
    have hw := (R.isWalk hc S).1 hw
    -- the edge is walked, so that the block of the Phi is reached
    have hr : g.Reached (g.node x).block := .edge ⟨w, hw, hlast⟩ (List.mem_of_getElem? he)
    exact .of_mem (R.home i (O.operand_lt x ho hr i (List.mem_of_getElem? hi)) w hw
      (M.operands x ho k i e hi he w hw hlast).mem_blocks)
      (R.start_phi O _)

lemma linear (L : g.Linear g.resolve leave) (S : g.Settled) (hc : ∀ b, ∀ e ∈ (g.block b).preds, g.IsControl e) :
    g'.Linear g'.resolve leave := by
  have C : Conveys g g' g.resolve g'.resolve σ :=
    ⟨R.toReweaves, fun b => (R.reached hc S b).1, fun _ h => .of_eq (R.old_ret h)⟩
  exact C.linear L fun b _ _ I => I.later S R.settled (by simp [Graph.block, R.blocks])
    (fun _ => R.predBlock hc S) R.same
    (fun _ h => R.steady h rfl) (fun _ _ _ h hi hs => R.proj_of_steady h hi (by rw [hs]; rfl)) fun _ h => .inl
      (R.steady h rfl)

lemma orderly (O : g.Orderly leave) : g'.Orderly leave := by
  have S := O.merging.settled
  have hblock : ∀ b, g'.block b = g.block b := fun b => by simp [Graph.block, R.blocks]
  have hstart : g.Reached startBlock := ⟨[], trivial, rfl⟩
  refine ⟨R.merging O, R.start_phi O, fun x ho hr i hi => ?_, fun x hx => ?_, fun b e he => ?_,
    R.linear O.linear S O.control⟩
  · have e := R.old_phi ho
    rw [e] at ho hr hi
    exact lt_of_lt_of_le (O.operand_lt x ho ((R.reached O.control S _).1 hr) i hi) R.size_le
  · rw [R.reached O.control S]
    rw [hblock] at hx
    rcases R.block_cases x with h | ⟨k, h⟩
    · rwa [h]
    · rw [h] at hx ⊢; exact O.live k hx
  · rw [hblock] at he; exact (R.isControl (O.control b e he)).1

end Reworks

lemma Orderly.settle {g : Graph} {leave : BlockId → Option NodeId} (O : g.Orderly leave) :
    (settlePhis g.nodes.size g).Merging ∧ g.Refines (settlePhis g.nodes.size g) :=
  settlePhis_refines _ O.merging fun n hp hd => O.operand_lt n hp (O.live n hd)

end Graph

end JvmGraph
