import JvmGraph.Proofs.Graph.Stable
import JvmGraph.Proofs.Lowering.Nodes

/-!
# Lowered graphs

The nodes of a graph that speak of objects are lowered one after the other. Each is as it was when its turn comes, and
after the last one there are none left. Normalising then makes all references direct.
-/

namespace JvmGraph

open Steps List JvmGraph.Graph

variable {n : NodeId} {flavour : Flavour} {u : Unit}

lemma Op.leaves_or_ret {op : Op} (h : op.takesMemory = true) (ho : op.isObjectOp = false) :
    op.leavesMemory = true ∨ op = .ret := by
  cases op <;> simp_all [Op.leavesMemory, Op.isObjectOp]

namespace Graph

structure Lowered (g : Graph) : Prop where
  /-- Nothing speaks of objects. -/
  complete : ∀ n ∈ g.liveNodes, (g.node n).op.isObjectOp = false
  /-- Nothing refers to a forwarding node. -/
  inputs : ∀ n ∈ g.liveNodes, ∀ i ∈ (g.node n).inputs, (g.node i).op ≠ .forward
  preds : ∀ b, ∀ e ∈ (g.block b).preds, (g.node e).op ≠ .forward
  keepAlives : ∀ k ∈ g.keepAlives, (g.node k).op ≠ .forward
  /-- No two nodes of a block take the same memory state. -/
  once : ∀ n ∈ g.liveNodes, ∀ n' ∈ g.liveNodes, (g.node n).block = (g.node n').block →
    (g.node n).op.takesMemory = true →
    (g.node n').op.takesMemory = true → (g.node n).inputs.head? = (g.node n').inputs.head? → n = n'
  /-- The nodes of a block that touch memory lie on one thread, from the state that it is entered with to the one that
  it leaves. -/
  linear : ∃ leave, g.Linear id leave
  reached : ∀ n ∈ g.liveNodes, g.Reached (g.node n).block
  normal : g.normalize = g

end Graph

namespace Lower

variable {g : Graph} {s s' : Lowering} {leave : BlockId → Option NodeId} {todo : List NodeId}

structure Underway (g : Graph) (leave : BlockId → Option NodeId) (s : Lowering) (todo : List NodeId) : Prop where
  orderly : s.graph.Orderly leave
  uses : s.uses = g.uses
  ready : ∀ n ∈ todo, g.Ready s.graph n
  objects : ∀ n ∈ s.graph.liveNodes, (s.graph.node n).op.isObjectOp = true → n ∈ todo

lemma Done.ready {n' : NodeId} (D : Done g n s s') (O : s.graph.Orderly leave) (R : g.Ready s.graph n)
    (R' : g.Ready s.graph n') (hne : n ≠ n') : g.Ready s'.graph n' := by
  obtain ⟨F, σ, Rw, -, hF⟩ := D.reworks
  have hout : ∀ x, g.Footprint n' x → ¬ F x := fun x hx hFx => hne ((hF x hFx).eq hx R.lt R'.lt R.object R'.object)
  have hself : ¬ F n' := hout n' (.inl rfl)
  refine ⟨R'.live, R'.object, Rw.settled, fun w hw => R'.walk w ((Rw.isWalk O.control O.merging.settled).1 hw),
    fun x hx => ?_,
    fun b p hp => R'.left b p (Rw.left b n' p (lt_of_op R'.reworkable.op_ne.2) R'.reworkable.op_ne.1 hself hp)⟩
  rw [Rw.keep x (lt_of_op ?_) (hout x hx), R'.same x hx]
  rw [R'.same x hx]
  unfold Graph.Footprint at hx
  simp only [mem_projections R'.lt, mem_calls R'.lt] at hx
  rcases hx with rfl | ⟨_, -, h, -⟩ | ⟨-, h, -⟩
  · rw [← R'.node]; exact R'.reworkable.op_ne.2
  · simp [h]
  · simp [h]

lemma Underway.step (L : g.Lowerable) (U : Underway g leave s (n :: todo)) (hnd : (n :: todo).Nodup)
    (h : lowerNode flavour n s = .ok u s') : Underway g leave s' todo := by
  have R := U.ready n mem_cons_self
  have D := lowerNode_done R L U.uses h
  obtain ⟨F, σ, Rw, hn, -⟩ := D.reworks
  refine ⟨Rw.orderly U.orderly, D.uses.trans U.uses, fun n' hn' => ?_, fun x hx ho => ?_⟩
  · refine D.ready U.orderly R (U.ready n' (mem_cons_of_mem _ hn')) ?_
    rintro rfl; exact (nodup_cons.1 hnd).1 hn'
  · have hlow : (s'.graph.node x).op.isLowered = false := by simp [Op.isLowered, ho]
    have hnode := Rw.old_of_op hlow
    have hxn : x ≠ n := by rintro rfl; rw [Rw.lowered x (.inl hn)] at hlow; cases hlow
    rw [mem_liveNodes, hnode] at hx
    rw [hnode] at ho
    have hb : (s.graph.node x).op ≠ .bad := by intro hb; rw [hb] at ho; cases ho
    refine (mem_cons.1 (U.objects x (mem_liveNodes.2 ⟨lt_of_op hb, hx.2.1, ?_⟩) ho)).resolve_left hxn
    simpa only [block, Rw.blocks] using hx.2.2

lemma Underway.run (L : g.Lowerable) (U : Underway g leave s todo) (hnd : todo.Nodup)
    (h : lowerNodes flavour todo s = .ok u s') : Underway g leave s' [] := by
  induction todo generalizing s with
  | nil =>
    cases h; exact U
  | cons n todo ih =>
    obtain ⟨u, s1, h1, h⟩ := bind_ok.1 h; exact ih (U.step L hnd h1) (nodup_cons.1 hnd).2 h

end Lower

namespace Graph

variable {g : Graph} {leave : BlockId → Option NodeId}

lemma Lowerable.underway (L : g.Lowerable) (O : g.Orderly leave) (im : Image) :
    Lower.Underway g leave ⟨im, g, g.uses⟩ (g.liveNodes.filter fun n => (g.node n).op.isObjectOp) where
  orderly := O
  uses := rfl
  ready n hn := by
    obtain ⟨hn, ho⟩ := mem_filter.1 hn
    exact ⟨hn, ho, L.proper.settled, fun _ h => h, fun _ _ => rfl, fun _ _ h => h⟩
  objects n hn ho := mem_filter.2 ⟨hn, ho⟩

/-- What is live in normal form was live before, with the same operation. -/
lemma Orderly.live_normalize (O : g.Orderly leave) (hn : n ∈ g.normalize.liveNodes) :
    n ∈ g.liveNodes ∧ (g.normalize.node n).op = (g.node n).op ∧ g.normalize.Reached (g.normalize.node n).block := by
  obtain ⟨M, R⟩ := O.settle
  obtain ⟨hlt, hf, hd⟩ := mem_liveNodes.1 hn
  rw [normalize, op_redirect] at hf
  rw [normalize, block_redirect, block_node_redirect] at hd
  have hop := (R.op n).resolve_right hf
  refine ⟨mem_liveNodes.2 ⟨?_, by rwa [← hop], ?_⟩, by rw [normalize, op_redirect, hop], ?_⟩
  · rwa [normalize, redirect, Has, Array.size_map, R.size] at hlt
  · rw [← R.node_block]; simpa only [block, R.blocks] using hd
  · rw [normalize, M.settled.reached_redirect, block_node_redirect]; exact R.live O.live n hd

lemma Orderly.lowered (O : g.Orderly leave)
    (ho : ∀ n ∈ g.liveNodes, (g.node n).op.isObjectOp = false) : g.normalize.Lowered := by
  obtain ⟨M, R⟩ := O.settle
  have S := M.settled
  have N : g.normalize.IsNormal := S.isNormal_redirect g.stable_settled
  have hcomplete : ∀ n ∈ g.normalize.liveNodes, (g.normalize.node n).op.isObjectOp = false := by
    intro n hn
    obtain ⟨hn, e, -⟩ := O.live_normalize hn
    rw [e]; exact ho n hn
  have L : g.normalize.Linear id _ := ((O.linear.refines O.merging.settled S R).redirect S).direct S.redirect
    fun n hn i hi => S.redirect.resolve_of_op (N.input n hn i hi)
  have hleave : ∀ n ∈ g.normalize.liveNodes, (g.normalize.node n).op.takesMemory = true →
      (g.normalize.node n).op.leavesMemory = true ∨ (g.normalize.node n).op = .ret := fun n hn h => Op.leaves_or_ret h
        (hcomplete n hn)
  exact ⟨hcomplete, fun n hn => N.input n (mem_liveNodes.1 hn).2.1, N.pred, N.keepAlive, fun n hn n' hn' hb ht ht' hh =>
    L.taken_once (O.live_normalize hn).2.2 rfl hb.symm (hleave n hn ht) (hleave n' hn' ht') hh, ⟨_, L⟩,
    fun n hn => (O.live_normalize hn).2.2, normalize_normalize S⟩

lemma Lowerable.lowered (L : g.Lowerable) {im : Image} {s' : Lowering}
    (h : lowerGraph flavour ⟨im, g, g.uses⟩ = .ok u s') : s'.graph.Lowered := by
  obtain ⟨leave, O⟩ := L.orderly
  replace h := get_bind_ok.1 h
  obtain ⟨_, s1, h1, h⟩ := bind_ok.1 h
  have U := (L.underway O im).run L (g.nodup_liveNodes.filter _) h1
  cases h
  exact U.orderly.lowered fun n hn => Bool.eq_false_iff.2 fun ho => (not_mem_nil (U.objects n hn ho)).elim

lemma Lowered.again (L : g.Lowered) (flavour : Flavour) (im : Image) :
    lowerGraph flavour ⟨im, g, g.uses⟩ = .ok () ⟨im, g, g.uses⟩ := by
  have hnone : (g.liveNodes.filter fun n => (g.node n).op.isObjectOp) = [] :=
    filter_eq_nil_iff.2 fun n hn => by simp [L.complete n hn]
  refine bind_ok.2 ⟨_, _, get_ok.2 ⟨rfl, rfl⟩, bind_ok.2 ⟨(), ⟨im, g, g.uses⟩, ?_, Lower.modifyGraph_ok.2 ?_⟩⟩
  · rw [hnone]; exact pure_ok.2 ⟨rfl, rfl⟩
  · rw [L.normal]

end Graph

end JvmGraph
