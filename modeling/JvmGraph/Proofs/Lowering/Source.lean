import JvmGraph.Proofs.Body.Threads
import JvmGraph.Proofs.Lowering.Rework

/-!
# Graphs that can be lowered

What lowering relies on, and what the graph of every translated method has: references go past forwarding nodes,
values are computed before they are used, the blocks that are not dead are those that control reaches,
a selected method is called by the node after it, and memory is handed on from block to block.
-/

namespace JvmGraph

open JvmGraph.Graph Node

namespace Graph

structure Lowerable (g : Graph) : Prop where
  orderly : ∃ leave, g.Orderly leave
  proper : g.Proper
  direct : ∀ n, (g.node n).op ≠ .forward → ∀ i ∈ (g.node n).inputs, g.resolve i = i
  selective : g.Selective

lemma Selective.map {g g' : Graph} (S : g.Selective) {r : NodeId → NodeId}
    (hop : ∀ n, (g'.node n).op.isSelection = true ∨ (g'.node n).op = .call → (g'.node n).op = (g.node n).op)
    (hnode : ∀ n, g.Has n → (g.node n).op ≠ .phi → (g.node n).op ≠ .forward → r n = n ∧
      (g'.node n).op = (g.node n).op ∧ (g'.node n).block = (g.node n).block ∧
      (g'.node n).inputs = (g.node n).inputs.map r) :
    g'.Selective := by
  -- selected methods, calls and addresses
  have kept : ∀ {n op}, (g.node n).op = op → op ≠ .bad → op ≠ .phi → op ≠ .forward → r n = n ∧ (g'.node n).op = op ∧
      (g'.node n).block = (g.node n).block ∧ (g'.node n).inputs = (g.node n).inputs.map r := by
    rintro n op rfl hb hp hf; exact hnode n (lt_of_op hb) hp hf
  refine fun n => ⟨fun e hn => ?_, fun hc => ?_⟩
  · have hn' : (g.node n).op = .methodSel e := (hop n (.inl (by rw [hn]; rfl))).symm.trans hn
    obtain ⟨h, rest, rest', hi, hco, hcb, hci⟩ := (S n).select e hn'
    obtain ⟨hrn, -, hb, hin⟩ := kept hn' (by simp) (by simp) (by simp)
    obtain ⟨-, ho', hb', hin'⟩ := kept hco (by simp) (by simp) (by simp)
    refine ⟨r h, rest.map r, rest'.map r, by simp [hin, hi], ho', by rw [hb', hb, hcb], ?_⟩
    rw [hin', hci, List.map_cons, List.map_cons, hrn]
  · have hc' : (g.node n).op = .call := (hop n (.inr hc)).symm.trans hc
    obtain ⟨h, a, rest, hi, ha⟩ := (S n).callee hc'
    obtain ⟨-, -, -, hin⟩ := kept hc' (by simp) (by simp) (by simp)
    have hra : r a = a ∧ (g'.node a).op = (g.node a).op := by
      rcases ha with ⟨e, he⟩ | ⟨hs, -⟩
      · obtain ⟨h1, h2, -⟩ := kept he (by simp) (by simp) (by simp); exact ⟨h1, h2.trans he.symm⟩
      · obtain ⟨h1, h2, -⟩ := kept rfl (fun h => by rw [h] at hs; cases hs) (fun h => by rw [h] at hs; cases hs)
          fun h => by rw [h] at hs; cases hs
        exact ⟨h1, h2⟩
    refine ⟨r h, a, rest.map r, ?_, by rwa [hra.2]⟩
    rw [hin, hi, List.map_cons, List.map_cons, hra.1]

end Graph

variable {ctx : MethodContext} {m : Method} {code : List Instruction} {t1 t2 t3 t4 t5 t' : BodyState}
  {out : List (BlockId × NodeId)} {n : Nat}

lemma Stages.selective_tidy (S : Stages ctx m code t1 t2 t3 t4 t5 t' out) (W : t5.frame.graph.Selective) :
    t'.frame.graph.tidy.Selective := by
  have G := S.unpruned
  refine W.map (r := (Unpruned.settledGraph t'.frame.graph).resolve) (fun k hk => ?_) fun k hlt hp hf => ?_
  · rcases G.op_tidy_or k with h | h
    · rw [h]
      rw [h] at hk
      exact congrArg op (S.kept (fun h => by rw [h] at hk; simp [Op.isSelection] at hk)
        (fun h => by rw [h] at hk; simp [Op.isSelection] at hk) (fun h => by rw [h] at hk; simp [Op.isSelection] at hk)
        fun h => by rw [h] at hk; simp [Op.isSelection] at hk)
    · rw [h] at hk; simp [Op.isSelection] at hk
  · have e := S.keep k hlt hp
    rw [← e] at hp hf ⊢
    exact ⟨G.resolve_settled hp hf, G.op_tidy hp, G.block_node_tidy k, G.inputs_tidy hp hf⟩

lemma Stages.lowerable (S : Stages ctx m code t1 t2 t3 t4 t5 t' out) (W : Ssa.Woven t1.frame.builder)
    (L : Layout n code) :
    t'.frame.graph.tidy.Lowerable := by
  have G := S.unpruned
  obtain ⟨P, R⟩ := G.settle
  have hr : ∀ b, t'.frame.graph.tidy.Reached b ↔ t'.frame.graph.Reached b := fun b =>
    (P.settled.reached_redirect b).trans (G.reached_settled b)
  have L' := (((S.linear W L).pruned G).refines G.settled_pruned P.settled R).redirect P.settled
  have hphi : ∀ k, (t'.frame.graph.tidy.node k).op = .phi → (t'.frame.graph.node k).op = .phi := fun k hk =>
    (G.op_tidy_or k).elim (fun h => h ▸ hk) fun h => by simp [h] at hk
  refine ⟨⟨_, P.redirect.toMerging, fun k hk => ?_, fun k hk hreach i hi => ?_, fun k hk => ?_,
    G.control_tidy S.control, L'⟩,
    P.redirect, fun k hk i hi => ?_, S.selective_tidy (S.woven W L).1.selective⟩
  · rw [G.block_node_tidy]; exact G.start_phi k (hphi k hk)
  · rw [G.size_tidy]
    rw [G.block_node_tidy, hr] at hreach; exact (G.input_tidy (by simp [hk]) hreach hi).1
  · rw [G.block_node_tidy] at hk ⊢
    rw [hr]; exact ((G.dead_tidy (G.node_block k)).1 hk).resolve_right (G.not_end k)
  · rw [Unpruned.tidy_eq] at hk hi ⊢
    rw [op_redirect] at hk
    obtain ⟨j, -, rfl⟩ := mem_inputs_redirect hi hk
    rw [P.settled.resolve_redirect, P.settled.resolve_resolve]

lemma methodGraph_lowerable {source : ClassSource} {c : ClassId} {file : ClassFile} {member : Member} {e : EntityId}
    {world world' : World} {g : Graph} (h : methodGraph source c file member e world = .ok g world') : g.Lowerable := by
  obtain ⟨m, body, ops, bs, -, -, hops, -, t1, t2, t3, t4, t5, t', out, S, hmake, -, -, -, rfl, -⟩ :=
    methodGraph_stages h
  refine S.lowerable ?_ (Instruction.layout_ofDecoded (Bytecode.decode_ascending hops))
  -- there is nothing but the start node and the first memory state yet
  obtain ⟨hn, hv, hd⟩ := Body.makeBlocks_keeps hmake
  have hnode := fun k => (node_congr hn k).trans (Ssa.Builder.node_new _ _ k)
  have hdef := fun b x => (hd b x).trans (Ssa.Builder.definition?_new _ _ b x)
  refine .blank (m := ⟨1⟩) (fun k => ?_) ?_ (congrArg op (hnode ⟨1⟩)) (congrArg inputs (hnode ⟨1⟩))
    (congrArg op (hnode ⟨0⟩)) fun b hb => ?_
  · rw [show t1.frame.builder.graph.node k = _ from hnode k]
    split
    · exact ⟨rfl, rfl⟩
    · split <;> exact ⟨rfl, rfl⟩
  · exact (hdef _ _).trans (if_pos ⟨rfl, hv⟩)
  · exact (hdef b _).trans (if_neg fun h => hb h.1)

end JvmGraph
