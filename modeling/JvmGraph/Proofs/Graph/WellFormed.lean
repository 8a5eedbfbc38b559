import JvmGraph.MethodBody.Assembly
import JvmGraph.Proofs.Graph.Pruning

/-!
# Well-formed graphs

What is left of a graph in the end: the blocks that stay are those that a walk leads to and the end block,
they keep the edges that come from such blocks, and only Phis and references to forwarding nodes
change. Nothing that stays refers to what was dropped or to a forwarding node.
-/

namespace JvmGraph.Graph

open List

variable {n : NodeId} {b : BlockId} {g : Graph} {e : NodeId}

/-- A node that an edge between blocks can be: a jump, a return, or one side of a condition. -/
def IsControl (g : Graph) (n : NodeId) : Prop :=
  (g.node n).op = .jmp ∨ (g.node n).op = .ret ∨
    ∃ number c, (g.node n).op = .proj number ∧ (g.node n).inputs = [c] ∧ (g.node c).op = .cond

def Stands (g : Graph) (n : NodeId) : Prop :=
  n.index < g.nodes.size ∧ (g.node n).block.index < g.blocks.size ∧ (g.block (g.node n).block).dead = false

structure WellFormed (g : Graph) : Prop where
  /-- What leads to a block is a control node of a block that was not dropped either. -/
  pred : ∀ b, (g.block b).dead = false → ∀ e ∈ (g.block b).preds, g.IsControl e ∧ g.Stands e
  /-- A Phi has an operand for every predecessor. -/
  arity : ∀ n, g.Stands n → (g.node n).op = .phi →
    (g.node n).inputs.length = (g.block (g.node n).block).preds.length
  /-- What is used stands, and does not forward. -/
  input : ∀ n, g.Stands n → (g.node n).op ≠ .forward → ∀ i ∈ (g.node n).inputs, g.Stands i ∧ (g.node i).op ≠ .forward
  pred_op : ∀ b, ∀ e ∈ (g.block b).preds, (g.node e).op ≠ .forward
  keepAlive_op : ∀ n ∈ g.keepAlives, (g.node n).op ≠ .forward

lemma IsWalk.reached_of_mem : ∀ {w : Walk} {b : BlockId}, g.IsWalk w → b ∈ w.blocks → g.Reached b
  | [], b, _, hb => by
    rw [mem_singleton.1 hb]; exact ⟨[], trivial, rfl⟩
  | (c, k) :: w, b, hw, hb => by
    rw [Walk.blocks_cons, mem_cons] at hb
    rcases hb with rfl | hb
    · exact ⟨_, hw, rfl⟩
    · exact hw.2.reached_of_mem hb

lemma Avail.reached (ha : g.Avail b n) (hr : g.Reached b) : g.Reached (g.node (g.resolve n)).block := by
  obtain ⟨w, hw, hlast⟩ := hr
  exact hw.reached_of_mem (ha w hw hlast).mem_blocks

lemma IsControl.op_ne (h : g.IsControl n) : (g.node n).op ≠ .phi ∧ (g.node n).op ≠ .forward := by
  rcases h with h | h | ⟨k, c, h, -⟩ <;> rw [h] <;> exact ⟨by simp, by simp⟩

lemma IsControl.keep {g' : Graph} (h : g.IsControl e) (he : g.Has e)
    (keep : ∀ n : NodeId, g.Has n → (g.node n).op ≠ .phi → g'.node n = g.node n) : g'.IsControl e := by
  have hop := h.op_ne.1
  unfold IsControl at h ⊢
  rw [keep e he hop]
  refine h.imp_right (Or.imp_right fun ⟨k, c, hk, hi, hc⟩ => ⟨k, c, hk, hi, ?_⟩)
  rwa [keep c (lt_of_op_eq hc) (by rw [hc]; simp)]

namespace Unpruned

/-- The graph before references go past forwarding nodes. -/
abbrev settledGraph (g : Graph) : Graph := settlePhis g.pruned.nodes.size g.pruned

lemma settle (G : g.Unpruned) : (settledGraph g).Proper ∧ g.pruned.Refines (settledGraph g) := by
  obtain ⟨-, R⟩ := settlePhis_refines g.pruned.nodes.size G.proper_pruned.toMerging G.linked_pruned
  exact ⟨R.proper G.proper_pruned, R⟩

lemma tidy_eq (g : Graph) : g.tidy = (settledGraph g).redirect := rfl

section

variable (G : g.Unpruned) {i : NodeId}

include G

lemma node_settled (h : (g.node n).op ≠ .phi) : (settledGraph g).node n = g.node n := by
  rw [G.settle.2.keep n (by rwa [G.op_pruned]), G.node_pruned_of_op h]

lemma op_tidy (h : (g.node n).op ≠ .phi) : (g.tidy.node n).op = (g.node n).op := by
  rw [tidy_eq, op_redirect, G.node_settled h]

lemma op_tidy_or (n : NodeId) : (g.tidy.node n).op = (g.node n).op ∨ (g.tidy.node n).op = .forward := by
  rw [tidy_eq, op_redirect, ← G.op_pruned]
  exact G.settle.2.op n

lemma block_node_tidy (n : NodeId) : (g.tidy.node n).block = (g.node n).block := by
  rw [tidy_eq, block_node_redirect, G.settle.2.node_block, G.block_node_pruned]

lemma inputs_tidy (h : (g.node n).op ≠ .phi) (hf : (g.node n).op ≠ .forward) :
    (g.tidy.node n).inputs = (g.node n).inputs.map (settledGraph g).resolve := by
  rw [tidy_eq, inputs_redirect (by rwa [G.node_settled h]), G.node_settled h]

lemma resolve_settled (h : (g.node n).op ≠ .phi) (hf : (g.node n).op ≠ .forward) : (settledGraph g).resolve n = n :=
  G.settle.1.settled.resolve_of_op (by rwa [G.node_settled h])

lemma size_tidy : g.tidy.nodes.size = g.nodes.size := by
  have h : g.tidy.nodes.size = (settledGraph g).nodes.size := by simp [tidy_eq, redirect]
  rw [h, G.settle.2.size, size_pruned]

lemma blocks_size_tidy : g.tidy.blocks.size = g.blocks.size := by
  have h : g.tidy.blocks.size = (settledGraph g).blocks.size := by simp [tidy_eq, redirect]
  rw [h, G.settle.2.blocks, blocks_size_pruned]

lemma block_settled (b : BlockId) : (settledGraph g).block b = g.pruned.block b := by
  simp [block, G.settle.2.blocks]

lemma preds_tidy_eq (b : BlockId) : (g.tidy.block b).preds = (g.pruned.block b).preds := by
  rw [tidy_eq, block_redirect, G.block_settled]
  refine (map_congr_left fun e he => ?_).trans (map_id _)
  obtain ⟨-, hp, hf⟩ := G.pred_ok b e (G.preds_subset_pruned he)
  exact G.resolve_settled hp hf

lemma preds_tidy (hb : g.Reached b ∨ b = endBlock) : (g.tidy.block b).preds = (g.block b).preds.filter g.alive := by
  rw [G.preds_tidy_eq, G.block_pruned, if_pos ((G.has_seen b).2 hb)]

lemma pc_tidy (b : BlockId) : (g.tidy.block b).pc? = (g.block b).pc? := by
  rw [tidy_eq, block_redirect, G.block_settled, G.block_pruned]
  split
  · rfl
  · split <;> rfl

lemma dead_tidy (hb : g.HasBlock b) : (g.tidy.block b).dead = false ↔ g.Reached b ∨ b = endBlock := by
  rw [← G.dead_pruned hb, tidy_eq, block_redirect, G.block_settled]

lemma stands_tidy (hn : g.Has n) : g.tidy.Stands n ↔ g.Reached (g.node n).block := by
  rw [Stands, G.size_tidy, G.blocks_size_tidy, G.block_node_tidy, G.dead_tidy (G.node_block n)]
  exact ⟨fun h => h.2.2.resolve_right (G.not_end n), fun h => ⟨hn, G.node_block n, .inl h⟩⟩

lemma reached_settled (b : BlockId) : (settledGraph g).Reached b ↔ g.Reached b :=
  (G.settle.2.reached b).trans (G.reached_pruned b)

lemma input_settled (hf : ((settledGraph g).node n).op ≠ .forward)
    (hr : g.Reached (g.node n).block) (hi : i ∈ ((settledGraph g).node n).inputs) :
    g.Has i ∧ g.Reached ((settledGraph g).node ((settledGraph g).resolve i)).block := by
  obtain ⟨P, R⟩ := G.settle
  have hblock : ((settledGraph g).node n).block = (g.node n).block := (R.node_block n).trans (G.block_node_pruned n)
  have hr' : (settledGraph g).Reached ((settledGraph g).node n).block := by
    rwa [hblock, G.reached_settled]
  have hlt := R.input_lt P.settled hi fun j hj =>
    lt_of_lt_of_eq (G.input_lt n hr j (G.inputs_subset_pruned hj)) (size_pruned g).symm
  rw [Has, R.size, size_pruned] at hlt
  refine ⟨hlt, ?_⟩
  rw [← G.reached_settled]
  by_cases hp : ((settledGraph g).node n).op = .phi
  · obtain ⟨k, hk, rfl⟩ := getElem_of_mem hi
    have hk' : k < ((settledGraph g).block ((settledGraph g).node n).block).preds.length := P.arity n hp hr' ▸ hk
    obtain ⟨e, he⟩ : ∃ e, ((settledGraph g).block ((settledGraph g).node n).block).preds[k]? = some e :=
      ⟨_, List.getElem?_eq_getElem hk'⟩
    refine (P.operands n hp k _ _ (List.getElem?_eq_getElem hk) he).reached ?_
    -- the edge of the operand comes from a block that stays
    have hmem := mem_of_getElem? he
    rw [G.block_settled, hblock, G.preds_pruned hr, mem_filter] at hmem
    obtain ⟨-, hop, hof⟩ := G.pred_ok _ _ hmem.1
    have halive := (G.seen_block _).1 hmem.2
    rw [G.settled.resolve_of_op hof] at halive
    rwa [G.reached_settled, predBlock, G.resolve_settled hop hof, G.node_settled hop]
  · exact (P.uses n hp hf i hi).reached hr'

lemma input_tidy (hf : (g.tidy.node n).op ≠ .forward) (hr : g.Reached (g.node n).block)
    (hi : i ∈ (g.tidy.node n).inputs) : g.Has i ∧ g.Reached (g.node i).block := by
  obtain ⟨P, R⟩ := G.settle
  rw [tidy_eq, op_redirect] at hf
  obtain ⟨j, hj, rfl⟩ := mem_inputs_redirect (tidy_eq g ▸ hi) hf
  obtain ⟨hlt, hrj⟩ := G.input_settled hf hr hj
  have hsize : (settledGraph g).nodes.size = g.nodes.size := R.size.trans (size_pruned g)
  refine ⟨lt_of_lt_of_eq (P.settled.resolve_lt (lt_of_lt_of_eq hlt hsize.symm)) hsize, ?_⟩
  rwa [R.node_block, G.block_node_pruned] at hrj

lemma mem_preds_of_tidy (he : e ∈ (g.tidy.block b).preds) : e ∈ (g.block b).preds :=
  G.preds_subset_pruned (G.preds_tidy_eq b ▸ he)

lemma control_tidy (hc : ∀ b, ∀ e ∈ (g.block b).preds, g.IsControl e) (b : BlockId) (e : NodeId)
    (he : e ∈ (g.tidy.block b).preds) : g.tidy.IsControl e := by
  have hold := hc b e (G.mem_preds_of_tidy he)
  obtain ⟨hp, hf⟩ := hold.op_ne
  rcases hold with h | h | ⟨k, c, h, hi, ho⟩
  · exact .inl (by rw [G.op_tidy hp, h])
  · exact .inr (.inl (by rw [G.op_tidy hp, h]))
  · refine .inr (.inr ⟨k, c, by rw [G.op_tidy hp, h], ?_, by rw [G.op_tidy (by simp [ho]), ho]⟩)
    rw [G.inputs_tidy hp hf, hi, map_singleton, G.resolve_settled (by simp [ho]) (by simp [ho])]

lemma wellFormed (hc : ∀ b, ∀ e ∈ (g.block b).preds, g.IsControl e) : g.tidy.WellFormed := by
  obtain ⟨P, R⟩ := G.settle
  have reached : ∀ {n}, g.tidy.Stands n → g.Reached (g.node n).block := fun hn =>
    (G.stands_tidy (lt_of_lt_of_eq hn.1 G.size_tidy)).1 hn
  refine ⟨fun b hb e he => ⟨G.control_tidy hc b e he, ?_⟩, fun n hn hp => ?_, fun n hn hf i hi => ?_, fun b e he => ?_,
    fun n hn => ?_⟩
  · obtain ⟨hlt, -, hof⟩ := G.pred_ok b e (G.mem_preds_of_tidy he)
    have hb' := (G.dead_tidy (lt_of_mem_preds (G.mem_preds_of_tidy he))).1 hb
    rw [G.preds_tidy hb', mem_filter] at he
    have halive := (G.seen_block _).1 he.2
    rw [G.settled.resolve_of_op hof] at halive; exact (G.stands_tidy hlt).2 halive
  · have hr := reached hn
    rw [tidy_eq, op_redirect] at hp
    have hblock : ((settledGraph g).node n).block = (g.node n).block := (R.node_block n).trans (G.block_node_pruned n)
    have hlen := P.arity n hp (by rwa [hblock, G.reached_settled])
    rw [hblock, G.block_settled] at hlen
    rw [G.block_node_tidy, G.preds_tidy_eq, ← hlen, tidy_eq, inputs_redirect (by simp [hp]), length_map]
  · obtain ⟨hlt, hr⟩ := G.input_tidy hf (reached hn) hi
    refine ⟨(G.stands_tidy hlt).2 hr, ?_⟩
    rw [tidy_eq, op_redirect] at hf ⊢
    obtain ⟨j, -, rfl⟩ := mem_inputs_redirect (tidy_eq g ▸ hi) hf; exact P.settled.op_resolve j
  · exact (G.control_tidy hc b e he).op_ne.2
  · obtain ⟨m, -, rfl⟩ := mem_map.1 (show n ∈ (settledGraph g).keepAlives.map (settledGraph g).resolve from hn)
    rw [tidy_eq, op_redirect]; exact P.settled.op_resolve m

end

end Unpruned

end JvmGraph.Graph
