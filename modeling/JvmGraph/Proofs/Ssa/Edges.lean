import JvmGraph.Proofs.Ssa.Young

/-!
# Edges between blocks

What a young builder does to the control flow: it adds nodes and edges, and each edge is a new node at which
control leaves a block. `Adds` gives the edges in the order in which they are added. A block is left
through a jump or a return, or through the two sides of a condition.
-/

namespace JvmGraph

open List JvmGraph.Graph Projection Ssa.Builder

/-- A condition, both sides of which are among the edges. -/
def Graph.Splits (g : Graph) (out : List (BlockId × NodeId)) (c : NodeId) : Prop :=
  (g.node c).op = .cond ∧ ∃ taken ∈ out, ∃ fall ∈ out,
    g.node taken.2 = ⟨.proj Projection.condTrue, .control, (g.node c).block, [c]⟩ ∧
    g.node fall.2 = ⟨.proj Projection.condFalse, .control, (g.node c).block, [c]⟩

namespace Ssa

structure Adds (s s' : Builder) (out : List (BlockId × NodeId)) : Prop extends Graph.Extends s.graph s'.graph where
  preds : ∀ b, s'.preds b = s.preds b ++ (out.filter fun p => p.1 = b).map Prod.snd
  blocks_size : s'.graph.blocks.size = s.graph.blocks.size
  block_pc : ∀ b, (s'.graph.block b).pc? = (s.graph.block b).pc?
  varCount : s'.varCount = s.varCount
  sorted : (out.map fun p => p.2.index).Pairwise (· < ·)
  fresh : ∀ p ∈ out, s.graph.nodes.size ≤ p.2.index ∧ p.2.index < s'.graph.nodes.size
  exits : ∀ n, s.graph.nodes.size ≤ n.index → n.index < s'.graph.nodes.size → (s'.graph.node n).IsExit →
    n ∈ out.map Prod.snd ∨ s'.graph.Splits out n

variable {s s' s'' : Builder} {out out' : List (BlockId × NodeId)}

lemma Quiet.adds (Q : Quiet s s') : Adds s s' [] where
  toExtends := Q.toExtends
  preds b := by simp [Q.preds]
  blocks_size := by rw [Q.blocks]
  block_pc b := by rw [Q.block]
  varCount := Q.varCount
  sorted := .nil
  fresh _ h := absurd h not_mem_nil
  exits n h1 h2 hx := absurd hx (Q.fresh n h1 h2)

lemma Adds.trans (A : Adds s s' out) (A' : Adds s' s'' out') : Adds s s'' (out ++ out') where
  toExtends := A.toExtends.trans A'.toExtends
  preds b := by rw [A'.preds, A.preds, filter_append, map_append, append_assoc]
  blocks_size := A'.blocks_size.trans A.blocks_size
  block_pc b := (A'.block_pc b).trans (A.block_pc b)
  varCount := A'.varCount.trans A.varCount
  sorted := by
    rw [map_append, pairwise_append]
    refine ⟨A.sorted, A'.sorted, fun i hi j hj => ?_⟩
    obtain ⟨p, hp, rfl⟩ := mem_map.1 hi
    obtain ⟨q, hq, rfl⟩ := mem_map.1 hj
    exact lt_of_lt_of_le (A.fresh p hp).2 (A'.fresh q hq).1
  fresh p hp := by
    have h1 := A.size_le
    have h2 := A'.size_le
    rcases mem_append.1 hp with hp | hp
    · have := A.fresh p hp; omega
    · have := A'.fresh p hp; omega
  exits n h1 h2 hx := by
    by_cases hn : s'.graph.Has n
    · have e := A'.keep n hn
      rw [e] at hx
      rcases A.exits n h1 hn hx with h | ⟨ho, p, hp, q, hq, hp', hq'⟩
      · exact .inl (by rw [map_append]; exact mem_append_left _ h)
      · refine .inr ⟨by rwa [e], p, mem_append_left _ hp, q, mem_append_left _ hq, ?_, ?_⟩
        · rw [e, A'.keep _ (A.fresh p hp).2, hp']
        · rw [e, A'.keep _ (A.fresh q hq).2, hq']
    · rcases A'.exits n (by omega) h2 hx with h | ⟨ho, p, hp, q, hq, h⟩
      · exact .inl (by rw [map_append]; exact mem_append_right _ h)
      · exact .inr ⟨ho, p, mem_append_right _ hp, q, mem_append_right _ hq, h⟩

/-! ## Going elsewhere -/

lemma Young.relocate (Y : Young s) (hn : s'.graph.nodes = s.graph.nodes) (hb : s'.graph.blocks = s.graph.blocks)
    (hs : s'.states = s.states) (hv : s'.varCount = s.varCount) (hlt : s'.current.index < s.graph.blocks.size)
    (hne : s'.current ≠ endBlock) : Young s' := by
  obtain ⟨T, I⟩ := Y.inv
  have hblock : ∀ b, s'.graph.block b = s.graph.block b := fun b => by simp [block, hb]
  have hnode : ∀ n, s'.graph.node n = s.graph.node n := node_congr hn
  have hpreds : ∀ b, s'.preds b = s.preds b := fun b => by simp [preds, hblock]
  refine ⟨⟨T, I.reframe hn hpreds (by rw [hb]) hs hv⟩, fun b h => Y.matured b ?_, fun n => ?_, by rwa [hb], hne,
    fun b e he => ?_, fun b => ?_⟩
  · simpa only [isMatured, state, hs] using h
  · rw [hnode]; exact Y.no_forward n
  · rw [hpreds] at he; exact (Y.control b e he).keep (I.shape.pred_ok b e he).1 fun n _ _ => hnode n
  · rw [hblock]; exact Y.undead b

lemma Adds.relocate (hn : s'.graph.nodes = s.graph.nodes) (hb : s'.graph.blocks = s.graph.blocks)
    (hv : s'.varCount = s.varCount) : Adds s s' [] where
  toExtends := .of_nodes hn
  preds b := by simp [Builder.preds, block, hb]
  blocks_size := by rw [hb]
  block_pc b := by simp [block, hb]
  varCount := hv
  sorted := .nil
  fresh _ h := absurd h not_mem_nil
  exits n h1 h2 := absurd h2 (by rw [hn]; exact not_lt.2 h1)

lemma Young.stop (Y : Young s) : Young { s with current? := none } := by
  obtain ⟨T, I⟩ := Y.inv
  exact Y.relocate rfl rfl rfl rfl (lt_trans zero_lt_one I.shape.blocks_pos) (show startBlock ≠ endBlock by decide)

lemma Adds.stop (A : Adds s s' out) : Adds s { s' with current? := none } out := by
  have A' : Adds s' { s' with current? := none } [] := .relocate rfl rfl rfl
  simpa using A.trans A'

/-! ## One more predecessor -/

lemma Young.addPred (Y : Young s) {b : BlockId} {e : NodeId} (hb : s.graph.HasBlock b)
    (hs : b ≠ Graph.startBlock) (he : s.graph.Has e) (hc : s.graph.IsControl e) :
    Young { s with graph := s.graph.addPred b e } := by
  obtain ⟨T, I⟩ := Y.inv
  have hm : s.isMatured b = false := by rw [← Bool.not_eq_true]; exact fun h => hs (Y.matured b h)
  refine ⟨⟨T, I.addPred hb hm he hc.op_ne.1 hc.op_ne.2⟩, Y.matured, Y.no_forward, ?_, Y.current_ne,
    fun c i hi => ?_, fun c => ?_⟩
  · simpa [Graph.addPred, current] using Y.current_lt
  · have hi' : i ∈ if c = b then (s.graph.block c).preds ++ [e] else (s.graph.block c).preds := by
      rwa [← preds_addPred s.graph hb]
    have hold : s.graph.IsControl i := by
      split at hi'
      · rcases mem_append.1 hi' with h | h
        · exact Y.control c i h
        · rwa [mem_singleton.1 h]
      · exact Y.control c i hi'
    exact hold
  · simp only [Graph.addPred, Graph.block_setBlock]
    split
    · exact Y.undead b
    · exact Y.undead c

lemma block_addPred (g : Graph) (b : BlockId) (e : NodeId) (c : BlockId) :
    ((g.addPred b e).block c).pc? = (g.block c).pc? := by
  rw [Graph.addPred, Graph.block_setBlock]
  split
  · rename_i h; rw [h.1]
  · rfl

/-! ## Leaving a block -/

def Builder.leaving (s : Builder) (op : Op) (inputs : List NodeId) (b : BlockId) : Builder :=
  { s with graph := (s.place s.current op .control inputs).graph.addPred b s.graph.fresh }

section Leaving

variable {op : Op} {inputs : List NodeId} {b : BlockId}

lemma Builder.node_leaving (s : Builder) (op : Op) (inputs : List NodeId) (b : BlockId) :
    (s.leaving op inputs b).graph.node s.graph.fresh = ⟨op, .control, s.current, inputs⟩ :=
  s.node_place_new s.current op .control inputs

lemma Young.leaving (Y : Young s) (ho : op = .jmp ∨ op = .ret) (hi : ∀ i ∈ inputs, s.Near i)
    (hb : s.graph.HasBlock b) (hs : b ≠ startBlock) : Young (s.leaving op inputs b) := by
  have Y1 : Young (s.place s.current op .control inputs) :=
    Y.place .control (.inl rfl) (by rcases ho with rfl | rfl <;> simp) (by rcases ho with rfl | rfl <;> simp) hi
  refine Y1.addPred hb hs (by simp [Builder.place]) ?_
  unfold Graph.IsControl
  rw [Builder.node_place_new]
  exact ho.imp_right .inl

lemma Builder.adds_leaving (s : Builder) (op : Op) (inputs : List NodeId) (hb : s.graph.HasBlock b) :
    Adds s (s.leaving op inputs b) [(b, s.graph.fresh)] where
  toExtends := .trans (.add s.graph s.current op .control inputs) (.of_nodes rfl)
  preds c := by
    refine (preds_addPred _ hb c).trans ?_
    simp only [filter_cons, filter_nil]
    by_cases hc : c = b
    · subst hc; simp only; rfl
    · simp only [if_neg hc, decide_eq_false (Ne.symm hc), Bool.false_eq_true, if_false, map_nil, append_nil]
      rfl
  blocks_size := by simp [leaving, place, Graph.addPred, Graph.add]
  block_pc c := block_addPred _ b _ c
  varCount := rfl
  sorted := pairwise_singleton _ _
  fresh p hp := by
    rw [mem_singleton.1 hp]; exact ⟨le_refl _, by simp [leaving, place, Graph.addPred, Graph.setBlock]⟩
  exits n h1 h2 _ := by
    have h2' : n.index < (s.place s.current op .control inputs).graph.nodes.size := h2
    rw [eq_of_fresh h1 h2']; exact .inl (by simp)

end Leaving

/-! ## Coming to a block -/

/-- Control comes to the beginning of `b`, from above if there is a current block. -/
def Builder.entering (s : Builder) (b : BlockId) : Builder :=
  match s.current? with
  | some c => if c = b then s else { s.leaving .jmp [] b with current? := some b }
  | none => { s with current? := some b }

def Builder.intoEdges (s : Builder) (b : BlockId) : List (BlockId × NodeId) :=
  match s.current? with
  | some c => if c = b then [] else [(b, s.graph.fresh)]
  | none => []

section Entering

variable {b : BlockId}

lemma Builder.current_entering (s : Builder) (b : BlockId) : (s.entering b).current? = some b := by
  unfold entering
  split
  · rename_i c hc
    split
    · rename_i h; rw [hc, h]
    · rfl
  · rfl

lemma Builder.states_entering (s : Builder) (b : BlockId) : (s.entering b).states = s.states := by
  unfold entering
  split
  · split <;> rfl
  · rfl

lemma Builder.bads_entering (s : Builder) (b : BlockId) : (s.entering b).graph.bads = s.graph.bads := by
  unfold entering
  split
  · split <;> rfl
  · rfl

lemma Young.entering (Y : Young s) (hb : s.graph.HasBlock b) (hne : b ≠ endBlock)
    (hs : b = startBlock → s.current? = some b) : Young (s.entering b) := by
  unfold Builder.entering
  cases hc : s.current? with
  | none => exact Y.relocate rfl rfl rfl rfl hb hne
  | some c =>
    by_cases h : c = b
    · simpa only [h, if_true] using Y
    · have hstart : b ≠ startBlock := fun hb => h (by simpa [hc] using hs hb)
      have Y' : Young (s.leaving .jmp [] b) := Y.leaving (.inl rfl) (by simp) hb hstart
      simp only [h]
      refine Y'.relocate rfl rfl rfl rfl ?_ hne
      rwa [(s.adds_leaving .jmp [] hb).blocks_size]

lemma Builder.adds_entering (s : Builder) (hb : s.graph.HasBlock b) :
    Adds s (s.entering b) (s.intoEdges b) := by
  unfold entering intoEdges
  cases s.current? with
  | none => exact .relocate rfl rfl rfl
  | some c =>
    by_cases h : c = b
    · simpa only [h, if_true] using (Quiet.refl s).adds
    · have A : Adds (s.leaving .jmp [] b) { s.leaving .jmp [] b with current? := some b } [] :=
        .relocate rfl rfl rfl
      simp only [h]; exact (s.adds_leaving .jmp [] hb).trans A

end Entering

/-! ## Splitting in two -/

def Builder.sides (s : Builder) (cmp : NodeId) : Builder :=
  ((s.place s.current .cond .tuple [cmp]).place s.current (.proj Projection.condTrue) .control
    [s.graph.fresh]).place s.current (.proj Projection.condFalse) .control [s.graph.fresh]

/-- The current block is left through the two sides of a new condition. -/
def Builder.splitting (s : Builder) (cmp : NodeId) (taken fall : BlockId) : Builder :=
  let n := s.graph.nodes.size
  { s with graph := ((s.sides cmp).graph.addPred taken ⟨n + 1⟩).addPred fall ⟨n + 2⟩ }

section Splitting

variable {cmp : NodeId} {taken fall : BlockId}

lemma Builder.size_splitting (s : Builder) (cmp : NodeId) (taken fall : BlockId) :
    (s.splitting cmp taken fall).graph.nodes.size = s.graph.nodes.size + 3 := by
  simp [splitting, sides, place, Graph.addPred, Graph.setBlock]

lemma Builder.extends_splitting (s : Builder) (cmp : NodeId) (taken fall : BlockId) :
    s.graph.Extends (s.splitting cmp taken fall).graph :=
  ((Graph.Extends.add _ _ _ _ _).trans (.add _ _ _ _ _)).trans ((Graph.Extends.add _ _ _ _ _).trans (.of_nodes rfl))

section

variable (s : Builder) (cmp : NodeId) (taken fall : BlockId)

lemma Builder.node_splitting_cond :
    (s.splitting cmp taken fall).graph.node s.graph.fresh = ⟨.cond, .tuple, s.current, [cmp]⟩ := by
  refine (node_place_old ?_).trans ((node_place_old ?_).trans (s.node_place_new _ _ _ _))
  · simp only [Has, place, size_add]; omega
  · simp [place]

lemma Builder.node_splitting_taken : (s.splitting cmp taken fall).graph.node ⟨s.graph.nodes.size + 1⟩ =
      ⟨.proj condTrue, .control, s.current, [s.graph.fresh]⟩ := by
  have e := (s.place s.current .cond .tuple [cmp]).node_place_new s.current (.proj condTrue) .control
    [s.graph.fresh]
  rw [show (s.place s.current .cond .tuple [cmp]).graph.fresh = ⟨s.graph.nodes.size + 1⟩ by simp [place, fresh]] at e
  exact (node_place_old (by simp [place])).trans e

lemma Builder.node_splitting_fall : (s.splitting cmp taken fall).graph.node ⟨s.graph.nodes.size + 2⟩ =
      ⟨.proj condFalse, .control, s.current, [s.graph.fresh]⟩ := by
  have e := ((s.place s.current .cond .tuple [cmp]).place s.current (.proj condTrue) .control
    [s.graph.fresh]).node_place_new s.current (.proj condFalse) .control [s.graph.fresh]
  rwa [show ((s.place s.current .cond .tuple [cmp]).place s.current (.proj condTrue) .control
    [s.graph.fresh]).graph.fresh = ⟨s.graph.nodes.size + 2⟩ by simp [place, fresh]] at e

end

lemma Young.splitting (Y : Young s) (hcmp : s.Near cmp) (ht : s.graph.HasBlock taken)
    (ht' : taken ≠ Graph.startBlock) (hf : s.graph.HasBlock fall) (hf' : fall ≠ Graph.startBlock) :
    Young (s.splitting cmp taken fall) := by
  have near : ∀ {s : Builder} {i : NodeId}, s.Near i → ∀ j ∈ [i], s.Near j := by
    intro s i h j hj; rwa [mem_singleton.1 hj]
  have hc := s.near_place .cond .tuple [cmp] (.inl rfl)
  have Y1 : Young (s.place s.current .cond .tuple [cmp]) := Y.place .tuple (.inl rfl) (by simp) (by simp) (near hcmp)
  have Y2 : Young ((s.place s.current .cond .tuple [cmp]).place s.current (.proj condTrue) .control
    [s.graph.fresh]) := Y1.place .control (.inl rfl) (by simp) (by simp) (near hc)
  have Y3 : Young (s.sides cmp) := Y2.place .control (.inl rfl) (by simp) (by simp)
    (near ((Steady.place _ _ _ _ _).near hc))
  have hcond := s.node_splitting_cond cmp taken fall
  -- the sides are control nodes from the moment they are placed
  have Y4 := Y3.addPred (e := ⟨s.graph.nodes.size + 1⟩) ht ht' (by simp [Builder.sides, Builder.place])
    (.inr (.inr ⟨_, _, congrArg Node.op (s.node_splitting_taken cmp taken fall),
      congrArg Node.inputs (s.node_splitting_taken cmp taken fall), congrArg Node.op hcond⟩))
  exact Y4.addPred (by simpa [Graph.addPred, Builder.sides, Builder.place, Graph.add] using hf) hf'
    (by simp [Builder.sides, Builder.place, Graph.addPred, Graph.setBlock])
    (.inr (.inr ⟨_, _, congrArg Node.op (s.node_splitting_fall cmp taken fall),
      congrArg Node.inputs (s.node_splitting_fall cmp taken fall), congrArg Node.op hcond⟩))

lemma Builder.adds_splitting (s : Builder) (cmp : NodeId) (ht : s.graph.HasBlock taken)
    (hf : s.graph.HasBlock fall) : Adds s (s.splitting cmp taken fall)
      [(taken, ⟨s.graph.nodes.size + 1⟩), (fall, ⟨s.graph.nodes.size + 2⟩)] where
  toExtends := s.extends_splitting cmp taken fall
  preds c := by
    refine (preds_addPred _ (by simpa [Graph.addPred, sides, place, Graph.add] using hf) c).trans ?_
    rw [preds_addPred _ (by simpa [sides, place, Graph.add] using ht) c]
    show (if c = fall then (if c = taken then s.preds c ++ _ else s.preds c) ++ _
      else if c = taken then s.preds c ++ _ else s.preds c) = _
    by_cases h1 : taken = c <;> by_cases h2 : fall = c <;> simp [h1, h2, eq_comm (a := c)]
  blocks_size := by simp [splitting, sides, place, Graph.addPred, Graph.add]
  block_pc c := (block_addPred _ fall _ c).trans (block_addPred _ taken _ c)
  varCount := rfl
  sorted := by simp
  fresh p hp := by
    rw [size_splitting]
    rcases mem_cons.1 hp with rfl | hp
    · exact ⟨by simp, by simp⟩
    · rw [mem_singleton.1 hp]; exact ⟨by simp, by simp⟩
  exits n h1 h2 _ := by
    rw [size_splitting] at h2
    obtain ⟨k⟩ := n
    have hk : k = s.graph.nodes.size ∨ k = s.graph.nodes.size + 1 ∨ k = s.graph.nodes.size + 2 := by
      simp only at h1 h2; omega
    rcases hk with rfl | rfl | rfl
    · have hcond := s.node_splitting_cond cmp taken fall
      refine .inr ⟨by rw [hcond], _, (.head _), _, .tail _ (.head _), ?_, ?_⟩
      · rw [hcond]; exact s.node_splitting_taken cmp taken fall
      · rw [hcond]; exact s.node_splitting_fall cmp taken fall
    · exact .inl (by simp)
    · exact .inl (by simp)

end Splitting

end Ssa

end JvmGraph
