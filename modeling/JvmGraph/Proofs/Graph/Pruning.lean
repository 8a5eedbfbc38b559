import JvmGraph.Proofs.Graph.Normal
import JvmGraph.Proofs.Graph.Reachable

/-!
# Dropping what control cannot reach

The walks through a graph are those through what is left of it, with the positions of the predecessors
counted anew. The blocks that stay are those that a walk leads to, and the end block. What is left is
proper, and every value is what it was.
-/

namespace JvmGraph.Graph

open List

variable {b : BlockId} {n : NodeId}

/-! ## Keeping flagged items -/

section KeepFlagged

variable {α : Type}

lemma keepFlagged_cons (keep : Bool) (flags : List Bool) (a : α) (items : List α) :
    keepFlagged (keep :: flags) (a :: items) = if keep then a :: keepFlagged flags items
    else keepFlagged flags items := by
  cases keep <;> rfl

lemma keepFlagged_map (f : α → Bool) : ∀ items : List α, keepFlagged (items.map f) items = items.filter f
  | [] => rfl
  | a :: items => by
    rw [map_cons, keepFlagged_cons, keepFlagged_map f items, filter_cons]

lemma keepFlagged_zip {β : Type} (f : β → Bool) (items : List α) (keys : List β) :
    keepFlagged (keys.map f) items = ((items.zip keys).filter fun p => f p.2).map Prod.fst := by
  rw [keepFlagged, zip_map_right, filterMap_map, ← filterMap_eq_map, filterMap_filter]
  exact filterMap_congr fun p _ => rfl

lemma keepFlagged_of_all : ∀ {flags : List Bool} {items : List α}, flags.all id = true → items.length = flags.length →
    keepFlagged flags items = items
  | [], [], _, _ => rfl
  | keep :: flags, a :: items, hall, hlen => by
    simp only [all_cons, id_eq, Bool.and_eq_true] at hall
    rw [keepFlagged_cons, if_pos hall.1, keepFlagged_of_all hall.2 (by simpa using hlen)]

lemma length_keepFlagged : ∀ {flags : List Bool} {items : List α}, items.length = flags.length →
    (keepFlagged flags items).length = flags.count true
  | [], [], _ => rfl
  | keep :: flags, a :: items, hlen => by
    have ih : (keepFlagged flags items).length = flags.count true := length_keepFlagged (by simpa using hlen)
    cases keep
    · rw [keepFlagged_cons, if_neg (by simp), ih, count_cons_of_ne (by simp)]
    · rw [keepFlagged_cons, if_pos rfl, length_cons, ih, count_cons_self]

lemma mem_of_mem_keepFlagged : ∀ {flags : List Bool} {items : List α} {a : α}, a ∈ keepFlagged flags items → a ∈ items
  | [], _, _, h => by simp [keepFlagged] at h
  | _ :: _, [], _, h => by simp [keepFlagged] at h
  | keep :: flags, b :: items, a, h => by
    cases keep
    · exact .tail _ (mem_of_mem_keepFlagged h)
    · rcases mem_cons.1 h with rfl | h
      · exact (.head _)
      · exact .tail _ (mem_of_mem_keepFlagged h)

/-- The position that the item at position `k` has among those that are kept. -/
def rank (flags : List Bool) (k : Nat) : Nat := (flags.take k).count true

lemma getElem?_keepFlagged : ∀ {flags : List Bool} {items : List α} {k : Nat}, flags[k]? = some true →
    (keepFlagged flags items)[rank flags k]? = items[k]?
  | [], _, _, h => by simp at h
  | keep :: flags, [], k, _ => by simp [keepFlagged]
  | keep :: flags, a :: items, 0, h => by
    simp only [getElem?_cons_zero, Option.some.injEq] at h
    simp [keepFlagged_cons, h, rank]
  | keep :: flags, a :: items, k + 1, h => by
    have ih : (keepFlagged flags items)[rank flags k]? = items[k]? := getElem?_keepFlagged (by simpa using h)
    rw [keepFlagged_cons, getElem?_cons_succ, ← ih]
    cases keep
    · simp [rank]
    · simp [rank]

lemma exists_of_getElem?_keepFlagged : ∀ {flags : List Bool} {items : List α} {j : Nat} {a : α},
    (keepFlagged flags items)[j]? = some a → ∃ k, flags[k]? = some true ∧ rank flags k = j ∧ items[k]? = some a
  | [], _, _, _, h => by simp [keepFlagged] at h
  | _ :: _, [], _, _, h => by simp [keepFlagged] at h
  | false :: flags, b :: items, j, a, h => by
    rw [keepFlagged_cons] at h
    obtain ⟨k, h1, h2, h3⟩ := exists_of_getElem?_keepFlagged h
    exact ⟨k + 1, by simpa using h1, by simpa [rank] using h2, by simpa using h3⟩
  | true :: flags, b :: items, 0, a, h => by
    exact ⟨0, rfl, rfl, h⟩
  | true :: flags, b :: items, j + 1, a, h => by
    rw [keepFlagged_cons] at h
    obtain ⟨k, h1, h2, h3⟩ := exists_of_getElem?_keepFlagged h
    exact ⟨k + 1, by simpa using h1, by simpa [rank] using h2, by simpa using h3⟩

end KeepFlagged

/-- Nodes lie in blocks of the graph, one of which is the end block. -/
structure Placed (g : Graph) : Prop where
  end_lt : endBlock.index < g.blocks.size
  node_block : ∀ n, (g.node n).block.index < g.blocks.size

/-- A graph from which nothing has been dropped. -/
structure Intact (g : Graph) : Prop extends g.Placed where
  undead : ∀ b, (g.block b).dead = false
  aligned : ∀ n, (g.node n).op = .phi → g.Reached (g.node n).block ∨ (g.node n).block = endBlock →
    (g.node n).inputs.length = (g.block (g.node n).block).preds.length

/-- It is proper, has no nodes in its end block and no Phis in its start block, and refers to nodes that are there. -/
structure Unpruned (g : Graph) : Prop extends g.Proper, g.Intact where
  not_end : ∀ n, (g.node n).block ≠ endBlock
  start_phi : ∀ n, (g.node n).op = .phi → (g.node n).block ≠ startBlock
  pred_ok : ∀ b, ∀ e ∈ (g.block b).preds,
    e.index < g.nodes.size ∧ (g.node e).op ≠ .phi ∧ (g.node e).op ≠ .forward
  input_lt : ∀ n, g.Reached (g.node n).block → ∀ i ∈ (g.node n).inputs, i.index < g.nodes.size

def seen (g : Graph) : Marks := g.reachable.insert endBlock.index

/-- Whether an edge comes from a block that stays. -/
def alive (g : Graph) (e : NodeId) : Bool := g.seen.has (g.predBlock e).index

/-- What is left when the blocks that control cannot reach are dropped. -/
abbrev pruned (g : Graph) : Graph := g.removeUnreachable.2

/-! ## What dropping does to blocks and nodes -/

section Pruned

variable {g : Graph}

lemma block_bury (g : Graph) (b : BlockId) : (g.bury g.seen).block b =
    if g.seen.has b.index ∨ g.blocks.size ≤ b.index then g.block b else { g.block b with dead := true } := by
  simp only [bury, block, Array.getD_eq_getD_getElem?, Array.getElem?_mapIdx]
  by_cases hb : g.HasBlock b
  · rw [Array.getElem?_eq_getElem hb]
    by_cases hs : g.seen.has b.index = true <;> simp [not_le.2 hb]
  · simp [not_lt.1 hb]

lemma predBlock_bury (g : Graph) (e : NodeId) : (g.bury g.seen).predBlock e = g.predBlock e := by
  have hn : (g.bury g.seen).nodes = g.nodes := rfl
  rw [predBlock, predBlock, resolve_of_nodes hn, node_congr hn]

lemma preds_bury (g : Graph) (b : BlockId) : ((g.bury g.seen).block b).preds = (g.block b).preds := by
  rw [block_bury]
  split <;> rfl

lemma block_detach (g : Graph) (s : Marks) (b : BlockId) :
    (g.detach s).block b = if s.has b.index then g.detachBlock b (g.block b) else g.block b := by
  simp only [detach, block, Array.getD_eq_getD_getElem?, Array.getElem?_mapIdx]
  cases hb : g.blocks[b.index]? with
  | some _ => rfl
  | none =>
    simp [detachBlock, keepFlagged]

lemma node_detach (g : Graph) (s : Marks) (n : NodeId) : (g.detach s).node n =
    if (g.node n).op = .phi && s.has (g.node n).block.index then g.detachPhi (g.node n) else g.node n := by
  simp only [detach, node, Array.getD_eq_getD_getElem?, Array.getElem?_map]
  cases g.nodes[n.index]? <;> rfl

lemma Placed.has_seen (P : g.Placed) (b : BlockId) : g.seen.has b.index = true ↔ g.Reached b ∨ b = endBlock := by
  have hend : endBlock.index < g.reachable.marked.size := by rw [size_reachable]; exact P.end_lt
  rw [seen, Marks.has_insert_of_lt hend, has_reachable (lt_trans zero_lt_one P.end_lt) P.node_block (b := b), or_comm]
  exact or_congr Iff.rfl ⟨congrArg BlockId.mk, congrArg BlockId.index⟩

lemma size_pruned (g : Graph) : g.pruned.nodes.size = g.nodes.size := by
  simp [pruned, removeUnreachable, detach, bury]

lemma blocks_size_pruned (g : Graph) : g.pruned.blocks.size = g.blocks.size := by
  simp [pruned, removeUnreachable, detach, bury]

namespace Intact

section

variable (G : g.Intact)

include G

lemma dead_bury (n : NodeId) : ((g.bury g.seen).block (g.node n).block).dead = !g.seen.has (g.node n).block.index := by
  rw [block_bury]
  have hlt := G.node_block n
  by_cases hs : g.seen.has (g.node n).block.index = true
  · rw [if_pos (.inl hs), G.undead, hs]; rfl
  · rw [if_neg (by rintro (h | h) <;> [exact hs h; omega]), Bool.eq_false_iff.2 hs]; rfl

lemma livePreds_bury (b : BlockId) : (g.bury g.seen).livePreds b = (g.block b).preds.map g.alive := by
  unfold livePreds
  rw [preds_bury]
  refine map_congr_left fun e _ => ?_
  rw [predBlock_bury, predBlock, G.dead_bury, Bool.not_not]
  rfl

lemma block_pruned (b : BlockId) : g.pruned.block b =
    if g.seen.has b.index then { g.block b with preds := (g.block b).preds.filter g.alive }
    else if g.HasBlock b then { g.block b with dead := true } else g.block b := by
  show ((g.bury g.seen).detach g.seen).block b = _
  rw [block_detach, block_bury, detachBlock, G.livePreds_bury]
  by_cases hs : g.seen.has b.index = true
  · rw [if_pos hs, if_pos hs, if_pos (.inl hs), keepFlagged_map]
  · rw [if_neg hs, if_neg hs]
    by_cases hb : g.HasBlock b
    · rw [if_pos hb, if_neg (by rintro (h | h) <;> [exact hs h; omega])]
    · rw [if_neg hb, if_pos (.inr (by omega))]

lemma node_pruned (n : NodeId) : g.pruned.node n =
    if (g.node n).op = .phi ∧ g.seen.has (g.node n).block.index = true then
      { g.node n with inputs := keepFlagged ((g.block (g.node n).block).preds.map g.alive) (g.node n).inputs }
    else g.node n := by
  have hn : (g.bury g.seen).node n = g.node n := rfl
  show ((g.bury g.seen).detach g.seen).node n = _
  rw [node_detach, hn]
  by_cases hphi : (g.node n).op = .phi ∧ g.seen.has (g.node n).block.index = true
  · rw [if_pos (by simp [hphi.1, hphi.2]), detachPhi, G.livePreds_bury]
    split
    · rename_i hall
      have hlen := G.aligned n hphi.1 ((G.has_seen _).1 hphi.2)
      rw [keepFlagged_of_all hall (by rwa [length_map])]
    · rfl
  · rw [if_neg hphi, if_neg (by rwa [Bool.and_eq_true, decide_eq_true_eq])]

lemma op_pruned (n : NodeId) : (g.pruned.node n).op = (g.node n).op := by
  rw [G.node_pruned]
  split <;> rfl

lemma block_node_pruned (n : NodeId) : (g.pruned.node n).block = (g.node n).block := by
  rw [G.node_pruned]
  split <;> rfl

lemma node_pruned_of_op (h : (g.node n).op ≠ .phi) : g.pruned.node n = g.node n := by
  rw [G.node_pruned, if_neg fun hp => h hp.1]

lemma inputs_pruned (h : (g.node n).op = .phi) (hr : g.Reached (g.node n).block) :
    (g.pruned.node n).inputs = keepFlagged ((g.block (g.node n).block).preds.map g.alive) (g.node n).inputs := by
  rw [G.node_pruned, if_pos ⟨h, (G.has_seen _).2 (.inl hr)⟩]

lemma inputs_subset_pruned {i : NodeId} (h : i ∈ (g.pruned.node n).inputs) : i ∈ (g.node n).inputs := by
  rw [G.node_pruned] at h
  split at h
  · exact mem_of_mem_keepFlagged h
  · exact h

lemma preds_pruned (hr : g.Reached b) : (g.pruned.block b).preds = (g.block b).preds.filter g.alive := by
  rw [G.block_pruned, if_pos ((G.has_seen b).2 (.inl hr))]

lemma preds_subset_pruned {e : NodeId} (h : e ∈ (g.pruned.block b).preds) : e ∈ (g.block b).preds := by
  rw [G.block_pruned] at h
  split at h
  · exact mem_of_mem_filter h
  · split at h <;> exact h

lemma target?_pruned (n : NodeId) : g.pruned.target? n = g.target? n := by
  by_cases h : (g.node n).op = .forward
  · rw [target?, target?, G.node_pruned_of_op (by simp [h])]
  · rw [target?_eq_none_of_op h, target?_eq_none_of_op (by rwa [G.op_pruned])]

lemma resolve_pruned (n : NodeId) : g.pruned.resolve n = g.resolve n := by
  rw [resolve, size_pruned]
  exact follow_congr G.target?_pruned _ n

lemma predBlock_pruned (e : NodeId) : g.pruned.predBlock e = g.predBlock e := by
  rw [predBlock, predBlock, G.resolve_pruned, G.block_node_pruned]

/-! ## Walks -/

lemma flag_of_walk {k : Nat} {w : Walk} (hw : g.IsWalk ((b, k) :: w)) :
    ((g.block b).preds.map g.alive)[k]? = some true := by
  obtain ⟨e, he, hlast⟩ := hw.edge
  rw [getElem?_map, he, Option.map_some, show g.alive e = true from (G.has_seen _).2 (.inl ⟨w, hw.2, hlast.symm⟩)]

end

end Intact

/-- A walk, with the positions of predecessors counted among those that stay. -/
def recount (g : Graph) (w : Walk) : Walk := w.map fun s => (s.1, rank ((g.block s.1).preds.map g.alive) s.2)

lemma last_recount (g : Graph) : ∀ w, Walk.last (g.recount w) = w.last
  | [] => rfl
  | _ :: _ => rfl

lemma blocks_recount (g : Graph) (w : Walk) : Walk.blocks (g.recount w) = w.blocks := by
  simp [Walk.blocks, recount]

namespace Intact

lemma isWalk_recount (G : g.Intact) : ∀ {w : Walk}, g.IsWalk w → g.pruned.IsWalk (g.recount w)
  | [], _ => trivial
  | (b, k) :: w, hw => by
    refine ⟨?_, G.isWalk_recount hw.2⟩
    have hk : (keepFlagged ((g.block b).preds.map g.alive) (g.block b).preds)[_]? = _ :=
      getElem?_keepFlagged (G.flag_of_walk hw)
    rw [keepFlagged_map] at hk
    have hr : g.Reached b := ⟨_, hw, rfl⟩
    show (g.pruned.block b).preds[_]?.map _ = some (Walk.last (g.recount w))
    rw [G.preds_pruned hr, hk, last_recount, ← hw.1]
    exact congrArg (Option.map · _) (funext G.predBlock_pruned)

lemma exists_recount (G : g.Intact) : ∀ {w : Walk}, g.pruned.IsWalk w → ∃ w', g.IsWalk w' ∧ g.recount w' = w
  | [], _ => ⟨[], trivial, rfl⟩
  | (b, j) :: w, hw => by
    obtain ⟨w', hw', rfl⟩ := G.exists_recount hw.2
    obtain ⟨e, he, hlast⟩ := hw.edge
    rw [G.predBlock_pruned, last_recount] at hlast
    have hmem := G.preds_subset_pruned (mem_of_getElem? he)
    have hr : g.Reached b := .edge ⟨w', hw', hlast.symm⟩ hmem
    rw [G.preds_pruned hr, ← keepFlagged_map] at he
    obtain ⟨k, -, rfl, hk⟩ := exists_of_getElem?_keepFlagged he
    exact ⟨(b, k) :: w', ⟨by rw [hk, Option.map_some, hlast], hw'⟩, rfl⟩

lemma reached_pruned (G : g.Intact) (b : BlockId) : g.pruned.Reached b ↔ g.Reached b := by
  constructor
  · rintro ⟨w, hw, hlast⟩
    obtain ⟨w', hw', rfl⟩ := G.exists_recount hw; exact ⟨w', hw', by rw [← hlast, last_recount]⟩
  · rintro ⟨w, hw, hlast⟩; exact ⟨g.recount w, G.isWalk_recount hw, by rw [last_recount, hlast]⟩

lemma dead_pruned (G : g.Intact) (hb : g.HasBlock b) :
    (g.pruned.block b).dead = false ↔ g.Reached b ∨ b = endBlock := by
  rw [← G.has_seen, G.block_pruned]
  by_cases hs : g.seen.has b.index = true
  · simp [hs, G.undead]
  · simp [hs, hb]

end Intact

namespace Unpruned

variable (G : g.Unpruned)

include G

lemma seen_block (n : NodeId) : g.seen.has (g.node n).block.index = true ↔ g.Reached (g.node n).block := by
  rw [G.has_seen]
  exact ⟨fun h => h.resolve_right (G.not_end n), .inl⟩

lemma settled_pruned : g.pruned.Settled :=
  G.settled.congr (size_pruned g).ge G.target?_pruned fun n hn => by
    rw [G.op_pruned] at hn; exact G.node_pruned_of_op (by simp [hn])

lemma avail_pruned (h : g.Avail b n) : g.pruned.Avail b n := by
  intro w hw hlast
  obtain ⟨w', hw', rfl⟩ := G.exists_recount hw
  rw [last_recount] at hlast
  have hblocks : (g.recount w').map Prod.fst = w'.map Prod.fst := by simp [recount]
  rw [Computed, G.resolve_pruned, G.block_node_pruned, G.op_pruned, blocks_recount, hblocks]
  exact h w' hw' hlast

lemma proper_pruned : g.pruned.Proper where
  settled := G.settled_pruned
  pred_op b e he := by
    rw [G.resolve_pruned, G.op_pruned]; exact G.pred_op b e (G.preds_subset_pruned he)
  arity n ho hr := by
    rw [G.op_pruned] at ho
    rw [G.block_node_pruned] at hr ⊢
    rw [G.reached_pruned] at hr
    have hlen : ((g.block (g.node n).block).preds.map g.alive).length = (g.block (g.node n).block).preds.length :=
      length_map _
    rw [G.inputs_pruned ho hr, G.preds_pruned hr, ← keepFlagged_map, length_keepFlagged hlen.symm,
      length_keepFlagged ((G.arity n ho hr).trans hlen.symm)]
  uses n hp hf i hi := by
    rw [G.op_pruned] at hp hf
    rw [G.block_node_pruned]; exact G.avail_pruned (G.uses n hp hf i (G.inputs_subset_pruned hi))
  operands n ho j i e hi he := by
    rw [G.op_pruned] at ho
    rw [G.block_node_pruned] at he
    rw [G.predBlock_pruned]
    by_cases hr : g.Reached (g.node n).block
    · rw [G.inputs_pruned ho hr] at hi
      rw [G.preds_pruned hr, ← keepFlagged_map] at he
      obtain ⟨k, hk, rfl, hk'⟩ := exists_of_getElem?_keepFlagged he
      rw [getElem?_keepFlagged hk] at hi; exact G.avail_pruned (G.operands n ho k i e hi hk')
    · have hs : ¬ g.seen.has (g.node n).block.index = true := fun h => hr ((G.seen_block n).1 h)
      rw [G.node_pruned, if_neg fun h => hs h.2] at hi
      rw [G.block_pruned, if_neg hs, if_pos (G.node_block n)] at he
      exact G.avail_pruned (G.operands n ho j i e hi he)

lemma live_pruned : g.pruned.Live := by
  intro n hn
  rw [G.block_node_pruned] at hn ⊢
  rw [G.reached_pruned]
  exact ((G.dead_pruned (G.node_block n)).1 hn).resolve_right (G.not_end n)

lemma linked_pruned : g.pruned.Linked := by
  intro n _ hd i hi
  have hr := G.live_pruned n hd
  rw [G.block_node_pruned, G.reached_pruned] at hr
  rw [size_pruned]
  exact G.input_lt n hr i (G.inputs_subset_pruned hi)

end Unpruned

/-! ## Dropping a second time -/

lemma bury_of_dead (h : ∀ b, g.HasBlock b → g.seen.has b.index = false → (g.block b).dead = true) :
    g.bury g.seen = g := by
  have hblocks : (g.bury g.seen).blocks = g.blocks := by
    refine Arrays.ext_getD (by simp [bury]) fun i => (block_bury g ⟨i⟩).trans ?_
    split
    · rfl
    · rename_i hs
      rw [not_or] at hs
      rw [← h ⟨i⟩ (Nat.lt_of_not_le hs.2) (Bool.eq_false_iff.2 hs.1)]; rfl
  exact congrArg (fun blocks => { g with blocks }) hblocks

/-- Nothing is taken out of blocks that are entered from blocks that stay only. -/
lemma detach_of_live {seen : Marks}
    (hp : ∀ b, seen.has b.index = true → ∀ e ∈ (g.block b).preds, (g.block (g.predBlock e)).dead = false)
    (hk : ∀ n ∈ g.keepAlives, (g.block (g.node n).block).dead = false) : g.detach seen = g := by
  have hlive : ∀ b, seen.has b.index = true → (g.livePreds b).all id = true := by
    intro b hb
    simp only [livePreds, all_map, all_eq_true, Function.comp_apply, id_eq, Bool.not_eq_true']
    exact hp b hb
  have hblocks : (g.detach seen).blocks = g.blocks := by
    refine Arrays.ext_getD (by simp [detach]) fun i => (block_detach g seen ⟨i⟩).trans ?_
    split
    · rename_i hs; rw [detachBlock, keepFlagged_of_all (hlive _ hs) (by simp [livePreds])]; rfl
    · rfl
  have hnodes : (g.detach seen).nodes = g.nodes := by
    refine Arrays.ext_getD (by simp [detach]) fun i => (node_detach g seen ⟨i⟩).trans ?_
    split
    · rename_i hs
      rw [Bool.and_eq_true] at hs
      rw [detachPhi, if_pos (hlive _ hs.2)]; rfl
    · rfl
  have hkeep : (g.detach seen).keepAlives = g.keepAlives := filter_eq_self.2 fun n hn => by simp [hk n hn]
  show { g with
    nodes := (g.detach seen).nodes
    blocks := (g.detach seen).blocks
    keepAlives := (g.detach seen).keepAlives } = g
  rw [hblocks, hnodes, hkeep]

namespace Intact

section

variable (G : g.Intact)

include G

lemma has_seen_eq (hb : g.HasBlock b) : g.seen.has b.index = !(g.pruned.block b).dead := by
  rw [Bool.eq_iff_iff, Bool.not_eq_true', G.dead_pruned hb, G.has_seen]

lemma alive_eq (e : NodeId) : g.alive e = !(g.pruned.block (g.predBlock e)).dead := G.has_seen_eq (G.node_block _)

lemma placed_pruned : g.pruned.Placed where
  end_lt := by rw [blocks_size_pruned]; exact G.end_lt
  node_block n := by rw [G.block_node_pruned, blocks_size_pruned]; exact G.node_block n

lemma has_seen_pruned (b : BlockId) : g.pruned.seen.has b.index = g.seen.has b.index := by
  rw [Bool.eq_iff_iff, G.placed_pruned.has_seen, G.has_seen, G.reached_pruned]

lemma dead_of_unseen (hb : g.HasBlock b) (hs : g.pruned.seen.has b.index = false) :
    (g.pruned.block b).dead = true := by
  rw [G.has_seen_pruned] at hs
  rw [G.block_pruned, if_neg (by simp [hs]), if_pos hb]

lemma keepAlives_live (hn : n ∈ g.pruned.keepAlives) : (g.pruned.block (g.pruned.node n).block).dead = false := by
  rw [G.block_node_pruned, G.dead_pruned (G.node_block n), ← G.has_seen]
  have hd : (!((g.bury g.seen).block (g.node n).block).dead) = true := (mem_filter.1 hn).2
  rwa [G.dead_bury, Bool.not_not] at hd

lemma removeUnreachable_pruned : g.pruned.removeUnreachable = ([], g.pruned) := by
  have hpcs : g.pruned.droppedPcs g.pruned.seen = [] := by
    refine filterMap_eq_nil_iff.2 fun b hb => ?_
    cases hs : g.pruned.seen.has b.index with
    | true => rfl
    | false => simp [G.dead_of_unseen (lt_of_lt_of_eq (mem_blockIds.1 hb) (blocks_size_pruned g)) hs]
  have hbury : g.pruned.bury g.pruned.seen = g.pruned :=
    bury_of_dead fun b hb hs => G.dead_of_unseen (lt_of_lt_of_eq hb (blocks_size_pruned g)) hs
  have hdetach : g.pruned.detach g.pruned.seen = g.pruned := by
    refine detach_of_live (fun b hs e he => ?_) fun n => G.keepAlives_live
    rw [G.has_seen_pruned] at hs
    rw [G.block_pruned, if_pos hs] at he
    have := (mem_filter.1 he).2
    rwa [G.alive_eq, Bool.not_eq_true', ← G.predBlock_pruned] at this
  show (g.pruned.droppedPcs g.pruned.seen, (g.pruned.bury g.pruned.seen).detach g.pruned.seen) = _
  rw [hpcs, hbury, hdetach]

end

end Intact

/-- Exactly what control cannot reach is dropped, but for the end block, and a second time nothing is left to be
dropped. -/
theorem removeUnreachable_exact (hend : endBlock.index < g.blocks.size)
    (hnode : ∀ n, (g.node n).block.index < g.blocks.size) (hdead : ∀ b, (g.block b).dead = false)
    (harity : ∀ n, (g.node n).op = .phi → (g.node n).inputs.length = (g.block (g.node n).block).preds.length) :
    let g' := g.removeUnreachable.2
    let kept : NodeId → Bool := fun e => !(g'.block (g.predBlock e)).dead
    (∀ b : BlockId, b.index < g.blocks.size → ((g'.block b).dead = true ↔ ¬ g.Reached b ∧ b ≠ endBlock)) ∧
    (∀ b : BlockId, (g'.block b).dead = false →
      g'.block b = { g.block b with preds := (g.block b).preds.filter kept }) ∧
    (∀ n, (g'.block (g.node n).block).dead = false → (g.node n).op = .phi → g'.node n = { g.node n with
      inputs := (((g.node n).inputs.zip (g.block (g.node n).block).preds).filter fun p => kept p.2).map Prod.fst }) ∧
    (∀ n, (g'.block (g.node n).block).dead = true ∨ (g.node n).op ≠ .phi → g'.node n = g.node n) ∧
    g.removeUnreachable.1 = g.blockIds.filterMap (fun b => if (g'.block b).dead then (g.block b).pc? else none) ∧
    g'.removeUnreachable = ([], g') := by
  have G : g.Intact := ⟨⟨hend, hnode⟩, hdead, fun n hp _ => harity n hp⟩
  intro g' kept
  have hkept : kept = g.alive := funext fun e => (G.alive_eq e).symm
  have hseen : ∀ b, b.index < g.blocks.size → g.seen.has b.index = !(g'.block b).dead := fun _ => G.has_seen_eq
  rw [hkept]
  refine ⟨fun b hb => ?_, fun b hb => ?_, fun n hb hp => ?_, fun n h => ?_, ?_, G.removeUnreachable_pruned⟩
  · rw [← not_or, ← G.dead_pruned hb, Bool.not_eq_false]
  · rw [G.block_pruned]
    by_cases hlt : b.index < g.blocks.size
    · rw [if_pos (by rw [hseen b hlt, hb]; rfl)]
    · rw [if_neg hlt, block_of_le (not_lt.1 hlt)]; exact ite_self _
  · rw [G.node_pruned, if_pos ⟨hp, by rw [hseen _ (G.node_block n), hb]; rfl⟩, keepFlagged_zip]
  · rw [G.node_pruned, if_neg]
    rintro ⟨hp, hs⟩
    rw [hseen _ (G.node_block n)] at hs; exact h.elim (fun hd => by simp [hd] at hs) fun ho => ho hp
  · refine filterMap_congr fun b hb => ?_
    have hs : g.seen.has b.index = _ := hseen b (mem_blockIds.1 hb)
    show (if g.seen.has b.index || (g.block b).dead then none else (g.block b).pc?) = _
    rw [hs, hdead, Bool.or_false]; cases (g'.block b).dead <;> rfl

/-- A Phi in block 3 merges what comes from the start block and from block 2, which nothing leads to. -/
def halfReached : Graph where
  name := ""
  nodes := #[⟨.start, .tuple, ⟨0⟩, []⟩, ⟨.jmp, .control, ⟨0⟩, []⟩, ⟨.jmp, .control, ⟨2⟩, []⟩,
    ⟨.phi, .tuple, ⟨3⟩, [⟨0⟩, ⟨2⟩]⟩]
  blocks := #[{}, {}, { pc? := some 7 }, { preds := [⟨1⟩, ⟨2⟩] }]
  keepAlives := []
  bads := []

theorem removeUnreachable_exact_halfReached : halfReached.removeUnreachable.1 = [7] ∧
    (halfReached.removeUnreachable.2.node ⟨3⟩).inputs = [⟨0⟩] ∧
      halfReached.removeUnreachable.2.removeUnreachable = ([], halfReached.removeUnreachable.2) := by
  obtain ⟨-, -, -, -, -, h⟩ := removeUnreachable_exact (g := halfReached) (by decide)
    (fun ⟨n⟩ => match n with | 0 | 1 | 2 | 3 => by decide | n + 4 => Nat.succ_pos 3)
    (fun ⟨b⟩ => match b with | 0 | 1 | 2 | 3 => rfl | b + 4 => rfl)
    (fun ⟨n⟩ hp => match n with | 0 | 1 | 2 | n + 4 => nomatch hp | 3 => rfl)
  exact ⟨by decide +kernel, by decide +kernel, h⟩

end Pruned

end JvmGraph.Graph
