import JvmGraph.Proofs.Graph.Proper

/-!
# Normal form

Normalising a graph keeps its control flow and all nodes that are no Phis, and keeps it proper (`Refines`).
Afterwards nothing refers to a forwarding node.
-/

namespace JvmGraph.Graph

open List Option

variable {g : Graph} {n i : NodeId}

/-- Blocks that are not dead are reached, if they have any nodes. -/
def Live (g : Graph) : Prop := ∀ n, (g.block (g.node n).block).dead = false → g.Reached (g.node n).block

/-- The operands of Phis that may be replaced are nodes of the graph. -/
def Linked (g : Graph) : Prop := ∀ n, (g.node n).op = .phi → (g.block (g.node n).block).dead = false →
  ∀ i ∈ (g.node n).inputs, i.index < g.nodes.size

/-- The same control flow, with Phis replaced. -/
structure Refines (g g' : Graph) : Prop where
  size : g'.nodes.size = g.nodes.size
  blocks : g'.blocks = g.blocks
  keep : ∀ n, (g.node n).op ≠ .phi → g'.node n = g.node n
  phi : ∀ n, (g'.node n).op = .phi → g'.node n = g.node n
  op : ∀ n, (g'.node n).op = (g.node n).op ∨ (g'.node n).op = .forward
  node_block : ∀ n, (g'.node n).block = (g.node n).block
  same : ∀ a b, g.Same a b → g'.Same a b
  predBlock : ∀ b, ∀ e ∈ (g.block b).preds, g'.predBlock e = g.predBlock e
  /-- A Phi stays, or stands for the same as all of its operands. -/
  merged : ∀ n, (g.node n).op = .phi → (g'.node n).op = .phi ∨ ∀ i ∈ (g.node n).inputs, g'.Same i n
  walk : ∀ w : Walk, g'.IsWalk w ↔ g.IsWalk w
  avail : ∀ b n, g.Avail b n → g'.Avail b n
  source : ∀ (w : Walk) n, g.IsWalk w → g.Avail w.last n → g'.source w n = g.source w n
  proper : g.Proper → g'.Proper

namespace Refines

lemma refl (g : Graph) : g.Refines g :=
  ⟨rfl, rfl, fun _ _ => rfl, fun _ _ => rfl, fun _ => .inl rfl, fun _ => rfl, fun _ _ h => h,
    fun _ _ _ => rfl, fun _ h => .inl h, fun _ => .rfl, fun _ _ h => h, fun _ _ _ _ => rfl, id⟩

lemma trans {g' g'' : Graph} (h : g.Refines g') (h' : g'.Refines g'') : g.Refines g'' where
  size := h'.size.trans h.size
  blocks := h'.blocks.trans h.blocks
  keep n hn := by
    have e := h.keep n hn
    rw [h'.keep n (by rwa [e]), e]
  phi n hn := by
    have e := h'.phi n hn
    rw [e, h.phi n (by rwa [← e])]
  op n := by
    rcases h'.op n with e | e
    · rw [e]; exact h.op n
    · exact .inr e
  node_block n := (h'.node_block n).trans (h.node_block n)
  same a b hs := h'.same a b (h.same a b hs)
  predBlock b e he := (h'.predBlock b e (by simpa only [block, h.blocks] using he)).trans (h.predBlock b e he)
  merged n hn := by
    rcases h.merged n hn with hp | hi
    · rw [← h.phi n hp]; exact h'.merged n hp
    · exact .inr fun i hi' => h'.same _ _ (hi i hi')
  walk w := (h'.walk w).trans (h.walk w)
  avail b n ha := h'.avail b n (h.avail b n ha)
  source w n hw ha := (h'.source w n ((h.walk w).2 hw) (h.avail _ n ha)).trans (h.source w n hw ha)
  proper G := h'.proper (h.proper G)

variable {g' : Graph} (h : g.Refines g')

include h

lemma reached (b : BlockId) : g'.Reached b ↔ g.Reached b :=
  exists_congr fun w => and_congr_left fun _ => h.walk w

lemma live (L : g.Live) : g'.Live := by
  intro n hn
  rw [h.node_block] at hn ⊢
  rw [h.reached]
  exact L n (by simpa only [block, h.blocks] using hn)

/-- Where inputs were nodes of the graph they still are, also those of what forwards now. -/
lemma input_lt (S : g'.Settled) (hi : i ∈ (g'.node n).inputs)
    (hlt : ∀ j ∈ (g.node n).inputs, g.Has j) : g'.Has i := by
  by_cases hf : (g'.node n).op = .forward
  · obtain ⟨m, hm, hlt⟩ := S.target n hf; rw [hm, mem_singleton] at hi; rwa [hi]
  · have e : g'.node n = g.node n := by
      by_cases hp : (g.node n).op = .phi
      · exact h.phi n (((h.op n).resolve_right hf).trans hp)
      · exact h.keep n hp
    rw [Has, h.size]; exact hlt i (e ▸ hi)

end Refines

section

variable {p v : NodeId}

lemma Trivial.refines (t : g.Trivial p v) (G : g.Merging) : g.Refines (g.exchange p v) where
  size := size_exchange
  blocks := blocks_exchange
  keep n hn := t.node_exchange (by rintro rfl; exact hn t.op)
  phi n hn := t.node_exchange (t.ne_of_phi hn)
  op n := by
    rw [Graph.node_exchange t.ne t.lt]
    split
    · exact .inr rfl
    · exact .inl rfl
  node_block := t.block_exchange
  same a b hs := by
    show (g.exchange p v).resolve a = (g.exchange p v).resolve b
    rw [t.resolve_exchange G.settled, t.resolve_exchange G.settled, show g.resolve a = g.resolve b from hs]
  predBlock _ _ he := t.predBlock_exchange G he
  merged n hn := by
    by_cases h : n = p
    · rw [h]; exact .inr fun i hi => t.same_exchange G.settled hi
    · exact .inl (by rwa [t.node_exchange h])
  walk _ := t.isWalk_exchange G
  avail _ _ := t.avail_exchange G
  source _ _ := t.source_exchange G
  proper := t.proper

/-! ## Going through the Phis -/

lemma Linked.trivial (K : g.Linked) (S : g.Settled) (hp : (g.node p).op = .phi)
    (hd : (g.block (g.node p).block).dead = false)
    (hm : g.merge p = .single v) : g.Trivial p v := by
  refine ⟨hp, hm, ?_⟩
  obtain ⟨-, ⟨i, hi, rfl⟩, -⟩ := mergeOf_single.1 hm
  exact S.resolve_lt (K p hp hd i hi)

lemma Trivial.linked (t : g.Trivial p v) (K : g.Linked) : (g.exchange p v).Linked := by
  intro n hp hd i hi
  have e := t.node_exchange (t.ne_of_phi hp)
  rw [e] at hp hd hi
  rw [exchange_block] at hd
  rw [size_exchange]
  exact K n hp hd i hi

end

lemma simplifyPhi_cases (g : Graph) (n : NodeId) : g.simplifyPhi n = (g, false) ∨ ∃ v,
    g.simplifyPhi n = (g.exchange n v, true) ∧
    (g.node n).op = .phi ∧ (g.block (g.node n).block).dead = false ∧ g.merge n = .single v := by
  rcases hc : (decide ((g.node n).op = .phi) && !(g.block (g.node n).block).dead) with _ | _
  · rw [simplifyPhi, if_neg (by simp [hc])]; exact .inl rfl
  · rw [simplifyPhi, if_pos hc]
    simp only [Bool.and_eq_true, decide_eq_true_eq, Bool.not_eq_true'] at hc
    rcases hm : g.merge n with _ | v | _
    · exact .inl rfl
    · exact .inr ⟨v, rfl, hc.1, hc.2, rfl⟩
    · exact .inl rfl

section

variable {I : Graph → Prop} (hI : ∀ {g p v}, I g → (g.node p).op = .phi → (g.block (g.node p).block).dead = false →
  g.merge p = .single v → I (g.exchange p v))

include hI

/-- What every replacement keeps holds after any number of them. -/
lemma simplifyPhis_keeps : ∀ (ns : List NodeId) {g : Graph} (changed : Bool), I g → I (g.simplifyPhis changed ns).1
  | [], _, _, h => h
  | n :: ns, g, changed, h => by
    rw [simplifyPhis]
    rcases g.simplifyPhi_cases n with e | ⟨v, e, hp, hd, hm⟩
    · rw [e]; exact simplifyPhis_keeps ns _ h
    · rw [e]; exact simplifyPhis_keeps ns _ (hI h hp hd hm)

lemma settlePhis_keeps : ∀ (fuel : Nat) {g : Graph}, I g → I (settlePhis fuel g)
  | 0, _, h => h
  | fuel + 1, g, h => by
    have h1 := simplifyPhis_keeps hI g.nodeIds false h
    rw [settlePhis]
    rcases hs : g.simplifyPhis false g.nodeIds with ⟨g1, changed⟩
    rw [hs] at h1
    cases changed with
    | false => exact h1
    | true => exact settlePhis_keeps fuel h1

end

lemma settlePhis_refines (fuel : Nat) (G : g.Merging) (K : g.Linked) :
    (settlePhis fuel g).Merging ∧ g.Refines (settlePhis fuel g) := by
  have h := settlePhis_keeps (I := fun g' => (g'.Merging ∧ g'.Linked) ∧ g.Refines g') (fun {g' p v} h hp hd hm => by
    have t := h.1.2.trivial h.1.1.settled hp hd hm
    exact ⟨⟨t.merging h.1.1, t.linked h.1.2⟩, h.2.trans (t.refines h.1.1)⟩) fuel ⟨⟨G, K⟩, .refl g⟩
  exact ⟨h.1.1, h.2⟩

/-! ## Referring past forwarding nodes -/

section Redirect

lemma node_redirect (g : Graph) (n : NodeId) : g.redirect.node n =
    if (g.node n).op = .forward then g.node n else { g.node n with inputs := (g.node n).inputs.map g.resolve } := by
  simp only [redirect, node, Array.getD_eq_getD_getElem?, Array.getElem?_map]
  cases g.nodes[n.index]? with
  | none => simp
  | some m => rfl

lemma op_redirect (g : Graph) (n : NodeId) : (g.redirect.node n).op = (g.node n).op := by
  rw [node_redirect]
  split <;> rfl

lemma block_node_redirect (g : Graph) (n : NodeId) : (g.redirect.node n).block = (g.node n).block := by
  rw [node_redirect]
  split <;> rfl

lemma inputs_redirect (h : (g.node n).op ≠ .forward) :
    (g.redirect.node n).inputs = (g.node n).inputs.map g.resolve := by
  rw [node_redirect, if_neg h]

lemma block_redirect (g : Graph) (b : BlockId) :
    g.redirect.block b = { g.block b with preds := (g.block b).preds.map g.resolve } := by
  simp only [redirect, block, Array.getD_eq_getD_getElem?, Array.getElem?_map]
  cases g.blocks[b.index]? <;> rfl

lemma target?_redirect (g : Graph) (n : NodeId) : g.redirect.target? n = g.target? n := by
  by_cases h : (g.node n).op = .forward
  · simp [target?, node_redirect, if_pos h]
  · rw [target?_eq_none_of_op h, target?_eq_none_of_op (by rwa [op_redirect])]

namespace Settled

variable (S : g.Settled)

include S

lemma redirect : g.redirect.Settled :=
  S.congr (by simp [Graph.redirect]) (target?_redirect g) fun n hn => by
    rw [op_redirect] at hn
    rw [node_redirect, if_pos hn]

lemma resolve_redirect (n : NodeId) : g.redirect.resolve n = g.resolve n :=
  S.resolve_congr S.redirect (target?_redirect g) n

lemma predBlock_redirect (e : NodeId) : g.redirect.predBlock e = g.predBlock e := by
  unfold predBlock
  rw [S.resolve_redirect, block_node_redirect]

lemma predBlock_resolve (e : NodeId) : g.predBlock (g.resolve e) = g.predBlock e := by
  unfold predBlock
  rw [S.resolve_resolve]

lemma isWalk_redirect : ∀ {w : Walk}, g.redirect.IsWalk w ↔ g.IsWalk w
  | [] => .rfl
  | (b, k) :: w => by
    refine and_congr ?_ (isWalk_redirect (w := w))
    rw [block_redirect, getElem?_map, Option.map_map]
    have : g.redirect.predBlock ∘ g.resolve = g.predBlock :=
      funext fun e => (S.predBlock_redirect _).trans (S.predBlock_resolve e)
    rw [this]

lemma avail_redirect {b : BlockId} : g.redirect.Avail b n ↔ g.Avail b n := by
  refine forall_congr' fun w => imp_congr S.isWalk_redirect ?_
  rw [Computed, S.resolve_redirect, block_node_redirect, op_redirect]
  rfl

lemma reached_redirect (b : BlockId) : g.redirect.Reached b ↔ g.Reached b :=
  exists_congr fun _ => and_congr_left fun _ => S.isWalk_redirect

lemma source_redirect : ∀ (w : Walk) (n : NodeId), g.redirect.source w n = g.source w n
  | [], n => by rw [source, source, S.resolve_redirect]
  | (b, k) :: w, n => by
    have hw := funext (source_redirect w)
    simp only [source, S.resolve_redirect, block_node_redirect, op_redirect, inputs_redirect (S.op_resolve n), hw,
      getElem?_map]
    cases (g.node (g.resolve n)).inputs[k]? with
    | none => rfl
    | some i => rw [map_some, elim_some, elim_some, source_congr (S.same_resolve i)]

end Settled

lemma mem_inputs_redirect (hi : i ∈ (g.redirect.node n).inputs) (hf : (g.node n).op ≠ .forward) :
    ∃ j ∈ (g.node n).inputs, i = g.resolve j := by
  rw [inputs_redirect hf] at hi
  obtain ⟨j, hj, rfl⟩ := mem_map.1 hi
  exact ⟨j, hj, rfl⟩

lemma Merging.redirect (G : g.Merging) : g.redirect.Merging := by
  have S := G.settled
  refine ⟨S.redirect, fun b e he => ?_, fun n ho hr => ?_, fun n ho k i e hi he => ?_⟩
  · rw [block_redirect] at he
    obtain ⟨d, hd, rfl⟩ := mem_map.1 he
    rw [S.resolve_redirect, S.resolve_resolve, op_redirect]; exact G.pred_op b d hd
  · rw [op_redirect] at ho
    rw [block_node_redirect, S.reached_redirect] at hr
    rw [inputs_redirect (by simp [ho]), length_map, block_node_redirect, block_redirect, length_map]
    exact G.arity n ho hr
  · rw [op_redirect] at ho
    rw [inputs_redirect (by simp [ho]), getElem?_map, map_eq_some_iff] at hi
    obtain ⟨j, hj, rfl⟩ := hi
    rw [block_node_redirect, block_redirect, getElem?_map, map_eq_some_iff] at he
    obtain ⟨e, he, rfl⟩ := he
    rw [S.avail_redirect, S.predBlock_redirect, S.predBlock_resolve]
    exact (G.operands n ho k j e hj he).congr (S.same_resolve j).symm

lemma Proper.redirect (G : g.Proper) : g.redirect.Proper := by
  have S := G.settled
  refine ⟨G.toMerging.redirect, fun n ho hf i hi => ?_⟩
  rw [op_redirect] at ho hf
  obtain ⟨j, hj, rfl⟩ := mem_inputs_redirect hi hf
  rw [block_node_redirect, S.avail_redirect]
  exact (G.uses n ho hf j hj).congr (S.same_resolve j).symm

end Redirect

end JvmGraph.Graph
