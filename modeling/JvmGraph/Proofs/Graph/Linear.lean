import JvmGraph.Proofs.Graph.Pruning
import JvmGraph.Proofs.Graph.Threads

/-!
# Memory is handed on from block to block

In a graph every block that touches memory has one thread, from the state that the block is entered with to the
state that it leaves. A block is entered with what its predecessors leave: their states are all the same, or a
Phi of the block merges them. Dropping blocks, replacing Phis and redirecting references keep it so. No two
nodes of a block then take the same state.
-/

namespace JvmGraph.Graph

open List

/-- The memory state `m` that block `b` is entered with, where `leave` has the states that blocks leave. -/
inductive Incoming (g : Graph) (r : NodeId → NodeId) (leave : BlockId → Option NodeId) (b : BlockId) (m : NodeId) : Prop
  /-- The first state of all. -/
  | first (hb : b = startBlock) (op : (g.node m).op = .proj Projection.memory) (tuple : (g.node m).inputs = [start])
      (hs : (g.node start).op = .start)
  | merged (hb : b ≠ startBlock) (op : (g.node (r m)).op = .phi) (block : (g.node (r m)).block = b)
      (operands : List.Forall₂ (fun i e => ∃ z, leave (g.predBlock e) = some z ∧ r z = r i) (g.node (r m)).inputs
        (g.block b).preds)
  | same (hb : b ≠ startBlock) (states : ∀ e ∈ (g.block b).preds, ∃ z, leave (g.predBlock e) = some z ∧ r z = r m)

/-- Memory is handed on along the threads of the blocks that are reached; `leave` has the last states of those that
touch memory or pass it on. -/
structure Linear (g : Graph) (r : NodeId → NodeId) (leave : BlockId → Option NodeId) : Prop where
  idle : ∀ b, g.Reached b → leave b = none → ∀ n, (g.node n).block = b →
    (g.node n).op.leavesMemory = false ∧ (g.node n).op ≠ .ret
  spun : ∀ b z, g.Reached b → leave b = some z → ∃ m ks, g.Incoming r leave b m ∧ g.Threaded r b m ks z

/-! ## Graphs that are changed -/

/-- In the threads of another graph, the node `k` makes way for the nodes of `σ k`. -/
structure Reweaves (g g' : Graph) (r r' : NodeId → NodeId) (σ : NodeId → List NodeId) : Prop where
  same : ∀ a c, r a = r c → r' a = r' c
  thread : ∀ b q k p, g.Takes r b q k → g.Leaves r b k p → g'.Thread r' b q (σ k) p
  complete : ∀ x, (g'.node x).op.leavesMemory = true → ∃ k, (g.node k).op.leavesMemory = true ∧
    (g'.node x).block = (g.node k).block ∧ x ∈ σ k
  nodup : ∀ k, (σ k).Nodup
  apart : ∀ k k' x, (g.node k).op.leavesMemory = true → (g.node k').op.leavesMemory = true → x ∈ σ k → x ∈ σ k' → k = k'

/-- Control leads to no other blocks there, and returns stay. -/
structure Conveys (g g' : Graph) (r r' : NodeId → NodeId) (σ : NodeId → List NodeId) :
    Prop extends Reweaves g g' r r' σ where
  reached : ∀ b, g'.Reached b → g.Reached b
  ret : ∀ x, (g'.node x).op = .ret → g.Kept g' r' x

section

variable {g g' : Graph} {r r' : NodeId → NodeId} {leave : BlockId → Option NodeId} {b : BlockId} {m : NodeId}

/-- Nodes stay, but for Phis, and for those that come to forward. -/
lemma Conveys.of_kept (same : ∀ a c, r a = r c → r' a = r' c) (reached : ∀ b, g'.Reached b → g.Reached b)
    (op : ∀ n, (g'.node n).op = (g.node n).op ∨ (g'.node n).op = .forward)
    (kept : ∀ n, (g.node n).op ≠ .phi → (g.node n).op ≠ .forward → g.Kept g' r' n) :
    Conveys g g' r r' fun k => [k] := by
  have leaves : ∀ {n}, (g.node n).op.leavesMemory = true → g.Kept g' r' n := fun {n} h =>
    kept n (fun hp => by simp [hp, Op.leavesMemory, Op.takesMemory] at h) (op_ne_forward_of_leaves h)
  refine ⟨⟨same, fun b q k p hk hp => ?_, fun x hx => ?_, fun k => nodup_singleton k, fun k k' x _ _ hx hx' => ?_⟩,
    reached,
    fun x hx => ?_⟩
  · refine .map same (.single hk hp) (fun j hj => ?_) fun j hj q hq => kept q (by simp [hq.op]) (by simp [hq.op])
    rw [mem_singleton.1 hj]; exact leaves hk.op
  · have e := (op x).resolve_right (op_ne_forward_of_leaves hx)
    rw [e] at hx; exact ⟨x, hx, (leaves hx).block, mem_singleton_self x⟩
  · rw [← mem_singleton.1 hx, mem_singleton.1 hx']
  · have e := (op x).resolve_right (by simp [hx])
    rw [e] at hx; exact kept x (by simp [hx]) (by simp [hx])

lemma Conveys.linear {σ : NodeId → List NodeId} (C : Conveys g g' r r' σ) (L : g.Linear r leave)
    (hi : ∀ b m, g.Reached b → g.Incoming r leave b m → g'.Incoming r' leave b m) : g'.Linear r' leave := by
  have ret : ∀ {x}, (g'.node x).op = .ret → (g.node x).op = .ret ∧ (g'.node x).block = (g.node x).block := fun h =>
    ⟨(C.ret _ h).op ▸ h, (C.ret _ h).block⟩
  refine ⟨fun b hb hl x hx => ?_, fun b z hb hl => ?_⟩
  · have idle := L.idle b (C.reached b hb) hl
    refine ⟨Bool.eq_false_iff.2 fun ho => ?_, fun ho => ?_⟩
    · obtain ⟨k, hk, hkb, -⟩ := C.complete x ho; simp [(idle k (hkb.symm.trans hx)).1] at hk
    · obtain ⟨ho, hb⟩ := ret ho; exact (idle x (hb.symm.trans hx)).2 ho
  obtain ⟨m, ks, I, T⟩ := L.spun b z (C.reached b hb) hl
  refine ⟨m, ks.flatMap σ, hi b m (C.reached b hb) I, T.thread.flatMap C.same fun k _ q p => C.thread b q k p, ?_,
    fun x hx ho => ?_,
    fun x hx ho => ?_, fun x x' hx hx' ho ho' => ?_⟩
  · refine nodup_flatMap.2 ⟨fun k _ => C.nodup k, Pairwise.imp_of_mem (fun {k k'} hk hk' hne x hx hx' => ?_) T.nodup⟩
    exact hne (C.apart k k' x (T.thread.mem_op k hk).2 (T.thread.mem_op k' hk').2 hx hx')
  · obtain ⟨k, hk, hkb, hmem⟩ := C.complete x ho
    exact mem_flatMap.2 ⟨k, T.complete k (hkb.symm.trans hx) hk, hmem⟩
  · obtain ⟨ho', hb⟩ := ret ho
    obtain ⟨h, hh, hs⟩ := T.ret x (hb.symm.trans hx) ho'
    obtain ⟨h', hh', hs'⟩ := (C.ret x ho).head hh; exact ⟨h', hh', hs'.trans (C.same _ _ hs)⟩
  · exact T.ret_unique x x' ((ret ho).2.symm.trans hx) ((ret ho').2.symm.trans hx') (ret ho).1 (ret ho').1

/-- What a block is entered with stays, where a Phi stays or is replaced by what its operands stand for. -/
lemma Incoming.later (I : g.Incoming g.resolve leave b m) (S : g.Settled) (S' : g'.Settled)
    (hblock : g'.block b = g.block b)
    (hpred : ∀ e ∈ (g.block b).preds, g'.predBlock e = g.predBlock e) (same : ∀ a c, g.Same a c → g'.Same a c)
    (start : ∀ n, (g.node n).op = .start → g'.node n = g.node n)
    (proj : ∀ n c number, (g.node n).op = .proj number → (g.node n).inputs = [c] → (g.node c).op = .start →
    g'.node n = g.node n)
    (phi : ∀ n, (g.node n).op = .phi → g'.node n = g.node n ∨ ∀ i ∈ (g.node n).inputs, g'.Same i n) :
    g'.Incoming g'.resolve leave b m := by
  cases I with
  | first hb op tuple hs =>
    have hm := proj m _ _ op tuple hs
    exact .first hb (by rwa [hm]) (by rwa [hm]) (by rwa [start _ hs])
  | merged hb op block operands =>
    have hsame : g'.Same m (g.resolve m) := same _ _ (S.same_resolve m).symm
    rcases phi _ op with hnode | hall
    · -- the Phi stays
      have hres : g'.resolve m = g.resolve m := Eq.trans hsame (S'.resolve_of_op (by simp [hnode, op]))
      refine .merged hb (by rwa [hres, hnode]) (by rwa [hres, hnode]) ?_
      rw [hres, hnode, hblock]
      refine forall₂_iff_get.2 ⟨operands.length_eq, fun k h1 h2 => ?_⟩
      obtain ⟨z, hz, he⟩ := operands.get h1 h2
      exact ⟨z, by rwa [hpred _ (get_mem _ _)], same _ _ he⟩
    · -- the Phi is replaced, so that its operands stand for the same
      refine .same hb fun e he => ?_
      rw [hblock] at he
      obtain ⟨k, hk, rfl⟩ := getElem_of_mem he
      have hk' : k < (g.node (g.resolve m)).inputs.length := operands.length_eq ▸ hk
      obtain ⟨z, hz, hs⟩ := operands.get hk' hk
      refine ⟨z, by rwa [hpred _ he], ?_⟩
      exact (same _ _ hs).trans ((hall _ (getElem_mem hk')).trans hsame.symm)
  | same hb states =>
    refine .same hb fun e he => ?_
    rw [hblock] at he
    obtain ⟨z, hz, hs⟩ := states e he; exact ⟨z, by rwa [hpred e he], same _ _ hs⟩

lemma Linear.refines (L : g.Linear g.resolve leave) (S : g.Settled) (S' : g'.Settled) (R : g.Refines g') :
    g'.Linear g'.resolve leave :=
  (Conveys.of_kept R.same (fun b => (R.reached b).1) R.op fun n hp _ => .of_eq (R.keep n hp)).linear L
    fun b _ _ I => I.later S S' (by simp [block, R.blocks]) (R.predBlock b) R.same (fun n h => R.keep n (by simp [h]))
      (fun n _ _ h _ _ => R.keep n (by simp [h])) fun n h => (R.merged n h).imp_left (R.phi n)

end

/-! ## Graphs that are redirected -/

section Redirect

variable {g : Graph} {leave : BlockId → Option NodeId}

lemma Settled.kept_redirect (S : g.Settled) {n : NodeId} (hn : (g.node n).op ≠ .forward) :
    g.Kept g.redirect g.redirect.resolve n := by
  refine ⟨op_redirect g n, block_node_redirect g n, ?_⟩
  rw [inputs_redirect hn, map_map]
  refine map_congr_left fun i _ => ?_
  rw [Function.comp_apply, S.resolve_redirect, S.resolve_redirect, S.resolve_resolve]

lemma Linear.redirect (L : g.Linear g.resolve leave) (S : g.Settled) : g.redirect.Linear g.redirect.resolve leave := by
  have hr : g.redirect.resolve = g.resolve := funext S.resolve_redirect
  have hpred : ∀ e, g.redirect.predBlock (g.resolve e) = g.predBlock e := fun e =>
    (S.predBlock_redirect _).trans (S.predBlock_resolve e)
  have C : Conveys g g.redirect g.resolve g.redirect.resolve fun k => [k] := .of_kept (fun a c h => by rwa [hr])
    (fun b => (S.reached_redirect b).1) (fun n => .inl (op_redirect g n)) fun _ _ => S.kept_redirect
  refine C.linear L fun b m _ I => ?_
  cases I with
  | first hb op tuple hs =>
    refine .first hb (by rwa [op_redirect]) ?_ (by rwa [op_redirect])
    rw [inputs_redirect (by simp [op]), tuple, map_singleton, S.resolve_of_op (by simp [hs])]
  | merged hb op block operands =>
    refine .merged hb (by rwa [hr, op_redirect]) (by rwa [hr, block_node_redirect]) ?_
    rw [hr, inputs_redirect (by simp [op]), block_redirect, forall₂_map_left_iff, forall₂_map_right_iff]
    refine operands.imp fun i e h => ?_
    obtain ⟨z, hz, he⟩ := h; exact ⟨z, by rwa [hpred], by rwa [S.resolve_resolve]⟩
  | same hb states =>
    refine .same hb fun e he => ?_
    rw [block_redirect] at he
    obtain ⟨d, hd, rfl⟩ := mem_map.1 he
    obtain ⟨z, hz, hs⟩ := states d hd; exact ⟨z, by rwa [hpred], by rwa [hr]⟩

lemma Linear.direct (L : g.Linear g.resolve leave) (S : g.Settled)
    (hi : ∀ n, (g.node n).op ≠ .forward → ∀ i ∈ (g.node n).inputs, g.resolve i = i) :
    g.Linear id fun b => (leave b).map g.resolve := by
  have hmap : ∀ {b z}, leave b = some z → (leave b).map g.resolve = some (g.resolve z) := fun h => by simp [h]
  have hhead : ∀ {n h}, (g.node n).op ≠ .forward → (g.node n).inputs.head? = some h → g.resolve h = h :=
    fun hn hh => hi _ hn _ (mem_of_mem_head? hh)
  have hthread : ∀ {b : BlockId} {ks : List NodeId} {m z : NodeId}, g.Thread g.resolve b m ks z →
      g.Thread id b (g.resolve m) ks (g.resolve z) := by
    intro b ks
    induction ks with
    | nil => exact fun T => T
    | cons k ks ih =>
      rintro m z ⟨hk, p, hp, T⟩
      have hkf := op_ne_forward_of_leaves hk.op
      have hpf : (g.node p).op ≠ .forward := by simp [hp.op]
      obtain ⟨h, hh, e⟩ := hk.memory
      obtain ⟨t, ht, e'⟩ := hp.tuple
      have htk : t = k := by rw [← S.resolve_of_op hkf, ← e', hi p hpf t (by rw [ht]; exact mem_cons_self)]
      refine ⟨⟨hk.block, hk.op, h, hh, ?_⟩, p, ⟨hp.block, hp.op, t, ht, htk⟩, ?_⟩
      · rw [id, id, ← e, hhead hkf hh]
      · rw [← S.resolve_of_op hpf]; exact ih T
  refine ⟨fun b hb hl => L.idle b hb (Option.map_eq_none_iff.1 hl), fun b z hb hl => ?_⟩
  obtain ⟨z, hz, rfl⟩ := Option.map_eq_some_iff.1 hl
  obtain ⟨m, ks, I, T⟩ := L.spun b z hb hz
  refine ⟨g.resolve m, ks, ?_, hthread T.thread, T.nodup, T.complete, fun n hn ho => ?_, T.ret_unique⟩
  · cases I with
    | first hb op tuple hs => rw [S.resolve_of_op (by simp [op])]; exact .first hb op tuple hs
    | merged hb op block operands =>
      refine .merged hb op block (forall₂_iff_get.2 ⟨operands.length_eq, fun k h1 h2 => ?_⟩)
      obtain ⟨z, hz, he⟩ := operands.get h1 h2
      refine ⟨g.resolve z, hmap hz, ?_⟩
      rw [he]; exact hi _ (by simp [op]) _ (get_mem _ _)
    | same hb states =>
      refine .same hb fun e he => ?_
      obtain ⟨z, hz, hs⟩ := states e he; exact ⟨g.resolve z, hmap hz, hs⟩
  · obtain ⟨h, hh, e⟩ := T.ret n hn ho; exact ⟨h, hh, by rw [id, id, ← e, hhead (by simp [ho]) hh]⟩

end Redirect

/-! ## Graphs that are pruned -/

lemma forall₂_keepFlagged {α β : Type} {R : α → β → Prop} {f : β → Bool} {l : List α} {u : List β}
    (h : Forall₂ R l u) : Forall₂ R (keepFlagged (u.map f) l) (u.filter f) := by
  induction h with
  | nil => exact .nil
  | @cons a b l u hr _ ih =>
    rw [map_cons, keepFlagged_cons, filter_cons]
    split
    · exact .cons hr ih
    · exact ih

lemma Linear.pruned {g : Graph} {leave : BlockId → Option NodeId} (L : g.Linear g.resolve leave) (G : g.Unpruned) :
    g.pruned.Linear g.pruned.resolve leave := by
  have hr : g.pruned.resolve = g.resolve := funext G.resolve_pruned
  have C : Conveys g g.pruned g.resolve g.pruned.resolve fun k => [k] := .of_kept (fun a c h => by rwa [hr])
    (fun b => (G.reached_pruned b).1) (fun n => .inl (G.op_pruned n)) fun _ hp _ => .of_eq (G.node_pruned_of_op hp)
  refine C.linear L fun b m hb I => ?_
  cases I with
  | first hb op tuple hs =>
    have hm := G.node_pruned_of_op (n := m) (by rw [op]; simp)
    exact .first hb (by rwa [hm]) (by rwa [hm]) (by rwa [G.op_pruned])
  | merged hne op block operands =>
    refine .merged hne (by rwa [hr, G.op_pruned]) (by rwa [hr, G.block_node_pruned]) ?_
    rw [hr, G.inputs_pruned op (by rwa [block]), G.preds_pruned hb, block]
    refine (forall₂_keepFlagged operands).imp fun i e h => ?_
    rwa [G.predBlock_pruned]
  | same hne states =>
    refine .same hne fun e he => ?_
    rw [G.predBlock_pruned, hr]; exact states e (G.preds_subset_pruned he)

/-! ## States are taken once -/

namespace Linear

variable {g : Graph} {leave : BlockId → Option NodeId} {b : BlockId} {m k : NodeId}

/-- A state that a node of `b` leaves is not the first one, nor merged. -/
lemma same_of_left (hk : (g.node k).op.leavesMemory = true) (hm : g.Leaves id b k m) {c : BlockId}
    (I : g.Incoming id leave c m) :
    c ≠ startBlock ∧ ∀ e ∈ (g.block c).preds, leave (g.predBlock e) = some m := by
  cases I with
  | first hb op tuple hs =>
    obtain ⟨t, ht, rfl⟩ := hm.tuple
    rw [tuple] at ht
    cases ht
    rw [show (g.node (id start)).op = .start from hs] at hk; cases hk
  | merged hb op =>
    have := hm.op
    rw [show (g.node m).op = .phi from op] at this; cases this
  | same hb states =>
    refine ⟨hb, fun e he => ?_⟩
    obtain ⟨z, hz, rfl⟩ := states e he; exact hz

/-- Before `b` is entered, no block leaves a state that comes from `b`. -/
lemma not_before (L : g.Linear id leave) (hk : (g.node k).op.leavesMemory = true) (hm : g.Leaves id b k m) :
    ∀ {w : Walk}, g.IsWalk w → b ∉ w.blocks → leave w.last ≠ some m := by
  intro w
  induction w with
  | nil =>
    intro hw hb hl
    obtain ⟨q, ks, I, T⟩ := L.spun _ m ⟨[], hw, rfl⟩ hl
    rcases T.thread.last_state with ⟨-, rfl⟩ | ⟨j, -, hj⟩
    · exact (same_of_left hk hm I).1 rfl
    · exact hb (by rw [← hm.block, hj.block]; exact Walk.last_mem_blocks [])
  | cons s w ih =>
    intro hw hb hl
    obtain ⟨q, ks, I, T⟩ := L.spun _ m ⟨s :: w, hw, rfl⟩ hl
    rcases T.thread.last_state with ⟨-, rfl⟩ | ⟨j, -, hj⟩
    · -- the block has left the state as it came
      obtain ⟨e, he, hlast⟩ := hw.edge
      refine ih hw.2 (fun h => hb ?_) (hlast ▸ (same_of_left hk hm I).2 e (mem_of_getElem? he))
      exact .tail _ h
    · exact hb (by rw [← hm.block, hj.block]; exact Walk.last_mem_blocks (s :: w))

lemma not_left (L : g.Linear id leave) (hr : g.Reached b) (I : g.Incoming id leave b m)
    (hk : (g.node k).op.leavesMemory = true) : ¬ g.Leaves id b k m := by
  intro hm
  obtain ⟨hb, hstates⟩ := same_of_left hk hm I
  obtain ⟨w, hw, rfl⟩ := hr
  obtain ⟨j, w0, h0, hnot, -⟩ := hw.first_visit hb (Walk.last_mem_blocks w)
  obtain ⟨e, he, hlast⟩ := h0.edge
  exact L.not_before hk hm h0.2 hnot (hlast ▸ hstates e (mem_of_getElem? he))

lemma taken_once (L : g.Linear id leave) (hr : g.Reached b) {n n' : NodeId} (hn : (g.node n).block = b)
    (hn' : (g.node n').block = b) (ho : (g.node n).op.leavesMemory = true ∨ (g.node n).op = .ret)
    (ho' : (g.node n').op.leavesMemory = true ∨ (g.node n').op = .ret)
    (hsame : (g.node n).inputs.head? = (g.node n').inputs.head?) : n = n' := by
  cases hl : leave b with
  | none =>
    obtain ⟨h1, h2⟩ := L.idle b hr hl n hn
    rcases ho with ho | ho
    · simp [h1] at ho
    · exact absurd ho h2
  | some z =>
    obtain ⟨m, ks, I, T⟩ := L.spun b z hr hl
    obtain ⟨hone, hlast⟩ := T.thread.linear T.nodup fun k hk => L.not_left hr I (T.thread.mem_op k hk).2
    have hret : ∀ {j}, (g.node j).block = b → (g.node j).op = .ret → (g.node j).inputs.head? = some z := by
      intro j hj hop
      obtain ⟨h, hh, rfl⟩ := T.ret j hj hop; exact hh
    rcases ho with ho | ho <;> rcases ho' with ho' | ho'
    · exact hone n (T.complete n hn ho) n' (T.complete n' hn' ho') hsame
    · exact absurd (hsame.trans (hret hn' ho')) (hlast n (T.complete n hn ho))
    · exact absurd (hsame.symm.trans (hret hn ho)) (hlast n' (T.complete n' hn' ho'))
    · exact T.ret_unique n n' hn hn' ho ho'

end Linear

end JvmGraph.Graph
