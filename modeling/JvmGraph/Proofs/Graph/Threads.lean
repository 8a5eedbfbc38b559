import JvmGraph.Proofs.Graph.Normal

/-!
# Threads of memory

Whatever touches memory takes a memory state and leaves a new one, which a projection hands on. The nodes of a
block that touch memory form a thread: each takes the state that the one before left, and the first takes
the state that the block was entered with.

While a graph is changed, references may go through forwarding nodes. So states are compared by what a
function `r` gives for them: `resolve` in such a graph, and `id` in one without forwarding nodes.
-/

namespace JvmGraph

open List

def Op.takesMemory : Op → Bool
  | .div | .mod | .ret | .load _ | .store | .call | .methodSel _ | .alloc _ | .arrayLength | .instanceOf _ => true
  | _ => false

def Op.leavesMemory : Op → Bool
  | .ret | .methodSel _ => false
  | op => op.takesMemory

def Op.isSelection : Op → Bool
  | .methodSel _ => true
  | _ => false

lemma Op.isSelection_of_leavesMemory {op : Op} (h : op.leavesMemory = true) : op.isSelection = false := by
  cases op <;> first | rfl | cases h

variable {n : NodeId}

namespace Graph

structure Takes (g : Graph) (r : NodeId → NodeId) (b : BlockId) (m k : NodeId) : Prop where
  block : (g.node k).block = b
  op : (g.node k).op.leavesMemory = true
  memory : ∃ h, (g.node k).inputs.head? = some h ∧ r h = r m

structure Leaves (g : Graph) (r : NodeId → NodeId) (b : BlockId) (k p : NodeId) : Prop where
  block : (g.node p).block = b
  op : (g.node p).op = .proj Projection.memory
  tuple : ∃ t, (g.node p).inputs = [t] ∧ r t = r k

def Thread (g : Graph) (r : NodeId → NodeId) (b : BlockId) : NodeId → List NodeId → NodeId → Prop
  | m, [], z => r m = r z
  | m, k :: ks, z => g.Takes r b m k ∧ ∃ p, g.Leaves r b k p ∧ Thread g r b p ks z

structure Threaded (g : Graph) (r : NodeId → NodeId) (b : BlockId) (first : NodeId) (ks : List NodeId) (last : NodeId) :
    Prop where
  thread : g.Thread r b first ks last
  nodup : ks.Nodup
  complete : ∀ n, (g.node n).block = b → (g.node n).op.leavesMemory = true → n ∈ ks
  ret : ∀ n, (g.node n).block = b → (g.node n).op = .ret → ∃ h, (g.node n).inputs.head? = some h ∧ r h = r last
  ret_unique : ∀ n n', (g.node n).block = b → (g.node n').block = b → (g.node n).op = .ret →
    (g.node n').op = .ret → n = n'

section Thread

variable {g g' : Graph} {r r' : NodeId → NodeId} {b : BlockId} {m m' k p z z' : NodeId} {ks ks' : List NodeId}

lemma Takes.congr (h : g.Takes r b m k) (hm : r m = r m') : g.Takes r b m' k :=
  ⟨h.block, h.op, h.memory.imp fun _ h => ⟨h.1, h.2.trans hm⟩⟩

namespace Thread

lemma congr_left (T : g.Thread r b m ks z) (h : r m = r m') : g.Thread r b m' ks z := by
  cases ks with
  | nil => exact h.symm.trans T
  | cons k ks => exact ⟨T.1.congr h, T.2⟩

lemma congr_right (h : r z = r z') : ∀ {ks : List NodeId} {m : NodeId}, g.Thread r b m ks z → g.Thread r b m ks z'
  | [], _, T => Eq.trans T h
  | _ :: _, _, ⟨hk, p, hp, T⟩ => ⟨hk, p, hp, T.congr_right h⟩

lemma append : ∀ {ks : List NodeId} {m : NodeId}, g.Thread r b m ks z → g.Thread r b z ks' z' →
    g.Thread r b m (ks ++ ks') z'
  | [], _, T, T' => T'.congr_left (Eq.symm T)
  | _ :: _, _, ⟨hk, p, hp, T⟩, T' => ⟨hk, p, hp, T.append T'⟩

lemma single (hk : g.Takes r b m k) (hp : g.Leaves r b k p) : g.Thread r b m [k] p := ⟨hk, p, hp, rfl⟩

lemma mem_op : ∀ {ks : List NodeId} {m : NodeId}, g.Thread r b m ks z → ∀ k ∈ ks,
    (g.node k).block = b ∧ (g.node k).op.leavesMemory = true
  | [], _, _, _, hk => nomatch hk
  | j :: ks, _, ⟨hj, _, _, T⟩, k, hk => by
    rcases mem_cons.1 hk with rfl | hk
    · exact ⟨hj.block, hj.op⟩
    · exact T.mem_op k hk

end Thread

/-- A node has the same operation in the same block, over inputs that are the same under `r`. -/
structure Kept (g g' : Graph) (r : NodeId → NodeId) (n : NodeId) : Prop where
  op : (g'.node n).op = (g.node n).op
  block : (g'.node n).block = (g.node n).block
  inputs : (g'.node n).inputs.map r = (g.node n).inputs.map r

lemma Kept.of_eq (h : g'.node n = g.node n) : g.Kept g' r n := ⟨by rw [h], by rw [h], by rw [h]⟩

lemma Kept.head {h : NodeId} (K : g.Kept g' r n) (hh : (g.node n).inputs.head? = some h) :
    ∃ h', (g'.node n).inputs.head? = some h' ∧ r h' = r h := by
  have e := congrArg List.head? K.inputs
  rwa [List.head?_map, List.head?_map, hh, Option.map_some, Option.map_eq_some_iff] at e

lemma Thread.map (hr : ∀ a c, r a = r c → r' a = r' c) : ∀ {ks : List NodeId} {m : NodeId}, g.Thread r b m ks z →
    (∀ k ∈ ks, g.Kept g' r' k) → (∀ k ∈ ks, ∀ p, g.Leaves r b k p → g.Kept g' r' p) → g'.Thread r' b m ks z
  | [], _, T, _, _ => hr _ _ T
  | k :: ks, m, ⟨hk, p, hp, T⟩, hks, hps => by
    have K := hks k (.head _)
    have Kp := hps k mem_cons_self p hp
    obtain ⟨h, hh, hm⟩ := hk.memory
    obtain ⟨h', hh', hm'⟩ := K.head hh
    obtain ⟨t, ht, htk⟩ := hp.tuple
    have hin := Kp.inputs
    rw [ht, map_singleton, map_eq_singleton_iff] at hin
    obtain ⟨t', ht', hr'⟩ := hin
    exact ⟨⟨K.block.trans hk.block, by rw [K.op]; exact hk.op, h', hh', hm'.trans (hr _ _ hm)⟩, p,
      ⟨Kp.block.trans hp.block, Kp.op.trans hp.op, t', ht', hr'.trans (hr _ _ htk)⟩,
      T.map hr (fun j hj => hks j (.tail _ hj)) fun j hj => hps j (.tail _ hj)⟩

lemma Thread.flatMap {σ : NodeId → List NodeId} (hr : ∀ a c, r a = r c → r' a = r' c) :
    ∀ {ks : List NodeId} {m : NodeId},
    g.Thread r b m ks z →
    (∀ k ∈ ks, ∀ q p, g.Takes r b q k → g.Leaves r b k p → g'.Thread r' b q (σ k) p) → g'.Thread r' b m (ks.flatMap σ) z
  | [], _, T, _ => hr _ _ T
  | k :: ks, _, ⟨hk, p, hp, T⟩, hσ => by
    exact (hσ k mem_cons_self _ p hk hp).append (T.flatMap hr fun j hj => hσ j (.tail _ hj))

/-! ## Nodes that stay -/

lemma lt_of_leaves (h : (g.node n).op.leavesMemory = true) : g.Has n := by
  refine lt_of_op fun hb => ?_
  rw [hb] at h
  cases h

lemma op_ne_forward_of_leaves (h : (g.node n).op.leavesMemory = true) : (g.node n).op ≠ .forward := by
  intro hf
  rw [hf] at h
  cases h

lemma Thread.keep (E : g.Extends g') (T : g.Thread id b m ks z) : g'.Thread id b m ks z :=
  T.map (fun _ _ h => h) (fun k hk => .of_eq (E.keep k (lt_of_leaves (T.mem_op k hk).2)))
    fun _ _ _ hp => .of_eq (E.keep_of_op hp.op)

/-! ## Touching memory -/

def touched (g : Graph) (b : BlockId) (op : Op) (m : NodeId) (inputs : List NodeId) : Graph :=
  ((g.add b op .tuple (m :: inputs)).2.add b (.proj Projection.memory) .memory [g.fresh]).2

section Touched

variable (g : Graph) (b : BlockId) (op : Op) (m : NodeId) (inputs : List NodeId)

lemma proj_add_memory : (g.add b op .tuple (m :: inputs)).2.proj g.fresh .memory Projection.memory =
    (⟨g.nodes.size + 1⟩, g.touched b op m inputs) := by
  unfold proj touched
  rw [node_add, if_pos rfl, ← size_add g b op .tuple (m :: inputs)]
  rfl

lemma node_touched (n : NodeId) : (g.touched b op m inputs).node n =
    if n.index = g.nodes.size + 1 then ⟨.proj Projection.memory, .memory, b, [g.fresh]⟩
    else if n.index = g.nodes.size then ⟨op, .tuple, b, m :: inputs⟩ else g.node n := by
  simp [touched, node_add, size_add]

lemma size_touched : (g.touched b op m inputs).nodes.size = g.nodes.size + 2 := by simp [touched]

lemma extends_touched : g.Extends (g.touched b op m inputs) := (Extends.add _ _ _ _ _).trans (.add _ _ _ _ _)

lemma node_touched_new : (g.touched b op m inputs).node g.fresh = ⟨op, .tuple, b, m :: inputs⟩ := by
  rw [node_touched, if_neg (by simp), if_pos rfl]

variable {g}

lemma op_touched_other (hn : g.nodes.size ≤ n.index) (hne : n ≠ g.fresh) :
    ((g.touched b op m inputs).node n).op = .proj Projection.memory ∨ ((g.touched b op m inputs).node n).op = .bad := by
  have h : n.index ≠ g.nodes.size := fun h => hne (by rw [fresh, ← h])
  rw [node_touched]
  by_cases hlast : n.index = g.nodes.size + 1
  · exact .inl (by rw [if_pos hlast])
  · exact .inr (by rw [if_neg hlast, if_neg h, node_of_le hn])

lemma takes_touched (ho : op.leavesMemory = true) : (g.touched b op m inputs).Takes id b m g.fresh := by
  have hk := g.node_touched_new b op m inputs
  exact ⟨by rw [hk], by rwa [hk], m, by simp [hk], rfl⟩

lemma leaves_touched : (g.touched b op m inputs).Leaves id b g.fresh ⟨g.nodes.size + 1⟩ := by
  have hp := (g.node_touched b op m inputs ⟨g.nodes.size + 1⟩).trans (if_pos rfl)
  exact ⟨by rw [hp], by rw [hp], _, by rw [hp], rfl⟩

end Touched

/-! ## States are taken once -/

lemma Thread.last_state : ∀ {ks : List NodeId} {m : NodeId}, g.Thread id b m ks z →
    (ks = [] ∧ z = m) ∨ ∃ k ∈ ks, g.Leaves id b k z
  | [], _, T => .inl ⟨rfl, Eq.symm T⟩
  | k :: ks, _, ⟨_, p, hp, T⟩ => by
    rcases T.last_state with ⟨-, rfl⟩ | ⟨j, hj, hz⟩
    · exact .inr ⟨k, (.head _), hp⟩
    · exact .inr ⟨j, .tail _ hj, hz⟩

lemma Thread.taken_state : ∀ {ks : List NodeId} {m : NodeId}, g.Thread id b m ks z → ∀ k ∈ ks, ∀ h,
    (g.node k).inputs.head? = some h → h = m ∨ ∃ j ∈ ks, g.Leaves id b j h
  | [], _, _, _, hk, _, _ => nomatch hk
  | j :: ks, _, ⟨hj, p, hp, T⟩, k, hk, h, hh => by
    rcases mem_cons.1 hk with rfl | hk
    · obtain ⟨h', hh', e⟩ := hj.memory
      rw [hh'] at hh
      cases hh
      exact .inl e
    · rcases T.taken_state k hk h hh with rfl | ⟨i, hi, hl⟩
      · exact .inr ⟨j, (.head _), hp⟩
      · exact .inr ⟨i, .tail _ hi, hl⟩

lemma Leaves.eq_of_id {j : NodeId} (h : g.Leaves id b k p) (h' : g.Leaves id b j p) : k = j := by
  obtain ⟨t, ht, rfl⟩ := h.tuple
  obtain ⟨t', ht', rfl⟩ := h'.tuple
  rw [ht] at ht'
  exact (List.cons.inj ht').1

lemma Thread.linear : ∀ {ks : List NodeId} {m : NodeId}, g.Thread id b m ks z → ks.Nodup →
    (∀ k ∈ ks, ¬ g.Leaves id b k m) →
    (∀ k ∈ ks, ∀ k' ∈ ks, (g.node k).inputs.head? = (g.node k').inputs.head? → k = k') ∧
      ∀ k ∈ ks, (g.node k).inputs.head? ≠ some z
  | [], _, _, _, _ => ⟨nofun, nofun⟩
  | k :: ks, m, ⟨hk, p, hp, T⟩, hn, hm => by
    obtain ⟨hnk, hn⟩ := nodup_cons.1 hn
    obtain ⟨hone, hlast⟩ := T.linear hn fun j hj hl => hnk (hp.eq_of_id hl ▸ hj)
    have htake : (g.node k).inputs.head? = some m := by
      obtain ⟨h, hh, e⟩ := hk.memory
      rw [hh, show h = m from e]
    have hm' : ∀ j ∈ ks, (g.node j).inputs.head? ≠ some m := by
      intro j hj h
      rcases T.taken_state j hj m h with rfl | ⟨i, hi, hl⟩
      · exact hm k mem_cons_self hp
      · exact hm i (.tail _ hi) hl
    refine ⟨fun a ha c hc hac => ?_, fun a ha hz => ?_⟩
    · rcases mem_cons.1 ha with rfl | ha' <;> rcases mem_cons.1 hc with rfl | hc'
      · rfl
      · exact absurd (hac ▸ htake) (hm' c hc')
      · exact absurd (hac ▸ htake) (hm' a ha')
      · exact hone a ha' c hc' hac
    · rcases mem_cons.1 ha with rfl | ha
      · rw [htake] at hz
        cases hz
        rcases T.last_state with ⟨-, rfl⟩ | ⟨j, hj, hl⟩
        · exact hm a mem_cons_self hp
        · exact hm j (mem_cons_of_mem _ hj) hl
      · exact hlast a ha hz

end Thread

end Graph

end JvmGraph
