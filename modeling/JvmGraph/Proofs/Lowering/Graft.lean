import JvmGraph.Proofs.Lowering.Insertion

/-!
# Changing a graph in place

New nodes are put in, nodes are changed, and others come to stand for new ones. That reworks a graph, where at most
one node of the threads makes way for the nodes that were put in.
-/

namespace JvmGraph.Graph

open List

variable {c : NodeId} {l : List (NodeId × NodeId)} {C : NodeId → Prop}

variable {g g' g1 g2 : Graph} {b : BlockId} {n m p : NodeId} {ks : List NodeId}

/-! ## Forwarding several nodes -/

/-- The first of each pair comes to stand for the second. -/
structure Forwards (g g' : Graph) (l : List (NodeId × NodeId)) : Prop where
  size : g'.nodes.size = g.nodes.size
  blocks : g'.blocks = g.blocks
  settled : g'.Settled
  other : ∀ x, (∀ y ∈ l, y.1 ≠ x) → g'.node x = g.node x
  gone : ∀ y ∈ l, (g'.node y.1).op = .forward ∧ (g'.node y.1).block = (g.node y.1).block
  resolve_gone : ∀ y ∈ l, ∀ x, g.resolve x = y.1 → g'.resolve x = y.2
  resolve_other : ∀ x, (∀ y ∈ l, y.1 ≠ g.resolve x) → g'.resolve x = g.resolve x

lemma forwards_foldl (S : g.Settled) (hl : l.Pairwise fun y z => y.1 ≠ z.1)
    (hk : ∀ y ∈ l, y.1.index < g.nodes.size ∧ (g.node y.1).op ≠ .forward)
    (hv : ∀ y ∈ l, y.2.index < g.nodes.size ∧ (g.node y.2).op ≠ .forward ∧ ∀ z ∈ l, z.1 ≠ y.2) :
    g.Forwards (l.foldl (fun g y => g.exchange y.1 y.2) g) l := by
  induction l generalizing g with
  | nil => exact ⟨rfl, rfl, S, fun _ _ => rfl, nofun, nofun, fun _ _ => rfl⟩
  | cons y l ih =>
    obtain ⟨hy, hl⟩ := pairwise_cons.1 hl
    obtain ⟨hlt, hf⟩ := hk y (.head _)
    obtain ⟨hlt', hf', hother⟩ := hv y (.head _)
    have hne : y.1 ≠ y.2 := hother y (.head _)
    have hnode := node_exchange hne hlt
    have hres := S.resolve_exchange hne hlt hlt' hf hf'
    have hkeep : ∀ z ∈ l, (g.exchange y.1 y.2).node z.1 = g.node z.1 := fun z hz => by
      rw [hnode, if_neg (Ne.symm (hy z hz))]
    have F := ih (S.exchange hne hlt hlt' hf hf') hl
      (fun z hz => by rw [hkeep z hz, size_exchange]; exact hk z (.tail _ hz))
      fun z hz => by
        obtain ⟨h1, h2, h3⟩ := hv z (.tail _ hz)
        rw [hnode, if_neg (Ne.symm (h3 y (.head _))), size_exchange]
        exact ⟨h1, h2, fun w hw => h3 w (.tail _ hw)⟩
    refine ⟨F.size.trans size_exchange, F.blocks.trans blocks_exchange, F.settled, fun x hx => ?_,
      fun z hz => ?_, fun z hz x hx => ?_,
      fun x hx => ?_⟩
    · rw [foldl_cons, F.other x fun z hz => hx z (.tail _ hz), hnode, if_neg (Ne.symm (hx y (.head _)))]
    · rcases mem_cons.1 hz with rfl | hz
      · rw [foldl_cons, F.other z.1 fun w hw => Ne.symm (hy w hw), hnode, if_pos rfl]
        exact ⟨rfl, rfl⟩
      · rw [← hkeep z hz]; exact F.gone z hz
    · rcases mem_cons.1 hz with rfl | hz
      · have e : (g.exchange z.1 z.2).resolve x = z.2 := by rw [hres, if_pos hx]
        rw [foldl_cons, F.resolve_other x (by rw [e]; exact fun w hw => hother w (.tail _ hw)), e]
      · exact F.resolve_gone z hz x (by rw [hres, if_neg (by rw [hx]; exact Ne.symm (hy z hz)), hx])
    · have e : (g.exchange y.1 y.2).resolve x = g.resolve x := by rw [hres, if_neg (Ne.symm (hx y (.head _)))]
      rw [foldl_cons, F.resolve_other x (by rw [e]; exact fun w hw => hx w (.tail _ hw)), e]

/-! ## Changed nodes and new ones -/

lemma Reworkable.op_ne {x : NodeId} (h : g.Reworkable x) : (g.node x).op ≠ .forward ∧ (g.node x).op ≠ .bad := by
  rcases h with h | h | ⟨_, _, _, h, -⟩
  · constructor <;> intro e <;> rw [e] at h <;> cases h
  · simp [h]
  · simp [h]

lemma Spun.patch_setNode (Sp : g.Spun g' b m ks p) {op : Op} (inputs : List NodeId) (hc : g.Reworkable c)
    (hp : ∀ number, (g.node c).op ≠ .proj number) (ho : op.isLowered = true) (hf : op ≠ .forward)
    (hm : op ≠ .proj Projection.memory) : g.Patch (g'.setNode c { g'.node c with op, inputs }) (· = c) b m ks p := by
  have hlt : g.Has c := lt_of_op hc.op_ne.2
  have hnode : ∀ x, (g'.setNode c { g'.node c with op, inputs }).node x =
    if x = c then { g'.node c with op, inputs } else g'.node x := by
    intro x
    rw [node_setNode]; simp [lt_of_lt_of_le hlt Sp.size_le]
  have hnew : ∀ x, g.nodes.size ≤ x.index → (g'.setNode c { g'.node c with op, inputs }).node x = g'.node x := by
    intro x hx
    rw [hnode, if_neg]
    rintro rfl; omega
  refine ⟨by rw [size_setNode]; exact Sp.size_le, Sp.blocks, fun x hx hne => ?_, fun x hx => hx ▸ hc, fun x hx => ?_,
    fun x hx => ?_,
    fun x hx ho t ht => ?_, ?_, Sp.nodup, Sp.new, fun x hx hl => ?_⟩
  · rw [hnode, if_neg hne, Sp.keep x hx id]
  · rw [hnode, if_pos hx, hx]; exact ⟨ho, hf, hm, by rw [Sp.keep c hlt id]⟩
  · rw [hnew x hx]; exact Sp.fresh x hx
  · rw [hnew x hx] at ho ht; exact Sp.tuple x hx ho t ht
  · refine Sp.thread.map (fun _ _ h => h) (fun k hk => .of_eq (hnew k (Sp.new k hk))) fun k hk q hq => .of_eq ?_
    rw [hnode, if_neg]
    rintro rfl
    have := hq.op
    rw [Sp.keep q hlt id] at this; exact hp _ this
  · rw [hnew x hx] at hl; exact Sp.complete x hx hl

namespace Patch

variable (P : g.Patch g' C b m ks p)

include P

lemma target? (x : NodeId) : g'.target? x = g.target? x := by
  by_cases hx : g.Has x
  · by_cases hC : C x
    · rw [target?_eq_none_of_op (P.changed x hC).2.1, target?_eq_none_of_op (P.old x hC).op_ne.1]
    · simp [Graph.target?, P.keep x hx hC]
  · have hx := not_lt.1 hx
    rw [target?_eq_none_of_op (P.fresh x hx).2.1, target?_eq_none_of_op (by simp [node_of_le hx])]

lemma settled (S : g.Settled) : g'.Settled := by
  refine S.congr P.size_le P.target? fun x hx => ?_
  have hlt : g.Has x := not_le.1 fun h => (P.fresh x h).2.1 hx
  exact P.keep x hlt fun hC => (P.changed x hC).2.1 hx

lemma resolve (S : g.Settled) (x : NodeId) : g'.resolve x = g.resolve x := S.resolve_congr (P.settled S) P.target? x

end Patch

/-- Nodes are changed or put in, and others then come to stand for nodes that were put in. The first of each pair of
`l` stands for the second. -/
structure Graft (g g' g'' : Graph) (C : NodeId → Prop) (l : List (NodeId × NodeId)) (b : BlockId) (m : NodeId)
    (ks : List NodeId)
    (p : NodeId) : Prop extends g.Patch g' C b m ks p where
  before : g.Settled
  forwards : g'.Forwards g'' l
  key : ∀ y ∈ l, g.Reworkable y.1 ∧ ¬ C y.1
  value : ∀ y ∈ l, g.nodes.size ≤ y.2.index
  /-- What stands for a node has been computed where the node had. -/
  dom : ∀ y ∈ l, ∀ w : Walk, g.IsWalk w → (g.node y.1).block ∈ w.blocks → b ∈ w.blocks
  inhabited : ∃ n, (g.node n).block = b

/-- A node that is changed or comes to stand for another. -/
def Altered (C : NodeId → Prop) (l : List (NodeId × NodeId)) (c : NodeId) : Prop := C c ∨ ∃ y ∈ l, y.1 = c

lemma Patch.graft (P : g.Patch g' C b m ks p) (S : g.Settled)
    (hl : l.Pairwise fun y z => y.1 ≠ z.1) (hk : ∀ y ∈ l, g.Reworkable y.1 ∧ ¬ C y.1)
    (hv : ∀ y ∈ l, g.nodes.size ≤ y.2.index ∧ y.2.index < g'.nodes.size)
    (hd : ∀ y ∈ l, ∀ w, g.IsWalk w → (g.node y.1).block ∈ w.blocks → b ∈ w.blocks) (hb : ∃ n, (g.node n).block = b) :
    Graft g g' (l.foldl (fun g y => g.exchange y.1 y.2) g') C l b m ks p := by
  have hlt : ∀ y ∈ l, y.1.index < g.nodes.size := fun y hy => lt_of_op (hk y hy).1.op_ne.2
  refine ⟨P, S, forwards_foldl (P.settled S) hl (fun y hy => ?_) fun y hy => ?_, hk, fun y hy => (hv y hy).1, hd, hb⟩
  · rw [P.keep y.1 (hlt y hy) (hk y hy).2]
    exact ⟨lt_of_lt_of_le (hlt y hy) P.size_le, (hk y hy).1.op_ne.1⟩
  · refine ⟨(hv y hy).2, (P.fresh y.2 (hv y hy).1).2.1, fun z hz e => ?_⟩
    exact absurd (e ▸ hlt z hz) (not_lt.2 (hv y hy).1)

namespace Graft

variable {g'' : Graph} (G : Graft g g' g'' C l b m ks p) {y : NodeId × NodeId} {d : BlockId} {k z : NodeId}

include G

lemma key_lt (hy : y ∈ l) : y.1.index < g.nodes.size := lt_of_op (G.key y hy).1.op_ne.2

lemma key_ne (hc : g.nodes.size ≤ c.index) : ∀ y ∈ l, y.1 ≠ c := by
  rintro y hy rfl
  exact absurd (G.key_lt hy) (not_lt.2 hc)

lemma node_new (hc : g.nodes.size ≤ c.index) : g''.node c = g'.node c := G.forwards.other c (G.key_ne hc)

lemma node_kept (hc : g.Has c) (h : ¬ Altered C l c) : g''.node c = g.node c := by
  obtain ⟨hC, hl⟩ := not_or.1 h
  rw [G.forwards.other c fun y hy e => hl ⟨y, hy, e⟩, G.keep c hc hC]

lemma node_changed (hc : C c) : g''.node c = g'.node c := G.forwards.other c fun y hy e => (G.key y hy).2 (e ▸ hc)

lemma node_block (hc : g.Has c) : (g''.node c).block = (g.node c).block := by
  by_cases hl : ∃ y ∈ l, y.1 = c
  · obtain ⟨y, hy, rfl⟩ := hl; rw [(G.forwards.gone y hy).2, G.keep _ hc (G.key y hy).2]
  · by_cases hC : C c
    · rw [G.node_changed hC]; exact (G.changed c hC).2.2.2
    · rw [G.node_kept hc fun h => h.elim hC hl]

lemma resolve_gone (hy : y ∈ l) (h : g.resolve c = y.1) : g''.resolve c = y.2 :=
  G.forwards.resolve_gone y hy c (by rw [G.resolve G.before, h])

lemma resolve_other (h : ∀ y ∈ l, y.1 ≠ g.resolve c) : g''.resolve c = g.resolve c := by
  rw [G.forwards.resolve_other c (by rwa [G.resolve G.before]), G.resolve G.before]

lemma resolve_self (hf : (g.node c).op ≠ .forward) (h : ∀ y ∈ l, y.1 ≠ c) : g''.resolve c = c := by
  have hc := G.before.resolve_of_op hf
  rw [G.resolve_other (by rwa [hc]), hc]

lemma same {a : NodeId} (h : g.Same a c) : g''.Same a c := by
  show g''.resolve a = g''.resolve c
  by_cases hl : ∃ y ∈ l, y.1 = g.resolve a
  · obtain ⟨y, hy, e⟩ := hl; rw [G.resolve_gone hy e.symm, G.resolve_gone hy (by rw [← h, e])]
  · have hl : ∀ y ∈ l, y.1 ≠ g.resolve a := fun y hy e => hl ⟨y, hy, e⟩
    rw [G.resolve_other hl, G.resolve_other (by rwa [← h]), h]

lemma home (hc : g.Has c) {w : Walk} (hw : g.IsWalk w) (hmem : (g.node (g.resolve c)).block ∈ w.blocks) :
    (g''.node (g''.resolve c)).block ∈ w.blocks := by
  by_cases hl : ∃ y ∈ l, y.1 = g.resolve c
  · obtain ⟨y, hy, e⟩ := hl
    rw [G.resolve_gone hy e.symm, G.node_new (G.value y hy)]
    rcases (G.fresh _ (G.value y hy)).2.2 with h | h
    · rw [h]; exact G.dom y hy w hw (by rwa [e])
    · rw [h]; exact Walk.start_mem_blocks w
  · rwa [G.resolve_other fun y hy e => hl ⟨y, hy, e⟩, G.node_block (G.before.resolve_lt hc)]

lemma left (hk : g.Has k) (hf : (g.node k).op ≠ .forward) (hF : ¬ Altered C l k)
    (hz : g''.Leaves g''.resolve d k z) : g.Leaves g.resolve d k z := by
  obtain ⟨t, ht, hr⟩ := hz.tuple
  rw [G.resolve_self hf fun y hy e => hF (.inr ⟨y, hy, e⟩)] at hr
  by_cases hlt : g.Has z
  · have hFz : ¬ Altered C l z := by
      have hop := hz.op
      rintro (h | ⟨y, hy, rfl⟩)
      · rw [G.node_changed h] at hop; exact (G.changed z h).2.2.1 hop
      · simp [(G.forwards.gone y hy).1] at hop
    have hnode := G.node_kept hlt hFz
    refine ⟨by rw [← hnode]; exact hz.block, by rw [← hnode]; exact hz.op, t, by rwa [← hnode], ?_⟩
    rw [G.before.resolve_of_op hf]
    by_cases hl : ∃ y ∈ l, y.1 = g.resolve t
    · obtain ⟨y, hy, e⟩ := hl
      have hval := G.value y hy
      rw [← G.resolve_gone hy e.symm, hr] at hval; omega
    · rw [← hr, G.resolve_other fun y hy e => hl ⟨y, hy, e⟩]
  · -- a new projection takes a new node apart
    have hlt := not_lt.1 hlt
    have hop := hz.op
    rw [G.node_new hlt] at hop ht
    have hnew := G.tuple z hlt hop t (by rw [ht]; exact mem_cons_self)
    rw [G.resolve_self (by simp [node_of_le hnew]) (G.key_ne hnew)] at hr
    rw [hr] at hnew; omega

lemma leaves (hz : g.Leaves g.resolve d k z) (h : ¬ Altered C l z) : g''.Leaves g''.resolve d k z := by
  have hnode := G.node_kept (lt_of_op_eq hz.op) h
  obtain ⟨t, ht, hr⟩ := hz.tuple
  exact ⟨by rw [hnode]; exact hz.block, by rw [hnode]; exact hz.op, t, by rwa [hnode], G.same hr⟩

lemma spun (hz : ∀ k ∈ ks, ∀ z, g'.Leaves id b k z → ∀ y ∈ l, y.1 ≠ z) : g''.Thread g''.resolve b m ks p :=
  G.thread.map (fun _ _ h => congrArg g''.resolve h) (fun k hk => .of_eq (G.node_new (G.new k hk)))
    fun k hk z h => .of_eq (G.forwards.other z (hz k hk z h))

end Graft

structure Pivots (g g'' : Graph) (C : NodeId → Prop) (l : List (NodeId × NodeId)) (b : BlockId)
    (ks : List NodeId) (x : NodeId)
    (news : List NodeId) : Prop where
  nodup : news.Nodup
  changed : ∀ c, C c → c = x
  thread : ∀ b q p, g.Takes g.resolve b q x → g.Leaves g.resolve b x p → g''.Thread g''.resolve b q news p
  /-- Other nodes of the threads stay, and what takes them apart does. -/
  spare : ∀ k, k ≠ x → (g.node k).op.leavesMemory = true → (∀ y ∈ l, y.1 ≠ k) ∧
    ∀ b p, g.Leaves g.resolve b k p → ¬ Altered C l p
  all : ks ≠ [] → (g.node x).op.leavesMemory = true ∧ (g.node x).block = b ∧ ∀ k ∈ ks, k ∈ news
  only : ∀ k ∈ news, k ∈ ks ∨ k = x
  self : x.index < g.nodes.size → (g''.node x).op.leavesMemory = true → x ∈ news ∧ (g.node x).op.leavesMemory = true

lemma Graft.reworks {g'' : Graph} (G : Graft g g' g'' C l b m ks p) (x : NodeId)
    (news : List NodeId) (V : Pivots g g'' C l b ks x news) :
    g.Reworks g'' (Altered C l) (fun k => if k = x then news else [k]) := by
  refine ⟨⟨fun _ _ => G.same, fun d q k z hk hz => ?_, fun c hc => ?_, fun k => ?_, fun k k' c hk hk' hc hc' => ?_⟩,
    by rw [G.forwards.size]; exact G.size_le, G.forwards.blocks.trans G.blocks, G.forwards.settled, fun c hc => ?_,
    fun _ => G.node_kept, fun _ => G.node_block, fun c hc => ?_, fun c hc => ?_, fun _ hc _ => G.home hc,
      fun _ _ _ => G.left⟩
  · by_cases hkx : k = x
    · rw [if_pos hkx]; subst hkx; exact V.thread d q z hk hz
    · rw [if_neg hkx]
      obtain ⟨hl, hp⟩ := V.spare k hkx hk.op
      have T : g.Thread g.resolve d q [k] z := .single hk hz
      refine T.map (fun _ _ => G.same) (fun j hj => .of_eq ?_) fun j hj z hz => .of_eq ?_ <;>
        rw [mem_singleton.1 hj] at *
      · exact G.node_kept (lt_of_leaves hk.op) fun h => h.elim (fun h => hkx (V.changed k h))
          fun ⟨y, hy, e⟩ => hl y hy e
      · exact G.node_kept (lt_of_op_eq hz.op) (hp d z hz)
  · by_cases hlt : g.Has c
    · by_cases hcx : c = x
      · subst hcx
        obtain ⟨hmem, hleaves⟩ := V.self hlt hc
        exact ⟨c, hleaves, G.node_block hlt, by rwa [if_pos rfl]⟩
      · have hF : ¬ Altered C l c := by
          rintro (h | ⟨y, hy, rfl⟩)
          · exact hcx (V.changed c h)
          · rw [(G.forwards.gone y hy).1] at hc; cases hc
        rw [G.node_kept hlt hF] at hc
        exact ⟨c, hc, G.node_block hlt, by rw [if_neg hcx]; exact mem_singleton_self c⟩
    · have hlt := not_lt.1 hlt
      rw [G.node_new hlt] at hc ⊢
      have hmem := G.complete c hlt hc
      obtain ⟨hx, hxb, hsub⟩ := V.all (ne_nil_of_mem hmem)
      exact ⟨x, hx, by rw [(G.thread.mem_op c hmem).1, hxb], by rw [if_pos rfl]; exact hsub c hmem⟩
  · split
    · exact V.nodup
    · exact nodup_singleton k
  · -- what was put in is not one of the old nodes
    have cross : ∀ {j}, (g.node j).op.leavesMemory = true → j ≠ x → c ∈ news → c ∉ [j] := by
      intro j hj hjx hc hcj
      rw [mem_singleton.1 hcj] at hc
      rcases V.only j hc with h | h
      · exact absurd (lt_of_leaves hj) (not_lt.2 (G.new j h))
      · exact hjx h
    by_cases hkx : k = x <;> by_cases hkx' : k' = x
    · rw [hkx, hkx']
    · rw [if_pos hkx] at hc; rw [if_neg hkx'] at hc'; exact absurd hc' (cross hk' hkx' hc)
    · rw [if_neg hkx] at hc; rw [if_pos hkx'] at hc'; exact absurd hc (cross hk hkx hc')
    · rw [if_neg hkx] at hc
      rw [if_neg hkx'] at hc'
      rw [← mem_singleton.1 hc, mem_singleton.1 hc']
  · rcases hc with hc | ⟨y, hy, rfl⟩
    · exact G.old c hc
    · exact (G.key y hy).1
  · rw [G.node_new hc]
    rcases (G.fresh c hc).2.2 with h | h
    · obtain ⟨n, hn⟩ := G.inhabited; exact .inr ⟨n, by rw [h, hn]⟩
    · exact .inl h
  · rcases hc with (hc | ⟨y, hy, rfl⟩) | hc
    · rw [G.node_changed hc]; exact (G.changed c hc).1
    · rw [(G.forwards.gone y hy).1]; rfl
    · rw [G.node_new hc]; exact (G.fresh c hc).1

end JvmGraph.Graph
