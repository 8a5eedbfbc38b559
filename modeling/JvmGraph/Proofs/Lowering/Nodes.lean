import JvmGraph.Proofs.Lowering.Graft
import JvmGraph.Proofs.Lowering.Source

/-!
# Lowering nodes

A node that speaks of objects is changed in place, or forwards to what was put in for it. An allocation makes way
for a call and stores, and a call of a method that has to be found is preceded by what finds it. In each case
the graph is reworked, in nodes that no other node to be lowered has to do with.
-/

namespace JvmGraph

open Steps List Projection Lower

variable {e : EntityId} {m p : NodeId} {number : Nat} {op : Op} {inputs : List NodeId}

namespace Graph

variable {g : Graph} {n x : NodeId} {g1 g' : Graph} {b : BlockId} {C : NodeId → Prop} {v : NodeId} {ks : List NodeId}

/-! ## What lowering a node may change -/

def Footprint (g : Graph) (n x : NodeId) : Prop :=
  x = n ∨ (∃ number, (x, number) ∈ g.uses.projections.getD n.index []) ∨ x ∈ g.uses.calls.getD n.index []

lemma mem_projections (hn : g.Has n) : (x, number) ∈ g.uses.projections.getD n.index [] ↔
    x ∈ g.liveNodes ∧ (g.node x).op = .proj number ∧ (g.node x).inputs.head? = some n := by
  rw [projections_uses hn, mem_filterMap]
  constructor
  · rintro ⟨y, hy, h⟩
    obtain ⟨rfl, ho, hi⟩ := projectionOf_eq_some.1 h; exact ⟨hy, ho, hi⟩
  · rintro ⟨hx, ho, hi⟩; exact ⟨x, hx, projectionOf_eq_some.2 ⟨rfl, ho, hi⟩⟩

lemma mem_calls (hn : g.Has n) : x ∈ g.uses.calls.getD n.index [] ↔
    x ∈ g.liveNodes ∧ (g.node x).op = .call ∧ ∃ h a rest, (g.node x).inputs = h :: a :: rest ∧ g.resolve a = n := by
  rw [calls_uses hn, mem_filter, callsThrough_iff]

lemma pairwise_projections (hn : g.Has n) :
    (g.uses.projections.getD n.index []).Pairwise fun y z => y.1 ≠ z.1 := by
  rw [projections_uses hn, pairwise_filterMap]
  refine g.nodup_liveNodes.imp fun {a c} hne y hy z hz => ?_
  rwa [(projectionOf_eq_some.1 hy).1, (projectionOf_eq_some.1 hz).1]

lemma Footprint.eq {n' : NodeId} (h : g.Footprint n x) (h' : g.Footprint n' x) (hn : g.Has n)
    (hn' : g.Has n') (ho : (g.node n).op.isObjectOp = true) (ho' : (g.node n').op.isObjectOp = true) : n = n' := by
  unfold Footprint at h h'
  simp only [mem_projections hn, mem_calls hn] at h
  simp only [mem_projections hn', mem_calls hn'] at h'
  rcases h with rfl | ⟨number, -, hop, hi⟩ | ⟨-, hop, _, a, _, hi, hr⟩ <;>
    rcases h' with rfl | ⟨number', -, hop', hi'⟩ | ⟨-, hop', _, a', _, hi', hr'⟩
  · rfl
  · rw [hop'] at ho; cases ho
  · rw [hop'] at ho; cases ho
  · rw [hop] at ho'; cases ho'
  · rw [hi] at hi'; exact Option.some.inj hi'
  · simp [hop] at hop'
  · rw [hop] at ho'; cases ho'
  · simp [hop] at hop'
  · rw [hi] at hi'
    cases hi'
    rw [← hr, hr']

lemma Lowerable.calls (L : g.Lowerable) (hn : n ∈ g.liveNodes) (ho : (g.node n).op = .methodSel e) :
    g.uses.calls.getD n.index [] = [⟨n.index + 1⟩] := by
  obtain ⟨hlt, -, hdead⟩ := mem_liveNodes.1 hn
  obtain ⟨h, rest, rest', hi, hco, hcb, hci⟩ := (L.selective n).select e ho
  have hnr : g.resolve n = n := L.proper.settled.resolve_of_op (by rw [ho]; simp)
  have hmem : ∀ c, c ∈ g.uses.calls.getD n.index [] ↔ c = ⟨n.index + 1⟩ := by
    intro c
    rw [mem_calls hlt]
    constructor
    · rintro ⟨-, hc, h, a, rest, hin, hr⟩
      have ha : a = n := by rw [← L.direct c (by rw [hc]; simp) a (by rw [hin]; simp), hr]
      obtain ⟨h', a', rest', hin', hcase⟩ := (L.selective c).callee hc
      rw [hin] at hin'
      cases hin'
      rcases hcase with ⟨e', he'⟩ | ⟨-, hidx⟩
      · rw [ha, ho] at he'; cases he'
      · rw [← ha, ← hidx]
    · rintro rfl
      exact ⟨mem_liveNodes.2 ⟨lt_of_op_eq hco, by rw [hco]; simp, by rwa [hcb]⟩, hco, h, n, rest', hci, hnr⟩
  have hnd : (g.uses.calls.getD n.index []).Nodup := by
    rw [calls_uses hlt]; exact g.nodup_liveNodes.filter _
  exact perm_singleton.1 ((perm_ext_iff_of_nodup hnd (nodup_singleton _)).2 fun c => by rw [hmem, mem_singleton])

lemma IsWalk.upto {c : BlockId} : ∀ {w : Walk}, g.IsWalk w → c ∈ w.blocks →
    ∃ w0, g.IsWalk w0 ∧ w0.last = c ∧ ∀ d ∈ w0.blocks, d ∈ w.blocks
  | [], hw, hc => ⟨[], hw, (mem_singleton.1 hc).symm, fun _ h => h⟩
  | (b, k) :: w, hw, hc => by
    rw [Walk.blocks_cons, mem_cons] at hc
    rcases hc with rfl | hc
    · exact ⟨_, hw, rfl, fun _ h => h⟩
    · obtain ⟨w0, hw0, hlast, hsub⟩ := hw.2.upto hc
      exact ⟨w0, hw0, hlast, fun d hd => by exact .tail _ (hsub d hd)⟩

/-- The node `n` of the graph `g` is about to be lowered in `g'`: what lowering it may change is still as it was. -/
structure Ready (g g' : Graph) (n : NodeId) : Prop where
  live : n ∈ g.liveNodes
  object : (g.node n).op.isObjectOp = true
  settled : g'.Settled
  walk : ∀ w, g'.IsWalk w → g.IsWalk w
  same : ∀ x, g.Footprint n x → g'.node x = g.node x
  left : ∀ b p, g'.Leaves g'.resolve b n p → g.Leaves g.resolve b n p

namespace Ready

variable (R : Ready g g' n)

include R

lemma node : g'.node n = g.node n := R.same n (.inl rfl)

lemma object' : (g'.node n).op.isObjectOp = true := by
  rw [R.node]
  exact R.object

lemma lt : g.Has n := (mem_liveNodes.1 R.live).1

lemma reworkable : g'.Reworkable n := .inl R.object'

lemma ne_proj (h : (g'.node p).op = .proj number) : p ≠ n := by
  rintro rfl
  have := R.object'
  rw [h] at this
  cases this

end Ready

/-! ## Changing a node in place -/

lemma Ready.become (R : Ready g g1 n) (Sp : g1.Spun g' b m [] p)
    (hb : (g1.node n).block = b) (ho : op.isLowered = true) (hf : op ≠ .forward)
    (hm : op ≠ .proj memory) (hl : op.leavesMemory = (g1.node n).op.leavesMemory)
    (hh : (g1.node n).op.leavesMemory = true → ∀ h, (g1.node n).inputs.head? = some h → inputs.head? = some h) :
    ∃ F σ, g1.Reworks (g'.setNode n { g'.node n with op, inputs }) F σ ∧ F n ∧ ∀ x, F x → x = n := by
  have P := Sp.patch_setNode inputs R.reworkable (fun number h => R.ne_proj h rfl) ho hf hm
  have G : Graft g1 _ (g'.setNode n { g'.node n with op, inputs }) (· = n) [] b m [] p :=
    P.graft R.settled .nil (nofun) (nofun) (nofun) ⟨n, hb⟩
  have hlt : g1.Has n := lt_of_op R.reworkable.op_ne.2
  have hnode : (g'.setNode n { g'.node n with op, inputs }).node n = { g1.node n with op, inputs } := by
    rw [node_setNode, if_pos ⟨rfl, lt_of_lt_of_le hlt Sp.size_le⟩, Sp.keep n hlt id]
  have hother : ∀ {z number}, (g1.node z).op = .proj number → ¬ Altered (· = n) [] z :=
    fun hz h => h.elim (fun e => R.ne_proj hz e) fun ⟨_, hy, _⟩ => nomatch hy
  refine ⟨_, _, G.reworks n [n] ⟨nodup_singleton n, fun _ h => h, fun c q z hk hz => ?_,
    fun k hk hl => ⟨nofun, fun _ _ hp => hother hp.op⟩, fun h => absurd rfl h,
    fun k hk => .inr (mem_singleton.1 hk), fun _ h => ⟨mem_singleton_self n, ?_⟩⟩, .inl rfl,
    fun x hx => hx.resolve_right fun ⟨_, hy, _⟩ => nomatch hy⟩
  · obtain ⟨h, hin, hr⟩ := hk.memory
    exact .single ⟨by rw [hnode]; exact hk.block, by rw [hnode]; exact hl.trans hk.op,
      h, by rw [hnode]; exact hh hk.op h hin, G.same hr⟩
      (G.leaves hz (hother hz.op))
  · rw [hnode] at h; exact hl.symm.trans h

/-! ## Letting a node stand for another -/

lemma altered_one (h : Altered C [(n, v)] x) : C x ∨ x = n :=
  h.imp_right fun ⟨_, hy, e⟩ => by rw [← e, mem_singleton.1 hy]

lemma Ready.graft (R : Ready g g1 n) (P : g1.Patch g' C b m ks p) (hC : ¬ C n) (hb : (g1.node n).block = b)
    (hv : g1.nodes.size ≤ v.index ∧ g'.Has v) : Graft g1 g' (g'.exchange n v) C [(n, v)] b m ks p := by
  refine P.graft (l := [(n, v)]) R.settled (pairwise_singleton _ _) (fun y hy => ?_) (fun y hy => ?_)
    (fun y hy => ?_) ⟨n, hb⟩ <;>
    rw [mem_singleton.1 hy]
  · exact ⟨R.reworkable, hC⟩
  · exact hv
  · exact fun w _ h => hb ▸ h

lemma Ready.bind (R : Ready g g1 n) (ho : (g.node n).op = .methodSel e)
    (Sp : g1.Spun g' b m [] p) (hb : (g1.node n).block = b) (hv : g1.nodes.size ≤ v.index ∧ g'.Has v) :
    ∃ F σ, g1.Reworks (g'.exchange n v) F σ ∧ F n ∧ ∀ x, F x → x = n := by
  have G := R.graft Sp id hb hv
  have halt : ∀ x, Altered (fun _ => False) [(n, v)] x → x = n := fun x h => (altered_one h).resolve_left id
  have hn : (g1.node n).op.leavesMemory = false := by rw [R.node, ho]; rfl
  refine ⟨_, _, G.reworks n [n] ⟨nodup_singleton n, fun _ h => h.elim, fun c q z hk _ => ?_, fun k hk hl => ?_,
    fun h => absurd rfl h, fun k hk => .inr (mem_singleton.1 hk), fun _ h => ?_⟩, .inr ⟨_, mem_singleton_self _, rfl⟩,
      halt⟩
  · simp [hk.op] at hn
  · exact ⟨fun y hy e => hk (by rw [← e, mem_singleton.1 hy]), fun c z hz h => R.ne_proj hz.op (halt z h)⟩
  · rw [(G.forwards.gone _ (mem_singleton_self _)).1] at h; cases h

/-! ## Allocations -/

/-- The nodes that stand for what takes an allocation apart, and for the allocation. -/
def tuplePairs (ps : List (NodeId × Nat)) (n : NodeId) (i : Lower.Inserted) : List (NodeId × NodeId) :=
  ps.map (fun y => (y.1, if y.2 = Projection.memory then i.memory else i.result)) ++ [(n, i.node)]

lemma foldl_tuplePairs (g : Graph) (ps : List (NodeId × Nat)) (n : NodeId) (i : Inserted) :
    (tuplePairs ps n i).foldl (fun g y => g.exchange y.1 y.2) g = (g.replaceTuple ps i.memory i.result).exchange
    n i.node := by
  rw [tuplePairs, foldl_append, foldl_map]
  rfl

lemma mem_tuplePairs {ps : List (NodeId × Nat)} {i : Inserted} {y : NodeId × NodeId} (hy : y ∈ tuplePairs ps n i) :
    (y.1 = n ∨ ∃ number, (y.1, number) ∈ ps) ∧ (y.2 = i.node ∨ y.2 = i.memory ∨ y.2 = i.result) := by
  rcases mem_append.1 hy with hy | hy
  · obtain ⟨⟨x, number⟩, hx, rfl⟩ := mem_map.1 hy
    refine ⟨.inr ⟨number, hx⟩, .inr ?_⟩
    by_cases h : number = memory
    · exact .inl (if_pos h)
    · exact .inr (if_neg h)
  · rw [mem_singleton.1 hy]; exact ⟨.inl rfl, .inl rfl⟩

section Alloc

variable {i : Inserted} {type : TypeRef} (R : Ready g g1 n)

include R

lemma Ready.proj (hx : (x, number) ∈ g.uses.projections.getD n.index []) :
    (g.node x).op = .proj number ∧ (g.node x).inputs.head? = some n ∧ g1.node x = g.node x := by
  obtain ⟨-, hop, hin⟩ := (mem_projections R.lt).1 hx
  exact ⟨hop, hin, R.same x (.inr (.inl ⟨number, hx⟩))⟩

lemma Ready.proj_of_key (hx : (g1.node x).op = .proj number)
    (h : ∃ y ∈ tuplePairs (g.uses.projections.getD n.index []) n i, y.1 = x) : (g1.node x).inputs.head? = some n := by
  obtain ⟨y, hy, rfl⟩ := h
  rcases (mem_tuplePairs hy).1 with e | ⟨_, hy⟩
  · exact absurd e (R.ne_proj hx)
  · obtain ⟨-, hin, e⟩ := R.proj hy; rwa [e]

lemma Ready.pairwise_tuplePairs (i : Inserted) :
    (tuplePairs (g.uses.projections.getD n.index []) n i).Pairwise fun y z => y.1 ≠ z.1 := by
  refine pairwise_append.2 ⟨pairwise_map.2 (pairwise_projections R.lt), pairwise_singleton _ _, fun y hy z hz => ?_⟩
  obtain ⟨⟨x, number⟩, hx, rfl⟩ := mem_map.1 hy
  rw [mem_singleton.1 hz]
  exact R.ne_proj (by rw [(R.proj hx).2.2]; exact (R.proj hx).1)

section

variable (L : g.Lowerable) (ho : (g.node n).op = .alloc type)
  (Sp : g1.Spun g' b ((g1.node n).inputs.getD 0 n) ks i.memory) (hb : (g1.node n).block = b)
  (hv : ∀ v, v = i.node ∨ v = i.memory ∨ v = i.result → g1.nodes.size ≤ v.index ∧ g'.Has v)

include L ho

include Sp hb hv in
lemma Ready.graft_alloc :
    Graft g1 g' ((g'.replaceTuple (g.uses.projections.getD n.index []) i.memory i.result).exchange n i.node)
      (fun _ => False) (tuplePairs (g.uses.projections.getD n.index []) n i) b ((g1.node n).inputs.getD 0 n) ks
      i.memory := by
  rw [← foldl_tuplePairs]
  refine Sp.graft R.settled (R.pairwise_tuplePairs i) (fun y hy => ⟨?_, id⟩) (fun y hy => hv _ (mem_tuplePairs hy).2)
    (fun y hy w hw hmem => ?_) ⟨n, hb⟩
  · rcases (mem_tuplePairs hy).1 with e | ⟨number, hy⟩
    · rw [e]; exact R.reworkable
    · obtain ⟨hop, hin, e⟩ := R.proj hy
      exact .inr (.inr ⟨number, n, type, by rwa [e], by rwa [e], by rwa [R.node]⟩)
  · rcases (mem_tuplePairs hy).1 with e | ⟨number, hy⟩
    · rwa [← hb, ← e]
    · -- the allocation is computed wherever it is taken apart
      obtain ⟨hop, hin, e⟩ := R.proj hy
      rw [e] at hmem
      obtain ⟨w0, hw0, hlast, hsub⟩ := (R.walk w hw).upto hmem
      have h := (L.proper.uses y.1 (by simp [hop]) (by simp [hop]) n (mem_of_mem_head? hin) w0 hw0 hlast).mem_blocks
      rw [L.proper.settled.resolve_of_op (by simp [ho]), ← R.node, hb] at h; exact hsub b h

lemma Ready.leaves_alloc {z : NodeId} (hz : g1.Leaves g1.resolve (g1.node n).block n z) :
    (z, i.memory) ∈ tuplePairs (g.uses.projections.getD n.index []) n i := by
  have hz := R.left _ z hz
  obtain ⟨t, ht, hr⟩ := hz.tuple
  rw [L.direct z (by simp [hz.op]) t (by simp [ht]), L.proper.settled.resolve_of_op (by simp [ho])] at hr
  have hlive := mem_liveNodes.1 R.live
  have hzl : (z, memory) ∈ g.uses.projections.getD n.index [] := (mem_projections R.lt).2
    ⟨mem_liveNodes.2 ⟨lt_of_op_eq hz.op, by rw [hz.op]; simp, by rw [hz.block, R.node]; exact hlive.2.2⟩, hz.op,
      by simp [ht, hr]⟩
  exact mem_append_left _ (mem_map.2 ⟨_, hzl, by rw [if_pos rfl]⟩)

include Sp hb hv in
lemma Ready.alloc :
    ∃ F σ, g1.Reworks ((g'.replaceTuple (g.uses.projections.getD n.index []) i.memory i.result).exchange n i.node) F σ ∧
      F n ∧ ∀ x, F x → g.Footprint n x := by
  have G := R.graft_alloc L ho Sp hb hv
  have hself : (n, i.node) ∈ tuplePairs (g.uses.projections.getD n.index []) n i := mem_append_right _ (by simp)
  have hlt : g1.Has n := lt_of_op R.reworkable.op_ne.2
  refine ⟨_, _, G.reworks n ks ⟨Sp.nodup, fun _ h => h.elim, fun c q z hk hz => ?_,
    fun k hk hleave => ⟨fun y hy e => ?_, fun c z hz halt => ?_⟩,
    fun _ => ⟨by rw [R.node, ho]; rfl, hb, fun _ h => h⟩, fun k hk => .inl hk, fun _ h => ?_⟩, .inr ⟨_, hself, rfl⟩, ?_⟩
  · obtain ⟨h, hh, hq⟩ := hk.memory
    obtain rfl := hk.block
    have hzl := R.leaves_alloc (i := i) L ho hz
    have hnew := (hv i.memory (.inr (.inl rfl))).1
    have T := G.spun fun k hk z hz y hy e => by
      have hlt' := G.key_lt hy
      rw [e] at hlt'
      obtain ⟨t, ht, hr⟩ := hz.tuple
      have hop := hz.op
      rw [Sp.keep z hlt' id] at hop ht
      have hin := R.proj_of_key hop ⟨y, hy, e⟩
      rw [ht] at hin
      cases hin
      rw [show n = k from hr] at hlt; exact absurd hlt (not_lt.2 (Sp.new k hk))
    rw [hb]
    refine (T.congr_left ?_).congr_right ?_
    · rw [show (g1.node n).inputs.getD 0 n = h by simp [← head?_eq_getElem?, hh]]
      exact G.same hq
    · rw [G.resolve_gone hzl (R.settled.resolve_of_op (by simp [hz.op])),
        G.resolve_self (by simp [node_of_le hnew]) (G.key_ne hnew)]
  · rcases (mem_tuplePairs hy).1 with e' | ⟨_, hy⟩
    · exact hk (e.symm.trans e')
    · rw [← e, (R.proj hy).2.2, (R.proj hy).1] at hleave; cases hleave
  · have hin := R.proj_of_key hz.op (halt.resolve_left id)
    obtain ⟨t, ht, hr⟩ := hz.tuple
    rw [ht] at hin
    cases hin
    rw [R.settled.resolve_of_op R.reworkable.op_ne.1, R.settled.resolve_of_op (op_ne_forward_of_leaves hleave)] at hr
    exact hk hr.symm
  · rw [(G.forwards.gone _ hself).1] at h; cases h
  · rintro x (h | ⟨y, hy, rfl⟩)
    · exact h.elim
    · exact (mem_tuplePairs hy).1.imp_right .inl

end

end Alloc

/-! ## Calls of methods that have to be found -/

lemma Ready.find (L : g.Lowerable) (R : Ready g g1 n)
    (ho : (g.node n).op = .methodSel e) (Sp : g1.Spun g' b ((g1.node n).inputs.getD 0 n) ks p)
    (hb : (g1.node n).block = b) (hv : g1.nodes.size ≤ v.index ∧ g'.Has v) :
    ∃ F σ, g1.Reworks (((g.uses.calls.getD n.index []).foldl (rethreadCall p) g').exchange n v) F σ ∧ F n ∧
      ∀ x, F x → g.Footprint n x := by
  have hcalls := L.calls R.live ho
  obtain ⟨h, rest, rest', hin, hco, hcb, hci⟩ := (L.selective n).select e ho
  generalize hc : (⟨n.index + 1⟩ : NodeId) = c at hcalls hco hcb hci
  have hfoot : g.Footprint n c := .inr (.inr (by rw [hcalls]; exact mem_singleton_self c))
  have hc1 := R.same c hfoot
  rw [← hc1] at hco hcb hci
  rw [← R.node] at ho hin hcb
  have hne : n ≠ c := by
    rw [← hc]
    intro e; exact absurd (congrArg NodeId.index e) (by simp)
  have hlt : g1.Has c := lt_of_op_eq hco
  have hop : (g'.node c).op = .call := by rwa [Sp.keep c hlt id]
  have P : g1.Patch (rethreadCall p g' c) (· = c) b ((g1.node n).inputs.getD 0 n) ks p :=
    Sp.patch_setNode _ (.inr (.inl hco)) (by rw [hco]; simp) (by rw [hop]; rfl) (by rw [hop]; simp) (by rw [hop]; simp)
  have G := R.graft P hne hb (v := v) (by rwa [rethreadCall, Has, size_setNode])
  have hproj : ∀ {z number}, (g1.node z).op = .proj number → ¬ Altered (· = c) [(n, v)] z := by
    intro z number hz h
    rcases altered_one h with rfl | rfl
    · rw [hco] at hz; cases hz
    · exact R.ne_proj hz rfl
  have hnode :
    ((rethreadCall p g' c).exchange n v).node c = { g1.node c with inputs := p :: (g1.node c).inputs.drop 1 } := by
    rw [G.node_changed rfl, rethreadCall, node_setNode, if_pos ⟨rfl, lt_of_lt_of_le hlt Sp.size_le⟩, Sp.keep c hlt id]
  have hkey : ∀ {k}, k ≠ n → ∀ y ∈ [(n, v)], y.1 ≠ k := by
    intro k hk y hy
    rw [mem_singleton.1 hy]; exact Ne.symm hk
  rw [hcalls]
  refine ⟨_, _, G.reworks c (ks ++ [c]) ⟨?_, fun _ h => h, fun d q z hk hz => ?_,
    fun k hk hl => ⟨hkey ?_, fun _ z hz => hproj hz.op⟩,
      fun _ => ⟨by rw [hco]; rfl, hcb.trans hb, fun k hk => mem_append_left _ hk⟩,
    fun k hk => (mem_append.1 hk).imp_right mem_singleton.1, fun _ _ => ⟨by simp, by rw [hco]; rfl⟩⟩,
    .inr ⟨_, mem_singleton_self _, rfl⟩, fun x hx => ?_⟩
  · refine nodup_append.2 ⟨Sp.nodup, nodup_singleton c, fun k hk j hj e => ?_⟩
    rw [mem_singleton.1 hj] at e
    rw [← e] at hlt; exact absurd hlt (not_lt.2 (Sp.new k hk))
  · obtain ⟨h', hh', hq⟩ := hk.memory
    rw [hci] at hh'
    cases hh'
    obtain rfl : b = d := hb.symm.trans (hcb.symm.trans hk.block)
    have T := G.spun fun k hk z hz => hkey fun e => by
      have hz := hz.op
      rw [e, rethreadCall, node_setNode, if_neg fun h => hne h.1, Sp.keep n (lt_of_op R.reworkable.op_ne.2) id,
        ho] at hz
      cases hz
    have T' : ((rethreadCall p g' c).exchange n v).Thread ((rethreadCall p g' c).exchange n v).resolve b p [c] z :=
      .single ⟨by rw [hnode]; exact hk.block, by rw [hnode]; exact hk.op, p, by rw [hnode]; rfl, rfl⟩
        (G.leaves hz (hproj hz.op))
    refine (T.congr_left ?_).append T'
    rw [hin]; exact G.same hq
  · rintro rfl; rw [ho] at hl; cases hl
  · rcases altered_one hx with rfl | rfl
    · exact hfoot
    · exact .inl rfl

end Graph

namespace Lower

variable {g : Graph} {n : NodeId} {s s' : Lowering} {u : Unit}

structure Done (g : Graph) (n : NodeId) (s s' : Lowering) : Prop where
  uses : s'.uses = s.uses
  reworks : ∃ F σ, s.graph.Reworks s'.graph F σ ∧ F n ∧ ∀ x, F x → g.Footprint n x

lemma modifyGraph_ok {f : Graph → Graph} : modifyGraph f s = .ok u s' ↔ s' = { s with graph := f s.graph } := by
  unfold modifyGraph
  rw [onGraph_ok]
  exact ⟨fun h => h.2, fun h => ⟨rfl, h⟩⟩

section Ready

variable (R : g.Ready s.graph n) {type : TypeRef} {flavour : Flavour}

include R

lemma within_ready : Within s n (s.graph.node n).block := ⟨Graph.lt_of_op R.reworkable.op_ne.2, rfl⟩

lemma become_done {s1 : Lowering} (Sp : Spins s s1 (s.graph.node n).block m [] p)
    (h : become n op inputs s1 = .ok u s') (ho : op.isLowered = true) (hf : op ≠ .forward)
    (hm : op ≠ .proj memory) (hl : op.leavesMemory = (s.graph.node n).op.leavesMemory)
    (hh : (s.graph.node n).op.leavesMemory = true → inputs.head? = some ((s.graph.node n).inputs.getD 0 n)) :
    Done g n s s' := by
  cases h
  obtain ⟨F, σ, Rw, hn, hF⟩ := R.become Sp.toPatch rfl ho hf hm hl fun hleave h hin => by
    rw [hh hleave, getD_eq_getElem?_getD, ← head?_eq_getElem?, hin]; rfl
  exact ⟨Sp.uses, F, σ, Rw, hn, fun x hx => .inl (hF x hx)⟩

lemma lowerSel_done (ho : (g.node n).op = .sel e) (h : lowerSel n e s = .ok u s') : Done g n s s' := by
  obtain ⟨q, s0, h0, h⟩ := bind_ok.1 h
  obtain ⟨rfl, rfl⟩ := program_ok.1 h0
  cases hf : (s.image.program.entityAt e).field?.bind Field.offset? with
  | none => simp only [hf] at h; exact absurd h throw_ok
  | some offset =>
    simp only [hf] at h
    obtain ⟨c, s1, h1, h⟩ := bind_ok.1 h
    have S := Quiet.constInt offset h1 (within_ready R) n
    have hop : (s.graph.node n).op.leavesMemory = false := by rw [R.node, ho]; rfl
    exact become_done R S (get_bind_ok.1 h) rfl (by simp) (by simp) hop.symm fun h => by cases hop.symm.trans h

lemma lowerArrayLength_done (ho : (g.node n).op = .arrayLength) (h : lowerArrayLength n s = .ok u s') :
    Done g n s s' := by
  obtain ⟨⟨m, a⟩, s0, h0, h⟩ := bind_ok.1 h
  cases h0
  obtain ⟨c, s1, h1, h⟩ := bind_ok.1 h
  have S1 := Quiet.constInt _ h1 (within_ready R) n
  obtain ⟨place, s2, h2, h⟩ := bind_ok.1 h
  have S2 := Quiet.addAt rfl h2 (S1.within (within_ready R)) n
  exact become_done R (S1.trans S2) h rfl (by simp) (by simp) (by rw [R.node, ho]; rfl) fun _ => rfl

lemma lowerInstanceOf_done (ho : (g.node n).op = .instanceOf type) (h : lowerInstanceOf n type s = .ok u s') :
    Done g n s s' := by
  obtain ⟨⟨m, a⟩, s0, h0, h⟩ := bind_ok.1 h
  obtain ⟨rfl, rfl, rfl⟩ := operands_ok h0
  obtain ⟨e, s1, h1, h⟩ := bind_ok.1 h
  have S1 := Quiet.classObject type h1 (within_ready R) n
  obtain ⟨place, s2, h2, h⟩ := bind_ok.1 h
  obtain ⟨callee, s3, h3, h⟩ := bind_ok.1 h
  have S2 := S1.trans (Quiet.address e h2 (S1.within (within_ready R)) n)
  have S3 := S2.trans (Quiet.functionAddress _ h3 (S2.within (within_ready R)) n)
  exact become_done R S3 h rfl (by simp) (by simp) (by rw [R.node, ho]; rfl) fun _ => rfl

variable (L : g.Lowerable) (hu : s.uses = g.uses)

include L hu

lemma lowerAlloc_done (ho : (g.node n).op = .alloc type)
    (h : lowerAlloc flavour n type s = .ok u s') : Done g n s s' := by
  unfold lowerAlloc at h
  obtain ⟨⟨m, a⟩, s0, h0, h⟩ := bind_ok.1 h
  obtain ⟨rfl, rfl, rfl⟩ := operands_ok h0
  obtain ⟨made, s1, h1, h⟩ := bind_ok.1 h
  obtain ⟨⟨ks, S⟩, hnode, hmemory, hresult⟩ := allocate_inserts flavour type h1 (within_ready R)
  replace h := get_bind_ok.1 h
  obtain ⟨_, s3, h3, h⟩ := bind_ok.1 h
  cases h3
  cases h
  refine ⟨S.uses, ?_⟩
  rw [S.uses, hu]
  refine R.alloc L ho S.toPatch rfl fun v hv => ?_
  rcases hv with rfl | rfl | rfl
  · exact hnode
  · exact hmemory
  · exact hresult

lemma lowerMethodSel_done (ho : (g.node n).op = .methodSel e) (h : lowerMethodSel n e s = .ok u s') :
    Done g n s s' := by
  have hfind : ∀ {s1 : Lowering} {x : NodeId}, (finding n).met s (s.graph.node n).block
    ((s.graph.node n).inputs.getD 0 n) x s1 →
      modifyGraph (fun g => g.exchange n x) s1 = .ok u s' → Done g n s s' := by
    rintro _ x ⟨s1, ks, p, S, hx, rfl⟩ h
    cases h
    refine ⟨S.uses, ?_⟩
    rw [hu]; exact R.find L ho S.toPatch rfl hx
  obtain ⟨q, s0, h0, h⟩ := bind_ok.1 h
  cases h0
  cases hm : (s.image.program.entityAt e).method? with
  | none => simp only [hm] at h; cases h
  | some m =>
    simp only [hm] at h
    obtain ⟨target, s1, h1, h⟩ := bind_ok.1 h
    unfold methodCode at h1
    have hknown : address (m.implementation?.getD e) s = .ok target s1 → Done g n s s' := by
      intro h1
      obtain ⟨S, hx⟩ := address_spins h1 (s.graph.node n).block n
      cases h
      obtain ⟨F, σ, Rw, hn, hF⟩ := R.bind ho S.toPatch rfl hx
      exact ⟨S.uses, F, σ, Rw, hn, fun x hx => .inl (hF x hx)⟩
    cases hb : m.binding <;> cases hs : m.slot? <;> rw [hb, hs] at h1
    case interface.none | interface.some => exact hfind (lookupMethod_finds h1 (within_ready R)) h
    case dynamic.some => exact hfind (loadSlot_finds h1 (within_ready R)) h
    all_goals exact hknown h1

lemma lowerNode_done (h : lowerNode flavour n s = .ok u s') : Done g n s s' := by
  unfold lowerNode at h
  replace h := get_bind_ok.1 h
  have hobject := R.object
  rw [R.node] at h
  cases ho : (g.node n).op <;> rw [ho] at h hobject
  case sel e => exact lowerSel_done R ho h
  case arrayLength => exact lowerArrayLength_done R ho h
  case instanceOf type => exact lowerInstanceOf_done R ho h
  case alloc type => exact lowerAlloc_done R L hu ho h
  case methodSel e => exact lowerMethodSel_done R L hu ho h
  all_goals cases hobject

end Ready

end Lower

end JvmGraph
