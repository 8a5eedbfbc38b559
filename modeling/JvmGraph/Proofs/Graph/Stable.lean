import JvmGraph.Proofs.Graph.Normal

/-!
# Normal forms stay
Every round of replacing Phis that changes something leaves fewer Phis, so that as many rounds as there are nodes are
enough: no Phi of a block that is not dead merges a single value then. Normalising a graph in normal form does
nothing.
-/

namespace JvmGraph.Graph

open List

variable {g : Graph} {n v : NodeId}

def Stable (g : Graph) : Prop := ∀ n, g.simplifyPhi n = (g, false)

def phis (g : Graph) : Finset Nat := {i ∈ Finset.range g.nodes.size | (g.node ⟨i⟩).op = .phi}

lemma simplifyPhi_of_merge (hp : (g.node n).op = .phi) (hd : (g.block (g.node n).block).dead = false)
    (hm : g.merge n = .single v) : g.simplifyPhi n = (g.exchange n v, true) := by
  rw [simplifyPhi, if_pos (by simp [hp, hd]), hm]

lemma mem_phis {i : Nat} : i ∈ g.phis ↔ (g.node ⟨i⟩).op = .phi := by
  rw [phis, Finset.mem_filter, Finset.mem_range, and_iff_right_of_imp]
  exact lt_of_op_eq

lemma simplifyPhi_of_op (h : (g.node n).op ≠ .phi) : g.simplifyPhi n = (g, false) := by
  rw [simplifyPhi, if_neg (by simp [h])]

lemma phis_exchange (hp : (g.node n).op = .phi) (hne : n ≠ v) : (g.exchange n v).phis ⊂ g.phis := by
  have hlt : g.Has n := Finset.mem_range.1 (Finset.mem_filter.1 (mem_phis.2 hp)).1
  have hnode := node_exchange hne hlt
  refine Finset.ssubset_iff_of_subset (fun i hi => ?_) |>.2 ⟨n.index, mem_phis.2 hp, ?_⟩
  · rw [mem_phis, hnode] at hi
    split at hi
    · cases hi
    · exact mem_phis.2 hi
  · simp [mem_phis, hnode]

/-- Going through nodes leaves fewer Phis, or nothing was to be done. -/
lemma simplifyPhis_progress : ∀ (ns : List NodeId) (g : Graph) (changed : Bool),
    ((g.simplifyPhis changed ns).1.phis ⊂ g.phis ∧ (g.simplifyPhis changed ns).2 = true) ∨
      (g.simplifyPhis changed ns = (g, changed) ∧ ∀ n ∈ ns, g.simplifyPhi n = (g, false))
  | [], _, _ => .inr ⟨rfl, nofun⟩
  | n :: ns, g, changed => by
    rw [simplifyPhis]
    rcases g.simplifyPhi_cases n with h | ⟨v, h, hp, -, hm⟩
    · simp only [h, Bool.or_false]
      refine (simplifyPhis_progress ns g changed).imp_right (And.imp_right fun hs k hk => ?_)
      rcases mem_cons.1 hk with rfl | hk
      · exact h
      · exact hs k hk
    · simp only [h, Bool.or_true]
      have hlt := phis_exchange hp (Ne.symm (mergeOf_single.1 hm).1)
      rcases simplifyPhis_progress ns (g.exchange n v) true with ⟨h1, h2⟩ | ⟨h1, -⟩
      · exact .inl ⟨h1.trans hlt, h2⟩
      · rw [h1]; exact .inl ⟨hlt, rfl⟩

lemma stable_settlePhis : ∀ (fuel : Nat) (g : Graph), g.phis.card ≤ fuel → (settlePhis fuel g).Stable
  | 0, g, h => by
    intro n
    refine simplifyPhi_of_op fun hp => ?_
    have hmem : n.index ∈ g.phis := mem_phis.2 hp
    rw [Finset.card_eq_zero.1 (Nat.le_zero.1 h)] at hmem; exact absurd hmem (Finset.notMem_empty _)
  | fuel + 1, g, h => by
    rw [settlePhis]
    rcases simplifyPhis_progress g.nodeIds g false with ⟨hlt, hc⟩ | ⟨he, hs⟩
    · rcases hr : g.simplifyPhis false g.nodeIds with ⟨g1, changed⟩
      rw [hr] at hlt hc
      simp only [show changed = true from hc]
      exact stable_settlePhis fuel g1 (Nat.le_of_lt_succ (lt_of_lt_of_le (Finset.card_lt_card hlt) h))
    · simp only [he]
      intro n
      by_cases hn : g.Has n
      · exact hs n (mem_map.2 ⟨n.index, mem_range.2 hn, rfl⟩)
      · exact simplifyPhi_of_op (by simp [node_of_le (not_lt.1 hn)])

lemma Stable.simplifyPhis (S : g.Stable) : ∀ (ns : List NodeId) (changed : Bool),
    g.simplifyPhis changed ns = (g, changed)
  | [], _ => rfl
  | n :: ns, changed => by
    rw [Graph.simplifyPhis]; simp only [S n, Bool.or_false]; exact S.simplifyPhis ns changed

lemma Stable.settlePhis (S : g.Stable) (fuel : Nat) : Graph.settlePhis fuel g = g := by
  cases fuel with
  | zero => rfl
  | succ fuel => simp [Graph.settlePhis, S.simplifyPhis]

/-! ## Redirected references -/

lemma Settled.redirect_redirect (S : g.Settled) : g.redirect.redirect = g.redirect := by
  have hr : g.redirect.resolve = g.resolve := funext S.resolve_redirect
  have hlist : ∀ l : List NodeId, (l.map g.resolve).map g.resolve = l.map g.resolve := by
    intro l
    rw [map_map]; exact map_congr_left fun i _ => S.resolve_resolve i
  have hnodes :
    g.redirect.nodes.map (fun n => if n.op = .forward then n else { n with inputs := n.inputs.map g.resolve }) =
      g.redirect.nodes := by
    rw [Graph.redirect, Array.map_map]
    refine Array.map_congr_left fun n _ => ?_
    by_cases hf : n.op = .forward
    · simp [hf]
    · simp [hf, hlist]
  have hblocks : g.redirect.blocks.map (fun b => { b with preds := b.preds.map g.resolve }) = g.redirect.blocks := by
    rw [Graph.redirect, Array.map_map]; exact Array.map_congr_left fun b _ => by simp [hlist]
  rw [Graph.redirect, hr, hnodes, hblocks]
  show { g.redirect with keepAlives := (g.keepAlives.map g.resolve).map g.resolve } = g.redirect
  rw [hlist]
  rfl

lemma Settled.mergeOf_redirect (S : g.Settled) (p : NodeId) : ∀ (l : List NodeId) (met? : Option NodeId),
    g.redirect.mergeOf p met? (l.map g.resolve) = g.mergeOf p met? l
  | [], _ => rfl
  | i :: l, met? => by
    simp [map_cons, mergeOf, S.resolve_redirect, S.resolve_resolve, S.mergeOf_redirect p l]

lemma Stable.redirect (T : g.Stable) (S : g.Settled) : g.redirect.Stable := by
  intro n
  refine (g.redirect.simplifyPhi_cases n).resolve_right ?_
  rintro ⟨v, -, hp, hd, hm⟩
  rw [op_redirect] at hp
  rw [block_node_redirect, block_redirect] at hd
  rw [merge, inputs_redirect (by simp [hp]), S.mergeOf_redirect] at hm
  have h := (simplifyPhi_of_merge hp hd hm).symm.trans (T n)
  cases congrArg Prod.snd h

lemma stable_settled (g : Graph) : (settlePhis g.nodes.size g).Stable := stable_settlePhis _ g (by
  rw [← Finset.card_range g.nodes.size]
  exact Finset.card_le_card (Finset.filter_subset _ _))

lemma normalize_normalize (S : (settlePhis g.nodes.size g).Settled) : g.normalize.normalize = g.normalize := by
  rw [normalize, normalize, (g.stable_settled.redirect S).settlePhis, S.redirect_redirect]

/-! ## Forwarding in a circle -/

/-- Forwarding does not run in a circle. Forwarding nodes have one target, and inputs are nodes of the graph. -/
structure Acyclic (g : Graph) : Prop where
  forwarding : WellFounded fun m n => g.target? n = some m
  target : ∀ n, (g.node n).op = .forward → ∃ m, (g.node n).inputs = [m]
  input_lt : ∀ n, ∀ i ∈ (g.node n).inputs, i.index < g.nodes.size

lemma Acyclic.settled (A : g.Acyclic) : g.Settled := by
  classical
  let follows : NodeId → NodeId → Prop := Relation.ReflTransGen fun m n => g.target? n = some m
  -- a node is ranked by the number of forwarding nodes that are met from it
  refine ⟨⟨fun n => (g.forwarding.filter fun i => follows ⟨i⟩ n).card, fun n m h => Finset.card_lt_card ?_,
    fun n => Finset.card_filter_le _ _⟩, fun n hn => ?_⟩
  · have hn : (g.node n).op = .forward := (target?_eq_some.1 h).1
    refine Finset.ssubset_iff_of_subset (fun i hi => ?_) |>.2 ⟨n.index, ?_, fun hi => ?_⟩
    · obtain ⟨hi, hf⟩ := Finset.mem_filter.1 hi; exact Finset.mem_filter.2 ⟨hi, .tail hf h⟩
    · exact Finset.mem_filter.2 ⟨Finset.mem_filter.2 ⟨Finset.mem_range.2 (lt_of_op_eq hn), hn⟩, .refl⟩
    · have hcircle := Relation.TransGen.tail' (Finset.mem_filter.1 hi).2 h
      exact A.forwarding.transGen.asymmetric n n hcircle hcircle
  · obtain ⟨m, hm⟩ := A.target n hn; exact ⟨m, hm, A.input_lt n m (hm ▸ mem_singleton_self m)⟩

lemma Settled.acyclic (S : g.Settled) (h : ∀ n, ∀ i ∈ (g.node n).inputs, g.Has i) : g.Acyclic := by
  obtain ⟨rank, hr, -⟩ := S.ranked
  refine ⟨Subrelation.wf (fun {m n} => hr n m) (measure rank).wf, fun n hn => ?_, h⟩
  obtain ⟨m, hm, -⟩ := S.target n hn
  exact ⟨m, hm⟩

lemma Acyclic.exchange {p : NodeId} (A : g.Acyclic) (hp : (g.node p).op = .phi)
    (hd : (g.block (g.node p).block).dead = false) (hm : g.merge p = .single v) : (g.exchange p v).Acyclic := by
  have t : g.Trivial p v := Linked.trivial (fun n _ _ => A.input_lt n) A.settled hp hd hm
  refine (t.settled A.settled).acyclic fun n i hi => ?_
  rw [Graph.node_exchange t.ne t.lt] at hi
  rw [Has, size_exchange]
  split at hi
  · rw [mem_singleton.1 hi]; exact t.value_lt
  · exact A.input_lt n i hi

lemma Acyclic.redirect (A : g.Acyclic) : g.redirect.Acyclic := by
  have S := A.settled
  refine S.redirect.acyclic fun n i hi => ?_
  rw [Has, show g.redirect.nodes.size = g.nodes.size by simp [Graph.redirect]]
  by_cases hf : (g.node n).op = .forward
  · rw [node_redirect, if_pos hf] at hi; exact A.input_lt n i hi
  · obtain ⟨j, hj, rfl⟩ := mem_inputs_redirect hi hf; exact S.resolve_lt (A.input_lt n j hj)

/-! ## What normalising comes to -/

lemma Stable.settlePhis_add : ∀ {fuel : Nat} {g : Graph}, (Graph.settlePhis fuel g).Stable → ∀ more,
    Graph.settlePhis (fuel + more) g = Graph.settlePhis fuel g
  | 0, _, S, more => S.settlePhis _
  | fuel + 1, g, S, more => by
    rw [Nat.add_right_comm, Graph.settlePhis, Graph.settlePhis]
    rw [Graph.settlePhis] at S
    rcases hs : g.simplifyPhis false g.nodeIds with ⟨g1, changed⟩
    rw [hs] at S
    cases changed with
    | false => rfl
    | true => exact settlePhis_add S more

/-- Nothing refers to a forwarding node, and no Phi of a block that is not dead has one operand other than itself. -/
structure IsNormal (g : Graph) : Prop where
  input : ∀ n, (g.node n).op ≠ .forward → ∀ i ∈ (g.node n).inputs, (g.node i).op ≠ .forward
  pred : ∀ b, ∀ e ∈ (g.block b).preds, (g.node e).op ≠ .forward
  keepAlive : ∀ n ∈ g.keepAlives, (g.node n).op ≠ .forward
  phi : ∀ n, (g.node n).op = .phi → (g.block (g.node n).block).dead = false →
    ¬ ∃ v ∈ (g.node n).inputs, v ≠ n ∧ ∀ i ∈ (g.node n).inputs, i = n ∨ i = v

lemma Settled.isNormal_redirect (S : g.Settled) (T : g.Stable) : g.redirect.IsNormal := by
  have hroot : ∀ i, (g.redirect.node (g.resolve i)).op ≠ .forward := fun i => by
    rw [op_redirect]; exact S.op_resolve i
  have hinput : ∀ n, (g.redirect.node n).op ≠ .forward → ∀ i ∈ (g.redirect.node n).inputs,
    (g.redirect.node i).op ≠ .forward := by
    intro n hn i hi
    rw [op_redirect] at hn
    obtain ⟨j, -, rfl⟩ := mem_inputs_redirect hi hn; exact hroot j
  refine ⟨hinput, fun b e he => ?_, fun n hn => ?_, fun n hp hd => ?_⟩
  · rw [block_redirect] at he
    obtain ⟨e, -, rfl⟩ := mem_map.1 he; exact hroot e
  · obtain ⟨k, -, rfl⟩ := mem_map.1 hn; exact hroot k
  · rintro ⟨v, hv, hne, hall⟩
    have hres : ∀ i ∈ (g.redirect.node n).inputs, g.redirect.resolve i = i := fun i hi =>
      S.redirect.resolve_of_op (hinput n (by simp [hp]) i hi)
    have hm : g.redirect.merge n = .single v :=
      mergeOf_single.2 ⟨hne, ⟨v, hv, hres v hv⟩, fun i hi => by rw [hres i hi]; exact hall i hi⟩
    have h := (simplifyPhi_of_merge hp hd hm).symm.trans (T.redirect S n); cases congrArg Prod.snd h

/-- Where `ev` is the meaning of the operations, `val` has the outcome of every computation on every walk. -/
def Evaluates {V : Type} (g : Graph) (ev : Op → Mode → List V → V) (val : NodeId × Walk → V) : Prop :=
  ∀ n w, (g.node n).op ≠ .phi → (g.node n).op ≠ .forward → g.IsWalk w → w.last = (g.node n).block →
    val (n, w) = ev (g.node n).op (g.node n).mode ((g.node n).inputs.map fun i => val (g.source w i))

/-- Control goes the same ways, and what nodes take in comes from the same computations. -/
structure SameInputs (g g' : Graph) : Prop where
  walk : ∀ w : Walk, g'.IsWalk w ↔ g.IsWalk w
  /-- Nodes stay, but for Phis that forward. -/
  keep : ∀ n, (g.node n).op = .phi ∧ (g'.node n).op = .forward ∨
    (g'.node n).op = (g.node n).op ∧ (g'.node n).mode = (g.node n).mode ∧ (g'.node n).block = (g.node n).block
  input : ∀ n, (g.node n).op ≠ .phi → (g.node n).op ≠ .forward → ∀ w : Walk, g.IsWalk w → w.last = (g.node n).block →
    (g'.node n).inputs.map (g'.source w) = (g.node n).inputs.map (g.source w)
  /-- A Phi that stays takes in the same through the edge that its block is entered through. -/
  operand : ∀ n, (g'.node n).op = .phi → ∀ (k : Nat) (w : Walk), g.IsWalk (((g.node n).block, k) :: w) →
    (g'.node n).inputs[k]?.map (g'.source w) = (g.node n).inputs[k]?.map (g.source w)
  avail : ∀ (w : Walk) n, g.IsWalk w → g.Avail w.last n → g'.source w n = g.source w n

/-- So the outcomes are the same, whatever the operations mean. -/
lemma SameInputs.evaluates {g' : Graph} (I : g.SameInputs g') {V : Type} (ev : Op → Mode → List V → V)
    (val : NodeId × Walk → V) : g'.Evaluates ev val ↔ g.Evaluates ev val := by
  refine forall_congr' fun n => forall_congr' fun w => ?_
  rcases I.keep n with ⟨hp, hf⟩ | ⟨ho, hm, hb⟩
  · exact ⟨fun _ h => absurd hp h, fun _ _ h => absurd hf h⟩
  · rw [ho, hm, hb, I.walk]
    refine imp_congr_right fun hp => imp_congr_right fun hf => imp_congr_right fun hw => imp_congr_right fun hlast => ?_
    have e := congrArg (List.map val) (I.input n hp hf w hw hlast)
    rw [map_map, map_map] at e
    exact iff_of_eq (congrArg (fun args => val (n, w) = ev _ _ args) e)

section

variable (G : g.Proper) (K : g.Linked)

include G K

/-- What an input refers to past forwarding nodes comes from the same computation as before. -/
lemma Proper.source_past {w : Walk} {i : NodeId} (hw : g.IsWalk w) (ha : g.Avail w.last i) :
    g.normalize.source w ((settlePhis g.nodes.size g).resolve i) = g.source w i := by
  obtain ⟨M, R⟩ := settlePhis_refines g.nodes.size G.toMerging K
  rw [normalize, M.settled.source_redirect, source_congr (M.settled.same_resolve i), R.source w i hw ha]

lemma Proper.sameInputs : g.SameInputs g.normalize := by
  obtain ⟨M, R⟩ := settlePhis_refines g.nodes.size G.toMerging K
  have S := M.settled
  have hinputs : ∀ n, (settlePhis g.nodes.size g).node n = g.node n → (g.node n).op ≠ .forward →
      (g.normalize.node n).inputs = (g.node n).inputs.map (settlePhis g.nodes.size g).resolve := fun n h hf => by
    rw [normalize, inputs_redirect (by rwa [h]), h]
  refine ⟨fun w => S.isWalk_redirect.trans (R.walk w), fun n => ?_, fun n hp hf w hw hlast => ?_, fun n hp k w hw => ?_,
    fun w n hw ha => (S.source_redirect w n).trans (R.source w n hw ha)⟩
  · rw [normalize, op_redirect, block_node_redirect]
    by_cases h : (settlePhis g.nodes.size g).node n = g.node n
    · rw [node_redirect, h]; exact .inr ⟨rfl, by split <;> rfl, rfl⟩
    · have hp : (g.node n).op = .phi := by_contra fun hp => h (R.keep n hp)
      exact .inl ⟨hp, (R.op n).resolve_left fun ho => h (R.phi n (ho.trans hp))⟩
  · rw [hinputs n (R.keep n hp) hf, map_map]
    exact map_congr_left fun i hi => G.source_past K hw (hlast ▸ G.uses n hp hf i hi)
  · rw [normalize, op_redirect] at hp
    have e := R.phi n hp
    have ho : (g.node n).op = .phi := e ▸ hp
    rw [hinputs n e (by simp [ho]), List.getElem?_map]
    cases hi : (g.node n).inputs[k]? with
    | none => rfl
    | some i => exact congrArg some (G.source_past K hw.2 (G.avail_operand ho hi hw))

end

/-- Normalising ends in a normal form and never lets forwarding run in a circle. What is computed before it is used
stays what it was. -/
theorem normalize_exact (A : g.Acyclic) :
    (∀ more, settlePhis (g.nodes.size + more) g = settlePhis g.nodes.size g) ∧
    (∀ rounds ns, ((settlePhis rounds g).simplifyPhis false ns).1.Acyclic) ∧ g.normalize.Acyclic ∧
    g.normalize.IsNormal ∧
    (g.Proper → g.SameInputs g.normalize ∧ ∀ {V : Type} (ev : Op → Mode → List V → V) (val : NodeId × Walk → V),
      g.normalize.Evaluates ev val ↔ g.Evaluates ev val) := by
  have hA : ∀ rounds, (settlePhis rounds g).Acyclic := fun rounds =>
    settlePhis_keeps (I := Acyclic) Acyclic.exchange rounds A
  refine ⟨g.stable_settled.settlePhis_add, fun rounds ns => simplifyPhis_keeps Acyclic.exchange ns false (hA rounds),
    (hA _).redirect, (hA _).settled.isNormal_redirect g.stable_settled, fun G => ?_⟩
  have I := G.sameInputs fun n _ _ => A.input_lt n
  exact ⟨I, I.evaluates⟩

/-- A loop in block 2, where a Phi merges what came before the loop with itself, and is added to what node 3 forwards.
-/
def phiLoop : Graph where
  name := ""
  nodes := #[⟨.start, .tuple, ⟨0⟩, []⟩, ⟨.jmp, .control, ⟨0⟩, []⟩, ⟨.phi, .int, ⟨2⟩, [⟨0⟩, ⟨2⟩]⟩,
    ⟨.forward, .int, ⟨0⟩, [⟨0⟩]⟩,
    ⟨.add, .int, ⟨2⟩, [⟨2⟩, ⟨3⟩]⟩, ⟨.jmp, .control, ⟨2⟩, []⟩]
  blocks := #[{}, {}, { preds := [⟨1⟩, ⟨5⟩] }]
  keepAlives := []
  bads := []

lemma phiLoop_acyclic : phiLoop.Acyclic := by
  have hforward : ∀ n, (phiLoop.node n).op = .forward → n = ⟨3⟩ := fun ⟨n⟩ h =>
    match n with
    | 3 => rfl
    | 0 | 1 | 2 | 4 | 5 | n + 6 => nomatch h
  refine ⟨⟨fun n => ⟨n, fun m h => ⟨m, fun k hk => ?_⟩⟩⟩, fun n h => ⟨⟨0⟩, hforward n h ▸ rfl⟩, fun ⟨n⟩ => ?_⟩
  · obtain rfl := hforward n (target?_eq_some.1 h).1
    cases h
    cases hk
  · match n with
    | 0 | 1 | 2 | 3 | 4 | 5 => decide
    | n + 6 => exact fun _ h => nomatch h

lemma phiLoop_proper : phiLoop.Proper := by
  have hstart : ∀ b i, phiLoop.resolve i = ⟨0⟩ → phiLoop.Avail b i := fun b i h w _ _ => by
    rw [Computed, h]
    exact w.start_mem_blocks
  have hphi : phiLoop.Avail ⟨2⟩ ⟨2⟩ := by
    intro w _ hlast
    cases w with
    | nil => cases hlast
    | cons s w => exact show (⟨2⟩ : BlockId) ∈ s.1 :: w.map Prod.fst from hlast ▸ mem_cons_self
  have hphis : ∀ n, (phiLoop.node n).op = .phi → n = ⟨2⟩ := by
    rintro ⟨_ | _ | _ | _ | _ | _ | n⟩ h <;> first | rfl | cases h
  refine ⟨⟨phiLoop_acyclic.settled, fun b => ?_, fun n ho _ => ?_, fun n ho k i e hi he => ?_⟩, fun n hp hf => ?_⟩
  · rcases b with ⟨_ | _ | _ | b⟩
    iterate 3 decide
    · rintro _ ⟨⟩
  · rw [hphis n ho]; rfl
  · obtain rfl := hphis n ho
    rcases k with _ | _ | k <;> cases hi
    · exact hstart _ _ rfl
    · cases he; exact hphi
  · rcases n with ⟨_ | _ | _ | _ | _ | _ | n⟩
    · rintro _ ⟨⟩
    · rintro _ ⟨⟩
    · exact absurd rfl hp
    · exact absurd rfl hf
    · exact forall_mem_cons.2 ⟨hphi, forall_mem_singleton.2 (hstart _ _ rfl)⟩
    · rintro _ ⟨⟩
    · rintro _ ⟨⟩

theorem normalize_exact_phiLoop : (phiLoop.normalize.node ⟨4⟩).inputs = [⟨0⟩, ⟨0⟩] ∧ phiLoop.normalize.IsNormal ∧
    phiLoop.SameInputs phiLoop.normalize :=
  have h := normalize_exact phiLoop_acyclic
  ⟨by decide +kernel, h.2.2.2.1, (h.2.2.2.2 phiLoop_proper).1⟩

end JvmGraph.Graph
