import JvmGraph.Proofs.Body.Weaving
import JvmGraph.Proofs.Body.Whole
import JvmGraph.Proofs.Graph.Linear

/-!
# Memory in the graph of a method

When all of the code has been gone through, every block holds the end of its thread as its memory state, and a block
that returns does so with that state. Maturing the blocks then joins the threads: a block is entered with what
its predecessors hold. So memory is handed on from block to block in the graph that comes out.
-/

namespace JvmGraph

open Steps JvmGraph.Frame BodyState List JvmGraph.Graph Body Ssa.Builder JvmGraph.Flow Ssa

variable {β : Nat → Option BlockId} {c? : Option BlockId} {rest : List Instruction} {b : BlockId} {k : NodeId}

/-! ## Going from block to block -/

namespace Ssa.Woven

variable {s s' : Builder}

lemma reblock (W : Woven s) (hn : s'.graph.nodes = s.graph.nodes) (hb : s'.graph.blocks.size = s.graph.blocks.size)
    (hs : s'.states = s.states) (hv : s'.varCount = s.varCount) : Woven s' := by
  have hstate : ∀ b, s'.state b = s.state b := fun b => by simp [state, hs]
  refine W.mono (.of_nodes hn) hb hv (fun b => .inl ?_) (fun b p hp => ?_)
    fun n h1 h2 => absurd h2 (by rw [Has, hn]; exact not_lt.2 h1)
  · simp [definition?, memoryVar, hstate, hv]
  · rwa [hstate]

lemma leaving (W : Woven s) {op : Op} (ho : op = .jmp ∨ op = .ret) (inputs : List NodeId) (b : BlockId) :
    Woven (s.leaving op inputs b) := by
  have W1 : Woven (s.place s.current op .control inputs) :=
    W.aside (.place s s.current .control inputs (by rcases ho with rfl | rfl <;> rfl)
      (by rcases ho with rfl | rfl <;> rfl))
  exact W1.reblock rfl (by simp [Builder.leaving, Graph.addPred]) rfl rfl

lemma entering (W : Woven s) (b : BlockId) : Woven (s.entering b) := by
  unfold Builder.entering
  split
  · split
    · exact W
    · exact (W.leaving (.inl rfl) [] b).reblock rfl rfl rfl rfl
  · exact W.reblock rfl rfl rfl rfl

lemma splitting (W : Woven s) (cmp : NodeId) (taken fall : BlockId) : Woven (s.splitting cmp taken fall) := by
  have A : Aside s (s.sides cmp) :=
    ((Aside.place s s.current .tuple [cmp] rfl rfl).trans (.place _ _ _ _ rfl rfl)).trans (.place _ _ _ _ rfl rfl)
  exact (W.aside A).reblock rfl (by simp [Builder.splitting, Graph.addPred]) rfl rfl

lemma blank {m : NodeId} (hop : ∀ n, (s.graph.node n).op.leavesMemory = false ∧ (s.graph.node n).op.isSelection = false)
    (hm : s.memory? startBlock = some m) (hn : (s.graph.node m).op = .proj Projection.memory)
    (hi : (s.graph.node m).inputs = [start]) (hs : (s.graph.node start).op = .start)
    (hd : ∀ b, b ≠ startBlock → s.memory? b = none) : Woven s := by
  refine ⟨fun b _ hb => ⟨?_, fun n _ => (hop n).1⟩, fun b z hz => ?_, fun n => .of_op ⟨(hop n).2, fun hc => ?_⟩⟩
  · rintro rfl; rw [hm] at hb; cases hb
  · by_cases hb : b = startBlock
    · subst hb
      rw [hm] at hz
      cases hz
      refine ⟨m, [], .inr ⟨rfl, hn, hi, hs⟩, rfl, .nil, fun n _ hl => ?_⟩
      rw [(hop n).1] at hl; cases hl
    · rw [hd b hb] at hz; cases hz
  · have := (hop n).1; rw [hc] at this; cases this

end Ssa.Woven

lemma Frame.convert_aside {f f' : Frame} {v w : NodeId} {mode : Mode} (h : convert v mode f = .ok w f') :
    Aside f.builder f'.builder := by
  replace h := get_bind_ok.1 h
  split at h
  · cases h; exact .refl _
  · cases h; exact .place _ _ mode [v] rfl rfl

lemma Way.Is.eq_ret {g : Graph} {e : NodeId} {w : Way} (h : w.Is g b e) (ho : (g.node e).op = .ret) : w = .ret := by
  cases w <;> first | rfl | (rw [h.1] at ho; cases ho)

namespace Body

variable {ctx : MethodContext} {t t' : BodyState} {i : Instruction} {u : Unit}
  {bs : List BlockId} {out : List (BlockId × NodeId)} {n : NodeId} {targeted : Bool}

lemma yielded_memory {kind : Kind} {result? : Option Mode} {inputs : List NodeId} (F : Fit t.frame)
    (W : Woven t.frame.builder)
    (h : yielded kind result? t = .ok inputs t') : ∃ m rest, inputs = m :: rest ∧
      t'.frame.builder.memory? t'.frame.builder.current = some m := by
  obtain ⟨m, t1, h1, h⟩ := bind_ok.1 h
  obtain ⟨f1, hf1, rfl⟩ := onFrame_ok.1 h1
  obtain ⟨F1, -, -, hm⟩ := getStore_woven hf1 F W
  split at h
  · cases h; exact ⟨m, [], rfl, hm⟩
  · cases result? with
    | none => cases h
    | some mode =>
      obtain ⟨v, t2, h2, h⟩ := bind_ok.1 h
      obtain ⟨f2, hf2, rfl⟩ := onFrame_ok.1 h2
      obtain ⟨-, S2, -⟩ := pop_spec hf2 F1
      obtain ⟨w, t3, h3, h⟩ := bind_ok.1 h
      obtain ⟨f3, hf3, rfl⟩ := onFrame_ok.1 h3
      cases h
      have A := S2.toAside.trans (convert_aside hf3)
      refine ⟨m, [w], rfl, ?_⟩
      rwa [A.memory?, A.current_eq]

/-! ## One instruction -/

lemma step_woven (h : step ctx i t = .ok u t') (G : t.Good) (W : Woven t.frame.builder) : Woven t'.frame.builder := by
  have R := calming_rules lasting_woven ctx
  have keeps : ∀ {α : Type} {x : Body α} {a K t1}, (calming Woven).Keeps [] x K → x t = .ok a t1 →
    Woven t1.frame.builder :=
    fun hx hok => ((hx t ⟨G.fit, W⟩ (by simp)).ok hok).1.1.2
  obtain ⟨pc, op, next⟩ := i
  cases op with
  | branch kind binary way target =>
    obtain ⟨left, right, f1, taken, fall, t1, h1, -, -, -, -, hf⟩ := branch_ok h G.own
    have W1 : Woven f1.builder := keeps (R.onFrame fun F => F.compared) (onFrame_ok.2 ⟨f1, h1, rfl⟩)
    have W2 : Woven (f1.withCmp way left right).builder := W1.aside (.place _ _ _ _ rfl rfl)
    rw [hf]; exact (W2.splitting _ taken fall).reblock rfl rfl rfl rfl
  | jump target =>
    obtain ⟨c, -, -, hf⟩ := jump_ok h G.own
    rw [hf]; exact (W.leaving (.inl rfl) [] c).reblock rfl rfl rfl rfl
  | yield kind =>
    obtain ⟨inputs, t1, h1, -, hf⟩ := yield_ok h
    rw [hf]; exact ((keeps R.yielded h1).leaving (.inr rfl) inputs _).reblock rfl rfl rfl rfl
  | throw =>
    obtain ⟨memory, t1, h1, -, -, hf⟩ := throwObject_ok h
    rw [hf]; exact (keeps R.aborted h1).reblock rfl rfl rfl rfl
  | uncompiled what => cases h
  | _ => exact keeps (R.step rfl) h

lemma ret_of_edges {xs : List Edge} (A : Leads bs t t' out)
    (hx : Forall₂ (Edge.Is β t'.frame.graph) xs out) (hn : t.frame.graph.nodes.size ≤ n.index)
    (ho : (t'.frame.graph.node n).op = .ret) : ∃ x ∈ xs, x.way = .ret := by
  rcases A.exits n hn (lt_of_op_eq ho) (.inr (.inr (.inl ho))) with h | ⟨h, -⟩
  · obtain ⟨p, hp, rfl⟩ := mem_map.1 h
    obtain ⟨k, hk, rfl⟩ := getElem_of_mem hp
    have hk' : k < xs.length := hx.length_eq ▸ hk
    obtain ⟨-, hway⟩ := hx.get hk' hk; exact ⟨xs[k], getElem_mem hk', hway.eq_ret ho⟩
  · simp [show (t'.frame.builder.graph.node n).op = _ from ho] at h

lemma step_ret (h : step ctx i t = .ok u t') (G : t.Good) (W : Woven t.frame.builder)
    (hc : t.frame.builder.current? = some b)
    (hm : ∀ pc ∈ i.marks, t.blockAt pc ≠ some Graph.startBlock) (hn : t.frame.graph.nodes.size ≤ n.index)
    (ho : (t'.frame.graph.node n).op = .ret) :
    i.ends = true ∧ n.index + 1 = t'.frame.graph.nodes.size ∧ (t'.frame.graph.node n).block = b ∧
      ∃ m, (t'.frame.graph.node n).inputs.head? = some m ∧ t'.frame.builder.memory? b = some m := by
  obtain ⟨out, -, A, -, hx⟩ := step_leads G hc h hm
  obtain ⟨x, hmem, hway⟩ := ret_of_edges A hx hn ho
  obtain ⟨⟨w, p?⟩, hexit, rfl⟩ := mem_map.1 hmem
  obtain rfl : w = .ret := hway
  obtain ⟨pc, op, next⟩ := i
  cases op with
  | yield kind =>
    obtain ⟨inputs, t1, h1, -, hf⟩ := yield_ok h
    obtain ⟨m, rest, rfl, hd⟩ := yielded_memory G.fit W h1
    obtain ⟨G1, A1, hc1, -⟩ := leads_of_keeps (calm_rules ctx).yielded h1 G hc
    have hg : t'.frame.graph = (t1.frame.builder.leaving .ret (m :: rest) Graph.endBlock).graph := by
      rw [hf]; rfl
    have hsize : t'.frame.graph.nodes.size = t1.frame.graph.nodes.size + 1 := by
      rw [hg]; simp [leaving, place, Graph.addPred, Graph.setBlock, Frame.graph]
    have hlt : t'.frame.graph.Has n := Graph.lt_of_op_eq ho
    -- the steps before the return itself add none
    obtain rfl : n = t1.frame.graph.fresh := by
      have hle : t1.frame.graph.nodes.size ≤ n.index := not_lt.1 fun hold => ?_
      · exact congrArg NodeId.mk (show n.index = _ by omega)
      have hkeep : t'.frame.graph.node n = t1.frame.graph.node n := by
        rw [hg]; exact node_place_old hold
      rw [hkeep] at ho
      obtain ⟨x, hx, -⟩ := ret_of_edges (β := t.blockAt) A1 .nil hn ho; cases hx
    have hnode := t1.frame.builder.node_leaving .ret (m :: rest) Graph.endBlock
    rw [← hg, current_of_some hc1] at hnode
    refine ⟨rfl, hsize.symm, congrArg Node.block hnode,
      m, by rw [show t'.frame.graph.node t1.frame.graph.fresh = _ from hnode]; rfl, ?_⟩
    rw [current_of_some hc1] at hd
    rwa [hf]
  | _ => simp [Instruction.exits] at hexit

structure Returning (t : BodyState) (code : List Instruction) : Prop where
  last : ∀ n, (t.frame.graph.node n).op = .ret → ∃ m, (t.frame.graph.node n).inputs.head? = some m ∧
    t.frame.builder.memory? (t.frame.graph.node n).block = some m
  one : ∀ n n', (t.frame.graph.node n).op = .ret → (t.frame.graph.node n').op = .ret →
    (t.frame.graph.node n).block = (t.frame.graph.node n').block → n = n'
  ahead : ∀ n, (t.frame.graph.node n).op = .ret → t.frame.builder.current? ≠ some (t.frame.graph.node n).block ∧
    ∀ i ∈ code, t.blockAt i.pc ≠ some (t.frame.graph.node n).block

structure NewReturn (t t' : BodyState) (code : List Instruction) (n : NodeId) : Prop where
  final : n.index + 1 = t'.frame.graph.nodes.size
  last : ∃ m, (t'.frame.graph.node n).inputs.head? = some m ∧
    t'.frame.builder.memory? (t'.frame.graph.node n).block = some m
  current : t'.frame.builder.current? ≠ some (t'.frame.graph.node n).block
  ahead : ∀ i ∈ code, t.blockAt i.pc ≠ some (t'.frame.graph.node n).block
  other : ∀ k, (t.frame.graph.node k).op = .ret → (t.frame.graph.node k).block ≠ (t'.frame.graph.node n).block

lemma Returning.leads {code code' : List Instruction}
    (R : Returning t code) (A : Leads bs t t' out) (hcode : ∀ j ∈ code', j ∈ code)
    (hbs : ∀ n, (t.frame.graph.node n).op = .ret → (t.frame.graph.node n).block ∉ bs ∧
      t'.frame.builder.current? ≠ some (t.frame.graph.node n).block)
    (hnew : ∀ n, t.frame.graph.nodes.size ≤ n.index → (t'.frame.graph.node n).op = .ret → NewReturn t t' code' n) :
    Returning t' code' := by
  -- a return is an old one or a new one
  have hcases : ∀ n, (t'.frame.graph.node n).op = .ret →
      t'.frame.graph.node n = t.frame.graph.node n ∧ (t.frame.graph.node n).op = .ret ∨ NewReturn t t' code' n := by
    intro n hn
    by_cases hlt : t.frame.graph.Has n
    · have hkeep : t'.frame.graph.node n = t.frame.graph.node n := A.keep n hlt
      exact .inl ⟨hkeep, hkeep ▸ hn⟩
    · exact .inr (hnew n (by omega) hn)
  refine ⟨fun n hn => ?_, fun n n' hn hn' hb => ?_, fun n hn => ?_⟩
  · rcases hcases n hn with ⟨hkeep, ho⟩ | N
    · obtain ⟨m, hm, hd⟩ := R.last n ho
      rw [hkeep]; exact ⟨m, hm, by rwa [memory?_eq A.varCount, A.def_other _ (hbs n ho).1]⟩
    · exact N.last
  · rcases hcases n hn with ⟨hkeep, ho⟩ | N <;> rcases hcases n' hn' with ⟨hkeep', ho'⟩ | N'
    · rw [hkeep, hkeep'] at hb; exact R.one n n' ho ho' hb
    · rw [hkeep] at hb; exact absurd hb (N'.other n ho)
    · rw [hkeep'] at hb; exact absurd hb.symm (N.other n' ho')
    · have := N.final
      have := N'.final; exact congrArg NodeId.mk (show n.index = n'.index by omega)
  · simp only [A.blockAt]
    rcases hcases n hn with ⟨hkeep, ho⟩ | N
    · rw [hkeep]; exact ⟨(hbs n ho).2, fun j hj => (R.ahead n ho).2 j (hcode j hj)⟩
    · exact ⟨N.current, N.ahead⟩

def EntersOnce (β : Nat → Option BlockId) (c? : Option BlockId) (code : List Instruction) : Prop :=
  code.Pairwise (fun i j => ∀ b, β i.pc = some b → β j.pc ≠ some b) ∧
    ∀ j ∈ code.tail, ∀ b, c? = some b → β j.pc ≠ some b

lemma EntersOnce.enters (E : EntersOnce β c? (i :: rest)) (hb : Flow.enters β c? i = some b) :
    ∀ j ∈ rest, β j.pc ≠ some b := by
  intro j hj
  unfold Flow.enters at hb
  cases hi : β i.pc with
  | none => rw [hi] at hb; exact E.2 j hj b hb
  | some c => rw [hi] at hb; exact (pairwise_cons.1 E.1).1 j hj b (hi.trans hb)

lemma EntersOnce.tail (E : EntersOnce β c? (i :: rest)) : EntersOnce β (leaves β c? i) rest := by
  refine ⟨(pairwise_cons.1 E.1).2, fun j hj b hb => E.enters (i := i) (b := b) ?_ j (mem_of_mem_tail hj)⟩
  unfold leaves at hb
  split at hb
  · cases hb
  · exact hb

lemma way_of_falls {pc : Nat} {x : Edge} (h : x ∈ falls β c? pc) : x.way = .into := by
  unfold falls at h
  split at h
  · split at h
    · cases h
    · rw [mem_singleton.1 h]
  · cases h

lemma visit_woven (h : visit ctx i t = .ok u t') (G : t.Good) (W : Woven t.frame.builder)
    (R : Returning t (i :: rest)) (E : EntersOnce t.blockAt t.frame.builder.current? (i :: rest))
    (hs : t.blockAt i.pc = some startBlock → t.frame.builder.current? = some startBlock)
    (hm : ∀ pc ∈ i.marks, t.blockAt pc ≠ some startBlock) : Woven t'.frame.builder ∧ Returning t' rest := by
  obtain ⟨t1, har, hstep⟩ := visit_ok h G.own
  obtain ⟨out1, G1, A1, hc1, hx1⟩ := arrives_leads har G hs
  have W1 : Woven t1.frame.builder := by
    rcases har with ⟨-, hf, -⟩ | ⟨b, d, -, -, -, hf⟩
    · rwa [hf]
    · rw [hf]; exact W.entering b
  have R1 : Returning t1 (i :: rest) := by
    refine R.leads A1 (fun _ h => h) (fun n hn => ⟨by simp, fun hc => ?_⟩) fun n hn ho => ?_
    · rw [hc1] at hc
      unfold enters at hc
      cases hi : t.blockAt i.pc with
      | none => rw [hi] at hc; exact (R.ahead n hn).1 hc
      | some c => rw [hi] at hc; exact (R.ahead n hn).2 i mem_cons_self (hi.trans hc)
    · obtain ⟨x, hx, hw⟩ := ret_of_edges A1 hx1 hn ho; simp [way_of_falls hx] at hw
  have hβ : t1.blockAt = t.blockAt := funext A1.blockAt
  cases hc : t1.frame.builder.current? with
  | none =>
    rw [hc] at hstep
    obtain rfl : t' = t1 := hstep
    exact ⟨W1, R1.last, R1.one, fun n hn => ⟨(R1.ahead n hn).1, fun j hj => (R1.ahead n hn).2 j (.tail _ hj)⟩⟩
  | some b =>
    rw [hc] at hstep
    have hm1 : ∀ pc ∈ i.marks, t1.blockAt pc ≠ some startBlock := by rwa [hβ]
    obtain ⟨out2, -, A2, hc2, -⟩ := step_leads G1 hc hstep hm1
    refine ⟨step_woven hstep G1 W1, R1.leads A2 (fun _ => .tail _) (fun n hn => ?_) fun n hn ho => ?_⟩
    · have hne := (R1.ahead n hn).1
      rw [hc] at hne
      refine ⟨fun hb => hne (congrArg some (mem_singleton.1 hb).symm), ?_⟩
      rw [hc2]
      split
      · simp
      · exact hne
    · obtain ⟨hends, hlast, hb, m, hi, hd⟩ := step_ret hstep G1 W1 hc hm1 hn ho
      refine ⟨hlast, ⟨m, hi, by rwa [hb]⟩, by simp [hc2, hends], fun j hj => ?_, fun k hk => ?_⟩
      · rw [hb, hβ]; exact E.enters (hc1.symm.trans hc) j hj
      · rw [hb]
        intro h; exact (R1.ahead k hk).1 (hc.trans (congrArg some h.symm))

lemma visitAll_woven : ∀ {code : List Instruction} {t t' : BodyState} {u : Unit},
    visitAll ctx code t = .ok u t' → t.Good →
    Woven t.frame.builder → Returning t code → EntersOnce t.blockAt t.frame.builder.current? code →
    StartsFirst t.blockAt t.frame.builder.current? code → Woven t'.frame.builder ∧ Returning t' []
  | [], t, t', u, h, G, W, R, _, _ => by
    cases h; exact ⟨W, R⟩
  | i :: rest, t, t', u, h, G, W, R, E, hs => by
    obtain ⟨v, t1, h1, h2⟩ := bind_ok.1 h
    obtain ⟨out1, G1, A1, hc1, hx1⟩ := visit_leads h1 G (hs.first i rfl) (hs.marks i (.head _))
    obtain ⟨W1, R1⟩ := visit_woven h1 G W R E (hs.first i rfl) (hs.marks i (.head _))
    have hβ : t1.blockAt = t.blockAt := funext A1.blockAt
    exact visitAll_woven h2 G1 W1 R1 (by rw [hβ, hc1]; exact E.tail) (by rw [hβ]; exact hs.tail)

lemma makeBlocks_keeps : ∀ {pcs : List Nat} {t t' : BodyState} {u : Unit},
    makeBlocks targeted pcs t = .ok u t' → t'.frame.graph.nodes = t.frame.graph.nodes ∧
      t'.frame.builder.varCount = t.frame.builder.varCount ∧
      ∀ b x, t'.frame.builder.definition? b x = t.frame.builder.definition? b x
  | [], t, t', u, h => by
    cases h; exact ⟨rfl, rfl, fun _ _ => rfl⟩
  | pc :: rest, t, t', u, h => by
    obtain ⟨hn, hv, hd⟩ := makeBlocks_keeps (makeBlocks_cons h)
    split at hn
    · rename_i h0; rw [if_pos h0] at hv hd; exact ⟨hn, hv, hd⟩
    · rename_i h0
      rw [if_neg h0] at hv hd
      exact ⟨hn, hv, fun b x => (hd b x).trans (t.frame.builder.definition?_extended b x)⟩

lemma openEntry_woven (h : openEntry targeted t = .ok u t') (W : Woven t.frame.builder) :
    Woven t'.frame.builder ∧ ∀ n, (t'.frame.graph.node n).op = .ret → (t.frame.graph.node n).op = .ret := by
  cases targeted with
  | false =>
    cases h; exact ⟨W, fun _ h => h⟩
  | true =>
    obtain ⟨e, t1, h1, h⟩ := bind_ok.1 h
    cases h1
    have W1 : Woven (t.frame.builder.place t.frame.builder.current .jmp .control []) := W.aside (.place _ _ _ _ rfl rfl)
    have hret : ∀ n, ((t.frame.builder.place t.frame.builder.current .jmp .control []).graph.node n).op = .ret →
        (t.frame.graph.node n).op = .ret := by
      intro n hn
      rw [place, node_add] at hn
      split at hn
      · cases hn
      · exact hn
    obtain ⟨b?, t2, h2, h⟩ := bind_ok.1 h
    obtain ⟨hb, rfl⟩ := blockAt?_ok.1 h2
    cases b? with
    | none =>
      cases h; exact ⟨W1, hret⟩
    | some b =>
      obtain ⟨f2, hf2, rfl⟩ := onFrame_ok.1 h
      obtain ⟨s2, hs2, rfl⟩ := build_ok.1 hf2
      cases hs2
      exact ⟨W1.reblock rfl (by simp [place, Graph.addPred, add]) rfl rfl, hret⟩

end Body

lemma Ssa.Finished.incoming {s : Builder} {T : Record} (F : Finished s T)
    (hr : s.graph.Reached b) (hb : b ≠ startBlock) (hk : T.entry b s.memoryVar = some k) :
    s.graph.Incoming s.graph.resolve (s.memory?) b k := by
  cases F.agrees b _ k hk with
  | nothing hp =>
    obtain ⟨w, hw, rfl⟩ := hr
    cases w with
    | nil => exact absurd rfl hb
    | cons j w =>
      obtain ⟨e, he, -⟩ := hw.edge; simp [show (s.graph.block j.1).preds = [] from hp] at he
  | same hp holds => exact .same hb holds
  | merged block M =>
    have hres : s.graph.resolve k = k := F.shape.settled.resolve_of_op (by simp [M.op])
    refine .merged hb (by rw [hres]; exact M.op) (by rwa [hres]) ?_
    have hop := M.operands
    rw [block] at hop; rwa [hres]

namespace Stages

variable {ctx : MethodContext} {m : Method} {code : List Instruction} {t1 t2 t3 t4 t5 t' : BodyState}
  {out : List (BlockId × NodeId)} {n : Nat} {bs : List Nat}

section

variable (S : Stages ctx m code t1 t2 t3 t4 t5 t' out)

include S

lemma woven (W : Woven t1.frame.builder) (L : Layout n code) : Woven t5.frame.builder ∧ Returning t5 [] := by
  have T := S.tabled
  have P2 :=
    ((lasting_woven.storeArgs (L := []) (isValue_paramModes m) t1 ⟨S.made.good.fit, W⟩ (by simp)).ok S.args).1.1
  have P3 := ((initOwner_keeps (calming_rules lasting_woven ctx) t2 P2 (by simp)).ok S.init).1.1
  obtain ⟨W4, hret⟩ := openEntry_woven S.opened P3.2
  have hat : t4.blockAt = t3.blockAt := by
    funext p
    simp [BodyState.blockAt, BodyState.starts, (openEntry_ok S.opened).1]
  -- no block begins at two addresses, and the start block at no later one
  have hone : EntersOnce t3.blockAt (some startBlock) code := by
    refine ⟨(pairwise_map.1 L.ascending.sorted).imp fun {i j} hlt b hi hj => ?_, fun j hj b hb => ?_⟩
    · exact absurd (T.injective _ _ b hi hj) (ne_of_lt hlt)
    · cases hb; exact (T.startsFirst L).rest j hj
  have hnone : ∀ k, (t4.frame.graph.node k).op ≠ .ret := by
    intro k hk
    have hk3 := hret k hk; exact T.exits k (lt_of_op_eq hk3) (.inr (.inr (.inl hk3)))
  exact visitAll_woven S.visits S.entered W4 ⟨fun k hk => absurd hk (hnone k), fun k _ hk => absurd hk (hnone k),
    fun k hk => absurd hk (hnone k)⟩ (by rwa [hat, S.entering]) (by rw [hat, S.entering]; exact T.startsFirst L)

/-! ## Maturing -/

lemma kept (h1 : (t'.frame.graph.node k).op ≠ .phi)
    (h2 : (t'.frame.graph.node k).op ≠ .unknown) (h3 : (t'.frame.graph.node k).op ≠ .forward)
    (h4 : (t'.frame.graph.node k).op ≠ .bad) :
    t'.frame.graph.node k = t5.frame.graph.node k := by
  obtain ⟨T, T', -, -, hl⟩ := S.later
  by_cases hk : t5.frame.graph.Has k
  · refine S.keep k hk fun hp => ?_
    rcases hl.grows.phi k hk hp with h | h
    · exact h1 h
    · exact h3 h
  · rcases hl.fresh k (not_lt.1 hk) (lt_of_op h4) with h | h | h
    · exact absurd h h1
    · exact absurd h h2
    · exact absurd h h3

lemma linear (W : Woven t1.frame.builder) (L : Layout n code) :
    t'.frame.graph.Linear t'.frame.graph.resolve t'.frame.builder.memory? := by
  obtain ⟨W5, R5⟩ := S.woven W L
  obtain ⟨T, T', I, I', hl⟩ := S.later
  have F := I'.finished S.matured
  have hvar : t'.frame.builder.memoryVar = t5.frame.builder.memoryVar := hl.varCount
  have hkeep : ∀ {b z}, t5.frame.builder.memory? b = some z → t'.frame.builder.memory? b = some z := fun h =>
    (memory?_eq hl.varCount _).trans (hl.def_keep _ _ _ h)
  have hlt : ∀ k, (t5.frame.graph.node k).block.index < t5.frame.graph.blocks.size := I.shape.node_block
  have leaves_kept : ∀ {k}, (t'.frame.graph.node k).op.leavesMemory = true →
    t'.frame.graph.node k = t5.frame.graph.node k := by
    intro k hk
    refine S.kept ?_ ?_ ?_ ?_ <;> intro h <;> rw [h] at hk <;> cases hk
  have ret_kept : ∀ {k}, (t'.frame.graph.node k).op = .ret → t'.frame.graph.node k = t5.frame.graph.node k := by
    intro k hk
    refine S.kept ?_ ?_ ?_ ?_ <;> rw [hk] <;> simp
  -- a block that has no memory state when the code has been gone through is idle
  have idle : ∀ {b}, t5.frame.builder.memory? b = none → ∀ k, (t'.frame.graph.node k).block = b →
      (t'.frame.graph.node k).op.leavesMemory = false ∧ (t'.frame.graph.node k).op ≠ .ret := by
    intro b hd k hk
    refine ⟨Bool.eq_false_iff.2 fun ho => ?_, fun ho => ?_⟩
    · rw [leaves_kept ho] at hk ho
      exact Bool.eq_false_iff.1 ((W5.idle b (hk ▸ hlt k) hd).2 k hk) ho
    · rw [ret_kept ho] at hk ho
      obtain ⟨h, -, hdef⟩ := R5.last k ho
      rw [hk, hd] at hdef; cases hdef
  refine ⟨fun b hb hz => idle ?_, fun b z hb hz => ?_⟩
  · cases hd : t5.frame.builder.memory? b with
    | none => rfl
    | some z => rw [hkeep hd] at hz; cases hz
  cases hd : t5.frame.builder.memory? b with
  | none =>
    -- the block only passes the state on that it is entered with
    have hbs : b ≠ startBlock := by
      rintro rfl; exact (W5.idle _ (lt_trans zero_lt_one I.shape.blocks_pos) hd).1 rfl
    have hw : T'.written b t'.frame.builder.memoryVar = none := by
      rw [hl.written, hvar]
      cases hw : T.written b t5.frame.builder.memoryVar with
      | none => rfl
      | some v => cases (I.defined.def_written _ _ v hw).symm.trans hd
    obtain ⟨k, hk, hsame⟩ := F.defined.def_entry b _ z hz hw
    refine ⟨k, [], F.incoming hb hbs hk, hsame.symm, .nil, fun j hj ho => ?_, fun j hj ho => absurd ho (idle hd j hj).2,
      fun j _ hj _ ho => absurd ho (idle hd j hj).2⟩
    rw [(idle hd j hj).1] at ho; cases ho
  | some z5 =>
    obtain rfl : z5 = z := by rw [hkeep hd] at hz; exact Option.some.inj hz
    obtain ⟨first, ks, hB, hthread, hnd, hall⟩ := W5.spun b z5 hd
    refine ⟨first, ks, ?_, ?_, hnd, fun k hk ho => ?_, fun k hk ho => ?_, fun k k' hk hk' ho ho' => ?_⟩
    · rcases hB with hinc | ⟨rfl, ho, hi, hs⟩
      · obtain ⟨hw, hblock, -⟩ := (I.entered.incomplete_iff b _ first).1 hinc
        have hentry := (I.entered.waiting_ok first _ hw).2.2.2
        rw [hblock, ← hvar] at hentry
        refine F.incoming hb (fun hstart => ?_) (hl.entry_keep _ _ _ hentry)
        rw [I.entered.matured_incomplete b (hstart ▸ I.shape.start_matured)] at hinc; cases hinc
      · have hm := S.keep first (lt_of_op_eq ho) (by rw [show (t5.frame.graph.node first).op = _ from ho]; simp)
        have h0 := S.keep start (lt_of_op_eq hs) (by rw [show (t5.frame.graph.node start).op = _ from hs]; simp)
        exact .first rfl (by rwa [hm]) (by rwa [hm]) (by rwa [h0])
    · refine hthread.map (fun a c h => congrArg _ h) (fun k hk => .of_eq (S.keep k ?_ ?_)) fun k _ p hp =>
        .of_eq (S.keep p ?_ ?_)
      · exact lt_of_leaves (hthread.mem_op k hk).2
      · intro hp
        have := (hthread.mem_op k hk).2
        rw [show (t5.frame.builder.graph.node k).op = _ from hp] at this; cases this
      · exact lt_of_op_eq hp.op
      · rw [show (t5.frame.graph.node p).op = _ from hp.op]; simp
    · rw [leaves_kept ho] at hk ho; exact hall k hk ho
    · have e := ret_kept ho
      rw [e] at hk ho ⊢
      obtain ⟨h, hh, hdef⟩ := R5.last k ho
      rw [hk, hd] at hdef; exact ⟨h, hh, congrArg _ (Option.some.inj hdef).symm⟩
    · rw [ret_kept ho] at hk ho
      rw [ret_kept ho'] at hk' ho'; exact R5.one k k' ho ho' (hk.trans hk'.symm)

end

end Stages

end JvmGraph
