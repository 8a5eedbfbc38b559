import JvmGraph.Proofs.Body.Calm

/-!
# Memory while a body is compiled

Before any block is matured, the variable of the memory state holds in every block the end of the thread of
the nodes that touch memory there. All other steps leave these nodes and that variable alone. A call goes
to an address or through a method that was selected just before it, in the same memory state.
-/

namespace JvmGraph

open Steps List JvmGraph.Graph Node Ssa.Builder

variable {b : BlockId} {m k : NodeId}

namespace Graph

/-- A selected method is called by the next node, in the same memory state. A call goes to an address or through what
the node before it selects. -/
structure SelectiveAt (g : Graph) (n : NodeId) : Prop where
  select : ∀ e, (g.node n).op = .methodSel e → ∃ h rest rest', (g.node n).inputs = h :: rest ∧
    (g.node ⟨n.index + 1⟩).op = .call ∧ (g.node ⟨n.index + 1⟩).block = (g.node n).block ∧
      (g.node ⟨n.index + 1⟩).inputs = h :: n :: rest'
  callee : (g.node n).op = .call → ∃ h a rest, (g.node n).inputs = h :: a :: rest ∧
    ((∃ e, (g.node a).op = .address e) ∨ (g.node a).op.isSelection = true ∧ n.index = a.index + 1)

def Selective (g : Graph) : Prop := ∀ n, g.SelectiveAt n

lemma SelectiveAt.of_op {g : Graph} {n : NodeId} (h : (g.node n).op.isSelection = false ∧ (g.node n).op ≠ .call) :
    g.SelectiveAt n where
  select e he := by
    rw [he] at h; cases h.1
  callee hc := absurd hc h.2

section Keep

variable {g g' : Graph} (E : g.Extends g')

include E

lemma Selective.grow (S : g.Selective) (new : ∀ n, g.nodes.size ≤ n.index → g'.SelectiveAt n) : g'.Selective := by
  intro n
  by_cases hlt : g.Has n
  · refine ⟨fun e hn => ?_, fun hc => ?_⟩
    · rw [E.keep n hlt] at hn ⊢
      obtain ⟨h, rest, rest', hi, ho, hb, hi'⟩ := (S n).select e hn
      rw [E.keep_of_op ho]; exact ⟨h, rest, rest', hi, ho, hb, hi'⟩
    · rw [E.keep n hlt] at hc ⊢
      obtain ⟨h, a, rest, hi, ha⟩ := (S n).callee hc
      refine ⟨h, a, rest, hi, ha.imp (fun ⟨e, he⟩ => ⟨e, ?_⟩) fun ⟨hs, hx⟩ => ⟨?_, hx⟩⟩
      · rwa [E.keep_of_op he]
      · rwa [E.keep a (lt_of_op fun hb => by rw [hb] at hs; cases hs)]
  · exact new n (not_lt.1 hlt)

lemma Selective.keep (S : g.Selective)
    (fresh : ∀ n, g.nodes.size ≤ n.index → g'.Has n → (g'.node n).op.isSelection = false ∧ (g'.node n).op ≠ .call) :
    g'.Selective := by
  refine S.grow E fun n hn => ⟨fun e he => ?_, fun hc => ?_⟩
  · have := (fresh n hn (lt_of_op_eq he)).1; rw [he] at this; cases this
  · exact absurd hc (fresh n hn (lt_of_op_eq hc)).2

lemma Selective.touched {op : Op} {inputs : List NodeId} (S : g.Selective)
    (old : ∀ n, g.nodes.size ≤ n.index → g'.Has n → (g'.touched b op m inputs).SelectiveAt n)
    (new : (g'.touched b op m inputs).SelectiveAt g'.fresh) : (g'.touched b op m inputs).Selective := by
  refine S.grow (E.trans (g'.extends_touched b op m inputs)) fun n hn => ?_
  by_cases hlt : g'.Has n
  · exact old n hn hlt
  · by_cases hne : n = g'.fresh
    · exact hne ▸ new
    · rcases op_touched_other b op m inputs (not_lt.1 hlt) hne with h | h <;>
        exact .of_op (by rw [h]; exact ⟨rfl, by simp⟩)

end Keep

end Graph

namespace Ssa

variable {s s' : Builder}

/-! ## The threads of all blocks -/

/-- The memory state that a block has at first: a Phi that waits for its operands, or the first one of all. -/
def Builder.Begins (s : Builder) (b : BlockId) (m : NodeId) : Prop :=
  (s.memoryVar, m) ∈ (s.state b).incomplete ∨
    (b = Graph.startBlock ∧ (s.graph.node m).op = .proj Projection.memory ∧ (s.graph.node m).inputs = [Graph.start] ∧
      (s.graph.node Graph.start).op = .start)

lemma Builder.Begins.keep (h : s.Begins b m) (E : s.graph.Extends s'.graph) (hvar : s'.varCount = s.varCount)
    (hinc : ∀ p ∈ (s.state b).incomplete, p ∈ (s'.state b).incomplete) : s'.Begins b m := by
  rcases h with h | ⟨hb, ho, hi, hs⟩
  · exact .inl (by rw [memoryVar, hvar]; exact hinc _ h)
  · have hm := E.keep_of_op ho; exact .inr ⟨hb, by rwa [hm], by rwa [hm], by rwa [E.keep_of_op hs]⟩

abbrev Builder.memory? (s : Builder) (b : BlockId) : Option NodeId := s.definition? b s.memoryVar

lemma Builder.memory?_eq (h : s'.varCount = s.varCount) (b : BlockId) :
    s'.memory? b = s'.definition? b s.memoryVar := by
  rw [memory?, memoryVar, h]
  rfl

lemma Aside.memory? (A : Aside s s') (b : BlockId) : s'.memory? b = s.memory? b :=
  (memory?_eq A.varCount b).trans (A.memory b)

def Builder.Idle (s : Builder) (b : BlockId) : Prop :=
  ∀ n, (s.graph.node n).block = b → (s.graph.node n).op.leavesMemory = false

/-- All nodes of the block that touch memory are on one thread, which ends in `m`. -/
def Builder.Spun (s : Builder) (b : BlockId) (m : NodeId) : Prop := ∃ first ks, s.Begins b first ∧
  s.graph.Thread id b first ks m ∧ ks.Nodup ∧
    ∀ n, (s.graph.node n).block = b → (s.graph.node n).op.leavesMemory = true → n ∈ ks

section

variable
  (old : ∀ n, (s'.graph.node n).block = b → (s'.graph.node n).op.leavesMemory = true → s'.graph.node n = s.graph.node n)

include old

lemma Builder.Idle.keep (h : s.Idle b) : s'.Idle b := by
  refine fun n hn => Bool.eq_false_iff.2 fun hl => ?_
  have e := old n hn hl
  rw [e] at hn hl
  simp [h n hn] at hl

lemma Builder.Spun.keep (h : s.Spun b m) (E : s.graph.Extends s'.graph) (hvar : s'.varCount = s.varCount)
    (hinc : ∀ p ∈ (s.state b).incomplete, p ∈ (s'.state b).incomplete) : s'.Spun b m := by
  obtain ⟨first, ks, hB, T, hnd, hall⟩ := h
  refine ⟨first, ks, hB.keep E hvar hinc, T.keep E, hnd, fun n hn hl => ?_⟩
  have e := old n hn hl
  rw [e] at hn hl; exact hall n hn hl

end

/-- Every block holds the end of its thread as its memory state; one without a memory state has touched none. -/
structure Woven (s : Builder) : Prop where
  idle : ∀ b : BlockId, b.index < s.graph.blocks.size → s.memory? b = none → b ≠ Graph.startBlock ∧ s.Idle b
  spun : ∀ b m, s.memory? b = some m → s.Spun b m
  selective : s.graph.Selective

namespace Woven

/-- A block that has touched no memory may get a Phi as its memory state. -/
lemma mono (W : Woven s) (E : s.graph.Extends s'.graph)
    (hblocks : s'.graph.blocks.size = s.graph.blocks.size) (hvar : s'.varCount = s.varCount)
    (memory : ∀ b, s'.memory? b = s.memory? b ∨ s.graph.HasBlock b ∧ s.memory? b = none ∧
      ∃ n, s'.memory? b = some n ∧ (s'.memoryVar, n) ∈ (s'.state b).incomplete)
    (hinc : ∀ b, ∀ p ∈ (s.state b).incomplete, p ∈ (s'.state b).incomplete)
    (fresh : ∀ n, s.graph.nodes.size ≤ n.index → s'.graph.Has n →
      (s'.graph.node n).op.leavesMemory = false ∧ (s'.graph.node n).op.isSelection = false) : Woven s' := by
  have old : ∀ {b} n, (s'.graph.node n).block = b → (s'.graph.node n).op.leavesMemory = true →
      s'.graph.node n = s.graph.node n := by
    intro _ n _ hl
    by_cases hn : s.graph.Has n
    · exact E.keep n hn
    · simp [fresh n (by omega) (lt_of_leaves hl)] at hl
  refine ⟨fun b hb hd => ?_, fun b m hm => ?_, W.selective.keep E fun n h1 h2 => ⟨(fresh n h1 h2).2, fun hc => ?_⟩⟩
  · rcases memory b with h | ⟨-, -, n, h, -⟩
    · exact (W.idle b (hblocks ▸ hb) (h ▸ hd)).imp_right (.keep old)
    · rw [h] at hd; cases hd
  · rcases memory b with h | ⟨hb, hnone, n, h, hn⟩
    · exact (W.spun b m (h ▸ hm)).keep old E hvar (hinc b)
    · obtain rfl : n = m := by rw [h] at hm; exact Option.some.inj hm
      have hidle : s'.Idle b := (W.idle b hb hnone).2.keep old
      exact ⟨n, [], .inl hn, rfl, .nil, fun k hk hl => by simp [hidle k hk] at hl⟩
  · have := (fresh n h1 h2).1; rw [hc] at this; cases this

lemma aside (W : Woven s) (A : Aside s s') : Woven s' :=
  W.mono A.toExtends (by rw [A.blocks]) A.varCount (fun b => .inl (A.memory? b)) A.incomplete_keep A.plain

lemma read (W : Woven s) (Y : Young s) (R : ReadYoung s s' s.memoryVar .memory m) : Woven s' := by
  refine W.mono R.quiet.toExtends (by rw [R.quiet.blocks])
    R.quiet.varCount (fun b => ?_) R.quiet.incomplete_keep R.plain
  rw [memory?_eq R.quiet.varCount, show s'.memoryVar = s.memoryVar from R.quiet.varCount]
  by_cases hb : b = s.current
  · rw [hb, R.def_same, if_pos rfl]
    refine R.found.imp Eq.symm fun ⟨hd, hphi⟩ => ⟨Y.current_lt, hd, m, rfl, ?_⟩
    exact hphi (W.idle _ Y.current_lt hd).1
  · exact .inl (R.quiet.def_other b _ hb)

lemma extend (W : Woven s) {c : BlockId} {p : NodeId} (hm : s.memory? c = some m) (E : s.graph.Extends s'.graph)
    (hblocks : s'.graph.blocks = s.graph.blocks) (hvar : s'.varCount = s.varCount)
    (hinc : ∀ b, ∀ p ∈ (s.state b).incomplete, p ∈ (s'.state b).incomplete)
    (hdef : ∀ b, s'.memory? b = if b = c then some p else s.memory? b)
    (hk : s'.graph.Takes id c m k) (hp : s'.graph.Leaves id c k p) (hnew : s.graph.nodes.size ≤ k.index)
    (fresh : ∀ n, s.graph.nodes.size ≤ n.index → s'.graph.Has n →
      (s'.graph.node n).op.leavesMemory = true → n = k) (S : s'.graph.Selective) : Woven s' := by
  have old : ∀ n, (s'.graph.node n).op.leavesMemory = true → n = k ∨ s'.graph.node n = s.graph.node n := by
    intro n hl
    by_cases hn : s.graph.Has n
    · exact .inr (E.keep n hn)
    · exact .inl (fresh n (by omega) (lt_of_leaves hl) hl)
  have other : ∀ {b}, b ≠ c → ∀ n, (s'.graph.node n).block = b → (s'.graph.node n).op.leavesMemory = true →
      s'.graph.node n = s.graph.node n := fun hb n hn hl =>
    (old n hl).resolve_left fun h => hb (hn.symm.trans (h ▸ hk.block))
  refine ⟨fun b hb hd => ?_, fun b q hq => ?_, S⟩
  · rw [hdef] at hd
    split at hd
    · cases hd
    · rename_i hbc; exact (W.idle b (hblocks ▸ hb) hd).imp_right (.keep (other hbc))
  · rw [hdef] at hq
    split at hq
    · rename_i hbc
      cases hq
      subst hbc
      obtain ⟨first, ks, hB, T, hnd, hall⟩ := W.spun b m hm
      have hks : ∀ j ∈ ks, s.graph.Has j := fun j hj => lt_of_leaves (T.mem_op j hj).2
      refine ⟨first, ks ++ [k], hB.keep E hvar (hinc b), (T.keep E).append (.single hk hp), ?_, fun n hnb hl => ?_⟩
      · refine nodup_append.2 ⟨hnd, nodup_singleton k, fun a ha c hc => ?_⟩
        rintro rfl
        rw [mem_singleton.1 hc] at ha; exact absurd (hks k ha) (not_lt.2 hnew)
      · rcases old n hl with rfl | e
        · exact mem_append_right _ (.head _)
        · rw [e] at hnb hl; exact mem_append_left _ (hall n hnb hl)
    · rename_i hbc; exact (W.spun b q hq).keep (other hbc) E hvar (hinc b)

end Woven

/-- Memory is touched in the current block, in the state `m`, and the state that this leaves is stored. -/
def Builder.touched (s : Builder) (op : Op) (m : NodeId) (inputs : List NodeId) : Builder :=
  { s with graph := s.graph.touched s.current op m inputs }.define s.current s.memoryVar ⟨s.graph.nodes.size + 1⟩

end Ssa

/-! ## Frames -/

namespace Frame

open Ssa

variable {f f' : Frame}

/-- A memory state that the current block holds is given as it is. -/
lemma getStore_defined {m' : NodeId}
    (hd : f.builder.memory? f.builder.current = some m) (hr : f.builder.graph.resolve m = m)
    (h : build Ssa.getStore f = .ok m' f') : m' = m ∧ f' = f := by
  obtain ⟨s', hs, rfl⟩ := build_ok.1 h
  cases readAt_iff.1 hs with
  | found hv =>
    cases hd.symm.trans hv
    exact ⟨hr, rfl⟩
  | parked hv | nothing hv | passed hv | met hv => cases hd.symm.trans hv

lemma getStore_woven (h : build Ssa.getStore f = .ok m f') (F : Fit f) (W : Woven f.builder) :
    Fit f' ∧ Calm f f' ∧ Woven f'.builder ∧ f'.builder.memory? f'.builder.current = some m := by
  obtain ⟨s', hs, rfl⟩ := build_ok.1 h
  replace hs := get_bind_ok.1 hs
  have R := getValue_young hs F.toYoung (le_refl _)
  obtain ⟨F', C, -⟩ := getValue_frame (build_ok.2 ⟨s', hs, rfl⟩) F (le_refl _)
  refine ⟨F', C, W.read F.toYoung R, ?_⟩
  rw [memory?_eq (s := f.builder) R.quiet.varCount, R.quiet.current_eq, R.def_same, if_pos rfl]

/-! ## Touching memory -/

section Touched

variable {op : Op} {inputs : List NodeId} {s : Builder}

lemma memoryOp_ok (h : memoryOp op inputs f = .ok k f') : ∃ m f1, build Ssa.getStore f = .ok m f1 ∧
    k = f1.graph.fresh ∧ f' = { f1 with builder := f1.builder.touched op m inputs } := by
  obtain ⟨m, f1, h1, h⟩ := bind_ok.1 h
  obtain ⟨n, f2, h2, h⟩ := bind_ok.1 h
  obtain ⟨s2, hs2, rfl⟩ := build_ok.1 h2
  replace hs2 := get_bind_ok.1 hs2
  obtain ⟨rfl, rfl⟩ := onGraph_ok.1 hs2
  obtain ⟨p, f3, h3, h⟩ := bind_ok.1 h
  obtain ⟨s3, hs3, rfl⟩ := build_ok.1 h3
  obtain ⟨rfl, rfl⟩ := onGraph_ok.1 hs3
  obtain ⟨u, f4, h4, h⟩ := bind_ok.1 h
  cases h4
  cases h
  refine ⟨m, f1, h1, rfl, ?_⟩
  simp only [add_fst, proj_add_memory]
  rfl

lemma touch_woven {t : Builder} (W : Woven s) (Y : Young s) (hm : s.memory? s.current = some m)
    (St : Steady s t) (hstates : t.states = s.states)
    (fresh : ∀ n, s.graph.nodes.size ≤ n.index → t.graph.Has n → (t.graph.node n).op.leavesMemory = false)
    (ho : op.leavesMemory = true) (S : (t.graph.touched t.current op m inputs).Selective) :
    Woven (t.touched op m inputs) := by
  have E := t.graph.extends_touched t.current op m inputs
  have hstate : ∀ b, t.state b = s.state b := fun b => by simp [Builder.state, hstates]
  have hvar : t.memoryVar = s.memoryVar := St.varCount
  have hdefs : ∀ b,
    (t.touched op m inputs).memory? b = if b = s.current then some ⟨t.graph.nodes.size + 1⟩ else s.memory? b := by
    intro b
    obtain ⟨T, I⟩ := Y.inv
    obtain ⟨hb, hx⟩ := I.shape.in_range (b := s.current) (x := s.memoryVar) Y.current_lt (le_refl _)
    have e : s.memory? b = t.memory? b := by simp [Builder.definition?, hstate, hvar]
    rw [e, ← St.current_eq]
    refine (Builder.definition?_define { t with graph := t.graph.touched t.current op m inputs } _ ?_ ?_ b
      t.memoryVar).trans ?_
    · rwa [St.current_eq, hstates]
    · show t.memoryVar < (t.state t.current).definitions.size; rwa [hstate, St.current_eq, hvar]
    · simp only [and_true]; rfl
  refine W.extend hm (St.toExtends.trans E) St.blocks St.varCount (fun b p hp => ?_) hdefs
    (St.current_eq ▸ takes_touched t.current op m inputs ho) (St.current_eq ▸ leaves_touched t.current op m inputs)
    St.size_le (fun n h1 _ hl => ?_) S
  · rw [Builder.touched, Builder.incomplete_define]; show p ∈ (t.state b).incomplete; rwa [hstate]
  · by_contra hne
    by_cases hn : t.graph.Has n
    · simp [show (t.touched op m inputs).graph.node n = _ from E.keep n hn, fresh n h1 hn] at hl
    · rcases op_touched_other t.current op m inputs (by omega) hne with h | h <;>
        rw [show ((t.touched op m inputs).graph.node n).op = _ from h] at hl <;> cases hl

/-- A method that is selected in the state `m` is called in that state. -/
lemma callSelected_woven (W : Woven s) (Y : Young s) (hm : s.memory? s.current = some m) (e : EntityId)
    (args : List NodeId) : Woven ((s.place s.current (.methodSel e) .reference (m :: args.take 1)).touched .call m
      (s.graph.fresh :: args)) := by
  have hnode := s.node_place_new s.current (.methodSel e) .reference (m :: args.take 1)
  generalize ht : s.place s.current (.methodSel e) .reference (m :: args.take 1) = t at hnode ⊢
  have St : Steady s t := ht ▸ .place _ _ _ _ _
  have hsize : t.graph.nodes.size = s.graph.nodes.size + 1 := by simp [← ht, place]
  have hstates : t.states = s.states := ht ▸ rfl
  have E := t.graph.extends_touched t.current .call m (s.graph.fresh :: args)
  have hn := (E.keep s.graph.fresh (by rw [hsize]; exact Nat.lt_succ_self _)).trans hnode
  have hc := t.graph.node_touched_new t.current .call m (s.graph.fresh :: args)
  have hone : ∀ n : NodeId, s.graph.nodes.size ≤ n.index → t.graph.Has n → n = s.graph.fresh :=
    fun n h1 h2 => congrArg NodeId.mk (show n.index = _ by omega)
  refine touch_woven W Y hm St hstates (fun n h1 h2 => ?_) rfl (W.selective.touched St.toExtends (fun n h1 h2 => ?_) ?_)
  · rw [hone n h1 h2, hnode]; rfl
  · rw [show t.graph.fresh = _ from congrArg NodeId.mk hsize] at hc
    rw [hone n h1 h2]
    refine ⟨fun _ _ => ⟨m, _, args, congrArg inputs hn, congrArg op hc, ?_, congrArg inputs hc⟩, by simp [hn]⟩
    rw [hn, hc, St.current_eq]
  · refine ⟨by simp [hc], fun _ => ⟨m, _, args, congrArg inputs hc, .inr ⟨by rw [hn]; rfl, hsize⟩⟩⟩

end Touched

lemma lasting_woven : Lasting Woven where
  aside A W := W.aside A
  getStore F W h := (getStore_woven h F W).2.2.1
  memoryOp := by
    intro f f' op inputs k F W ho hc h
    obtain ⟨m, f1, h1, rfl, rfl⟩ := memoryOp_ok h
    obtain ⟨F1, -, W1, hm⟩ := getStore_woven h1 F W
    refine touch_woven W1 F1.toYoung hm (.refl _) rfl (fun n h1 h2 => absurd h2 (by omega)) ho ?_
    refine W1.selective.touched (.refl _) (fun n h1 h2 => absurd h2 (not_lt.2 h1)) (.of_op ?_)
    rw [node_touched_new]; exact ⟨Op.isSelection_of_leavesMemory ho, hc⟩
  callAt := by
    intro f f' e args k F W h
    obtain ⟨a, f1, h1, h⟩ := bind_ok.1 h
    obtain ⟨F1, -, -⟩ := calm_ok (calm_address (L := [])) F (by simp) h1
    obtain ⟨rfl, rfl⟩ := add_ok (c := fun _ => startBlock) h1
    obtain ⟨m, f2, h2, rfl, rfl⟩ := memoryOp_ok h
    obtain ⟨F2, C2, W2, hm⟩ := getStore_woven h2 F1 (W.aside (.place _ _ _ _ rfl rfl))
    refine touch_woven W2 F2.toYoung hm (.refl _) rfl (fun n h1 h2 => absurd h2 (by omega)) rfl ?_
    have hlt : f.graph.nodes.size < (f.builder.place startBlock (.address e) .reference []).graph.nodes.size := by
      simp [place, Frame.graph]
    have ha := (C2.keep f.graph.fresh hlt).trans (f.builder.node_place_new startBlock (.address e) .reference [])
    have E := f2.builder.graph.extends_touched f2.builder.current .call m (f.graph.fresh :: args)
    have hc := f2.builder.graph.node_touched_new f2.builder.current .call m (f.graph.fresh :: args)
    refine W2.selective.touched (.refl _) (fun n h1 h2 => absurd h2 (not_lt.2 h1))
      ⟨by simp [hc], fun _ => ⟨m, _, args, congrArg inputs hc, .inl ⟨e, ?_⟩⟩⟩
    rw [E.keep f.graph.fresh (lt_of_lt_of_le hlt C2.size_le), ha]
  select := by
    intro f f' e args k F W h
    obtain ⟨m, f1, h1, h⟩ := bind_ok.1 h
    obtain ⟨F1, -, W1, hm⟩ := getStore_woven h1 F W
    obtain ⟨code, f2, h2, h⟩ := bind_ok.1 h
    obtain ⟨rfl, rfl⟩ := addNode_ok h2
    obtain ⟨m', f3, h3, rfl, rfl⟩ := memoryOp_ok h
    -- the block holds the state, so it is not asked for anew
    have hres :
      (f1.builder.place f1.builder.current (.methodSel e) .reference (m :: args.take 1)).graph.resolve m = m :=
      follow_of_none ((target?_add (by simp) m).trans (target?_eq_none_of_op (F1.no_forward m))) _
    obtain ⟨rfl, rfl⟩ := getStore_defined
      (f := { f1 with builder := f1.builder.place f1.builder.current (.methodSel e) .reference (m :: args.take 1) }) hm
        hres h3
    exact callSelected_woven W1 F1.toYoung hm e args

end Frame

end JvmGraph
