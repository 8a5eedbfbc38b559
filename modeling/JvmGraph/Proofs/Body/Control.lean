import JvmGraph.Proofs.Body.Calm
import JvmGraph.Proofs.Ssa.Edges

/-!
# Coming to blocks and leaving them

The steps that lead from one block to another. Each of them notes the depth of the operand stack for the
blocks that it leads to, adds its edges, and leaves the rest alone. The state after each of these steps is
given as a whole; what holds of a run follows from that.
-/

namespace JvmGraph

open Steps JvmGraph.Frame Ssa Builder BodyState

variable {b : BasicBlock} {f : Frame} {kind : Kind} {target : Nat} {f' : Frame} {p : NodeId × NodeId}
  {binary : Bool} {way : Comparison}

/-! ## The table of blocks -/

namespace BodyState

def starts (t : BodyState) (pc : Nat) : Option BasicBlock := t.blocks.getD pc none

def blockAt (t : BodyState) (pc : Nat) : Option BlockId := (t.starts pc).map BasicBlock.block

/-- The depth of the operand stack there, once it is known. -/
def depthAt (t : BodyState) (pc : Nat) : Option Nat := (t.starts pc).bind BasicBlock.depth?

/-- Every entry of the table stands at its own address. -/
def Own (t : BodyState) : Prop := ∀ pc b, t.starts pc = some b → b.pc = pc

structure Good (t : BodyState) : Prop where
  fit : Fit t.frame
  own : t.Own
  block_lt : ∀ pc b, t.blockAt pc = some b → b.index < t.frame.graph.blocks.size
  block_ne : ∀ pc b, t.blockAt pc = some b → b ≠ Graph.endBlock
  depth_le : ∀ pc d, t.depthAt pc = some d → d ≤ t.frame.maxStack.toNat

def Notes (t : BodyState) (pc d : Nat) (t' : BodyState) : Prop :=
  ∃ b, t.starts pc = some b ∧ (∀ e, b.depth? = some e → e = d) ∧
    ∀ q, t'.starts q = if q = pc then some { b with depth? := some d } else t.starts q

structure Leads (bs : List BlockId) (t t' : BodyState) (out : List (BlockId × NodeId)) : Prop
    extends Ssa.Adds t.frame.builder t'.frame.builder out where
  maxStack : t'.frame.maxStack = t.frame.maxStack
  blockAt : ∀ pc, t'.blockAt pc = t.blockAt pc
  depthAt : ∀ pc d, t.depthAt pc = some d → t'.depthAt pc = some d
  def_other : ∀ b, b ∉ bs → ∀ x : Nat, t'.frame.builder.definition? b x = t.frame.builder.definition? b x

variable {t t' t'' : BodyState} {bs bs' : List BlockId} {out out' : List (BlockId × NodeId)} {pc d : Nat}

lemma Leads.trans (A : Leads bs t t' out) (A' : Leads bs' t' t'' out') : Leads (bs ++ bs') t t'' (out ++ out') where
  toAdds := A.toAdds.trans A'.toAdds
  maxStack := A'.maxStack.trans A.maxStack
  blockAt q := (A'.blockAt q).trans (A.blockAt q)
  depthAt q d h := A'.depthAt q d (A.depthAt q d h)
  def_other b hb x := by
    rw [List.mem_append, not_or] at hb
    rw [A'.def_other b hb.2, A.def_other b hb.1]

lemma Leads.mono (A : Leads bs t t' out) (h : ∀ b ∈ bs, b ∈ bs') : Leads bs' t t' out :=
  { A with def_other := fun b hb => A.def_other b fun hb' => hb (h b hb') }

lemma blockAt_of_starts (h : ∀ q, t'.starts q = t.starts q) (q : Nat) : t'.blockAt q = t.blockAt q := by
  rw [blockAt, blockAt, h]

lemma depthAt_of_starts (h : ∀ q, t'.starts q = t.starts q) (q : Nat) : t'.depthAt q = t.depthAt q := by
  rw [depthAt, depthAt, h]

namespace Notes

variable (N : t.Notes pc d t')

include N

lemma blockAt (q : Nat) : t'.blockAt q = t.blockAt q := by
  obtain ⟨b, hb, -, h⟩ := N
  rw [BodyState.blockAt, BodyState.blockAt, h]
  split
  · rename_i hq; simp [hq, hb]
  · rfl

lemma depthAt_pc : t'.depthAt pc = some d := by
  obtain ⟨b, -, -, h⟩ := N
  simp [depthAt, h]

lemma depthAt (q e : Nat) (he : t.depthAt q = some e) : t'.depthAt q = some e := by
  by_cases hq : q = pc
  · subst hq
    obtain ⟨b, hb, hd, -⟩ := id N
    rw [BodyState.depthAt, hb] at he
    rw [N.depthAt_pc, hd e he]
  · obtain ⟨b, -, -, h⟩ := N; rwa [BodyState.depthAt, h, if_neg hq]

lemma depthAt_cases {q e : Nat} (h : t'.depthAt q = some e) : e = d ∨ t.depthAt q = some e := by
  by_cases hq : q = pc
  · rw [hq, N.depthAt_pc] at h; exact .inl (Option.some.inj h).symm
  · obtain ⟨b, -, -, hs⟩ := N; rw [BodyState.depthAt, hs, if_neg hq] at h; exact .inr h

lemma own (own : t.Own) : t'.Own := by
  intro q b hb
  obtain ⟨b', hb', -, h⟩ := N
  rw [h] at hb
  split at hb
  · rename_i hq
    cases hb
    rw [hq]; exact own pc b' hb'
  · exact own q b hb

end Notes

lemma Good.of_leads (G : t.Good) (A : Leads bs t t' out) (F : Fit t'.frame)
    (own : t'.Own) (hd : ∀ q e, t'.depthAt q = some e → e ≤ t.frame.maxStack.toNat) :
    t'.Good where
  fit := F
  own := own
  block_lt q b h := by
    rw [A.blockAt] at h
    rw [show t'.frame.graph.blocks.size = t.frame.graph.blocks.size from A.blocks_size]
    exact G.block_lt q b h
  block_ne q b h := G.block_ne q b (A.blockAt q ▸ h)
  depth_le q e h := by rw [A.maxStack]; exact hd q e h

lemma Good.of_frame (G : t.Good) (hs : ∀ q, t'.starts q = t.starts q) (A : Leads bs t t' out) (F : Fit t'.frame) :
    t'.Good :=
  G.of_leads A F (fun q b h => G.own q b (hs q ▸ h)) fun q e h => G.depth_le q e (depthAt_of_starts hs q ▸ h)

lemma Good.note (G : t.Good) (N : t.Notes pc d t') (A : Leads bs t t' out) (F : Fit t'.frame)
    (hd : d ≤ t.frame.maxStack.toNat) : t'.Good :=
  G.of_leads A F (N.own G.own) fun q e h => (N.depthAt_cases h).elim (fun he => he ▸ hd) (G.depth_le q e)

lemma Leads.of_calm (hs : ∀ q, t'.starts q = t.starts q) (C : Calm t.frame t'.frame) :
    Leads [t.frame.builder.current] t t' [] where
  toAdds := C.toQuiet.adds
  maxStack := C.maxStack
  blockAt := blockAt_of_starts hs
  depthAt q d h := by rwa [depthAt_of_starts hs]
  def_other b hb x := C.def_other b x (by simpa using hb)

end BodyState

/-- The comparison that a conditional branch looks at. -/
def Frame.withCmp (f : Frame) (way : Comparison) (left right : NodeId) : Frame :=
  { f with builder := f.builder.place f.builder.current (.cmp (relationOf way)) .bool [left, right] }

lemma Frame.sides_ok {cmp : NodeId} (h : (do
      let cond ← addNode .cond .tuple [cmp]
      let taken ← build (addProj cond .control Projection.condTrue)
      let fall ← build (addProj cond .control Projection.condFalse)
      return (taken, fall) : Step (NodeId × NodeId)) f = .ok p f') :
    p = (⟨f.graph.nodes.size + 1⟩, ⟨f.graph.nodes.size + 2⟩) ∧ f' = { f with builder := f.builder.sides cmp } := by
  obtain ⟨cond, f1, h1, h⟩ := bind_ok.1 h
  obtain ⟨rfl, hf1⟩ := addNode_ok h1
  have hnode : f1.graph.node f.graph.fresh = ⟨.cond, .tuple, f.builder.current, [cmp]⟩ := by
    rw [hf1]; exact f.builder.node_place_new _ _ _ _
  have hsize : f1.graph.nodes.size = f.graph.nodes.size + 1 := by
    rw [hf1]; simp [Frame.graph, place]
  obtain ⟨taken, f2, h2, h⟩ := bind_ok.1 h
  obtain ⟨rfl, hf2⟩ := addProj_ok h2
  obtain ⟨fall, f3, h3, h⟩ := bind_ok.1 h
  obtain ⟨rfl, hf3⟩ := addProj_ok h3
  cases h
  rw [hnode] at hf2
  have hnode2 : f2.graph.node f.graph.fresh = ⟨.cond, .tuple, f.builder.current, [cmp]⟩ := by
    rw [hf2, ← hnode]
    exact node_place_old (lt_of_lt_of_eq (Nat.lt_succ_self _) hsize.symm)
  have hsize2 : f2.graph.nodes.size = f.graph.nodes.size + 2 := by
    rw [hf2, ← add_assoc f.graph.nodes.size 1 1, ← hsize]; simp [Frame.graph, place]
  refine ⟨by rw [Graph.fresh, Graph.fresh, hsize, hsize2], ?_⟩
  rw [hf3, hnode2, hf2, hf1]
  rfl

lemma Frame.condition_ok
    (h : condition kind binary way f = .ok p f') : ∃ left right f1, compared kind binary f = .ok (left, right) f1 ∧
      p = (⟨(f1.withCmp way left right).graph.nodes.size + 1⟩, ⟨(f1.withCmp way left right).graph.nodes.size + 2⟩) ∧
      f' = { f1 with builder := (f1.withCmp way left right).builder.sides f1.graph.fresh } := by
  rw [condition_eq] at h
  obtain ⟨⟨left, right⟩, f1, h1, h⟩ := bind_ok.1 h
  obtain ⟨cmp, f2, h2, h⟩ := bind_ok.1 h
  cases h2
  exact ⟨left, right, f1, h1, sides_ok h⟩

lemma Frame.Fit.withEdges {s' : Builder} {out : List (BlockId × NodeId)} (F : Fit f) (Y : Young s')
    (A : Adds f.builder s' out) (hb : s'.graph.bads = f.graph.bads) : Fit { f with builder := s' } where
  toYoung := Y
  varCount := A.varCount.trans F.varCount
  depth_le := F.depth_le
  start := (A.keep _ F.start_lt).trans F.start
  bads mode n h := by
    obtain ⟨h1, h2⟩ := F.bads mode n (hb ▸ h)
    exact ⟨lt_of_lt_of_le h1 A.size_le, (A.keep n h1).trans h2⟩

namespace Body

open BodyState

variable {t t' : BodyState} {pc : Nat} {u : Unit} {d : Nat}

/-! ## Steps -/

lemma blockAt?_ok {b? : Option BasicBlock} : blockAt? pc t = .ok b? t' ↔ t.starts pc = b? ∧ t = t' := by
  constructor
  · intro h; exact pure_ok.1 h
  · rintro ⟨rfl, rfl⟩; exact bind_ok.2 ⟨t, t, get_ok.2 ⟨rfl, rfl⟩, rfl⟩

lemma starts_setBlock {c : BasicBlock} (hb : t.starts pc = some b) (q : Nat) :
    starts { t with blocks := t.blocks.setIfInBounds pc (some c) } q =
      if q = pc then some c else t.starts q := by
  have hlt : pc < t.blocks.size := by
    by_contra h
    simp [starts, Array.getElem?_eq_none (not_lt.1 h)] at hb
  simp only [starts, Arrays.getD_setIfInBounds, hlt, and_true]

/-- A step that takes the depth from the frame, or finds it there. -/
lemma notes_of_depth (hb : t.starts pc = some b) (hd : b.depth? = some d) : t.Notes pc d t := by
  refine ⟨b, hb, fun e he => by simpa [hd, eq_comm] using he, fun q => ?_⟩
  split
  · rename_i hq; rw [hq, hb, ← hd]
  · rfl

lemma notes_setBlock (own : t.Own) (hb : t.starts pc = some b) (hd : b.depth? = none) :
    t.Notes pc d { t with blocks := t.blocks.setIfInBounds b.pc (some { b with depth? := some d }) } := by
  refine ⟨b, hb, by simp [hd], fun q => ?_⟩
  rw [own pc b hb]
  exact starts_setBlock hb q

lemma agreeOnDepth_ok (h : agreeOnDepth b t = .ok u t') (own : t.Own) (hb : t.starts pc = some b) :
    t'.frame = t.frame ∧ t.Notes pc t.frame.depth t' := by
  replace h := get_bind_ok.1 h
  cases hd : b.depth? with
  | none =>
    simp only [hd] at h
    cases h
    have N := notes_setBlock (d := t.frame.depth) own hb hd; exact ⟨rfl, N⟩
  | some d =>
    simp only [hd] at h
    by_cases he : d = t.frame.depth
    · rw [if_neg (not_not.2 he)] at h
      cases h; exact ⟨rfl, notes_of_depth hb (he ▸ hd)⟩
    · rw [if_pos he] at h; cases h

lemma branchTo_ok {edge : NodeId} (h : branchTo target edge t = .ok u t') (own : t.Own) :
    ∃ b, t.blockAt target = some b ∧ t.Notes target t.frame.depth t' ∧
      t'.frame = { t.frame with builder := { t.frame.builder with graph := t.frame.graph.addPred b edge } } := by
  unfold branchTo at h
  obtain ⟨b?, t1, h1, h⟩ := bind_ok.1 h
  obtain ⟨hb, rfl⟩ := blockAt?_ok.1 h1
  cases b? with
  | none => exact absurd h throw_ok
  | some b =>
    obtain ⟨v, t1, h1, h⟩ := bind_ok.1 h
    obtain ⟨hf, N⟩ := agreeOnDepth_ok h1 own hb
    obtain ⟨f', h2, rfl⟩ := onFrame_ok.1 h
    obtain ⟨s', h3, rfl⟩ := build_ok.1 h2
    cases h3
    rw [hf]; exact ⟨b.block, by simp [blockAt, hb], N, rfl⟩

lemma enterBlock_ok (h : enterBlock b t = .ok u t') (own : t.Own) (hb : t.starts pc = some b) :
    ∃ d, t.Notes pc d t' ∧ (t.frame.builder.current?.isSome ∨ t.depthAt pc = none → d = t.frame.depth) ∧
      t'.frame = { t.frame with depth := d, builder := t.frame.builder.entering b.block } := by
  replace h := get_bind_ok.1 h
  have arrive : ∀ {t1 : BodyState}, (do
      onFrame (build (setCurrent (some b.block)))
      modify fun t => { t with initialized := [] } : Body Unit) t1 = .ok u t' →
      t' = { t1 with frame := {
        t1.frame with builder := { t1.frame.builder with current? := some b.block } }, initialized := [] } := by
    intro t1 h
    obtain ⟨v, t2, h1, h⟩ := bind_ok.1 h
    cases h1; exact (modify_ok.1 h).symm
  unfold entering
  cases hc : t.frame.builder.current? with
  | some c =>
    simp only [hc] at h ⊢
    obtain ⟨v, t1, h1, h⟩ := bind_ok.1 h
    obtain ⟨hf, N⟩ := agreeOnDepth_ok h1 own hb
    by_cases hcb : c = b.block
    · rw [if_neg (not_not.2 hcb)] at h
      obtain rfl := arrive h
      refine ⟨t.frame.depth, N, fun _ => rfl, ?_⟩
      rw [if_pos hcb, hf, ← hcb, ← hc]
    · rw [if_pos hcb] at h
      obtain ⟨e, t2, h2, h⟩ := bind_ok.1 h
      cases h2
      obtain ⟨w, t3, h3, h⟩ := bind_ok.1 h
      cases h3
      obtain rfl := arrive h
      refine ⟨t.frame.depth, N, fun _ => rfl, ?_⟩
      rw [if_neg hcb]; simp only [hf]; rfl
  | none =>
    simp only [hc] at h ⊢
    cases hd : b.depth? with
    | some d =>
      simp only [hd] at h
      obtain ⟨v, t2, h2, h⟩ := bind_ok.1 h
      cases h2
      obtain rfl := arrive h; exact ⟨d, notes_of_depth hb hd, by simp [depthAt, hb, hd], rfl⟩
    | none =>
      simp only [hd] at h
      obtain ⟨v, t2, h2, h⟩ := bind_ok.1 h
      cases h2
      obtain rfl := arrive h
      have N := notes_setBlock (d := t.frame.depth) own hb hd
      exact ⟨t.frame.depth, N, fun _ => rfl, rfl⟩

lemma jump_ok (h : jump target t = .ok u t') (own : t.Own) :
    ∃ b, t.blockAt target = some b ∧ t.Notes target t.frame.depth t' ∧
      t'.frame = { t.frame with builder := { t.frame.builder.leaving .jmp [] b with current? := none } } := by
  unfold jump at h
  obtain ⟨e, t1, h1, h⟩ := bind_ok.1 h
  cases h1
  obtain ⟨v, t2, h2, h⟩ := bind_ok.1 h
  obtain ⟨b, hb, N, hf⟩ := branchTo_ok h2 own
  cases h
  refine ⟨b, hb, N, ?_⟩
  simp only [hf]
  rfl

lemma branch_ok {next : Nat} (h : branch kind binary way target next t = .ok u t')
    (own : t.Own) : ∃ left right f1 taken fall t1, compared kind binary t.frame = .ok (left, right) f1 ∧
      t.blockAt target = some taken ∧ t.blockAt next = some fall ∧
      t.Notes target f1.depth t1 ∧ t1.Notes next f1.depth t' ∧
      t'.frame = { f1 with builder :=
        { (f1.withCmp way left right).builder.splitting f1.graph.fresh taken fall with current? := none } } := by
  obtain ⟨p, t1, h1, h⟩ := bind_ok.1 h
  obtain ⟨f1, hf1, rfl⟩ := onFrame_ok.1 h1
  obtain ⟨left, right, f2, hf2, rfl, rfl⟩ := condition_ok hf1
  obtain ⟨v, t2, h2, h⟩ := bind_ok.1 h
  obtain ⟨taken, htaken, N2, hfr2⟩ := branchTo_ok h2 own
  obtain ⟨w, t3, h3, h⟩ := bind_ok.1 h
  obtain ⟨fall, hfall, N3, hfr3⟩ := branchTo_ok h3 (N2.own own)
  cases h
  rw [N2.blockAt] at hfall
  rw [hfr2] at N3
  refine ⟨left, right, f2, taken, fall, t2, hf2, htaken, hfall, N2, N3, ?_⟩
  simp only [hfr3, hfr2]
  rfl

lemma yield_ok {result? : Option Mode} (h : yield kind result? t = .ok u t') :
    ∃ inputs t1, yielded kind result? t = .ok inputs t1 ∧ (∀ q, t'.starts q = t1.starts q) ∧
      t'.frame = { t1.frame with
      builder := { t1.frame.builder.leaving .ret inputs Graph.endBlock with current? := none } } := by
  rw [yield_eq] at h
  obtain ⟨inputs, t1, h1, h⟩ := bind_ok.1 h
  obtain ⟨edge, t2, h2, h⟩ := bind_ok.1 h
  cases h2
  obtain ⟨v, t3, h3, h⟩ := bind_ok.1 h
  cases h3
  cases h
  exact ⟨inputs, t1, h1, fun _ => rfl, rfl⟩

lemma throwObject_ok (h : throwObject t = .ok u t') :
    ∃ memory t1, aborted t = .ok memory t1 ∧ (∀ q, t'.starts q = t1.starts q) ∧ t'.world = t1.world ∧
      t'.frame = { t1.frame with builder :=
        { t1.frame.builder with graph := t1.frame.graph.keepAlive memory, current? := none } } := by
  rw [throwObject_eq] at h
  obtain ⟨memory, t1, h1, h⟩ := bind_ok.1 h
  obtain ⟨v, t2, h2, h⟩ := bind_ok.1 h
  cases h2
  cases h
  exact ⟨memory, t1, h1, fun _ => rfl, rfl, rfl⟩

end Body

end JvmGraph
