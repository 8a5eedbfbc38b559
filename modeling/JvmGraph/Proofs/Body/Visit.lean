import JvmGraph.Proofs.Body.Control

/-!
# Going through the code

What one instruction adds: the edges by which control leaves its block, each to the block that begins at the
address it leads to. A run over the code then adds these edges one instruction after the other.
-/

namespace JvmGraph

open Steps JvmGraph.Frame BodyState List JvmGraph.Graph JvmGraph.Flow Ssa

variable {g g' : Graph} {out : List (BlockId × NodeId)} {β : Nat → Option BlockId}

def Way.Is (g : Graph) (b : BlockId) (e : NodeId) : Way → Prop
  | jump | into => (g.node e).op = .jmp ∧ (g.node e).block = b
  | taken => (g.node e).op = .proj Projection.condTrue ∧ (g.node e).block = b ∧
    ∃ c, (g.node e).inputs = [c] ∧ (g.node c).op = .cond ∧ (g.node c).block = b
  | fall => (g.node e).op = .proj Projection.condFalse ∧ (g.node e).block = b ∧
    ∃ c, (g.node e).inputs = [c] ∧ (g.node c).op = .cond ∧ (g.node c).block = b
  | ret => (g.node e).op = .ret ∧ (g.node e).block = b

def landing (β : Nat → Option BlockId) : Option Nat → Option BlockId
  | some pc => β pc
  | none => some Graph.endBlock

def Edge.Is (β : Nat → Option BlockId) (g : Graph) (x : Edge) (p : BlockId × NodeId) : Prop :=
  landing β x.target = some p.1 ∧ x.way.Is g x.source p.2

lemma Way.Is.keep {b : BlockId} {e : NodeId} {w : Way} (h : w.Is g b e) (he : g.Has e)
    (keep : ∀ n : NodeId, g.Has n → (g.node n).op ≠ .phi → g'.node n = g.node n) : w.Is g' b e := by
  have hcond : ∀ c, (g.node c).op = .cond → g'.node c = g.node c := fun c hc => keep c (lt_of_op_eq hc) (by simp [hc])
  have hop : (g.node e).op ≠ .phi := by cases w <;> rw [h.1] <;> simp
  cases w <;> simp only [Way.Is, keep e he hop] at h ⊢
  case jump | into | ret => exact h
  case taken | fall =>
    obtain ⟨ho, hb, c, hi, hc, hcb⟩ := h
    exact ⟨ho, hb, c, hi, by rwa [hcond c hc], by rwa [hcond c hc]⟩

lemma Edge.Is.keep {xs : List Edge} (h : Forall₂ (Edge.Is β g) xs out) (hout : ∀ p ∈ out, p.2.index < g.nodes.size)
    (keep : ∀ n : NodeId, g.Has n → (g.node n).op ≠ .phi → g'.node n = g.node n) :
    Forall₂ (Edge.Is β g') xs out := by
  induction h with
  | nil => exact .nil
  | cons hx _ ih =>
    exact .cons ⟨hx.1, hx.2.keep (hout _ (.head _)) keep⟩ (ih fun p hp => hout p (.tail _ hp))

lemma BodyState.Leads.of_adds {t t' : BodyState}
    (A : Adds t.frame.builder t'.frame.builder out) (hstack : t'.frame.maxStack = t.frame.maxStack)
    (hstates : t'.frame.builder.states = t.frame.builder.states)
    (hblock : ∀ q, t'.blockAt q = t.blockAt q) (hdepth : ∀ q d, t.depthAt q = some d → t'.depthAt q = some d) :
    Leads [] t t' out :=
  ⟨A, hstack, hblock, hdepth, fun b _ x => by simp [Builder.definition?, Builder.state, hstates]⟩

namespace Body

variable {t t' : BodyState} {ctx : MethodContext} {i : Instruction} {u : Unit} {b : BlockId}

lemma current_of_some {s : Builder} (h : s.current? = some b) : s.current = b := by
  simp [Builder.current, h]

lemma leads_of_keeps {α : Type} {x : Body α} {a : α} {K : α → List NodeId} (hx : calm.Keeps [] x K) (h : x t = .ok a t')
    (G : t.Good) (hc : t.frame.builder.current? = some b) :
    t'.Good ∧ Leads [b] t t' [] ∧ t'.frame.builder.current? = some b ∧ ∀ n ∈ K a, t'.frame.builder.Near n := by
  obtain ⟨F, C, htable, hK⟩ := calm_ok hx G.fit (by simp) h
  have hs : ∀ q, t'.starts q = t.starts q := fun q => by
    simp [starts, show t'.blocks = t.blocks from htable]
  have A := Leads.of_calm hs C
  rw [current_of_some hc] at A
  exact ⟨G.of_frame hs A F, A, C.current.trans hc, hK⟩

/-! ## One instruction -/

lemma leave_leads {op : Op} {inputs : List NodeId} {c : BlockId} (G : t.Good) (ho : op = .jmp ∨ op = .ret)
    (hi : ∀ n ∈ inputs, t.frame.builder.Near n) (hlt : t.frame.graph.HasBlock c) (hs : c ≠ startBlock)
    (hf : t'.frame = { t.frame with builder := { t.frame.builder.leaving op inputs c with current? := none } })
    (hblock : ∀ q, t'.blockAt q = t.blockAt q) (hdepth : ∀ q d, t.depthAt q = some d → t'.depthAt q = some d) :
    Fit t'.frame ∧ Leads [] t t' [(c, t.frame.graph.fresh)] ∧ t'.frame.builder.current? = none ∧
      t'.frame.graph.node t.frame.graph.fresh = ⟨op, .control, t.frame.builder.current, inputs⟩ := by
  have A := (t.frame.builder.adds_leaving op inputs hlt).stop
  have F := G.fit.withEdges (G.fit.toYoung.leaving ho hi hlt hs).stop A rfl
  rw [← hf] at F
  refine ⟨F, .of_adds ?_ (by rw [hf]) (by rw [hf]; rfl) hblock hdepth, by rw [hf], ?_⟩
  · rwa [hf]
  · rw [hf]; exact t.frame.builder.node_leaving op inputs c

section

variable (G : t.Good) (hc : t.frame.builder.current? = some b) {target : Nat} {kind : Kind}

include G hc

lemma jump_leads (h : jump target t = .ok u t') (hm : t.blockAt target ≠ some startBlock) :
    ∃ out, t'.Good ∧ Leads [b] t t' out ∧ t'.frame.builder.current? = none ∧
      Forall₂ (Edge.Is t.blockAt t'.frame.graph) [⟨b, .jump, some target⟩] out := by
  obtain ⟨c, hb, N, hf⟩ := jump_ok h G.own
  obtain ⟨F, A, hcur, hnode⟩ := leave_leads G (.inl rfl) (by simp) (G.block_lt target c hb) (fun h => hm (h ▸ hb)) hf
    N.blockAt N.depthAt
  refine ⟨_, G.note N A F G.fit.depth_le, A.mono (by simp), hcur, .cons ⟨hb, ?_⟩ .nil⟩
  rw [current_of_some hc] at hnode
  simp [Way.Is, hnode, and_self]

lemma yield_leads (ctx : MethodContext) {result? : Option Mode} (h : yield kind result? t = .ok u t') :
    ∃ out, t'.Good ∧ Leads [b] t t' out ∧ t'.frame.builder.current? = none ∧
      Forall₂ (Edge.Is t.blockAt t'.frame.graph) [⟨b, .ret, none⟩] out := by
  obtain ⟨inputs, t1, h1, hs, hf⟩ := yield_ok h
  obtain ⟨G1, A1, hc1, hnear⟩ := leads_of_keeps (calm_rules ctx).yielded h1 G hc
  have hlt : Graph.endBlock.index < t1.frame.graph.blocks.size := by
    obtain ⟨T, I⟩ := G1.fit.toYoung.inv; exact I.shape.blocks_pos
  obtain ⟨F, A, hcur, hnode⟩ := leave_leads G1 (.inr rfl) hnear hlt (by decide) hf (blockAt_of_starts hs)
    fun q d h => by rwa [depthAt_of_starts hs]
  refine ⟨_, G1.of_frame hs A F, A1.trans A, hcur, .cons ⟨rfl, ?_⟩ .nil⟩
  rw [current_of_some hc1] at hnode
  simp [Way.Is, hnode, and_self]

lemma throw_leads (ctx : MethodContext) (h : throwObject t = .ok u t') :
    t'.Good ∧ Leads [b] t t' [] ∧ t'.frame.builder.current? = none := by
  obtain ⟨memory, t1, h1, hs, -, hf⟩ := throwObject_ok h
  obtain ⟨G1, A1, -, -⟩ := leads_of_keeps (calm_rules ctx).aborted h1 G hc
  have A : Adds t1.frame.builder t'.frame.builder [] := by rw [hf]; exact .relocate rfl rfl rfl
  have F : Fit t'.frame := by
    have Y := G1.fit.toYoung.stop
    rw [hf]
    exact G1.fit.withEdges (Y.relocate rfl rfl rfl rfl Y.current_lt Y.current_ne) (hf ▸ A) rfl
  have A2 : Leads [] t1 t' [] := .of_adds A (by rw [hf]) (by rw [hf]) (blockAt_of_starts hs)
    fun q d h => by rwa [depthAt_of_starts hs]
  exact ⟨G1.of_frame hs A2 F, A1.trans A2, by rw [hf]⟩

lemma branch_leads {binary : Bool} {way : Comparison} {next : Nat}
    (h : branch kind binary way target next t = .ok u t') (hm : t.blockAt target ≠ some startBlock)
    (hm' : t.blockAt next ≠ some startBlock) :
    ∃ out, t'.Good ∧ Leads [b] t t' out ∧ t'.frame.builder.current? = none ∧
      Forall₂ (Edge.Is t.blockAt t'.frame.graph) [⟨b, .taken, some target⟩, ⟨b, .fall, some next⟩] out := by
  obtain ⟨left, right, f1, taken, fall, t1, h1, htaken, hfall, N1, N2, hf⟩ := branch_ok h G.own
  obtain ⟨F1, C1, hnear⟩ := Frame.calm_ok (lasting_true.rules.compared (L := [])) G.fit (by simp) h1
  obtain ⟨F2, C2, hcmp⟩ := F1.place (.cmp (relationOf way)) .bool [left, right] (.inl rfl) (by simp) (by simp) hnear
    (Node.not_isExit_of_isPlain rfl)
  -- up to the comparison the block is not left
  have hs : ∀ q, starts { t with frame := f1.withCmp way left right } q = t.starts q := fun _ => rfl
  have A2 : Leads [t.frame.builder.current] t { t with frame := f1.withCmp way left right } [] :=
    .of_calm hs (C1.trans C2)
  have G2 : BodyState.Good { t with frame := f1.withCmp way left right } := G.of_frame hs A2 F2
  have hcur := current_of_some hc
  rw [hcur] at A2
  have hcur2 : (f1.withCmp way left right).builder.current = b := (C1.trans C2).current_eq.trans hcur
  have ht := G2.block_lt target taken htaken
  have hl := G2.block_lt next fall hfall
  have A := ((f1.withCmp way left right).builder.adds_splitting f1.graph.fresh ht hl).stop
  have F := F2.withEdges (F2.toYoung.splitting hcmp ht (fun h => hm (h ▸ htaken)) hl fun h =>
    hm' (h ▸ hfall)).stop A rfl
  have A3 : Leads [] { t with frame := f1.withCmp way left right } t' _ :=
    .of_adds (by rw [hf]; exact A) (by rw [hf]; rfl) (by rw [hf]; rfl)
      (fun q => (N2.blockAt q).trans (N1.blockAt q)) fun q d h => N2.depthAt q d (N1.depthAt q d h)
  refine ⟨_, G2.of_leads A3 (by rw [hf]; exact F) (N2.own (N1.own G.own)) fun q e he => ?_, A2.trans A3, by rw [hf], ?_⟩
  · rcases N2.depthAt_cases he with rfl | he
    · exact F2.depth_le
    · rcases N1.depthAt_cases he with rfl | he
      · exact F2.depth_le
      · exact G2.depth_le q e he
  · have hn1 := (f1.withCmp way left right).builder.node_splitting_taken f1.graph.fresh taken fall
    have hn2 := (f1.withCmp way left right).builder.node_splitting_fall f1.graph.fresh taken fall
    have hn3 := (f1.withCmp way left right).builder.node_splitting_cond f1.graph.fresh taken fall
    rw [hcur2] at hn1 hn2 hn3
    have hg : t'.frame.graph = ((f1.withCmp way left right).builder.splitting f1.graph.fresh taken fall).graph := by
      rw [hf]; rfl
    rw [← hg] at hn1 hn2 hn3
    refine .cons ⟨htaken, ?_⟩ (.cons ⟨hfall, ?_⟩ .nil)
    · simp only [Way.Is, hn1, true_and]
      exact ⟨_, rfl, congrArg Node.op hn3, congrArg Node.block hn3⟩
    · simp only [Way.Is, hn2, true_and]
      exact ⟨_, rfl, congrArg Node.op hn3, congrArg Node.block hn3⟩

lemma step_leads (h : step ctx i t = .ok u t') (hm : ∀ pc ∈ i.marks, t.blockAt pc ≠ some startBlock) :
    ∃ out, t'.Good ∧ Leads [b] t t' out ∧ t'.frame.builder.current? = (if i.ends then none else some b) ∧
      Forall₂ (Edge.Is t.blockAt t'.frame.graph) (i.exitsFrom b) out := by
  cases he : i.ends with
  | false =>
    obtain ⟨G', A, hc', -⟩ := leads_of_keeps ((calm_rules ctx).step he) h G hc
    have hx : i.exitsFrom b = [] := by
      obtain ⟨pc, op, next⟩ := i; cases op <;> first | rfl | cases he
    rw [hx]; exact ⟨[], G', A, hc', .nil⟩
  | true =>
    obtain ⟨pc, op, next⟩ := i
    cases op with
    | branch kind binary way target =>
      exact branch_leads G hc h (hm target (by simp [Instruction.marks])) (hm next (by simp [Instruction.marks]))
    | jump target => exact jump_leads G hc h (hm target (by simp [Instruction.marks]))
    | yield kind => exact yield_leads G hc ctx h
    | throw =>
      obtain ⟨G', A, hc'⟩ := throw_leads G hc ctx h; exact ⟨[], G', A, hc', .nil⟩
    | uncompiled what => cases h
    | _ => cases he

end

def Arrives (t : BodyState) (i : Instruction) (t' : BodyState) : Prop :=
  (t.blockAt i.pc = none ∧ t'.frame = { t.frame with pc := i.pc } ∧ ∀ q, t'.starts q = t.starts q) ∨
  ∃ b d, t.blockAt i.pc = some b ∧ t.Notes i.pc d t' ∧
    (t.frame.builder.current?.isSome ∨ t.depthAt i.pc = none → d = t.frame.depth) ∧
    t'.frame = { t.frame with pc := i.pc, depth := d, builder := t.frame.builder.entering b }

def arrive (i : Instruction) : Body Unit := do
  onFrame (modify fun f => { f with pc := i.pc })
  match ← blockAt? i.pc with
  | some b => enterBlock b
  | none => pure ()

lemma visit_eq (ctx : MethodContext) (i : Instruction) : visit ctx i = (do
    arrive i
    if (← get).frame.builder.current?.isSome then step ctx i) := by
  unfold visit arrive
  simp only [bind_assoc]
  congr
  funext _
  congr
  funext b?
  cases b? <;> simp

lemma arrive_ok (h : arrive i t = .ok u t') (own : t.Own) : Arrives t i t' := by
  obtain ⟨v, t1, h1, h⟩ := bind_ok.1 h
  cases h1
  obtain ⟨b?, t2, h2, h⟩ := bind_ok.1 h
  obtain ⟨hb, rfl⟩ := blockAt?_ok.1 h2
  cases b? with
  | none =>
    cases h
    have hb' : t.blockAt i.pc = none := by simp [blockAt, show t.starts i.pc = none from hb]
    exact .inl ⟨hb', rfl, fun _ => rfl⟩
  | some b =>
    obtain ⟨d, N, hd, hf⟩ := enterBlock_ok h own hb
    have hb' : t.blockAt i.pc = some b.block := by simp [blockAt, show t.starts i.pc = some b from hb]
    exact .inr ⟨b.block, d, hb', N, hd, hf⟩

lemma visit_split (h : visit ctx i t = .ok u t') : ∃ t1, arrive i t = .ok () t1 ∧
    if t1.frame.builder.current?.isSome then step ctx i t1 = .ok u t' else t' = t1 := by
  rw [visit_eq] at h
  obtain ⟨v, t1, h1, h⟩ := bind_ok.1 h
  replace h := get_bind_ok.1 h
  refine ⟨t1, h1, ?_⟩
  split
  · rename_i hc; rwa [if_pos hc] at h
  · rename_i hc; rw [if_neg hc] at h; exact (pure_ok.1 h).2.symm

lemma visit_ok (h : visit ctx i t = .ok u t') (own : t.Own) : ∃ t1, Arrives t i t1 ∧
    if t1.frame.builder.current?.isSome then step ctx i t1 = .ok u t' else t' = t1 := by
  obtain ⟨t1, h1, h⟩ := visit_split h
  exact ⟨t1, arrive_ok h1 own, h⟩

lemma arrives_leads (h : Arrives t i t') (G : t.Good)
    (hs : t.blockAt i.pc = some startBlock → t.frame.builder.current? = some startBlock) :
    ∃ out, t'.Good ∧ Leads [] t t' out ∧ t'.frame.builder.current? = enters t.blockAt t.frame.builder.current? i ∧
      Forall₂ (Edge.Is t.blockAt t'.frame.graph) (falls t.blockAt t.frame.builder.current? i.pc) out := by
  rcases h with ⟨hb, hf, hstarts⟩ | ⟨b, d, hb, N, hd, hf⟩
  · have A : Leads [] t t' [] := .of_adds (by rw [hf]; exact (Quiet.refl _).adds) (by rw [hf]) (by rw [hf])
      (blockAt_of_starts hstarts) fun q d h => by rwa [depthAt_of_starts hstarts]
    refine ⟨[], G.of_frame hstarts A ?_, A, ?_, ?_⟩
    · rw [hf]; exact { G.fit with }
    · simp [hf, enters, hb]
    · unfold falls; rw [hb]; cases t.frame.builder.current? <;> exact .nil
  · have hlt := G.block_lt i.pc b hb
    have hne := G.block_ne i.pc b hb
    have hdepth : d ≤ t.frame.maxStack.toNat := by
      cases hk : t.depthAt i.pc with
      | none => rw [hd (.inr hk)]; exact G.fit.depth_le
      | some e =>
        have he := N.depthAt i.pc e hk
        rw [N.depthAt_pc] at he
        cases he
        exact G.depth_le i.pc d hk
    have A1 := t.frame.builder.adds_entering hlt
    have A : Leads [] t t' _ := .of_adds (by rwa [hf]) (by rw [hf])
      (by rw [hf]; exact t.frame.builder.states_entering b) N.blockAt N.depthAt
    refine ⟨_, G.note N A ?_ hdepth, A, ?_, ?_⟩
    · have F := (G.fit.withEdges (G.fit.toYoung.entering hlt hne fun h => h ▸ hs (h ▸ hb)) A1
        (t.frame.builder.bads_entering b)).withDepth hdepth
      rw [hf]; exact { F with }
    · rw [hf, enters, hb]; exact t.frame.builder.current_entering b
    · unfold falls Builder.intoEdges
      cases hc : t.frame.builder.current? with
      | none => exact .nil
      | some c =>
        simp only [hb]
        by_cases hcb : c = b
        · simp only [hcb]; exact .nil
        · have hnode := t.frame.builder.node_leaving .jmp [] b
          have hg : t'.frame.graph = (t.frame.builder.leaving .jmp [] b).graph := by
            rw [hf]; simp only [Frame.graph, Builder.entering, hc, hcb, if_false]
          rw [← hg, current_of_some hc] at hnode
          simp only [hcb]
          refine .cons ⟨hb, ?_⟩ .nil
          simp [Way.Is, hnode, and_self]

lemma visit_leads (h : visit ctx i t = .ok u t') (G : t.Good)
    (hs : t.blockAt i.pc = some startBlock → t.frame.builder.current? = some startBlock)
    (hm : ∀ pc ∈ i.marks, t.blockAt pc ≠ some startBlock) :
    ∃ out, t'.Good ∧ Leads (enters t.blockAt t.frame.builder.current? i).toList t t' out ∧
      t'.frame.builder.current? = leaves t.blockAt t.frame.builder.current? i ∧
      Forall₂ (Edge.Is t.blockAt t'.frame.graph) (falls t.blockAt t.frame.builder.current? i.pc ++
        (enters t.blockAt t.frame.builder.current? i).toList.flatMap i.exitsFrom) out := by
  obtain ⟨t1, har, hstep⟩ := visit_ok h G.own
  obtain ⟨out1, G1, A1, hc1, hx1⟩ := arrives_leads har G hs
  unfold leaves
  rw [← hc1]
  cases hc : t1.frame.builder.current? with
  | none =>
    rw [hc] at hstep
    obtain rfl : t' = t1 := hstep
    refine ⟨out1, G1, A1, ?_, by simpa using hx1⟩
    rw [hc]
    split <;> rfl
  | some b =>
    rw [hc] at hstep
    obtain ⟨out2, G2, A2, hc2, hx2⟩ := step_leads G1 hc hstep fun pc hp => by rw [A1.blockAt]; exact hm pc hp
    have hβ : t1.blockAt = t.blockAt := funext A1.blockAt
    rw [hβ] at hx2
    refine ⟨out1 ++ out2, G2, A1.trans A2, hc2, ?_⟩
    rw [Option.toList_some, flatMap_singleton]
    exact rel_append (Edge.Is.keep hx1 (fun p hp => (A1.fresh p hp).2) fun n hn _ => A2.keep n hn) hx2

/-! ## All of the code -/

/-- The first instruction begins the start block, if any does, and nothing leads there. -/
structure StartsFirst (β : Nat → Option BlockId) (c? : Option BlockId) (code : List Instruction) : Prop where
  first : ∀ i ∈ code.head?, β i.pc = some startBlock → c? = some startBlock
  rest : ∀ i ∈ code.tail, β i.pc ≠ some startBlock
  marks : ∀ i ∈ code, ∀ pc ∈ i.marks, β pc ≠ some startBlock

lemma StartsFirst.tail {c? c'? : Option BlockId} {rest : List Instruction}
    (h : StartsFirst β c? (i :: rest)) : StartsFirst β c'? rest where
  first j hj hat := absurd hat (h.rest j (mem_of_mem_head? hj))
  rest j hj := h.rest j (mem_of_mem_tail hj)
  marks j hj := h.marks j (.tail _ hj)

lemma visitAll_leads : ∀ {code : List Instruction} {t t' : BodyState} {u : Unit},
    visitAll ctx code t = .ok u t' → t.Good →
    StartsFirst t.blockAt t.frame.builder.current? code →
    ∃ out, t'.Good ∧ Leads ((places t.blockAt t.frame.builder.current? code).map Prod.snd) t t' out ∧
      t'.frame.builder.current? = final t.blockAt t.frame.builder.current? code ∧
      Forall₂ (Edge.Is t.blockAt t'.frame.graph) (edges t.blockAt t.frame.builder.current? code) out
  | [], t, t', u, h, G, _ => by
    cases h
    exact ⟨[], G, .of_adds (Quiet.refl _).adds rfl rfl (fun _ => rfl) fun _ _ h => h, rfl, .nil⟩
  | i :: rest, t, t', u, h, G, hs => by
    obtain ⟨v, t1, h1, h2⟩ := bind_ok.1 h
    obtain ⟨out1, G1, A1, hc1, hx1⟩ := visit_leads h1 G (hs.first i rfl) (hs.marks i (.head _))
    have hβ : t1.blockAt = t.blockAt := funext A1.blockAt
    obtain ⟨out2, G2, A2, hc2, hx2⟩ := visitAll_leads h2 G1 (by rw [hβ]; exact hs.tail)
    rw [hβ, hc1] at A2 hc2 hx2
    refine ⟨out1 ++ out2, G2, ?_, hc2, ?_⟩
    · refine (A1.trans A2).mono fun b hb => ?_; simpa [places] using hb
    · rw [edges, ← append_assoc]
      exact rel_append (Edge.Is.keep hx1 (fun p hp => (A1.fresh p hp).2) fun n hn _ => A2.keep n hn) hx2

end Body

end JvmGraph
