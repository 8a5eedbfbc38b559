import JvmGraph.Proofs.Body.Opening
import JvmGraph.Proofs.Ssa.Complete

/-!
# Bodies of methods as a whole

A body is translated in three stages: blocks are made and arguments stored, the code is gone through, and all
blocks are matured. The graph that comes out is well formed.
-/

namespace JvmGraph

open Steps JvmGraph.Frame BodyState List JvmGraph.Graph Bytecode Instruction Ssa

variable {world world' : World} {g : Graph} {n : Nat} {t : BodyState}

/-- The edge from the start block to the entry of the code, if the code branches back to it. -/
def BodyState.Opens (targeted : Bool) (t t' : BodyState) : Prop :=
  t'.blocks = t.blocks ∧
  if targeted then ∀ entry, t.blockAt 0 = some entry →
    t'.frame = { t.frame with builder := t.frame.builder.leaving .jmp [] entry }
  else t' = t

namespace Body

variable {u : Unit} {t' : BodyState}

def initOwner (ctx : MethodContext) (m : Method) : Body Unit := if m.isStatic then initClass ctx.owner else pure ()

def openEntry (targeted : Bool) : Body Unit := do
  if targeted then
    let edge ← onFrame (Frame.addNode .jmp .control [])
    match ← blockAt? 0 with
    | some entry => onFrame (Frame.build (Ssa.addPred entry.block edge))
    | none => pure ()

/-- What comes after the arguments are stored. -/
def finish (ctx : MethodContext) (code : List Instruction) (codeLength : Nat) : Body Unit := do
  visitAll ctx code
  if (← get).frame.builder.current?.isSome then throw (.unsupported codeLength .fallsOffTheEnd)
  matureAll ((← get).blocks.toList.filterMap fun b? => b?.map BasicBlock.block)
  matureAll [Graph.endBlock]

lemma whole_eq (ctx : MethodContext) (m : Method) (code : List Instruction) (n : Nat) (bs : List Nat) :
    whole ctx m code n bs = (do
      makeBlocks (branchesToEntry code) bs
      storeArgs 0 0 m.paramModes
      initOwner ctx m
      openEntry (branchesToEntry code)
      finish ctx code n) := by
  have entry : ∀ x : Body Unit, (openEntry (branchesToEntry code) >>= fun _ => x) =
      if branchesToEntry code then do
        let edge ← onFrame (Frame.addNode .jmp .control [])
        match ← blockAt? 0 with
        | some entry => do
          onFrame (Frame.build (addPred entry.block edge))
          x
        | none => x
      else x := by
    intro x
    unfold openEntry
    cases branchesToEntry code with
    | false => simp
    | true =>
      simp only [if_true, bind_assoc]
      congr
      funext edge
      congr
      funext b?
      cases b? <;> simp
  rw [entry]
  unfold whole finish initOwner
  cases m.isStatic with
  | false => rfl
  | true => rfl

lemma openEntry_ok {targeted : Bool} (h : openEntry targeted t = .ok u t') : t.Opens targeted t' := by
  cases targeted with
  | false =>
    cases h; exact ⟨rfl, rfl⟩
  | true =>
    obtain ⟨e, t1, h1, h⟩ := bind_ok.1 h
    cases h1
    obtain ⟨b?, t2, h2, h⟩ := bind_ok.1 h
    obtain ⟨hb, rfl⟩ := blockAt?_ok.1 h2
    have hat : t.blockAt 0 = b?.map BasicBlock.block := congrArg (Option.map BasicBlock.block) hb
    cases b? with
    | none =>
      cases h
      refine ⟨rfl, ?_⟩
      rw [hat]
      exact nofun
    | some b =>
      obtain ⟨f2, hf2, rfl⟩ := onFrame_ok.1 h
      obtain ⟨s2, hs2, rfl⟩ := build_ok.1 hf2
      cases hs2
      refine ⟨rfl, ?_⟩
      rw [hat]
      rintro entry ⟨⟩; rfl

lemma whole_ok {ctx : MethodContext} {m : Method} {code : List Instruction} {bs : List Nat}
    (h : whole ctx m code n bs t = .ok u t') :
    ∃ t1 t2 t3 t4 t5 t6, makeBlocks (branchesToEntry code) bs t = .ok () t1 ∧
      storeArgs 0 0 m.paramModes t1 = .ok () t2 ∧
      initOwner ctx m t2 = .ok () t3 ∧
      openEntry (branchesToEntry code) t3 = .ok () t4 ∧ visitAll ctx code t4 = .ok () t5 ∧
      t5.frame.builder.current? = none ∧
      matureAll (t5.blocks.toList.filterMap fun b? => b?.map BasicBlock.block) t5 = .ok () t6 ∧
      matureAll [Graph.endBlock] t6 = .ok () t' := by
  rw [whole_eq] at h
  obtain ⟨_, t1, h1, h⟩ := bind_ok.1 h
  obtain ⟨_, t2, h2, h⟩ := bind_ok.1 h
  obtain ⟨_, t3, h3, h⟩ := bind_ok.1 h
  obtain ⟨_, t4, h4, h⟩ := bind_ok.1 h
  obtain ⟨_, t5, h5, h⟩ := bind_ok.1 h
  replace h := get_bind_ok.1 h
  by_cases hc : t5.frame.builder.current?.isSome = true
  · rw [if_pos hc] at h
    obtain ⟨_, _, hthrow, -⟩ := bind_ok.1 h; cases hthrow
  · rw [if_neg hc] at h
    replace h := get_bind_ok.1 h
    obtain ⟨_, t6, h6, h7⟩ := bind_ok.1 h
    exact ⟨t1, t2, t3, t4, t5, t6, h1, h2, h3, h4, h5, by simpa using hc, h6, h7⟩

lemma matureAll_spec : ∀ {bs : List BlockId} {t t' : BodyState} {u : Unit} {T : Record}, matureAll bs t = .ok u t' →
    Inv True t.frame.builder T .idle → (∀ b ∈ bs, t.frame.graph.HasBlock b) →
    ∃ T', Inv True t'.frame.builder T' .idle ∧ Later t.frame.builder t'.frame.builder T T' ∧
      t'.blocks = t.blocks ∧ t'.world = t.world ∧
      ∀ c, t'.frame.builder.isMatured c = true ↔ t.frame.builder.isMatured c = true ∨ c ∈ bs
  | [], t, t', u, T, h, I, _ => by
    cases h; exact ⟨T, I, .refl _ _, rfl, rfl, by simp⟩
  | b :: bs, t, t', u, T, h, I, hb => by
    obtain ⟨v, t1, h1, h⟩ := bind_ok.1 h
    obtain ⟨f1, hf1, rfl⟩ := onFrame_ok.1 h1
    obtain ⟨s1, hs1, rfl⟩ := build_ok.1 hf1
    obtain ⟨T1, I1, L1, hm1⟩ := mature_spec hs1 I (hb b (.head _))
    have hsize : s1.graph.blocks.size = t.frame.graph.blocks.size := by rw [L1.graph]; rfl
    obtain ⟨T2, I2, L2, ht2, hw2, hm2⟩ := matureAll_spec h I1 fun c hc => by
      rw [HasBlock, show Frame.graph _ = s1.graph from rfl, hsize]; exact hb c (.tail _ hc)
    refine ⟨T2, I2, L1.trans L2, ht2, hw2, fun c => ?_⟩
    rw [hm2, hm1, mem_cons, or_assoc]

end Body

/-! ## What the stages establish -/

/-- The edge that leads into the entry if the code branches back to it. -/
def Flow.opening (targeted : Bool) : List Edge := if targeted then [⟨Graph.startBlock, .into, some 0⟩] else []

section Stages

variable {targeted : Bool} {t' : BodyState} {code : List Instruction}

lemma Tabled.opens (T : Tabled targeted t) (h : t.Opens targeted t') (hentry : targeted = true → (t.blockAt 0).isSome) :
    ∃ out, t'.Good ∧ Leads [] t t' out ∧ t'.frame.builder.current? = some startBlock ∧
      Forall₂ (Edge.Is t.blockAt t'.frame.graph) (Flow.opening targeted) out := by
  obtain ⟨htable, h⟩ := h
  cases targeted with
  | false =>
    obtain rfl : t' = t := h
    exact ⟨[], T.good, .of_adds (Quiet.refl _).adds rfl rfl (fun _ => rfl) fun _ _ h => h, T.current, .nil⟩
  | true =>
    obtain ⟨entry, he⟩ := Option.isSome_iff_exists.1 (hentry rfl)
    have hf : t'.frame = { t.frame with builder := t.frame.builder.leaving .jmp [] entry } := h entry he
    have hs : ∀ q, t'.starts q = t.starts q := fun q => by rw [starts, htable]; rfl
    have hlt := T.good.block_lt 0 entry he
    have hne : entry ≠ startBlock := fun h => by simpa using (T.start 0 (h ▸ he)).2
    have A1 := t.frame.builder.adds_leaving .jmp [] hlt
    have A : Leads [] t t' _ := .of_adds (by rwa [hf]) (by rw [hf]) (by rw [hf]; rfl)
      (blockAt_of_starts hs) fun q d h => by rwa [depthAt_of_starts hs]
    refine ⟨_, T.good.of_frame hs A ?_, A, by rw [hf]; exact T.current, .cons ⟨he, ?_⟩ .nil⟩
    · rw [hf]
      exact T.good.fit.withEdges (T.good.fit.toYoung.leaving (.inl rfl) (by simp) hlt hne) A1 rfl
    · have hnode := t.frame.builder.node_leaving .jmp [] entry
      have hg : t'.frame.graph = (t.frame.builder.leaving .jmp [] entry).graph := by rw [hf]; rfl
      rw [← hg, Body.current_of_some T.current] at hnode; simp [Way.Is, hnode, and_self]

/-- Nothing but the entry begins the start block, and nothing leads there. -/
lemma Tabled.marks_ne (T : Tabled (branchesToEntry code) t) (L : Layout n code)
    {i : Instruction} (hi : i ∈ code) {pc : Nat} (hpc : pc ∈ i.marks) : t.blockAt pc ≠ some startBlock := by
  intro h
  obtain ⟨rfl, hentry⟩ := T.start pc h
  have hlt := L.lt_next hi
  have htarget : i.op.target? ≠ some 0 := by
    rw [branchesToEntry, any_eq_false] at hentry; simpa using hentry i hi
  obtain ⟨p, op, next⟩ := i
  cases op with
  | branch kind binary way target =>
    simp only [marks, mem_cons, not_mem_nil, or_false] at hpc
    rcases hpc with rfl | rfl
    · exact htarget rfl
    · cases hlt
  | jump target =>
    simp only [marks, mem_singleton] at hpc
    subst hpc; exact htarget rfl
  | _ => cases hpc

lemma Tabled.startsFirst (T : Tabled (branchesToEntry code) t) (L : Layout n code) :
    Body.StartsFirst t.blockAt (some startBlock) code where
  first _ _ _ := rfl
  rest j hj h := by
    obtain ⟨hz, -⟩ := T.start j.pc h
    cases code with
    | nil => cases hj
    | cons i rest =>
      have hsplit : i :: rest = [] ++ i :: rest := rfl
      have := L.next_le hsplit hj
      have := L.lt_next (i := i) (.head _); omega
  marks _ hi _ hp := T.marks_ne L hi hp

end Stages

/-- The stages of a translation, and what holds in them: `t1` has its blocks, `t3` its arguments as well, `t4` is
about to go through the code, and `t5` has gone through it. -/
structure Stages (ctx : MethodContext) (m : Method) (code : List Instruction) (t1 t2 t3 t4 t5 t' : BodyState)
    (out : List (BlockId × NodeId)) : Prop where
  args : Body.storeArgs 0 0 m.paramModes t1 = .ok () t2
  init : Body.initOwner ctx m t2 = .ok () t3
  opened : Body.openEntry (Bytecode.branchesToEntry code) t3 = .ok () t4
  visits : Body.visitAll ctx code t4 = .ok () t5
  made : Tabled (Bytecode.branchesToEntry code) t1
  tabled : Tabled (Bytecode.branchesToEntry code) t3
  entry : Bytecode.branchesToEntry code = false → ∀ b, t3.blockAt 0 = some b → b = Graph.startBlock
  before : Leads [Graph.startBlock] t1 t3 []
  entered : t4.Good
  entering : t4.frame.builder.current? = some Graph.startBlock
  good : t5.Good
  leads : Leads ((Flow.places t3.blockAt (some Graph.startBlock) code).map Prod.snd) t3 t5 out
  edges : List.Forall₂ (Edge.Is t3.blockAt t5.frame.graph)
    (Flow.opening (Bytecode.branchesToEntry code) ++ Flow.edges t3.blockAt (some Graph.startBlock) code) out
  ended : t5.frame.builder.current? = none
  final : Flow.final t3.blockAt (some Graph.startBlock) code = none
  blocks : t'.blocks = t5.blocks
  world : t'.world = t5.world
  later : ∃ T T', Ssa.Inv True t5.frame.builder T .idle ∧ Ssa.Inv True t'.frame.builder T' .idle ∧
    Ssa.Later t5.frame.builder t'.frame.builder T T'
  matured : ∀ b : BlockId, b.index < t'.frame.graph.blocks.size → t'.frame.builder.isMatured b = true

namespace Body

variable {b : BlockId}

lemma mem_table (h : b ∈ t.blocks.toList.filterMap fun b? => b?.map BasicBlock.block) : ∃ p, t.blockAt p = some b := by
  obtain ⟨b?, hmem, hb⟩ := mem_filterMap.1 h
  obtain ⟨p, hp, rfl⟩ := getElem_of_mem hmem
  refine ⟨p, ?_⟩
  rw [blockAt, starts, Array.getD_eq_getD_getElem?]
  rwa [Array.getElem?_eq_getElem hp]

lemma table_mem {p : Nat} (h : t.blockAt p = some b) :
    b ∈ t.blocks.toList.filterMap fun b? => b?.map BasicBlock.block := by
  rw [blockAt, starts, Array.getD_eq_getD_getElem?] at h
  cases hp : t.blocks[p]? with
  | none => simp [hp] at h
  | some b? =>
    rw [hp] at h
    refine mem_filterMap.2 ⟨b?, ?_, h⟩
    rw [← Array.getElem?_toList] at hp; exact mem_of_getElem? hp

variable {ctx : MethodContext} {m : Method} {code : List Instruction} {bs : List Nat} {u : Unit} {t' : BodyState}

lemma isValue_paramModes (m : Method) : ∀ mode ∈ m.paramModes, mode.isValue = true := by
  intro mode h
  rcases mem_append.1 h with h | h
  · split at h
    · cases h
    · rw [mem_singleton.1 h]; rfl
  · obtain ⟨type, -, rfl⟩ := mem_map.1 h; exact type.isValue_mode

lemma initOwner_keeps {jumps : Bool} {C : NodeContract BodyState} (R : BodyRules jumps ctx C) :
    C.Runs [] (initOwner ctx m) :=
  .ite R.initClass (.pure (by simp))

/-- What holds when the code is about to be gone through: `t1` has its blocks, `t3` its arguments as well, and in `t4`
the entry has been opened. -/
structure Opening (code : List Instruction) (n : Nat) (bs : List Nat) (t t1 t3 t4 : BodyState)
    (out : List (BlockId × NodeId)) : Prop where
  made : Tabled (Bytecode.branchesToEntry code) t1
  tabled : Tabled (Bytecode.branchesToEntry code) t3
  before : Leads [Graph.startBlock] t1 t3 []
  maxStack : t1.frame.maxStack = t.frame.maxStack
  maxLocals : t1.frame.maxLocals = t.frame.maxLocals
  blocks : ∀ p, (t1.blockAt p).isSome ↔ p ∈ bs ∧ p < n
  entry : Bytecode.branchesToEntry code = false → ∀ b, t3.blockAt 0 = some b → b = Graph.startBlock
  good : t4.Good
  leads : Leads [] t3 t4 out
  current : t4.frame.builder.current? = some Graph.startBlock
  edges : List.Forall₂ (Edge.Is t3.blockAt t4.frame.graph) (Flow.opening (Bytecode.branchesToEntry code)) out

lemma opening_of_ok {t1 t2 t3 t4 : BodyState} (h1 : makeBlocks (branchesToEntry code) bs t = .ok () t1)
    (h2 : storeArgs 0 0 m.paramModes t1 = .ok () t2) (h3 : initOwner ctx m t2 = .ok () t3)
    (hopen : openEntry (branchesToEntry code) t3 = .ok () t4) (T : Tabled (branchesToEntry code) t)
    (hnone : ∀ p, t.blockAt p = none) (hsize : t.blocks.size = n) (L : Layout n code) (B : Boundaries n code bs) :
    ∃ out, Opening code n bs t t1 t3 t4 out := by
  -- an address that is targeted is that of an instruction
  have hlt : ∀ p ∈ bs, p < t.blocks.size ∨ branchesToEntry code = false ∧ p = 0 := by
    intro p hp
    rw [hsize]
    rcases B.pc p hp with rfl | hp
    · cases hcode : code with
      | nil => exact .inr ⟨rfl, rfl⟩
      | cons i rest =>
        have hi : i ∈ code := by rw [hcode]; exact mem_cons_self
        have := L.pc_lt hi; omega
    · exact .inl (L.ascending.lt p hp)
  obtain ⟨T1, hsize1, hms, hml, hsome⟩ := makeBlocks_tabled h1 T (B.sorted.imp ne_of_lt) (fun p _ => hnone p) hlt
  obtain ⟨T2, A2, htable2⟩ := T1.calm (lasting_true.storeArgs (isValue_paramModes m)) h2
  obtain ⟨T3, A3, htable3⟩ := T2.calm (initOwner_keeps (calm_rules ctx)) h3
  have hat3 : ∀ p, t3.blockAt p = t1.blockAt p := fun p => (A3.blockAt p).trans (A2.blockAt p)
  have hsome1 : ∀ p, (t1.blockAt p).isSome ↔ p ∈ bs ∧ p < n := by simp [hsome, hnone, hsize]
  have hentry : branchesToEntry code = true → (t3.blockAt 0).isSome := by
    intro ht
    rw [hat3, hsome1]
    refine ⟨B.zero, ?_⟩
    obtain ⟨i, hi, -⟩ := any_eq_true.1 ht
    have := L.pc_lt hi; omega
  have hstart : branchesToEntry code = false → ∀ b, t3.blockAt 0 = some b → b = startBlock := by
    intro ht b hb
    obtain ⟨rest, rfl⟩ := B.cons
    have hpos : 0 < t.blocks.size := by rw [hsize]; exact ((hsome1 0).1 (by simp [← hat3, hb])).2
    rw [hat3, makeBlocks_entry (ht ▸ h1) (fun h0 => lt_irrefl _ ((pairwise_cons.1 B.sorted).1 0 h0)) hpos] at hb
    exact (Option.some.inj hb).symm
  obtain ⟨out0, G4, A4, hc4, hx4⟩ := T3.opens (openEntry_ok hopen) hentry
  exact ⟨out0, T1, T3, (A2.trans A3).mono (by simp), hms, hml, hsome1, hstart, G4, A4, hc4, hx4⟩

lemma whole_stages (h : whole ctx m code n bs t = .ok u t') (T : Tabled (branchesToEntry code) t)
    (hnone : ∀ p, t.blockAt p = none) (hsize : t.blocks.size = n) (L : Layout n code) (B : Boundaries n code bs) :
    ∃ t1 t2 t3 t4 t5 out, Stages ctx m code t1 t2 t3 t4 t5 t' out ∧
      makeBlocks (branchesToEntry code) bs t = .ok () t1 ∧ t1.frame.maxStack = t.frame.maxStack ∧
      t1.frame.maxLocals = t.frame.maxLocals ∧ ∀ p, (t1.blockAt p).isSome ↔ p ∈ bs ∧ p < n := by
  obtain ⟨t1, t2, t3, t4, t5, t6, h1, h2, h3, hopen, h5, hend, h6, h7⟩ := whole_ok h
  obtain ⟨out0, T1, T3, A13, hms, hml, hsome1, hstart, G4, A4, hc4, hx4⟩ :=
    opening_of_ok h1 h2 h3 hopen T hnone hsize L B
  have hat4 : t4.blockAt = t3.blockAt := funext A4.blockAt
  obtain ⟨out, G5, A5, hc5, hx5⟩ := visitAll_leads h5 G4 (by rw [hat4, hc4]; exact T3.startsFirst L)
  rw [hat4, hc4] at A5 hc5 hx5
  have A45 := A4.trans A5
  obtain ⟨T5, I5⟩ := G5.fit.toYoung.inv
  obtain ⟨T6, I6, L6, htable6, hw6, hm6⟩ := matureAll_spec h6 I5 fun b hb => by
    obtain ⟨p, hp⟩ := mem_table hb; exact G5.block_lt p b hp
  have hblocks6 : t6.frame.graph.blocks.size = t5.frame.graph.blocks.size := by
    rw [show t6.frame.graph = _ from L6.graph]; rfl
  obtain ⟨T7, I7, L7, htable7, hw7, hm7⟩ := matureAll_spec h7 I6 fun b hb => by
    rw [mem_singleton.1 hb]; exact I6.shape.blocks_pos
  have hblocks7 : t'.frame.graph.blocks.size = t6.frame.graph.blocks.size := by
    rw [show t'.frame.graph = _ from L7.graph]; rfl
  refine ⟨t1, t2, t3, t4, t5, out0 ++ out, ⟨h2, h3, hopen, h5, T1, T3, hstart, A13, G4, hc4, G5, A45,
    rel_append (Edge.Is.keep hx4 (fun p hp => (A4.fresh p hp).2) fun n hn _ => A5.keep n hn) hx5, hend, hc5 ▸ hend,
    htable7.trans htable6, hw7.trans hw6, ⟨T5, T7, I5, I7, L6.trans L7⟩, fun b hb => ?_⟩, h1, hms, hml, hsome1⟩
  rw [hm7, hm6]
  rw [hblocks7, hblocks6, show t5.frame.graph.blocks.size = t3.frame.graph.blocks.size from A45.blocks_size] at hb
  rcases T3.cover b hb with rfl | rfl | ⟨p, hp⟩
  · exact .inl (.inl I5.shape.start_matured)
  · exact .inr (by simp)
  · exact .inl (.inr (table_mem ((A45.blockAt p).trans hp)))

end Body

namespace Stages

variable {ctx : MethodContext} {m : Method} {code : List Instruction} {t1 t2 t3 t4 t5 t' : BodyState}
  {out : List (BlockId × NodeId)} (S : Stages ctx m code t1 t2 t3 t4 t5 t' out)

include S

lemma keep (n : NodeId) (hn : t5.frame.graph.Has n)
    (ho : (t5.frame.graph.node n).op ≠ .phi) : t'.frame.graph.node n = t5.frame.graph.node n := by
  obtain ⟨T, T', -, -, hl⟩ := S.later
  exact hl.grows.keep n hn (.inl ho)

lemma block (b : BlockId) : t'.frame.graph.block b = t5.frame.graph.block b := by
  obtain ⟨T, T', -, -, hl⟩ := S.later
  rw [show t'.frame.graph = _ from hl.graph]
  rfl

lemma unpruned : t'.frame.graph.Unpruned := by
  obtain ⟨T, T', -, I, -⟩ := S.later
  refine I.unpruned S.matured fun b => ?_
  rw [show t'.frame.builder.graph = t'.frame.graph from rfl, S.block]
  exact S.good.fit.toYoung.undead b

lemma control (b : BlockId) (e : NodeId) (he : e ∈ (t'.frame.graph.block b).preds) : t'.frame.graph.IsControl e := by
  obtain ⟨T, T', I, -, -⟩ := S.later
  rw [S.block] at he
  exact (S.good.fit.toYoung.control b e he).keep (I.shape.pred_ok b e he).1 S.keep

end Stages

/-! ## Methods -/

lemma runBody_ok {frame : Frame} {x : Body Unit} (h : runBody frame n x world = .ok g world') :
    ∃ t', x ⟨world, frame, Array.replicate n none, []⟩ = .ok () t' ∧ g = t'.frame.graph.tidy ∧ world' = t'.world := by
  unfold runBody at h
  split at h
  · rename_i u t' hx
    cases h
    exact ⟨t', hx, rfl, rfl⟩
  · cases h

lemma methodGraph_stages {source : ClassSource} {c : ClassId} {file : ClassFile} {member : Member} {e : EntityId}
    (h : methodGraph source c file member e world = .ok g world') :
    ∃ m body ops bs, (world.program.entityAt e).method? = some m ∧ member.code? = some body ∧
      decode body.bytes = .ok ops ∧
      boundaries body.bytes.length (ofDecoded body.bytes.length ops) = .ok bs ∧
      ∃ t1 t2 t3 t4 t5 t' out, Stages ⟨source, c, file, m.resultMode?⟩ m (ofDecoded body.bytes.length ops)
        t1 t2 t3 t4 t5 t' out ∧
        Body.makeBlocks (branchesToEntry (ofDecoded body.bytes.length ops)) bs
          ⟨world, .new (world.program.entityAt e).symbol body.maxStack body.maxLocals,
            Array.replicate body.bytes.length none, []⟩ = .ok () t1 ∧
        t1.frame.maxStack = body.maxStack ∧ t1.frame.maxLocals = body.maxLocals ∧
        (∀ p, (t1.blockAt p).isSome ↔ p ∈ bs ∧ p < body.bytes.length) ∧ g = t'.frame.graph.tidy ∧
          world' = t'.world := by
  replace h := get_bind_ok.1 h
  cases hm : (world.program.entityAt e).method? with
  | none => simp only [hm] at h; cases h
  | some m =>
    cases hb : member.code? with
    | none => simp only [hm, hb] at h; cases h
    | some body =>
      simp only [hm, hb] at h
      obtain ⟨ops, w1, h1, h⟩ := bind_ok.1 h
      obtain ⟨hops, rfl⟩ := pureStep_ok.1 h1
      obtain ⟨bs, w2, h2, h⟩ := bind_ok.1 h
      obtain ⟨hbs, rfl⟩ := pureStep_ok.1 h2
      obtain ⟨t', hw, rfl, rfl⟩ := runBody_ok h
      have L := layout_ofDecoded (decode_ascending hops)
      have hnone : ∀ p, blockAt ⟨world, .new (world.program.entityAt e).symbol body.maxStack body.maxLocals,
          Array.replicate body.bytes.length none, []⟩ p = none := by
        intro p
        simp only [blockAt, starts, Arrays.getD_replicate, Option.map_none]
      obtain ⟨t1, t2, t3, t4, t5, out, S, hmake, hms, hml, hsome⟩ := Body.whole_stages hw
        (Tabled.new _ world _ body.maxStack body.maxLocals body.bytes.length) hnone (by simp) L
        (boundaries_spec hbs L)
      exact ⟨m, body, ops, bs, rfl, rfl, hops, hbs, t1, t2, t3, t4, t5, t', out, S, hmake, hms, hml, hsome, rfl, rfl⟩

/-- The graph of every method that is translated is well formed. -/
theorem methodGraph_wellFormed (source : ClassSource) (c : ClassId) (file : ClassFile) (member : Member) (e : EntityId)
    (world world' : World) (g : Graph) (h : methodGraph source c file member e world = .ok g world') :
    g.WellFormed := by
  obtain ⟨m, body, ops, bs, -, -, -, -, t1, t2, t3, t4, t5, t', out, S, -, -, -, -, rfl, -⟩ := methodGraph_stages h
  exact S.unpruned.wellFormed S.control

/-! ## Methods on their own -/

def staticMethod (params : List Kind) (result? : Option Kind) : Method :=
  { descriptor := "", type := ⟨params.map .base, result?.map .base⟩, flags := ⟨8⟩, overwrites := [], binding := .static,
    excluded := true, isAbstract := false, isFinal := false }

def translateAlone (m : Method) (maxStack maxLocals : UInt16) (bytes : Text.Bytes) : EStateM.Result Error World Graph :=
  methodGraph (.ofList []) ⟨0⟩ ⟨0, 0, ⟨#[]⟩, ⟨0⟩, 0, 0, [], [], [], []⟩
    ⟨⟨8⟩, 0, 0, [.code maxStack maxLocals bytes [] []]⟩ ⟨0⟩
    { image := { program := { entities := #[⟨"m", "m", none, .method m, .exported, none⟩] } } }

/-- Counts an argument down to zero. Code that is never reached leads to the return. -/
def countdown : Text.Bytes :=
  [0x1a, 0x99, 0, 9, 0x84, 0, 0xff, 0xa7, 0xff, 0xf9, 0x1a, 0xac, 0xa7, 0xff, 0xfe, 0xa7, 0xff, 0xfd]

/-- A loop back to the entry, and a block that is dropped. -/
theorem methodGraph_wellFormed_countdown : ∃ g world', translateAlone (staticMethod [.int] (some .int)) 2 1 countdown =
    .ok g world' ∧
    g.blocks.toList.map Block.dead = [false, false, false, false, false, true] ∧ g.WellFormed := by
  have run : (match translateAlone (staticMethod [.int] (some .int)) 2 1 countdown with
    | .ok g _ => g.blocks.toList.map Block.dead == [false, false, false, false, false, true]
    | .error _ _ => false) = true := by decide +kernel
  cases h : translateAlone (staticMethod [.int] (some .int)) 2 1 countdown with
  | error e world' =>
    rw [h] at run
    cases run
  | ok g world' =>
    rw [h] at run
    exact ⟨g, world', rfl, eq_of_beq run, methodGraph_wellFormed _ _ _ _ _ _ _ _ h⟩

end JvmGraph
