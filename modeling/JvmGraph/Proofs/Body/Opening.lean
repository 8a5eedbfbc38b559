import JvmGraph.Proofs.Body.Visit

/-!
# The blocks of a method

Before the first instruction every boundary of the code gets a block. The first boundary gets the start
block, unless the code branches back to it. No block has predecessors yet, and nothing is defined but in
the start block.
-/

namespace JvmGraph

open Steps JvmGraph.Frame BodyState JvmGraph.Graph Ssa

namespace Ssa

def Builder.named (s : Builder) (b : BlockId) (pc : Nat) : Builder :=
  { s with graph := s.graph.setBlock b { s.graph.block b with pc? := some pc } }

section Named

variable {s : Builder} {b : BlockId} {pc : Nat}

section

variable (s : Builder) (b : BlockId) (pc : Nat)

lemma Builder.block_named (c : BlockId) : (s.named b pc).graph.block c =
    if c = b ∧ s.graph.HasBlock b then { s.graph.block c with pc? := some pc } else s.graph.block c := by
  rw [named, block_setBlock]
  split
  · rename_i h; rw [h.1]
  · rfl

lemma Builder.preds_named (c : BlockId) : (s.named b pc).preds c = s.preds c := by
  rw [preds, block_named]
  split <;> rfl

lemma Builder.size_named : (s.named b pc).graph.blocks.size = s.graph.blocks.size := by
  simp [named]

end

lemma Young.named (Y : Young s) (b : BlockId) (pc : Nat) : Young (s.named b pc) := by
  obtain ⟨T, I⟩ := Y.inv
  refine ⟨⟨T, I.reframe rfl (s.preds_named b pc) (s.size_named b pc) rfl rfl⟩, Y.matured, Y.no_forward, ?_,
    Y.current_ne,
    fun c e he => ?_, fun c => ?_⟩
  · rw [s.size_named]; exact Y.current_lt
  · rw [s.preds_named] at he; exact Y.control c e he
  · rw [s.block_named]
    split
    · exact Y.undead c
    · exact Y.undead c

lemma Builder.block_extended (s : Builder) (c : BlockId) : s.extended.graph.block c = s.graph.block c :=
  block_newBlock s.graph c

lemma Builder.size_extended (s : Builder) : s.extended.graph.blocks.size = s.graph.blocks.size + 1 := by
  simp [extended, Graph.newBlock]

lemma Young.extended (Y : Young s) : Young s.extended := by
  obtain ⟨T, I⟩ := Y.inv
  refine ⟨⟨T, I.extended⟩, fun c h => Y.matured c (by rwa [← s.isMatured_extended]), Y.no_forward, ?_, Y.current_ne,
    fun c e he => ?_, fun c => ?_⟩
  · rw [s.size_extended]; exact Nat.lt_succ_of_lt Y.current_lt
  · rw [s.preds_extended] at he; exact Y.control c e he
  · rw [s.block_extended]; exact Y.undead c

end Named

lemma Young.new (name : String) (varCount : Nat) : Young (.new name varCount) := by
  refine ⟨⟨_, Inv.new True name varCount⟩, fun b h => ?_, fun n => (Builder.op_new name varCount n).2.1, ?_, ?_,
    fun b e he => ?_, fun b => ?_⟩
  · obtain ⟨_ | _ | b⟩ := b
    · rfl
    · cases h
    · cases h
  · show 0 < 2; decide
  · show startBlock ≠ endBlock; decide
  · simp [Builder.preds_new] at he
  · obtain ⟨_ | _ | b⟩ := b <;> simp [Builder.new, initialMemory, proj, add, empty, block]

end Ssa

lemma Frame.Fit.regraph {f : Frame} {s' : Builder} (F : Fit f) (Y : Young s') (hn : s'.graph.nodes = f.graph.nodes)
    (hv : s'.varCount = f.builder.varCount) (hb : s'.graph.bads = f.graph.bads) : Fit { f with builder := s' } where
  toYoung := Y
  varCount := hv.trans F.varCount
  depth_le := F.depth_le
  start := (node_congr hn _).trans F.start
  bads mode n h := by
    obtain ⟨h1, h2⟩ := F.bads mode n (hb ▸ h)
    exact ⟨by rwa [show graph _ = s'.graph from rfl, hn], (node_congr hn n).trans h2⟩

lemma Frame.Fit.new (name : String) (maxStack maxLocals : UInt16) : Fit (.new name maxStack maxLocals) where
  toYoung := Young.new name _
  varCount := rfl
  depth_le := Nat.zero_le _
  start := by rfl
  bads mode n h := by cases h

structure Tabled (targeted : Bool) (t : BodyState) : Prop where
  good : t.Good
  current : t.frame.builder.current? = some Graph.startBlock
  injective : ∀ p q b, t.blockAt p = some b → t.blockAt q = some b → p = q
  start : ∀ p, t.blockAt p = some Graph.startBlock → p = 0 ∧ targeted = false
  cover : ∀ b, b.index < t.frame.graph.blocks.size → b = Graph.startBlock ∨ b = Graph.endBlock ∨ ∃ p,
    t.blockAt p = some b
  pc : ∀ p b, t.blockAt p = some b → (t.frame.graph.block b).pc? = some p
  blockAt_pc : ∀ p b, (t.frame.graph.block b).pc? = some p → t.blockAt p = some b ∨ t.blocks.size = 0
  depthAt : ∀ p b, t.blockAt p = some b → t.depthAt p = if p = 0 then some 0 else none
  preds : ∀ b, t.frame.builder.preds b = []
  exits : ∀ n, n.index < t.frame.graph.nodes.size → ¬ (t.frame.graph.node n).IsExit

def BodyState.withBlock (t : BodyState) (pc : Nat) (s : Ssa.Builder) (b : BlockId) : BodyState :=
  { t with
    frame := { t.frame with builder := s.named b pc }
    blocks := t.blocks.setIfInBounds pc (some { pc, block := b, depth? := if pc = 0 then some 0 else none }) }

section WithBlock

variable {targeted : Bool} {t t' : BodyState} {pc : Nat} {s : Builder} {b : BlockId} {rest : List Nat} {u : Unit}

lemma BodyState.starts_withBlock (t : BodyState) (pc : Nat) (s : Builder) (b : BlockId) (q : Nat) :
    (t.withBlock pc s b).starts q = if q = pc ∧ pc < t.blocks.size
      then some { pc, block := b, depth? := if pc = 0 then some 0 else none } else t.starts q := by
  rw [starts, withBlock, Arrays.getD_setIfInBounds]
  rfl

lemma BodyState.blockAt_withBlock (t : BodyState) (pc : Nat) (s : Builder) (b : BlockId) (q : Nat) :
    (t.withBlock pc s b).blockAt q = if q = pc ∧ pc < t.blocks.size then some b else t.blockAt q := by
  rw [blockAt, starts_withBlock]
  split <;> rfl

/-- What is asked of the new block: nothing is known of it, and the graph is otherwise the same. -/
structure Fresh (t : BodyState) (s : Ssa.Builder) (b : BlockId) : Prop where
  young : Ssa.Young s
  nodes : s.graph.nodes = t.frame.graph.nodes
  bads : s.graph.bads = t.frame.graph.bads
  varCount : s.varCount = t.frame.builder.varCount
  current : s.current? = t.frame.builder.current?
  block : ∀ c, s.graph.block c = t.frame.graph.block c
  size_le : t.frame.graph.blocks.size ≤ s.graph.blocks.size
  size : ∀ c : BlockId, c.index < s.graph.blocks.size → c.index < t.frame.graph.blocks.size ∨ c = b
  lt : b.index < s.graph.blocks.size
  ne_end : b ≠ Graph.endBlock
  absent : ∀ q, t.blockAt q ≠ some b

lemma Tabled.withBlock (T : Tabled targeted t) (W : Fresh t s b) (hs : b = startBlock → pc = 0 ∧ targeted = false)
    (hnew : t.blockAt pc = none) (hpc : pc < t.blocks.size ∨ b = startBlock ∧ t.blocks.size = 0) :
    Tabled targeted (t.withBlock pc s b) := by
  have hat := t.blockAt_withBlock pc s b
  have old : ∀ {q c}, (t.withBlock pc s b).blockAt q = some c → q = pc ∧ c = b ∨ t.blockAt q = some c ∧ c ≠ b := by
    intro q c h
    rw [hat] at h
    split at h
    · rename_i hq; exact .inl ⟨hq.1, (Option.some.inj h).symm⟩
    · exact .inr ⟨h, fun hc => W.absent q (hc ▸ h)⟩
  have keep : ∀ {q c}, t.blockAt q = some c → (t.withBlock pc s b).blockAt q = some c := by
    intro q c h
    rw [hat, if_neg]
    · exact h
    · rintro ⟨rfl, -⟩; simp [hnew] at h
  have hdepth : ∀ q c, (t.withBlock pc s b).blockAt q = some c →
      (t.withBlock pc s b).depthAt q = if q = 0 then some 0 else none := by
    intro q c h
    rw [BodyState.depthAt, starts_withBlock]
    split
    · rename_i hq; simp [hq.1]
    · rename_i hq; rw [hat, if_neg hq] at h; exact T.depthAt q c h
  have hblock :
    ∀ c, ((t.withBlock pc s b).frame.graph.block c).pc? = if c = b then some pc else (t.frame.graph.block c).pc? := by
    intro c
    rw [← W.block c]
    refine (congrArg Block.pc? (s.block_named b pc c)).trans ?_
    by_cases hc : c = b
    · simp [hc, W.lt]
    · simp [hc]
  refine ⟨⟨?_, ?_, ?_, ?_, ?_⟩, W.current.trans T.current, ?_, ?_, ?_, ?_, ?_, ?_, ?_, ?_⟩
  · exact T.good.fit.regraph (W.young.named b pc) W.nodes W.varCount W.bads
  · intro q c h
    rw [starts_withBlock] at h
    split at h
    · rename_i hq
      cases h
      exact hq.1.symm
    · exact T.good.own q c h
  · intro q c h
    show c.index < (s.named b pc).graph.blocks.size
    rw [s.size_named]
    rcases old h with ⟨-, rfl⟩ | ⟨h, -⟩
    · exact W.lt
    · exact lt_of_lt_of_le (T.good.block_lt q c h) W.size_le
  · intro q c h
    rcases old h with ⟨-, rfl⟩ | ⟨h, -⟩
    · exact W.ne_end
    · exact T.good.block_ne q c h
  · intro q d h
    have hsome : ∃ c, (t.withBlock pc s b).blockAt q = some c := by
      unfold BodyState.depthAt at h
      unfold BodyState.blockAt
      cases hb : (t.withBlock pc s b).starts q with
      | none => simp [hb] at h
      | some c => exact ⟨_, rfl⟩
    obtain ⟨c, hc⟩ := hsome
    rw [hdepth q c hc] at h
    split at h
    · cases h
      omega
    · cases h
  · intro p q c hp hq
    rcases old hp with ⟨rfl, rfl⟩ | ⟨hp, hc⟩ <;> rcases old hq with ⟨rfl, h⟩ | ⟨hq, h⟩
    · rfl
    · exact absurd rfl h
    · exact absurd h hc
    · exact T.injective p q c hp hq
  · intro p h
    rcases old h with ⟨rfl, hb⟩ | ⟨h, -⟩
    · exact hs hb.symm
    · exact T.start p h
  · intro c hc
    have hc' : s.graph.HasBlock c := by rwa [HasBlock, ← s.size_named b pc]
    rcases W.size c hc' with hc' | rfl
    · exact (T.cover c hc').imp_right (Or.imp_right (Exists.imp fun _ hp => keep hp))
    · rcases hpc with hpc | ⟨hpc, -⟩
      · exact .inr (.inr ⟨pc, by rw [hat, if_pos ⟨rfl, hpc⟩]⟩)
      · exact .inl hpc
  · intro p c h
    rw [hblock]
    rcases old h with ⟨rfl, rfl⟩ | ⟨h, hc⟩
    · rw [if_pos rfl]
    · rw [if_neg hc]; exact T.pc p c h
  · intro p c h
    have hsize : (t.withBlock pc s b).blocks.size = t.blocks.size := by simp [BodyState.withBlock]
    rw [hblock] at h
    rw [hsize]
    split at h
    · rename_i hc
      cases h
      rcases hpc with hpc | ⟨-, hpc⟩
      · exact .inl (by rw [hat, if_pos ⟨rfl, hpc⟩, hc])
      · exact .inr hpc
    · exact (T.blockAt_pc p c h).imp_left keep
  · exact hdepth
  · intro c
    exact (s.preds_named b pc c).trans ((congrArg Block.preds (W.block c)).trans (T.preds c))
  · intro n hn
    have e : (t.withBlock pc s b).frame.graph.nodes = t.frame.graph.nodes := W.nodes
    rw [e] at hn
    rw [node_congr e]; exact T.exits n hn

lemma Tabled.fresh_start (T : Tabled targeted t) (hs : t.blockAt 0 = none) : Fresh t t.frame.builder startBlock where
  young := T.good.fit.toYoung
  nodes := rfl
  bads := rfl
  varCount := rfl
  current := rfl
  block _ := rfl
  size_le := le_refl _
  size _ h := .inl h
  lt := by
    have := T.good.fit.toYoung.current_lt; rwa [Builder.current, T.current] at this
  ne_end := by decide
  absent q hq := by
    obtain ⟨rfl, -⟩ := T.start q hq; simp [hs] at hq

lemma Tabled.fresh_new (T : Tabled targeted t) : Fresh t t.frame.builder.extended ⟨t.frame.graph.blocks.size⟩ where
  young := T.good.fit.toYoung.extended
  nodes := rfl
  bads := rfl
  varCount := rfl
  current := rfl
  block := t.frame.builder.block_extended
  size_le := by rw [t.frame.builder.size_extended]; exact Nat.le_succ _
  size c h := by
    rw [t.frame.builder.size_extended] at h
    rcases Nat.lt_succ_iff_lt_or_eq.1 h with h | h
    · exact .inl h
    · exact .inr (congrArg BlockId.mk h)
  lt := by rw [t.frame.builder.size_extended]; exact Nat.lt_succ_self _
  ne_end := by
    obtain ⟨T, I⟩ := T.good.fit.toYoung.inv
    intro h
    have hpos := I.shape.blocks_pos
    have := congrArg BlockId.index h
    simp only [endBlock] at this
    have e : t.frame.graph.blocks.size = t.frame.builder.graph.blocks.size := rfl; omega
  absent q hq := lt_irrefl _ (T.good.block_lt q _ hq)

lemma makeBlocks_cons (h : Body.makeBlocks targeted (pc :: rest) t = .ok u t') :
    Body.makeBlocks targeted rest (if pc = 0 ∧ ¬ targeted then t.withBlock pc t.frame.builder startBlock
      else t.withBlock pc t.frame.builder.extended ⟨t.frame.graph.blocks.size⟩) = .ok u t' := by
  unfold Body.makeBlocks at h
  have named : ∀ {t1 : BodyState} {b : BlockId}, (do
      Body.onFrame (build (modifyGraph fun g => g.setBlock b { g.block b with pc? := some pc }))
      let depth? := if pc = 0 then some 0 else none
      Body.setBlock { pc, block := b, depth? }
      Body.makeBlocks targeted rest : Body Unit) t1 = .ok u t' →
      Body.makeBlocks targeted rest (t1.withBlock pc t1.frame.builder b) = .ok u t' := by
    intro t1 b h
    obtain ⟨v, t2, h2, h⟩ := bind_ok.1 h
    cases h2
    obtain ⟨w, t3, h3, h⟩ := bind_ok.1 h
    cases h3; exact h
  by_cases hpc : pc = 0 ∧ ¬ targeted
  · rw [if_pos hpc] at h ⊢; exact named h
  · rw [if_neg hpc] at h ⊢
    obtain ⟨b, t1, h1, h⟩ := bind_ok.1 h
    cases h1; exact named h

lemma makeBlocks_tabled : ∀ {pcs : List Nat} {t t' : BodyState} {u : Unit}, Body.makeBlocks targeted pcs t = .ok u t' →
    Tabled targeted t → pcs.Nodup → (∀ p ∈ pcs, t.blockAt p = none) →
    (∀ p ∈ pcs, p < t.blocks.size ∨ targeted = false ∧ p = 0) →
    Tabled targeted t' ∧ t'.blocks.size = t.blocks.size ∧ t'.frame.maxStack = t.frame.maxStack ∧
      t'.frame.maxLocals = t.frame.maxLocals ∧
      ∀ p, (t'.blockAt p).isSome ↔ (t.blockAt p).isSome ∨ p ∈ pcs ∧ p < t.blocks.size
  | [], t, t', u, h, T, _, _, _ => by
    cases h; exact ⟨T, rfl, rfl, rfl, fun p => by simp⟩
  | pc :: rest, t, t', u, h, T, hnd, hnew, hlt => by
    have h := makeBlocks_cons h
    rw [List.nodup_cons] at hnd
    have hpc := hnew pc (.head _)
    obtain ⟨s, b, T1, e⟩ : ∃ s b, Tabled targeted (t.withBlock pc s b) ∧
        Body.makeBlocks targeted rest (t.withBlock pc s b) = .ok u t' := by
      split at h
      · rename_i h0
        obtain ⟨rfl, ht⟩ := h0
        have ht : targeted = false := by simpa using ht
        refine ⟨_, _, T.withBlock (T.fresh_start hpc) (fun _ => ⟨rfl, ht⟩) hpc ?_, h⟩
        rcases Nat.eq_zero_or_pos t.blocks.size with h0 | h0
        · exact .inr ⟨rfl, h0⟩
        · exact .inl h0
      · rename_i h0
        refine ⟨_, _, T.withBlock T.fresh_new (fun hb => ?_) hpc (.inl ?_), h⟩
        · obtain ⟨T, I⟩ := T.good.fit.toYoung.inv
          have hpos := I.shape.blocks_pos
          have hzero : t.frame.builder.graph.blocks.size = 0 := congrArg BlockId.index hb; omega
        · refine (hlt pc (.head _)).resolve_right fun ⟨h1, h2⟩ => h0 ⟨h2, by simp [h1]⟩
    have hat := t.blockAt_withBlock pc s b
    have hsize : (t.withBlock pc s b).blocks.size = t.blocks.size := by simp [withBlock]
    have hnew' : ∀ p ∈ rest, (t.withBlock pc s b).blockAt p = none := by
      intro p hp
      rw [hat, if_neg]
      · exact hnew p (.tail _ hp)
      · rintro ⟨rfl, -⟩; exact hnd.1 hp
    obtain ⟨T', hsz, hms, hml, hsome⟩ := makeBlocks_tabled e T1 hnd.2 hnew'
      (by rw [hsize]; exact fun p hp => hlt p (.tail _ hp))
    refine ⟨T', hsz.trans hsize, hms, hml, fun p => ?_⟩
    rw [hsome, hat, hsize]
    by_cases hp : p = pc
    · subst hp
      by_cases hl : p < t.blocks.size <;> simp [hl]
    · simp [hp]

lemma makeBlocks_blockAt {q : Nat} : ∀ {pcs : List Nat} {t t' : BodyState} {u : Unit},
    Body.makeBlocks targeted pcs t = .ok u t' → q ∉ pcs → t'.blockAt q = t.blockAt q
  | [], t, t', u, h, _ => by
    cases h; rfl
  | pc :: rest, t, t', u, h, hq => by
    rw [List.mem_cons, not_or] at hq
    rw [makeBlocks_blockAt (makeBlocks_cons h) hq.2]
    split <;> rw [blockAt_withBlock, if_neg fun h => hq.1 h.1]

lemma makeBlocks_entry (h : Body.makeBlocks false (0 :: rest) t = .ok u t')
    (hrest : 0 ∉ rest) (hpos : 0 < t.blocks.size) : t'.blockAt 0 = some startBlock := by
  rw [makeBlocks_blockAt (makeBlocks_cons h) hrest, if_pos ⟨rfl, by simp⟩, blockAt_withBlock, if_pos ⟨rfl, hpos⟩]

end WithBlock

lemma Tabled.new (targeted : Bool) (world : World) (name : String) (maxStack maxLocals : UInt16) (n : Nat) :
    Tabled targeted ⟨world, .new name maxStack maxLocals, Array.replicate n none, []⟩ := by
  have hstarts : ∀ q, BodyState.starts ⟨world, .new name maxStack maxLocals, Array.replicate n none, []⟩ q = none :=
    fun q => Arrays.getD_replicate q none n
  have hat : ∀ q b, BodyState.blockAt ⟨world, .new name maxStack maxLocals, Array.replicate n none, []⟩ q ≠ some b := by
    simp [BodyState.blockAt, hstarts]
  refine ⟨⟨.new name maxStack maxLocals, fun q b h => ?_, fun q b h => absurd h (hat q b),
    fun q b h => absurd h (hat q b),
    fun q d h => ?_⟩, rfl, fun p q b h => absurd h (hat p b), fun p h => absurd h (hat p _), fun b hb => ?_,
    fun p b h => absurd h (hat p b), fun p b h => ?_, fun p b h => absurd h (hat p b), Builder.preds_new _ _,
    fun k hk => ?_⟩
  · simp [hstarts] at h
  · simp [BodyState.depthAt, hstarts] at h
  · obtain ⟨_ | _ | b⟩ := b
    · exact .inl rfl
    · exact .inr (.inl rfl)
    · have : b + 2 < 2 := hb; omega
  · obtain ⟨_ | _ | b⟩ := b <;> simp [Frame.new, Frame.graph, Builder.new, initialMemory, proj, add, empty, block] at h
  · rw [show Frame.graph _ = (Builder.new name _).graph from rfl, Builder.node_new]
    split
    · simp [Node.IsExit]
    · split <;> simp [Node.IsExit]

lemma Tabled.calm {targeted : Bool} {t t' : BodyState} {α : Type} {x : Body α} {a : α} {K : α → List NodeId}
    (T : Tabled targeted t) (hx : Body.calm.Keeps [] x K) (h : x t = .ok a t') :
    Tabled targeted t' ∧ Leads [startBlock] t t' [] ∧ t'.blocks = t.blocks := by
  have htable : t'.blocks = t.blocks := (Body.calm_ok hx T.good.fit (by simp) h).2.2.1
  have hs : ∀ q, t'.starts q = t.starts q := fun q => by simp [starts, htable]
  obtain ⟨G, A, hc, -⟩ := Body.leads_of_keeps hx h T.good T.current
  have hat := blockAt_of_starts hs
  refine ⟨⟨G, hc, fun p q b hp hq => ?_, fun p hp => ?_, fun b hb => ?_, fun p b hp => ?_, fun p b hp => ?_,
    fun p b hp => ?_,
    fun b => ?_, fun n hn he => ?_⟩, A, htable⟩
  · exact T.injective p q b (hat p ▸ hp) (hat q ▸ hq)
  · exact T.start p (hat p ▸ hp)
  · rw [show t'.frame.graph.blocks.size = t.frame.graph.blocks.size from A.blocks_size] at hb
    simp only [hat]; exact T.cover b hb
  · rw [show (t'.frame.graph.block b).pc? = (t.frame.graph.block b).pc? from A.block_pc b]
    exact T.pc p b (hat p ▸ hp)
  · rw [show (t'.frame.graph.block b).pc? = (t.frame.graph.block b).pc? from A.block_pc b] at hp
    rw [hat, htable]; exact T.blockAt_pc p b hp
  · rw [depthAt_of_starts hs]; exact T.depthAt p b (hat p ▸ hp)
  · simp [A.preds, T.preds]
  · by_cases hlt : t.frame.graph.Has n
    · rw [show t'.frame.graph.node n = t.frame.graph.node n from A.keep n hlt] at he
      exact T.exits n hlt he
    · rcases A.exits n (not_lt.1 hlt) hn he with h | ⟨-, p, hp, -⟩
      · cases h
      · cases hp

lemma Frame.Lasting.storeArgs {I : Builder → Prop} (hI : Lasting I) {L : List NodeId} :
    ∀ {modes : List Mode} {n : Nat} {slot : UInt16}, (∀ m ∈ modes, m.isValue = true) →
      (Body.calming I).Runs L (Body.storeArgs n slot modes)
  | [], _, _, _ => .pure (by simp)
  | mode :: rest, n, slot, hm => by
    have hmode : mode ≠ .control := by rintro rfl; cases hm _ (.head _)
    have arg : (calming I).Runs L (do
        let arg ← onGraph fun g => g.arg n mode
        setLocal slot (← convert arg mode.arithmetic)) :=
      (hI.arg hmode).bind fun _ => (hI.rules.convert (by simp)).bind fun _ => hI.rules.setLocal (by simp)
    exact (Body.calming_onFrame arg).bind fun _ => storeArgs hI fun m h => hm m (.tail _ h)

end JvmGraph
