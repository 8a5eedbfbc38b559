import JvmGraph.Proofs.Ssa.Read

/-!
# The steps of a builder

Every step of a builder keeps the invariant: a new block, a new predecessor of a block that is not matured,
a write, a read, and the maturing of a block. A write must come before anybody looks at what its block
holds in the end, and a matured block gets no more predecessors.
-/

namespace JvmGraph.Ssa

open Steps List JvmGraph.Graph Builder

variable {strict : Prop} {s s' : Builder} {T T' : Record} {busy busy' : Busy} {b : BlockId} {x : Var}
  {mode : Mode} {n p : NodeId}

/-! ## Updates that the invariant does not see -/

lemma Inv.reframe (I : Inv strict s T busy) (hn : s'.graph.nodes = s.graph.nodes)
    (hp : ∀ c, s'.preds c = s.preds c) (hb : s'.graph.blocks.size = s.graph.blocks.size)
    (hs : s'.states = s.states) (hv : s'.varCount = s.varCount) : Inv strict s' T busy := by
  have state : ∀ c, s'.state c = s.state c := fun c => by simp only [state, hs]
  refine I.later ⟨?_, fun c hc => ?_, ?_, I.shape.settled.of_nodes hn, fun n => ?_, fun c e he => ?_, ?_, ?_⟩ hn
    (fun c _ => hp c) (fun c y => by simp [definition?, state]) (fun c => by simp [isMatured, state])
    fun c => by rw [state]
  · rw [hs, hb]; exact I.shape.states_size
  · rw [state, hv]; exact I.shape.defs_size c (by rwa [← hs])
  · rw [hb]; exact I.shape.blocks_pos
  · rw [node_congr hn, hb]; exact I.shape.node_block n
  · rw [hn, node_congr hn]; exact I.shape.pred_ok c e (by rwa [← hp])
  · rw [hp]; exact I.shape.start_preds
  · rw [isMatured, state]; exact I.shape.start_matured

lemma Closed.idle (h : Closed s .idle b) : s.isMatured b = true := h.resolve_right (by simp [Busy.idle])

/-! ## Writes -/

def Record.write (T : Record) (b : BlockId) (x : Var) (v : NodeId) : Record :=
  { T with written := fun c y => if c = b ∧ y = x then some v else T.written c y }

/-- A variable is written in a block whose end nobody has looked at. -/
lemma Inv.write {v : NodeId} (I : Inv strict s T .idle) (hb : s.graph.HasBlock b) (hx : x ≤ s.varCount)
    (hv : s.graph.Has v) (hh : strict → AtHand s T b v)
    (hread : ∀ c, s.isMatured c = true → ∀ e ∈ s.preds c, s.graph.predBlock e ≠ b) :
    Inv strict (s.define b x v) (T.write b x v) .idle := by
  obtain ⟨hb', hx'⟩ := I.shape.in_range hb hx
  have hdef := s.definition?_define v hb' hx'
  have D := I.defined
  have St : Stays s (s.define b x v) T T .idle .idle :=
    ⟨I.shape, I.shape.settled, .refl _, fun _ _ _ h => h, fun c h => by rwa [Closed, isMatured_define],
      fun _ _ => rfl, fun c hc e he y m hm => ⟨m, by rwa [hdef, if_neg fun h => hread c hc.idle e he h.1], .refl _ _⟩⟩
  have N := I.entered.define D St
  have hself : (T.write b x v).written b x = some v := if_pos ⟨rfl, rfl⟩
  refine ⟨I.shape.define, D.define hb' hx' hv (fun _ _ hc => if_neg hc) (fun _ _ _ => rfl) (fun k hk => ?_)
    (fun hk => ?_)
    (D.entry_lt b x), ⟨N.entry_ok, N.waiting_ok, N.incomplete_iff, N.incomplete_nodup, N.matured_incomplete⟩,
      fun h => ?_⟩
  · exact Option.some.inj (hk.symm.trans hself)
  · cases hself.symm.trans hk
  · have R := (I.strictly h).later St rfl rfl rfl
    refine ⟨fun n => ⟨(R.node_ok n).phi_ok, (R.node_ok n).alias_ok, (R.node_ok n).input_ok, (R.node_ok n).not_end⟩,
      fun c y k hk => ?_⟩
    simp only [Record.write] at hk
    split at hk
    · rename_i hc
      cases hk
      rw [hc.1]; exact (hh h).later (.refl _) fun _ _ _ h => h
    · exact R.written_ok c y k hk

/-! ## New predecessors and new blocks -/

section AddPred

variable {e : NodeId}

lemma preds_addPred (g : Graph) (hb : g.HasBlock b) (c : BlockId) :
    ((g.addPred b e).block c).preds = if c = b then (g.block c).preds ++ [e] else (g.block c).preds := by
  rw [Graph.addPred, Graph.block_setBlock]
  by_cases hc : c = b
  · simp [hc, hb]
  · simp [hc]

lemma Inv.addPred (I : Inv strict s T .idle) (hb : s.graph.HasBlock b) (hm : s.isMatured b = false)
    (he : s.graph.Has e) (ho : (s.graph.node e).op ≠ .phi) (hf : (s.graph.node e).op ≠ .forward) :
    Inv strict { s with graph := s.graph.addPred b e } T .idle := by
  have hpreds : ∀ c, ({ s with graph := s.graph.addPred b e } : Builder).preds c =
      if c = b then s.preds c ++ [e] else s.preds c := preds_addPred s.graph hb
  have hsz : (s.graph.addPred b e).blocks.size = s.graph.blocks.size := by simp [Graph.addPred]
  have hmat : ∀ c, s.isMatured c = true → c ≠ b := by rintro c hc rfl; simp [hm] at hc
  refine I.later ⟨I.shape.states_size.trans hsz.symm, I.shape.defs_size, hsz ▸ I.shape.blocks_pos,
    I.shape.settled.of_nodes rfl, fun n => hsz ▸ I.shape.node_block n, fun c k hk => ?_, ?_, I.shape.start_matured⟩ rfl
    (fun c hc => by rw [hpreds, if_neg (hmat c hc.idle)]) (fun _ _ => rfl) (fun _ => rfl) fun _ => rfl
  · rw [hpreds] at hk
    split at hk
    · rcases mem_append.1 hk with hk | hk
      · exact I.shape.pred_ok c k hk
      · rw [mem_singleton.1 hk]; exact ⟨he, ho, hf⟩
    · exact I.shape.pred_ok c k hk
  · rw [hpreds, if_neg (hmat _ I.shape.start_matured)]; exact I.shape.start_preds

end AddPred

def Builder.extended (s : Builder) : Builder :=
  { s with graph := s.graph.newBlock.2, states := s.states.push (.empty (s.varCount + 1)) }

lemma newBlock_ok {c : BlockId} : newBlock s = .ok c s' ↔ c = ⟨s.graph.blocks.size⟩ ∧ s' = s.extended := by
  constructor
  · intro h
    obtain ⟨c', s1, h1, h⟩ := bind_ok.1 h
    cases h1
    obtain ⟨u, s2, h2, h⟩ := bind_ok.1 h
    cases h2
    cases h; exact ⟨rfl, rfl⟩
  · rintro ⟨rfl, rfl⟩; rfl

section Extended

section

variable (s : Builder) (c : BlockId)

lemma Builder.state_extended :
    s.extended.state c = if c.index = s.states.size then .empty (s.varCount + 1) else s.state c := by
  simp only [extended, state, Array.getD_eq_getD_getElem?, Array.getElem?_push]
  split <;> rfl

/-- The new block has no definitions, like every block that is not there. -/
lemma Builder.definition?_extended (y : Var) : s.extended.definition? c y = s.definition? c y := by
  unfold definition?
  rw [state_extended]
  split
  · rename_i hc
    have : s.state c = .empty 0 := by simp [state, hc]
    rw [this]
    simp only [BlockState.empty, Array.getD_eq_getD_getElem?, Array.getElem?_replicate]
    split <;> simp
  · rfl

lemma Builder.isMatured_extended : s.extended.isMatured c = s.isMatured c := by
  unfold isMatured
  rw [state_extended]
  split
  · rename_i hc; simp [state, hc, BlockState.empty]
  · rfl

lemma Builder.incomplete_extended : (s.extended.state c).incomplete = (s.state c).incomplete := by
  rw [state_extended]
  split
  · rename_i hc; simp [state, hc, BlockState.empty]
  · rfl

lemma Builder.preds_extended : s.extended.preds c = s.preds c := by
  simp [preds, extended, block_newBlock]

end

lemma Inv.extended (I : Inv strict s T busy) : Inv strict s.extended T busy := by
  have hsz : s.extended.graph.blocks.size = s.graph.blocks.size + 1 := by simp [Builder.extended, Graph.newBlock]
  have hpreds := s.preds_extended
  refine I.later ⟨?_, fun c hc => ?_, ?_, I.shape.settled.of_nodes rfl, fun n => ?_, fun c e he => ?_, ?_, ?_⟩ rfl
    (fun c _ => hpreds c) s.definition?_extended s.isMatured_extended s.incomplete_extended
  · rw [hsz]; simp [Builder.extended, I.shape.states_size]
  · rw [Builder.state_extended]
    have hc' : c.index < s.states.size + 1 := by simpa [Builder.extended] using hc
    split
    · simp [BlockState.empty, Builder.extended]
    · exact I.shape.defs_size c (by omega)
  · have := I.shape.blocks_pos; omega
  · rw [hsz]; have := I.shape.node_block n; exact Nat.lt_succ_of_lt this
  · exact I.shape.pred_ok c e (by rwa [← hpreds])
  · rw [hpreds]; exact I.shape.start_preds
  · rw [s.isMatured_extended]; exact I.shape.start_matured

end Extended

/-! ## The first state -/

/-- In a new builder only the memory state has been written. -/
def Record.initial (varCount : Nat) : Record where
  entry _ _ := none
  written b x := if b = Graph.startBlock ∧ x = varCount then some ⟨1⟩ else none
  waiting _ := none

section

variable (name : String) (varCount : Nat)

lemma Builder.node_new (n : NodeId) : (new name varCount).graph.node n =
      if n.index = 1 then ⟨.proj Projection.memory, .memory, startBlock, [start]⟩
      else if n.index = 0 then ⟨.start, .tuple, startBlock, []⟩ else ⟨.bad, .tuple, startBlock, []⟩ := by
  simp only [new, initialMemory, proj, node_add]
  rcases n with ⟨_ | _ | n⟩ <;> simp [empty, node, start]

lemma Builder.state_new (b : BlockId) : (new name varCount).state b =
      if b.index = 0 then { (BlockState.empty (varCount + 1)).define varCount ⟨1⟩ with matured := true }
      else if b.index = 1 then .empty (varCount + 1) else .empty 0 := by
  rcases b with ⟨_ | _ | b⟩ <;> simp [new, state, initialMemory, proj, empty, fresh]

lemma Builder.definition?_new (b : BlockId) (x : Var) : (new name varCount).definition? b x =
      if b = startBlock ∧ x = varCount then some ⟨1⟩ else none := by
  have hb : b = startBlock ↔ b.index = 0 := by rcases b with ⟨b⟩; simp [startBlock]
  simp only [definition?, state_new, hb]
  rcases b with ⟨_ | _ | b⟩
  · simp only [if_true, BlockState.define, BlockState.empty, Array.getD_eq_getD_getElem?, Array.getElem?_setIfInBounds,
      true_and]
    by_cases hx : x = varCount
    · simp [hx]
    · simp only [Ne.symm hx, if_false, Array.getElem?_replicate]
      split <;> rfl
  · simp [BlockState.empty, Array.getElem?_replicate]
    split <;> rfl
  · simp [BlockState.empty]

lemma Builder.preds_new (b : BlockId) : (new name varCount).preds b = [] := by
  rcases b with ⟨_ | _ | b⟩ <;> simp [new, preds, block, initialMemory, proj, add, empty]

lemma Builder.op_new (n : NodeId) :
    ((new name varCount).graph.node n).op ≠ .phi ∧ ((new name varCount).graph.node n).op ≠ .forward ∧
      ((new name varCount).graph.node n).block = startBlock ∧
      ∀ i ∈ ((new name varCount).graph.node n).inputs, i = start := by
  rw [node_new]
  split
  · simp
  · split <;> simp

end

lemma Inv.new (strict : Prop) (name : String) (varCount : Nat) :
    Inv strict (.new name varCount) (.initial varCount) .idle := by
  have hop := Builder.op_new name varCount
  have hdef := Builder.definition?_new name varCount
  have hstate := Builder.state_new name varCount
  have hinc : ∀ b, ((Builder.new name varCount).state b).incomplete = [] := by
    intro b
    rw [hstate]
    split
    · rfl
    · split <;> rfl
  have hnone : ∀ n, (Builder.new name varCount).graph.target? n = none :=
    fun n => target?_eq_none_of_op (hop n).2.1
  have hsize : (Builder.new name varCount).graph.nodes.size = 2 := rfl
  have hblocks : (Builder.new name varCount).graph.blocks.size = 2 := rfl
  refine ⟨⟨rfl, fun b hb => ?_, by rw [hblocks]; decide,
    ⟨⟨fun _ => 0, fun n m h => ?_, fun _ => Nat.zero_le _⟩, fun n h => ?_⟩,
    fun n => ?_, fun b e he => ?_, Builder.preds_new _ _ _, ?_⟩,
    ⟨fun b x m h => ?_, fun b x v h => ?_, fun b x m h hw => ?_, nofun, nofun⟩,
    ⟨nofun, nofun, fun b x n => ?_, fun b => ?_, fun b _ => hinc b⟩, fun _ => ?_⟩
  · have hb' : b.index < 2 := hb
    rw [hstate]
    split
    · simp [BlockState.define, BlockState.empty, Builder.new]
    · rw [if_pos (by omega)]; simp [BlockState.empty, Builder.new]
  · simp [hnone] at h
  · exact absurd h (hop n).2.1
  · rw [(hop n).2.2.1, hblocks]; decide
  · simp [Builder.preds_new] at he
  · rfl
  · rw [hdef] at h
    split at h
    · cases h
      rw [hsize]; decide
    · cases h
  · rwa [hdef]
  · rw [hdef] at h; simp only [Record.initial] at hw; simp [h] at hw
  · rw [hinc]; simp [Record.initial]
  · rw [hinc]; exact nodup_nil
  · have hand : ∀ n, n.index < 2 → AtHand (.new name varCount) (.initial varCount) startBlock n :=
      fun n h => ⟨h, .inl (hop n).2.2.1⟩
    refine ⟨fun n => ⟨fun h => absurd h (hop n).1, fun h => (h.elim (hop n).1 (hop n).2.1).elim,
      fun _ _ i hi => ?_, ?_⟩,
      fun b x v h => ?_⟩
    · rw [(hop n).2.2.2 i hi, (hop n).2.2.1]; exact hand _ (by decide)
    · rw [(hop n).2.2.1]; decide
    · simp only [Record.initial] at h
      split at h
      · rename_i hb
        cases h
        rw [hb.1]; exact hand _ (by decide)
      · cases h

/-! ## Reading in a block -/

lemma read_spec (x : Var) : ReadsWell strict x (read x) := by
  intro s s' T busy b mode n h R hb hend
  exact readAt_spec (readFuel s) h R hb hend

lemma getValue_spec (h : getValue x mode s = .ok n s') (I : Inv strict s T .idle)
    (hb : s.current.index < s.graph.blocks.size) (hend : strict → s.current ≠ endBlock) (hx : x ≤ s.varCount) :
    ∃ T', Inv strict s' T' .idle ∧ Reads x mode (fun _ => False) s s' T T' ∧ s'.Holds s.current x n ∧ s'.Root n := by
  exact read_spec x h ⟨I, hx, nofun⟩ hb hend

/-! ## Maturing -/

/-- The Phis of a block that are left to complete. -/
structure Todo (s : Builder) (T : Record) (b : BlockId) (todo : List (Var × NodeId)) : Prop where
  nodup : todo.Nodup
  mem_iff : ∀ y n, (y, n) ∈ todo ↔ T.waiting n = some y ∧ (s.graph.node n).block = b

def Busy.completing (b : BlockId) (todo : List (Var × NodeId)) : Busy := ⟨fun n => ∃ y, (y, n) ∈ todo, some b⟩

variable {rest : List (Var × NodeId)}

lemma Todo.step (W : Todo s T b ((x, p) :: rest))
    (I : Inv strict s T busy) (R : Reads x mode (· = p) s s' T T') (I' : Inv strict s' T' busy')
    (hp : T'.waiting p = none) : Todo s' T' b rest := by
  obtain ⟨hw, hbl⟩ := (W.mem_iff x p).1 (by simp)
  obtain ⟨hnot, hnodup⟩ := nodup_cons.1 W.nodup
  have hne : ∀ {y n}, T.waiting n = some y → (y, n) ∈ rest → n ≠ p := by
    rintro y n hy hn rfl
    rw [hw] at hy
    cases hy
    exact hnot hn
  refine ⟨hnodup, fun y n => ⟨fun h => ?_, fun ⟨h1, h2⟩ => ?_⟩⟩
  · obtain ⟨hy, hb⟩ := (W.mem_iff y n).1 (.tail _ h)
    obtain ⟨h1, h2⟩ := R.keep n (I.entered.waiting_ok n y hy).1 (hne hy h)
    exact ⟨h2.trans hy, by rwa [h1]⟩
  · have hnp : n ≠ p := by rintro rfl; simp [hp] at h1
    have hold : s.graph.Has n := by
      -- a new Phi of `b` would be its entry for `x`, and that is `p`
      have hent := (I'.entered.waiting_ok n y h1).2.2.2
      rw [h2] at hent
      by_cases hy : y = x
      · subst hy
        have := R.entry_keep _ _ _ (I.entered.waiting_ok p y hw).2.2.2
        rw [hbl, hent] at this; exact absurd (Option.some.inj this) hnp
      · rw [R.entry_other b y hy] at hent; exact I.defined.entry_lt b y n hent
    obtain ⟨h3, h4⟩ := R.keep n hold hnp
    have hmem := (W.mem_iff y n).2 ⟨h4 ▸ h1, h3 ▸ h2⟩
    rcases mem_cons.1 hmem with h | h
    · cases h
      exact absurd rfl hnp
    · exact h

lemma Todo.readable (W : Todo s T b ((x, p) :: rest))
    (I : Inv strict s T (.completing b ((x, p) :: rest))) : Readable strict x s T (.completing b ((x, p) :: rest)) := by
  obtain ⟨hw, hbl⟩ := (W.mem_iff x p).1 (by simp)
  have hent : T.entry b x = some p := by rw [← hbl]; exact (I.entered.waiting_ok p x hw).2.2.2
  refine ⟨I, ?_, ?_⟩
  · obtain ⟨m, hm⟩ := I.defined.entry_def b x p hent
    obtain ⟨hb, hx⟩ := lt_of_definition hm
    rw [I.shape.defs_size b hb] at hx; exact Nat.le_of_lt_succ hx
  · rintro k ⟨y, hk⟩; exact (I.entered.waiting_ok k y ((W.mem_iff y k).1 hk).1).1

lemma Todo.complete (W : Todo s T b ((x, p) :: rest))
    (I : Inv strict s T (.completing b ((x, p) :: rest))) (h : addOperands (read x) p s = .ok n s') :
    ∃ T', Inv strict s' T' (.completing b rest) ∧ Later s s' T T' ∧ (∀ c, s'.isMatured c = s.isMatured c) ∧
      Todo s' T' b rest := by
  obtain ⟨hw, hbl⟩ := (W.mem_iff x p).1 (by simp)
  obtain ⟨T', I', R, -, -, hp⟩ := addOperands_spec (read_spec x) h (W.readable I) hw ⟨x, by simp⟩
    (by rw [hbl]; exact .inr rfl)
  refine ⟨T', I'.busy_congr rfl fun k hk => ?_, R.toLater, R.matured, W.step I R I' hp⟩
  have hkp : k ≠ p := by rintro rfl; simp [hp] at hk
  simp only [Busy.completing, mem_cons, Prod.mk.injEq]
  constructor
  · rintro ⟨y, hy⟩; exact ⟨hkp, y, .inr hy⟩
  · rintro ⟨-, y, hy⟩; exact ⟨y, hy.resolve_left fun e => hkp e.2⟩

lemma completeAll_spec : ∀ {todo : List (Var × NodeId)} {s s' : Builder} {T : Record} {u : Unit},
    completeAll todo s = .ok u s' → Inv strict s T (.completing b todo) → Todo s T b todo →
    ∃ T', Inv strict s' T' (.completing b []) ∧ Later s s' T T' ∧ (∀ c, s'.isMatured c = s.isMatured c) ∧
    Todo s' T' b []
  | [], s, s', T, u, h, I, W => by
    cases h; exact ⟨T, I, .refl _ _, fun _ => rfl, W⟩
  | (x, p) :: rest, s, s', T, u, h, I, W => by
    obtain ⟨n, s1, h1, h⟩ := bind_ok.1 h
    obtain ⟨T1, I1, L1, hm1, W1⟩ := W.complete I h1
    obtain ⟨T2, I2, L2, hm2, W2⟩ := completeAll_spec h I1 W1
    exact ⟨T2, I2, L1.trans L2, fun c => (hm2 c).trans (hm1 c), W2⟩

lemma Inv.beginMature (I : Inv strict s T .idle) (hb : s.graph.HasBlock b) :
    Inv strict (s.modifyState b fun state => { state with incomplete := [] }) T
      (.completing b (s.state b).incomplete.reverse) := by
  have N := I.entered
  refine I.modifyState hb (fun _ => rfl) id (nofun) (fun y k => ?_) (fun y k _ hk => ?_) nodup_nil fun _ => rfl
  · simp only [not_mem_nil, false_iff, not_and, not_not]
    exact fun h1 h2 => ⟨y, mem_reverse.2 ((N.incomplete_iff b y k).2 ⟨h1, h2, id⟩)⟩
  · refine ⟨?_, False.elim⟩
    rintro ⟨z, hz⟩; exact hk ((N.incomplete_iff b z k).1 (mem_reverse.1 hz)).2.1

lemma Inv.todo (I : Inv strict s T .idle) (b : BlockId) :
    Todo (s.modifyState b fun state => { state with incomplete := [] }) T b (s.state b).incomplete.reverse := by
  refine ⟨nodup_reverse.2 (I.entered.incomplete_nodup b), fun y n => ?_⟩
  rw [mem_reverse, I.entered.incomplete_iff]; simp [Busy.idle, Builder.modifyState]

lemma Inv.endMature (I : Inv strict s T (.completing b [])) (hb : s.graph.HasBlock b) (W : Todo s T b []) :
    Inv strict (s.modifyState b fun state => { state with matured := true }) T .idle := by
  have N := I.entered
  have hnone : ∀ k, ¬ (Busy.completing b []).phis k := by simp [Busy.completing]
  refine I.modifyState hb (fun _ => rfl) (fun _ => rfl) (fun c hc => .inr ⟨?_, rfl⟩) (fun y k => ?_) (fun y k _ _ => ?_)
    (N.incomplete_nodup b) fun _ => ?_
  · cases hc
    rfl
  · refine (N.incomplete_iff b y k).trans ?_; simp [hnone, Busy.idle]
  · simp [hnone, Busy.idle]
  · refine eq_nil_iff_forall_not_mem.2 fun ⟨y, n⟩ h => ?_
    obtain ⟨h1, h2, -⟩ := (N.incomplete_iff b y n).1 h; cases (W.mem_iff y n).2 ⟨h1, h2⟩

lemma Later.modifyState {f : BlockState → BlockState} (hd : ∀ state, (f state).definitions = state.definitions) :
    Later s (s.modifyState b f) T T where
  grows := .refl _
  fresh _ h1 h2 := absurd h2 (not_lt.2 h1)
  graph := rfl
  varCount := rfl
  current := rfl
  def_keep c y _ hm := (s.definition?_modifyState b hd c y).trans hm
  entry_keep _ _ _ h := h
  written := rfl

lemma mature_spec {u : Unit} (h : mature b s = .ok u s') (I : Inv strict s T .idle)
    (hb : s.graph.HasBlock b) :
    ∃ T', Inv strict s' T' .idle ∧ Later s s' T T' ∧ ∀ c, s'.isMatured c = true ↔ s.isMatured c = true ∨ c = b := by
  replace h := get_bind_ok.1 h
  cases hm : s.isMatured b with
  | true =>
    simp only [hm] at h
    cases h
    refine ⟨T, I, .refl _ _, fun c => ⟨.inl, fun h => h.elim id ?_⟩⟩
    rintro rfl; exact hm
  | false =>
    simp only [hm] at h
    replace h := get_bind_ok.1 h
    obtain ⟨u1, s1, h1, h⟩ := bind_ok.1 h
    cases h1
    obtain ⟨u2, s2, h2, h⟩ := bind_ok.1 h
    cases h
    obtain ⟨T2, I2, L2, hm2, W2⟩ := completeAll_spec h2 (I.beginMature hb) (I.todo b)
    have L1 : Later s (s.modifyState b fun state => { state with incomplete := [] }) T T := .modifyState fun _ => rfl
    have hb2 : s2.graph.HasBlock b := by rwa [HasBlock, L2.blocks]
    refine ⟨T2, I2.endMature hb2 W2, (L1.trans L2).trans (.modifyState fun _ => rfl), fun c => ?_⟩
    have hold : s2.isMatured c = s.isMatured c := (hm2 c).trans (s.isMatured_modifyState b (fun _ => by rfl) c)
    rw [← hold]
    unfold isMatured
    rw [state_modifyState, I2.shape.states_size]
    by_cases hc : c = b <;> simp [hc, hb2]

end JvmGraph.Ssa
