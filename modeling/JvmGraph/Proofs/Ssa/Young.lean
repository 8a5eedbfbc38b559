import JvmGraph.Proofs.Graph.Threads
import JvmGraph.Proofs.Graph.WellFormed
import JvmGraph.Proofs.Ssa.Primitives

/-!
# Builders that have matured nothing yet

As long as only the start block is matured, no node is replaced, and whatever a block can get at lies there or
in the start block: a read gives what was written in the block, or puts a Phi into it. Steps that keep
to the current block are *steady*. They are *quiet* if the nodes that they add lead nowhere, and *aside* if
these have nothing to do with memory.
-/

namespace JvmGraph

open JvmGraph.Graph Ssa.Builder

variable {n : NodeId} {T : Record}

def Node.IsExit (n : Node) : Prop :=
  n.op = .jmp ∨ n.op = .cond ∨ n.op = .ret ∨ n.mode = .control ∧ ∃ number, n.op = .proj number

namespace Ssa

open Steps

structure Young (s : Builder) : Prop where
  inv : ∃ T, Inv True s T .idle
  matured : ∀ b, s.isMatured b = true → b = Graph.startBlock
  no_forward : ∀ n, (s.graph.node n).op ≠ .forward
  current_lt : s.current.index < s.graph.blocks.size
  current_ne : s.current ≠ Graph.endBlock
  control : ∀ b, ∀ e ∈ s.preds b, s.graph.IsControl e
  undead : ∀ b, (s.graph.block b).dead = false

def Builder.Near (s : Builder) (n : NodeId) : Prop :=
  n.index < s.graph.nodes.size ∧ ((s.graph.node n).block = s.current ∨ (s.graph.node n).block = Graph.startBlock)

structure Steady (s s' : Builder) : Prop extends Graph.Extends s.graph s'.graph where
  blocks : s'.graph.blocks = s.graph.blocks
  current : s'.current? = s.current?
  varCount : s'.varCount = s.varCount
  matured : ∀ b, s'.isMatured b = s.isMatured b
  def_other : ∀ b x, b ≠ s.current → s'.definition? b x = s.definition? b x
  incomplete_keep : ∀ b, ∀ p ∈ (s.state b).incomplete, p ∈ (s'.state b).incomplete

/-- A step that keeps to the current block and adds no way out of it. -/
structure Quiet (s s' : Builder) : Prop extends Steady s s' where
  fresh : ∀ n, s.graph.nodes.size ≤ n.index → n.index < s'.graph.nodes.size → ¬ (s'.graph.node n).IsExit

/-- A step that neither touches memory nor selects a method. -/
structure Aside (s s' : Builder) : Prop extends Steady s s' where
  memory : ∀ b, s'.definition? b s.varCount = s.definition? b s.varCount
  plain : ∀ n : NodeId, s.graph.nodes.size ≤ n.index → n.index < s'.graph.nodes.size →
    (s'.graph.node n).op.leavesMemory = false ∧ (s'.graph.node n).op.isSelection = false

section Relations

variable {s s' s'' : Builder}

namespace Steady

lemma refl (s : Builder) : Steady s s :=
  ⟨.refl _, rfl, rfl, rfl, fun _ => rfl, fun _ _ _ => rfl, fun _ _ h => h⟩

variable (St : Steady s s')

include St

lemma current_eq : s'.current = s.current := by simp [Builder.current, St.current]

lemma trans (St' : Steady s' s'') : Steady s s'' where
  toExtends := St.toExtends.trans St'.toExtends
  blocks := St'.blocks.trans St.blocks
  current := St'.current.trans St.current
  varCount := St'.varCount.trans St.varCount
  matured b := (St'.matured b).trans (St.matured b)
  def_other b x hb := (St'.def_other b x (by rwa [St.current_eq])).trans (St.def_other b x hb)
  incomplete_keep b p hp := St'.incomplete_keep b p (St.incomplete_keep b p hp)

lemma block (b : BlockId) : s'.graph.block b = s.graph.block b := by
  simp [Graph.block, St.blocks]

lemma preds (b : BlockId) : s'.preds b = s.preds b := by
  simp [Builder.preds, St.block]

lemma near (h : s.Near n) : s'.Near n := by
  refine ⟨lt_of_lt_of_le h.1 St.size_le, ?_⟩
  rw [St.keep n h.1, St.current_eq]
  exact h.2

end Steady

namespace Quiet

lemma refl (s : Builder) : Quiet s s := ⟨.refl s, fun _ h1 h2 => absurd h2 (not_lt.2 h1)⟩

lemma trans (Q : Quiet s s') (Q' : Quiet s' s'') : Quiet s s'' where
  toSteady := Q.toSteady.trans Q'.toSteady
  fresh := Q'.toExtends.fresh (P := fun k => ¬ k.IsExit) Q.fresh Q'.fresh

end Quiet

namespace Aside

lemma refl (s : Builder) : Aside s s := ⟨.refl s, fun _ => rfl, fun _ h1 h2 => absurd h2 (not_lt.2 h1)⟩

lemma trans (A : Aside s s') (A' : Aside s' s'') : Aside s s'' where
  toSteady := A.toSteady.trans A'.toSteady
  memory b := by
    have := A'.memory b
    rw [A.varCount] at this; exact this.trans (A.memory b)
  plain := A'.toExtends.fresh (P := fun k => k.op.leavesMemory = false ∧ k.op.isSelection = false) A.plain A'.plain

end Aside

end Relations

namespace Young

variable {s s' : Builder} {x : Var}

lemma resolve (Y : Young s) (n : NodeId) : s.graph.resolve n = n := by
  obtain ⟨T, I⟩ := Y.inv
  exact I.shape.settled.resolve_of_op (Y.no_forward n)

lemma later (Y : Young s) (St : Steady s s') (hinv : ∃ T, Inv True s' T .idle)
    (hf : ∀ n, s.graph.nodes.size ≤ n.index → s'.graph.Has n → (s'.graph.node n).op ≠ .forward) :
    Young s' where
  inv := hinv
  matured b hb := Y.matured b (St.matured b ▸ hb)
  no_forward n := by
    by_cases h1 : s.graph.Has n
    · rw [St.keep n h1]; exact Y.no_forward n
    · by_cases h2 : s'.graph.Has n
      · exact hf n (by omega) h2
      · simp [node_of_le (not_lt.1 h2)]
  current_lt := by rw [St.current_eq, St.blocks]; exact Y.current_lt
  current_ne := by rw [St.current_eq]; exact Y.current_ne
  control b e he := by
    obtain ⟨T, I⟩ := Y.inv
    rw [St.preds] at he
    exact .keep (Y.control b e he) (I.shape.pred_ok b e he).1 fun n hn _ => St.keep n hn
  undead b := by rw [St.block]; exact Y.undead b

lemma entry_block (Y : Young s) (I : Inv True s T .idle) {b : BlockId}
    (h : T.entry b x = some n) : (s.graph.node n).block = b := by
  rcases I.entered.entry_ok b x n h with ⟨-, hb⟩ | ⟨hc, ha⟩
  · exact hb
  · obtain rfl := Y.matured b hc.idle
    have hp := I.shape.start_preds
    cases ha with
    | nothing _ _ hb => rwa [Y.resolve] at hb
    | same h => exact absurd hp h
    | merged hb _ => exact hb

lemma def_near (Y : Young s) {m : NodeId} (h : s.definition? s.current x = some m) : s.Near m := by
  obtain ⟨T, I⟩ := Y.inv
  have same : ∀ {a b}, s.graph.Same a b → a = b := by
    intro a b h; rwa [Graph.Same, Y.resolve, Y.resolve] at h
  refine ⟨I.defined.def_lt _ x m h, ?_⟩
  cases hw : T.written s.current x with
  | none =>
    obtain ⟨n, hn, hs⟩ := I.defined.def_entry _ x m h hw
    rw [same hs]; exact .inl (Y.entry_block I hn)
  | some v =>
    rw [I.defined.def_written _ x v hw] at h
    cases h
    rcases ((I.strictly trivial).written_ok _ x _ hw).2 with hb | hb | ⟨y, n, hn, hs⟩
    · exact .inl hb
    · exact .inr hb
    · rw [same hs]; exact .inl (Y.entry_block I hn)

lemma unread (Y : Young s) (b : BlockId) (c : BlockId) (hc : s.isMatured c = true) (e : NodeId) (he : e ∈ s.preds c) :
    s.graph.predBlock e ≠ b := by
  obtain ⟨T, I⟩ := Y.inv
  simp [Y.matured c hc, I.shape.start_preds] at he

end Young

section Reframe

variable {s s' : Builder} (hn : s'.graph.nodes = s.graph.nodes) (hb : s'.graph.blocks = s.graph.blocks)
  (hs : s'.states = s.states) (hv : s'.varCount = s.varCount) (hc : s'.current? = s.current?)

include hn hb hs hv hc

lemma Quiet.reframe : Quiet s s' where
  toExtends := .of_nodes hn
  blocks := hb
  current := hc
  varCount := hv
  matured b := by simp [isMatured, state, hs]
  def_other b x _ := by simp [definition?, state, hs]
  incomplete_keep b p hp := by simpa only [state, hs] using hp
  fresh n h1 h2 := absurd h2 (by rw [hn]; exact not_lt.2 h1)

lemma Aside.reframe : Aside s s' where
  toSteady := (Quiet.reframe hn hb hs hv hc).toSteady
  memory b := by simp [definition?, state, hs]
  plain n h1 h2 := absurd h2 (by rw [hn]; exact not_lt.2 h1)

lemma Young.reframe (Y : Young s) : Young s' := by
  obtain ⟨T, I⟩ := Y.inv
  have Q := Quiet.reframe hn hb hs hv hc
  exact Y.later Q.toSteady ⟨T, I.reframe hn Q.preds (by rw [hb]) hs hv⟩
    fun n h1 h2 => absurd h2 (by rw [Has, hn]; exact not_lt.2 h1)

end Reframe

/-! ## New nodes -/

section Place

variable {s : Builder} {c : BlockId} {op : Op} {mode : Mode} {inputs : List NodeId}

lemma Steady.place (s : Builder) (c : BlockId) (op : Op) (mode : Mode) (inputs : List NodeId) :
    Steady s (s.place c op mode inputs) where
  toExtends := .add s.graph c op mode inputs
  blocks := rfl
  current := rfl
  varCount := rfl
  matured _ := rfl
  def_other _ _ _ := rfl
  incomplete_keep _ _ h := h

lemma eq_of_fresh (h1 : s.graph.nodes.size ≤ n.index)
    (h2 : n.index < (s.place c op mode inputs).graph.nodes.size) : n = s.graph.fresh := by
  rw [place, size_add] at h2
  exact congrArg NodeId.mk (by omega)

lemma Quiet.place (s : Builder) (hx : ¬ Node.IsExit ⟨op, mode, c, inputs⟩) : Quiet s (s.place c op mode inputs) where
  toSteady := .place s c op mode inputs
  fresh n h1 h2 := by rwa [eq_of_fresh h1 h2, node_place_new]

lemma Aside.place (s : Builder) (c : BlockId) (mode : Mode) (inputs : List NodeId) (hl : op.leavesMemory = false)
    (hs : op.isSelection = false) : Aside s (s.place c op mode inputs) where
  toSteady := .place s c op mode inputs
  memory _ := rfl
  plain n h1 h2 := by rw [eq_of_fresh h1 h2, node_place_new]; exact ⟨hl, hs⟩

lemma Young.place (Y : Young s) (mode : Mode) (hc : c = s.current ∨ c = startBlock) (ho : op ≠ .phi)
    (hf : op ≠ .forward) (hi : ∀ i ∈ inputs, s.graph.Has i ∧
      ((s.graph.node i).block = c ∨ (s.graph.node i).block = startBlock)) :
    Young (s.place c op mode inputs) := by
  obtain ⟨T, I⟩ := Y.inv
  have hlt : s.graph.HasBlock c := by
    rcases hc with rfl | rfl
    · exact Y.current_lt
    · exact lt_trans zero_lt_one I.shape.blocks_pos
  have hend : c ≠ endBlock := by
    rcases hc with rfl | rfl
    · exact Y.current_ne
    · decide
  refine Y.later (.place s c op mode inputs) ⟨T, I.place hlt hf fun _ => ⟨ho, hend, fun i h => ?_⟩⟩ fun n h1 h2 => ?_
  · exact ⟨(hi i h).1, (hi i h).2.imp_right .inl⟩
  · rwa [eq_of_fresh h1 h2, node_place_new]

lemma Builder.near_place (s : Builder) (op : Op) (mode : Mode) (inputs : List NodeId)
    (hc : c = s.current ∨ c = startBlock) : (s.place c op mode inputs).Near s.graph.fresh := by
  refine ⟨by simp [place], ?_⟩
  rwa [node_place_new]

end Place

/-! ## Writes -/

section Write

variable {s : Builder} {x : Var} {v : NodeId}

lemma Young.definition?_define (Y : Young s) (hx : x ≤ s.varCount) (c : BlockId) (y : Var) :
    (s.define s.current x v).definition? c y = if c = s.current ∧ y = x then some v else s.definition? c y := by
  obtain ⟨T, I⟩ := Y.inv
  obtain ⟨hb, hx'⟩ := I.shape.in_range Y.current_lt hx
  exact s.definition?_define v hb hx' c y

lemma Young.quiet_define (Y : Young s) (hx : x ≤ s.varCount) : Quiet s (s.define s.current x v) where
  toExtends := .refl _
  blocks := rfl
  current := rfl
  varCount := rfl
  matured := s.isMatured_define _ x v
  def_other b y hb := by rw [Y.definition?_define hx, if_neg fun h => hb h.1]
  incomplete_keep b p hp := by rwa [s.incomplete_define]
  fresh _ h1 h2 := absurd h2 (not_lt.2 h1)

lemma Young.aside_define (Y : Young s) (hx : x < s.varCount) : Aside s (s.define s.current x v) where
  toSteady := (Y.quiet_define (le_of_lt hx)).toSteady
  memory b := by rw [Y.definition?_define (le_of_lt hx), if_neg fun h => ne_of_gt hx h.2]
  plain _ h1 h2 := absurd h2 (not_lt.2 h1)

lemma Young.define (Y : Young s) (hx : x ≤ s.varCount) (hv : s.Near v) : Young (s.define s.current x v) := by
  obtain ⟨T, I⟩ := Y.inv
  refine Y.later (Y.quiet_define hx).toSteady ⟨_, I.write Y.current_lt hx hv.1 (fun _ => ⟨hv.1, hv.2.imp_right .inl⟩)
    (Y.unread s.current)⟩ fun n h1 h2 => absurd h2 (not_lt.2 h1)

end Write

/-! ## Reads -/

section Read

variable {s s' : Builder} {x : Var} {mode : Mode}

/-- What a read gives: what the current block holds, or a new node for what it had when it was entered. -/
structure ReadYoung (s s' : Builder) (x : Var) (mode : Mode) (n : NodeId) : Prop where
  young : Young s'
  quiet : Quiet s s'
  near : s'.Near n
  plain : ∀ k : NodeId, s.graph.nodes.size ≤ k.index → k.index < s'.graph.nodes.size →
    (s'.graph.node k).op.leavesMemory = false ∧ (s'.graph.node k).op.isSelection = false
  bads : s'.graph.bads = s.graph.bads
  def_same : ∀ y, s'.definition? s.current y = if y = x then some n else s.definition? s.current y
  found : s.definition? s.current x = some n ∨ s.definition? s.current x = none ∧
    (s.current ≠ Graph.startBlock → (x, n) ∈ (s'.state s.current).incomplete)

lemma ReadYoung.aside (R : ReadYoung s s' x mode n) (hx : x < s.varCount) : Aside s s' := by
  refine ⟨R.quiet.toSteady, fun b => ?_, R.plain⟩
  by_cases hb : b = s.current
  · rw [hb, R.def_same, if_neg (ne_of_gt hx)]
  · exact R.quiet.def_other b _ hb

lemma ReadYoung.of_new {t : Builder} {T' : Record} (op : Op) (Y : Young s) (hx : x ≤ s.varCount)
    (hd : s.definition? s.current x = none) (I' : Inv True (t.define s.current x s.graph.fresh) T' .idle)
    (R : Reads x mode (fun _ => False) s (t.define s.current x s.graph.fresh) T T')
    (hg : t.graph = (s.graph.add s.current op mode []).2) (hop : op = .phi ∨ op = .unknown)
    (hdef : ∀ c y, t.definition? c y = s.definition? c y)
    (hinc : ∀ c, ∀ p ∈ (s.state c).incomplete, p ∈ (t.state c).incomplete)
    (hphi : s.current ≠ startBlock → (x, s.graph.fresh) ∈ (t.state s.current).incomplete) :
    ReadYoung s (t.define s.current x s.graph.fresh) x mode s.graph.fresh := by
  obtain ⟨hb, hx'⟩ := I'.shape.in_range (b := s.current) (x := x) (by rw [HasBlock, R.blocks]; exact Y.current_lt)
    (by rwa [R.varCount])
  rw [size_define] at hb
  rw [size_definitions_define] at hx'
  have hdefs := t.definition?_define s.graph.fresh hb hx'
  have hgraph : (t.define s.current x s.graph.fresh).graph = (s.place s.current op mode []).graph := hg
  have hnode : (t.define s.current x s.graph.fresh).graph.node s.graph.fresh = ⟨op, mode, s.current, []⟩ := by
    rw [hgraph, node_place_new]
  have hfresh : ∀ n : NodeId, s.graph.nodes.size ≤ n.index →
      n.index < (t.define s.current x s.graph.fresh).graph.nodes.size → n = s.graph.fresh := by
    intro n h1 h2
    rw [hgraph] at h2; exact eq_of_fresh h1 h2
  have Q : Quiet s (t.define s.current x s.graph.fresh) := {
    toExtends := ⟨R.grows.size_le, fun n hn => (R.keep n hn id).1⟩
    blocks := R.blocks
    current := R.current
    varCount := R.varCount
    matured := R.matured
    def_other := fun c y hc => by rw [hdefs, if_neg fun h => hc h.1, hdef]
    incomplete_keep := fun c p hp => by rw [t.incomplete_define]; exact hinc c p hp
    fresh := fun n h1 h2 hx => by
      rcases R.fresh n h1 h2 with h | h | h <;> rcases hx with hx | hx | hx | ⟨-, k, hx⟩ <;> rw [h] at hx <;> cases hx }
  refine ⟨Y.later Q.toSteady ⟨T', I'⟩ fun n h1 h2 => ?_, Q, ⟨?_, ?_⟩, fun n h1 h2 => ?_, by rw [R.graph], fun y => ?_,
    .inr ⟨hd, fun hc => ?_⟩⟩
  · rw [hfresh n h1 h2, hnode]
    rcases hop with rfl | rfl <;> simp
  · rw [hgraph]; simp [place]
  · rw [hnode, Q.current_eq]; exact .inl rfl
  · rw [hfresh n h1 h2, hnode]
    rcases hop with rfl | rfl <;> exact ⟨rfl, rfl⟩
  · rw [hdefs]; simp [hdef]
  · rw [t.incomplete_define]; exact hphi hc

lemma getValue_young (h : getValue x mode s = .ok n s') (Y : Young s) (hx : x ≤ s.varCount) :
    ReadYoung s s' x mode n := by
  obtain ⟨T, I⟩ := Y.inv
  obtain ⟨T', I', R, -, -⟩ := getValue_spec h I Y.current_lt (fun _ => Y.current_ne) hx
  have matured : ∀ {s' n}, s.isMatured s.current = true → s.preds s.current ≠ [] → ReadYoung s s' x mode n := by
    intro s' n hm hp
    rw [Y.matured _ hm] at hp; exact absurd I.shape.start_preds hp
  cases readAt_iff.1 h with
  | found hd =>
    rw [Y.resolve]
    refine ⟨Y, .refl s, Y.def_near hd, (Aside.refl s).plain, rfl, fun y => ?_, .inl hd⟩
    split
    · rename_i hy; rw [hy, hd]
    · rfl
  | parked hd hm =>
    have hlt : s.current.index < s.states.size := by rw [I.shape.states_size]; exact Y.current_lt
    refine .of_new .phi Y hx hd I' R rfl (.inl rfl) (fun c y => ?_) (fun c p hp => ?_) fun _ => ?_
    · exact (s.place s.current .phi mode []).definition?_modifyState s.current (fun _ => by rfl) c y
    · rw [state_modifyState]
      split
      · exact .tail _ hp
      · exact hp
    · rw [state_modifyState, if_pos ⟨rfl, hlt⟩]; exact List.mem_cons_self
  | nothing hd hm hp =>
    exact ReadYoung.of_new (t := s.place s.current .unknown mode []) .unknown Y hx hd I' R rfl (.inr rfl)
      (fun _ _ => rfl) (fun _ _ h => h) fun hc => absurd (Y.matured _ hm) hc
  | passed _ hm hp => exact matured hm (by simp [hp])
  | met _ hm hp => exact matured hm (List.ne_nil_of_length_pos (by omega))

end Read

end Ssa

end JvmGraph
