import JvmGraph.Ssa
import JvmGraph.Proofs.Graph.Forwarding
import Mathlib.Data.List.Forall2

/-!
# What a builder keeps

The node that a block was first asked for as the value of a variable is the *entry* of the block for that
variable. The invariant says of every entry that it waits for its operands, or agrees with what the
predecessors of the block hold at their ends: it is a Phi with one operand for each of them, or all of
them hold what the entry stands for.

Entries are not part of a builder: a block that writes the variable later forgets them. They are kept
beside it in a `Record`, together with the last write of each variable and the Phis that wait.
-/

namespace JvmGraph.Ssa

open List JvmGraph.Graph Builder

variable {g' : Graph} {s : Builder} {b : BlockId} {strict : Prop} {T : Record} {busy busy' : Busy} {n e : NodeId}

/-! ## States and definitions after an update -/

variable {f : BlockState → BlockState}

namespace Builder

variable {x : Var}

section

variable (s : Builder) (b : BlockId)

lemma state_modifyState (f : BlockState → BlockState) (c : BlockId) :
    (s.modifyState b f).state c = if c = b ∧ b.index < s.states.size then f (s.state c) else s.state c := by
  obtain ⟨b⟩ := b
  obtain ⟨c⟩ := c
  simp only [modifyState, state, Arrays.getD_modify, BlockId.mk.injEq]

lemma definitions_modifyState (hd : ∀ state, (f state).definitions = state.definitions) (c : BlockId) :
    ((s.modifyState b f).state c).definitions = (s.state c).definitions := by
  rw [state_modifyState]
  split
  · exact hd _
  · rfl

lemma definition?_modifyState (hd : ∀ state, (f state).definitions = state.definitions) (c : BlockId) (y : Var) :
    (s.modifyState b f).definition? c y = s.definition? c y := by
  simp [definition?, s.definitions_modifyState b hd]

lemma isMatured_modifyState (hm : ∀ state, (f state).matured = state.matured) (c : BlockId) :
    (s.modifyState b f).isMatured c = s.isMatured c := by
  unfold isMatured
  rw [state_modifyState]
  split
  · exact hm _
  · rfl

@[simp]
lemma size_modifyState (f : BlockState → BlockState) :
    (s.modifyState b f).states.size = s.states.size := by simp [modifyState]

@[simp]
lemma graph_define (x : Var) (v : NodeId) : (s.define b x v).graph = s.graph := rfl

@[simp]
lemma size_define (x : Var) (v : NodeId) : (s.define b x v).states.size = s.states.size := by simp [define]

lemma state_define (x : Var) (v : NodeId) (c : BlockId) :
    (s.define b x v).state c = if c = b ∧ b.index < s.states.size then (s.state c).define x v else s.state c :=
  s.state_modifyState b _ c

end

lemma definition?_define (s : Builder) (v : NodeId) (hb : b.index < s.states.size)
    (hx : x < (s.state b).definitions.size) (c : BlockId) (y : Var) :
    (s.define b x v).definition? c y = if c = b ∧ y = x then some v else s.definition? c y := by
  unfold definition?
  rw [state_define]
  by_cases hc : c = b
  · subst hc
    simp only [hb, hx, and_true, if_true, true_and, BlockState.define, Arrays.getD_setIfInBounds]
  · simp [hc]

section

variable (s : Builder) (b : BlockId) (x : Var)

lemma isMatured_define (v : NodeId) (c : BlockId) : (s.define b x v).isMatured c = s.isMatured c :=
  s.isMatured_modifyState b (fun _ => by rfl) c

lemma incomplete_define (v : NodeId) (c : BlockId) :
    ((s.define b x v).state c).incomplete = (s.state c).incomplete := by
  rw [state_define]
  split <;> rfl

lemma size_definitions_define (v : NodeId) (c : BlockId) :
    ((s.define b x v).state c).definitions.size = (s.state c).definitions.size := by
  rw [state_define]
  split
  · simp [BlockState.define]
  · rfl

end

def Holds (s : Builder) (b : BlockId) (x : Var) (n : NodeId) : Prop :=
  ∃ m, s.definition? b x = some m ∧ s.graph.Same m n

lemma Holds.same {n' : NodeId} (h : s.Holds b x n) (hn : s.graph.Same n n') : s.Holds b x n' := by
  obtain ⟨m, hm, hs⟩ := h
  exact ⟨m, hm, hs.trans hn⟩

def preds (s : Builder) (b : BlockId) : List NodeId := (s.graph.block b).preds

end Builder

/-! ## The invariant -/

/-- What is known of a run beside the state of the builder. -/
structure Record where
  /-- The node that a block was first asked for as the value of a variable. -/
  entry : BlockId → Var → Option NodeId
  /-- The value that was last written to a variable in a block. -/
  written : BlockId → Var → Option NodeId
  /-- The variable of a Phi that waits for its operands. -/
  waiting : NodeId → Option Var

/-- What is under way: the Phis whose operands are being read, and the block that is being matured. -/
structure Busy where
  phis : NodeId → Prop
  closing : Option BlockId

def Busy.idle : Busy := ⟨fun _ => False, none⟩

def Closed (s : Builder) (busy : Busy) (b : BlockId) : Prop := s.isMatured b = true ∨ busy.closing = some b

structure Merged (s : Builder) (x : Var) (p : NodeId) : Prop where
  op : (s.graph.node p).op = .phi
  several : 1 < (s.preds (s.graph.node p).block).length
  operands : List.Forall₂ (fun i e => s.Holds (s.graph.predBlock e) x i) (s.graph.node p).inputs
    (s.preds (s.graph.node p).block)

inductive Agrees (s : Builder) (b : BlockId) (x : Var) (n : NodeId) : Prop
  | nothing (hp : s.preds b = []) (op : (s.graph.node (s.graph.resolve n)).op = .unknown)
      (block : (s.graph.node (s.graph.resolve n)).block = b)
  | same (hp : s.preds b ≠ []) (holds : ∀ e ∈ s.preds b, s.Holds (s.graph.predBlock e) x n)
  | merged (block : (s.graph.node n).block = b) (merged : Merged s x n)

/-- A node that is at hand in `b`: it lies there or in the start block, or is the entry of `b` for some
variable. -/
def AtHand (s : Builder) (T : Record) (b : BlockId) (n : NodeId) : Prop :=
  n.index < s.graph.nodes.size ∧ ((s.graph.node n).block = b ∨ (s.graph.node n).block = Graph.startBlock ∨
    ∃ x m, T.entry b x = some m ∧ s.graph.Same n m)

/-- Tables and numbers fit together, and control comes from nodes that are never replaced. -/
structure Shape (s : Builder) : Prop where
  states_size : s.states.size = s.graph.blocks.size
  defs_size : ∀ b : BlockId, b.index < s.states.size → (s.state b).definitions.size = s.varCount + 1
  blocks_pos : 1 < s.graph.blocks.size
  settled : s.graph.Settled
  node_block : ∀ n, (s.graph.node n).block.index < s.graph.blocks.size
  pred_ok : ∀ b, ∀ e ∈ s.preds b,
    e.index < s.graph.nodes.size ∧ (s.graph.node e).op ≠ .phi ∧ (s.graph.node e).op ≠ .forward
  start_preds : s.preds Graph.startBlock = []
  start_matured : s.isMatured Graph.startBlock = true

structure Defined (s : Builder) (T : Record) : Prop where
  def_lt : ∀ b x m, s.definition? b x = some m → m.index < s.graph.nodes.size
  def_written : ∀ b x v, T.written b x = some v → s.definition? b x = some v
  def_entry : ∀ b x m, s.definition? b x = some m → T.written b x = none →
    ∃ n, T.entry b x = some n ∧ s.graph.Same m n
  entry_def : ∀ b x n, T.entry b x = some n → ∃ m, s.definition? b x = some m
  entry_lt : ∀ b x n, T.entry b x = some n → n.index < s.graph.nodes.size

structure Entered (s : Builder) (T : Record) (busy : Busy) : Prop where
  entry_ok : ∀ b x n, T.entry b x = some n → (T.waiting n = some x ∧ (s.graph.node n).block = b) ∨
    (Closed s busy b ∧ Agrees s b x n)
  waiting_ok : ∀ n x, T.waiting n = some x → n.index < s.graph.nodes.size ∧ (s.graph.node n).op = .phi ∧
    (s.graph.node n).inputs = [] ∧ T.entry (s.graph.node n).block x = some n
  incomplete_iff : ∀ b x n, (x, n) ∈ (s.state b).incomplete ↔
    T.waiting n = some x ∧ (s.graph.node n).block = b ∧ ¬ busy.phis n
  incomplete_nodup : ∀ b, (s.state b).incomplete.Nodup
  matured_incomplete : ∀ b, s.isMatured b = true → (s.state b).incomplete = []

structure StrictAt (s : Builder) (T : Record) (busy : Busy) (n : NodeId) : Prop where
  phi_ok : (s.graph.node n).op = .phi → (T.waiting n).isSome = true ∨
    (Closed s busy (s.graph.node n).block ∧ ∃ x, Merged s x n)
  alias_ok : (s.graph.node n).op = .phi ∨ (s.graph.node n).op = .forward →
    ∃ x m, T.entry (s.graph.node n).block x = some m ∧ s.graph.Same n m
  input_ok : (s.graph.node n).op ≠ .phi → (s.graph.node n).op ≠ .forward →
    ∀ i ∈ (s.graph.node n).inputs, AtHand s T (s.graph.node n).block i
  not_end : (s.graph.node n).block ≠ Graph.endBlock

structure Strict (s : Builder) (T : Record) (busy : Busy) : Prop where
  node_ok : ∀ n, StrictAt s T busy n
  written_ok : ∀ b x v, T.written b x = some v → AtHand s T b v

/-- What every step of a builder keeps; `strict` says whether `Strict` is part of it. -/
structure Inv (strict : Prop) (s : Builder) (T : Record) (busy : Busy) : Prop where
  shape : Shape s
  defined : Defined s T
  entered : Entered s T busy
  strictly : strict → Strict s T busy

/-! ## What stays true as a builder goes on -/

lemma Shape.predBlock_lt (S : Shape s) (e : NodeId) :
    (s.graph.predBlock e).index < s.graph.blocks.size := S.node_block _

lemma Shape.predBlock_grows (S : Shape s) (S' : g'.Settled) (G : s.graph.Grows g')
    (he : e ∈ s.preds b) : g'.predBlock e = s.graph.predBlock e := by
  obtain ⟨hlt, ho, hf⟩ := S.pred_ok b e he
  unfold predBlock
  rw [G.resolve_of_keep S' hlt ho hf, S.settled.resolve_of_op hf, G.block e hlt]

structure Stays (s s' : Builder) (T T' : Record) (busy busy' : Busy) : Prop where
  shape : Shape s
  settled : s'.graph.Settled
  grows : s.graph.Grows s'.graph
  entry_keep : ∀ c x n, T.entry c x = some n → T'.entry c x = some n
  closed : ∀ c, Closed s busy c → Closed s' busy' c
  preds : ∀ c, Closed s busy c → s'.preds c = s.preds c
  holds : ∀ c, Closed s busy c → ∀ e ∈ s.preds c, ∀ x m, s.definition? (s.graph.predBlock e) x = some m →
    s'.Holds (s.graph.predBlock e) x m

section Stays

variable {s' : Builder} {T' : Record} {x : Var}

lemma Stays.holds_pred (St : Stays s s' T T' busy busy') (hc : Closed s busy b) {i : NodeId} (he : e ∈ s.preds b)
    (h : s.Holds (s.graph.predBlock e) x i) : s'.Holds (s'.graph.predBlock e) x i := by
  obtain ⟨m, hm, hs⟩ := h
  rw [St.shape.predBlock_grows St.settled St.grows he]
  exact (St.holds b hc e he x m hm).same (St.grows.same _ _ hs)

lemma Merged.later (h : Merged s x n) (St : Stays s s' T T' busy busy') (hn : s.graph.Has n)
    (hc : Closed s busy (s.graph.node n).block) : Merged s' x n := by
  have hi : (s.graph.node n).inputs ≠ [] := by
    intro e
    have hop := h.operands
    rw [e] at hop
    have := h.several; simp [forall₂_nil_left_iff.1 hop] at this
  have hk := St.grows.keep n hn (.inr hi)
  refine ⟨by rw [hk]; exact h.op, by rw [hk, St.preds _ hc]; exact h.several, ?_⟩
  rw [hk, St.preds _ hc]
  exact forall₂_iff_get.2 ⟨h.operands.length_eq, fun i h1 h2 =>
    St.holds_pred hc (get_mem _ _) ((forall₂_iff_get.1 h.operands).2 i h1 h2)⟩

lemma Agrees.later (h : Agrees s b x n) (St : Stays s s' T T' busy busy') (hn : s.graph.Has n)
    (hc : Closed s busy b) : Agrees s' b x n := by
  cases h with
  | nothing h0 ho hb =>
    have S := St.shape.settled
    have hr := S.resolve_lt hn
    have hk := St.grows.keep _ hr (.inl (by simp [ho]))
    have e : s'.graph.resolve n = s.graph.resolve n := by
      rw [← St.grows.same _ _ (S.same_resolve n)]
      exact St.grows.resolve_of_keep St.settled hr (by simp [ho]) (by simp [ho])
    exact .nothing (by rw [St.preds b hc, h0]) (by rw [e, hk, ho]) (by rw [e, hk, hb])
  | same h0 hh =>
    refine .same (by rwa [St.preds b hc]) fun e he => ?_
    rw [St.preds b hc] at he; exact St.holds_pred hc he (hh e he)
  | merged hb hM => exact .merged (by rwa [St.grows.block n hn]) (hM.later St hn (by rwa [hb]))

lemma AtHand.later (h : AtHand s T b n) (G : s.graph.Grows s'.graph)
    (ht : ∀ c x m, T.entry c x = some m → T'.entry c x = some m) : AtHand s' T' b n := by
  obtain ⟨hlt, h⟩ := h
  refine ⟨lt_of_lt_of_le hlt G.size_le, ?_⟩
  rw [G.block n hlt]
  rcases h with h | h | ⟨x, m, hm, hs⟩
  · exact .inl h
  · exact .inr (.inl h)
  · exact .inr (.inr ⟨x, m, ht b x m hm, G.same _ _ hs⟩)

lemma StrictAt.later (h : StrictAt s T busy n) (St : Stays s s' T T' busy busy') (hn : s'.graph.node n = s.graph.node n)
    (hw : (T.waiting n).isSome = true → (T'.waiting n).isSome = true) : StrictAt s' T' busy' n where
  phi_ok hp := by
    rw [hn] at hp ⊢
    have hlt : s.graph.Has n := lt_of_op_eq hp
    exact (h.phi_ok hp).imp hw fun ⟨hc, x, hM⟩ => ⟨St.closed _ hc, x, hM.later St hlt hc⟩
  alias_ok hp := by
    rw [hn] at hp ⊢
    obtain ⟨x, m, hm, hs⟩ := h.alias_ok hp
    exact ⟨x, m, St.entry_keep _ _ _ hm, St.grows.same _ _ hs⟩
  input_ok h1 h2 i hi := by
    rw [hn] at h1 h2 hi ⊢; exact (h.input_ok h1 h2 i hi).later St.grows St.entry_keep
  not_end := by rw [hn]; exact h.not_end

lemma Defined.later (D : Defined s T) (G : s.graph.Grows s'.graph)
    (hd : ∀ c y, s'.definition? c y = s.definition? c y) (he : T'.entry = T.entry) (hw : T'.written = T.written) :
    Defined s' T' := by
  refine ⟨fun c y m h => ?_, fun c y v h => ?_, fun c y m h hn => ?_, fun c y n h => ?_, fun c y n h => ?_⟩
  · exact lt_of_lt_of_le (D.def_lt c y m (hd c y ▸ h)) G.size_le
  · exact hd c y ▸ D.def_written c y v (hw ▸ h)
  · obtain ⟨n, hn, hs⟩ := D.def_entry c y m (hd c y ▸ h) (hw ▸ hn)
    exact ⟨n, he ▸ hn, G.same _ _ hs⟩
  · exact hd c y ▸ D.entry_def c y n (he ▸ h)
  · exact lt_of_lt_of_le (D.entry_lt c y n (he ▸ h)) G.size_le

lemma Entered.later (N : Entered s T busy) (D : Defined s T) (St : Stays s s' T T busy busy)
    (hn : ∀ n, s.graph.Has n → s'.graph.node n = s.graph.node n)
    (hm : ∀ c, s'.isMatured c = s.isMatured c) (hi : ∀ c, (s'.state c).incomplete = (s.state c).incomplete) :
    Entered s' T busy := by
  refine ⟨fun c x n h => ?_, fun n x h => ?_, fun c x n => ?_, fun c => ?_, fun c hc => ?_⟩
  · have hlt := D.entry_lt c x n h
    rw [hn n hlt]
    exact (N.entry_ok c x n h).imp_right fun ⟨hc, ha⟩ => ⟨St.closed c hc, ha.later St hlt hc⟩
  · obtain ⟨hlt, h⟩ := N.waiting_ok n x h
    rw [hn n hlt]; exact ⟨lt_of_lt_of_le hlt St.grows.size_le, h⟩
  · rw [hi]
    refine (N.incomplete_iff c x n).trans (and_congr_right fun hw => ?_)
    rw [hn n (N.waiting_ok n x hw).1]
  · rw [hi]; exact N.incomplete_nodup c
  · rw [hi]; exact N.matured_incomplete c (hm c ▸ hc)

lemma Strict.later (R : Strict s T busy) (St : Stays s s' T T' busy busy') (hn : s'.graph.nodes = s.graph.nodes)
    (hw : T'.waiting = T.waiting) (hwr : T'.written = T.written) : Strict s' T' busy' where
  node_ok k := (R.node_ok k).later St (node_congr hn k) (by rw [hw]; exact id)
  written_ok c y v h := (R.written_ok c y v (by rwa [← hwr])).later St.grows St.entry_keep

lemma Inv.later (I : Inv strict s T busy) (S : Shape s') (hn : s'.graph.nodes = s.graph.nodes)
    (hp : ∀ c, Closed s busy c → s'.preds c = s.preds c) (hd : ∀ c y, s'.definition? c y = s.definition? c y)
    (hm : ∀ c, s'.isMatured c = s.isMatured c) (hi : ∀ c, (s'.state c).incomplete = (s.state c).incomplete) :
    Inv strict s' T busy := by
  have G : s.graph.Grows s'.graph := .of_nodes hn
  have St : Stays s s' T T busy busy := ⟨I.shape, S.settled, G, fun _ _ _ h => h, fun c h => by rwa [Closed, hm], hp,
    fun _ _ _ _ y m h => ⟨m, by rwa [hd], .refl _ _⟩⟩
  exact ⟨S, I.defined.later G hd rfl rfl, I.entered.later I.defined St (fun n _ => node_congr hn n) hm hi,
    fun h => (I.strictly h).later St hn rfl rfl⟩

end Stays

lemma Inv.busy_congr (I : Inv strict s T busy) (hc : busy'.closing = busy.closing)
    (hp : ∀ n, (T.waiting n).isSome = true → (busy'.phis n ↔ busy.phis n)) : Inv strict s T busy' := by
  have closed : ∀ c, Closed s busy c → Closed s busy' c := fun c h => by rwa [Closed, hc]
  have St : Stays s s T T busy busy' := ⟨I.shape, I.shape.settled, .refl _, fun _ _ _ h => h, closed, fun _ _ => rfl,
    fun _ _ _ _ _ m hm => ⟨m, hm, .refl _ _⟩⟩
  refine ⟨I.shape, I.defined, ⟨fun b x n h => ?_, I.entered.waiting_ok, fun b x n => ?_, I.entered.incomplete_nodup,
    I.entered.matured_incomplete⟩,
      fun h => ⟨fun n => ((I.strictly h).node_ok n).later St rfl id, (I.strictly h).written_ok⟩⟩
  · exact (I.entered.entry_ok b x n h).imp_right fun ⟨h1, h2⟩ => ⟨closed b h1, h2⟩
  · refine (I.entered.incomplete_iff b x n).trans (and_congr_right fun hw => and_congr_right fun _ => ?_)
    rw [hp n (by simp [hw])]

/-! ## A new node -/

def Builder.place (s : Builder) (b : BlockId) (op : Op) (mode : Mode) (inputs : List NodeId) : Builder :=
  { s with graph := (s.graph.add b op mode inputs).2 }

section Place

variable {op : Op} {mode : Mode} {inputs : List NodeId}

lemma Shape.place (S : Shape s) (hb : s.graph.HasBlock b) (ho : op ≠ .forward) :
    Shape (s.place b op mode inputs) where
  states_size := S.states_size
  defs_size := S.defs_size
  blocks_pos := S.blocks_pos
  settled := S.settled.add ho
  node_block n := by
    simp only [Builder.place, node_add]
    split
    · exact hb
    · exact S.node_block n
  pred_ok c e he := by
    obtain ⟨hlt, h⟩ := S.pred_ok c e he
    refine ⟨?_, ?_⟩
    · simp only [Builder.place, size_add]; omega
    · simp only [Builder.place, node_add, if_neg (ne_of_lt hlt)]; exact h
  start_preds := S.start_preds
  start_matured := S.start_matured

lemma Shape.grows_place (S : Shape s) (ho : op ≠ .forward) :
    s.graph.Grows (s.place b op mode inputs).graph := .add S.settled ho

lemma Shape.stays_place (S : Shape s) (ho : op ≠ .forward) : Stays s (s.place b op mode inputs) T T busy busy where
  shape := S
  settled := S.settled.add ho
  grows := S.grows_place ho
  entry_keep _ _ _ h := h
  closed _ h := h
  preds _ _ := rfl
  holds _ _ _ _ _ m hm := ⟨m, hm, .refl _ _⟩

lemma Builder.node_place_old (h : s.graph.Has n) :
    (s.place b op mode inputs).graph.node n = s.graph.node n := by
  simp [place, node_add, if_neg (ne_of_lt h)]

lemma Builder.node_place_new (s : Builder) (b : BlockId) (op : Op) (mode : Mode) (inputs : List NodeId) :
    (s.place b op mode inputs).graph.node s.graph.fresh = ⟨op, mode, b, inputs⟩ := by
  simp only [place, node_add, if_true]

lemma Defined.place (D : Defined s T) (S : Shape s) (ho : op ≠ .forward) :
    Defined (s.place b op mode inputs) T := D.later (S.grows_place ho) (fun _ _ => rfl) rfl rfl

lemma Entered.place (N : Entered s T busy) (S : Shape s) (D : Defined s T) (ho : op ≠ .forward) :
    Entered (s.place b op mode inputs) T busy :=
  N.later D (S.stays_place ho) (fun _ => node_place_old) (fun _ => rfl) fun _ => rfl

/-- A node is an old one, or the new one, or not there before or after. -/
lemma Builder.node_place_cases (s : Builder) (b : BlockId) (op : Op) (mode : Mode) (inputs : List NodeId) (n : NodeId) :
    (s.place b op mode inputs).graph.node n = s.graph.node n ∨ n = s.graph.fresh := by
  by_cases h : n.index = s.graph.nodes.size
  · right
    cases n
    subst h; rfl
  · left; simp [place, node_add, if_neg h]

lemma Strict.place (R : Strict s T busy) (S : Shape s) (ho : op ≠ .forward) (hp : op ≠ .phi)
    (hend : b ≠ endBlock) (hin : ∀ i ∈ inputs, AtHand s T b i) : Strict (s.place b op mode inputs) T busy := by
  have St : Stays s (s.place b op mode inputs) T T busy busy := S.stays_place ho
  refine ⟨fun n => ?_, fun c x v h => (R.written_ok c x v h).later St.grows St.entry_keep⟩
  rcases s.node_place_cases b op mode inputs n with hn | rfl
  · exact (R.node_ok n).later St hn id
  · have hn := s.node_place_new b op mode inputs
    refine ⟨fun h => ?_, fun h => ?_, fun _ _ i hi => ?_, ?_⟩ <;> rw [hn] at *
    · exact absurd h hp
    · exact (h.elim hp ho).elim
    · exact (hin i hi).later St.grows St.entry_keep
    · exact hend

lemma Inv.place (I : Inv strict s T busy) (hb : s.graph.HasBlock b) (ho : op ≠ .forward)
    (hstrict : strict → op ≠ .phi ∧ b ≠ endBlock ∧ ∀ i ∈ inputs, AtHand s T b i) :
    Inv strict (s.place b op mode inputs) T busy where
  shape := I.shape.place hb ho
  defined := I.defined.place I.shape ho
  entered := I.entered.place I.shape I.defined ho
  strictly h := (I.strictly h).place I.shape ho (hstrict h).1 (hstrict h).2.1 (hstrict h).2.2

end Place

/-! ## A new definition -/

section Define

variable {x : Var} {m : NodeId} {T' : Record}

lemma Shape.define (S : Shape s) : Shape (s.define b x n) where
  states_size := by rw [size_define]; exact S.states_size
  defs_size c hc := by rw [size_definitions_define]; exact S.defs_size c (by simpa using hc)
  blocks_pos := S.blocks_pos
  settled := S.settled
  node_block := S.node_block
  pred_ok := S.pred_ok
  start_preds := S.start_preds
  start_matured := by rw [isMatured_define]; exact S.start_matured

lemma Builder.lt_of_definition (h : s.definition? b x = some m) :
    b.index < s.states.size ∧ x < (s.state b).definitions.size := by
  unfold definition? at h
  have hx : x < (s.state b).definitions.size := by
    by_contra hx
    simp [Array.getElem?_eq_none (not_lt.1 hx)] at h
  refine ⟨?_, hx⟩
  by_contra hb
  have : s.state b = .empty 0 := by
    simp [state, Array.getD_eq_getD_getElem?, Array.getElem?_eq_none (not_lt.1 hb), Option.getD_none]
  rw [this] at hx
  simp [BlockState.empty] at hx

lemma Shape.in_range (S : Shape s) (hb : s.graph.HasBlock b) (hx : x ≤ s.varCount) :
    b.index < s.states.size ∧ x < (s.state b).definitions.size := by
  have hb' : b.index < s.states.size := by rwa [S.states_size]
  exact ⟨hb', by rw [S.defs_size b hb']; exact Nat.lt_succ_of_le hx⟩

lemma Builder.holds_redefine (hm : s.definition? b x = some m) (hs : s.graph.Same m n)
    (c : BlockId) (y : Var) (m' : NodeId) (h : s.definition? c y = some m') : (s.define b x n).Holds c y m' := by
  obtain ⟨hb, hx⟩ := lt_of_definition hm
  unfold Holds
  rw [s.definition?_define n hb hx]
  by_cases hc : c = b ∧ y = x
  · obtain ⟨rfl, rfl⟩ := hc
    rw [hm] at h
    cases h
    exact ⟨n, by simp, hs.symm⟩
  · exact ⟨m', by rwa [if_neg hc], .refl _ _⟩

lemma Shape.stays_define (S : Shape s) (hd : ∀ c y m', s.definition? c y = some m' → (s.define b x n).Holds c y m')
    (he : ∀ c y k, T.entry c y = some k → T'.entry c y = some k) : Stays s (s.define b x n) T T' busy busy where
  shape := S
  settled := S.settled
  grows := .refl _
  entry_keep := he
  closed c h := by rwa [Closed, isMatured_define]
  preds _ _ := rfl
  holds _ _ _ _ y m hm := hd _ y m hm

lemma Entered.define (N : Entered s T busy) (D : Defined s T) (St : Stays s (s.define b x n) T T busy busy) :
    Entered (s.define b x n) T busy :=
  N.later D St (fun _ _ => rfl) (s.isMatured_define b x n) (s.incomplete_define b x n)

lemma Defined.define (D : Defined s T) (hb : b.index < s.states.size)
    (hx : x < (s.state b).definitions.size) (hn : s.graph.Has n)
    (hw : ∀ c y, ¬ (c = b ∧ y = x) → T'.written c y = T.written c y)
    (he : ∀ c y, ¬ (c = b ∧ y = x) → T'.entry c y = T.entry c y) (hself : ∀ v, T'.written b x = some v → v = n)
    (hentry : T'.written b x = none → ∃ k, T'.entry b x = some k ∧ s.graph.Same n k)
    (hlt : ∀ k, T'.entry b x = some k → s.graph.Has k) : Defined (s.define b x n) T' := by
  have hdef := s.definition?_define n hb hx
  constructor <;> intro c y k h <;> by_cases hc : c = b ∧ y = x
  · rw [hdef, if_pos hc] at h
    cases h
    exact hn
  · rw [hdef, if_neg hc] at h; exact D.def_lt c y k h
  · obtain ⟨rfl, rfl⟩ := hc; rw [hdef, if_pos ⟨rfl, rfl⟩, hself k h]
  · rw [hdef, if_neg hc]; exact D.def_written c y k (hw c y hc ▸ h)
  · obtain ⟨rfl, rfl⟩ := hc
    rw [hdef, if_pos ⟨rfl, rfl⟩] at h
    cases h
    exact hentry
  · rw [hdef, if_neg hc] at h; rw [hw c y hc, he c y hc]; exact D.def_entry c y k h
  · exact ⟨n, by rw [hdef, if_pos hc]⟩
  · rw [hdef, if_neg hc]; exact D.entry_def c y k (he c y hc ▸ h)
  · obtain ⟨rfl, rfl⟩ := hc; exact hlt k h
  · exact D.entry_lt c y k (he c y hc ▸ h)

lemma Inv.redefine (I : Inv strict s T busy) (hm : s.definition? b x = some m) (hs : s.graph.Same m n)
    (hn : s.graph.Has n) (hw : T.written b x = none) : Inv strict (s.define b x n) T busy := by
  obtain ⟨hb, hx⟩ := lt_of_definition hm
  have D := I.defined
  have St : Stays s (s.define b x n) T T busy busy := I.shape.stays_define (holds_redefine hm hs) fun _ _ _ h => h
  refine ⟨I.shape.define, D.define hb hx hn (fun _ _ _ => rfl) (fun _ _ _ => rfl) (fun v hv => ?_) (fun hw => ?_)
    (D.entry_lt b x), I.entered.define D St, fun h => (I.strictly h).later St rfl rfl rfl⟩
  · simp [hw] at hv
  · obtain ⟨k, hk, hsk⟩ := D.def_entry b x m hm hw; exact ⟨k, hk, hs.symm.trans hsk⟩

def Record.enter (T : Record) (b : BlockId) (x : Var) (n : NodeId) : Record :=
  { T with entry := fun c y => if c = b ∧ y = x then some n else T.entry c y }

lemma Record.entry_enter (T : Record) (b : BlockId) (x : Var) (n : NodeId) (c : BlockId) (y : Var) :
    (T.enter b x n).entry c y = if c = b ∧ y = x then some n else T.entry c y := rfl

lemma Defined.of_none (D : Defined s T) (h : s.definition? b x = none) : T.entry b x = none ∧ T.written b x = none := by
  constructor
  · cases he : T.entry b x with
    | none => rfl
    | some n => obtain ⟨m, hm⟩ := D.entry_def b x n he; rw [h] at hm; cases hm
  · cases he : T.written b x with
    | none => rfl
    | some v => have := D.def_written b x v he; rw [h] at this; cases this

lemma Defined.entry_enter (D : Defined s T) (h : s.definition? b x = none) {c : BlockId} {y : Var} {k : NodeId}
    (he : T.entry c y = some k) : (T.enter b x n).entry c y = some k := by
  rw [Record.entry_enter, if_neg]
  · exact he
  · rintro ⟨rfl, rfl⟩; simp [(D.of_none h).1] at he

lemma Shape.holds_define (S : Shape s) (hb : s.graph.HasBlock b) (hx : x ≤ s.varCount)
    (h : s.definition? b x = none) (c : BlockId) (y : Var) (m' : NodeId) (hm : s.definition? c y = some m') :
    (s.define b x n).Holds c y m' := by
  obtain ⟨hb', hx'⟩ := S.in_range hb hx
  refine ⟨m', ?_, .refl _ _⟩
  rw [s.definition?_define n hb' hx', if_neg]
  · exact hm
  · rintro ⟨rfl, rfl⟩; simp [h] at hm

lemma Defined.defineEntry (D : Defined s T) (S : Shape s) (hb : s.graph.HasBlock b)
    (hx : x ≤ s.varCount) (h : s.definition? b x = none) (hn : s.graph.Has n) :
    Defined (s.define b x n) (T.enter b x n) := by
  obtain ⟨hb', hx'⟩ := S.in_range hb hx
  have hself : (T.enter b x n).entry b x = some n := if_pos ⟨rfl, rfl⟩
  refine D.define hb' hx' hn (fun _ _ _ => rfl) (fun _ _ hc => if_neg hc) (fun v hv => ?_)
    (fun _ => ⟨n, hself, .refl _ _⟩) fun k hk => ?_
  · cases (D.of_none h).2.symm.trans hv
  · cases hself.symm.trans hk
    exact hn

lemma Inv.defineEntry (I : Inv strict s T busy) (hb : s.graph.HasBlock b) (hx : x ≤ s.varCount)
    (h : s.definition? b x = none) (hn : s.graph.Has n) (hm : Closed s busy b)
    (ha : Agrees (s.define b x n) b x n) : Inv strict (s.define b x n) (T.enter b x n) busy := by
  have D := I.defined
  have hold := I.shape.holds_define (n := n) hb hx h
  have N := I.entered.define D (I.shape.stays_define hold fun _ _ _ h => h)
  have St : Stays s (s.define b x n) T (T.enter b x n) busy busy := I.shape.stays_define hold fun _ _ _ =>
    D.entry_enter h
  refine ⟨I.shape.define, D.defineEntry I.shape hb hx h hn, ⟨fun c y k hk => ?_, fun k y hk => ?_,
    N.incomplete_iff, N.incomplete_nodup, N.matured_incomplete⟩, fun hs => (I.strictly hs).later St rfl rfl rfl⟩
  · rw [Record.entry_enter] at hk
    split at hk
    · rename_i hc
      obtain ⟨rfl, rfl⟩ := hc
      cases hk
      exact .inr ⟨St.closed _ hm, ha⟩
    · exact N.entry_ok c y k hk
  · obtain ⟨h1, h2, h3, h4⟩ := N.waiting_ok k y hk; exact ⟨h1, h2, h3, D.entry_enter h h4⟩

end Define

/-! ## A change of a block's bookkeeping -/

lemma Inv.modifyState (I : Inv strict s T busy) (hb : s.graph.HasBlock b)
    (hd : ∀ state, (f state).definitions = state.definitions)
    (hmat : s.isMatured b = true → (f (s.state b)).matured = true)
    (hclosing : ∀ c, busy.closing = some c → busy'.closing = some c ∨ c = b ∧ (f (s.state b)).matured = true)
    (hi : ∀ y n, (y, n) ∈ (f (s.state b)).incomplete ↔
      T.waiting n = some y ∧ (s.graph.node n).block = b ∧ ¬ busy'.phis n)
    (hp : ∀ y n, T.waiting n = some y → (s.graph.node n).block ≠ b → (busy'.phis n ↔ busy.phis n))
    (hnd : (f (s.state b)).incomplete.Nodup)
    (hm : (f (s.state b)).matured = true → (f (s.state b)).incomplete = []) :
    Inv strict (s.modifyState b f) T busy' := by
  have S := I.shape
  have D := I.defined
  have N := I.entered
  have hself : (s.modifyState b f).state b = f (s.state b) := by
    rw [state_modifyState, if_pos ⟨rfl, S.states_size ▸ hb⟩]
  have hother : ∀ c, c ≠ b → (s.modifyState b f).state c = s.state c := by
    intro c hc
    rw [state_modifyState, if_neg fun h => hc h.1]
  have hdef := s.definition?_modifyState b hd
  have hmatured : ∀ c, s.isMatured c = true → (s.modifyState b f).isMatured c = true := by
    intro c hc
    rw [isMatured]
    by_cases hcb : c = b
    · subst hcb; rw [hself]; exact hmat hc
    · rwa [hother c hcb]
  have hc : ∀ c, Closed s busy c → Closed (s.modifyState b f) busy' c := by
    rintro c (hc | hc)
    · exact .inl (hmatured c hc)
    · rcases hclosing c hc with hc | ⟨rfl, hc⟩
      · exact .inr hc
      · exact .inl (by rw [isMatured, hself, hc])
  have St : Stays s (s.modifyState b f) T T busy busy' := ⟨S, S.settled, .refl _, fun _ _ _ h => h, hc, fun _ _ => rfl,
    fun _ _ _ _ y m hm => ⟨m, by rwa [hdef], .refl _ _⟩⟩
  refine ⟨⟨?_, fun c hc' => ?_, S.blocks_pos, S.settled, S.node_block, S.pred_ok, S.start_preds,
    hmatured _ S.start_matured⟩, D.later (.refl _) hdef rfl rfl,
    ⟨fun c y k h => ?_, N.waiting_ok, fun c y n => ?_, fun c => ?_, fun c hc => ?_⟩,
    fun h => (I.strictly h).later St rfl rfl rfl⟩
  · rw [size_modifyState]; exact S.states_size
  · rw [s.definitions_modifyState b hd]; exact S.defs_size c (by simpa using hc')
  · exact (N.entry_ok c y k h).imp_right fun ⟨h1, h2⟩ => ⟨hc c h1, h2.later St (D.entry_lt c y k h) h1⟩
  all_goals by_cases hcb : c = b
  · rw [hcb, hself]; exact hi y n
  · rw [hother c hcb]
    refine (N.incomplete_iff c y n).trans (and_congr_right fun hw => and_congr_right fun hn => not_congr ?_)
    exact (hp y n hw (hn ▸ hcb)).symm
  · rwa [hcb, hself]
  · rw [hother c hcb]; exact N.incomplete_nodup c
  · subst hcb; rw [isMatured, hself] at hc; rw [hself]; exact hm hc
  · rw [isMatured, hother c hcb] at hc; rw [hother c hcb]; exact N.matured_incomplete c hc

/-! ## Phis that wait -/

def Record.await (T : Record) (b : BlockId) (x : Var) (p : NodeId) : Record :=
  { T.enter b x p with waiting := fun n => if n = p then some x else T.waiting n }

def Busy.take (busy : Busy) (p : NodeId) : Busy := { busy with phis := fun n => n = p ∨ busy.phis n }

def Busy.drop (busy : Busy) (p : NodeId) : Busy := { busy with phis := fun n => n ≠ p ∧ busy.phis n }

section Await

variable {x : Var} {mode : Mode}

def Builder.awaited (s : Builder) (b : BlockId) (x : Var) (mode : Mode) : Builder :=
  (s.place b .phi mode []).define b x s.graph.fresh

@[simp]
lemma Builder.node_awaited (s : Builder) (b : BlockId) (x : Var) (mode : Mode) :
    (s.awaited b x mode).graph.node s.graph.fresh = ⟨.phi, mode, b, []⟩ := s.node_place_new b .phi mode []

section

variable (hb : s.graph.HasBlock b) (hx : x ≤ s.varCount) (h : s.definition? b x = none)

include hb hx h

lemma Entered.await (N : Entered s T busy) (S : Shape s) (D : Defined s T) :
    Entered (s.awaited b x mode) (T.await b x s.graph.fresh) (busy.take s.graph.fresh) := by
  have N1 : Entered (s.place b .phi mode []) T busy := N.place S D (by simp)
  have S1 : Shape (s.place b .phi mode []) := S.place hb (by simp)
  have D1 : Defined (s.place b .phi mode []) T := D.place S (by simp)
  have N2 := N1.define D1 (S1.stays_define (S1.holds_define (n := s.graph.fresh) hb hx h) fun _ _ _ h => h)
  have hnew := s.node_awaited b x mode
  have hold : ∀ k y, T.waiting k = some y → k ≠ s.graph.fresh := by
    rintro k y hk rfl; exact lt_irrefl _ (N.waiting_ok _ y hk).1
  refine ⟨fun c y k hk => ?_, fun k y hk => ?_, fun c y k => ?_, N2.incomplete_nodup, N2.matured_incomplete⟩
  · simp only [Record.await, Record.entry_enter] at hk ⊢
    split at hk
    · rename_i hc
      obtain ⟨rfl, rfl⟩ := hc
      cases hk
      exact .inl ⟨by simp, by rw [hnew]⟩
    · refine (N2.entry_ok c y k hk).imp_left fun ⟨hw, hbl⟩ => ⟨?_, hbl⟩; rwa [if_neg (hold k y hw)]
  · simp only [Record.await] at hk ⊢
    split at hk
    · rename_i hk'
      subst hk'
      cases hk
      rw [hnew]
      exact ⟨by simp [Builder.awaited, Builder.place], rfl, rfl, by simp [Record.entry_enter]⟩
    · obtain ⟨h1, h2, h3, h4⟩ := N2.waiting_ok k y hk; exact ⟨h1, h2, h3, D.entry_enter h h4⟩
  · refine (N2.incomplete_iff c y k).trans ?_
    simp only [Record.await, Busy.take]
    constructor
    · rintro ⟨hw, hbl, hnb⟩
      have hne := hold k y hw; exact ⟨by rwa [if_neg hne], hbl, by simp [hne, hnb]⟩
    · rintro ⟨hw, hbl, hnb⟩
      simp only [not_or] at hnb
      rw [if_neg hnb.1] at hw; exact ⟨hw, hbl, hnb.2⟩

lemma Strict.await (R : Strict s T busy) (S : Shape s) (D : Defined s T) (hend : b ≠ endBlock) :
    Strict (s.awaited b x mode) (T.await b x s.graph.fresh) (busy.take s.graph.fresh) := by
  have S1 : Shape (s.place b .phi mode []) := S.place hb (by simp)
  have G : s.graph.Grows (s.awaited b x mode).graph := S.grows_place (by simp)
  have St : Stays s (s.awaited b x mode) T (T.await b x s.graph.fresh) busy (busy.take s.graph.fresh) :=
    ⟨S, S1.settled, G, fun _ _ _ => D.entry_enter h, fun c hc => by
      rwa [Closed, awaited, isMatured_define], fun _ _ => rfl, fun _ _ _ _ y m hm => S1.holds_define
        (n := s.graph.fresh) hb hx h _ y m hm⟩
  refine ⟨fun n => ?_, fun c y v hv => (R.written_ok c y v hv).later St.grows St.entry_keep⟩
  rcases s.node_place_cases b .phi mode [] n with hn | rfl
  · refine (R.node_ok n).later St hn fun hw => ?_
    simp only [Record.await]
    split
    · rfl
    · exact hw
  · have hn := s.node_awaited b x mode
    refine ⟨fun _ => .inl (by simp [Record.await]), fun _ => ?_, fun h1 => ?_, ?_⟩ <;> rw [hn] at *
    · exact ⟨x, s.graph.fresh, by simp [Record.await, Record.entry_enter], .refl _ _⟩
    · exact absurd rfl h1
    · exact hend

lemma Inv.await (I : Inv strict s T busy) (mode : Mode) (hend : strict → b ≠ endBlock) :
    Inv strict (s.awaited b x mode) (T.await b x s.graph.fresh) (busy.take s.graph.fresh) := by
  have S : Shape (s.place b .phi mode []) := I.shape.place hb (by simp)
  have D0 : Defined (s.place b .phi mode []) T := I.defined.place I.shape (by simp)
  have D := D0.defineEntry (n := s.graph.fresh) S hb hx h (by simp [Builder.place])
  exact ⟨S.define, ⟨D.def_lt, D.def_written, D.def_entry, D.entry_def, D.entry_lt⟩,
    I.entered.await hb hx h I.shape I.defined, fun hs => (I.strictly hs).await hb hx h I.shape I.defined (hend hs)⟩

end

lemma Inv.park {p : NodeId} (I : Inv strict s T busy) (hw : T.waiting p = some x)
    (hbl : (s.graph.node p).block = b) (hp : busy.phis p) (hm : s.isMatured b = false) :
    Inv strict (s.modifyState b fun state => state.addIncomplete x p) T (busy.drop p) := by
  have N := I.entered
  have hb : s.graph.HasBlock b := hbl ▸ I.shape.node_block p
  refine I.modifyState hb (fun _ => rfl) id (fun _ => .inl) (fun y k => ?_) (fun y k _ hk => ?_) ?_ fun hc => ?_
  · rw [BlockState.addIncomplete, mem_cons, N.incomplete_iff b y k]
    constructor
    · rintro (h | ⟨h1, h2, h3⟩)
      · cases h
        exact ⟨hw, hbl, by simp [Busy.drop]⟩
      · exact ⟨h1, h2, fun h => h3 h.2⟩
    · rintro ⟨h1, h2, h3⟩
      by_cases hk : k = p
      · subst hk
        rw [hw] at h1
        cases h1
        exact .inl rfl
      · exact .inr ⟨h1, h2, fun h => h3 ⟨hk, h⟩⟩
  · have hkp : k ≠ p := by rintro rfl; exact hk hbl
    simp [Busy.drop, hkp]
  · exact nodup_cons.2 ⟨fun h => ((N.incomplete_iff b x p).1 h).2.2 hp, N.incomplete_nodup b⟩
  · cases hm.symm.trans hc

end Await

/-! ## Phis that get their operands -/

def Record.settle (T : Record) (p : NodeId) : Record :=
  { T with waiting := fun n => if n = p then none else T.waiting n }

section Settle

variable {x : Var} {p : NodeId}

lemma Shape.stays_settle (S : Shape s) (S' : g'.Settled) (G : s.graph.Grows g') (hbl : g'.blocks = s.graph.blocks) :
    Stays s { s with graph := g' } T (T.settle p) busy (busy.drop p) where
  shape := S
  settled := S'
  grows := G
  entry_keep _ _ _ h := h
  closed _ h := h
  preds c _ := by simp [preds, block, hbl]
  holds _ _ _ _ _ m hm := ⟨m, hm, .refl _ _⟩

lemma Entered.settle (N : Entered s T busy) (D : Defined s T)
    (St : Stays s { s with graph := g' } T (T.settle p) busy (busy.drop p))
    (hn : ∀ n, n ≠ p → g'.node n = s.graph.node n) (hsz : g'.nodes.size = s.graph.nodes.size)
    (hw : T.waiting p = some x) (hb : (s.graph.node p).block = b) (hp : busy.phis p) (hm : Closed s busy b)
    (ha : Agrees { s with graph := g' } b x p) : Entered { s with graph := g' } (T.settle p) (busy.drop p) := by
  have hne : ∀ k y, (T.settle p).waiting k = some y → k ≠ p ∧ T.waiting k = some y := by
    intro k y h
    simp only [Record.settle] at h
    split at h
    · cases h
    · exact ⟨by assumption, h⟩
  refine ⟨fun c y k h => ?_, fun k y h => ?_, fun c y k => ?_, N.incomplete_nodup, N.matured_incomplete⟩
  · by_cases hk : k = p ∧ y = x ∧ c = b
    · obtain ⟨rfl, rfl, rfl⟩ := hk; exact .inr ⟨hm, ha⟩
    · rcases N.entry_ok c y k h with ⟨h1, h2⟩ | ⟨h1, h2⟩
      · have hkp : k ≠ p := by
          rintro rfl
          rw [hw] at h1
          cases h1
          exact hk ⟨rfl, rfl, h2.symm.trans hb⟩
        exact .inl ⟨by simp only [Record.settle, if_neg hkp]; exact h1, by rwa [hn k hkp]⟩
      · exact .inr ⟨h1, h2.later St (D.entry_lt c y k h) h1⟩
  · obtain ⟨hkp, hk⟩ := hne k y h
    obtain ⟨h1, h2⟩ := N.waiting_ok k y hk
    rw [hn k hkp]; exact ⟨by rwa [hsz], h2⟩
  · refine (N.incomplete_iff c y k).trans ?_
    by_cases hkp : k = p
    · subst hkp
      simp only [Record.settle, if_true, reduceCtorEq, false_and, iff_false, not_and, not_not]
      exact fun _ _ => hp
    · simp [Record.settle, Busy.drop, hn k hkp, hkp]

lemma Shape.settle (S : Shape s) (S' : g'.Settled) (hbl : g'.blocks = s.graph.blocks)
    (hsz : g'.nodes.size = s.graph.nodes.size) (hn : ∀ n, n ≠ p → g'.node n = s.graph.node n)
    (hb : (g'.node p).block = (s.graph.node p).block) (hp : (s.graph.node p).op = .phi) :
    Shape { s with graph := g' } where
  states_size := by rw [hbl]; exact S.states_size
  defs_size := S.defs_size
  blocks_pos := by rw [hbl]; exact S.blocks_pos
  settled := S'
  node_block n := by
    rw [hbl]
    by_cases h : n = p
    · rw [h, hb]; exact S.node_block p
    · rw [hn n h]; exact S.node_block n
  pred_ok c e he := by
    have he' : e ∈ s.preds c := by simpa only [preds, block, hbl] using he
    obtain ⟨h1, h2⟩ := S.pred_ok c e he'
    have hep : e ≠ p := by rintro rfl; exact h2.1 hp
    rw [hn e hep, hsz]; exact ⟨h1, h2⟩
  start_preds := by
    show (g'.block startBlock).preds = []; simp only [block, hbl]; exact S.start_preds
  start_matured := S.start_matured

lemma Strict.settle (R : Strict s T busy) (N : Entered s T busy)
    (St : Stays s { s with graph := g' } T (T.settle p) busy (busy.drop p))
    (hn : ∀ n, n ≠ p → g'.node n = s.graph.node n) (hw : T.waiting p = some x)
    (hphi : (g'.node p).op = .phi → Closed s busy (s.graph.node p).block ∧ Merged { s with graph := g' } x p) :
    Strict { s with graph := g' } (T.settle p) (busy.drop p) := by
  obtain ⟨hlt, hop, -, hent⟩ := N.waiting_ok p x hw
  refine ⟨fun n => ?_, fun c y v h => (R.written_ok c y v h).later St.grows St.entry_keep⟩
  by_cases hnp : n = p
  · subst hnp
    have hb : (g'.node n).block = (s.graph.node n).block := St.grows.block n hlt
    refine ⟨fun h => .inr ?_, fun _ => ?_, fun h1 h2 => ?_, ?_⟩
    · rw [hb]; exact ⟨(hphi h).1, x, (hphi h).2⟩
    · rw [hb]; exact ⟨x, n, hent, .refl _ _⟩
    · exact ((St.grows.phi n hlt hop).elim h1 h2).elim
    · rw [hb]; exact (R.node_ok n).not_end
  · refine (R.node_ok n).later St (hn n hnp) fun h => ?_
    simp only [Record.settle, if_neg hnp]; exact h

def Builder.filled (s : Builder) (p : NodeId) (inputs : List NodeId) : Builder :=
  { s with graph := s.graph.setNode p { s.graph.node p with inputs } }

def Builder.replaced (s : Builder) (p w : NodeId) : Builder := { s with graph := s.graph.exchange p w }

section

variable (I : Inv strict s T busy) (hw : T.waiting p = some x) (hb : (s.graph.node p).block = b) (hp : busy.phis p)
  (hm : Closed s busy b)

include I hw hb hp hm

lemma Inv.fill {inputs : List NodeId} (h0 : 1 < (s.preds b).length)
    (hi : Forall₂ (fun i e => s.Holds (s.graph.predBlock e) x i) inputs (s.preds b)) :
    Inv strict (s.filled p inputs) (T.settle p) (busy.drop p) := by
  obtain ⟨hlt, hop, hin, -⟩ := I.entered.waiting_ok p x hw
  have hf : (s.graph.node p).op ≠ .forward := by simp [hop]
  let v : Node := { s.graph.node p with inputs }
  let g' := s.graph.setNode p v
  have hnode : ∀ n, g'.node n = if n = p then v else s.graph.node n := by
    intro n
    rw [node_setNode]; simp [hlt]
  have hn : ∀ n, n ≠ p → g'.node n = s.graph.node n := fun n h => by rw [hnode, if_neg h]
  have hself : g'.node p = v := by rw [hnode, if_pos rfl]
  have S' : g'.Settled := I.shape.settled.setNode hf hf
  have G : s.graph.Grows g' := .fill I.shape.settled hop hin inputs
  have St : Stays s { s with graph := g' } T (T.settle p) busy (busy.drop p) := I.shape.stays_settle S' G rfl
  have hM : Merged { s with graph := g' } x p := by
    refine ⟨by rwa [hself], by rw [hself]; rwa [hb], ?_⟩
    rw [hself, show v.block = b from hb]
    exact forall₂_iff_get.2 ⟨hi.length_eq, fun k h1 h2 =>
      St.holds_pred hm (get_mem _ _) ((forall₂_iff_get.1 hi).2 k h1 h2)⟩
  exact ⟨I.shape.settle S' rfl (by simp) hn (by rw [hself]) hop, I.defined.later G (fun _ _ => rfl) rfl rfl,
    I.entered.settle I.defined St hn (by simp) hw hb hp hm (.merged (by rwa [hself]) hM),
    fun h => (I.strictly h).settle I.entered St hn hw fun _ => ⟨by rwa [hb], hM⟩⟩

lemma Inv.replace {w : NodeId} (hwlt : s.graph.Has w) (hwf : (s.graph.node w).op ≠ .forward)
    (hne : p ≠ w) (hall : ∀ e ∈ s.preds b, s.Holds (s.graph.predBlock e) x p ∨ s.Holds (s.graph.predBlock e) x w)
    (h0 : s.preds b = [] → (s.graph.node w).op = .unknown ∧ (s.graph.node w).block = b) :
    Inv strict (s.replaced p w) (T.settle p) (busy.drop p) ∧ (s.replaced p w).graph.Same p w := by
  obtain ⟨hlt, hop, hin, -⟩ := I.entered.waiting_ok p x hw
  have hf : (s.graph.node p).op ≠ .forward := by simp [hop]
  let g' := s.graph.exchange p w
  have hnode := node_exchange (g := s.graph) hne hlt
  have hn : ∀ n, n ≠ p → g'.node n = s.graph.node n := fun n h => by rw [hnode, if_neg h]
  have S' : g'.Settled := I.shape.settled.exchange hne hlt hwlt hf hwf
  have G : s.graph.Grows g' := (Graph.Grows.refl _).exchange I.shape.settled hop hin hop hlt hne hwlt hwf
  have St : Stays s { s with graph := g' } T (T.settle p) busy (busy.drop p) := I.shape.stays_settle S' G (by simp [g'])
  have hr := I.shape.settled.resolve_exchange hne hlt hwlt hf hwf
  have hrw : g'.resolve w = w := S'.resolve_of_op (by rwa [hn w (Ne.symm hne)])
  have hpw : g'.Same p w := by
    show g'.resolve p = g'.resolve w
    rw [hrw, hr, I.shape.settled.resolve_of_op hf, if_pos rfl]
  refine ⟨⟨I.shape.settle S' (by simp) (by simp) hn (by rw [hnode, if_pos rfl]) hop,
    I.defined.later G (fun _ _ => rfl) rfl rfl,
    I.entered.settle I.defined St hn (by simp) hw hb hp hm ?_,
    fun h => (I.strictly h).settle I.entered St hn hw fun h => ?_⟩, hpw⟩
  · by_cases hnil : s.preds b = []
    · obtain ⟨h1, h2⟩ := h0 hnil
      have e : g'.resolve p = w := by rw [hpw, hrw]
      exact .nothing (by rw [St.preds b hm, hnil]) (by rw [e, hn w (Ne.symm hne), h1])
        (by rw [e, hn w (Ne.symm hne), h2])
    · refine .same (by rwa [St.preds b hm]) fun e he => ?_
      rw [St.preds b hm] at he
      rcases hall e he with h | h
      · exact St.holds_pred hm he h
      · exact (St.holds_pred hm he h).same hpw.symm
  · have : (g'.node p).op = .forward := by rw [hnode, if_pos rfl]
    rw [this] at h; cases h

end

end Settle

end JvmGraph.Ssa
