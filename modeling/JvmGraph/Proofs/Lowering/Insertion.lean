import JvmGraph.Proofs.Lowering.Rework
import JvmGraph.Proofs.Steps

/-!
# What lowering puts in

The nodes that lowering puts in stand in the block of the node that they are for, or in the start block. Those that
touch memory form a thread there, from the memory state that they are given to the one that they yield.
-/

namespace JvmGraph

open Steps List JvmGraph.Graph Projection

variable {α β : Type} {i : Inserted} {op : Op} {inputs : List NodeId} {count : NodeId}
  {c : BlockId} {a : α} {mode : Mode}

/-- Operations that neither touch memory nor hand it on, nor have to be lowered. -/
def Op.isInert (op : Op) : Bool := op.isLowered && op ≠ .forward && !op.leavesMemory && op ≠ .proj Projection.memory

/-! ## Uses -/

namespace Graph

variable {g : Graph} {n x : NodeId}

def projectionOf (g : Graph) (i : Nat) (x : NodeId) : Option (NodeId × Nat) :=
  match g.node x with
  | ⟨.proj number, _, _, tuple :: _⟩ => if tuple.index = i then some (x, number) else none
  | _ => none

def callsThrough (g : Graph) (i : Nat) (x : NodeId) : Bool :=
  match g.node x with
  | ⟨.call, _, _, _ :: code :: _⟩ => (g.resolve code).index = i
  | _ => false

lemma noteUse_projections (g : Graph) (x : NodeId) (u : Uses) {i : Nat} (hi : i < u.projections.size) :
    (g.noteUse x u).projections.size = u.projections.size ∧
      (g.noteUse x u).projections.getD i [] = (g.projectionOf i x).toList ++ u.projections.getD i [] := by
  unfold noteUse projectionOf
  split
  · rename_i number _ _ tuple _ hx
    rw [Arrays.getD_modify]
    by_cases ht : tuple.index = i
    · simp [hx, ht, hi]
    · simp [hx, ht, Ne.symm ht]
  · rename_i hx; simp [hx]
  · rename_i h1 h2
    refine ⟨rfl, ?_⟩
    split
    · rename_i hx; exact absurd hx (h1 _ _ _ _ _)
    · rfl

lemma noteUse_calls (g : Graph) (x : NodeId) (u : Uses) {i : Nat} (hi : i < u.calls.size) :
    (g.noteUse x u).calls.size = u.calls.size ∧
      (g.noteUse x u).calls.getD i [] = ([x].filter (g.callsThrough i)) ++ u.calls.getD i [] := by
  unfold noteUse callsThrough
  split
  · rename_i hx; simp [hx]
  · rename_i code _ hx
    rw [Arrays.getD_modify]
    by_cases ht : (g.resolve code).index = i
    · simp [ht, hi, hx]
    · simp [ht, hx, Ne.symm ht]
  · rename_i h1 h2
    refine ⟨rfl, ?_⟩
    rw [filter_singleton]
    split
    · rename_i hx; exact absurd hx (h2 _ _ _ _ _)
    · rfl

lemma foldr_noteUse_projections (g : Graph) (u : Uses) {i : Nat} (hi : i < u.projections.size) : ∀ xs : List NodeId,
    (xs.foldr g.noteUse u).projections.size = u.projections.size ∧
      (xs.foldr g.noteUse u).projections.getD i [] = xs.filterMap (g.projectionOf i) ++ u.projections.getD i []
  | [] => ⟨rfl, rfl⟩
  | x :: xs => by
    obtain ⟨hs, he⟩ := foldr_noteUse_projections g u hi xs
    obtain ⟨hs', he'⟩ := noteUse_projections g x (xs.foldr g.noteUse u) (hs.symm ▸ hi)
    refine ⟨hs'.trans hs, ?_⟩
    rw [foldr_cons, he', he, filterMap_cons]; cases g.projectionOf i x <;> rfl

lemma foldr_noteUse_calls (g : Graph) (u : Uses) {i : Nat} (hi : i < u.calls.size) : ∀ xs : List NodeId,
    (xs.foldr g.noteUse u).calls.size = u.calls.size ∧
      (xs.foldr g.noteUse u).calls.getD i [] = xs.filter (g.callsThrough i) ++ u.calls.getD i []
  | [] => ⟨rfl, rfl⟩
  | x :: xs => by
    obtain ⟨hs, he⟩ := foldr_noteUse_calls g u hi xs
    obtain ⟨hs', he'⟩ := noteUse_calls g x (xs.foldr g.noteUse u) (hs.symm ▸ hi)
    refine ⟨hs'.trans hs, ?_⟩
    simp [he', he, ← append_assoc, ← filter_append]

lemma projections_uses (hn : g.Has n) :
    g.uses.projections.getD n.index [] = g.liveNodes.filterMap (g.projectionOf n.index) := by
  have h := (foldr_noteUse_projections g ⟨.replicate g.nodes.size [], Array.replicate g.nodes.size []⟩
    (i := n.index) (by simpa using hn) g.liveNodes).2
  rw [uses, h]
  simp [hn]

lemma calls_uses (hn : g.Has n) :
    g.uses.calls.getD n.index [] = g.liveNodes.filter (g.callsThrough n.index) := by
  have h := (foldr_noteUse_calls g ⟨.replicate g.nodes.size [], Array.replicate g.nodes.size []⟩
    (i := n.index) (by simpa using hn) g.liveNodes).2
  rw [uses, h]
  simp [hn]

lemma projectionOf_eq_some {y : NodeId × Nat} : g.projectionOf n.index x = some y ↔
    y.1 = x ∧ (g.node x).op = .proj y.2 ∧ (g.node x).inputs.head? = some n := by
  unfold projectionOf
  obtain ⟨k, number⟩ := y
  constructor
  · intro h
    split at h
    · rename_i hx
      split at h
      · rename_i ht
        cases h
        rw [hx]; exact ⟨rfl, rfl, congrArg (fun i => some (NodeId.mk i)) ht⟩
      · cases h
    · cases h
  · rintro ⟨rfl, ho, hi⟩
    generalize hnode : g.node k = node at ho hi
    obtain ⟨op, mode, block, inputs⟩ := node
    cases inputs with
    | nil => cases hi
    | cons t rest =>
      cases hi
      obtain rfl : op = .proj number := ho; simp

lemma callsThrough_iff : g.callsThrough n.index x = true ↔
    (g.node x).op = .call ∧ ∃ h a rest, (g.node x).inputs = h :: a :: rest ∧ g.resolve a = n := by
  unfold callsThrough
  constructor
  · intro h
    split at h
    · rename_i hx; rw [hx]; exact ⟨rfl, _, _, _, rfl, congrArg NodeId.mk (of_decide_eq_true h)⟩
    · cases h
  · rintro ⟨ho, m, a, rest, hi, hr⟩
    generalize hnode : g.node x = node at ho hi
    obtain ⟨op, mode, block, inputs⟩ := node
    obtain rfl : op = .call := ho
    obtain rfl : inputs = m :: a :: rest := hi; simp [hr]

lemma mem_liveNodes : x ∈ g.liveNodes ↔
    g.Has x ∧ (g.node x).op ≠ .forward ∧ (g.block (g.node x).block).dead = false := by
  have hids : x ∈ g.nodeIds ↔ g.Has x := by obtain ⟨i⟩ := x; simp [nodeIds]
  rw [liveNodes, mem_filter, hids]
  simp [isLive]

lemma nodup_liveNodes (g : Graph) : g.liveNodes.Nodup := by
  refine .filter _ (.map (fun a b h => ?_) nodup_range)
  exact congrArg NodeId.index h

/-! ## Threads that are put in -/

/-- The nodes of `C` are changed, and others put in, in block `b` and in the start block: those that touch memory are
`ks`, which lead from the state `m` to the state `p`. -/
structure Patch (g g' : Graph) (C : NodeId → Prop) (b : BlockId) (m : NodeId) (ks : List NodeId) (p : NodeId) :
    Prop where
  size_le : g.nodes.size ≤ g'.nodes.size
  blocks : g'.blocks = g.blocks
  keep : ∀ x : NodeId, x.index < g.nodes.size → ¬ C x → g'.node x = g.node x
  old : ∀ x, C x → g.Reworkable x
  changed : ∀ x, C x → (g'.node x).op.isLowered = true ∧ (g'.node x).op ≠ .forward ∧
    (g'.node x).op ≠ .proj Projection.memory ∧
    (g'.node x).block = (g.node x).block
  fresh : ∀ x : NodeId, g.nodes.size ≤ x.index → (g'.node x).op.isLowered = true ∧ (g'.node x).op ≠ .forward ∧
    ((g'.node x).block = b ∨ (g'.node x).block = startBlock)
  tuple : ∀ x : NodeId, g.nodes.size ≤ x.index → (g'.node x).op = .proj Projection.memory →
    ∀ t ∈ (g'.node x).inputs, g.nodes.size ≤ t.index
  thread : g'.Thread id b m ks p
  nodup : ks.Nodup
  new : ∀ k ∈ ks, g.nodes.size ≤ k.index
  complete : ∀ x : NodeId, g.nodes.size ≤ x.index → (g'.node x).op.leavesMemory = true → x ∈ ks

abbrev Spun (g g' : Graph) (b : BlockId) (m : NodeId) (ks : List NodeId) (p : NodeId) : Prop :=
  Patch g g' (fun _ => False) b m ks p

namespace Patch

variable {g' g'' : Graph} {b : BlockId} {m p q : NodeId} {ks js : List NodeId}

lemma grown (S : Spun g g' b m ks p) : g.Extends g' := ⟨S.size_le, fun x hx => S.keep x hx id⟩

lemma refl (g : Graph) (b : BlockId) (m : NodeId) : Spun g g b m [] m := by
  refine ⟨le_refl _, rfl, fun _ _ _ => rfl, fun _ h => h.elim, fun _ h => h.elim, fun n h1 => ?_,
    fun n h1 h2 => ?_, rfl, .nil,
    nofun, fun _ h1 h2 => absurd (lt_of_leaves h2) (by omega)⟩
  · rw [node_of_le h1]; exact ⟨rfl, by simp, .inr rfl⟩
  · simp [node_of_le h1] at h2

lemma trans (S : Spun g g' b m ks p) (S' : Spun g' g'' b p js q) : Spun g g'' b m (ks ++ js) q := by
  have E := S.grown.trans S'.grown
  refine ⟨E.size_le, S'.blocks.trans S.blocks, fun x hx _ => E.keep x hx, fun _ h => h.elim, fun _ h => h.elim,
    fun n h1 => ?_,
    fun n h1 h2 t ht => ?_, (S.thread.keep S'.grown).append S'.thread,
    nodup_append.2 ⟨S.nodup, S'.nodup, fun k hk j hj => ?_⟩, fun k hk => ?_, fun n h1 h2 => ?_⟩
  · by_cases hn : g'.Has n
    · rw [S'.keep n hn id]; exact S.fresh n h1
    · exact S'.fresh n (by omega)
  · by_cases hn : g'.Has n
    · rw [S'.keep n hn id] at h2 ht; exact S.tuple n h1 h2 t ht
    · exact le_trans S.size_le (S'.tuple n (not_lt.1 hn) h2 t ht)
  · rintro rfl; exact absurd (lt_of_leaves (S.thread.mem_op k hk).2) (not_lt.2 (S'.new k hj))
  · rcases mem_append.1 hk with hk | hk
    · exact S.new k hk
    · exact le_trans S.size_le (S'.new k hk)
  · by_cases hn : g'.Has n
    · rw [S'.keep n hn id] at h2; exact mem_append_left _ (S.complete n h1 h2)
    · exact mem_append_right _ (S'.complete n (by omega) h2)

lemma add (mode : Mode) (inputs : List NodeId) (m : NodeId) (hc : c = b ∨ c = startBlock)
    (ho : op.isInert = true) : Spun g (g.add c op mode inputs).2 b m [] m := by
  simp only [Op.isInert, Bool.and_eq_true, decide_eq_true_eq, Bool.not_eq_true'] at ho
  obtain ⟨⟨⟨ho, hf⟩, hl⟩, hp⟩ := ho
  have E := Extends.add g c op mode inputs
  have hnew : ∀ n, g.nodes.size ≤ n.index →
      (g.add c op mode inputs).2.node n = ⟨op, mode, c, inputs⟩ ∨
        (g.add c op mode inputs).2.node n = ⟨.bad, .tuple, startBlock, []⟩ := by
    intro n h
    rw [node_add]
    split
    · exact .inl rfl
    · exact .inr (node_of_le h)
  refine ⟨E.size_le, rfl, fun x hx _ => E.keep x hx, fun _ h => h.elim, fun _ h => h.elim, fun n h1 => ?_,
    fun n h1 h2 => ?_, rfl, .nil,
    nofun, fun n h1 h2 => ?_⟩ <;> rcases hnew n h1 with h | h
  · rw [h]; exact ⟨ho, hf, hc⟩
  · rw [h]; exact ⟨rfl, by simp, .inr rfl⟩
  · rw [h] at h2; exact absurd h2 hp
  · simp [h] at h2
  · simp [h, hl] at h2
  · rw [h] at h2; cases h2

lemma touch (m : NodeId) (inputs : List NodeId) (ho : op.isLowered = true) (hl : op.leavesMemory = true) :
    Spun g (g.touched b op m inputs) b m [g.fresh] ⟨g.nodes.size + 1⟩ := by
  have hf : op ≠ .forward := by rintro rfl; cases hl
  have E := g.extends_touched b op m inputs
  refine ⟨E.size_le, rfl, fun x hx _ => E.keep x hx, fun _ h => h.elim, fun _ h => h.elim, fun n h1 => ?_,
    fun n h1 h2 t ht => ?_,
    .single (takes_touched b op m inputs hl) (leaves_touched b op m inputs), nodup_singleton _,
    fun k hk => by rw [mem_singleton.1 hk], fun n h1 h2 => ?_⟩
  · rw [node_touched]
    split
    · exact ⟨rfl, by simp, .inl rfl⟩
    · split
      · exact ⟨ho, hf, .inl rfl⟩
      · rw [node_of_le h1]; exact ⟨rfl, by simp, .inr rfl⟩
  · rw [node_touched] at h2 ht
    split at h2
    · rename_i hn; rw [if_pos hn] at ht; rw [mem_singleton.1 ht]
    · split at h2
      · rw [show op = .proj memory from h2] at hl; cases hl
      · simp [node_of_le h1] at h2
  · by_contra hn
    rcases op_touched_other b op m inputs h1 (fun h => hn (mem_singleton.2 h)) with h | h <;> rw [h] at h2 <;> cases h2

end Patch

end Graph

namespace Lower

variable {s s' : Lowering} {n m p x : NodeId} {b : BlockId} {ks : List NodeId}

lemma onGraph_ok {f : Graph → α × Graph} :
    onGraph f s = .ok a s' ↔ a = (f s.graph).1 ∧ s' = { s with graph := (f s.graph).2 } := by
  constructor
  · intro h
    cases h
    exact ⟨rfl, rfl⟩
  · rintro ⟨rfl, rfl⟩; rfl

lemma program_ok {q : Program} : program s = .ok q s' ↔ q = s.image.program ∧ s = s' := by
  constructor
  · intro h; cases h; exact ⟨rfl, rfl⟩
  · rintro ⟨rfl, rfl⟩; rfl

/-- Steps that put nodes in for a node of block `b`: those that touch memory are `ks`, from the state `m` to `p`. -/
structure Spins (s s' : Lowering) (b : BlockId) (m : NodeId) (ks : List NodeId) (p : NodeId) : Prop
    extends Graph.Spun s.graph s'.graph b m ks p where
  uses : s'.uses = s.uses

def New (s s' : Lowering) (x : NodeId) : Prop := s.graph.nodes.size ≤ x.index ∧ x.index < s'.graph.nodes.size

def Within (s : Lowering) (n : NodeId) (b : BlockId) : Prop := n.index < s.graph.nodes.size ∧ (s.graph.node n).block = b

namespace Spins

variable {s'' : Lowering} {q : NodeId} {js : List NodeId}

lemma trans (S : Spins s s' b m ks p) (S' : Spins s' s'' b p js q) : Spins s s'' b m (ks ++ js) q :=
  ⟨S.toPatch.trans S'.toPatch, S'.uses.trans S.uses⟩

lemma within (S : Spins s s' b m ks p) (h : Within s n b) : Within s' n b :=
  ⟨lt_of_lt_of_le h.1 S.size_le, by rw [S.keep n h.1 id]; exact h.2⟩

lemma new_left (S : Spins s' s'' b m ks p) (h : New s s' x) : New s s'' x := ⟨h.1, lt_of_lt_of_le h.2 S.size_le⟩

lemma new_right (S : Spins s s' b m ks p) (h : New s' s'' x) : New s s'' x := ⟨le_trans S.size_le h.1, h.2⟩

lemma refl (s : Lowering) (b : BlockId) (m : NodeId) : Spins s s b m [] m := ⟨.refl _ b m, rfl⟩

end Spins

lemma add_spins (op : Op) (mode : Mode) (inputs : List NodeId) (hc : c = b ∨ c = startBlock)
    (ho : op.isInert = true) (m : NodeId) :
    Spins s { s with graph := (s.graph.add c op mode inputs).2 } b m [] m ∧
      New s { s with graph := (s.graph.add c op mode inputs).2 } s.graph.fresh :=
  ⟨⟨.add mode inputs m hc ho, rfl⟩, le_refl _, by simp⟩

lemma address_spins {e : EntityId} (h : address e s = .ok x s') (b : BlockId) (m : NodeId) :
    Spins s s' b m [] m ∧ New s s' x := by
  cases h
  exact add_spins _ _ _ (.inr rfl) rfl m

/-! ## Steps that touch no memory -/

/-- A step that puts in nodes for `n`, none of which touches memory. -/
def Quiet (n : NodeId) (x : Lower α) : Prop :=
  ∀ ⦃s a s' b⦄, x s = .ok a s' → Within s n b → ∀ m, Spins s s' b m [] m

namespace Quiet

lemma pure : Quiet n (pure a) := by
  intro s _ s' b h _ m
  cases h
  exact .refl s b m

lemma bind {x : Lower α} {f : α → Lower β} (hx : Quiet n x) (hf : ∀ a, Quiet n (f a)) : Quiet n (x >>= f) := by
  intro s c s' b h hn m
  obtain ⟨a, s1, h1, h⟩ := bind_ok.1 h
  have S := hx h1 hn m
  exact S.trans (hf a h (S.within hn) m)

lemma get {f : Lowering → Lower α} (hf : ∀ s, Quiet n (f s)) : Quiet n (get >>= f) :=
  fun _ _ _ _ h hn => hf _ (get_bind_ok.1 h) hn

lemma throw {e : Error} : Quiet n (throw e : Lower α) := fun _ _ _ _ h => absurd h throw_ok

lemma program : Quiet n program := .get fun _ => .pure

lemma onImage (f : Image → α × Image) : Quiet n (onImage f) := by
  intro s a s' b h _ m
  cases h
  exact ⟨.refl _ b m, rfl⟩

lemma addAt (ho : op.isInert = true) : Quiet n (addAt n op mode inputs) := by
  intro s a s' b h hn m
  cases h
  exact (add_spins op mode inputs (.inl hn.2) ho m).1

lemma constant {f : Graph → NodeId × Graph} (hf : ∀ g, ∃ mode bits, f g = g.constant mode bits) :
    Quiet n (onGraph f) := by
  intro s a s' b h _ m
  cases h
  obtain ⟨mode, bits, e⟩ := hf s.graph
  rw [e]
  exact (add_spins _ _ _ (.inr rfl) rfl m).1

lemma constUnsigned (k : Nat) : Quiet n (constUnsigned k) := .constant fun _ => ⟨_, _, rfl⟩

lemma constInt (k : Nat) : Quiet n (constInt k) := .constant fun _ => ⟨_, _, rfl⟩

lemma address (e : EntityId) : Quiet n (address e) := fun _ _ _ _ h _ m => (address_spins h _ m).1

lemma functionAddress (f : RuntimeFunction) : Quiet n (functionAddress f) := (onImage _).bind address

lemma classObject (type : TypeRef) : Quiet n (classObject type) := by
  cases type with
  | ofClass c =>
    refine program.bind fun p => ?_
    simp only []
    split
    · exact .pure
    · exact .throw
  | prim k => exact .onImage fun im => im.primitiveClass k
  | array t => exact .throw

lemma objectVTable? : Quiet n objectVTable? := program.bind fun _ => .pure

end Quiet

/-! ## Steps that touch memory -/

lemma touch_spins {k : NodeId} {s1 : Lowering} (h1 : addAt n op .tuple (m :: inputs) s = .ok k s1)
    (h2 : onGraph (fun g => g.proj k .memory memory) s1 = .ok p s') (hn : Within s n b)
    (ho : op.isLowered = true) (hl : op.leavesMemory = true) : Spins s s' b m [k] p ∧ New s s' k ∧ New s s' p := by
  obtain ⟨rfl, rfl⟩ := onGraph_ok.1 h1
  obtain ⟨rfl, rfl⟩ := onGraph_ok.1 h2
  obtain ⟨-, rfl⟩ := hn
  simp only [add_fst, proj_add_memory]
  exact ⟨⟨.touch m inputs ho hl, rfl⟩, ⟨le_refl _, by simp [size_touched]⟩, Nat.le_succ _, by simp [size_touched]⟩

def Leads (s s' : Lowering) (b : BlockId) (m p : NodeId) : Prop := ∃ ks, Spins s s' b m ks p ∧ (p = m ∨ New s s' p)

lemma Leads.trans {s'' : Lowering} {q : NodeId} (h : Leads s s' b m p) (h' : Leads s' s'' b p q) :
    Leads s s'' b m q := by
  obtain ⟨ks, S, hp⟩ := h
  obtain ⟨js, S', hq⟩ := h'
  refine ⟨_, S.trans S', ?_⟩
  rcases hq with rfl | hq
  · exact hp.imp_right S'.new_left
  · exact .inr (S.new_right hq)

structure Inserts (s s' : Lowering) (b : BlockId) (m : NodeId) (i : Inserted) : Prop where
  spins : ∃ ks, Spins s s' b m ks i.memory
  node : New s s' i.node
  memory : New s s' i.memory
  result : New s s' i.result

/-- What steps that put in nodes come to, whatever was put in before. -/
structure Goal (α : Type) where
  met : Lowering → BlockId → NodeId → α → Lowering → Prop
  prepend : ∀ {s0 s s' b m p a}, Leads s0 s b m p → met s b p a s' → met s0 b m a s'

def Goal.Meets (G : Goal α) (n m : NodeId) (x : Lower α) : Prop :=
  ∀ ⦃s a s' b⦄, x s = .ok a s' → Within s n b → G.met s b m a s'

def leading (q : α → NodeId) : Goal α where
  met s b m a s' := Leads s s' b m (q a)
  prepend := .trans

def inserting : Goal Inserted where
  met s b m i s' := Inserts s s' b m i
  prepend := fun ⟨_, S, _⟩ I => by
    obtain ⟨js, S'⟩ := I.spins
    exact ⟨⟨_, S.trans S'⟩, S.new_right I.node, S.new_right I.memory, S.new_right I.result⟩

/-- The node has been put in, and more is done to memory after it. -/
def extending (i : Inserted) : Goal Inserted where
  met s b m j s' := ∃ p, j = { i with memory := p } ∧ Leads s s' b m p
  prepend := fun h ⟨p, hj, h'⟩ => ⟨p, hj, h.trans h'⟩

/-- The code of a method is found in memory, and the calls through it start from the state after that. -/
def finding (n : NodeId) : Goal NodeId where
  met s b m x s' := ∃ s1 ks p, Spins s s1 b m ks p ∧ New s s1 x ∧
    s' = { s1 with graph := (s.uses.calls.getD n.index []).foldl (Graph.rethreadCall p) s1.graph }
  prepend := fun ⟨_, S, _⟩ ⟨s1, _, p, S', hx, hs⟩ => ⟨s1, _, p, S.trans S', S.new_right hx, S.uses ▸ hs⟩

section

variable {G : Goal β} {x : Lower α} {f : α → Lower β}

lemma Goal.Meets.bind {q : α → NodeId} (hx : (leading q).Meets n m x) (hf : ∀ a, G.Meets n (q a) (f a)) :
    G.Meets n m (x >>= f) := by
  intro s c s' b h hn
  obtain ⟨a, s1, h1, h⟩ := bind_ok.1 h
  obtain ⟨ks, S, hp⟩ := hx h1 hn
  exact G.prepend ⟨ks, S, hp⟩ (hf a h (S.within hn))

lemma Quiet.before (hx : Quiet n x) (hf : ∀ a, G.Meets n m (f a)) : G.Meets n m (x >>= f) :=
  Goal.Meets.bind (q := fun _ => m) (fun _ _ _ _ h hn => ⟨[], hx h hn m, .inl rfl⟩) hf

end

section

variable {x : Lower Inserted}

lemma inserting_leads (hx : inserting.Meets n m x) : (leading Inserted.memory).Meets n m x := by
  intro s i s' b h hn
  obtain ⟨⟨ks, S⟩, -, hm, -⟩ := hx h hn
  exact ⟨ks, S, .inr hm⟩

lemma inserting_extend {f : Inserted → Lower Inserted} (hx : inserting.Meets n m x)
    (hf : ∀ i, (extending i).Meets n i.memory (f i)) : inserting.Meets n m (x >>= f) := by
  intro s j s' b h hn
  obtain ⟨i, s1, h1, h⟩ := bind_ok.1 h
  obtain ⟨⟨ks, S⟩, hi, hm, hr⟩ := hx h1 hn
  obtain ⟨p, rfl, js, S', hp⟩ := hf i h (S.within hn)
  refine ⟨⟨_, S.trans S'⟩, S'.new_left hi, ?_, S'.new_left hr⟩
  rcases hp with hp | hp
  · exact hp ▸ S'.new_left hm
  · exact S.new_right hp

lemma extending_pure (i : Inserted) : (extending i).Meets n m (pure { i with memory := m }) := by
  intro s j s' b h _
  cases h
  exact ⟨m, rfl, [], .refl s b m, .inl rfl⟩

lemma finding_rethread (hx : inserting.Meets n m x) : (finding n).Meets n m (do
    let code ← x
    rethreadCalls n code.memory
    return code.result) := by
  intro s _ s' b h hn
  obtain ⟨i, s1, h1, h⟩ := bind_ok.1 h
  obtain ⟨_, s2, h2, h⟩ := bind_ok.1 h
  cases h
  obtain ⟨⟨ks, S⟩, -, -, hr⟩ := hx h1 hn
  refine ⟨s1, ks, i.memory, S, hr, ?_⟩
  rw [← S.uses]
  exact (onGraph_ok.1 (get_bind_ok.1 h2)).2

end

lemma insert_inserts (ho : op.isLowered = true) (hl : op.leavesMemory = true) :
    inserting.Meets n m (insert n op (m :: inputs) mode) := by
  intro s i s' b h hn
  obtain ⟨k, s1, h1, h⟩ := bind_ok.1 h
  obtain ⟨p, s2, h2, h⟩ := bind_ok.1 h
  obtain ⟨S, hk, hp⟩ := touch_spins h1 h2 hn ho hl
  obtain ⟨r, s3, h3, h⟩ := bind_ok.1 h
  obtain ⟨rfl, rfl⟩ := onGraph_ok.1 h3
  cases h
  obtain ⟨S', hr⟩ := add_spins (s := s2) (.proj result) mode [k] (.inl (S.thread.mem_op k (.head _)).1) rfl p
  exact ⟨⟨_, S.trans S'⟩, S'.new_left hk, S'.new_left hp, S.new_right hr⟩

lemma loadPointer_inserts (source : NodeId) : inserting.Meets n m (loadPointer n m source) := insert_inserts rfl rfl

lemma call_inserts (f : RuntimeFunction) (args : List NodeId) : inserting.Meets n m (call n m f args) :=
  (Quiet.functionAddress f).before fun _ => insert_inserts rfl rfl

lemma store_leads (target value : NodeId) : (leading id).Meets n m (store n m target value) := by
  intro s p s' b h hn
  obtain ⟨k, s1, h1, h2⟩ := bind_ok.1 h
  obtain ⟨S, -, hp⟩ := touch_spins h1 h2 hn rfl rfl
  exact ⟨_, S, .inr hp⟩

/-! ## Allocation -/

lemma storeVTable_leads (object : NodeId) (vtable? : Option EntityId) :
    (leading id).Meets n m (storeVTable n m object vtable?) := by
  cases vtable? with
  | none =>
    intro s p s' b h _
    cases h; exact ⟨[], .refl s b m, .inl rfl⟩
  | some v => exact (Quiet.address v).before fun _ => store_leads _ _

lemma callocObject_inserts (c : ClassId) : inserting.Meets n m (callocObject n m c) :=
  Quiet.program.before fun _ => (Quiet.constUnsigned _).before fun _ => (Quiet.constUnsigned _).before fun _ =>
    inserting_extend (call_inserts _ _) fun i => (storeVTable_leads _ _).bind fun _ => extending_pure i

lemma initArray_extending (i : Inserted) : (extending i).Meets n i.memory (do
    let memory ← storeVTable n i.memory i.result (← objectVTable?)
    let offset ← constInt Abi.arrayLengthOffset
    let place ← addAt n .add .reference [i.result, offset]
    let length ← addAt n .conv .int [count]
    let memory ← store n memory place length
    return { i with memory }) :=
  Quiet.objectVTable?.before fun _ => (storeVTable_leads _ _).bind fun _ => (Quiet.constInt _).before fun _ =>
    (Quiet.addAt rfl).before fun _ => (Quiet.addAt rfl).before fun _ => (store_leads _ _).bind fun _ => extending_pure i

lemma callocArray_inserts (element : TypeRef) : inserting.Meets n m (callocArray n m count element) :=
  (Quiet.constUnsigned _).before fun _ => (Quiet.constUnsigned _).before fun _ => (Quiet.constUnsigned _).before
    fun _ =>
    (Quiet.addAt rfl).before fun _ => (Quiet.addAt rfl).before fun _ => inserting_extend
      (call_inserts _ _) initArray_extending

lemma libraryArray_inserts (element : TypeRef) : inserting.Meets n m (libraryArray n m count element) := by
  refine (Quiet.addAt rfl).before fun _ => (Quiet.classObject _).before fun _ => (Quiet.address _).before fun _ => ?_
  cases element with
  | prim k => exact call_inserts _ _
  | ofClass c => exact (Quiet.constant fun _ => ⟨_, _, rfl⟩).before fun _ => call_inserts _ _
  | array t => exact (Quiet.constant fun _ => ⟨_, _, rfl⟩).before fun _ => call_inserts _ _

lemma allocate_inserts (flavour : Flavour) (type : TypeRef) :
    inserting.Meets n m (allocate flavour n m count type) := by
  cases type with
  | prim k => cases flavour <;> exact fun _ _ _ _ h => absurd h throw_ok
  | ofClass c =>
    cases flavour with
    | simple => exact callocObject_inserts c
    | gcj => exact (Quiet.classObject _).before fun _ => (Quiet.address _).before fun _ => call_inserts _ _
  | array element =>
    cases flavour with
    | simple => exact callocArray_inserts element
    | gcj => exact libraryArray_inserts element

/-! ## Method selection -/

lemma operands_ok {a c : NodeId} (h : operands n s = .ok (a, c) s') :
    s' = s ∧ a = (s.graph.node n).inputs.getD 0 n ∧ c = (s.graph.node n).inputs.getD 1 n := by
  obtain ⟨hp, rfl⟩ := pure_ok.1 h
  cases hp
  exact ⟨rfl, rfl, rfl⟩

lemma operands_finding {f : NodeId × NodeId → Lower NodeId} (hf : ∀ m r, (finding n).Meets n m (f (m, r)))
    (h : (operands n >>= f) s = .ok x s') (hn : Within s n b) :
    (finding n).met s b ((s.graph.node n).inputs.getD 0 n) x s' := by
  obtain ⟨⟨a, c⟩, s0, h0, h⟩ := bind_ok.1 h
  cases h0
  exact hf _ _ h hn

lemma lookupMethod_finds {name descriptor : String} (h : lookupMethod n name descriptor s = .ok x s')
    (hn : Within s n b) :
    (finding n).met s b ((s.graph.node n).inputs.getD 0 n) x s' :=
  operands_finding (fun _ _ => (inserting_leads (loadPointer_inserts _)).bind fun _ =>
    (inserting_leads (loadPointer_inserts _)).bind fun _ => (Quiet.onImage _).before
      fun _ => (Quiet.onImage _).before fun _ =>
      (Quiet.address _).before fun _ => (Quiet.address _).before fun _ => finding_rethread (call_inserts _ _)) h hn

lemma loadSlot_finds {slot : Nat} (h : loadSlot n slot s = .ok x s') (hn : Within s n b) :
    (finding n).met s b ((s.graph.node n).inputs.getD 0 n) x s' :=
  operands_finding
    (fun _ _ => (inserting_leads (loadPointer_inserts _)).bind fun _ => (Quiet.constInt _).before fun _ =>
    (Quiet.addAt rfl).before fun _ => finding_rethread (loadPointer_inserts _)) h hn

end Lower

end JvmGraph
