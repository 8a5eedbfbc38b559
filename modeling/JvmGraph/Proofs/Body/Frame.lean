import JvmGraph.Proofs.Ssa.Young

/-!
# Slots of a frame

What the operations on the operand stack and the locals do to the variables of the current block: they write
some of them, and reading one that was not defined gives the block an entry for it. All of them are calm:
they add nodes to the current block or to the start block, none of which leads anywhere. They leave memory
alone.
-/

namespace JvmGraph

open JvmGraph.Graph Ssa

variable {n v : NodeId} {mode : Mode} {x : Nat} {u : Unit} {index : UInt16} {d : Nat}

def Mode.width (m : Mode) : Nat := if m.isTwoSlot then 2 else 1

lemma Mode.width_pos (m : Mode) : 0 < m.width := by
  unfold Mode.width
  split <;> omega

namespace Frame

open Steps

structure Fit (f : Frame) : Prop extends Ssa.Young f.builder where
  varCount : f.builder.varCount = f.maxStack.toNat + f.maxLocals.toNat
  depth_le : f.depth ≤ f.maxStack.toNat
  start : f.graph.node Graph.start = ⟨.start, .tuple, Graph.startBlock, []⟩
  bads : ∀ mode n, f.graph.bads.lookup mode = some n →
    n.index < f.graph.nodes.size ∧ f.graph.node n = ⟨.bad, mode, Graph.startBlock, []⟩

lemma Fit.start_lt {f : Frame} (F : Fit f) : Graph.start.index < f.graph.nodes.size :=
  Graph.lt_of_op_eq (congrArg Node.op F.start)

/-- A step that keeps to the current block and adds no way out of it. -/
structure Calm (f f' : Frame) : Prop extends Ssa.Quiet f.builder f'.builder where
  maxStack : f'.maxStack = f.maxStack

structure Still (f f' : Frame) : Prop extends Calm f f', Ssa.Aside f.builder f'.builder

/-- What the current block holds in a variable. -/
def slot (f : Frame) (x : Nat) : Option NodeId := f.builder.definition? f.builder.current x

section Relations

variable {f f' f'' : Frame}

lemma Calm.refl (f : Frame) : Calm f f := ⟨.refl _, rfl⟩

lemma Calm.trans (C : Calm f f') (C' : Calm f' f'') : Calm f f'' :=
  ⟨C.toQuiet.trans C'.toQuiet, C'.maxStack.trans C.maxStack⟩

lemma Still.trans (S : Still f f') (S' : Still f' f'') : Still f f'' :=
  ⟨S.toCalm.trans S'.toCalm, (S.toAside.trans S'.toAside).memory, (S.toAside.trans S'.toAside).plain⟩

end Relations

/-! ## Steps of the builder -/

section Builder

variable {f f' : Frame}

lemma build_ok {α : Type} {x : Build α} {a : α} :
    build x f = .ok a f' ↔ ∃ s', x f.builder = .ok a s' ∧ f' = { f with builder := s' } := by
  obtain ⟨builder, maxStack, maxLocals, depth, pc⟩ := f
  cases hx : x builder with
  | ok b s =>
    simp only [build, hx, EStateM.Result.ok.injEq]
    constructor
    · rintro ⟨rfl, rfl⟩; exact ⟨s, ⟨rfl, rfl⟩, rfl⟩
    · rintro ⟨s', ⟨rfl, rfl⟩, rfl⟩; exact ⟨rfl, rfl⟩
  | error e s => simp [build, hx]

lemma Fit.withBuilder {s' : Builder} (F : Fit f) (Y : Young s') (St : Steady f.builder s')
    (hb : s'.graph.bads = f.graph.bads) : Fit { f with builder := s' } where
  toYoung := Y
  varCount := St.varCount.trans F.varCount
  depth_le := F.depth_le
  start := (St.keep _ F.start_lt).trans F.start
  bads mode n h := by
    obtain ⟨h1, h2⟩ := F.bads mode n (hb ▸ h)
    exact ⟨lt_of_lt_of_le h1 St.size_le, (St.keep n h1).trans h2⟩

lemma Fit.withDepth (F : Fit f) (hd : d ≤ f.maxStack.toNat) : Fit { f with depth := d } :=
  { F with depth_le := hd }

lemma Still.withDepth (f : Frame) (d : Nat) : Still f { f with depth := d } :=
  ⟨⟨.refl _, rfl⟩, (Aside.refl f.builder).memory, (Aside.refl f.builder).plain⟩

lemma getValue_frame (h : build (getValue x mode) f = .ok n f') (F : Fit f) (hx : x ≤ f.builder.varCount) :
    Fit f' ∧ Calm f f' ∧ f'.builder.Near n ∧ (x < f.builder.varCount → Still f f') := by
  obtain ⟨s', hs, rfl⟩ := build_ok.1 h
  have R := getValue_young hs F.toYoung hx
  have C : Calm f { f with builder := s' } := ⟨R.quiet, rfl⟩
  exact ⟨F.withBuilder R.young R.quiet.toSteady R.bads, C, R.near,
    fun hlt => ⟨C, (R.aside hlt).memory, (R.aside hlt).plain⟩⟩

lemma setValue_frame (h : build (setValue x v) f = .ok u f') (F : Fit f) (hx : x ≤ f.builder.varCount)
    (hv : f.builder.Near v) : Fit f' ∧ Calm f f' ∧ (x < f.builder.varCount → Still f f') := by
  obtain ⟨s', hs, rfl⟩ := build_ok.1 h
  cases hs
  have Q : Quiet f.builder _ := F.quiet_define (v := v) hx
  have C : Calm f { f with builder := f.builder.define f.builder.current x v } := ⟨Q, rfl⟩
  exact ⟨F.withBuilder (F.define hx hv) Q.toSteady rfl, C,
    fun hlt => ⟨C, (F.aside_define (v := v) hlt).memory, (F.aside_define (v := v) hlt).plain⟩⟩

lemma Fit.place {c : BlockId} (F : Fit f) (op : Op) (mode : Mode) (inputs : List NodeId)
    (hc : c = f.builder.current ∨ c = startBlock) (ho : op ≠ .phi) (hf : op ≠ .forward)
    (hi : ∀ i ∈ inputs, f.graph.Has i ∧
      ((f.graph.node i).block = c ∨ (f.graph.node i).block = startBlock))
    (hx : ¬ Node.IsExit ⟨op, mode, c, inputs⟩) :
    Fit { f with builder := f.builder.place c op mode inputs } ∧
      Calm f { f with builder := f.builder.place c op mode inputs } ∧
      (f.builder.place c op mode inputs).Near f.graph.fresh := by
  have Q := Quiet.place f.builder hx
  exact ⟨F.withBuilder (F.toYoung.place mode hc ho hf hi) Q.toSteady rfl, ⟨Q, rfl⟩,
    f.builder.near_place op mode inputs hc⟩

def withBad (f : Frame) (mode : Mode) : Frame :=
  let s := f.builder.place Graph.startBlock .bad mode []
  { f with builder := { s with graph := { s.graph with bads := (mode, f.graph.fresh) :: f.graph.bads } } }

lemma node_withBad (f : Frame) (mode : Mode) (n : NodeId) : (f.withBad mode).graph.node n =
    if n.index = f.graph.nodes.size then ⟨.bad, mode, startBlock, []⟩ else f.graph.node n :=
  f.graph.node_add startBlock .bad mode [] n

lemma size_withBad (f : Frame) (mode : Mode) : (f.withBad mode).graph.nodes.size = f.graph.nodes.size + 1 :=
  f.graph.size_add startBlock .bad mode []

lemma bads_withBad (hb : ∀ m n, f.graph.bads.lookup m = some n →
      f.graph.Has n ∧ f.graph.node n = ⟨.bad, m, startBlock, []⟩) (m : Mode) (n : NodeId)
    (h : (f.withBad mode).graph.bads.lookup m = some n) :
    n.index < (f.withBad mode).graph.nodes.size ∧ (f.withBad mode).graph.node n = ⟨.bad, m, startBlock, []⟩ := by
  have h' : List.lookup m ((mode, f.graph.fresh) :: f.graph.bads) = some n := h
  rw [List.lookup_cons] at h'
  rw [size_withBad, node_withBad]
  split at h'
  · rename_i hm
    cases h'
    rw [if_pos rfl, eq_of_beq hm]; exact ⟨Nat.lt_succ_self _, rfl⟩
  · obtain ⟨hlt, hn⟩ := hb m n h'; rw [if_neg (by omega)]; exact ⟨Nat.lt_succ_of_lt hlt, hn⟩

lemma Fit.withBad (F : Fit f) (mode : Mode) :
    Fit (f.withBad mode) ∧ Still f (f.withBad mode) ∧ (f.withBad mode).builder.Near f.graph.fresh := by
  obtain ⟨F1, C1, hnear⟩ := F.place .bad mode [] (.inr rfl) (by simp) (by simp) (by simp) (by simp [Node.IsExit])
  have Q : Quiet f.builder (f.withBad mode).builder := C1.toQuiet.trans (.reframe rfl rfl rfl rfl rfl)
  have A : Aside f.builder (f.withBad mode).builder :=
    .trans (.place f.builder startBlock mode [] rfl rfl) (.reframe rfl rfl rfl rfl rfl)
  have Y : Young (f.withBad mode).builder :=
    .reframe (s := f.builder.place startBlock .bad mode []) rfl rfl rfl rfl rfl F1.toYoung
  exact ⟨⟨Y, F1.varCount, F1.depth_le, F1.start, bads_withBad F.bads⟩, ⟨⟨Q, rfl⟩, A.memory, A.plain⟩, hnear⟩

lemma bad_ok (h : build (Ssa.onGraph fun g => g.bad mode) f = .ok n f') :
    f.graph.bads.lookup mode = some n ∧ f' = f ∨ n = f.graph.fresh ∧ f' = f.withBad mode := by
  obtain ⟨s', hs, rfl⟩ := build_ok.1 h
  obtain ⟨rfl, rfl⟩ := Ssa.onGraph_ok.1 hs
  rw [show f.builder.graph = f.graph from rfl, bad]
  cases hb : f.graph.bads.lookup mode with
  | some m => exact .inl ⟨rfl, rfl⟩
  | none => exact .inr ⟨rfl, rfl⟩

lemma bad_frame (h : build (Ssa.onGraph fun g => g.bad mode) f = .ok n f') (F : Fit f) :
    Fit f' ∧ Still f f' ∧ f'.builder.Near n := by
  rcases bad_ok h with ⟨hb, rfl⟩ | ⟨rfl, rfl⟩
  · obtain ⟨hlt, hn⟩ := F.bads mode n hb
    exact ⟨F, .withDepth _ _, ⟨hlt, .inr (congrArg Node.block hn)⟩⟩
  · exact F.withBad mode

end Builder

/-! ## Taking slots into use -/

section Slots

variable {f f' : Frame}

lemma reserve_eq (k : Nat) (f : Frame) :
    reserve k f = if f.maxStack.toNat < f.depth + k then .error (.stackOverflow f.pc) f
      else .ok f.depth { f with depth := f.depth + k } := by
  unfold reserve
  rw [get_bind]
  split <;> rfl

lemma reserve_ok {k low : Nat} : reserve k f = .ok low f' ↔
    f.depth + k ≤ f.maxStack.toNat ∧ low = f.depth ∧ f' = { f with depth := f.depth + k } := by
  rw [reserve_eq]
  split
  · simp_all
  · simp_all [eq_comm]

lemma release_zero (h : f.depth = 0) : release f = .error (.stackUnderflow f.pc) f := by
  unfold release
  rw [get_bind, h]
  rfl

lemma release_ok {top : Nat} : release f = .ok top f' ↔ f.depth = top + 1 ∧ f' = { f with depth := top } := by
  cases hd : f.depth with
  | zero => simp [release_zero hd]
  | succ d =>
    have e : release f = .ok d { f with depth := d } := by unfold release; rw [get_bind, hd]; rfl
    rw [e, Nat.add_left_inj]
    constructor
    · rintro ⟨⟩; exact ⟨rfl, rfl⟩
    · rintro ⟨rfl, rfl⟩; rfl

lemma Fit.stack_lt (F : Fit f) (hx : x < f.depth) : x < f.builder.varCount := by
  have := F.depth_le
  rw [F.varCount]
  omega

lemma pushSlot_of_lt (h : f.depth < f.maxStack.toNat) (v : NodeId) : pushSlot v f =
    .ok () { f with builder := f.builder.define f.builder.current f.depth v, depth := f.depth + 1 } :=
  bind_of_ok (reserve_ok.2 ⟨h, rfl, rfl⟩)

lemma pushSlot_spec (h : pushSlot v f = .ok u f') (F : Fit f) (hv : f.builder.Near v) : Fit f' ∧ Still f f' := by
  obtain ⟨low, f1, h1, h⟩ := bind_ok.1 h
  obtain ⟨hd, rfl, rfl⟩ := reserve_ok.1 h1
  have F1 := F.withDepth hd
  have hx := F1.stack_lt (Nat.lt_succ_self _)
  obtain ⟨F2, -, C2⟩ := setValue_frame h F1 (by omega) hv
  exact ⟨F2, (Still.withDepth f _).trans (C2 hx)⟩

lemma push_full (h : f.maxStack.toNat < f.depth + (f.modeOf v).width) : push v f = .error (.stackOverflow f.pc) f := by
  unfold push
  rw [get_bind]
  unfold Mode.width at h
  split at h <;> rename_i hw
  · rw [if_pos hw]; exact bind_of_error ((reserve_eq 2 f).trans (if_pos h))
  · rw [if_neg hw]; exact bind_of_error ((reserve_eq 1 f).trans (if_pos h))

lemma push_one (h : (f.modeOf v).isTwoSlot = false) : push v f = pushSlot v f := by
  unfold push
  rw [get_bind, h]
  rfl

lemma push_two (h : (f.modeOf v).isTwoSlot = true) (hroom : f.depth + 2 ≤ f.maxStack.toNat) : push v f = (do
      let placeholder ← build (Ssa.onGraph fun g => g.bad (f.modeOf v))
      pushSlot placeholder
      pushSlot v) f := by
  obtain ⟨p, f1, hbad, hbad', hd, hmax⟩ : ∃ p f1, build (Ssa.onGraph fun g => g.bad (f.modeOf v)) f = .ok p f1 ∧
      build (Ssa.onGraph fun g => g.bad (f.modeOf v)) { f with depth := f.depth + 2 } =
        .ok p { f1 with depth := f.depth + 2 } ∧
      f1.depth = f.depth ∧ f1.maxStack = f.maxStack := ⟨_, _, rfl, rfl, rfl, rfl⟩
  have hpush : push v f = (do
      let placeholder ← build (Ssa.onGraph fun g => g.bad (f.modeOf v))
      build (Ssa.setValue f.depth placeholder)
      build (Ssa.setValue (f.depth + 1) v)) { f with depth := f.depth + 2 } := by
    unfold push
    rw [get_bind, h]; exact bind_of_ok (reserve_ok.2 ⟨hroom, rfl, rfl⟩)
  rw [← hd, ← hmax] at hroom
  rw [hpush, bind_of_ok hbad', bind_of_ok hbad, bind_of_ok (pushSlot_of_lt (by omega) p), ← hd]
  exact (pushSlot_of_lt
    (f := { f1 with builder := f1.builder.define f1.builder.current f1.depth p, depth := f1.depth + 1 }) hroom v).symm

lemma push_spec (h : push v f = .ok u f') (F : Fit f) (hv : f.builder.Near v) : Fit f' ∧ Still f f' := by
  by_cases hroom : f.maxStack.toNat < f.depth + (f.modeOf v).width
  · simp [push_full hroom] at h
  cases hw : (f.modeOf v).isTwoSlot with
  | false => rw [push_one hw] at h; exact pushSlot_spec h F hv
  | true =>
    rw [Mode.width, hw, not_lt] at hroom
    rw [push_two hw hroom] at h
    obtain ⟨p, f1, h1, h⟩ := bind_ok.1 h
    obtain ⟨_, f2, h2, h3⟩ := bind_ok.1 h
    obtain ⟨F1, S1, hp⟩ := bad_frame h1 F
    obtain ⟨F2, S2⟩ := pushSlot_spec h2 F1 hp
    obtain ⟨F3, S3⟩ := pushSlot_spec h3 F2 (S2.near (S1.near hv))
    exact ⟨F3, S1.trans (S2.trans S3)⟩

lemma release_read (hd : f.depth = d + 1) (F : Fit f) (h : build (getValue d mode) { f with depth := d } = .ok n f') :
    Fit f' ∧ Still f f' ∧ f'.builder.Near n := by
  have hle := F.depth_le
  have hx : d < f.builder.varCount := F.stack_lt (by omega)
  obtain ⟨F', -, hn, C⟩ := getValue_frame h (F.withDepth (by omega)) (le_of_lt hx)
  exact ⟨F', (Still.withDepth f d).trans (C hx), hn⟩

lemma pop_spec (h : pop mode f = .ok n f') (F : Fit f) : Fit f' ∧ Still f f' ∧ f'.builder.Near n := by
  unfold pop at h
  obtain ⟨top, f1, h1, h⟩ := bind_ok.1 h
  obtain ⟨hd, rfl⟩ := release_ok.1 h1
  obtain ⟨v, f2, h2, h⟩ := bind_ok.1 h
  obtain ⟨F2, C2, hv⟩ := release_read hd F h2
  cases hw : mode.isTwoSlot with
  | true =>
    simp only [hw, if_true] at h
    obtain ⟨below, f3, h3, h⟩ := bind_ok.1 h
    obtain ⟨hd3, rfl⟩ := release_ok.1 h3
    obtain ⟨p, f4, h4, h⟩ := bind_ok.1 h
    obtain ⟨F4, C4, -⟩ := release_read hd3 F2 h4
    replace h := get_bind_ok.1 h
    have hend : v = n ∧ f4 = f' := by
      split at h
      · obtain ⟨_, _, hc, -⟩ := bind_ok.1 h; cases hc
      · exact pure_ok.1 h
    obtain ⟨rfl, rfl⟩ := hend; exact ⟨F4, C2.trans C4, C4.near hv⟩
  | false =>
    simp only [hw] at h
    replace h := get_bind_ok.1 h
    have hend : v = n ∧ f2 = f' := by
      split at h
      · obtain ⟨_, _, hc, -⟩ := bind_ok.1 h; cases hc
      · exact pure_ok.1 h
    obtain ⟨rfl, rfl⟩ := hend; exact ⟨F2, C2, hv⟩

lemma popSlot_spec (h : popSlot f = .ok n f') (F : Fit f) : Fit f' ∧ Still f f' ∧ f'.builder.Near n := by
  obtain ⟨top, f1, h1, h⟩ := bind_ok.1 h
  obtain ⟨hd, rfl⟩ := release_ok.1 h1
  replace h := get_bind_ok.1 h
  cases hm : f.builder.guessMode top with
  | none => simp only [hm] at h; cases h
  | some mode => simp only [hm] at h; exact release_read hd F h

lemma localVar_ok : localVar index mode f = .ok x f' ↔
    index.toNat + mode.width ≤ f.maxLocals.toNat ∧ f.maxStack.toNat + index.toNat = x ∧ f = f' := by
  unfold localVar Mode.width
  constructor
  · intro h
    replace h := get_bind_ok.1 h
    by_cases hd : f.maxLocals.toNat < index.toNat + if mode.isTwoSlot then 2 else 1
    · rw [if_pos hd] at h
      obtain ⟨_, _, hc, -⟩ := bind_ok.1 h; cases hc
    · rw [if_neg hd] at h
      cases h; exact ⟨not_lt.1 hd, rfl, rfl⟩
  · rintro ⟨hd, rfl, rfl⟩
    refine bind_ok.2 ⟨f, f, get_ok.2 ⟨rfl, rfl⟩, ?_⟩
    rw [if_neg (by omega)]; rfl

lemma getLocal_spec (h : getLocal index mode f = .ok n f') (F : Fit f) : Fit f' ∧ Still f f' ∧ f'.builder.Near n := by
  obtain ⟨x, f1, h1, h⟩ := bind_ok.1 h
  obtain ⟨hx, rfl, rfl⟩ := localVar_ok.1 h1
  have hvar := F.varCount
  have hwidth := mode.width_pos
  obtain ⟨F2, -, hn, C2⟩ := getValue_frame h F (by omega)
  exact ⟨F2, C2 (by omega), hn⟩

lemma setLocal_spec (h : setLocal index v f = .ok u f') (F : Fit f) (hv : f.builder.Near v) : Fit f' ∧ Still f f' := by
  unfold setLocal at h
  replace h := get_bind_ok.1 h
  obtain ⟨x, f1, h1, h⟩ := bind_ok.1 h
  obtain ⟨hx, rfl, rfl⟩ := localVar_ok.1 h1
  obtain ⟨u, f2, h2, h⟩ := bind_ok.1 h
  have hvar := F.varCount
  have hwidth := (f.modeOf v).width_pos
  obtain ⟨F2, -, C2⟩ := setValue_frame h2 F (by omega) hv
  have C2 := C2 (by omega)
  cases hw : (f.modeOf v).isTwoSlot with
  | true =>
    have hwidth : (f.modeOf v).width = 2 := by simp [Mode.width, hw]
    simp only [hw] at h
    obtain ⟨p, f3, h3, h⟩ := bind_ok.1 h
    obtain ⟨F3, C3, hp⟩ := bad_frame h3 F2
    have hx4 : f.maxStack.toNat + index.toNat + 1 < f3.builder.varCount := by rw [C3.varCount, C2.varCount]; omega
    obtain ⟨F4, -, C4⟩ := setValue_frame h F3 (by omega) hp
    exact ⟨F4, C2.trans (C3.trans (C4 hx4))⟩
  | false =>
    simp only [hw] at h
    cases h; exact ⟨F2, C2⟩

end Slots

end Frame

end JvmGraph
