import JvmGraph.Proofs.Body.Frame
import JvmGraph.Proofs.Body.Rules

/-!
# Operations that keep to the current block

All operations but branches, jumps, returns and throws are calm: they use nodes of the current block and of
the start block, and add such nodes. What is kept besides by steps that leave memory alone, and by the few that
touch it, is kept by all these operations.
-/

namespace JvmGraph

open Steps JvmGraph.Frame NodeContract List JvmGraph.Graph Body Ssa

variable {op : Op} {inputs : List NodeId} {number : Nat} {t t' : BodyState} {n : NodeId} {α : Type} {a : α}
  {x : Step α} {e : EntityId}

/-- Nodes of this sort compute something: control does not leave at them, and they are not put in by a builder. -/
def Op.isPlain : Op → Bool
  | .phi | .forward | .jmp | .cond | .ret | .proj _ => false
  | _ => true

lemma Op.isPlain_of_isOrdinary (h : op.isOrdinary false = true) : op.isPlain = true := by
  cases op <;> first | rfl | cases h

lemma Op.isPlain_of_leavesMemory (h : op.leavesMemory = true) : op.isPlain = true := by
  cases op <;> first | rfl | cases h

lemma Op.leavesMemory_of_isOrdinary {jumps : Bool} (h : op.isOrdinary jumps = true) : op.leavesMemory = false := by
  cases op <;> first | rfl | cases h

lemma Node.not_isExit_of_isPlain {mode : Mode} {b : BlockId} (h : op.isPlain = true) :
    ¬ Node.IsExit ⟨op, mode, b, inputs⟩ := by
  rintro (hx | hx | hx | ⟨-, k, hx⟩) <;> simp only at hx <;> rw [hx] at h <;> cases h

lemma Body.onFrame_ok : onFrame x t = .ok a t' ↔ ∃ f', x t.frame = .ok a f' ∧ t' = { t with frame := f' } := by
  obtain ⟨world, frame, blocks, initialized⟩ := t
  cases hx : x frame with
  | ok b f =>
    simp only [onFrame, hx, EStateM.Result.ok.injEq]
    constructor
    · rintro ⟨rfl, rfl⟩; exact ⟨f, ⟨rfl, rfl⟩, rfl⟩
    · rintro ⟨f', ⟨rfl, rfl⟩, rfl⟩; exact ⟨rfl, rfl⟩
  | error e f => simp [onFrame, hx]

lemma Body.onWorld_ok {x : Load α} :
    onWorld x t = .ok a t' ↔ ∃ w', x t.world = .ok a w' ∧ t' = { t with world := w' } := by
  obtain ⟨world, frame, blocks, initialized⟩ := t
  cases hx : x world with
  | ok b w =>
    simp only [onWorld, hx, EStateM.Result.ok.injEq]
    constructor
    · rintro ⟨rfl, rfl⟩; exact ⟨w, ⟨rfl, rfl⟩, rfl⟩
    · rintro ⟨w', ⟨rfl, rfl⟩, rfl⟩; exact ⟨rfl, rfl⟩
  | error e w => simp [onWorld, hx]

/-! ## Steps on the frame -/

namespace Frame

/-- Steps that keep to the current block, and keep `I`. The nodes of that block and of the start block are at hand. -/
def calming (I : Ssa.Builder → Prop) : NodeContract Frame :=
  { Contract.ofDoes (fun f => Fit f ∧ I f.builder) Calm .refl .trans with
    has := fun f n => f.builder.Near n
    has_later := fun C h => C.near h }

abbrev calm : NodeContract Frame := calming fun _ => True

section Calm

variable {I : Builder → Prop} {L : List NodeId} {K : α → List NodeId} {f f' : Frame}

lemma calm_of_ok (h : ∀ f f' a, Fit f → (∀ n ∈ L, f.builder.Near n) → x f = .ok a f' →
    Fit f' ∧ Calm f f' ∧ ∀ n ∈ K a, f'.builder.Near n) : calm.Keeps L x K := by
  intro f hf hL
  cases hx : x f with
  | ok a f' =>
    obtain ⟨F, C, hK⟩ := h f f' a hf.1 hL hx; exact ⟨⟨⟨F, trivial⟩, C⟩, hK⟩
  | error e f' => trivial

lemma calm_ok (h : calm.Keeps L x K) (F : Fit f) (hL : ∀ n ∈ L, f.builder.Near n) (hx : x f = .ok a f') :
    Fit f' ∧ Calm f f' ∧ ∀ n ∈ K a, f'.builder.Near n := by
  obtain ⟨⟨⟨F', -⟩, C⟩, hK⟩ := (h f ⟨F, trivial⟩ hL).ok hx
  exact ⟨F', C, hK⟩

lemma calming_of_calm (h : calm.Keeps L x K)
    (hI : ∀ f f' a, Fit f → (∀ n ∈ L, f.builder.Near n) → I f.builder → x f = .ok a f' → I f'.builder) :
    (calming I).Keeps L x K := by
  intro f hf hL
  have hends := h f ⟨hf.1, trivial⟩ hL
  cases hx : x f with
  | ok a f' =>
    rw [hx] at hends; exact ⟨⟨⟨hends.1.1.1, hI f f' a hf.1 hL hf.2 hx⟩, hends.1.2⟩, hends.2⟩
  | error e f' => trivial

end Calm

section Nodes

variable {L : List NodeId} {mode : Mode} {f f' : Frame} {tuple : NodeId}

lemma add_ok {c : Ssa.Builder → BlockId} (h : build (do
      let s ← get
      Ssa.onGraph fun g => g.add (c s) op mode inputs) f = .ok n f') :
    n = f.graph.fresh ∧ f' = { f with builder := f.builder.place (c f.builder) op mode inputs } := by
  obtain ⟨s', hs, rfl⟩ := build_ok.1 h
  replace hs := get_bind_ok.1 hs
  cases hs
  exact ⟨rfl, rfl⟩

lemma addNode_ok (h : addNode op mode inputs f = .ok n f') :
    n = f.graph.fresh ∧ f' = { f with builder := f.builder.place f.builder.current op mode inputs } :=
  add_ok (c := Builder.current) h

lemma addProj_ok (h : build (addProj tuple mode number) f = .ok n f') : n = f.graph.fresh ∧
      f' = { f with builder := f.builder.place (f.graph.node tuple).block (.proj number) mode [tuple] } :=
  add_ok (c := fun s => (s.graph.node tuple).block) h

lemma calm_add (c : Ssa.Builder → BlockId)
    (hc : ∀ f, Fit f → (∀ n ∈ L, f.builder.Near n) → (c f.builder = f.builder.current ∨ c f.builder = startBlock) ∧
      ∀ i ∈ inputs, f.graph.Has i ∧
        ((f.graph.node i).block = c f.builder ∨ (f.graph.node i).block = startBlock)) (ho : op ≠ .phi)
    (hf : op ≠ .forward) (hx : ∀ b, ¬ Node.IsExit ⟨op, mode, b, inputs⟩) : calm.Gives L (build (do
      let s ← get
      Ssa.onGraph fun g => g.add (c s) op mode inputs)) := by
  refine calm_of_ok fun f f' n F hL h => ?_
  cases h
  obtain ⟨hcur, hi⟩ := hc f F hL
  obtain ⟨F', C, hnear⟩ := F.place op mode inputs hcur ho hf hi (hx _)
  exact ⟨F', C, fun n hn => by rwa [mem_singleton.1 hn]⟩

lemma calm_addNode (ho : op.isPlain = true) (hi : ∀ i ∈ inputs, i ∈ L) : calm.Gives L (addNode op mode inputs) :=
  calm_add Builder.current (fun _ _ hL => ⟨.inl rfl, fun i h => hL i (hi i h)⟩) (by rintro rfl; cases ho)
    (by rintro rfl; cases ho)
    fun _ => Node.not_isExit_of_isPlain ho

lemma calm_addProj (hm : mode ≠ .control) (ht : tuple ∈ L) : calm.Gives L (build (Ssa.addProj tuple mode number)) := by
  refine calm_add (fun s => (s.graph.node tuple).block) (fun f _ hL => ⟨(hL tuple ht).2, fun i h => ?_⟩)
    (by simp) (by simp)
    fun _ => by simp [Node.IsExit, hm]
  rw [mem_singleton.1 h]
  exact ⟨(hL tuple ht).1, .inl rfl⟩

lemma calm_arg (hm : mode ≠ .control) : calm.Gives L (onGraph fun g => g.arg number mode) := by
  refine calm_add (fun s => (s.graph.node start).block)
    (fun f F _ => ⟨.inr (congrArg Node.block F.start), fun i h => ?_⟩)
    (by simp) (by simp) fun _ => by simp [Node.IsExit, hm]
  rw [mem_singleton.1 h]
  exact ⟨F.start_lt, .inl rfl⟩

lemma calm_getStore : calm.Gives L (build getStore) := by
  refine calm_of_ok fun f f' n F _ h => ?_
  obtain ⟨s', hs, rfl⟩ := build_ok.1 h
  obtain ⟨F', C, hn, -⟩ := getValue_frame (build_ok.2 ⟨s', hs, rfl⟩) F (le_refl _)
  exact ⟨F', C, by simpa using hn⟩

lemma calm_setStore {v : NodeId} (hv : v ∈ L) : calm.Runs L (build (setStore v)) := by
  refine calm_of_ok fun f f' u F hL h => ?_
  obtain ⟨s', hs, rfl⟩ := build_ok.1 h
  obtain ⟨F', C, -⟩ := setValue_frame (build_ok.2 ⟨s', hs, rfl⟩) F (le_refl _) (hL v hv)
  exact ⟨F', C, by simp⟩

lemma calm_memoryOp (ho : op.isPlain = true) (hi : ∀ i ∈ inputs, i ∈ L) : calm.Gives L (memoryOp op inputs) :=
  calm_getStore.bind fun _ => (calm_addNode ho (by simpa using fun i h => Or.inr (hi i h))).bind fun _ =>
    (calm_addProj (by simp) (by simp)).bind fun _ => (calm_setStore (by simp)).bind fun _ => .pure (by simp)

lemma calm_address : calm.Gives L (address e) :=
  calm_add (fun _ => startBlock) (fun _ _ _ => ⟨.inr rfl, by simp⟩) (by simp) (by simp)
    fun _ => Node.not_isExit_of_isPlain rfl

end Nodes

def callSelected (e : EntityId) (args : List NodeId) : Step NodeId := do
  let memory ← build Ssa.getStore
  let code ← addNode (.methodSel e) .reference (memory :: args.take 1)
  memoryOp .call (code :: args)

/-- A property of builders that is kept by steps which leave memory alone, and by those that touch it. -/
structure Lasting (I : Ssa.Builder → Prop) : Prop where
  aside : ∀ {s s'}, Ssa.Aside s s' → I s → I s'
  getStore : ∀ {f f' m}, Fit f → I f.builder → build Ssa.getStore f = .ok m f' → I f'.builder
  memoryOp : ∀ {f f' op inputs k}, Fit f → I f.builder → op.leavesMemory = true → op ≠ .call →
    Frame.memoryOp op inputs f = .ok k f' → I f'.builder
  callAt : ∀ {f f' e args k}, Fit f → I f.builder → (do Frame.memoryOp .call ((← address e) :: args)) f = .ok k f' →
    I f'.builder
  select : ∀ {f f' e args k}, Fit f → I f.builder → callSelected e args f = .ok k f' → I f'.builder

lemma lasting_true : Lasting fun _ => True :=
  ⟨fun _ _ => trivial, fun _ _ _ => trivial, fun _ _ _ _ _ => trivial, fun _ _ _ => trivial, fun _ _ _ => trivial⟩

namespace Lasting

variable {I : Builder → Prop} (hI : Lasting I) {L : List NodeId} {mode : Mode}

include hI

lemma still {K : α → List NodeId} (h : ∀ f f' a, Fit f → (∀ n ∈ L, f.builder.Near n) → x f = .ok a f' →
    Fit f' ∧ Still f f' ∧ ∀ n ∈ K a, f'.builder.Near n) : (calming I).Keeps L x K := by
  refine calming_of_calm (calm_of_ok fun f f' a F hL hx => ?_) fun f f' a F hL h0 hx =>
    hI.aside (h f f' a F hL hx).2.1.toAside h0
  obtain ⟨F', S, hK⟩ := h f f' a F hL hx
  exact ⟨F', S.toCalm, hK⟩

lemma add (c : Ssa.Builder → BlockId) (hl : op.leavesMemory = false) (hs : op.isSelection = false)
    (h : calm.Gives L (build (do
      let s ← get
      Ssa.onGraph fun g => g.add (c s) op mode inputs))) : (calming I).Gives L (build (do
      let s ← get
      Ssa.onGraph fun g => g.add (c s) op mode inputs)) := by
  refine calming_of_calm h fun f f' n _ _ h0 hx => ?_
  cases hx
  exact hI.aside (.place f.builder (c f.builder) mode inputs hl hs) h0

lemma arg (hm : mode ≠ .control) : (calming I).Gives L (onGraph fun g => g.arg number mode) :=
  hI.add (fun s => (s.graph.node start).block) rfl rfl (calm_arg hm)

lemma rules : FrameRules false (calming I) where
  push hv := hI.still fun _ _ _ F hL h =>
    have ⟨F', S⟩ := push_spec h F (hL _ hv)
    ⟨F', S, by simp⟩
  pop := hI.still fun _ _ _ F _ h =>
    have ⟨F', S, hn⟩ := pop_spec h F
    ⟨F', S, by simpa using hn⟩
  pushSlot hv := hI.still fun _ _ _ F hL h =>
    have ⟨F', S⟩ := pushSlot_spec h F (hL _ hv)
    ⟨F', S, by simp⟩
  popSlot := hI.still fun _ _ _ F _ h =>
    have ⟨F', S, hn⟩ := popSlot_spec h F
    ⟨F', S, by simpa using hn⟩
  getLocal := hI.still fun _ _ _ F _ h =>
    have ⟨F', S, hn⟩ := getLocal_spec h F
    ⟨F', S, by simpa using hn⟩
  setLocal hv := hI.still fun _ _ _ F hL h =>
    have ⟨F', S⟩ := setLocal_spec h F (hL _ hv)
    ⟨F', S, by simp⟩
  node ho hi := hI.add Ssa.Builder.current (Op.leavesMemory_of_isOrdinary ho) (Op.isSelection_of_isOrdinary ho)
    (calm_addNode (Op.isPlain_of_isOrdinary ho) hi)
  constant := hI.add (fun _ => startBlock) rfl rfl
    (calm_add _ (fun _ _ _ => ⟨.inr rfl, by simp⟩) (by simp) (by simp) fun _ => Node.not_isExit_of_isPlain rfl)
  address := hI.add (fun _ => startBlock) rfl rfl calm_address
  proj hm ht := by
    refine hI.add (fun s => (s.graph.node _).block) rfl rfl (calm_addProj ?_ ht)
    rintro rfl; simp [Mode.isValue] at hm
  memoryOp ho hc hi := calming_of_calm (calm_memoryOp (Op.isPlain_of_leavesMemory ho) hi) fun _ _ _ F _ h0 =>
    hI.memoryOp F h0 ho hc
  callAt ha :=
    calming_of_calm (calm_address.bind fun _ => calm_memoryOp rfl (by simpa using fun i h => Or.inr (ha i h)))
    fun _ _ _ F _ h0 => hI.callAt F h0
  getStore := calming_of_calm calm_getStore fun _ _ _ F _ h0 => hI.getStore F h0

lemma keeps_callSelected {args : List NodeId} (ha : ∀ i ∈ args, i ∈ L) : (calming I).Gives L (callSelected e args) := by
  refine calming_of_calm (calm_getStore.bind fun memory => (calm_addNode rfl fun i hi => ?_).bind fun code =>
    calm_memoryOp rfl (by simpa using fun i h => Or.inr (Or.inr (ha i h)))) fun _ _ _ F _ h0 => hI.select F h0
  rcases mem_cons.1 hi with rfl | hi
  · exact mem_append_left _ (mem_singleton_self i)
  · exact mem_append_right _ (ha i (mem_of_mem_take hi))

end Lasting

end Frame

/-! ## Bodies -/

namespace Body

/-- Steps through a body that keep to the current block and leave the table of blocks alone. -/
def calming (I : Ssa.Builder → Prop) : NodeContract BodyState :=
  { Contract.ofDoes (fun t => Fit t.frame ∧ I t.frame.builder)
    (fun t t' => Calm t.frame t'.frame ∧ t'.blocks = t.blocks)
      (fun _ => ⟨.refl _, rfl⟩) (by rintro s t u ⟨h, ht⟩ ⟨h', ht'⟩; exact ⟨h.trans h', ht'.trans ht⟩) with
    has := fun t n => t.frame.builder.Near n
    has_later := fun h => h.1.near }

abbrev calm : NodeContract BodyState := calming fun _ => True

variable {I : Builder → Prop} {L : List NodeId} {K : α → List NodeId}

lemma calming_onFrame (hx : (Frame.calming I).Keeps L x K) : (calming I).Keeps L (onFrame x) K := by
  rintro ⟨world, frame, blocks, initialized⟩ ht hL
  have h := hx frame ht hL
  simp only [onFrame]
  cases hr : x frame with
  | ok a f => rw [hr] at h; exact ⟨⟨h.1.1, h.1.2, rfl⟩, h.2⟩
  | error e f => trivial

lemma calming_onWorld {x : Load α} : (calming I).Runs [] (onWorld x) := by
  rintro ⟨world, frame, blocks, initialized⟩ ht -
  simp only [onWorld]
  cases x world with
  | ok a w => exact ⟨⟨ht, .refl _, rfl⟩, by simp⟩
  | error e w => trivial

lemma calming_rules (hI : Lasting I) (ctx : MethodContext) : BodyRules false ctx (calming I) where
  frame := ⟨Frame.calming I, hI.rules, calming_onFrame⟩
  world := ⟨World.loading, ((World.loading_rules ctx.source).refs _).world, fun _ => calming_onWorld⟩
  initialized _ _ ht _ := ⟨⟨ht, .refl _, rfl⟩, by simp⟩
  select := by
    refine ⟨fun _ _ => True, fun _ _ _ => trivial, fun _ _ _ _ _ => trivial, fun e args t ht ha _ => ?_⟩
    have h := calming_onFrame (hI.keeps_callSelected (e := e) fun _ hn => hn) t ht ha
    simpa only [Frame.callSelected, callSelected, onFrame_bind] using h

lemma calm_rules (ctx : MethodContext) : BodyRules false ctx calm := calming_rules lasting_true ctx

lemma calm_ok {x : Body α} (h : calm.Keeps L x K) (F : Fit t.frame) (hL : ∀ n ∈ L, t.frame.builder.Near n)
    (hx : x t = .ok a t') :
    Fit t'.frame ∧ Calm t.frame t'.frame ∧ t'.blocks = t.blocks ∧ ∀ n ∈ K a, t'.frame.builder.Near n := by
  obtain ⟨⟨⟨F', -⟩, C, ht⟩, hK⟩ := (h t ⟨F, trivial⟩ hL).ok hx
  exact ⟨F', C, ht, hK⟩

end Body

end JvmGraph
