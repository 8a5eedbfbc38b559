import JvmGraph.MethodBody.Assembly
import JvmGraph.Proofs.Bytecode.Flow
import JvmGraph.Proofs.Graph.Threads
import JvmGraph.Proofs.Loading.Resolve

/-!
# Contracts of method bodies

The operations of a method body are put together from few primitives: those of the frame, steps that touch
memory, and steps on the world. A contract that the primitives keep to is kept by all operations. It may
ask for the nodes that a step works on, and say so of the nodes that the step gives.
-/

namespace JvmGraph

open Steps World List JvmGraph.Frame Body Ssa

variable {index : UInt16} {kind : Kind} {op : Op} {args : List NodeId} {v : NodeId} {what : Unsupported} {e : EntityId}
  {form : CallForm}

/-! ## Steps on nodes -/

/-- A contract, and the nodes that are at hand in a state. What is at hand stays so. -/
structure NodeContract (σ : Type) extends Contract σ where
  has : σ → NodeId → Prop
  has_later : ∀ {s s' n}, does s s' → has s n → has s' n

namespace NodeContract

variable {σ α β : Type} {C : NodeContract σ} {L : List NodeId} {K : α → List NodeId} {K' : β → List NodeId}
  {x : EStateM Error σ α} {s : σ}

def Yields (C : NodeContract σ) (s : σ) (K : α → List NodeId) (r : EStateM.Result Error σ α) : Prop :=
  Ends r (fun a s' => (C.inv s' ∧ C.does s s') ∧ ∀ n ∈ K a, C.has s' n) (C.fails s)

def Keeps (C : NodeContract σ) (L : List NodeId) (x : EStateM Error σ α) (K : α → List NodeId) : Prop :=
  ∀ s, C.inv s → (∀ n ∈ L, C.has s n) → C.Yields s K (x s)

/-- The step gives a node. -/
abbrev Gives (C : NodeContract σ) (L : List NodeId) (x : EStateM Error σ NodeId) : Prop := C.Keeps L x fun n => [n]

/-- The step gives no node. -/
abbrev Runs (C : NodeContract σ) (L : List NodeId) (x : EStateM Error σ α) : Prop := C.Keeps L x fun _ => []

lemma Yields.after {s' : σ} {r : EStateM.Result Error σ α} (hdoes : C.does s s') (h : C.Yields s' K r) :
    C.Yields s K r :=
  h.imp (fun _ _ h => ⟨⟨h.1.1, C.trans hdoes h.1.2⟩, h.2⟩) fun _ h => C.fails_trans hdoes h

lemma Yields.bind {f : α → EStateM Error σ β} (hx : C.Yields s K (x s))
    (hf : ∀ a s', C.inv s' → C.does s s' → (∀ n ∈ K a, C.has s' n) → C.Yields s' K' (f a s')) :
    C.Yields s K' ((x >>= f) s) :=
  ends_bind hx fun a s' h => Yields.after h.1.2 (hf a s' h.1.1 h.1.2 h.2)

namespace Keeps

lemma pure {a : α} (h : ∀ n ∈ K a, n ∈ L) : C.Keeps L (pure a) K :=
  fun _ hs hL => ⟨⟨hs, C.refl hs⟩, fun n hn => hL n (h n hn)⟩

lemma done {a : α} : C.Runs L (.pure a) := pure (by simp)

lemma throw {e : Error} : C.Keeps L (throw e) K := fun _ hs _ => C.fails_refl hs

lemma bind {f : α → EStateM Error σ β} (hx : C.Keeps L x K)
    (hf : ∀ a, C.Keeps (K a ++ L) (f a) K') : C.Keeps L (x >>= f) K' :=
  fun s hs hL => (hx s hs hL).bind fun a s' hs' hdoes hK => hf a s' hs' fun n hn =>
    (mem_append.1 hn).elim (hK n) fun h => C.has_later hdoes (hL n h)

lemma get {f : σ → EStateM Error σ α} (hf : ∀ s, C.Keeps L (f s) K) : C.Keeps L (get >>= f) K := fun s => hf s s

lemma ite {p : Prop} [Decidable p] {y : EStateM Error σ α} (hx : C.Keeps L x K) (hy : C.Keeps L y K) :
    C.Keeps L (if p then x else y) K := by
  split
  · exact hx
  · exact hy

lemma mono {L' : List NodeId} (hx : C.Keeps L x K) (h : ∀ n ∈ L, n ∈ L') : C.Keeps L' x K :=
  fun s hs hL => hx s hs fun n hn => hL n (h n hn)

end Keeps

def ofContract (C : Contract σ) : NodeContract σ := { C with has := fun _ _ => True, has_later := fun _ _ => trivial }

lemma keeps_of_honours {C : Contract σ} (h : C.Honours x) : (ofContract C).Keeps L x K :=
  fun s hs _ => (h s hs).imp (fun _ _ h => ⟨h, fun _ _ => trivial⟩) fun _ h => h

lemma Keeps.honours {C : Contract σ} (h : (ofContract C).Keeps L x K) : C.Honours x :=
  fun s hs => (h s hs fun _ _ => trivial).imp (fun _ _ h => h.1) fun _ h => h

end NodeContract

open NodeContract

/-- Operations that compute something from values alone, or hand on control if `jumps` says so. -/
def Op.isOrdinary (jumps : Bool) : Op → Bool
  | .phi | .forward | .proj _ => false
  | .jmp | .cond => jumps
  | op => !op.takesMemory

lemma Op.isSelection_of_isOrdinary {jumps : Bool} (h : op.isOrdinary jumps = true) : op.isSelection = false := by
  cases op <;> first | rfl | cases h

def Mode.isValue : Mode → Bool
  | .memory | .control => false
  | _ => true

lemma Kind.isValue_mode (kind : Kind) : kind.mode.isValue = true := by cases kind <;> rfl

lemma FieldType.isValue_mode (type : FieldType) : type.mode.isValue = true := by
  cases type with
  | base k => exact k.isValue_mode
  | object _ | array _ => rfl

structure FrameRules (jumps : Bool) (C : NodeContract Frame) : Prop where
  push : ∀ {L v}, v ∈ L → C.Runs L (Frame.push v)
  pop : ∀ {L mode}, C.Gives L (Frame.pop mode)
  pushSlot : ∀ {L v}, v ∈ L → C.Runs L (Frame.pushSlot v)
  popSlot : ∀ {L}, C.Gives L Frame.popSlot
  getLocal : ∀ {L index mode}, C.Gives L (Frame.getLocal index mode)
  setLocal : ∀ {L index v}, v ∈ L → C.Runs L (Frame.setLocal index v)
  node : ∀ {L op mode inputs}, op.isOrdinary jumps = true → (∀ i ∈ inputs, i ∈ L) →
    C.Gives L (Frame.addNode op mode inputs)
  constant : ∀ {L mode bits}, C.Gives L (Frame.onGraph fun g => g.constant mode bits)
  address : ∀ {L e}, C.Gives L (Frame.address e)
  proj : ∀ {L tuple mode number}, mode.isValue = true ∨ mode = .control ∧ jumps = true → tuple ∈ L →
    C.Gives L (Frame.build (Ssa.addProj tuple mode number))
  memoryOp : ∀ {L op inputs}, op.leavesMemory = true → op ≠ .call → (∀ i ∈ inputs, i ∈ L) →
    C.Gives L (Frame.memoryOp op inputs)
  callAt : ∀ {L e args}, (∀ i ∈ args, i ∈ L) → C.Gives L (do Frame.memoryOp .call ((← Frame.address e) :: args))
  getStore : ∀ {L}, C.Gives L (Frame.build Ssa.getStore)

/-! ## Operations within a frame -/

/-- What a value is compared with if it is the only one. -/
def Frame.zeroOf (kind : Kind) : Step NodeId :=
  if kind.mode = .reference then onGraph Graph.null else constInt 0

def Frame.compared (kind : Kind) (binary : Bool) : Step (NodeId × NodeId) := do
  let last ← pop kind.mode
  if binary then
    let left ← pop kind.mode
    pure (left, last)
  else
    let zero ← zeroOf kind
    pure (last, zero)

lemma Frame.condition_eq (kind : Kind) (binary : Bool) (way : Comparison) : condition kind binary way = (do
      let (left, right) ← compared kind binary
      let cmp ← addNode (.cmp (relationOf way)) .bool [left, right]
      let cond ← addNode .cond .tuple [cmp]
      let taken ← build (addProj cond .control Projection.condTrue)
      let fall ← build (addProj cond .control Projection.condFalse)
      return (taken, fall)) := by
  unfold condition compared zeroOf
  cases binary with
  | true => simp
  | false =>
    by_cases h : kind.mode = .reference
    · simp [h]
    · simp [h]

namespace FrameRules

variable {jumps : Bool} {C : NodeContract Frame} {L : List NodeId} {mode : Mode} (R : FrameRules jumps C)
  {place : NodeId} {value : Int}

include R

lemma convert (hv : v ∈ L) : C.Gives L (convert v mode) :=
  .get fun _ => .ite (.pure (by simpa using hv)) (R.node rfl (by simpa using hv))

lemma memoryValue {inputs : List NodeId} (ho : op.leavesMemory = true) (hc : op ≠ .call) (hm : mode.isValue = true)
    (hi : ∀ i ∈ inputs, i ∈ L) : C.Gives L (memoryValue op inputs mode) :=
  (R.memoryOp ho hc hi).bind fun _ => R.proj (.inl hm) (by simp)

lemma load (hm : mode.isValue = true) (hp : place ∈ L) : C.Gives L (load place mode) :=
  R.memoryValue rfl (by simp) hm (by simpa using hp)

lemma store (hp : place ∈ L) (hv : v ∈ L) : C.Runs L (store place v) :=
  (R.memoryOp rfl (by simp) (by simpa using ⟨hp, hv⟩)).bind fun _ => .done

lemma pushLoaded (hv : v ∈ L) : C.Runs L (pushLoaded v mode) :=
  (R.convert hv).bind fun _ => R.push (by simp)

lemma explicitConstant : C.Gives L (Frame.explicitConstant kind value) := by
  unfold Frame.explicitConstant
  split <;> exact R.constant

lemma binary (ho : op.isOrdinary jumps = true) : C.Gives L (arithmeticResult.binary mode op) :=
  R.pop.bind fun _ => R.pop.bind fun _ => R.node ho (by simp)

lemma shift (ho : op.isOrdinary jumps = true) : C.Gives L (arithmeticResult.shift mode op) :=
  R.pop.bind fun _ => (R.convert (by simp)).bind fun _ => R.pop.bind fun _ => R.node ho (by simp)

lemma divide (ho : op.leavesMemory = true) (hc : op ≠ .call) (hm : mode.isValue = true) :
    C.Gives L (arithmeticResult.divide mode op) :=
  R.pop.bind fun _ => R.pop.bind fun _ => R.memoryValue ho hc hm (by simp)

lemma arithmetic {op : Arithmetic} : C.Runs L (arithmetic kind op) := by
  have hresult : C.Gives L (arithmeticResult kind.mode op) := by
    cases op with
    | neg => exact R.pop.bind fun _ => R.node rfl (by simp)
    | shl | shr | ushr => exact R.shift rfl
    | div | rem => exact R.divide rfl (by simp) kind.isValue_mode
    | add | sub | mul | and | or | xor => exact R.binary rfl
  exact hresult.bind fun _ => R.push (by simp)

lemma compare {nans : Option NanOrder} : C.Runs L (compare kind nans) := by
  refine R.pop.bind fun _ => R.pop.bind fun _ => ?_
  exact (R.node rfl (by simp)).bind fun _ => (R.node rfl (by simp)).bind fun _ => (R.convert (by simp)).bind fun _ =>
    (R.convert (by simp)).bind fun _ => (R.node rfl (by simp)).bind fun _ => R.push (by simp)

lemma conversion {source target : Kind} : C.Runs L (conversion source target) :=
  R.pop.bind fun _ => (R.convert (by simp)).bind fun _ => R.pushLoaded (by simp)

lemma popSlots {n : Nat} : C.Keeps L (popSlots n) id := by
  induction n generalizing L with
  | zero => exact .pure (by simp)
  | succ n ih => exact R.popSlot.bind fun _ => ih.bind fun _ => .pure (by simp +contextual)

lemma pushSlots {vs : List NodeId} (h : ∀ v ∈ vs, v ∈ L) : C.Runs L (pushSlots vs) := by
  induction vs with
  | nil => exact .done
  | cons v vs ih => exact (R.pushSlot (h v (by simp))).bind fun _ => ih fun u hu => h u (mem_cons_of_mem v hu)

lemma shuffle {wide : Bool} {how : Shuffle} : C.Runs L (shuffle wide how) := by
  refine R.popSlots.bind fun slots => R.pushSlots fun v hv => ?_
  obtain ⟨i, -, hi⟩ := mem_filterMap.1 hv
  exact mem_append_left _ (mem_of_getElem? hi)

lemma increment : C.Runs L (increment index value) :=
  R.getLocal.bind fun _ => R.constant.bind fun _ => (R.node rfl (by simp)).bind fun _ => R.setLocal (by simp)

lemma elementAddress {array index : NodeId} (ha : array ∈ L) (hi : index ∈ L) :
    C.Gives L (elementAddress array index mode) :=
  R.constant.bind fun _ => (R.node rfl (by simp [hi])).bind fun _ => R.constant.bind fun _ =>
    (R.node rfl (by simp)).bind fun _ => R.node rfl (by simp [ha])

lemma loadArray : C.Runs L (loadArray kind) :=
  R.pop.bind fun _ => R.pop.bind fun _ => (R.elementAddress (by simp) (by simp)).bind fun _ =>
    (R.load kind.isValue_mode (by simp)).bind fun _ => R.pushLoaded (by simp)

lemma storeArray : C.Runs L (storeArray kind) :=
  R.pop.bind fun _ => R.pop.bind fun _ => R.pop.bind fun _ => (R.elementAddress (by simp) (by simp)).bind fun _ =>
    (R.convert (by simp)).bind fun _ => R.store (by simp) (by simp)

lemma arrayLength : C.Runs L arrayLength :=
  R.pop.bind fun _ => (R.memoryValue rfl (by simp) rfl (by simp)).bind fun _ => R.push (by simp)

lemma compared {binary : Bool} : C.Keeps L (compared kind binary) fun p => [p.1, p.2] := by
  have zero : ∀ {L}, C.Gives L (zeroOf kind) := .ite R.constant R.constant
  exact R.pop.bind fun _ => .ite (R.pop.bind fun _ => .pure (by simp)) (zero.bind fun _ => .pure (by simp))

omit R in
lemma condition (R : FrameRules true C) {way : Comparison} {binary : Bool} :
    C.Keeps L (condition kind binary way) fun p => [p.1, p.2] := by
  rw [condition_eq]
  exact R.compared.bind fun _ => (R.node rfl (by simp)).bind fun _ => (R.node rfl (by simp)).bind fun _ =>
    (R.proj (.inr ⟨rfl, rfl⟩) (by simp)).bind fun _ => (R.proj (.inr ⟨rfl, rfl⟩) (by simp)).bind fun _ =>
      .pure (by simp)

end FrameRules

/-! ## Operations on classes and objects -/

lemma Body.onFrame_bind {α β : Type} (x : Frame.Step α) (f : α → Frame.Step β) :
    onFrame (x >>= f) = onFrame x >>= fun a => onFrame (f a) := by
  funext ⟨world, frame, blocks, initialized⟩
  simp only [onFrame, bind, EStateM.bind]
  cases x frame with
  | ok a f' => rfl
  | error e f' => rfl

structure WorldRules (source : ClassSource) (c : ClassId) (file : ClassFile) (W : Contract World) :
    Prop extends ImageRules W where
  classRef : ∀ index, W.Honours (classRef source c file index)
  memberEntity : ∀ index kind, W.Honours (memberEntity source c file index kind)

section

variable {source : ClassSource} {c : ClassId} {file : ClassFile} {W : Contract World}

lemma RefRules.world (R : RefRules source c file W) :
    WorldRules source c file W := ⟨R.toImageRules, R.classRef, R.memberEntity⟩

lemma WorldRules.function (R : WorldRules source c file W) (f : RuntimeFunction) :
    W.Honours (Load.onImage fun im => im.function f) := R.image fun im => (Image.supplies_function im f).1

lemma WorldRules.classObjectOf? (R : WorldRules source c file W) (type : TypeRef) :
    W.Honours (classObjectOf? type) := by
  cases type with
  | ofClass c => exact .get fun w => .pure
  | prim k =>
    intro w hw; exact R.image (fun im => im.supplies_primitiveClass k) w hw
  | array element => exact .pure

end

def Body.callSelected (e : EntityId) (args : List NodeId) : Body NodeId := do
  let memory ← onFrame (Frame.build Ssa.getStore)
  let code ← onFrame (Frame.addNode (.methodSel e) .reference (memory :: args.take 1))
  onFrame (Frame.memoryOp .call (code :: args))

structure BodyRules (jumps : Bool) (ctx : MethodContext) (C : NodeContract BodyState) : Prop where
  frame : ∃ F, FrameRules jumps F ∧ ∀ {α : Type} {x : Frame.Step α} {L K}, F.Keeps L x K → C.Keeps L (Body.onFrame x) K
  world : ∃ W, WorldRules ctx.source ctx.owner ctx.file W ∧ ∀ {α : Type} {x : Load α}, W.Honours x →
    C.Runs [] (Body.onWorld x)
  initialized : ∀ cs : BodyState → List ClassId, C.Keeps [] (modify fun t => { t with initialized := cs t }) fun _ => []
  /-- `P` is what the contract asks of a method that is selected. -/
  select : ∃ P : BodyState → EntityId → Prop, (∀ t e, t.world.program.IsInstance e → P t e) ∧
    (∀ t t' e, C.does t t' → P t e → P t' e) ∧ ∀ e args t, C.inv t → (∀ n ∈ args, C.has t n) → P t e →
      C.Yields t (fun n => [n]) (Body.callSelected e args t)

namespace BodyRules

variable {jumps : Bool} {C : NodeContract BodyState} {ctx : MethodContext} {L : List NodeId} {mode : Mode}
    (R : BodyRules jumps ctx C)
  {α : Type} {K : α → List NodeId} {f : RuntimeFunction} {c : ClassId} {type : TypeRef}

include R

lemma onFrame {x : Frame.Step α} (hx : ∀ {F}, FrameRules jumps F → F.Keeps L x K) : C.Keeps L (onFrame x) K := by
  obtain ⟨F, hF, h⟩ := R.frame
  exact h (hx hF)

lemma onWorld {x : Load α} (hx : ∀ {W}, WorldRules ctx.source ctx.owner ctx.file W → W.Honours x) :
    C.Runs L (onWorld x) := by
  obtain ⟨W, hW, h⟩ := R.world
  exact (h (hx hW)).mono (by simp)

omit R in
lemma refuse : C.Keeps L (refuse what) K := .get fun _ => .throw

omit R in
lemma refuse_bind {β : Type} {f : β → Body α} : C.Keeps L (Body.refuse what >>= f) K :=
  fun _ hs _ => C.fails_refl hs

lemma pop : C.Gives L (Body.onFrame (Frame.pop mode)) := R.onFrame fun F => F.pop

lemma address : C.Gives L (Body.onFrame (Frame.address e)) := R.onFrame fun F => F.address

lemma callAt (ha : ∀ i ∈ args, i ∈ L) : C.Gives L (do
    let callee ← Body.onFrame (Frame.address e)
    Body.onFrame (memoryOp .call (callee :: args))) := by
  exact R.onFrame fun F => F.callAt ha

lemma callRuntime (ha : ∀ i ∈ args, i ∈ L) : C.Gives L (callRuntime f args) :=
  (R.onWorld fun W => W.function f).bind fun _ => R.callAt ha

lemma callRuntimeValue (hm : mode.isValue = true) (ha : ∀ i ∈ args, i ∈ L) :
    C.Gives L (callRuntimeValue f args mode) :=
  (R.callRuntime ha).bind fun _ => R.onFrame fun F => F.proj (.inl hm) (by simp)

lemma initClass : C.Runs L (initClass c) := by
  refine .get fun t => ?_
  split
  · exact .done
  · exact R.address.bind fun _ => (R.callRuntime (by simp)).bind fun _ => .done

lemma requireInit : C.Runs L (requireInit ctx c) :=
  .get fun _ => .ite .done (((R.initialized _).mono (by simp)).bind fun _ => R.initClass)

lemma requireInitOf : C.Runs L (requireInitOf ctx e) := by
  refine .get fun t => ?_
  split
  · exact R.requireInit
  · exact .done

lemma resolveClass : C.Runs L (resolveClass ctx index) := R.onWorld fun W => W.classRef index

lemma resolveMember {kind : RefKind} : C.Runs L (resolveMember ctx index kind) :=
  R.onWorld fun W => W.memberEntity index kind

lemma requireClassObject : C.Runs L (requireClassObject type what) := by
  refine (R.onWorld fun W => W.classObjectOf? type).bind fun e? => ?_
  split
  · exact .done
  · exact refuse

lemma pooledConstant : C.Gives L (pooledConstant ctx index) := by
  refine (R.onWorld fun _ => honours_pureStep _).bind fun c => ?_
  split
  · exact R.onFrame fun F => F.constant
  · exact R.onFrame fun F => F.constant
  · exact R.onFrame fun F => F.constant
  · exact R.onFrame fun F => F.constant
  · exact (R.onWorld fun _ => honours_pureStep _).bind fun bytes =>
      (R.onWorld fun W => W.image fun im => im.supplies_literal bytes).bind fun _ =>
        R.address.bind fun _ => R.callRuntimeValue rfl (by simp)
  · exact R.resolveClass.bind fun _ => R.requireClassObject.bind fun _ => R.onFrame fun F => F.address
  · exact .throw

omit R in
lemma resolveField_bind_eq (index : UInt16) (f : EntityId × Mode → Body α) : (Body.resolveField ctx index >>= f) = (do
      let e ← Body.resolveMember ctx index .field
      let t ← get
      match t.world.program.fieldAt? e with
      | some field => f (e, field.type.mode)
      | none => throw (.unexpectedConstant 0 .field)) := by
  simp only [Body.resolveField, bind_assoc]
  congr 1
  funext e
  congr 1
  funext t
  cases t.world.program.fieldAt? e <;> rfl

lemma resolveField_bind {f : EntityId × Mode → Body α}
    (hf : ∀ e mode, mode.isValue = true → C.Keeps L (f (e, mode)) K) :
    C.Keeps L (resolveField ctx index >>= f) K := by
  rw [resolveField_bind_eq]
  refine R.resolveMember.bind fun e => .get fun t => ?_
  split
  · exact hf _ _ (FieldType.isValue_mode _)
  · exact .throw

lemma getStatic : C.Runs L (getStatic ctx index) :=
  R.resolveField_bind fun _ _ hm => R.requireInitOf.bind fun _ => R.address.bind fun _ =>
    (R.onFrame fun F => F.load hm (by simp)).bind fun _ => R.onFrame fun F => F.pushLoaded (by simp)

lemma putStatic : C.Runs L (putStatic ctx index) :=
  R.resolveField_bind fun _ _ _ => R.pop.bind fun _ => R.requireInitOf.bind fun _ => R.address.bind fun _ =>
    (R.onFrame fun F => F.convert (by simp)).bind fun _ =>
      R.onFrame fun F => F.store (by simp) (by simp)

lemma getField : C.Runs L (getField ctx index) :=
  R.resolveField_bind fun _ _ hm => R.pop.bind fun _ =>
    (R.onFrame fun F => F.node rfl (by simp)).bind fun _ => (R.onFrame fun F => F.load hm (by simp)).bind fun _ =>
      R.onFrame fun F => F.pushLoaded (by simp)

lemma putField : C.Runs L (putField ctx index) :=
  R.resolveField_bind fun _ _ _ => R.pop.bind fun _ => R.pop.bind fun _ =>
    (R.onFrame fun F => F.node rfl (by simp)).bind fun _ => (R.onFrame fun F => F.convert (by simp)).bind fun _ =>
      R.onFrame fun F => F.store (by simp) (by simp)

lemma popArgs {modes : List Mode} : C.Keeps L (popArgs modes) id := by
  induction modes generalizing L with
  | nil => exact .pure (by simp)
  | cons mode rest ih =>
    exact R.pop.bind fun _ => (R.onFrame fun F => F.convert (by simp)).bind fun _ =>
      ih.bind fun _ => .pure (by simp +contextual)

lemma call_yields {P : BodyState → EntityId → Prop} {t : BodyState}
    (hselect : ∀ e args t, C.inv t → (∀ n ∈ args, C.has t n) → P t e → C.Yields t (fun n => [n])
    (Body.callSelected e args t))
    (ht : C.inv t) (ha : ∀ n ∈ args, C.has t n) (he : form ≠ .static → P t e) : C.Yields t (fun n => [n]) ((do
      let code ← Body.callee ctx form e args
      Body.onFrame (memoryOp .call (code :: args))) t) := by
  simp only [Body.callee]
  cases form with
  | static =>
    simp only [bind_assoc]; exact (R.requireInitOf.bind fun _ => R.callAt fun _ h => h) t ht ha
  | special => exact R.callAt (fun _ h => h) t ht ha
  | virtual | interface _ | dynamic =>
    simp only [bind_assoc]; exact hselect e args t ht ha (he (nofun))

lemma pushResult {m : Method} {call : NodeId} (hcall : call ∈ L) : C.Runs L (match m.resultMode? with
    | none => pure ()
    | some mode => do
      let value ← Body.onFrame (build (addProj call mode Projection.result))
      Body.onFrame (pushLoaded value mode)) := by
  split
  · exact .done
  · rename_i mode hmode
    obtain ⟨type, -, rfl⟩ := Option.map_eq_some_iff.1 hmode
    exact (R.onFrame fun F => F.proj (.inl type.isValue_mode) hcall).bind fun _ =>
      R.onFrame fun F => F.pushLoaded (by simp)

lemma invokeMethod {kind : RefKind} : C.Runs L (Body.invokeMethod ctx form kind index) := by
  refine R.resolveMember.bind fun e => ?_
  intro t ht hL
  refine ends_get_bind ?_
  cases hm : (t.world.program.entityAt e).method? with
  | none => exact C.fails_refl ht
  | some m =>
    have hrest : (form ≠ .static → m.isStatic = false) → C.Yields t (fun _ => []) ((do
        let args := (← Body.popArgs m.paramModes.reverse).reverse
        let code ← Body.callee ctx form e args
        let call ← Body.onFrame (memoryOp .call (code :: args))
        match m.resultMode? with
        | none => return
        | some mode =>
          let value ← Body.onFrame (build (addProj call mode Projection.result))
          Body.onFrame (pushLoaded value mode) : Body Unit) t) := by
      intro hstatic
      obtain ⟨P, hinstance, hkeep, hselect⟩ := R.select
      refine (R.popArgs t ht hL).bind fun args t1 h1 hdoes hargs => ends_bind_assoc ?_
      refine Yields.bind (R.call_yields hselect h1 (fun n hn => hargs n (mem_reverse.1 hn)) fun h => ?_)
        fun call t2 h2 _ hcall =>
        R.pushResult (mem_singleton_self call) t2 h2 hcall
      exact hkeep _ _ _ hdoes (hinstance _ _ ⟨m, hm, hstatic h⟩)
    simp only []
    split
    · exact C.fails_refl ht
    · rename_i h; exact hrest fun hform => by simpa [hform] using h

lemma invoke : C.Runs L (Body.invoke ctx form index) := by
  unfold Body.invoke
  split
  · exact refuse
  · exact R.invokeMethod
  · exact R.invokeMethod

lemma alloc {count : NodeId} (hc : count ∈ L) : C.Runs L (alloc type count) :=
  (R.onFrame fun F => F.memoryValue rfl (by simp) rfl (by simpa using hc)).bind fun _ =>
    R.onFrame fun F => F.push (by simp)

lemma newObject : C.Runs L (newObject ctx index) := by
  refine R.resolveClass.bind fun type => ?_
  split
  · exact R.requireInit.bind fun _ => (R.onFrame fun F => F.constant).bind fun _ => R.alloc (by simp)
  · exact refuse_bind

lemma newArray {element : ArrayElement} {dimensions : Nat} : C.Runs L (Body.newArray ctx element dimensions) := by
  have helement : ∀ {L}, C.Runs L (Body.elementType ctx element) := by
    cases element with
    | primitive k => exact .done
    | named index => exact R.resolveClass.bind fun _ => R.requireClassObject.bind fun _ => .done
  have hrest : C.Runs L (do
      let type ← Body.elementType ctx element
      let count ← Body.onFrame (Frame.pop .int)
      let count ← Body.onFrame (convert count .unsigned)
      Body.alloc (.array type) count) :=
    helement.bind fun _ => R.pop.bind fun _ => (R.onFrame fun F => F.convert (by simp)).bind fun _ =>
      R.alloc (by simp)
  exact .ite refuse_bind hrest

lemma checkCast : C.Runs L (checkCast ctx index) :=
  R.resolveClass.bind fun _ => R.requireClassObject.bind fun _ => R.pop.bind fun _ => R.address.bind fun _ =>
    (R.callRuntimeValue rfl (by simp)).bind fun _ =>
      R.onFrame fun F => F.push (by simp)

lemma instanceOf : C.Runs L (instanceOf ctx index) :=
  R.resolveClass.bind fun _ => R.requireClassObject.bind fun _ => R.pop.bind fun _ =>
    (R.onFrame fun F => F.memoryValue rfl (by simp) rfl (by simp)).bind fun _ =>
      R.onFrame fun F => F.pushLoaded (by simp)

lemma step {i : Instruction} (hi : i.ends = false) : C.Runs L (step ctx i) := by
  obtain ⟨pc, op, next⟩ := i
  cases op with
  | branch | jump | yield | throw | uncompiled => cases hi
  | noop => exact .done
  | constant => exact R.onFrame fun F => F.explicitConstant.bind fun _ => F.push (by simp)
  | loadConstant => exact R.pooledConstant.bind fun _ => R.onFrame fun F => F.push (by simp)
  | loadLocal => exact R.onFrame fun F => F.getLocal.bind fun _ => F.push (by simp)
  | storeLocal => exact R.onFrame fun F => F.pop.bind fun _ => F.setLocal (by simp)
  | loadArray => exact R.onFrame fun F => F.loadArray
  | storeArray => exact R.onFrame fun F => F.storeArray
  | shuffle => exact R.onFrame fun F => F.shuffle
  | arithmetic => exact R.onFrame fun F => F.arithmetic
  | increment => exact R.onFrame fun F => F.increment
  | convert => exact R.onFrame fun F => F.conversion
  | compare => exact R.onFrame fun F => F.compare
  | getStatic => exact R.getStatic
  | putStatic => exact R.putStatic
  | getField => exact R.getField
  | putField => exact R.putField
  | invoke => exact R.invoke
  | new => exact R.newObject
  | newArray => exact R.newArray
  | arrayLength => exact R.onFrame fun F => F.arrayLength
  | checkCast => exact R.checkCast
  | instanceOf => exact R.instanceOf
  | monitor => exact R.onFrame fun F => F.pop.bind fun _ => .done

end BodyRules

/-! ## Control -/

namespace Body

/-- What a return takes: the memory state, and the value if there is one. -/
def yielded (kind : Kind) (result? : Option Mode) : Body (List NodeId) := do
  let memory ← onFrame (Frame.build Ssa.getStore)
  if kind = .void then pure [memory]
  else match result? with
    | none => refuse .valueFromVoid
    | some mode => do
      let value ← onFrame (Frame.pop mode.arithmetic)
      let value ← onFrame (Frame.convert value mode)
      pure [memory, value]

lemma yield_eq (kind : Kind) (result? : Option Mode) : yield kind result? = (do
      let inputs ← yielded kind result?
      let edge ← onFrame (addNode .ret .control inputs)
      onFrame (build (addPred Graph.endBlock edge))
      endBlock) := by
  unfold yield yielded
  by_cases hk : kind = .void
  · simp [hk]
  · cases result? with
    | none =>
      simp only [hk, bind_assoc]; rfl
    | some mode => simp [hk]

/-- The call that ends everything where an object is thrown; gives the memory state after it. -/
def aborted : Body NodeId := do
  let _ ← onFrame (Frame.pop .reference)
  let _ ← callRuntime .abort []
  onFrame (Frame.build Ssa.getStore)

lemma throwObject_eq : throwObject = (do
      let memory ← aborted
      onFrame (build (modifyGraph fun g => g.keepAlive memory))
      endBlock) := by
  unfold throwObject aborted
  simp

end Body

namespace BodyRules

variable {jumps : Bool} {C : NodeContract BodyState} {ctx : MethodContext} {L : List NodeId} (R : BodyRules jumps ctx C)

include R

lemma yielded {result? : Option Mode} : C.Keeps L (yielded kind result?) id := by
  refine (R.onFrame fun F => F.getStore).bind fun memory => .ite (.pure (by simp)) ?_
  cases result? with
  | none => exact refuse
  | some mode =>
    exact R.pop.bind fun _ => (R.onFrame fun F => F.convert (by simp)).bind fun _ =>
      .pure (by simp)

lemma aborted : C.Gives L aborted :=
  R.pop.bind fun _ => (R.callRuntime (by simp)).bind fun _ => R.onFrame fun F => F.getStore

end BodyRules

structure ControlRules (ctx : MethodContext) (K : Contract BodyState) :
    Prop extends BodyRules true ctx (.ofContract K) where
  blocks : ∀ bs : BodyState → Array (Option BasicBlock),
    K.Honours (modify fun t => { t with blocks := bs t } : Body Unit)
  /-- The builder is left alone. -/
  note : ∀ f : Frame → Frame, (∀ x, (f x).builder = x.builder) → K.Honours (Body.onFrame (modify f))
  newBlock : K.Honours (Body.onFrame (Frame.build Ssa.newBlock))
  nameBlock : ∀ b pc, K.Honours (Body.onFrame (Frame.build
    (Ssa.modifyGraph fun g => g.setBlock b { g.block b with pc? := some pc })))
  setCurrent : ∀ b?, K.Honours (Body.onFrame (Frame.build (Ssa.setCurrent b?)))
  addPred : ∀ b edge, K.Honours (Body.onFrame (Frame.build (Ssa.addPred b edge)))
  mature : ∀ b, K.Honours (Body.onFrame (Frame.build (Ssa.mature b)))
  keepAlive : ∀ n, K.Honours (Body.onFrame (Frame.build (Ssa.modifyGraph fun g => g.keepAlive n)))
  ret : ∀ inputs, K.Honours (Body.onFrame (Frame.addNode .ret .control inputs))
  arg : ∀ n mode, K.Honours (Body.onFrame (Frame.onGraph fun g => g.arg n mode))

namespace ControlRules

variable {K : Contract BodyState} {ctx : MethodContext} (R : ControlRules ctx K)

include R

lemma jmp : K.Honours (onFrame (addNode .jmp .control [])) :=
  (R.onFrame (L := []) fun F => F.node rfl (by simp)).honours

lemma setBlock (b : BasicBlock) : K.Honours (setBlock b) := R.blocks _

lemma agreeOnDepth (b : BasicBlock) : K.Honours (agreeOnDepth b) := by
  refine .get fun t => ?_
  split
  · exact R.setBlock _
  · exact .ite .throw .pure

lemma branchTo (target : Nat) (edge : NodeId) : K.Honours (branchTo target edge) := by
  refine Contract.Honours.bind (.get fun _ => .pure) fun b? => ?_
  cases b? with
  | none => exact .get fun _ => .throw
  | some b => exact (R.agreeOnDepth b).bind fun _ => R.addPred _ _

lemma enterBlock (b : BasicBlock) : K.Honours (enterBlock b) := by
  have hrest : K.Honours (do
      onFrame (build (Ssa.setCurrent (some b.block)))
      modify fun t => { t with initialized := [] } : Body Unit) :=
    (R.setCurrent _).bind fun _ => (R.initialized _).honours
  refine .get fun t => ?_
  split
  · exact (R.agreeOnDepth b).bind fun _ => .ite (R.jmp.bind fun _ => (R.addPred _ _).bind fun _ => hrest) hrest
  · split
    · refine .bind (R.note _ ?_) fun _ => hrest; exact fun _ => rfl
    · exact (R.setBlock _).bind fun _ => hrest

lemma endBlock : K.Honours endBlock := R.setCurrent none

lemma branch (kind : Kind) (binary : Bool) (way : Comparison) (target next : Nat) :
    K.Honours (branch kind binary way target next) :=
  (R.onFrame (L := []) fun F => F.condition).honours.bind fun _ => (R.branchTo _ _).bind fun _ =>
    (R.branchTo _ _).bind fun _ => R.endBlock

lemma jump (target : Nat) : K.Honours (jump target) :=
  R.jmp.bind fun _ => (R.branchTo _ _).bind fun _ => R.endBlock

lemma yield (kind : Kind) (result? : Option Mode) : K.Honours (yield kind result?) := by
  rw [yield_eq]
  exact (R.toBodyRules.yielded (L := [])).honours.bind fun inputs => (R.ret inputs).bind fun _ =>
    (R.addPred _ _).bind fun _ => R.endBlock

lemma throwObject : K.Honours throwObject := by
  rw [throwObject_eq]
  exact (R.toBodyRules.aborted (L := [])).honours.bind fun _ => (R.keepAlive _).bind fun _ => R.endBlock

lemma instruction (i : Instruction) : K.Honours (step ctx i) := by
  cases hends : i.ends with
  | false => exact (R.step (L := []) hends).honours
  | true =>
    obtain ⟨pc, op, next⟩ := i
    cases op with
    | branch kind binary way target => exact R.branch _ _ _ _ _
    | jump target => exact R.jump _
    | yield kind => exact R.yield _ _
    | throw => exact R.throwObject
    | uncompiled u => exact .get fun _ => .throw
    | _ => cases hends

lemma visit (i : Instruction) : K.Honours (visit ctx i) := by
  have hstep : K.Honours (do
      if (← get).frame.builder.current?.isSome then step ctx i : Body Unit) :=
    .get fun _ => .ite (R.instruction i) .pure
  have hpc : K.Honours (onFrame (modify fun f => { f with pc := i.pc })) := R.note _ fun _ => rfl
  refine hpc.bind fun _ => Contract.Honours.bind (.get fun _ => .pure) fun b? => ?_
  cases b? with
  | some b => exact (R.enterBlock b).bind fun _ => hstep
  | none => exact (Contract.Honours.pure (a := ())).bind fun _ => hstep

lemma visitAll (code : List Instruction) : K.Honours (visitAll ctx code) := by
  induction code with
  | nil => exact .pure
  | cons i rest ih => exact (R.visit i).bind fun _ => ih

lemma makeBlocks (targetedEntry : Bool) (pcs : List Nat) : K.Honours (Body.makeBlocks targetedEntry pcs) := by
  induction pcs with
  | nil => exact .pure
  | cons pc rest ih =>
    have hrest : ∀ block, K.Honours (do
        Body.onFrame (build (modifyGraph fun g => g.setBlock block { g.block block with pc? := some pc }))
        let depth? := if pc = 0 then some 0 else none
        Body.setBlock { pc, block, depth? }
        Body.makeBlocks targetedEntry rest : Body Unit) :=
      fun block => (R.nameBlock _ _).bind fun _ => (R.setBlock _).bind fun _ => ih
    exact .ite (Contract.Honours.pure.bind hrest) (R.newBlock.bind hrest)

lemma storeArgs (n : Nat) (slot : UInt16) (modes : List Mode) : K.Honours (storeArgs n slot modes) := by
  induction modes generalizing n slot with
  | nil => exact .pure
  | cons mode rest ih =>
    refine Contract.Honours.bind ?_ fun _ => ih _ _
    rw [onFrame_bind]
    refine (R.arg n mode).bind fun v => NodeContract.Keeps.honours (L := [v]) (K := fun _ => []) (R.onFrame fun F => ?_)
    exact (F.convert (by simp)).bind fun _ => F.setLocal (by simp)

lemma matureAll (bs : List BlockId) : K.Honours (matureAll bs) := by
  induction bs with
  | nil => exact .pure
  | cons b rest ih => exact (R.mature b).bind fun _ => ih

lemma entry (code : List Instruction) {rest : Body Unit} (hrest : K.Honours rest) : K.Honours (do
      if Bytecode.branchesToEntry code then
        let edge ← onFrame (addNode .jmp .control [])
        match ← blockAt? 0 with
        | some entry => onFrame (build (Ssa.addPred entry.block edge))
        | none => pure ()
      rest : Body Unit) := by
  refine .ite (R.jmp.bind fun _ => Contract.Honours.bind (.get fun _ => .pure) fun b? => ?_) hrest
  cases b? with
  | some entry => exact (R.addPred _ _).bind fun _ => hrest
  | none => exact (Contract.Honours.pure (a := ())).bind fun _ => hrest

lemma whole (m : Method) (code : List Instruction) (codeLength : Nat) (boundaries : List Nat) :
    K.Honours (Body.whole ctx m code codeLength boundaries) := by
  have hend : K.Honours (do
      Body.visitAll ctx code
      if (← get).frame.builder.current?.isSome then throw (.unsupported codeLength .fallsOffTheEnd)
      Body.matureAll ((← get).blocks.toList.filterMap fun b? => b?.map BasicBlock.block)
      Body.matureAll [Graph.endBlock] : Body Unit) := by
    have hmature : K.Honours (do
        Body.matureAll ((← get).blocks.toList.filterMap fun b? => b?.map BasicBlock.block)
        Body.matureAll [Graph.endBlock] : Body Unit) :=
      .get fun _ => (R.matureAll _).bind fun _ => R.matureAll _
    exact (R.visitAll code).bind fun _ => .get fun _ => .ite (Contract.Honours.throw.bind fun _ => hmature) hmature
  have hentry := R.entry code hend
  exact (R.makeBlocks _ _).bind fun _ => (R.storeArgs _ _ _).bind fun _ =>
    .ite ((R.initClass (L := [])).honours.bind fun _ => hentry) hentry

end ControlRules

end JvmGraph
