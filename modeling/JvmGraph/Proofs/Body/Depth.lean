import JvmGraph.Proofs.Body.Wiring

/-!
# Depth of the operand stack where control meets

Whichever edge comes to a block first fixes the depth of the operand stack there, in the order of the code and
not of control. If a graph comes out, then all edges into a block agree with the depth that is recorded for it;
if two edges into one block disagree, none comes out.
-/

namespace JvmGraph

open Steps JvmGraph.Frame BodyState List JvmGraph.Graph Body Bytecode Instruction JvmGraph.Flow Prod Option

variable {α : Type} {b : BlockId} {t1 : BodyState} {target : Nat}

namespace Body

/-! ## Edges and the depths with which they leave -/

/-- From state `t`, in which the instruction `i` is next, control is led to the block at an address, with
operands up to a depth on the stack. -/
inductive Sends (t : BodyState) (i : Instruction) : Way → Nat → Nat → Prop
  | into {c b : BlockId} : t.frame.builder.current? = some c → t.blockAt i.pc = some b → c ≠ b →
    Sends t i .into i.pc t.frame.depth
  | jump {t1 : BodyState} {target : Nat} : arrive i t = .ok () t1 → t1.frame.builder.current?.isSome →
    i.op = .jump target →
    Sends t i .jump target t1.frame.depth
  | taken {t1 t2 : BodyState} {kind : Kind} {binary : Bool} {way : Comparison} {target : Nat}
    {sides : NodeId × NodeId} :
    arrive i t = .ok () t1 → t1.frame.builder.current?.isSome → i.op = .branch kind binary way target →
    onFrame (condition kind binary way) t1 = .ok sides t2 → Sends t i .taken target t2.frame.depth
  | fall {t1 t2 : BodyState} {kind : Kind} {binary : Bool} {way : Comparison} {target : Nat} {sides : NodeId × NodeId} :
    arrive i t = .ok () t1 → t1.frame.builder.current?.isSome → i.op = .branch kind binary way target →
    onFrame (condition kind binary way) t1 = .ok sides t2 → Sends t i .fall i.next t2.frame.depth

/-- A body up to the point where its code is gone through. -/
def prepare (ctx : MethodContext) (m : Method) (code : List Instruction) (bs : List Nat) : Body Unit := do
  makeBlocks (Bytecode.branchesToEntry code) bs
  storeArgs 0 0 m.paramModes
  initOwner ctx m
  openEntry (Bytecode.branchesToEntry code)

def upTo (ctx : MethodContext) (m : Method) (code : List Instruction) (bs : List Nat) (k : Nat) : Body Unit := do
  prepare ctx m code bs
  visitAll ctx (code.take k)

/-- Two edges into one block leave with different depths. -/
def Disagree (ctx : MethodContext) (m : Method) (code : List Instruction) (bs : List Nat) (t : BodyState) : Prop :=
  ∃ k l i j s s' w w' p d d', code[k]? = some i ∧ upTo ctx m code bs k t = .ok () s ∧ Sends s i w p d ∧
    code[l]? = some j ∧ upTo ctx m code bs l t = .ok () s' ∧ Sends s' j w' p d' ∧ d ≠ d'

/-- From `t` to `t'` the code was gone through, and there is one depth for each of the addresses `bs` with which all
edges to it leave. -/
structure Agree (ctx : MethodContext) (m : Method) (code : List Instruction) (bs : List Nat) (t t' : BodyState) :
    Prop where
  reached : ∀ k ≤ code.length, ∃ s, upTo ctx m code bs k t = .ok () s
  opening : ∀ s, upTo ctx m code bs 0 t = .ok () s → s.frame.depth = 0
  entry : t'.depthAt 0 = some 0
  recorded : ∀ p ∈ bs, ∃ d ≤ t.frame.maxStack.toNat, t'.depthAt p = some d
  sent : ∀ k i s w p d, code[k]? = some i → upTo ctx m code bs k t = .ok () s → Sends s i w p d →
    p ∈ bs ∧ t'.depthAt p = some d
  bounded : ∀ k s, upTo ctx m code bs k t = .ok () s → s.frame.depth ≤ t.frame.maxStack.toNat
  arriving : ∀ k i s s', code[k]? = some i → upTo ctx m code bs k t = .ok () s → arrive i s = .ok () s' →
    s'.frame.depth ≤ t.frame.maxStack.toNat
  /-- Nothing else leads to a block, but for the edge to the entry. -/
  edges : ∀ p b e, t'.blockAt p = some b → e ∈ (t'.frame.graph.block b).preds →
    p = 0 ∧ Way.into.Is t'.frame.graph Graph.startBlock e ∨
    ∃ k i s w d c, code[k]? = some i ∧ upTo ctx m code bs k t = .ok () s ∧ Sends s i w p d ∧ w.Is t'.frame.graph c e

/-! ## Depths that are recorded -/

variable {ctx : MethodContext} {m : Method} {code : List Instruction} {n : Nat} {bs : List Nat} {t t' : BodyState}
  {i : Instruction} {w : Way} {p d : Nat} {u : Unit}
  {kind : Kind} {binary : Bool} {way : Comparison} {next e : Nat} {sides : NodeId × NodeId} {c : BlockId}
    {t4 : BodyState} {x : Edge}

lemma Sends.into_or (S : Sends t i w p d) : w = .into ∨ ∃ t1, arrive i t = .ok () t1 ∧
    t1.frame.builder.current?.isSome := by
  cases S with
  | into => exact .inl rfl
  | jump h hc | taken h hc | fall h hc => exact .inr ⟨_, h, hc⟩

structure Between (t : BodyState) (i : Instruction) : Prop where
  good : t.Good
  start : t.blockAt i.pc = some Graph.startBlock → t.frame.builder.current? = some Graph.startBlock
  marks : ∀ pc ∈ i.marks, ∃ b, t.blockAt pc = some b ∧ b ≠ Graph.startBlock

lemma Between.ne_start (B : Between t i) {pc : Nat} (h : pc ∈ i.marks) : t.blockAt pc ≠ some startBlock := by
  obtain ⟨b, hb, hne⟩ := B.marks pc h
  rw [hb]
  simpa using hne

lemma Between.depthAt (B : Between t i) (h : visit ctx i t = .ok u t') (hd : t.depthAt p = some d) :
    t'.depthAt p = some d := by
  obtain ⟨out, -, A, -⟩ := visit_leads h B.good B.start fun pc => B.ne_start
  exact A.depthAt p d hd

lemma Between.arrived (B : Between t i) (h : arrive i t = .ok u t1) :
    t1.Good ∧ (∀ q, t1.blockAt q = t.blockAt q) ∧ t1.frame.maxStack = t.frame.maxStack := by
  obtain ⟨out, G, A, -⟩ := arrives_leads (arrive_ok h B.good.own) B.good B.start
  exact ⟨G, A.blockAt, A.maxStack⟩

lemma Between.noted (B : Between t i) (h : visit ctx i t = .ok u t') (hb : t.blockAt i.pc = some b) :
    ∃ d, t'.depthAt i.pc = some d ∧ (t.frame.builder.current?.isSome → d = t.frame.depth) := by
  obtain ⟨t1, h1, h2⟩ := visit_split h
  obtain ⟨G1, hblock, -⟩ := B.arrived h1
  rcases arrive_ok h1 B.good.own with ⟨hnone, -⟩ | ⟨b', d, -, N, hd, -⟩
  · simp [hb] at hnone
  · refine ⟨d, ?_, fun hc => hd (.inl hc)⟩
    split at h2
    · rename_i hcur
      obtain ⟨c1, hc1⟩ := isSome_iff_exists.1 hcur
      obtain ⟨out, -, A, -⟩ := step_leads G1 hc1 h2 fun pc hpc => by rw [hblock]; exact B.ne_start hpc
      exact A.depthAt _ _ N.depthAt_pc
    · rw [h2]; exact N.depthAt_pc

lemma visit_of_arrive (h : visit ctx i t = .ok u t') (ha : arrive i t = .ok () t1)
    (hc : t1.frame.builder.current?.isSome) : step ctx i t1 = .ok u t' := by
  obtain ⟨t1', h1, h2⟩ := visit_split h
  cases ha.symm.trans h1
  rwa [if_pos hc] at h2

lemma branch_depthAt (h : branch kind binary way target next t = .ok u t') (own : t.Own)
    (hcond : onFrame (condition kind binary way) t = .ok sides t1) :
    t'.depthAt target = some t1.frame.depth ∧ t'.depthAt next = some t1.frame.depth := by
  obtain ⟨left, right, f1, taken, fall, t2, h2, -, -, N1, N2, -⟩ := branch_ok h own
  obtain ⟨f2, hf2, rfl⟩ := onFrame_ok.1 hcond
  obtain ⟨left', right', f1', h2', -, rfl⟩ := condition_ok hf2
  cases h2.symm.trans h2'
  exact ⟨N2.depthAt _ _ N1.depthAt_pc, N2.depthAt_pc⟩

lemma Sends.recorded (S : Sends t i w p d) (B : Between t i) (h : visit ctx i t = .ok u t') :
    t'.depthAt p = some d := by
  cases S with
  | into hc hb =>
    obtain ⟨d, hd, hcur⟩ := B.noted h hb
    rw [hd, hcur (by simp [hc])]
  | jump h1 hc hop =>
    have hstep := visit_of_arrive h h1 hc
    rw [step, hop] at hstep
    obtain ⟨b, -, N, -⟩ := jump_ok hstep (B.arrived h1).1.own; exact N.depthAt_pc
  | taken h1 hc hop hcond =>
    have hstep := visit_of_arrive h h1 hc
    rw [step, hop] at hstep; exact (branch_depthAt hstep (B.arrived h1).1.own hcond).1
  | fall h1 hc hop hcond =>
    have hstep := visit_of_arrive h h1 hc
    rw [step, hop] at hstep; exact (branch_depthAt hstep (B.arrived h1).1.own hcond).2

/-! ## Depths that disagree -/

/-- A step fails over a depth that differs from the recorded one, or not at all. -/
def Passes {α : Type} (r : EStateM.Result Error BodyState α) : Prop :=
  ∀ e t', r = .error e t' → ∃ pc, e = .stackPointerMismatch pc

lemma Passes.bind {β : Type} {x : Body α} {f : α → Body β} (hx : Passes (x t))
    (hf : ∀ a t1, x t = .ok a t1 → Passes (f a t1)) : Passes ((x >>= f) t) := by
  intro e t' h
  cases hr : x t with
  | ok a t1 => rw [bind_of_ok hr] at h; exact hf a t1 hr e t' h
  | error e1 t1 =>
    rw [bind_of_error hr] at h
    cases h
    exact hx _ _ hr

lemma Passes.ok {a : α} : Passes (.ok a t) := fun _ _ h => nomatch h

lemma passes_agreeOnDepth (b : BasicBlock) (t : BodyState) : Passes (agreeOnDepth b t) := by
  unfold agreeOnDepth
  rw [Steps.get_bind]
  cases b.depth? with
  | none => exact .ok
  | some e =>
    by_cases he : e ≠ t.frame.depth
    · simp only [if_pos he]; rintro - - ⟨⟩; exact ⟨b.pc, rfl⟩
    · simp only [if_neg he]; exact .ok

lemma passes_branchTo {edge : NodeId} (hb : t.blockAt target = some b) : Passes (branchTo target edge t) := by
  obtain ⟨b', hb', rfl⟩ := map_eq_some_iff.1 hb
  unfold branchTo
  rw [bind_of_ok (blockAt?_ok.2 ⟨hb', rfl⟩)]
  exact (passes_agreeOnDepth b' t).bind fun _ _ _ => .ok

lemma passes_jump (hb : t.blockAt target = some b) : Passes (jump target t) := by
  have hedge : ∃ edge f1, onFrame (addNode .jmp .control []) t = .ok edge { t with frame := f1 } := ⟨_, _, rfl⟩
  obtain ⟨edge, f1, h1⟩ := hedge
  unfold jump
  rw [bind_of_ok h1]
  exact .bind (passes_branchTo hb) fun _ _ _ => .ok

lemma passes_branch {b' : BlockId} (hcond : onFrame (condition kind binary way) t = .ok sides t1) (own : t.Own)
    (hb : t.blockAt target = some b) (hb' : t.blockAt next = some b') :
    Passes (branch kind binary way target next t) := by
  unfold branch
  rw [bind_of_ok hcond]
  obtain ⟨f1, -, rfl⟩ := onFrame_ok.1 hcond
  refine .bind (passes_branchTo hb) fun _ t2 h2 => ?_
  obtain ⟨-, -, N, -⟩ := branchTo_ok h2 own
  exact .bind (passes_branchTo ((N.blockAt next).trans hb')) fun _ _ _ => .ok

lemma Sends.passes (S : Sends t i w p d) (hw : w ≠ .into) (B : Between t i) : Passes (visit ctx i t) := by
  obtain ⟨t1, h1, hc⟩ := S.into_or.resolve_left hw
  obtain ⟨G1, hblock, -⟩ := B.arrived h1
  rw [visit_eq, bind_of_ok h1, Steps.get_bind, if_pos hc]
  have marked : ∀ pc ∈ i.marks, ∃ b, t1.blockAt pc = some b := by
    intro pc hpc
    obtain ⟨b, hb, -⟩ := B.marks pc hpc; exact ⟨b, (hblock pc).trans hb⟩
  cases S with
  | into => exact absurd rfl hw
  | jump h1' _ hop =>
    obtain ⟨b, hb⟩ := marked p (by simp [marks, hop])
    rw [step, hop]; exact passes_jump hb
  | taken h1' _ hop hcond | fall h1' _ hop hcond =>
    cases h1.symm.trans h1'
    obtain ⟨b, hb⟩ := marked _ (by simp only [marks, hop]; exact (.head _))
    obtain ⟨b', hb'⟩ := marked i.next (by simp [marks, hop])
    rw [step, hop]; exact passes_branch hcond G1.own hb hb'

lemma enterBlock_of_ne {b : BasicBlock} (hc : t.frame.builder.current? = some c)
    (hd : b.depth? = some e) (hne : e ≠ t.frame.depth) : enterBlock b t = .error (.stackPointerMismatch b.pc) t := by
  have hagree : agreeOnDepth b t = .error (.stackPointerMismatch b.pc) t := by
    unfold agreeOnDepth
    rw [Steps.get_bind]; simp only [hd, if_pos hne]; rfl
  unfold enterBlock
  rw [Steps.get_bind]
  simp only [hc]
  exact bind_of_error hagree

lemma visit_of_into (hc : t.frame.builder.current? = some c) (hb : t.blockAt i.pc = some b)
    (he : t.depthAt i.pc = some e) (hne : e ≠ t.frame.depth) :
    ∃ pc t', visit ctx i t = .error (.stackPointerMismatch pc) t' := by
  obtain ⟨b', hb', rfl⟩ := map_eq_some_iff.1 hb
  have hd : b'.depth? = some e := by simpa [depthAt, hb'] using he
  have hset :
    onFrame (modify fun f => { f with pc := i.pc }) t = .ok () { t with frame := { t.frame with pc := i.pc } } := rfl
  have hfind : blockAt? i.pc { t with frame := { t.frame with pc := i.pc } } =
      .ok (some b') { t with frame := { t.frame with pc := i.pc } } := blockAt?_ok.2 ⟨hb', rfl⟩
  refine ⟨b'.pc, { t with frame := { t.frame with pc := i.pc } }, ?_⟩
  rw [visit_eq]
  exact bind_of_error ((bind_of_ok hset).trans ((bind_of_ok hfind).trans (enterBlock_of_ne hc hd hne)))

lemma Passes.error {r : EStateM.Result Error BodyState α} (h : Passes r) (hok : ∀ a t', r ≠ .ok a t') :
    ∃ pc t', r = .error (.stackPointerMismatch pc) t' := by
  cases r with
  | ok a t' => exact absurd rfl (hok a t')
  | error e t' =>
    obtain ⟨pc, rfl⟩ := h e t' rfl; exact ⟨pc, t', rfl⟩

/-- What is sent with another depth than the recorded one is not accepted. -/
lemma Sends.clash (S : Sends t i w p d) (B : Between t i) (he : t.depthAt p = some e) (hne : e ≠ d) :
    ∃ pc t', visit ctx i t = .error (.stackPointerMismatch pc) t' := by
  by_cases hw : w = .into
  · subst hw
    cases S with
    | into hc hb _ => exact visit_of_into hc hb he hne
  · refine (S.passes hw B).error fun u t' h => hne ?_
    have hd := S.recorded B h
    rw [B.depthAt h he] at hd; exact some.inj hd

lemma Sends.clash_self {w' : Way} {d' : Nat} (S : Sends t i w p d) (S' : Sends t i w' p d') (B : Between t i)
    (hne : d ≠ d') :
    ∃ pc t', visit ctx i t = .error (.stackPointerMismatch pc) t' := by
  have hvisit : ∀ u t', visit ctx i t ≠ .ok u t' := by
    intro u t' h
    have hd := S.recorded B h
    rw [S'.recorded B h] at hd; exact hne (some.inj hd).symm
  by_cases hw : w = .into
  · by_cases hw' : w' = .into
    · subst hw hw'
      cases S
      cases S'
      exact absurd rfl hne
    · exact (S'.passes hw' B).error hvisit
  · exact (S.passes hw B).error hvisit

/-! ## The code up to an instruction -/

/-- What a translation starts from: the code in its addresses, where blocks are to begin, and no block so far. -/
structure Initial (n : Nat) (code : List Instruction) (bs : List Nat) (t : BodyState) : Prop where
  tabled : Tabled (Bytecode.branchesToEntry code) t
  none : ∀ p, t.blockAt p = none
  size : t.blocks.size = n
  layout : Layout n code
  boundaries : Boundaries n code bs

structure Reached (n : Nat) (code : List Instruction) (bs : List Nat) (t s : BodyState) : Prop where
  good : s.Good
  maxStack : s.frame.maxStack = t.frame.maxStack
  blocks : ∀ p, (s.blockAt p).isSome ↔ p ∈ bs ∧ p < n
  start : ∀ k i, code[k]? = some i → s.blockAt i.pc = some Graph.startBlock → k = 0
  marks : ∀ i ∈ code, ∀ p ∈ i.marks, ∃ b, s.blockAt p = some b ∧ b ≠ Graph.startBlock
  zero : ∀ b, s.blockAt 0 = some b → s.depthAt 0 = some 0

lemma prepare_ok (I : Initial n code bs t) (h : prepare ctx m code bs t = .ok () t4) :
    Reached n code bs t t4 ∧ t4.frame.builder.current? = some startBlock := by
  unfold prepare at h
  obtain ⟨_, t1, h1, h⟩ := bind_ok.1 h
  obtain ⟨_, t2, h2, h⟩ := bind_ok.1 h
  obtain ⟨_, t3, h3, h4⟩ := bind_ok.1 h
  obtain ⟨out, O⟩ := opening_of_ok h1 h2 h3 h4 I.tabled I.none I.size I.layout I.boundaries
  have hat : ∀ p, t4.blockAt p = t3.blockAt p := O.leads.blockAt
  have hblocks : ∀ p, (t4.blockAt p).isSome ↔ p ∈ bs ∧ p < n := fun p => by rw [hat, O.before.blockAt, O.blocks]
  refine ⟨⟨O.good, ?_, hblocks, fun k i hi hs => ?_, fun i hi p hp => ?_, fun b hb => ?_⟩, O.current⟩
  · rw [O.leads.maxStack, O.before.maxStack, O.maxStack]
  · exact I.layout.eq_zero_of_pc hi (O.tabled.start i.pc (hat i.pc ▸ hs)).1
  · obtain ⟨hb, hpc⟩ := I.boundaries.mark i hi p hp
    obtain ⟨b, hat'⟩ := isSome_iff_exists.1 ((hblocks p).2 ⟨hb, I.layout.ascending.lt p hpc⟩)
    refine ⟨b, hat', ?_⟩
    rintro rfl; exact O.tabled.marks_ne I.layout hi hp (hat p ▸ hat')
  · exact O.leads.depthAt 0 0 (O.tabled.depthAt 0 b (hat 0 ▸ hb))

lemma visitAll_append (xs ys : List Instruction) : visitAll ctx (xs ++ ys) = (do visitAll ctx xs; visitAll ctx ys) := by
  induction xs with
  | nil => simp [visitAll]
  | cons x xs ih => simp [cons_append, visitAll, ih]

lemma whole_eq_prepare : whole ctx m code n bs = (do prepare ctx m code bs; finish ctx code n) := by
  rw [whole_eq]
  unfold prepare
  simp

variable {k l : Nat} {s s' : BodyState}

lemma upTo_zero : upTo ctx m code bs 0 = prepare ctx m code bs := by simp [upTo, visitAll]

lemma upTo_succ (hi : code[k]? = some i) : upTo ctx m code bs (k + 1) = (do upTo ctx m code bs k; visit ctx i) := by
  simp [upTo, take_add_one, hi, visitAll_append, visitAll]

lemma upTo_cases (h : upTo ctx m code bs (k + 1) t = .ok u s') : upTo ctx m code bs k t = .ok u s' ∨
    ∃ i s, code[k]? = some i ∧ upTo ctx m code bs k t = .ok () s ∧ visit ctx i s = .ok u s' := by
  cases hi : code[k]? with
  | none => left; simpa [upTo, take_add_one, hi] using h
  | some i =>
    rw [upTo_succ hi] at h
    obtain ⟨_, s, h1, h2⟩ := bind_ok.1 h
    exact .inr ⟨i, s, rfl, h1, h2⟩

lemma Reached.between (R : Reached n code bs t s) (hi : code[k]? = some i)
    (hk : k = 0 → s.frame.builder.current? = some startBlock) : Between s i :=
  ⟨R.good, fun hs => hk (R.start k i hi hs), R.marks i (mem_of_getElem? hi)⟩

lemma Reached.visit (R : Reached n code bs t s) (B : Between s i) (h : visit ctx i s = .ok u s') :
    Reached n code bs t s' := by
  obtain ⟨out, G, A, -⟩ := visit_leads h B.good B.start fun pc => B.ne_start
  have hat : s'.blockAt = s.blockAt := funext A.blockAt
  refine ⟨G, A.maxStack.trans R.maxStack, ?_, ?_, ?_, fun b hb => ?_⟩
  · rw [hat]; exact R.blocks
  · rw [hat]; exact R.start
  · rw [hat]; exact R.marks
  · exact A.depthAt 0 0 (R.zero b (A.blockAt 0 ▸ hb))

lemma upTo_reached (I : Initial n code bs t) : ∀ {k : Nat} {s : BodyState}, upTo ctx m code bs k t = .ok () s →
    Reached n code bs t s ∧ (k = 0 → s.frame.builder.current? = some startBlock)
  | 0, s, h => by
    rw [upTo_zero] at h; exact (prepare_ok I h).imp_right fun hc _ => hc
  | k + 1, s, h => by
    refine ⟨?_, fun hk => by cases hk⟩
    rcases upTo_cases h with h | ⟨i, s1, hi, h1, h2⟩
    · exact (upTo_reached I h).1
    · obtain ⟨R, hc⟩ := upTo_reached I h1; exact R.visit (R.between hi hc) h2

lemma upTo_between (I : Initial n code bs t) (h : upTo ctx m code bs k t = .ok () s) (hi : code[k]? = some i) :
    Between s i := by
  obtain ⟨R, hc⟩ := upTo_reached I h
  exact R.between hi hc

lemma upTo_depthAt (I : Initial n code bs t) (hk : upTo ctx m code bs k t = .ok () s) (hd : s.depthAt p = some d)
    (hkl : k ≤ l)
    (hl : upTo ctx m code bs l t = .ok () s') : s'.depthAt p = some d := by
  induction hkl generalizing s' with
  | refl =>
    cases hk.symm.trans hl
    exact hd
  | step _ ih =>
    rcases upTo_cases hl with hl | ⟨i, s1, hi, h1, h2⟩
    · exact ih hl
    · exact (upTo_between I h1 hi).depthAt h2 (ih h1)

lemma upTo_of_le (hl : upTo ctx m code bs l t = .ok () s') (hkl : k ≤ l) : ∃ s, upTo ctx m code bs k t = .ok () s := by
  induction hkl generalizing s' with
  | refl => exact ⟨s', hl⟩
  | step _ ih =>
    rcases upTo_cases hl with hl | ⟨i, s1, hi, h1, h2⟩
    · exact ih hl
    · exact ih h1

lemma upTo_visit (hi : code[k]? = some i) (hk : upTo ctx m code bs k t = .ok () s) (hkl : k < l)
    (hl : upTo ctx m code bs l t = .ok () s') : ∃ s1, visit ctx i s = .ok () s1 ∧
    upTo ctx m code bs (k + 1) t = .ok () s1 := by
  obtain ⟨s1, h1⟩ := upTo_of_le hl hkl
  have h := h1
  rw [upTo_succ hi, bind_of_ok hk] at h
  exact ⟨s1, h, h1⟩

lemma Sends.recorded_after (S : Sends s i w p d) (I : Initial n code bs t) (hi : code[k]? = some i)
    (hk : upTo ctx m code bs k t = .ok () s) (hkl : k < l) (hl : upTo ctx m code bs l t = .ok () s') :
    s'.depthAt p = some d := by
  obtain ⟨s1, h1, h2⟩ := upTo_visit hi hk hkl hl
  exact upTo_depthAt I h2 (S.recorded (upTo_between I hk hi) h1) hkl hl

lemma whole_of_visit {e : Error} (hi : code[k]? = some i) (hk : upTo ctx m code bs k t = .ok () s)
    (h : visit ctx i s = .error e s') : whole ctx m code n bs t = .error e s' := by
  obtain ⟨_, t4, h4, hall⟩ := bind_ok.1 hk
  have hcode : code = code.take k ++ i :: code.drop (k + 1) := by
    obtain ⟨hlt, rfl⟩ := List.getElem?_eq_some_iff.1 hi
    rw [List.getElem_cons_drop, List.take_append_drop]
  have herror : visitAll ctx code t4 = .error e s' := by
    rw [hcode, visitAll_append, bind_of_ok hall]; exact bind_of_error h
  rw [whole_eq_prepare, bind_of_ok h4]
  exact bind_of_error herror

lemma Disagree.whole (D : Disagree ctx m code bs t) (I : Initial n code bs t) :
    ∃ pc t', whole ctx m code n bs t = .error (.stackPointerMismatch pc) t' := by
  obtain ⟨k, l, i, j, s, s', w, w', p, d, d', hi, hs, S, hj, hs', S', hne⟩ := D
  rcases lt_trichotomy k l with h | rfl | h
  · have hd := S.recorded_after I hi hs h hs'
    obtain ⟨pc, t', ht'⟩ := S'.clash (upTo_between I hs' hj) hd hne
    exact ⟨pc, t', whole_of_visit hj hs' ht'⟩
  · cases hi.symm.trans hj
    cases hs.symm.trans hs'
    obtain ⟨pc, t', ht'⟩ := S.clash_self S' (upTo_between I hs hi) hne
    exact ⟨pc, t', whole_of_visit hi hs ht'⟩
  · have hd := S'.recorded_after I hj hs' h hs
    obtain ⟨pc, t', ht'⟩ := S.clash (upTo_between I hs hi) hd hne.symm
    exact ⟨pc, t', whole_of_visit hi hs ht'⟩

/-! ## Code that is gone through -/

lemma sends_of_visit (B : Between t i) (h : visit ctx i t = .ok u t') (hp : x.target = some p)
    (hx : x ∈ falls t.blockAt t.frame.builder.current? i.pc ++
      (enters t.blockAt t.frame.builder.current? i).toList.flatMap i.exitsFrom) : ∃ d, Sends t i x.way p d := by
  rcases mem_append.1 hx with hx | hx
  · unfold falls at hx
    split at hx
    · rename_i c b hc hb
      split at hx
      · cases hx
      · rename_i hne
        rw [mem_singleton.1 hx] at hp ⊢
        cases hp
        exact ⟨_, .into hc hb hne⟩
    · cases hx
  · obtain ⟨t1, h1, h2⟩ := visit_split h
    obtain ⟨out, -, -, hc1, -⟩ := arrives_leads (arrive_ok h1 B.good.own) B.good B.start
    obtain ⟨b, hb, hx⟩ := mem_flatMap.1 hx
    rw [← hc1, mem_toList] at hb
    have hcur : t1.frame.builder.current?.isSome := by simp [hb]
    rw [if_pos hcur] at h2
    obtain ⟨⟨way, target?⟩, hexit, rfl⟩ := mem_map.1 hx
    obtain rfl : target? = some p := hp
    unfold exits at hexit
    split at hexit
    · rename_i kind binary way' target hop
      rw [step, hop] at h2
      obtain ⟨sides, t2, hcond, -⟩ := bind_ok.1 h2
      simp only [mem_cons, Prod.mk.injEq, some.injEq, not_mem_nil, or_false] at hexit
      rcases hexit with ⟨rfl, rfl⟩ | ⟨rfl, rfl⟩
      · exact ⟨_, .taken h1 hcur hop hcond⟩
      · exact ⟨_, .fall h1 hcur hop hcond⟩
    · rename_i target hop
      simp only [mem_singleton, Prod.mk.injEq, some.injEq] at hexit
      obtain ⟨rfl, rfl⟩ := hexit; exact ⟨_, .jump h1 hcur hop⟩
    · simp at hexit
    · cases hexit

lemma sends_of_edges (I : Initial n code bs t) (hp : x.target = some p) :
    ∀ {rest pre : List Instruction} {s : BodyState},
    code = pre ++ rest → upTo ctx m code bs pre.length t = .ok () s → visitAll ctx rest s = .ok () s' →
    x ∈ edges s.blockAt s.frame.builder.current? rest →
    ∃ k i s d, code[k]? = some i ∧ upTo ctx m code bs k t = .ok () s ∧ Sends s i x.way p d
  | [], pre, s, _, _, _, hx => by cases hx
  | i :: rest, pre, s, hcode, hs, hall, hx => by
    have hi : code[pre.length]? = some i := by simp [hcode]
    have B := upTo_between I hs hi
    obtain ⟨_, s1, h1, h2⟩ := bind_ok.1 hall
    rw [edges, ← append_assoc, mem_append] at hx
    rcases hx with hx | hx
    · obtain ⟨d, S⟩ := sends_of_visit B h1 hp hx; exact ⟨pre.length, i, s, d, hi, hs, S⟩
    · obtain ⟨out, -, A, hc, -⟩ := visit_leads h1 B.good B.start fun pc => B.ne_start
      have hs1 : upTo ctx m code bs (pre ++ [i]).length t = .ok () s1 := by
        rwa [length_append, length_singleton, upTo_succ hi, bind_of_ok hs]
      refine sends_of_edges I hp (show code = (pre ++ [i]) ++ rest by simp [hcode]) hs1 h2 ?_
      rwa [show s1.blockAt = s.blockAt from funext A.blockAt, hc]

section Ended

variable {t5 : BodyState} (I : Initial n code bs t) (hend : upTo ctx m code bs code.length t = .ok () t5)

include I hend

lemma noted_at_end (hi : code[k]? = some i) (hs : upTo ctx m code bs k t = .ok () s) (hb : (s.blockAt i.pc).isSome) :
    ∃ d, t5.depthAt i.pc = some d ∧ (s.frame.builder.current?.isSome → d = s.frame.depth) := by
  obtain ⟨b, hb⟩ := isSome_iff_exists.1 hb
  have hk : k < code.length := (List.getElem?_eq_some_iff.1 hi).1
  obtain ⟨s1, h1, h2⟩ := upTo_visit hi hs hk hend
  obtain ⟨d, hd, hcur⟩ := (upTo_between I hs hi).noted h1 hb
  exact ⟨d, upTo_depthAt I h2 hd hk hend, hcur⟩

lemma entry_at_end {rest : List Instruction} (hcode : code = i :: rest) (hs : upTo ctx m code bs 0 t = .ok () s) :
    t5.depthAt 0 = some 0 ∧ s.frame.depth = 0 := by
  have hi : code[0]? = some i := by simp [hcode]
  have hpc : i.pc = 0 := I.layout.head_pc hcode
  have hn : i.pc < n := I.layout.pc_lt (mem_of_getElem? hi)
  obtain ⟨R, hc⟩ := upTo_reached I hs
  have hsome : (s.blockAt 0).isSome := (R.blocks 0).2 ⟨I.boundaries.zero, hpc ▸ hn⟩
  obtain ⟨b, hb⟩ := isSome_iff_exists.1 hsome
  have hentry : t5.depthAt 0 = some 0 := upTo_depthAt I hs (R.zero b hb) (by omega) hend
  obtain ⟨d, hd, hcur⟩ := noted_at_end I hend hi hs (hpc ▸ hsome)
  rw [hpc, hentry] at hd
  refine ⟨hentry, ?_⟩
  rw [← hcur (by simp [hc rfl]), some.inj hd]

lemma recorded_at_end (hne : code ≠ []) (hp : p ∈ bs) : ∃ d ≤ t.frame.maxStack.toNat, t5.depthAt p = some d := by
  have hpc : p ∈ code.map Instruction.pc := by
    rcases I.boundaries.pc p hp with rfl | hp
    · obtain ⟨i, rest, hcode⟩ := List.exists_cons_of_ne_nil hne
      exact List.mem_map.2 ⟨i, by simp [hcode], I.layout.head_pc hcode⟩
    · exact hp
  obtain ⟨i, hmem, rfl⟩ := List.mem_map.1 hpc
  obtain ⟨k, hi⟩ := List.getElem?_of_mem hmem
  obtain ⟨s, hs⟩ := upTo_of_le hend (le_of_lt (List.getElem?_eq_some_iff.1 hi).1)
  obtain ⟨d, hd, -⟩ := noted_at_end I hend hi hs (((upTo_reached I hs).1.blocks i.pc).2 ⟨hp, I.layout.pc_lt hmem⟩)
  obtain ⟨R, -⟩ := upTo_reached I hend
  exact ⟨d, by rw [← R.maxStack]; exact R.good.depth_le _ _ hd, hd⟩

lemma sent_at_end (hi : code[k]? = some i) (hs : upTo ctx m code bs k t = .ok () s) (S : Sends s i w p d) :
    p ∈ bs ∧ t5.depthAt p = some d := by
  have hd := S.recorded_after I hi hs (List.getElem?_eq_some_iff.1 hi).1 hend
  obtain ⟨R, -⟩ := upTo_reached I hend
  refine ⟨((R.blocks p).1 ?_).1, hd⟩
  obtain ⟨b, hb, -⟩ := bind_eq_some_iff.1 hd
  simp [blockAt, hb]

end Ended

lemma Stages.preds_sent {t2 t3 t5 : BodyState} {out : List (BlockId × NodeId)} {e : NodeId}
    (S : Stages ctx m code t1 t2 t3 t4 t5 t' out) (I : Initial n code bs t)
    (hprep : prepare ctx m code bs t = .ok () t4) (hb : t5.blockAt p = some b)
    (he : e ∈ (t'.frame.graph.block b).preds) :
    p = 0 ∧ Way.into.Is t'.frame.graph startBlock e ∨
    ∃ k i s w d c, code[k]? = some i ∧ upTo ctx m code bs k t = .ok () s ∧ Sends s i w p d ∧
    w.Is t'.frame.graph c e := by
  have hmem : (b, e) ∈ out := by
    rw [S.block] at he
    have hpreds : (t5.frame.graph.block b).preds = [] ++ (out.filter fun p => p.1 = b).map snd := by
      rw [← S.tabled.preds b]; exact S.leads.preds b
    rw [hpreds] at he
    obtain ⟨⟨c, e'⟩, hfilter, rfl⟩ := mem_map.1 he
    obtain ⟨hout, hc⟩ := mem_filter.1 hfilter; exact of_decide_eq_true hc ▸ hout
  obtain ⟨x, hx, hland, hway⟩ := forall₂_mem_right S.edges hmem
  -- the edge leads to the block that begins at `p`, and to no other
  have htarget : x.target = some p := by
    have hb3 : t3.blockAt p = some b := (S.leads.blockAt p).symm.trans hb
    cases ht : x.target with
    | none =>
      rw [ht] at hland; exact absurd (some.inj hland).symm (S.tabled.good.block_ne p b hb3)
    | some q =>
      rw [ht] at hland
      rw [S.tabled.injective q p b hland hb3]
  have hway' : x.way.Is t'.frame.graph x.source e := hway.keep (S.leads.fresh _ hmem).2 S.keep
  rcases mem_append.1 hx with hx | hx
  · unfold opening at hx
    split at hx
    · rw [mem_singleton.1 hx] at htarget hway'
      exact .inl ⟨(some.inj htarget).symm, hway'⟩
    · cases hx
  · have hβ : t4.blockAt = t3.blockAt := by
      funext q
      simp [blockAt, starts, (openEntry_ok S.opened).1]
    have h0 : upTo ctx m code bs ([] : List Instruction).length t = .ok () t4 := by
      rwa [length_nil, upTo_zero]
    rw [← hβ, ← S.entering] at hx
    obtain ⟨k, i, s, d, hi, hs, hsend⟩ := sends_of_edges I htarget (nil_append code).symm h0 S.visits hx
    exact .inr ⟨k, i, s, x.way, d, x.source, hi, hs, hsend, hway'⟩

lemma agree_of_whole (I : Initial n code bs t) (h : whole ctx m code n bs t = .ok () t') :
    Agree ctx m code bs t t' := by
  obtain ⟨t1, t2, t3, t4, t5, out, S, hmake, -⟩ := whole_stages h I.tabled I.none I.size I.layout I.boundaries
  have hprep : prepare ctx m code bs t = .ok () t4 :=
    bind_ok.2 ⟨_, _, hmake, bind_ok.2 ⟨_, _, S.args, bind_ok.2 ⟨_, _, S.init, S.opened⟩⟩⟩
  have h0 : upTo ctx m code bs 0 t = .ok () t4 := by rwa [upTo_zero]
  have hend : upTo ctx m code bs code.length t = .ok () t5 :=
    bind_ok.2 ⟨_, _, hprep, by rw [take_length]; exact S.visits⟩
  have hdepth : ∀ q, t'.depthAt q = t5.depthAt q := fun q => by simp [depthAt, starts, S.blocks]
  have hblock : ∀ q, t'.blockAt q = t5.blockAt q := fun q => by simp [blockAt, starts, S.blocks]
  -- without any code control would run off its end
  have hne : code ≠ [] := by
    rintro rfl
    obtain ⟨-, rfl⟩ := pure_ok.1 S.visits
    have := S.ended; simp [S.entering] at this
  obtain ⟨i, rest, hcode⟩ := exists_cons_of_ne_nil hne
  refine ⟨fun k hk => upTo_of_le hend hk, fun s hs => (entry_at_end I hend hcode hs).2,
    (hdepth 0).trans (entry_at_end I hend hcode h0).1, fun p hp => ?_,
    fun k i s w p d hi hs hsend => ?_, fun k s hs => ?_, fun k i s s' hi hs ha => ?_, fun p b e hb he => ?_⟩
  · simp only [hdepth]; exact recorded_at_end I hend hne hp
  · rw [hdepth]; exact sent_at_end I hend hi hs hsend
  · obtain ⟨R, -⟩ := upTo_reached I hs; rw [← R.maxStack]; exact R.good.fit.depth_le
  · obtain ⟨R, -⟩ := upTo_reached I hs
    obtain ⟨G, -, hmax⟩ := (upTo_between I hs hi).arrived ha
    rw [← R.maxStack, ← hmax]; exact G.fit.depth_le
  · exact Stages.preds_sent S I hprep (hblock p ▸ hb) he

end Body

/-! ## Methods -/

def BodyState.initial (world : World) (symbol : String) (body : Code) : BodyState :=
  ⟨world, .new symbol body.maxStack body.maxLocals, Array.replicate body.bytes.length none, []⟩

variable {source : ClassSource} {c : ClassId} {file : ClassFile} {member : Member} {e : EntityId} {world : World}
  {m : Method} {body : Code} {ops : List (Nat × Operation)} {bs : List Nat}

lemma methodGraph_eq (hm : (world.program.entityAt e).method? = some m) (hb : member.code? = some body)
    (hops : decode body.bytes = .ok ops)
    (hbs : boundaries body.bytes.length (ofDecoded body.bytes.length ops) = .ok bs) :
    methodGraph source c file member e world =
      runBody (.new (world.program.entityAt e).symbol body.maxStack body.maxLocals) body.bytes.length
        (whole ⟨source, c, file, m.resultMode?⟩ m (ofDecoded body.bytes.length ops) body.bytes.length bs)
        world := by
  unfold methodGraph
  rw [Steps.get_bind]
  simp only [hm, hb]
  rw [bind_of_ok (pureStep_ok.2 ⟨hops, rfl⟩), bind_of_ok (pureStep_ok.2 ⟨hbs, rfl⟩)]

lemma runBody_of_error {frame : Frame} {n : Nat} {x : Body Unit} {fault : Error} {t' : BodyState}
    (h : x ⟨world, frame, Array.replicate n none, []⟩ = .error fault t') :
    runBody frame n x world = .error fault t'.world := by
  unfold runBody
  rw [h]

lemma Body.Initial.of_decode (hops : Bytecode.decode body.bytes = .ok ops)
    (hbs : Bytecode.boundaries body.bytes.length (ofDecoded body.bytes.length ops) = .ok bs) (symbol : String) :
    Initial body.bytes.length (ofDecoded body.bytes.length ops) bs (.initial world symbol body) := by
  have L := layout_ofDecoded (Bytecode.decode_ascending hops)
  refine ⟨.new _ world symbol body.maxStack body.maxLocals body.bytes.length, fun p => ?_, by simp [initial], L,
    Bytecode.boundaries_spec hbs L⟩
  simp only [blockAt, starts, initial, Arrays.getD_replicate, map_none]

/-- If a method is given a graph, there is one depth of the operand stack for each block with which all edges to it
leave; and it is given none if two edges to a block disagree. -/
theorem methodGraph_depths (source : ClassSource) (c : ClassId) (file : ClassFile) (member : Member) (e : EntityId)
    (world : World) (m : Method) (body : Code) (ops : List (Nat × Operation)) (bs : List Nat)
    (hm : (world.program.entityAt e).method? = some m) (hb : member.code? = some body)
    (hops : Bytecode.decode body.bytes = .ok ops)
    (hbs : Bytecode.boundaries body.bytes.length (Instruction.ofDecoded body.bytes.length ops) = .ok bs) :
    (∀ g world', methodGraph source c file member e world = .ok g world' →
      ∃ t', Body.whole ⟨source, c, file, m.resultMode?⟩ m (Instruction.ofDecoded body.bytes.length ops)
      body.bytes.length bs
          (.initial world (world.program.entityAt e).symbol body) = .ok () t' ∧ g = t'.frame.graph.tidy ∧
        Body.Agree ⟨source, c, file, m.resultMode?⟩ m (Instruction.ofDecoded body.bytes.length ops) bs
          (.initial world (world.program.entityAt e).symbol body) t') ∧
    (Body.Disagree ⟨source, c, file, m.resultMode?⟩ m (Instruction.ofDecoded body.bytes.length ops) bs
        (.initial world (world.program.entityAt e).symbol body) →
      ∃ pc world', methodGraph source c file member e world = .error (.stackPointerMismatch pc) world') := by
  constructor
  · intro g world' h
    rw [methodGraph_eq hm hb hops hbs] at h
    obtain ⟨t', hwhole, rfl, -⟩ := runBody_ok h
    exact ⟨t', hwhole, rfl, agree_of_whole (.of_decode hops hbs _) hwhole⟩
  · intro D
    obtain ⟨pc, t', hwhole⟩ := D.whole (.of_decode hops hbs _)
    exact ⟨pc, t'.world, (methodGraph_eq hm hb hops hbs).trans (runBody_of_error hwhole)⟩

def aloneContext (m : Method) :
    MethodContext := ⟨.ofList [], ⟨0⟩, ⟨0, 0, ⟨#[]⟩, ⟨0⟩, 0, 0, [], [], [], []⟩, m.resultMode?⟩

/-- Where the translation of such a method begins. -/
def aloneStart (m : Method) (body : Code) : BodyState :=
  .initial { image := { program := { entities := #[⟨"m", "m", none, .method m, .exported, none⟩] } } } "m" body

/-- Jumps over a piece of code that falls into the target of the jump with one operand more. -/
def uneven : Text.Bytes := [0xa7, 0, 4, 0x04, 0xa7, 0xff, 0xff]

def unevenCode : List Instruction := Instruction.ofDecoded 7 [(0, .jump 4), (3, .constant .int 1), (4, .jump 3)]

lemma disagree_uneven : Disagree (aloneContext (staticMethod [] none)) (staticMethod [] none) unevenCode [0, 3, 4]
    (aloneStart (staticMethod [] none) ⟨1, 0, uneven⟩) := by
  have hjump : ((after? (upTo (aloneContext (staticMethod [] none)) (staticMethod [] none) unevenCode [0, 3, 4] 0
      (aloneStart (staticMethod [] none) ⟨1, 0, uneven⟩))).bind fun s =>
        (after? (arrive ⟨0, .jump 4, 3⟩ s)).map fun t =>
        (t.frame.builder.current?.isSome, t.frame.depth)) = some (true, 0) := by decide +kernel
  have hinto : ((after? (upTo (aloneContext (staticMethod [] none)) (staticMethod [] none) unevenCode [0, 3, 4] 2
      (aloneStart (staticMethod [] none) ⟨1, 0, uneven⟩))).map fun s =>
        (s.frame.builder.current?, s.blockAt 4, s.frame.depth)) = some (some ⟨2⟩, some ⟨3⟩, 1) := by decide +kernel
  obtain ⟨s, hs, hjump⟩ := bind_eq_some_iff.1 hjump
  obtain ⟨t, ht, hvalue⟩ := map_eq_some_iff.1 hjump
  obtain ⟨hcur, hdepth⟩ := mk.inj hvalue
  obtain ⟨s', hs', hvalue'⟩ := map_eq_some_iff.1 hinto
  obtain ⟨hcur', hvalue'⟩ := mk.inj hvalue'
  obtain ⟨hblock, hdepth'⟩ := mk.inj hvalue'
  have S : Sends s ⟨0, .jump 4, 3⟩ .jump 4 t.frame.depth := .jump (after?_eq_some.1 ht) hcur rfl
  have S' : Sends s' ⟨4, .jump 3, 7⟩ .into 4 s'.frame.depth := .into hcur' hblock (by decide)
  rw [hdepth] at S
  rw [hdepth'] at S'
  exact ⟨0, 2, ⟨0, .jump 4, 3⟩, ⟨4, .jump 3, 7⟩, s, s', .jump, .into, 4, 0, 1, rfl, after?_eq_some.1 hs, S, rfl,
    after?_eq_some.1 hs', S', by decide⟩

/-- A loop whose edges agree, and two edges that do not. -/
theorem methodGraph_depths_countdown :
    (∃ g world' ops bs t', translateAlone (staticMethod [.int] (some .int)) 2 1 countdown = .ok g world' ∧
      Bytecode.decode countdown = .ok ops ∧ Bytecode.boundaries 18 (Instruction.ofDecoded 18 ops) = .ok bs ∧
      Body.Agree (aloneContext (staticMethod [.int] (some .int))) (staticMethod [.int] (some .int))
      (Instruction.ofDecoded 18 ops) bs
        (aloneStart (staticMethod [.int] (some .int)) ⟨2, 1, countdown⟩) t') ∧
    ∃ pc world', translateAlone (staticMethod [] none) 1 0 uneven = .error (.stackPointerMismatch pc) world' := by
  constructor
  · have hops : decode countdown = .ok ((decode countdown).toOption.getD []) :=
      ok_of_toOption (by decide +kernel)
    have hbs : boundaries 18 (ofDecoded 18 ((decode countdown).toOption.getD [])) =
        .ok [0, 4, 10, 12] := ok_of_toOption (by decide +kernel)
    have hrun : (after? (translateAlone (staticMethod [.int] (some .int)) 2 1 countdown)).isSome = true := by
      decide +kernel
    obtain ⟨world', hworld⟩ := isSome_iff_exists.1 hrun
    obtain ⟨g, hg⟩ := ok_of_after? hworld
    obtain ⟨t', -, -, hagree⟩ := (methodGraph_depths _ _ _ _ _ _ _ ⟨2, 1, countdown⟩ _ _ rfl rfl hops hbs).1 g world' hg
    exact ⟨g, world', _, _, t', hg, hops, hbs, hagree⟩
  · have hops : decode uneven = .ok [(0, .jump 4), (3, .constant .int 1), (4, .jump 3)] :=
      ok_of_toOption (by decide +kernel)
    have hbs : boundaries 7 unevenCode = .ok [0, 3, 4] := ok_of_toOption (by decide +kernel)
    exact (methodGraph_depths _ _ _ _ _ _ _ ⟨1, 0, uneven⟩ _ _ rfl rfl hops hbs).2 disagree_uneven

end JvmGraph
