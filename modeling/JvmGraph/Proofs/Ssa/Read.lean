import JvmGraph.Proofs.Ssa.Invariant
import JvmGraph.Proofs.Steps

/-!
# Reading variables

A read adds Phis and values of nothing, and defines the variable in blocks that had no definition of it. It
leaves every node and every definition that was there before alone, keeps the invariant, and gives what the
block holds afterwards (`readAt_spec`). The Phis that a read puts in place are settled before it ends, so
that the reads nested in it may find them waiting, but none of them is left over.
-/

namespace JvmGraph.Ssa

open Steps List JvmGraph.Graph Builder

variable {busy : Busy} {p : NodeId} {s s' : Builder} {strict : Prop} {x : Var} {mode : Mode} {T : Record} {n : NodeId}
  {P : NodeId → Prop} {e : NodeId} {b : BlockId}

/-! ## What a read may do -/

lemma onGraph_ok {α : Type} {f : Graph → α × Graph} {a : α} :
    onGraph f s = .ok a s' ↔ (f s.graph).1 = a ∧ { s with graph := (f s.graph).2 } = s' := by
  simp [onGraph]

lemma modifyGraph_ok {f : Graph → Graph} {u : Unit} :
    modifyGraph f s = .ok u s' ↔ { s with graph := f s.graph } = s' := by
  simp [modifyGraph, onGraph_ok]

/-- What reads and maturing leave as it is: they add Phis and values of nothing, and define variables where
they were undefined. -/
structure Later (s s' : Builder) (T T' : Record) : Prop where
  grows : s.graph.Grows s'.graph
  fresh : ∀ n, s.graph.nodes.size ≤ n.index → n.index < s'.graph.nodes.size →
    (s'.graph.node n).op = .phi ∨ (s'.graph.node n).op = .unknown ∨ (s'.graph.node n).op = .forward
  graph : s'.graph = { s.graph with nodes := s'.graph.nodes }
  varCount : s'.varCount = s.varCount
  current : s'.current? = s.current?
  def_keep : ∀ c y m, s.definition? c y = some m → s'.definition? c y = some m
  entry_keep : ∀ c y n, T.entry c y = some n → T'.entry c y = some n
  written : T'.written = T.written

namespace Later

variable {s'' : Builder} {T' T'' : Record}

lemma refl (s : Builder) (T : Record) : Later s s T T where
  grows := .refl _
  fresh _ h1 h2 := absurd h2 (by omega)
  graph := rfl
  varCount := rfl
  current := rfl
  def_keep _ _ _ h := h
  entry_keep _ _ _ h := h
  written := rfl

lemma trans (h : Later s s' T T') (h' : Later s' s'' T' T'') : Later s s'' T T'' where
  grows := h.grows.trans h'.grows
  fresh n h1 h2 := by
    by_cases hn : s'.graph.Has n
    · rcases h.fresh n h1 hn with ho | ho | ho
      · rcases h'.grows.phi n hn ho with h3 | h3
        · exact .inl h3
        · exact .inr (.inr h3)
      · rw [h'.grows.keep n hn (.inl (by simp [ho]))]; exact .inr (.inl ho)
      · rw [h'.grows.keep n hn (.inl (by simp [ho]))]; exact .inr (.inr ho)
    · exact h'.fresh n (by omega) h2
  graph := by rw [h'.graph, h.graph]
  varCount := h'.varCount.trans h.varCount
  current := h'.current.trans h.current
  def_keep c y m hm := h'.def_keep c y m (h.def_keep c y m hm)
  entry_keep c y n hn := h'.entry_keep c y n (h.entry_keep c y n hn)
  written := h'.written.trans h.written

lemma blocks (h : Later s s' T T') : s'.graph.blocks = s.graph.blocks := by rw [h.graph]

lemma preds (h : Later s s' T T') (b : BlockId) : s'.preds b = s.preds b := by
  simp [Builder.preds, block, h.blocks]

lemma holds (h : Later s s' T T') {c : BlockId} {y : Var} (hc : s.Holds c y n) : s'.Holds c y n := by
  obtain ⟨m, hm, hs⟩ := hc
  exact ⟨m, h.def_keep c y m hm, h.grows.same _ _ hs⟩

end Later

/-- Reads of `x` as a value of one mode. Among the nodes that were there, only those in `P` change. -/
structure Reads (x : Var) (mode : Mode) (P : NodeId → Prop) (s s' : Builder) (T T' : Record) : Prop
    extends Later s s' T T' where
  keep : ∀ n, n.index < s.graph.nodes.size → ¬ P n →
    s'.graph.node n = s.graph.node n ∧ T'.waiting n = T.waiting n
  matured : ∀ c, s'.isMatured c = s.isMatured c
  entry_other : ∀ c y, y ≠ x → T'.entry c y = T.entry c y

namespace Reads

variable {P' P'' : NodeId → Prop} {s'' : Builder} {T' T'' : Record}

lemma refl (x : Var) (mode : Mode) (P : NodeId → Prop) (s : Builder) (T : Record) : Reads x mode P s s T T where
  toLater := .refl s T
  keep _ _ _ := ⟨rfl, rfl⟩
  matured _ := rfl
  entry_other _ _ _ := rfl

lemma trans (h : Reads x mode P s s' T T') (h' : Reads x mode P' s' s'' T' T'')
    (hP : ∀ n, s.graph.Has n → P n ∨ P' n → P'' n) : Reads x mode P'' s s'' T T'' where
  toLater := h.toLater.trans h'.toLater
  keep n hn hp := by
    obtain ⟨h1, h2⟩ := h.keep n hn fun hp' => hp (hP n hn (.inl hp'))
    obtain ⟨h3, h4⟩ := h'.keep n (lt_of_lt_of_le hn h.grows.size_le) fun hp' => hp (hP n hn (.inr hp'))
    exact ⟨h3.trans h1, h4.trans h2⟩
  matured c := (h'.matured c).trans (h.matured c)
  entry_other c y hy := (h'.entry_other c y hy).trans (h.entry_other c y hy)

end Reads

/-- A state in which `x` can be read. -/
structure Readable (strict : Prop) (x : Var) (s : Builder) (T : Record) (busy : Busy) : Prop where
  inv : Inv strict s T busy
  var : x ≤ s.varCount
  busy_lt : ∀ n, busy.phis n → n.index < s.graph.nodes.size

lemma Readable.later {T' : Record}
    (R : Readable strict x s T busy) (h : Reads x mode P s s' T T') (I : Inv strict s' T' busy) :
    Readable strict x s' T' busy where
  inv := I
  var := by rw [h.varCount]; exact R.var
  busy_lt n hn := lt_of_lt_of_le (R.busy_lt n hn) h.grows.size_le

def Builder.Root (s : Builder) (n : NodeId) : Prop :=
  n.index < s.graph.nodes.size ∧ (s.graph.node n).op ≠ .forward

lemma Shape.root_resolve (S : Shape s) (h : s.graph.Has n) :
    s.Root (s.graph.resolve n) := ⟨S.settled.resolve_lt h, S.settled.op_resolve n⟩

lemma Inv.predBlock_ne_end (I : Inv strict s T busy) (h : strict) : s.graph.predBlock e ≠ endBlock :=
  ((I.strictly h).node_ok _).not_end

def ReadsWell (strict : Prop) (x : Var) (read : BlockId → Mode → Build NodeId) : Prop :=
  ∀ {s s' : Builder} {T : Record} {busy : Busy} {b : BlockId} {mode : Mode} {n : NodeId},
    read b mode s = .ok n s' → Readable strict x s T busy → b.index < s.graph.blocks.size →
    (strict → b ≠ Graph.endBlock) →
    ∃ T', Inv strict s' T' busy ∧ Reads x mode (fun _ => False) s s' T T' ∧ s'.Holds b x n ∧ s'.Root n

/-! ## Operands of a Phi -/

section Operands

variable {read : BlockId → Mode → Build NodeId} {inputs : List NodeId} {w : NodeId}

lemma readOperands_spec (hr : ReadsWell strict x read) (mode : Mode) :
    ∀ {edges inputs : List NodeId} {s s' : Builder} {T : Record} {busy : Busy} {b : BlockId},
      (edges.mapM fun e => do read ((← get).graph.predBlock e) mode) s = .ok inputs s' →
      Readable strict x s T busy → (∀ e ∈ edges, e ∈ s.preds b) →
      ∃ T', Inv strict s' T' busy ∧ Reads x mode (fun _ => False) s s' T T' ∧
        Forall₂ (fun i e => s'.Holds (s'.graph.predBlock e) x i) inputs edges ∧
        ∀ i ∈ inputs, s'.graph.Has i
  | [], inputs, s, s', T, busy, b, h, R, _ => by
    cases h; exact ⟨T, R.inv, .refl _ _ _ _ _, .nil, by simp⟩
  | e :: edges, inputs, s, s', T, busy, b, h, R, hb => by
    obtain ⟨n, s1, inputs', h1, h2, rfl⟩ := mapM_cons_ok.1 h
    obtain ⟨T1, I1, R1, hn, hroot⟩ := hr h1 R (R.inv.shape.predBlock_lt e) R.inv.predBlock_ne_end
    obtain ⟨T2, I2, R2, hin, hlt⟩ := readOperands_spec hr mode (b := b) h2 (R.later R1 I1)
      fun e' he => by rw [R1.preds]; exact hb e' (.tail _ he)
    have R12 : Reads x mode (fun _ => False) s s' T T2 := R1.trans R2 fun _ _ h => h.elim id id
    refine ⟨T2, I2, R12, .cons ?_ hin, forall_mem_cons.2 ⟨?_, hlt⟩⟩
    · rw [R.inv.shape.predBlock_grows I2.shape.settled R12.grows (hb e (by simp))]
      exact R2.holds hn
    · exact lt_of_lt_of_le hroot.1 R2.grows.size_le

lemma removeTrivialPhi_cases
    (h : removeTrivialPhi p (s.filled p inputs) = .ok n s') (S : s.graph.Settled) (hlt : s.graph.Has p)
    (hop : (s.graph.node p).op = .phi) : ((∀ i ∈ inputs, s.graph.resolve i = p) ∧ n = s.graph.fresh ∧
      s' = (s.place (s.graph.node p).block .unknown (s.graph.node p).mode []).replaced p n) ∨
    (n ≠ p ∧ (∃ i ∈ inputs, s.graph.resolve i = n) ∧ (∀ i ∈ inputs, s.graph.resolve i = p ∨ s.graph.resolve i = n) ∧
      s' = s.replaced p n) ∨
    (1 < inputs.length ∧ n = p ∧ s' = s.filled p inputs) := by
  have hf : (s.graph.node p).op ≠ .forward := by simp [hop]
  have hself : (s.filled p inputs).graph.node p = { s.graph.node p with inputs } := by
    simp only [filled, Graph.node_setNode, hlt, and_self, if_true]
  have hres : ∀ i, (s.filled p inputs).graph.resolve i = s.graph.resolve i := S.resolve_setNode hf hf
  replace h := get_bind_ok.1 h
  have hin : ((s.filled p inputs).graph.node p).inputs = inputs := by rw [hself]
  cases hmerge : (s.filled p inputs).graph.merge p with
  | nothing =>
    simp only [hmerge] at h
    rw [Graph.merge, hin] at hmerge
    obtain ⟨u, s1, h1, h⟩ := bind_ok.1 h
    obtain ⟨rfl, rfl⟩ := onGraph_ok.1 h1
    obtain ⟨v, s2, h2, h⟩ := bind_ok.1 h
    cases h2
    cases h
    have hu : p ≠ s.graph.fresh := by rintro rfl; exact lt_irrefl _ hlt
    refine .inl ⟨fun i hi => ?_, by simp [filled], ?_⟩
    · rw [← hres]; exact Graph.mergeOf_nothing hmerge i hi
    · have hnode : (s.graph.add (s.graph.node p).block .unknown (s.graph.node p).mode []).2.node p =
        s.graph.node p := by
        rw [Graph.node_add, if_neg (by omega)]
      have e := Graph.exchange_setNode (s.graph.add (s.graph.node p).block .unknown (s.graph.node p).mode []).2 hu
        (by simp only [Has, Graph.size_add]; omega) inputs
      rw [hnode] at e
      have hbl : ((s.filled p inputs).graph.node p).block = (s.graph.node p).block := by rw [hself]
      have hmode : ((s.filled p inputs).graph.node p).mode = (s.graph.node p).mode := by rw [hself]
      simp only [hbl, hmode, Graph.add_fst]
      simp only [replaced, place, filled, Graph.fresh, Graph.size_setNode, Graph.setNode_add _ _ hlt]
      rw [← e]
  | single w =>
    simp only [hmerge] at h
    rw [Graph.merge, hin] at hmerge
    obtain ⟨v, s2, h2, h⟩ := bind_ok.1 h
    obtain rfl := modifyGraph_ok.1 h2
    cases h
    obtain ⟨h1, h2, h3⟩ := Graph.mergeOf_single.1 hmerge
    simp only [hres] at h2 h3
    refine .inr (.inl ⟨h1, h2, h3, ?_⟩)
    simp [replaced, filled, Graph.exchange_setNode _ (.symm h1) hlt]
  | several =>
    simp only [hmerge] at h
    rw [Graph.merge, hin] at hmerge
    cases h
    exact .inr (.inr ⟨Graph.length_of_mergeOf_several hmerge, rfl, rfl⟩)

lemma Reads.settle {g' : Graph} (G : s.graph.Grows g')
    (hn : ∀ n, n ≠ p → g'.node n = s.graph.node n) (hsz : g'.nodes.size = s.graph.nodes.size)
    (hg : g' = { s.graph with nodes := g'.nodes }) : Reads x mode (· = p) s { s with graph := g' } T (T.settle p) where
  grows := G
  keep n _ hp := ⟨hn n hp, by simp [Record.settle, if_neg hp]⟩
  fresh n h1 h2 := by
    have : g'.Has n := h2; omega
  graph := hg
  varCount := rfl
  current := rfl
  matured _ := rfl
  def_keep _ _ _ h := h
  entry_keep _ _ _ h := h
  entry_other _ _ _ := rfl
  written := rfl

lemma Reads.place {op : Op}
    (S : Shape s) (ho : op = .phi ∨ op = .unknown) : Reads x mode P s (s.place b op mode []) T T where
  grows := S.grows_place (by rcases ho with rfl | rfl <;> simp)
  keep n hn _ := ⟨by simp only [Builder.place, node_add, if_neg (ne_of_lt hn)], rfl⟩
  fresh n h1 h2 := by
    have hn : n.index = s.graph.nodes.size := by
      simp only [Builder.place, size_add] at h2; omega
    simp only [Builder.place, node_add, if_pos hn]; exact ho.imp_right .inl
  graph := rfl
  varCount := rfl
  current := rfl
  matured _ := rfl
  def_keep _ _ _ h := h
  entry_keep _ _ _ h := h
  entry_other _ _ _ := rfl
  written := rfl

lemma Reads.fill (I : Inv strict s T busy)
    (hw : T.waiting p = some x) : Reads x mode (· = p) s (s.filled p inputs) T (T.settle p) := by
  obtain ⟨-, hop, hin, -⟩ := I.entered.waiting_ok p x hw
  refine .settle (.fill I.shape.settled hop hin inputs) (fun n hn => ?_) (by simp) rfl
  rw [node_setNode, if_neg fun e => hn e.1]

lemma Reads.replace (I : Inv strict s T busy) (hw : T.waiting p = some x) (hne : p ≠ w) (hroot : s.Root w) :
    Reads x mode (· = p) s (s.replaced p w) T (T.settle p) := by
  obtain ⟨hlt, hop, hin, -⟩ := I.entered.waiting_ok p x hw
  refine .settle ((Graph.Grows.refl _).exchange I.shape.settled hop hin hop hlt hne hroot.1 hroot.2)
    (fun n hn => ?_) (by simp) ?_
  · rw [node_exchange hne hlt, if_neg hn]
  · rw [exchange, if_neg hne]; rfl

lemma Builder.Root.replaced (h : s.Root w) (hne : p ≠ w)
    (hlt : s.graph.Has p) : (s.replaced p w).Root w := by
  refine ⟨by simpa [Builder.replaced] using h.1, ?_⟩
  simp only [Builder.replaced, node_exchange hne hlt, if_neg (Ne.symm hne)]
  exact h.2

lemma addOperands_spec (hr : ReadsWell strict x read)
    (h : addOperands read p s = .ok n s') (R : Readable strict x s T busy) (hw : T.waiting p = some x)
    (hp : busy.phis p) (hm : Closed s busy (s.graph.node p).block) :
    ∃ T', Inv strict s' T' (busy.drop p) ∧ Reads x (s.graph.node p).mode (· = p) s s' T T' ∧
      s'.graph.Same p n ∧ s'.Root n ∧ T'.waiting p = none := by
  replace h := get_bind_ok.1 h
  obtain ⟨inputs, s1, h1, h⟩ := bind_ok.1 h
  obtain ⟨u, s2, h2, h⟩ := bind_ok.1 h
  cases h2
  obtain ⟨T1, I, R1, hin, hlt⟩ := readOperands_spec hr (s.graph.node p).mode (b := (s.graph.node p).block) h1 R
    fun e he => he
  have hps := (R.inv.entered.waiting_ok p x hw).1
  obtain ⟨hnode, hwait⟩ := R1.keep p hps (by simp)
  have hw1 : T1.waiting p = some x := hwait.trans hw
  obtain ⟨hps1, hop, hnil, -⟩ := I.entered.waiting_ok p x hw1
  have S := I.shape.settled
  have hself : s1.graph.resolve p = p := S.resolve_of_op (by simp [hop])
  have hpreds : s1.preds (s1.graph.node p).block = (s.graph.block (s.graph.node p).block).preds := by
    rw [hnode]; exact R1.preds _
  rw [← hpreds] at hin
  have hm1 : Closed s1 busy (s1.graph.node p).block := by rwa [Closed, hnode, R1.matured]
  -- what an operand stands for, the predecessor holds
  have hheld : ∀ w, (∀ i ∈ inputs, s1.graph.resolve i = p ∨ s1.graph.resolve i = w) → s1.graph.resolve w = w →
      ∀ e ∈ s1.preds (s1.graph.node p).block,
        s1.Holds (s1.graph.predBlock e) x p ∨ s1.Holds (s1.graph.predBlock e) x w := by
    intro w hall hrw e he
    obtain ⟨k, hk, rfl⟩ := getElem_of_mem he
    have hh := hin.get (hin.length_eq ▸ hk) hk
    rcases hall _ (get_mem _ _) with h' | h'
    · exact .inl (hh.same (h'.trans hself.symm))
    · exact .inr (hh.same (h'.trans hrw.symm))
  rcases removeTrivialPhi_cases h S hps1 hop with ⟨hall, rfl, rfl⟩ | ⟨hne, ⟨i, hi, rfl⟩, hall, rfl⟩ | ⟨hne, rfl, rfl⟩
  · let s2 := s1.place (s1.graph.node p).block .unknown (s1.graph.node p).mode []
    have I2 : Inv strict s2 T1 busy := I.place (I.shape.node_block p) (by simp) fun h =>
      ⟨by simp, ((I.strictly h).node_ok p).not_end, by simp⟩
    have R2 : Reads x (s.graph.node p).mode (fun _ => False) s1 s2 T1 T1 := by
      rw [← hnode]; exact .place I.shape (.inr rfl)
    have hold : s2.graph.node p = s1.graph.node p := (R2.keep p hps1 id).1
    have hnew : s2.graph.node s1.graph.fresh =
        ⟨.unknown, (s1.graph.node p).mode, (s1.graph.node p).block, []⟩ := by
      simp only [s2, place, node_add, if_true]
    have hne : p ≠ s1.graph.fresh := by rintro rfl; exact lt_irrefl _ hps1
    have hroot : s2.Root s1.graph.fresh := ⟨by simp [s2, place], by simp [hnew]⟩
    obtain ⟨I', hsame⟩ := I2.replace hw1 (congrArg Node.block hold) hp hm1 hroot.1 hroot.2 hne (fun e he => by
        rw [I.shape.predBlock_grows I2.shape.settled R2.grows he]
        have := hheld p (fun i hi => .inl (hall i hi)) hself e he
        exact .inl (R2.holds (this.elim id id)))
      fun _ => by rw [hnew]; exact ⟨rfl, rfl⟩
    exact ⟨_, I', (R1.trans R2 fun _ _ h => h).trans (.replace I2 hw1 hne hroot)
      (fun _ _ h => h.resolve_left (by simp)), hsame,
      hroot.replaced hne (lt_of_lt_of_le hps1 R2.grows.size_le), by simp [Record.settle]⟩
  · have hroot := I.shape.root_resolve (hlt i hi)
    obtain ⟨I', hsame⟩ := I.replace hw1 rfl hp hm1 hroot.1 hroot.2 (.symm hne)
      (hheld _ hall (S.resolve_resolve i)) fun h0 => by
        rw [h0] at hin; simp [forall₂_nil_right_iff.1 hin] at hi
    exact ⟨_, I', R1.trans (.replace I hw1 (.symm hne) hroot) (fun _ _ h => h.resolve_left id), hsame,
      hroot.replaced (.symm hne) hps1, by simp [Record.settle]⟩
  · have h0 : 1 < (s1.preds (s1.graph.node n).block).length := by rwa [← hin.length_eq]
    refine ⟨_, I.fill hw1 rfl hp hm1 h0 hin, R1.trans (.fill I hw1) (fun _ _ h => h.resolve_left id), .refl _ _,
      ?_, by simp [Record.settle]⟩
    refine ⟨by simpa [filled] using hps1, ?_⟩
    simp only [filled, node_setNode, hps1, hop]; simp

end Operands

/-! ## Reading at the end of a block -/

def Builder.parked (s : Builder) (b : BlockId) (x : Var) (mode : Mode) : Builder :=
  ((s.place b .phi mode []).modifyState b fun state => state.addIncomplete x s.graph.fresh).define b x
    s.graph.fresh

lemma Builder.parked_eq (s : Builder) (b : BlockId) (x : Var) (mode : Mode) : s.parked b x mode =
    (s.awaited b x mode).modifyState b fun state => state.addIncomplete x s.graph.fresh := by
  simp only [parked, awaited, define, modifyState, mk.injEq, true_and, and_true]
  refine Array.ext_getElem? fun i => ?_
  simp only [Array.getElem?_modify]
  split
  · cases (s.place b .phi mode []).states[i]? <;> rfl
  · rfl

inductive ReadsTo (fuel : Nat) (x : Var) (b : BlockId) (mode : Mode) (s : Builder) : NodeId → Builder → Prop
  | found {v : NodeId} (h : s.definition? b x = some v) : ReadsTo fuel x b mode s (s.graph.resolve v) s
  | parked (h : s.definition? b x = none) (hm : s.isMatured b = false) :
      ReadsTo fuel x b mode s s.graph.fresh (s.parked b x mode)
  | nothing (h : s.definition? b x = none) (hm : s.isMatured b = true) (hp : s.preds b = []) :
      ReadsTo fuel x b mode s s.graph.fresh ((s.place b .unknown mode []).define b x s.graph.fresh)
  | passed {e n : NodeId} {s1 : Builder} (h : s.definition? b x = none) (hm : s.isMatured b = true)
    (hp : s.preds b = [e])
      (hr : readAt fuel x (s.graph.predBlock e) mode s = .ok n s1) : ReadsTo fuel x b mode s n (s1.define b x n)
  | met {n : NodeId} {s1 : Builder} (h : s.definition? b x = none) (hm : s.isMatured b = true)
      (hp : 1 < (s.preds b).length)
      (hr : addOperands (readAt fuel x) s.graph.fresh (s.awaited b x mode) = .ok n s1) :
      ReadsTo fuel x b mode s n (s1.define b x n)

lemma readAt_iff {fuel : Nat} : readAt (fuel + 1) x b mode s = .ok n s' ↔ ReadsTo fuel x b mode s n s' := by
  refine get_bind_ok.trans ?_
  constructor
  · intro h
    cases hd : s.definition? b x with
    | some v =>
      simp only [hd] at h
      cases h
      exact .found hd
    | none =>
      cases hm : s.isMatured b with
      | false =>
        simp only [hd, hm] at h
        cases h
        exact .parked hd hm
      | true =>
        rcases hp : (s.graph.block b).preds with _ | ⟨only, _ | ⟨e, rest⟩⟩ <;> simp only [hd, hm, hp] at h
        · cases h
          exact .nothing hd hm hp
        · obtain ⟨v, s1, h1, h⟩ := bind_ok.1 h
          cases h
          exact .passed hd hm hp h1
        · obtain ⟨phi, s1, h1, h⟩ := bind_ok.1 h
          cases h1
          obtain ⟨u, s2, h2, h⟩ := bind_ok.1 h
          cases h2
          obtain ⟨v, s3, h3, h⟩ := bind_ok.1 h
          cases h
          exact .met hd hm (by simp [preds, hp]) h3
  · intro h
    cases h with
    | found hd => simp only [hd]; rfl
    | parked hd hm => simp only [hd, hm]; rfl
    | nothing hd hm hp => simp only [hd, hm, show (s.graph.block b).preds = [] from hp]; rfl
    | passed hd hm hp hr =>
      simp only [hd, hm, show (s.graph.block b).preds = [_] from hp]
      exact bind_ok.2 ⟨_, _, hr, rfl⟩
    | met hd hm hp hr =>
      rcases he : (s.graph.block b).preds with _ | ⟨e, _ | ⟨e', rest⟩⟩
      · simp [preds, he] at hp
      · simp [preds, he] at hp
      · simp only [hd, hm]
        exact bind_ok.2 ⟨_, _, rfl, bind_ok.2 ⟨_, _, rfl, bind_ok.2 ⟨_, _, hr, rfl⟩⟩⟩

section ReadAt

variable {T' T'' : Record}

lemma Reads.define (h : Reads x mode P s s' T T') (D : Defined s T) (hnone : s.definition? b x = none)
    (hb : b.index < s'.states.size) (hx : x < (s'.state b).definitions.size)
    (he : ∀ c y, ¬ (c = b ∧ y = x) → T''.entry c y = T'.entry c y)
    (hw : ∀ k, s.graph.Has k → T''.waiting k = T'.waiting k)
    (hwr : T''.written = T'.written) : Reads x mode P s (s'.define b x n) T T'' where
  grows := h.grows
  keep k hk hp := ⟨(h.keep k hk hp).1, (hw k hk).trans (h.keep k hk hp).2⟩
  fresh := h.fresh
  graph := h.graph
  varCount := h.varCount
  current := h.current
  matured c := by rw [isMatured_define, h.matured]
  def_keep c y m hm := by
    rw [s'.definition?_define n hb hx, if_neg]
    · exact h.def_keep c y m hm
    · rintro ⟨rfl, rfl⟩; simp [hnone] at hm
  entry_keep c y k hk := by
    rw [he]
    · exact h.entry_keep c y k hk
    · rintro ⟨rfl, rfl⟩; simp [(D.of_none hnone).1] at hk
  entry_other c y hy := by rw [he _ _ fun e => hy e.2]; exact h.entry_other c y hy
  written := hwr.trans h.written

lemma Reads.addIncomplete (h : Reads x mode P s s' T T') :
    Reads x mode P s (s'.modifyState b fun state => state.addIncomplete x p) T T' where
  grows := h.grows
  keep := h.keep
  fresh := h.fresh
  graph := h.graph
  varCount := h.varCount
  current := h.current
  matured c := (s'.isMatured_modifyState b (fun _ => by rfl) c).trans (h.matured c)
  def_keep c y m hm := (s'.definition?_modifyState b (fun _ => by rfl) c y).trans (h.def_keep c y m hm)
  entry_keep := h.entry_keep
  entry_other := h.entry_other
  written := h.written

lemma Builder.size_awaited (s : Builder) (b : BlockId) (x : Var) (mode : Mode) :
    (s.awaited b x mode).graph.nodes.size = s.graph.nodes.size + 1 := by simp [awaited, place]

lemma Shape.definition_awaited (S : Shape s) (hb : s.graph.HasBlock b) (hx : x ≤ s.varCount) :
    (s.awaited b x mode).definition? b x = some s.graph.fresh := by
  obtain ⟨hb', hx'⟩ := S.in_range hb hx
  rw [awaited, definition?_define _ _ (by exact hb') (by exact hx')]
  simp

lemma Reads.await (S : Shape s) (D : Defined s T) (hb : s.graph.HasBlock b) (hx : x ≤ s.varCount)
    (hnone : s.definition? b x = none) :
    Reads x mode P s (s.awaited b x mode) T (T.await b x s.graph.fresh) := by
  obtain ⟨hb', hx'⟩ := S.in_range hb hx
  refine (Reads.place S (.inl rfl)).define D hnone (by exact hb') (by exact hx') (fun c y h => ?_) (fun k hk => ?_) rfl
  · simp [Record.await, Record.entry_enter, if_neg h]
  · have : k ≠ s.graph.fresh := by rintro rfl; exact lt_irrefl _ hk
    simp [Record.await, if_neg this]

section

variable (R : Readable strict x s T busy) (hb : s.graph.HasBlock b) (hnone : s.definition? b x = none)

include R hb hnone

lemma Readable.park (mode : Mode) (hend : strict → b ≠ endBlock) (hm : s.isMatured b = false) :
    ∃ T', Inv strict (s.parked b x mode) T' busy ∧ Reads x mode (fun _ => False) s (s.parked b x mode) T T' := by
  rw [parked_eq]
  have I := R.inv.await hb R.var hnone mode hend
  have I' := I.park (b := b) (x := x) (p := s.graph.fresh) (by simp [Record.await]) (by simp) (.inl rfl)
    ((isMatured_define _ _ _ _ _).trans hm)
  refine ⟨_, I'.busy_congr rfl fun k _ => ?_, (Reads.await R.inv.shape R.inv.defined hb R.var hnone).addIncomplete⟩
  have hk : busy.phis k → k ≠ s.graph.fresh := by
    rintro h rfl; exact lt_irrefl _ (R.busy_lt _ h)
  exact ⟨fun h => ⟨hk h, .inr h⟩, fun h => h.2.resolve_left h.1⟩

lemma Readable.unknown (mode : Mode) (hend : strict → b ≠ endBlock) (hm : s.isMatured b = true)
    (hp : s.preds b = []) : ∃ T', Inv strict ((s.place b .unknown mode []).define b x s.graph.fresh) T' busy ∧
    Reads x mode (fun _ => False) s ((s.place b .unknown mode []).define b x s.graph.fresh) T T' := by
  obtain ⟨hb', hx'⟩ := R.inv.shape.in_range hb R.var
  have I : Inv strict (s.place b .unknown mode []) T busy :=
    R.inv.place hb (by simp) fun h => ⟨by simp, hend h, by simp⟩
  have hnew : (s.place b .unknown mode []).graph.node s.graph.fresh = ⟨.unknown, mode, b, []⟩ := by
    simp [place, node_add]
  have hres : (s.place b .unknown mode []).graph.resolve s.graph.fresh = s.graph.fresh :=
    I.shape.settled.resolve_of_op (by simp [hnew])
  refine ⟨_, I.defineEntry (n := s.graph.fresh) hb R.var hnone (by simp [place]) (.inl hm)
    (.nothing hp ?_ ?_), (Reads.place R.inv.shape (.inr rfl)).define R.inv.defined hnone hb' hx' (fun c y h => ?_)
    (fun _ _ => rfl) rfl⟩
  · rw [graph_define, hres, hnew]
  · rw [graph_define, hres, hnew]
  · rw [Record.entry_enter, if_neg h]

lemma Readable.pass {s1 : Builder} {T1 : Record} (hm : s.isMatured b = true)
    (hp : s.preds b = [e]) (I : Inv strict s1 T1 busy) (R1 : Reads x mode (fun _ => False) s s1 T T1)
    (hh : s1.Holds (s.graph.predBlock e) x n) (hn : s1.graph.Has n) :
    ∃ T', Inv strict (s1.define b x n) T' busy ∧ Reads x mode (fun _ => False) s (s1.define b x n) T T' := by
  have hb1 : s1.graph.HasBlock b := by rwa [HasBlock, R1.blocks]
  have hx1 : x ≤ s1.varCount := by rw [R1.varCount]; exact R.var
  obtain ⟨hb', hx'⟩ := I.shape.in_range hb1 hx1
  have hp1 : s1.preds b = [e] := (R1.preds b).trans hp
  have hm1 : s1.isMatured b = true := (R1.matured b).trans hm
  have hpb : s1.graph.predBlock e = s.graph.predBlock e :=
    R.inv.shape.predBlock_grows I.shape.settled R1.grows (b := b) (by simp [hp])
  rw [← hpb] at hh
  have hw1 : T1.written b x = none := by rw [R1.written]; exact (R.inv.defined.of_none hnone).2
  cases hd : s1.definition? b x with
  | none =>
    refine ⟨_, I.defineEntry hb1 hx1 hd hn (.inl hm1) (.same ?_ fun e' he => ?_),
      R1.define R.inv.defined hnone hb' hx' (fun c y h => ?_) (fun _ _ => rfl) rfl⟩
    · simp [show (s1.define b x n).preds b = [e] from hp1]
    · rw [show (s1.define b x n).preds b = [e] from hp1, mem_singleton] at he
      subst he
      obtain ⟨m, hm, hs⟩ := hh; exact (I.shape.holds_define hb1 hx1 hd _ x m hm).same hs
    · rw [Record.entry_enter, if_neg h]
  | some m =>
    -- the walk has come by here before: the entry that it left agrees with the one predecessor
    obtain ⟨n0, hn0, hs0⟩ := I.defined.def_entry b x m hd hw1
    have hsame : s1.graph.Same n0 n := by
      rcases I.entered.entry_ok b x n0 hn0 with ⟨hwait, hbl⟩ | ⟨-, ha⟩
      · have hnb : busy.phis n0 := by
          by_contra hnb
          have := (I.entered.incomplete_iff b x n0).2 ⟨hwait, hbl, hnb⟩
          simp [I.entered.matured_incomplete b hm1] at this
        obtain ⟨h1, h2⟩ := R1.keep n0 (R.busy_lt n0 hnb) id
        rw [h2] at hwait
        have := (R.inv.entered.waiting_ok n0 x hwait).2.2.2
        simp [← h1, hbl, (R.inv.defined.of_none hnone).1] at this
      · obtain ⟨k, hk, hks⟩ := hh
        cases ha with
        | nothing h0 => rw [hp1] at h0; cases h0
        | same h0 hall =>
          obtain ⟨k', hk', hks'⟩ := hall e (by simp [hp1])
          rw [hk] at hk'
          cases hk'
          exact hks'.symm.trans hks
        | merged hbl hM =>
          have := hM.several
          rw [hbl, hp1] at this; simp at this
    exact ⟨_, I.redefine hd (hs0.trans hsame) hn hw1,
      R1.define R.inv.defined hnone hb' hx' (fun _ _ _ => rfl) (fun _ _ => rfl) rfl⟩

/-- A Phi was put in place, and its operands are to be read. -/
lemma Readable.await (mode : Mode) (hend : strict → b ≠ endBlock) : Readable strict x (s.awaited b x mode)
    (T.await b x s.graph.fresh) (busy.take s.graph.fresh) := by
  refine ⟨R.inv.await hb R.var hnone mode hend, R.var, fun k hk => ?_⟩
  rw [size_awaited]
  rcases hk with rfl | hk
  · exact Nat.lt_succ_self _
  · exact Nat.lt_succ_of_lt (R.busy_lt k hk)

lemma Readable.meet {read : BlockId → Mode → Build NodeId} (hr : ReadsWell strict x read)
    (hend : strict → b ≠ endBlock) (hm : s.isMatured b = true)
    (h : addOperands read s.graph.fresh (s.awaited b x mode) = .ok n s') :
    ∃ T', Inv strict (s'.define b x n) T' busy ∧ Reads x mode (fun _ => False) s (s'.define b x n) T T' ∧
    s'.Root n := by
  have S := R.inv.shape
  have R0 : Reads x mode (fun _ => False) s (s.awaited b x mode) T _ := .await S R.inv.defined hb R.var hnone
  obtain ⟨T2, I2, R2, hs, hroot, hw⟩ := addOperands_spec hr h (R.await hb hnone mode hend)
    (by simp [Record.await]) (.inl rfl)
    (by rw [node_awaited]; exact .inl ((isMatured_define _ _ _ _ _).trans hm))
  rw [node_awaited] at R2
  have R02 : Reads x mode (fun _ => False) s s' T T2 := R0.trans R2 fun k hk h => by
    rcases h with h | rfl
    · exact h
    · exact lt_irrefl _ hk
  have hd : s'.definition? b x = some s.graph.fresh := R2.def_keep _ _ _ (S.definition_awaited hb R.var)
  obtain ⟨hb', hx'⟩ := lt_of_definition hd
  have hw' : T2.written b x = none := by rw [R02.written]; exact (R.inv.defined.of_none hnone).2
  refine ⟨T2, (I2.redefine hd hs hroot.1 hw').busy_congr rfl fun k hk => ?_,
    R02.define R.inv.defined hnone hb' hx' (fun _ _ _ => rfl) (fun _ _ => rfl) rfl, hroot⟩
  have hne : k ≠ s.graph.fresh := by rintro rfl; simp [hw] at hk
  exact ⟨fun h => ⟨hne, .inr h⟩, fun h => h.2.resolve_left h.1⟩

end

lemma readAt_spec (fuel : Nat) : ReadsWell strict x (readAt fuel x) := by
  induction fuel with
  | zero =>
    intro s s' T busy b mode n h; cases h
  | succ fuel ih =>
    intro s s' T busy b mode n h R hb hend
    have holds : ∀ {t : Builder} {m : NodeId} {T' : Record}, Inv strict (t.define b x m) T' busy →
        Reads x mode (fun _ => False) s (t.define b x m) T T' → (t.define b x m).Holds b x m := by
      intro t m T' I' R'
      obtain ⟨hb', hx'⟩ := I'.shape.in_range (x := x) (by rwa [HasBlock, R'.blocks]) (by rw [R'.varCount]; exact R.var)
      rw [size_define] at hb'
      rw [size_definitions_define] at hx'
      exact ⟨m, by simp [t.definition?_define m hb' hx'], .refl _ _⟩
    cases readAt_iff.1 h with
    | found hd =>
      exact ⟨T, R.inv, .refl _ _ _ _ _, ⟨_, hd, (R.inv.shape.settled.same_resolve _).symm⟩,
        R.inv.shape.root_resolve (R.inv.defined.def_lt b x _ hd)⟩
    | parked hd hm =>
      obtain ⟨T', I', R'⟩ := R.park hb hd mode hend hm
      refine ⟨T', I', R', holds I' R', ?_⟩
      simp [Root, parked, place, modifyState, node_add]
    | nothing hd hm hp =>
      obtain ⟨T', I', R'⟩ := R.unknown hb hd mode hend hm hp
      refine ⟨T', I', R', holds I' R', ?_⟩
      simp [Root, place, node_add]
    | passed hd hm hp hr =>
      obtain ⟨T1, I1, R1, hh, hroot⟩ := ih hr R (R.inv.shape.predBlock_lt _) R.inv.predBlock_ne_end
      obtain ⟨T', I', R'⟩ := R.pass hb hd hm hp I1 R1 hh hroot.1
      exact ⟨T', I', R', holds I' R', hroot⟩
    | met hd hm _ hr =>
      obtain ⟨T', I', R', hroot⟩ := R.meet hb hd ih hend hm hr
      exact ⟨T', I', R', holds I' R', hroot⟩

end ReadAt

end JvmGraph.Ssa
