import JvmGraph.Proofs.Ssa.Flow
import JvmGraph.Proofs.Ssa.Primitives

/-!
# Reads give the values that reach them

A client of a builder makes blocks and nodes, adds predecessors, writes and reads variables in the current
block, and matures blocks, in whatever order it likes, as long as a block gets no predecessors once it is
matured and is not written any more once one of its successors is. In the end, with all blocks matured,
the node that a read gave stands for the last value written on the way: on every walk that leads to the
block of the read (`getValue_reaching`).
-/

namespace JvmGraph.Ssa

open Steps JvmGraph.Graph Builder
open JvmGraph.Graph (Walk)

/-! ## Calls -/

inductive Call where
  | newBlock
  | setCurrent (b : BlockId)
  /-- A node in the current block. -/
  | node (op : Op) (mode : Mode) (inputs : List NodeId)
  /-- A node in a block of the client's choice, such as a constant or a projection. -/
  | nodeIn (b : BlockId) (op : Op) (mode : Mode) (inputs : List NodeId)
  | addPred (b : BlockId) (pred : NodeId)
  | setValue (x : Var) (v : NodeId)
  | getValue (x : Var) (mode : Mode)
  | mature (b : BlockId)
  deriving DecidableEq, Repr

namespace Call

def run : Call → Build Unit
  | newBlock => do let _ ← Ssa.newBlock
  | setCurrent b => Ssa.setCurrent (some b)
  | node op mode inputs => do let _ ← addNode op mode inputs
  | nodeIn b op mode inputs => do let _ ← onGraph fun g => g.add b op mode inputs
  | addPred b pred => Ssa.addPred b pred
  | setValue x v => Ssa.setValue x v
  | getValue x mode => do let _ ← Ssa.getValue x mode
  | mature b => Ssa.mature b

/-- The calls that are allowed in a state: numbers are in range, only control nodes lead to blocks, a matured
block gets no predecessors, and no block is written after a successor of it was matured. -/
def Allowed (s : Builder) : Call → Prop
  | newBlock => True
  | setCurrent b => b.index < s.graph.blocks.size
  | node op _ _ => op ≠ .forward
  | nodeIn b op _ _ => b.index < s.graph.blocks.size ∧ op ≠ .forward
  | addPred b pred => b.index < s.graph.blocks.size ∧ s.isMatured b = false ∧ pred.index < s.graph.nodes.size ∧
      (s.graph.node pred).op ≠ .phi ∧ (s.graph.node pred).op ≠ .forward
  | setValue x v => x ≤ s.varCount ∧ v.index < s.graph.nodes.size ∧
      ∀ c ∈ s.graph.blockIds, s.isMatured c = true → ∀ e ∈ (s.graph.block c).preds, s.graph.predBlock e ≠ s.current
  | getValue x _ => x ≤ s.varCount
  | mature b => b.index < s.graph.blocks.size

instance (s : Builder) : (call : Call) → Decidable (call.Allowed s)
  | newBlock => inferInstanceAs (Decidable True)
  | setCurrent _ => inferInstanceAs (Decidable (_ < _))
  | node .. => inferInstanceAs (Decidable (_ ≠ _))
  | nodeIn .. => inferInstanceAs (Decidable (_ ∧ _))
  | addPred .. => inferInstanceAs (Decidable (_ ∧ _))
  | setValue .. => inferInstanceAs (Decidable (_ ∧ _))
  | getValue .. => inferInstanceAs (Decidable (_ ≤ _))
  | mature _ => inferInstanceAs (Decidable (_ < _))

end Call

/-- The state after calls that are made one after the other, if each of them is allowed and succeeds. -/
def makeCalls (s : Builder) : List Call → Option Builder
  | [] => some s
  | call :: rest =>
    if call.Allowed s then
      match call.run s with
      | .ok _ s' => makeCalls s' rest
      | .error .. => none
    else none

def writes (current : BlockId) (written : BlockId → Var → Option NodeId) :
    List Call → BlockId → Var → Option NodeId
  | [] => written
  | .setCurrent b :: rest => writes b written rest
  | .setValue x v :: rest =>
    writes current (fun c y => if c = current ∧ y = x then some v else written c y) rest
  | _ :: rest => writes current written rest

def initialWrites (varCount : Nat) (b : BlockId) (x : Var) : Option NodeId :=
  if b = Graph.startBlock ∧ x = varCount then some ⟨1⟩ else none

/-- The last write of `x` on a walk before a read in its last block, in which `now` was written so far: there,
or in the blocks before as `final` has them. -/
def writeBefore (now final : BlockId → Var → Option NodeId) (x : Var) (w : Walk) : Option (Walk × NodeId) :=
  match now w.last x with
  | some v => some (w, v)
  | none => lastWrite (final · x) w

/-! ## What calls keep -/

/-- A client's state between calls, with the writes made so far. -/
structure Client (s : Builder) (T : Record) : Prop where
  inv : Inv False s T .idle
  current : s.current.index < s.graph.blocks.size

structure Extends (s s' : Builder) (T T' : Record) : Prop where
  grows : s.graph.Grows s'.graph
  entry_keep : ∀ c y n, T.entry c y = some n → T'.entry c y = some n
  varCount : s'.varCount = s.varCount
  matured : ∀ c, s.isMatured c = true → s'.isMatured c = true

lemma Extends.refl (s : Builder) (T : Record) : Extends s s T T := ⟨.refl _, fun _ _ _ h => h, rfl, fun _ => id⟩

lemma Extends.trans {s s' s'' : Builder} {T T' T'' : Record} (h : Extends s s' T T') (h' : Extends s' s'' T' T'') :
    Extends s s'' T T'' :=
  ⟨h.grows.trans h'.grows, fun c y n hn => h'.entry_keep c y n (h.entry_keep c y n hn),
    h'.varCount.trans h.varCount, fun c hc => h'.matured c (h.matured c hc)⟩

lemma Later.current_eq {s s' : Builder} {T T' : Record} (h : Later s s' T T') : s'.current = s.current := by
  simp [Builder.current, h.current]

lemma Client.new (name : String) (varCount : Nat) : Client (.new name varCount) (.initial varCount) :=
  ⟨.new _ _ _, Nat.zero_lt_two⟩

section Step

variable {s s' : Builder} {T : Record}

/-- One call keeps the invariant and changes the writes as `writes` says. -/
lemma Client.step {call : Call} (C : Client s T) (ha : call.Allowed s) (h : call.run s = .ok () s') :
    ∃ T', Client s' T' ∧ Extends s s' T T' ∧
      ∀ rest, writes s'.current T'.written rest = writes s.current T.written (call :: rest) := by
  cases call with
  | newBlock =>
    obtain ⟨c, s1, h1, h⟩ := bind_ok.1 h
    obtain ⟨-, rfl⟩ := newBlock_ok.1 h1
    cases h
    refine ⟨T, ⟨C.inv.extended, ?_⟩, ⟨.of_nodes rfl, fun _ _ _ h => h, rfl, fun c hc => ?_⟩, fun rest => rfl⟩
    · exact (Nat.lt_succ_of_lt C.current).trans_eq (by simp [extended, Graph.newBlock])
    · rwa [isMatured_extended]
  | setCurrent c =>
    cases h
    exact ⟨T, ⟨C.inv.reframe rfl (fun _ => rfl) rfl rfl rfl, ha⟩, ⟨.refl _, fun _ _ _ h => h, rfl, fun _ => id⟩,
      fun rest => rfl⟩
  | node op mode inputs =>
    obtain ⟨c, s1, h1, h⟩ := bind_ok.1 h
    replace h1 := get_bind_ok.1 h1
    cases h1
    cases h
    exact ⟨T, ⟨C.inv.place C.current ha fun h => h.elim, C.current⟩,
      ⟨C.inv.shape.grows_place ha, fun _ _ _ h => h, rfl, fun _ => id⟩, fun rest => rfl⟩
  | nodeIn c op mode inputs =>
    obtain ⟨n, s1, h1, h⟩ := bind_ok.1 h
    cases h1
    cases h
    exact ⟨T, ⟨C.inv.place ha.1 ha.2 fun h => h.elim, C.current⟩,
      ⟨C.inv.shape.grows_place ha.2, fun _ _ _ h => h, rfl, fun _ => id⟩, fun rest => rfl⟩
  | addPred c e =>
    obtain rfl := (modifyGraph_ok (f := fun g => g.addPred c e)).1 h
    obtain ⟨hc, hm, he, ho, hf⟩ := ha
    refine ⟨T, ⟨C.inv.addPred hc hm he ho hf, ?_⟩, ⟨.of_nodes rfl, fun _ _ _ h => h, rfl, fun _ => id⟩, fun rest => rfl⟩
    exact C.current.trans_eq (by simp [Graph.addPred])
  | setValue x v =>
    cases h
    obtain ⟨hx, hv, hread⟩ := ha
    refine ⟨T.write s.current x v, ⟨C.inv.write C.current hx hv (fun h => h.elim) fun c hc e he => ?_, C.current⟩,
      ⟨.refl _, fun _ _ _ h => h, rfl, fun c hc => ?_⟩, fun rest => rfl⟩
    · refine hread c ?_ hc e he
      have hlt : s.graph.HasBlock c := by
        by_contra hlt
        simp [preds, Graph.block_of_le (not_lt.1 hlt)] at he
      simpa [Graph.blockIds] using ⟨c.index, hlt, rfl⟩
    · rwa [isMatured_define]
  | getValue x mode =>
    obtain ⟨n, s1, h1, h⟩ := bind_ok.1 h
    cases h
    obtain ⟨T', I', R, -, -⟩ := getValue_spec h1 C.inv C.current (fun h => h.elim) ha
    refine ⟨T', ⟨I', by rw [R.current_eq, R.blocks]; exact C.current⟩,
      ⟨R.grows, R.entry_keep, R.varCount, fun c hc => (R.matured c).trans hc⟩, fun rest => ?_⟩
    simp [writes, R.written, R.current_eq]
  | mature c =>
    obtain ⟨T', I', L, hm⟩ := mature_spec h C.inv ha
    refine ⟨T', ⟨I', by rw [L.current_eq, L.blocks]; exact C.current⟩,
      ⟨L.grows, L.entry_keep, L.varCount, fun c hc => (hm c).2 (.inl hc)⟩, fun rest => ?_⟩
    simp [writes, L.written, L.current_eq]

lemma Client.calls : ∀ {calls : List Call} {s : Builder} {T : Record}, Client s T → makeCalls s calls = some s' →
    ∃ T', Client s' T' ∧ Extends s s' T T' ∧
      ∀ rest, writes s'.current T'.written rest = writes s.current T.written (calls ++ rest)
  | [], s, T, C, h => by
    cases h
    exact ⟨T, C, .refl _ _, fun _ => rfl⟩
  | call :: calls, s, T, C, h => by
    rw [makeCalls] at h
    split at h
    · rename_i ha
      split at h
      · rename_i s1 h1
        obtain ⟨T1, C1, E1, w1⟩ := C.step ha h1
        obtain ⟨T2, C2, E2, w2⟩ := C1.calls h
        exact ⟨T2, C2, E1.trans E2, fun rest => (w2 rest).trans (w1 (calls ++ rest))⟩
      · cases h
    · cases h

end Step

/-! ## Reaching values -/

/-- **Reads give the values that reach them.** A client reads `x` between the calls `before` and `after`, and gets
`n`; in the end all blocks are matured. Take any walk to the block of the read, and the last write of `x` on
it before the read. Following the Phis back from `n` leads to the value written; and if what blocks write to `x`
is computed on every walk that leads there, `n` has the value on the walk that the value written
had at the write. If there is no write, `n` has the value of nothing. -/
theorem getValue_reaching {name : String} {varCount : Nat} {before after : List Call} {x : Var} {mode : Mode}
    {s1 s2 s3 : Builder} {n : NodeId} (hbefore : makeCalls (.new name varCount) before = some s1) (hx : x ≤ varCount)
    (hread : getValue x mode s1 = .ok n s2) (hafter : makeCalls s2 after = some s3)
    (hmatured : ∀ b ∈ s3.graph.blockIds, s3.isMatured b = true)
    {w : Walk} (hw : s3.graph.IsWalk w) (hlast : w.last = s1.current) :
    let now := writes Graph.startBlock (initialWrites varCount) before
    let final := writes Graph.startBlock (initialWrites varCount) (before ++ .getValue x mode :: after)
    match writeBefore now final x w with
    | some (w', v) => s3.graph.Leads (· = s3.graph.resolve v) w n ∧
        ((∀ b u, final b x = some u → ∀ w : Walk, s3.graph.IsWalk w → w.last = b →
          (s3.graph.node (s3.graph.resolve u)).block ∈ w.blocks) → s3.graph.valueOn w n = s3.graph.valueOn w' v)
    | none => (s3.graph.node (s3.graph.valueOn w n)).op = .unknown := by
  intro now final
  obtain ⟨T1, C1, E1, w1⟩ := (Client.new name varCount).calls hbefore
  have hnow : T1.written = now := by
    have := w1 []
    rwa [List.append_nil] at this
  have hvar : s1.varCount = varCount := E1.varCount
  obtain ⟨T2, I2, R, ⟨m, hm, hs⟩, -⟩ := getValue_spec hread C1.inv C1.current (fun h => h.elim)
    (by rw [hvar]; exact hx)
  obtain ⟨T3, C3, E3, w3⟩ := Client.calls (s := s2) ⟨I2, by rw [R.current_eq, R.blocks]; exact C1.current⟩ hafter
  have hfinal : T3.written = final := by
    have h3 := w3 []
    rw [List.append_nil, R.written, R.current_eq] at h3
    exact h3.trans (w1 (.getValue x mode :: after))
  have F : Finished s3 T3 := C3.inv.finished fun b hb => hmatured b (by simpa [blockIds] using ⟨b.index, hb, rfl⟩)
  have hs3 : s3.graph.Same n m := E3.grows.same _ _ hs.symm
  unfold writeBefore
  rw [hlast, ← hnow, ← R.written]
  rcases I2.defined.written_or_entry hm with hv | ⟨hv, n0, hn0, hs0⟩
  · rw [hv]
    exact ⟨.here hs3, fun _ => valueOn_congr hs3⟩
  · have hent : T3.entry w.last x = some n0 := by
      rw [hlast]
      exact E3.entry_keep _ _ _ hn0
    have hsame : s3.graph.Same n0 n := (E3.grows.same _ _ hs0).symm.trans hs3.symm
    obtain ⟨hl, -⟩ := F.leads_entry hw hent
    have hl := hl.congr hsame
    rw [hv, ← hfinal]
    cases hlw : lastWrite (T3.written · x) w with
    | none =>
      rw [hlw] at hl
      exact hl.valueOn F.shape.settled fun k (hk : _ = _) => by rw [hk]; simp
    | some source =>
      rw [hlw] at hl
      refine ⟨hl, fun hcomputed => ?_⟩
      have W : WritesOn s3 T3 (· = x) := by
        rintro w hw - _ rfl u hu
        exact hcomputed _ u hu w hw rfl
      rw [← valueOn_congr hsame]
      exact F.valueOn_entry W rfl hw hent hlw

/-- A loop that doubles a variable: it reads it, writes it and goes back to its beginning. -/
def doubling : List Call × List Call :=
  ([.nodeIn Graph.startBlock (.const 7) .int [], .setValue 0 ⟨2⟩, .node .jmp .control [], .newBlock, .newBlock,
      .addPred ⟨2⟩ ⟨3⟩, .setCurrent ⟨2⟩],
    [.node .add .int [⟨4⟩, ⟨4⟩], .setValue 0 ⟨5⟩, .node .cond .tuple [], .nodeIn ⟨2⟩ (.proj 0) .control [⟨6⟩],
      .nodeIn ⟨2⟩ (.proj 1) .control [⟨6⟩], .addPred ⟨2⟩ ⟨7⟩, .addPred ⟨3⟩ ⟨8⟩, .mature ⟨2⟩, .mature ⟨3⟩,
      .mature Graph.endBlock])

/-- On the second time round, the read in the loop has the value that the first time round wrote. -/
theorem getValue_reaching_doubling : ∃ s1 s2 s3 n,
    makeCalls (.new "doubling" 1) doubling.1 = some s1 ∧ getValue 0 .int s1 = .ok n s2 ∧
      makeCalls s2 doubling.2 = some s3 ∧ (∀ b ∈ s3.graph.blockIds, s3.isMatured b = true) ∧
      s3.graph.IsWalk [(⟨2⟩, 1), (⟨2⟩, 0)] ∧
      s3.graph.valueOn [(⟨2⟩, 1), (⟨2⟩, 0)] n = s3.graph.valueOn [(⟨2⟩, 0)] ⟨5⟩ := by
  have run : (match makeCalls (.new "doubling" 1) doubling.1 with
      | some s1 => match getValue 0 .int s1 with
        | .ok _ s2 => match makeCalls s2 doubling.2 with
          | some s3 => decide ((∀ b ∈ s3.graph.blockIds, s3.isMatured b = true) ∧
              s3.graph.IsWalk [(⟨2⟩, 1), (⟨2⟩, 0)] ∧ s1.current = ⟨2⟩ ∧
              (s3.graph.node (s3.graph.resolve ⟨2⟩)).block = startBlock ∧
              (s3.graph.node (s3.graph.resolve ⟨5⟩)).block = ⟨2⟩)
          | none => false
        | .error .. => false
      | none => false) = true := by decide +kernel
  split at run
  · rename_i s1 h1
    split at run
    · rename_i n s2 h2
      split at run
      · rename_i s3 h3
        obtain ⟨hm, hw, hlast, hb2, hb5⟩ := of_decide_eq_true run
        refine ⟨s1, s2, s3, n, h1, h2, h3, hm, hw, ?_⟩
        refine (getValue_reaching h1 (by decide) h2 h3 hm hw hlast.symm).2 fun b u hu w hw hlast => ?_
        -- the loop writes what it has computed, and the start block what lies there
        have hu : (if b = ⟨2⟩ ∧ 0 = 0 then some ⟨5⟩ else if b = startBlock ∧ 0 = 0 then some ⟨2⟩
            else if b = startBlock ∧ 0 = 1 then some (⟨1⟩ : NodeId) else none) = some u := hu
        split at hu
        · rename_i hb
          cases hu
          rw [hb5, ← hb.1, ← hlast]
          exact Walk.last_mem_blocks w
        · split at hu
          · cases hu
            rw [hb2]
            exact Walk.start_mem_blocks w
          · simp at hu
      · cases run
    · cases run
  · cases run

end JvmGraph.Ssa
