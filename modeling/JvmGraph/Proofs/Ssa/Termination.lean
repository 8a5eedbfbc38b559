import JvmGraph.Proofs.Graph.Proper
import JvmGraph.Proofs.Ssa.Reaching

/-!
# Reads end

A read goes from block to block against the flow of control. Blocks with a single predecessor pass it on without
leaving a mark: they form a *trail* to the first block that does not. A trail never comes back to itself, since
control reaches its blocks from the start block. Where it ends at several predecessors, a Phi is put in place before
the walk goes on, and from then on every trail through the same blocks stops at that Phi. So no block is passed
more than twice before a read returns, and `readFuel` is enough (`readAt_total`).
-/

namespace JvmGraph.Ssa

open Steps List Builder
open JvmGraph.Graph (Walk)

variable {s s' : Builder} {T T' : Record} {busy : Busy} {x : Var} {b c d : BlockId} {bs ds : List BlockId} {mode : Mode}
  {n : NodeId}

/-! ## Trails -/

/-- The blocks that pass a read of `x` in `b` on to their only predecessors, up to the block that gets it from the
last. -/
inductive Trail (s : Builder) (x : Var) : BlockId → List BlockId → BlockId → Prop
  | here (b : BlockId) : Trail s x b [] b
  | back {b c : BlockId} {e : NodeId} {bs : List BlockId} (hd : s.definition? b x = none) (hm : s.isMatured b = true)
      (hp : s.preds b = [e]) (h : Trail s x (s.graph.predBlock e) bs c) : Trail s x b (b :: bs) c

def Stops (s : Builder) (x : Var) (b : BlockId) : Prop :=
  s.definition? b x = none → s.isMatured b = true → (s.preds b).length ≠ 1

structure Meets (s : Builder) (x : Var) (b : BlockId) : Prop where
  undefined : s.definition? b x = none
  matured : s.isMatured b = true
  several : 1 < (s.preds b).length

lemma Later.undefined (L : Later s s' T T') (h : s'.definition? b x = none) : s.definition? b x = none :=
  Option.eq_none_iff_forall_ne_some.2 fun m hm => by simp [L.def_keep b x m hm] at h

lemma Meets.stops (h : Meets s x b) : Stops s x b := fun _ _ => ne_of_gt h.several

variable {P : NodeId → Prop}

namespace Trail

lemma unique (h : Trail s x b bs c) (hc : Stops s x c) (h' : Trail s x b ds d) (hd : Stops s x d) :
    bs = ds ∧ c = d := by
  induction h generalizing ds with
  | here b =>
    cases h' with
    | here => exact ⟨rfl, rfl⟩
    | back hu hm hp _ => exact absurd (by simp [hp]) (hc hu hm)
  | back hu hm hp _ ih =>
    cases h' with
    | here => exact absurd (by simp [hp]) (hd hu hm)
    | back _ _ hp' h' =>
      cases hp.symm.trans hp'
      obtain ⟨rfl, rfl⟩ := ih hc h'
      exact ⟨rfl, rfl⟩

lemma of_mem (h : Trail s x b bs c) (hd : d ∈ bs) : ∃ ds, Trail s x d (d :: ds) c ∧ d :: ds <:+ bs := by
  induction h with
  | here => cases hd
  | back hu hm hp h ih =>
    rcases mem_cons.1 hd with rfl | hd
    · exact ⟨_, .back hu hm hp h, suffix_refl _⟩
    · obtain ⟨ds, h', hs⟩ := ih hd
      exact ⟨ds, h', hs.trans (suffix_cons _ _)⟩

lemma rest (h : Trail s x b bs c) (hd : d ∈ c :: bs) : ∃ ds, Trail s x d ds c := by
  rcases mem_cons.1 hd with rfl | hd
  · exact ⟨[], .here d⟩
  · obtain ⟨ds, h', -⟩ := h.of_mem hd
    exact ⟨_, h'⟩

/-- A trail that came back to one of its blocks would never stop. -/
lemma nodup (h : Trail s x b bs c) (hc : Stops s x c) : (c :: bs).Nodup := by
  refine nodup_cons.2 ⟨fun hmem => ?_, ?_⟩
  · obtain ⟨ds, h', -⟩ := h.of_mem hmem
    cases (h'.unique hc (.here c) hc).1
  · induction h with
    | here => exact nodup_nil
    | back hu hm hp h ih =>
      refine nodup_cons.2 ⟨fun hmem => ?_, ih hc⟩
      obtain ⟨ds, h', hs⟩ := h.of_mem hmem
      cases (h'.unique hc (.back hu hm hp h) hc).1
      exact absurd hs.length_le (by simp)

lemma lt (h : Trail s x b bs c) (S : Shape s) (hb : s.graph.HasBlock b) :
    ∀ d ∈ c :: bs, s.graph.HasBlock d := by
  induction h with
  | here => simpa using hb
  | back _ _ _ _ ih =>
    have := ih (S.predBlock_lt _)
    simp only [mem_cons, forall_eq_or_imp] at this ⊢
    exact ⟨this.1, hb, this.2⟩

/-- With definitions added, trails get shorter. -/
lemma earlier (h : Trail s' x b bs c) (R : Reads x mode P s s' T T') (S : Shape s)
    (S' : s'.graph.Settled) : Trail s x b bs c := by
  induction h with
  | here b => exact .here b
  | back hd hm hp _ ih =>
    rw [R.preds] at hp
    rw [S.predBlock_grows S' R.grows (by rw [hp]; exact .head _)] at ih
    exact .back (R.undefined hd) (R.matured _ ▸ hm) hp ih

end Trail

/-- A read in `b` comes to several predecessors without a definition. -/
def Open (s : Builder) (x : Var) (b : BlockId) : Prop := ∃ bs c, Trail s x b bs c ∧ Meets s x c

lemma Open.earlier (h : Open s' x b) (R : Reads x mode P s s' T T') (S : Shape s)
    (S' : s'.graph.Settled) : ∃ bs c, Trail s x b bs c ∧ Meets s x c ∧ s'.definition? c x = none := by
  obtain ⟨bs, c, h, hd, hm, hp⟩ := h
  exact ⟨bs, c, h.earlier R S S', ⟨R.undefined hd, R.matured c ▸ hm, by rwa [← R.preds]⟩, hd⟩

def Builder.Rooted (s : Builder) : Prop := ∀ b, s.isMatured b = true → s.graph.Reached b

lemma Later.isWalk (L : Later s s' T T') (S : Shape s) (S' : s'.graph.Settled) : ∀ {w : Walk},
    s.graph.IsWalk w → s'.graph.IsWalk w
  | [], _ => trivial
  | (b, k) :: w, hw => by
    obtain ⟨e, he, hlast⟩ := hw.edge
    refine ⟨?_, L.isWalk S S' hw.2⟩
    rw [show (s'.graph.block b).preds = _ from L.preds b, Builder.preds, he, Option.map_some,
      S.predBlock_grows S' L.grows (mem_of_getElem? he), hlast]

lemma Builder.Rooted.later (h : s.Rooted) (L : Later s s' T T') (hm : ∀ c, s'.isMatured c = s.isMatured c) (S : Shape s)
    (S' : s'.graph.Settled) : s'.Rooted := by
  intro b hb
  obtain ⟨w, hw, hlast⟩ := h b (hm b ▸ hb)
  exact ⟨w, L.isWalk S S' hw, hlast⟩

/-- A walk to a block goes through its only predecessor, so that a trail is no longer than the walk. -/
lemma Shape.trail_of_walk (S : Shape s) (x : Var) : ∀ {w : Walk}, s.graph.IsWalk w →
    ∃ bs c, Trail s x w.last bs c ∧ Stops s x c
  | [], _ => ⟨[], _, .here _, fun _ _ => by simp [Walk.last, S.start_preds]⟩
  | (b, k) :: w, hw => by
    by_cases hb : Stops s x b
    · exact ⟨[], b, .here b, hb⟩
    · simp only [Stops, Classical.not_imp, not_not] at hb
      obtain ⟨hd, hm, hlen⟩ := hb
      obtain ⟨e, hp⟩ := length_eq_one_iff.1 hlen
      obtain ⟨e', he, hlast⟩ := hw.edge
      have hmem : e' ∈ s.preds b := mem_of_getElem? he
      rw [hp, mem_singleton] at hmem
      obtain ⟨bs, c, h, hc⟩ := S.trail_of_walk x hw.2
      exact ⟨b :: bs, c, .back hd hm hp (by rwa [← hmem, hlast]), hc⟩

lemma Builder.Rooted.exists_trail (h : s.Rooted) (S : Shape s) (x : Var) (b : BlockId) :
    ∃ bs c, Trail s x b bs c ∧ Stops s x c := by
  by_cases hm : s.isMatured b = true
  · obtain ⟨w, hw, rfl⟩ := h b hm
    exact S.trail_of_walk x hw
  · exact ⟨[], b, .here b, fun _ h => absurd h hm⟩

lemma length_le_blocks {g : Graph} (hn : bs.Nodup) (hb : ∀ d ∈ bs, g.HasBlock d) :
    bs.length ≤ g.blocks.size := by
  have hsub : bs ⊆ g.blockIds := fun d hd => by simpa [Graph.blockIds] using ⟨d.index, hb d hd, rfl⟩
  simpa [Graph.blockIds] using (subperm_of_subset hn hsub).length_le

/-! ## Steps that succeed -/

lemma Trail.readAt {fuel : Nat} (h : Trail s x b bs c) (hr : readAt fuel x c mode s = .ok n s') :
    ∃ t, Ssa.readAt (fuel + bs.length) x b mode s = .ok n t := by
  induction h with
  | here => exact ⟨s', hr⟩
  | back hd hm hp _ ih =>
    obtain ⟨t, ht⟩ := ih hr
    exact ⟨_, readAt_iff.2 (.passed hd hm hp ht)⟩

lemma Stops.readAt (h : Stops s x b) (hm : ¬ Meets s x b) (fuel : Nat) (mode : Mode) :
    ∃ n t, Ssa.readAt (fuel + 1) x b mode s = .ok n t := by
  cases hd : s.definition? b x with
  | some v => exact ⟨_, _, readAt_iff.2 (.found hd)⟩
  | none =>
    cases hb : s.isMatured b with
    | false => exact ⟨_, _, readAt_iff.2 (.parked hd hb)⟩
    | true =>
      have hp : s.preds b = [] := by
        have := h hd hb
        have : ¬ 1 < (s.preds b).length := fun hp => hm ⟨hd, hb, hp⟩
        exact length_eq_zero_iff.1 (by omega)
      exact ⟨_, _, readAt_iff.2 (.nothing hd hb hp)⟩

section Operands

variable {read read' : BlockId → Mode → Build NodeId} {p : NodeId}

/-- Reads succeed in every state that reads of `x` lead to. -/
def ReadsOn (x : Var) (mode : Mode) (read : BlockId → Mode → Build NodeId) (s : Builder) (T : Record) (busy : Busy) :
    Prop :=
  ∀ {t : Builder} {T' : Record} {b : BlockId}, Reads x mode (fun _ => False) s t T T' → Inv False t T' busy →
    b.index < t.graph.blocks.size → ∃ n t', read b mode t = .ok n t'

lemma readOperands_total (hr : ReadsWell False x read) : ∀ (edges : List NodeId) {s : Builder} {T : Record},
    Readable False x s T busy → ReadsOn x mode read s T busy →
      ∃ inputs t, (edges.mapM fun e => do read ((← get).graph.predBlock e) mode) s = .ok inputs t
  | [], s, _, _, _ => ⟨[], s, rfl⟩
  | e :: edges, s, T, R, ht => by
    have hlt := R.inv.shape.predBlock_lt e
    obtain ⟨n, s1, h1⟩ := ht (.refl _ _ _ _ _) R.inv hlt
    obtain ⟨T1, I1, R1, -⟩ := hr h1 R hlt False.elim
    obtain ⟨inputs, t, h2⟩ := readOperands_total hr edges (R.later R1 I1) fun R2 => ht
      (R1.trans R2 fun _ _ h => h.elim id id)
    exact ⟨n :: inputs, t, mapM_cons_ok.2 ⟨n, s1, inputs, h1, h2, rfl⟩⟩

lemma addOperands_total (hr : ReadsWell False x read) (R : Readable False x s T busy)
    (ht : ReadsOn x (s.graph.node p).mode read s T busy) : ∃ n t, addOperands read p s = .ok n t := by
  obtain ⟨inputs, t, h⟩ := readOperands_total hr (s.graph.block (s.graph.node p).block).preds R ht
  have htotal : ∀ t, ∃ n t', removeTrivialPhi p t = .ok n t' := fun t => by
    simp only [removeTrivialPhi, get_bind]
    cases t.graph.merge p <;> exact ⟨_, _, rfl⟩
  obtain ⟨n, t', h'⟩ := htotal _
  exact ⟨n, t', get_bind_ok.2 (bind_ok.2 ⟨inputs, t, h, bind_ok.2 ⟨(), _, rfl, h'⟩⟩)⟩

lemma addOperands_mono (hle : ∀ {b mode s n s'}, read b mode s = .ok n s' → read' b mode s = .ok n s')
    (h : addOperands read p s = .ok n s') : addOperands read' p s = .ok n s' := by
  have operands : ∀ {mode : Mode} (edges : List NodeId) {s t : Builder} {inputs : List NodeId},
      (edges.mapM fun e => do read ((← get).graph.predBlock e) mode) s = .ok inputs t →
        (edges.mapM fun e => do read' ((← get).graph.predBlock e) mode) s = .ok inputs t := by
    intro mode edges
    induction edges with
    | nil => exact id
    | cons e edges ih =>
      intro s t inputs h
      obtain ⟨n, s1, ns, h1, h2, rfl⟩ := mapM_cons_ok.1 h
      exact mapM_cons_ok.2 ⟨n, s1, ns, hle h1, ih h2, rfl⟩
  obtain ⟨inputs, t, h1, h2⟩ := bind_ok.1 (get_bind_ok.1 h)
  exact get_bind_ok.2 (bind_ok.2 ⟨inputs, t, operands _ h1, h2⟩)

end Operands

/-- With more fuel than it takes, a read is the same. -/
lemma readAt_mono {fuel fuel' : Nat} (hle : fuel ≤ fuel') (h : readAt fuel x b mode s = .ok n s') :
    readAt fuel' x b mode s = .ok n s' := by
  induction fuel generalizing fuel' b mode s n s' with
  | zero => cases h
  | succ fuel ih =>
    obtain ⟨k, rfl⟩ := Nat.exists_eq_add_of_lt hle
    refine readAt_iff.2 ?_
    cases readAt_iff.1 h with
    | found hd => exact .found hd
    | parked hd hm => exact .parked hd hm
    | nothing hd hm hp => exact .nothing hd hm hp
    | passed hd hm hp hr => exact .passed hd hm hp (ih (Nat.le_add_right _ _) hr)
    | met hd hm hp hr => exact .met hd hm hp (addOperands_mono (ih (Nat.le_add_right _ _)) hr)

/-! ## Enough fuel -/

/-- Blocks that a read has passed, and that no read will pass again on its way to a place for a Phi. -/
structure Passed (s : Builder) (x : Var) (bs : List BlockId) : Prop where
  nodup : bs.Nodup
  lt : ∀ d ∈ bs, d.index < s.graph.blocks.size
  closed : ∀ d ∈ bs, ¬ Open s x d

/-- Once there is a definition where a trail ends, its blocks are passed. -/
lemma Passed.append (h : Passed s x ds) (ht : Trail s x b bs c) (hc : Meets s x c) (S : Shape s)
    (hb : s.graph.HasBlock b) (R : Reads x mode P s s' T T') (S' : s'.graph.Settled)
    (hdef : s'.definition? c x = some n) : Passed s' x (c :: bs ++ ds) := by
  refine ⟨nodup_append'.2 ⟨ht.nodup hc.stops, h.nodup, fun d hd hd' => ?_⟩, fun d hd => ?_, fun d hd ho => ?_⟩
  · obtain ⟨es, h'⟩ := ht.rest hd
    exact h.closed d hd' ⟨es, c, h', hc⟩
  · rw [R.blocks]
    exact (mem_append.1 hd).elim (ht.lt S hb d) (h.lt d)
  · obtain ⟨es, a, ha, hm, hnone⟩ := ho.earlier R S S'
    rcases mem_append.1 hd with hd | hd
    · obtain ⟨es', h'⟩ := ht.rest hd
      obtain ⟨-, rfl⟩ := h'.unique hc.stops ha hm.stops
      cases hdef.symm.trans hnone
    · exact h.closed d hd ⟨es, a, ha, hm⟩

/-- A read with fuel for every block twice succeeds, and for a block that was passed it is enough to have it once. -/
lemma readAt_total (fuel : Nat) :
    ∀ {s : Builder} {T : Record} {busy : Busy} {b : BlockId} {passed : List BlockId} (mode : Mode),
    Readable False x s T busy → s.Rooted → s.graph.HasBlock b → Passed s x passed →
    2 * s.graph.blocks.size ≤ fuel + passed.length → ∃ n s', readAt fuel x b mode s = .ok n s' := by
  induction fuel using Nat.strong_induction_on with
  | _ fuel ih =>
    intro s T busy b passed mode R hroot hb hpassed hfuel
    have S := R.inv.shape
    obtain ⟨bs, c, htrail, hstop⟩ := hroot.exists_trail S x b
    have hlen : bs.length + 1 ≤ _ := length_le_blocks (htrail.nodup hstop) (htrail.lt S hb)
    have := length_le_blocks hpassed.nodup hpassed.lt
    obtain ⟨k, rfl⟩ : ∃ k, fuel = k + 1 + bs.length := ⟨fuel - (bs.length + 1), by omega⟩
    suffices h : ∃ n s', readAt (k + 1) x c mode s = .ok n s' by
      obtain ⟨n, t, h⟩ := h
      exact ⟨n, htrail.readAt h⟩
    by_cases hc : Meets s x c
    · have hcb := htrail.lt S hb c (by simp)
      have R0 : Reads x mode (fun _ => False) s (s.awaited c x mode) T _ :=
        .await S R.inv.defined hcb R.var hc.undefined
      have R1 := R.await hcb hc.undefined mode False.elim
      have hmode : ((s.awaited c x mode).graph.node s.graph.fresh).mode = mode := by rw [node_awaited]
      obtain ⟨n, t, h⟩ := addOperands_total (p := s.graph.fresh) (readAt_spec k) R1 fun {t T' d} Rt It hd => by
        -- the operands are read with the blocks of the trail passed
        rw [hmode] at Rt ⊢
        have R2 := R0.trans Rt fun _ _ h => h.elim id id
        have S' := It.shape.settled
        refine ih k (by omega) mode (R1.later Rt It) (hroot.later R2.toLater R2.matured S S') hd
          (hpassed.append htrail hc S hb R2 S' (Rt.def_keep _ _ _ (S.definition_awaited hcb R.var))) ?_
        rw [R2.blocks, length_append, length_cons]
        omega
      exact ⟨n, _, readAt_iff.2 (.met hc.undefined hc.matured hc.several h)⟩
    · exact hstop.readAt hc k mode

lemma read_total (mode : Mode) (R : Readable False x s T busy) (hroot : s.Rooted) (hb : s.graph.HasBlock b) :
    ∃ n t, read x b mode s = .ok n t :=
  readAt_total (readFuel s) mode R hroot hb ⟨nodup_nil, nofun, nofun⟩ (Nat.le_succ _)

lemma completeAll_total : ∀ {todo : List (Var × NodeId)} {s : Builder} {T : Record},
    Inv False s T (.completing b todo) →
    Todo s T b todo → s.Rooted → ∃ t, completeAll todo s = .ok () t
  | [], s, _, _, _, _ => ⟨s, rfl⟩
  | (x, p) :: rest, s, T, I, W, hroot => by
    have R := W.readable I
    obtain ⟨n, s1, h1⟩ := addOperands_total (p := p) (read_spec x) R fun Rt It hd =>
      read_total _ (R.later Rt It) (hroot.later Rt.toLater Rt.matured I.shape It.shape.settled) hd
    obtain ⟨T1, I1, L1, hm1, W1⟩ := W.complete I h1
    obtain ⟨t, h⟩ := completeAll_total I1 W1 (hroot.later L1 hm1 I.shape I1.shape.settled)
    exact ⟨t, bind_ok.2 ⟨n, s1, h1, h⟩⟩

lemma mature_total (I : Inv False s T .idle) (hroot : s.Rooted) (hb : s.graph.HasBlock b) :
    ∃ t, mature b s = .ok () t := by
  cases hm : s.isMatured b with
  | true => exact ⟨s, get_bind_ok.2 (by simp only [hm]; rfl)⟩
  | false =>
    have L : Later s (s.modifyState b fun state => { state with incomplete := [] }) T T := .modifyState fun _ => rfl
    obtain ⟨t, h⟩ := completeAll_total (I.beginMature hb) (I.todo b)
      (hroot.later L (s.isMatured_modifyState b fun _ => by rfl) I.shape I.shape.settled)
    refine ⟨t.modifyState b fun state => { state with matured := true }, get_bind_ok.2 ?_⟩
    simp only [hm]
    exact get_bind_ok.2 (bind_ok.2 ⟨(), _, rfl, bind_ok.2 ⟨(), t, h, rfl⟩⟩)

/-! ## Clients -/

/-- The calls that are possible in a state: a variable may be written at any time, all else is as `Allowed` says. -/
def Call.Fits (s : Builder) : Call → Prop
  | setValue x v => x ≤ s.varCount ∧ v.index < s.graph.nodes.size
  | call => call.Allowed s

/-- What a client leads a builder to. -/
inductive Calls : Builder → Builder → Prop
  | refl (s : Builder) : Calls s s
  | call {s s' s'' : Builder} {call : Call} (h : Calls s s') (fits : call.Fits s') (ran : call.run s' = .ok () s'') :
      Calls s s''
  /-- The code that follows is not led to. -/
  | leave {s s' : Builder} (h : Calls s s') : Calls s { s' with current? := none }

/-- A record that has every definition for a write: what blocks hold may differ from what was read there before. -/
def Record.forget (T : Record) (s : Builder) : Record where
  entry b x := (T.entry b x).filter fun n => T.waiting n = some x ∧ (s.graph.node n).block = b
  written := s.definition?
  waiting := T.waiting

lemma Inv.overwrite {v : NodeId} (I : Inv False s T .idle) (hb : s.graph.HasBlock b) (hx : x ≤ s.varCount)
    (hv : s.graph.Has v) : Inv False (s.define b x v) (T.forget (s.define b x v)) .idle := by
  obtain ⟨hb', hx'⟩ := I.shape.in_range hb hx
  have hdef := s.definition?_define v hb' hx'
  have D := I.defined
  have N := I.entered
  have entry : ∀ {c y k}, (T.forget (s.define b x v)).entry c y = some k →
      T.entry c y = some k ∧ T.waiting k = some y ∧ (s.graph.node k).block = c := by
    intro c y k h
    obtain ⟨h1, h2⟩ := Option.filter_eq_some_iff.1 h
    exact ⟨h1, of_decide_eq_true h2⟩
  refine ⟨I.shape.define, ⟨fun c y m h => ?_, fun _ _ _ h => h, fun c y m h hn => ?_, fun c y k h => ?_,
    fun c y k h => ?_⟩,
    ⟨fun c y k h => .inl (entry h).2, fun k y h => ?_, fun c y k => ?_, fun c => ?_, fun c hc => ?_⟩, False.elim⟩
  · rw [hdef] at h
    split at h
    · cases h
      exact hv
    · exact D.def_lt c y m h
  · cases h.symm.trans hn
  · rw [hdef]
    split
    · exact ⟨v, rfl⟩
    · exact D.entry_def c y k (entry h).1
  · exact D.entry_lt c y k (entry h).1
  · obtain ⟨hlt, ho, hi, he⟩ := N.waiting_ok k y h
    exact ⟨hlt, ho, hi, by simp [Record.forget, he, show T.waiting k = some y from h]⟩
  · rw [incomplete_define]
    exact N.incomplete_iff c y k
  · rw [incomplete_define]
    exact N.incomplete_nodup c
  · rw [incomplete_define]
    rw [isMatured_define] at hc
    exact N.matured_incomplete c hc

lemma Calls.client (h : Calls s s') (C : Client s T) :
    ∃ T', Client s' T' ∧ ∀ c, s.isMatured c = true → s'.isMatured c = true := by
  induction h with
  | refl => exact ⟨T, C, fun _ => id⟩
  | @call s' s'' call _ fits ran ih =>
    obtain ⟨T', C', hm⟩ := ih
    cases call with
    | setValue x v =>
      cases ran
      exact ⟨_, ⟨C'.inv.overwrite C'.current fits.1 fits.2, C'.current⟩, fun c hc => by
        rw [isMatured_define]; exact hm c hc⟩
    | _ =>
      obtain ⟨T'', C'', E, -⟩ := C'.step (by exact fits) ran
      exact ⟨T'', C'', fun c hc => E.matured c (hm c hc)⟩
  | leave _ ih =>
    obtain ⟨T', C', hm⟩ := ih
    exact ⟨T', ⟨C'.inv.reframe rfl (fun _ => rfl) rfl rfl rfl, Nat.lt_trans Nat.zero_lt_one C'.inv.shape.blocks_pos⟩,
      hm⟩

/-- **Reads end.** If control reaches every block that was matured, then a read of any variable in any block succeeds,
with one result for all fuel from `readFuel` on, and every block can be matured. A matured block has no Phi that
waits, whatever is called afterwards. -/
theorem reads_terminate {name : String} {varCount : Nat} (hs : Calls (.new name varCount) s)
    (hreached : ∀ b ∈ s.graph.blockIds, s.isMatured b = true → s.graph.Reached b) :
    (∀ x ≤ s.varCount, ∀ (b : BlockId) (mode : Mode), b.index < s.graph.blocks.size →
      ∃ n t, ∀ fuel ≥ readFuel s, readAt fuel x b mode s = .ok n t) ∧
    ∀ b : BlockId, b.index < s.graph.blocks.size →
      ∃ t, mature b s = .ok () t ∧ ∀ t', Calls t t' → (t'.state b).incomplete = [] := by
  obtain ⟨T, C, -⟩ := hs.client (.new name varCount)
  have hroot : s.Rooted := by
    intro b hb
    have hlt : b.index < s.states.size := by
      by_contra hlt
      simp [isMatured, state, hlt, BlockState.empty] at hb
    rw [C.inv.shape.states_size] at hlt
    exact hreached b (by simpa [Graph.blockIds] using ⟨b.index, hlt, rfl⟩) hb
  refine ⟨fun x hx b mode hb => ?_, fun b hb => ?_⟩
  · obtain ⟨n, t, h⟩ := read_total (x := x) mode ⟨C.inv, hx, fun _ => False.elim⟩ hroot hb
    exact ⟨n, t, fun fuel hle => readAt_mono hle h⟩
  · obtain ⟨t, h⟩ := mature_total C.inv hroot hb
    refine ⟨t, h, fun t' ht' => ?_⟩
    obtain ⟨T', I', L, hm⟩ := mature_spec h C.inv hb
    obtain ⟨T'', C'', hm'⟩ := ht'.client ⟨I', by rw [L.current_eq, L.blocks]; exact C.current⟩
    exact C''.inv.entered.matured_incomplete b (hm' b ((hm b).2 (.inr rfl)))

/-- Two loops, one in the other, that never write variable 0; it is read behind them before that block is matured. -/
def nestedLoops : List Call :=
  [.node .jmp .control [], .newBlock, .newBlock, .newBlock, .newBlock, .newBlock, .addPred ⟨2⟩ ⟨2⟩, .setCurrent ⟨2⟩,
    .node .cond .tuple [], .node (.proj 0) .control [⟨3⟩], .node (.proj 1) .control [⟨3⟩], .addPred ⟨3⟩ ⟨4⟩,
    .addPred ⟨6⟩ ⟨5⟩, .setCurrent ⟨3⟩, .node .cond .tuple [], .node (.proj 0) .control [⟨6⟩],
    .node (.proj 1) .control [⟨6⟩], .addPred ⟨4⟩ ⟨7⟩, .addPred ⟨5⟩ ⟨8⟩, .setCurrent ⟨4⟩, .node .jmp .control [],
    .addPred ⟨3⟩ ⟨9⟩, .setCurrent ⟨5⟩, .node .jmp .control [], .addPred ⟨2⟩ ⟨10⟩, .mature ⟨2⟩, .mature ⟨3⟩, .mature ⟨4⟩,
    .mature ⟨5⟩, .setCurrent ⟨6⟩, .getValue 0 .int]

lemma Calls.of_makeCalls {calls : List Call} {r t : Builder} (hs : Calls r s) (h : makeCalls s calls = some t) :
    Calls r t := by
  induction calls generalizing s with
  | nil =>
    cases h
    exact hs
  | cons call calls ih =>
    rw [makeCalls] at h
    split at h
    · rename_i ha
      split at h
      · rename_i h1
        refine ih (hs.call ?_ h1) h
        cases call with
        | setValue => exact ⟨ha.1, ha.2.1⟩
        | _ => exact ha
      · cases h
    · cases h

theorem reads_terminate_nestedLoops : ∃ s, makeCalls (.new "nested" 1) nestedLoops = some s ∧
    (s.state ⟨6⟩).incomplete = [(0, ⟨11⟩)] ∧ (∀ b ∈ s.graph.blockIds, s.isMatured b = true → s.graph.Reached b) ∧
    (∃ n t, ∀ fuel ≥ readFuel s, readAt fuel 0 ⟨5⟩ .int s = .ok n t) ∧
    ∃ t, mature ⟨6⟩ s = .ok () t ∧ ∀ t', Calls t t' → (t'.state ⟨6⟩).incomplete = [] := by
  have run : (match makeCalls (.new "nested" 1) nestedLoops with
      | some s => decide ((s.state ⟨6⟩).incomplete = [(0, ⟨11⟩)] ∧ s.varCount = 1 ∧ s.graph.blocks.size = 7 ∧
          ∀ b ∈ s.graph.blockIds, s.isMatured b = true → ∃ w ∈ ([[], [(⟨2⟩, 0)], [(⟨3⟩, 0), (⟨2⟩, 0)],
            [(⟨4⟩, 0), (⟨3⟩, 0), (⟨2⟩, 0)], [(⟨5⟩, 0), (⟨3⟩, 0), (⟨2⟩, 0)]] : List Walk), s.graph.IsWalk w ∧ w.last = b)
      | none => false) = true := by decide +kernel
  split at run
  · rename_i s hs
    obtain ⟨hinc, hvar, hsize, hreached⟩ := of_decide_eq_true run
    have hreached : ∀ b ∈ s.graph.blockIds, s.isMatured b = true → s.graph.Reached b := fun b hb hm => by
      obtain ⟨w, -, hw⟩ := hreached b hb hm
      exact ⟨w, hw⟩
    obtain ⟨hread, hmature⟩ := reads_terminate (.of_makeCalls (.refl _) hs) hreached
    exact ⟨s, hs, hinc, hreached, hread 0 (Nat.zero_le _) ⟨5⟩ .int (by rw [hsize]; decide),
      hmature ⟨6⟩ (by rw [hsize]; decide)⟩
  · cases run

end JvmGraph.Ssa
