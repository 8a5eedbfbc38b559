import JvmGraph.Proofs.Body.Wiring
import JvmGraph.Proofs.Loading.Run

/-!
# Control flow of translated methods

The graph of a method has the control flow of its code. The blocks that stay are those at addresses that control
reaches. What leads into such a block are, in the order of the code, the ways to its address from instructions
that control reaches. A block is left at one jump, one condition, one return, or not at all after a call that
ends everything. The start block is the exception if the code branches back to its first instruction: it leads
there by two jumps.
-/

namespace JvmGraph

open Steps JvmGraph.Frame BodyState List JvmGraph.Graph Bytecode JvmGraph.Flow

variable {p : Nat} {i : Instruction} {e k : NodeId} {c : BlockId}
  {is : List Instruction} {w : Way} {g : Graph} {b : BlockId} {aborts : EntityId → Prop}

/-! ## What is said of a graph -/

structure Arrivals (code : List Instruction) (p : Nat) (ins : List (Instruction × Way)) : Prop where
  mem : ∀ i w, (i, w) ∈ ins ↔ i ∈ code ∧ Reaches code i.pc ∧ (w, some p) ∈ i.successors
  nodup : ins.Nodup
  sorted : (ins.map fun x => x.1.pc).Pairwise (· ≤ ·)

inductive Departure where
  | jump (target : BlockId)
  | split (taken fall : BlockId)
  | ret
  /-- The function `e` is called and does not come back. -/
  | abort (e : EntityId)

namespace Graph

def Stays (g : Graph) (b : BlockId) : Prop := b.index < g.blocks.size ∧ (g.block b).dead = false

def BeginsAt (g : Graph) (b : BlockId) (p : Nat) : Prop := g.Stays b ∧ (g.block b).pc? = some p

def Spans (g : Graph) (b : BlockId) (p : Nat) : Prop :=
  ∃ q, g.BeginsAt b q ∧ q ≤ p ∧ ∀ c r, (g.block c).pc? = some r → r ≤ q ∨ p < r

def ComesFrom (g : Graph) (e : NodeId) : Option (Instruction × Way) → Prop
  | none => Way.into.Is g startBlock e
  | some x => ∃ b, g.Spans b x.1.pc ∧ x.2.Is g b e

def Connects (g : Graph) (b c : BlockId) (e : NodeId) : Prop :=
  g.Stays c ∧ e ∈ (g.block c).preds ∧ (g.node e).block = b

def EndsAt (g : Graph) (b : BlockId) (k : NodeId) : Prop :=
  k.index < g.nodes.size ∧ (g.node k).block = b ∧
    ((g.node k).op = .jmp ∨ (g.node k).op = .cond ∨ (g.node k).op = .ret)

def Calls (g : Graph) (b : BlockId) (e : EntityId) : Prop :=
  ∃ k memory callee, k.index < g.nodes.size ∧ (g.node k).block = b ∧ (g.node k).op = .call ∧
    (g.node k).inputs = [memory, callee] ∧ (g.node callee).op = .address e

def Departs (g : Graph) (b : BlockId) : Departure → Prop
  | .jump target => ∃ k, (g.node k).op = .jmp ∧ (∀ j, g.EndsAt b j ↔ j = k) ∧
    ∀ c e, g.Connects b c e ↔ c = target ∧ e = k
  | .split taken fall => ∃ k t f, (g.node k).op = .cond ∧ (∀ j, g.EndsAt b j ↔ j = k) ∧
    (g.node t).op = .proj Projection.condTrue ∧ (g.node t).inputs = [k] ∧
    (g.node f).op = .proj Projection.condFalse ∧ (g.node f).inputs = [k] ∧
    ∀ c e, g.Connects b c e ↔ c = taken ∧ e = t ∨ c = fall ∧ e = f
  | .ret => ∃ k, (g.node k).op = .ret ∧ (∀ j, g.EndsAt b j ↔ j = k) ∧ ∀ c e, g.Connects b c e ↔ c = endBlock ∧ e = k
  | .abort e => (∀ j, ¬ g.EndsAt b j) ∧ (∀ c k, ¬ g.Connects b c k) ∧ g.Calls b e

def DepartsTwice (g : Graph) (b target : BlockId) : Prop :=
  ∃ k l, k ≠ l ∧ (g.node k).op = .jmp ∧ (g.node l).op = .jmp ∧ (∀ j, g.EndsAt b j ↔ j = k ∨ j = l) ∧
    ∀ c e, g.Connects b c e ↔ c = target ∧ (e = k ∨ e = l)

/-- A graph has the control flow of a piece of code; functions with `aborts` do not come back. -/
structure Follows (g : Graph) (code : List Instruction) (aborts : EntityId → Prop) : Prop where
  /-- A block stays if control reaches its address, and some block begins wherever control can branch to. -/
  stays : ∀ b p, (g.block b).pc? = some p → (g.Stays b ↔ Reaches code p)
  entry : ∃ b, g.BeginsAt b 0
  target : ∀ i ∈ code, Reaches code i.pc → ∀ w p, (w, some p) ∈ i.exits → ∃ b, g.BeginsAt b p
  /-- The edges into a block are the ways to its address, and two jumps out of the start block if that is the
  first address and something branches to it. -/
  preds : ∀ b p, g.BeginsAt b p → ∃ ins, Arrivals code p ins ∧
    List.Forall₂ (fun x e => g.ComesFrom e x)
      ((if Bytecode.branchesToEntry code = true ∧ p = 0 then [none, none] else []) ++ ins.map some) (g.block b).preds
  /-- No edge is used twice. -/
  nodup : ∀ b, (g.block b).preds.Nodup
  /-- How blocks are left. -/
  departs : ∀ b, g.Stays b → b ≠ endBlock → (b = startBlock → Bytecode.branchesToEntry code = false) →
    ∃ d, g.Departs b d ∧ ∀ e, d = .abort e → aborts e
  opens : Bytecode.branchesToEntry code = true → ∃ b, g.BeginsAt b 0 ∧ g.DepartsTwice startBlock b

end Graph

/-! ## Ways to an address -/

lemma Instruction.nodup_ways (i : Instruction) : (i.successors.map Prod.fst).Nodup := by
  obtain ⟨pc, op, next⟩ := i
  cases op <;> simp [successors, ends, exits]

def waysTo (p : Nat) (is : List Instruction) : List (Instruction × Way) :=
  is.flatMap fun i => (i.successors.filter fun s => s.2 = some p).map fun s => (i, s.1)

lemma mem_waysTo : (i, w) ∈ waysTo p is ↔ i ∈ is ∧ (w, some p) ∈ i.successors := by
  simp only [waysTo, mem_flatMap, mem_map, mem_filter, decide_eq_true_eq, Prod.mk.injEq]
  constructor
  · rintro ⟨j, hj, ⟨v, t⟩, ⟨hs, rfl⟩, rfl, rfl⟩; exact ⟨hj, hs⟩
  · exact fun ⟨hi, hs⟩ => ⟨i, hi, _, ⟨hs, rfl⟩, rfl, rfl⟩

lemma nodup_waysTo (p : Nat) : ∀ {is : List Instruction}, is.Nodup → (waysTo p is).Nodup
  | [], _ => .nil
  | i :: is, h => by
    rw [nodup_cons] at h
    rw [waysTo, flatMap_cons, nodup_append]
    refine ⟨?_, nodup_waysTo p h.2, ?_⟩
    · have hways : ((i.successors.filter fun s => s.2 = some p).map Prod.fst).Nodup :=
        i.nodup_ways.sublist (filter_sublist.map _)
      have := hways.map (f := fun w => (i, w)) fun a b h => (Prod.mk.inj h).2
      rwa [map_map] at this
    · rintro x hx ⟨j, w⟩ hy rfl
      obtain ⟨s, -, hs⟩ := mem_map.1 hx
      obtain rfl := (Prod.mk.inj hs).1; exact h.1 (mem_waysTo.1 hy).1

lemma sorted_waysTo (p : Nat) : ∀ {is : List Instruction}, (is.map Instruction.pc).Pairwise (· ≤ ·) →
    ((waysTo p is).map fun x => x.1.pc).Pairwise (· ≤ ·)
  | [], _ => .nil
  | i :: is, h => by
    rw [map_cons, pairwise_cons] at h
    rw [waysTo, flatMap_cons, map_append, pairwise_append]
    refine ⟨?_, sorted_waysTo p h.2, ?_⟩
    · rw [map_map, pairwise_map]; exact pairwise_of_forall fun _ _ => le_refl _
    · intro a ha b hb
      obtain ⟨x, hx, rfl⟩ := mem_map.1 ha
      obtain ⟨s, -, rfl⟩ := mem_map.1 hx
      obtain ⟨⟨j, w⟩, hy, rfl⟩ := mem_map.1 hb
      exact h.1 _ (mem_map_of_mem (mem_waysTo.1 hy).1)

lemma forall₂_towards (p : Nat) {P : Instruction × BlockId → Prop} {ps : List (Instruction × BlockId)}
    (h : Forall₂ (fun i y => i = y.1) is ps) (hP : ∀ y ∈ ps, P y) :
    Forall₂ (fun x (z : Edge) => P (x.1, z.source) ∧ z.way = x.2) (waysTo p is) (ps.flatMap (towards p)) := by
  induction h with
  | nil => exact .nil
  | @cons i y is ps hy _ ih =>
    obtain ⟨j, b⟩ := y
    obtain rfl : i = j := hy
    refine rel_append ?_ (ih fun z hz => hP z (.tail _ hz))
    rw [towards, forall₂_map_left_iff, forall₂_map_right_iff, forall₂_same]
    exact fun s _ => ⟨hP _ (.head _), rfl⟩

lemma filter_towards (p : Nat) (P : BlockId → Bool) (ps : List (Instruction × BlockId)) :
    (ps.flatMap (towards p)).filter (fun x => P x.source) = (ps.filter fun y => P y.2).flatMap (towards p) := by
  induction ps with
  | nil => rfl
  | cons y ps ih =>
    have hsource : ∀ x ∈ towards p y, x.source = y.2 := fun x hx => (mem_towards.1 hx).1
    rw [flatMap_cons, filter_append, ih]
    cases hP : P y.2 with
    | true =>
      rw [filter_cons_of_pos (by exact hP), flatMap_cons, filter_eq_self.2]
      intro x hx
      rw [hsource x hx, hP]
    | false =>
      rw [filter_cons_of_neg (by simp [hP]), filter_eq_nil_iff.2, nil_append]
      intro x hx; simp [hsource x hx, hP]

/-! ## Edges into blocks -/

lemma Way.Is.tidy (G : g.Unpruned) (h : w.Is g b e) : w.Is g.tidy b e := by
  obtain ⟨hp, hf⟩ := h.op_ne
  have hop := G.op_tidy hp
  have hblock := G.block_node_tidy e
  cases w with
  | jump | into | ret => exact ⟨hop.trans h.1, hblock.trans h.2⟩
  | taken | fall =>
    obtain ⟨ho, hb, c, hi, hc, hcb⟩ := h
    have hcp : (g.node c).op ≠ .phi := by simp [hc]
    refine ⟨hop.trans ho, hblock.trans hb, c, ?_, (G.op_tidy hcp).trans hc, (G.block_node_tidy c).trans hcb⟩
    rw [G.inputs_tidy hp hf, hi, map_singleton, G.resolve_settled hcp (by simp [hc])]

namespace Wired

variable {β : Nat → Option BlockId} {targeted : Bool} {n : Nat} {code : List Instruction}
  {out : List (BlockId × NodeId)}

section

variable (W : Wired β targeted n code g out)

include W

lemma stays_iff (hlt : g.HasBlock b) : g.tidy.Stays b ↔ g.Reached b ∨ b = endBlock := by
  rw [Graph.Stays, W.unpruned.blocks_size_tidy, W.unpruned.dead_tidy hlt]
  exact ⟨And.right, fun h => ⟨hlt, h⟩⟩

lemma stays_begin (hp : β p = some b) : g.tidy.Stays b ↔ Reaches code p := by
  rw [W.stays_iff (W.block_lt p b hp), W.reached_iff hp]
  exact ⟨fun h => h.resolve_right fun hb => W.cut.ne_end p (hb ▸ hp), .inl⟩

lemma beginsAt_iff : g.tidy.BeginsAt b p ↔ β p = some b ∧ Reaches code p := by
  rw [Graph.BeginsAt, W.unpruned.pc_tidy, W.pc]
  exact ⟨fun h => ⟨h.2, (W.stays_begin h.2).1 h.1⟩, fun h => ⟨(W.stays_begin h.1).2 h.2, h.1⟩⟩

lemma spans (h : (i, b) ∈ places β (some startBlock) code) (hr : g.Reached b) : g.tidy.Spans b i.pc := by
  obtain ⟨q, hq, hle, hnone, -⟩ := W.cut.stands h
  refine ⟨q, W.beginsAt_iff.2 ⟨hq, (W.reached_iff hq).1 hr⟩, hle, fun c r hc => ?_⟩
  rw [W.unpruned.pc_tidy, W.pc] at hc
  by_contra hlt
  rw [not_or, not_le, not_lt] at hlt
  simp [hnone r hlt.1 hlt.2] at hc

end

lemma edges_into (W : Wired β targeted n code g out) (hp : β p = some b) (hr : g.Reached b) :
    Forall₂ (fun x e => x.way.Is g x.source e) (entering targeted p ++
      ((places β (some startBlock) code).filter fun y => g.seen.has y.2.index).flatMap (towards p))
      (g.tidy.block b).preds := by
  have hinto : Forall₂ (Edge.Is β g) ((allEdges β targeted code).filter fun x => x.target = some p)
      (out.filter fun y => y.1 = b) := by
    refine rel_filter ?_ W.edges
    intro x y h; simpa using (W.target_eq h hp).symm
  have halive : Forall₂ (Edge.Is β g)
      (((allEdges β targeted code).filter fun x => x.target = some p).filter fun x => g.seen.has x.source.index)
      ((out.filter fun y => y.1 = b).filter fun y => g.alive y.2) := by
    refine rel_filter ?_ hinto
    intro x y h
    simp [alive, predBlock, W.unpruned.settled.resolve_of_op h.2.op_ne.2, h.2.block]
  have hstart : (entering targeted p).filter (fun x => g.seen.has x.source.index) = entering targeted p := by
    have hseen : g.seen.has startBlock.index = true := (W.unpruned.has_seen _).2 (.inl ⟨[], trivial, rfl⟩)
    unfold entering
    split
    · simp [hseen]
    · rfl
  rw [W.cut.edges_into hp, filter_append, hstart, filter_towards p fun b => g.seen.has b.index] at halive
  rw [W.unpruned.preds_tidy (.inl hr), W.preds, filter_map, forall₂_map_right_iff]
  exact halive.imp fun _ _ h => h.2

lemma arrivals (W : Wired β targeted n code g out) (h : g.tidy.BeginsAt b p) :
    ∃ ins, Arrivals code p ins ∧ Forall₂ (fun x e => g.tidy.ComesFrom e x)
      ((if targeted = true ∧ p = 0 then [none, none] else []) ++ ins.map some) (g.tidy.block b).preds := by
  classical
  obtain ⟨hp, hreach⟩ := W.beginsAt_iff.1 h
  have G := W.unpruned
  -- the instructions that stay are those that control reaches
  have hfilter : (places β (some startBlock) code).filter (fun y => g.seen.has y.2.index) =
      (places β (some startBlock) code).filter fun y => decide (Reaches code y.1.pc) := by
    refine filter_congr fun y hy => ?_
    obtain ⟨q, hq, -⟩ := W.cut.stands hy
    rw [Bool.eq_iff_iff, G.has_seen, decide_eq_true_iff, ← W.reached_place hy]
    exact ⟨fun h => h.resolve_right fun hb => W.cut.ne_end q (hb ▸ hq), .inl⟩
  have hplaces := forall₂_places (β := β) (P := fun i => decide (Reaches code i.pc)) code (some startBlock)
    W.cut.layout.nodup fun i hi hr => W.cut.placed (of_decide_eq_true hr) i hi rfl
  have hedges := W.edges_into hp ((W.reached_iff hp).2 hreach)
  rw [hfilter] at hedges
  refine ⟨waysTo p (code.filter fun i => decide (Reaches code i.pc)), ⟨fun i w => ?_, ?_, ?_⟩, ?_⟩
  · rw [mem_waysTo, mem_filter, decide_eq_true_iff, and_assoc]
  · exact nodup_waysTo p (W.cut.layout.nodup.filter _)
  · refine sorted_waysTo p ?_
    exact (W.cut.layout.ascending.sorted.imp le_of_lt).sublist (filter_sublist.map _)
  · have hways := forall₂_towards p (P := fun y => y ∈ places β (some startBlock) code ∧ Reaches code y.1.pc) hplaces
      fun y hy => ⟨(mem_filter.1 hy).1, of_decide_eq_true (mem_filter.1 hy).2⟩
    have hsources :
      Forall₂ (fun (x : Option (Instruction × Way)) (z : Edge) => ∀ e, z.way.Is g z.source e → g.tidy.ComesFrom e x)
        ((if targeted = true ∧ p = 0 then [none, none] else []) ++
          (waysTo p (code.filter fun i => decide (Reaches code i.pc))).map some)
        (entering targeted p ++ ((places β (some startBlock) code).filter fun y =>
          decide (Reaches code y.1.pc)).flatMap (towards p)) := by
      refine rel_append ?_ ?_
      · unfold entering
        split
        · exact .cons (fun e he => he.tidy G) (.cons (fun e he => he.tidy G) .nil)
        · exact .nil
      · rw [forall₂_map_left_iff]
        refine hways.imp fun x z hz e he => ?_
        refine ⟨z.source, W.spans hz.1.1 ((W.reached_place hz.1.1).2 hz.1.2), ?_⟩
        rw [← hz.2]; exact he.tidy G
    refine (forall₂_comp hsources hedges).imp ?_
    rintro x e ⟨z, h1, h2⟩; exact h1 e h2

/-! ## Edges out of blocks -/

def outOf (g : Graph) (out : List (BlockId × NodeId)) (b : BlockId) : List (BlockId × NodeId) :=
  out.filter fun y => (g.node y.2).block = b

lemma mem_outOf : (c, e) ∈ outOf g out b ↔ (c, e) ∈ out ∧ (g.node e).block = b := by
  simp [outOf]

section

variable (W : Wired β targeted n code g out)

include W

lemma edges_from (b : BlockId) :
    Forall₂ (Edge.Is β g) ((allEdges β targeted code).filter fun x => x.source = b) (outOf g out b) := by
  refine rel_filter ?_ W.edges
  intro x y h
  simp [h.2.block]

lemma connects_iff (hr : g.Reached b) : g.tidy.Connects b c e ↔ (c, e) ∈ outOf g out b := by
  have G := W.unpruned
  rw [mem_outOf, Graph.Connects, G.block_node_tidy]
  constructor
  · rintro ⟨-, he, hb⟩
    rw [G.preds_tidy_eq] at he; exact ⟨W.mem_preds.1 (G.preds_subset_pruned he), hb⟩
  · rintro ⟨hout, rfl⟩
    have he := W.mem_preds.2 hout
    have hpred : g.Reached (g.predBlock e) := by rwa [W.predBlock_eq hout]
    have hc := hpred.edge he
    refine ⟨(W.stays_iff (lt_of_mem_preds he)).2 (.inl hc), ?_, rfl⟩
    rw [G.preds_tidy (.inl hc), mem_filter]; exact ⟨he, (G.has_seen _).2 (.inl hpred)⟩

lemma endsAt_iff : g.tidy.EndsAt b k ↔
    g.Has k ∧ (g.node k).block = b ∧ ((g.node k).op = .jmp ∨ (g.node k).op = .cond ∨ (g.node k).op = .ret) := by
  have G := W.unpruned
  rw [Graph.EndsAt, G.size_tidy, G.block_node_tidy]
  by_cases hp : (g.node k).op = .phi
  · rcases G.op_tidy_or k with h | h <;> simp [h, hp]
  · rw [G.op_tidy hp]

/-- Where a block ends there is an edge, or the two sides of a condition. -/
lemma endsAt_cases (h : g.tidy.EndsAt b k) : (∃ c, (c, k) ∈ outOf g out b) ∨ ∃ t ∈ outOf g out b, ∃ f ∈ outOf g out b,
      g.node t.2 = ⟨.proj Projection.condTrue, .control, b, [k]⟩ ∧
      g.node f.2 = ⟨.proj Projection.condFalse, .control, b, [k]⟩ := by
  obtain ⟨hlt, rfl, hop⟩ := W.endsAt_iff.1 h
  rcases W.exits k hlt (hop.imp_right (Or.imp_right .inl)) with hk | ⟨-, t, ht, f, hf, htn, hfn⟩
  · obtain ⟨⟨c, _⟩, hmem, rfl⟩ := mem_map.1 hk; exact .inl ⟨c, mem_outOf.2 ⟨hmem, rfl⟩⟩
  · exact .inr ⟨t, mem_outOf.2 ⟨ht, by rw [htn]⟩, f, mem_outOf.2 ⟨hf, by rw [hfn]⟩, htn, hfn⟩

lemma endsAt_of_outOf (h : (c, e) ∈ outOf g out b)
    (hop : (g.node e).op = .jmp ∨ (g.node e).op = .ret) : g.tidy.EndsAt b e :=
  have ⟨hout, hb⟩ := mem_outOf.1 h
  W.endsAt_iff.2 ⟨W.lt _ hout, hb, hop.imp_right .inr⟩

lemma endsAt_plain (hop : ∀ y ∈ outOf g out b, (g.node y.2).op = .jmp ∨ (g.node y.2).op = .ret) (k : NodeId) :
    g.tidy.EndsAt b k ↔ ∃ c, (c, k) ∈ outOf g out b := by
  refine ⟨fun h => ?_, fun ⟨c, hc⟩ => W.endsAt_of_outOf hc (hop _ hc)⟩
  rcases W.endsAt_cases h with h | ⟨t, ht, -, -, htn, -⟩
  · exact h
  · have := hop t ht
    rw [htn] at this
    rcases this with h | h <;> cases h

lemma departs_single (hr : g.Reached b)
    (hout : outOf g out b = [(c, e)]) (hop : (g.node e).op = .jmp ∨ (g.node e).op = .ret) :
    (∀ j, g.tidy.EndsAt b j ↔ j = e) ∧ ∀ c' e', g.tidy.Connects b c' e' ↔ c' = c ∧ e' = e := by
  constructor
  · intro j; rw [W.endsAt_plain (by simpa [hout] using hop), hout]; simp
  · simp [W.connects_iff hr, hout]

lemma departs_split {d : BlockId} {t f : NodeId} (hr : g.Reached b)
    (hout : outOf g out b = [(c, t), (d, f)]) (ht : Way.taken.Is g b t) (hf : Way.fall.Is g b f) :
    g.tidy.Departs b (.split c d) := by
  have G := W.unpruned
  obtain ⟨htop, -, k, hk, hkop, hkb⟩ := ht
  obtain ⟨hfop, -, l, hl, hlop, hlb⟩ := hf
  -- the sides of a condition in this block are the two edges
  have hends : ∀ j, g.tidy.EndsAt b j → j = k ∧ j = l := by
    intro j hj
    rcases W.endsAt_cases hj with ⟨c', hc'⟩ | ⟨t', ht', f', hf', htn, hfn⟩
    · obtain ⟨-, -, hop⟩ := W.endsAt_iff.1 hj
      rw [hout] at hc'
      simp only [mem_cons, not_mem_nil, or_false] at hc'
      rcases hc' with ⟨-, rfl⟩ | ⟨-, rfl⟩
      · simp [htop] at hop
      · simp [hfop] at hop
    · rw [hout] at ht' hf'
      simp only [mem_cons, not_mem_nil, or_false] at ht' hf'
      have hne : Projection.condTrue ≠ Projection.condFalse := by decide
      have htk : [j] = [k] := by
        rcases ht' with rfl | rfl
        · rw [← hk, htn]
        · rw [htn] at hfop; exact absurd (by simpa using hfop) hne
      have hfl : [j] = [l] := by
        rcases hf' with rfl | rfl
        · rw [hfn] at htop; exact absurd (by simpa using htop) (Ne.symm hne)
        · rw [← hl, hfn]
      exact ⟨by simpa using htk, by simpa using hfl⟩
  have hkend : g.tidy.EndsAt b k := W.endsAt_iff.2 ⟨lt_of_op_eq hkop, hkb, .inr (.inl hkop)⟩
  obtain rfl : k = l := (hends k hkend).2
  have inputs : ∀ {e}, (g.node e).op ≠ .phi → (g.node e).op ≠ .forward → (g.node e).inputs = [k] →
      (g.tidy.node e).inputs = [k] := by
    intro e hp hf he
    rw [G.inputs_tidy hp hf, he, map_singleton, G.resolve_settled (by simp [hkop]) (by simp [hkop])]
  refine ⟨k, t, f, ?_, fun j => ⟨fun h => (hends j h).1, fun h => h ▸ hkend⟩, ?_, ?_, ?_, ?_, fun c' e' => ?_⟩
  · rw [G.op_tidy (by simp [hkop]), hkop]
  · rw [G.op_tidy (by simp [htop]), htop]
  · exact inputs (by simp [htop]) (by simp [htop]) hk
  · rw [G.op_tidy (by simp [hfop]), hfop]
  · exact inputs (by simp [hfop]) (by simp [hfop]) hl
  · simp [W.connects_iff hr, hout]

lemma departs (hp : β p = some b) (hr : g.Reached b)
    (hcall : ∀ i, (i, b) ∈ places β (some startBlock) code → i.ends = true →
      i.exits = [] → ∃ e, g.tidy.Calls b e ∧ aborts e) : ∃ d, g.tidy.Departs b d ∧ ∀ e, d = .abort e → aborts e := by
  have G := W.unpruned
  have hedges := W.edges_from b
  have jump : ∀ {c : BlockId} {k : NodeId}, outOf g out b = [(c, k)] → (g.node k).op = .jmp →
      ∃ d, g.tidy.Departs b d ∧ ∀ e, d = .abort e → aborts e := fun hout hop =>
    have ⟨h1, h2⟩ := W.departs_single hr hout (.inl hop)
    ⟨.jump _, ⟨_, (G.op_tidy (by simp [hop])).trans hop, h1, h2⟩, fun _ h => by cases h⟩
  rcases W.cut.edges_from hp with ⟨i, hi, hends, hx⟩ | ⟨pc, hx⟩
  · rw [hx] at hedges
    have nothing : i.exits = [] → ∃ d, g.tidy.Departs b d ∧ ∀ e, d = .abort e → aborts e := by
      intro hnone
      obtain ⟨e, he, ha⟩ := hcall i hi hends hnone
      rw [Instruction.exitsFrom, hnone] at hedges
      have hout : outOf g out b = [] := by
        generalize outOf g out b = l at hedges
        cases hedges
        rfl
      refine ⟨.abort e, ⟨fun j => ?_, fun c k => ?_, he⟩, fun e' h => by cases h; exact ha⟩
      · rw [W.endsAt_plain (by simp [hout]), hout]; simp
      · simp [W.connects_iff hr, hout]
    obtain ⟨pc, op, next⟩ := i
    generalize hl : outOf g out b = l at hedges
    cases op with
    | branch kind binary way target =>
      rcases hedges with _ | ⟨ht, _ | ⟨hf, ⟨⟩⟩⟩
      exact ⟨.split _ _, W.departs_split hr hl ht.2 hf.2, fun _ h => by cases h⟩
    | jump target =>
      rcases hedges with _ | ⟨hj, ⟨⟩⟩
      exact jump hl hj.2.1
    | yield kind =>
      rcases hedges with _ | @⟨_, y, _, _, hj, ⟨⟩⟩
      obtain ⟨h1, h2⟩ := W.departs_single hr hl (.inr hj.2.1)
      have hend : y.1 = endBlock := (Option.some.inj hj.1).symm
      refine ⟨.ret, ⟨_, (G.op_tidy (by simp [hj.2.1])).trans hj.2.1, h1, ?_⟩, fun _ h => by cases h⟩
      rwa [← hend]
    | throw => exact nothing rfl
    | uncompiled what => exact nothing rfl
    | _ => cases hends
  · rw [hx] at hedges
    generalize hl : outOf g out b = l at hedges
    rcases hedges with _ | ⟨hj, ⟨⟩⟩
    exact jump hl hj.2.1

end

/-- If something branches to the entry, the start block leads there twice. -/
lemma departs_twice (W : Wired β true n code g out) (hb : β 0 = some b) : g.tidy.DepartsTwice startBlock b := by
  have G := W.unpruned
  have hr : g.Reached startBlock := ⟨[], trivial, rfl⟩
  have hedges := W.edges_from startBlock
  rw [W.cut.edges_from_start, entering, if_pos ⟨rfl, rfl⟩] at hedges
  have hnodup : ((outOf g out startBlock).map Prod.snd).Nodup := W.nodup.sublist (filter_sublist.map _)
  generalize hl : outOf g out startBlock = l at hedges hnodup
  rcases hedges with _ | @⟨_, ⟨c, k⟩, _, _, hk, _ | @⟨_, ⟨d, l⟩, _, _, hl', ⟨⟩⟩⟩
  obtain rfl : b = c := Option.some.inj (hb.symm.trans hk.1)
  obtain rfl : b = d := Option.some.inj (hb.symm.trans hl'.1)
  have hkop : (g.node k).op = .jmp := hk.2.1
  have hlop : (g.node l).op = .jmp := hl'.2.1
  refine ⟨k, l, ?_, ?_, ?_, fun j => ?_, fun c e => ?_⟩
  · simpa using hnodup
  · rw [G.op_tidy (by simp [hkop]), hkop]
  · rw [G.op_tidy (by simp [hlop]), hlop]
  · rw [W.endsAt_plain (by simp [hl, hkop, hlop]), hl]; simp [← and_or_left]
  · rw [W.connects_iff hr, hl]; simp [and_or_left]

lemma nodup_preds (W : Wired β targeted n code g out) (b : BlockId) : (g.tidy.block b).preds.Nodup := by
  have h : (g.block b).preds.Nodup := by
    rw [W.preds]; exact W.nodup.sublist (filter_sublist.map _)
  rw [W.unpruned.preds_tidy_eq, W.unpruned.block_pruned]
  split
  · exact h.filter _
  · split <;> exact h

lemma follows (W : Wired β (branchesToEntry code) n code g out)
    (hcall : ∀ i b, (i, b) ∈ places β (some startBlock) code → i.ends = true → i.exits = [] →
      ∃ e, g.tidy.Calls b e ∧ aborts e) : g.tidy.Follows code aborts where
  stays b p h := by rw [W.unpruned.pc_tidy, W.pc] at h; exact W.stays_begin h
  entry := by
    obtain ⟨b, hb⟩ := W.cut.entry; exact ⟨b, W.beginsAt_iff.2 ⟨hb, .entry⟩⟩
  target i hi hr w p hp := by
    obtain ⟨b, hb⟩ := Option.isSome_iff_exists.1 (W.cut.mark i hi p (Instruction.mem_marks_of_exits hp))
    refine ⟨b, W.beginsAt_iff.2 ⟨hb, .step hi hr (w := w) ?_⟩⟩
    cases hends : i.ends with
    | true => rwa [Instruction.successors, if_pos hends]
    | false => simp [Instruction.exits_of_not_ends hends] at hp
  preds b p h := W.arrivals h
  nodup := W.nodup_preds
  departs b hb hend hstart := by
    have hr : g.Reached b :=
      ((W.stays_iff (by rw [HasBlock, ← W.unpruned.blocks_size_tidy]; exact hb.1)).1 hb).resolve_right hend
    obtain ⟨p, hp⟩ : ∃ p, β p = some b := by
      rcases W.cover b (by rw [← W.unpruned.blocks_size_tidy]; exact hb.1) with rfl | rfl | h
      · exact ⟨0, (W.cut.start 0).2 ⟨rfl, hstart rfl⟩⟩
      · exact absurd rfl hend
      · exact h
    exact W.departs hp hr fun i hi => hcall i b hi
  opens ht := by
    obtain ⟨b, hb⟩ := W.cut.entry
    refine ⟨b, W.beginsAt_iff.2 ⟨hb, .entry⟩, ?_⟩
    rw [ht] at W; exact W.departs_twice hb

end Wired

/-! ## Calls that end everything -/

lemma Graph.Calls.keep {g' : Graph} {e : EntityId} (h : g.Calls b e) (hsize : g.nodes.size ≤ g'.nodes.size)
    (keep : ∀ n : NodeId, g.Has n → (g.node n).op ≠ .phi → g'.node n = g.node n) : g'.Calls b e := by
  obtain ⟨k, memory, callee, hlt, hb, hop, hi, ha⟩ := h
  have hk := keep k hlt (by simp [hop])
  refine ⟨k, memory, callee, lt_of_lt_of_le hlt hsize, ?_, ?_, ?_, ?_⟩
  · rw [hk, hb]
  · rw [hk, hop]
  · rw [hk, hi]
  · rw [keep callee (lt_of_op_eq ha) (by simp [ha]), ha]

lemma Graph.Calls.tidy {e : EntityId} (G : g.Unpruned) (h : g.Calls b e) : g.tidy.Calls b e := by
  obtain ⟨k, memory, callee, hlt, hb, hop, hi, ha⟩ := h
  have hcp : (g.node callee).op ≠ .phi := by simp [ha]
  refine ⟨k, (Graph.Unpruned.settledGraph g).resolve memory, callee, by rwa [G.size_tidy],
    (G.block_node_tidy k).trans hb, ?_, ?_, (G.op_tidy hcp).trans ha⟩
  · rw [G.op_tidy (by simp [hop]), hop]
  · rw [G.inputs_tidy (by simp [hop]) (by simp [hop]), hi, map_cons, map_singleton,
      G.resolve_settled hcp (by simp [ha])]

lemma Frame.memoryOp_node {op : Op} {inputs : List NodeId} {f f' : Frame} (h : memoryOp op inputs f = .ok k f')
    (F : Fit f) (hi : ∀ i ∈ inputs, f.builder.Near i) (ho : op.isPlain = true) :
    f'.graph.Has k ∧ ∃ memory, f'.graph.node k = ⟨op, .tuple, f.builder.current, memory :: inputs⟩ := by
  obtain ⟨memory, f1, h1, h⟩ := bind_ok.1 h
  obtain ⟨F1, C1, hm⟩ := calm_ok (calm_getStore (L := [])) F (by simp) h1
  obtain ⟨n, f2, h2, h⟩ := bind_ok.1 h
  obtain ⟨F2, C2, hn⟩ := calm_ok (calm_addNode (L := memory :: inputs) ho fun _ h => h) F1 (fun i hi' => by
    rcases mem_cons.1 hi' with rfl | hi'
    · exact hm i (by simp)
    · exact C1.near (hi i hi')) h2
  have hrest : Frame.calm.Keeps [n] (do
      let after ← build (Ssa.addProj n .memory Projection.memory)
      build (Ssa.setStore after)
      return n : Step NodeId) fun k => [k] :=
    (calm_addProj (by simp) (by simp)).bind fun _ => (calm_setStore (by simp)).bind fun _ => .pure (by simp)
  obtain ⟨-, C3, hk⟩ := calm_ok hrest F2 hn h
  obtain rfl : k = n := by exact (pure_ok.1 h).1.symm
  refine ⟨(hk k (by simp)).1, memory, ?_⟩
  refine (C3.keep k (hn k (by simp)).1).trans ?_
  cases h2
  have hcurrent : f1.builder.current = f.builder.current := C1.current_eq
  rw [← hcurrent]
  exact f1.builder.node_place_new _ _ _ _

namespace Body

variable {ctx : MethodContext} {t t' : BodyState} {u : Unit}

lemma callRuntime_calls {f : RuntimeFunction} (h : callRuntime f [] t = .ok k t') (F : Fit t.frame)
    (hb : t.frame.builder.current = b) :
    ∃ e, t'.frame.graph.Calls b e ∧ t'.world.image.functions.lookup f = some e := by
  obtain ⟨e, t1, h1, h⟩ := bind_ok.1 h
  obtain ⟨w1, hw1, rfl⟩ := onWorld_ok.1 h1
  have hlook : w1.image.functions.lookup f = some e := by
    have := (Image.supplies_function (T := fun _ => False) t.world.image f).2
    cases hw1
    exact this
  obtain ⟨callee, t2, h2, h⟩ := bind_ok.1 h
  obtain ⟨f2, hf2, rfl⟩ := onFrame_ok.1 h2
  obtain ⟨F2, C2, hnear⟩ := Frame.calm_ok (calm_address (L := [])) F (by simp) hf2
  have hcallee : (f2.graph.node callee).op = .address e := by
    obtain ⟨s', hs, rfl⟩ := build_ok.1 (show Frame.onGraph (fun g => g.address e) t.frame = .ok callee f2 from hf2)
    cases hs
    exact congrArg Node.op (t.frame.builder.node_place_new startBlock (.address e) .reference [])
  obtain ⟨f3, hf3, rfl⟩ := onFrame_ok.1 h
  obtain ⟨hlt, memory, hnode⟩ := memoryOp_node hf3 F2 hnear rfl
  obtain ⟨-, C3, -⟩ := Frame.calm_ok (calm_memoryOp (L := [callee]) rfl fun _ h => h) F2 hnear hf3
  refine ⟨e, ⟨k, memory, callee, hlt, ?_, ?_, ?_, ?_⟩, hlook⟩
  · rw [hnode, ← hb]; exact C2.current_eq
  · rw [hnode]
  · rw [hnode]
  · exact (congrArg Node.op (C3.keep callee (hnear callee (by simp)).1)).trans hcallee

lemma throwObject_calls (ctx : MethodContext) (h : throwObject t = .ok u t') (G : t.Good)
    (hc : t.frame.builder.current? = some b) :
    ∃ e, t'.frame.graph.Calls b e ∧ t'.world.image.functions.lookup .abort = some e := by
  obtain ⟨memory, t1, h1, -, hw, hf⟩ := throwObject_ok h
  obtain ⟨v, ta, ha, h1⟩ := bind_ok.1 h1
  obtain ⟨fa, hfa, rfl⟩ := onFrame_ok.1 ha
  obtain ⟨Fa, Ca, -⟩ := Frame.calm_ok (lasting_true.rules.pop (L := [])) G.fit (by simp) hfa
  obtain ⟨k, tb, hb, h1⟩ := bind_ok.1 h1
  obtain ⟨e, hcalls, hlook⟩ := callRuntime_calls hb Fa (Ca.current_eq.trans (current_of_some hc))
  obtain ⟨Fb, -⟩ := calm_ok ((calm_rules ctx).callRuntime (L := []) (by simp)) Fa (by simp) hb
  obtain ⟨fc, hfc, rfl⟩ := onFrame_ok.1 h1
  obtain ⟨-, Cc, -⟩ := Frame.calm_ok (calm_getStore (L := [])) Fb (by simp) hfc
  refine ⟨e, ?_, by rwa [hw]⟩
  rw [hf]
  exact hcalls.keep Cc.size_le fun n hn _ => Cc.keep n hn

lemma step_calls (h : step ctx i t = .ok u t') (G : t.Good) (hc : t.frame.builder.current? = some b)
    (hends : i.ends = true) (hexits : i.exits = []) :
    ∃ e, t'.frame.graph.Calls b e ∧ t'.world.image.functions.lookup .abort = some e := by
  obtain ⟨pc, op, next⟩ := i
  cases op with
  | throw => exact throwObject_calls ctx h G hc
  | uncompiled what => cases h
  | branch | jump | yield => cases hexits
  | _ => cases hends

lemma visit_calls (h : visit ctx i t = .ok u t') (G : t.Good)
    (hs : t.blockAt i.pc = some startBlock → t.frame.builder.current? = some startBlock)
    (hb : enters t.blockAt t.frame.builder.current? i = some b) (hends : i.ends = true) (hexits : i.exits = []) :
    ∃ e, t'.frame.graph.Calls b e ∧ t'.world.image.functions.lookup .abort = some e := by
  obtain ⟨t1, har, hstep⟩ := visit_ok h G.own
  obtain ⟨-, G1, -, hc1, -⟩ := arrives_leads har G hs
  rw [hb] at hc1
  rw [hc1] at hstep
  exact step_calls hstep G1 hc1 hends hexits

lemma visitAll_calls : ∀ {code : List Instruction} {t t' : BodyState} {u : Unit},
    visitAll ctx code t = .ok u t' → t.Good →
    StartsFirst t.blockAt t.frame.builder.current? code → ∀ i b,
    (i, b) ∈ places t.blockAt t.frame.builder.current? code → i.ends = true → i.exits = [] →
    ∃ e, t'.frame.graph.Calls b e ∧ (compiling.inv t → t'.world.image.functions.lookup .abort = some e)
  | [], t, t', u, _, _, _, i, b, h, _, _ => by cases h
  | j :: rest, t, t', u, h, G, hs, i, b, hplace, hends, hexits => by
    obtain ⟨v, t1, h1, h2⟩ := bind_ok.1 h
    obtain ⟨out1, G1, A1, hc1, -⟩ := visit_leads h1 G (hs.first j rfl) (hs.marks j (.head _))
    have hβ : t1.blockAt = t.blockAt := funext A1.blockAt
    have hs1 : StartsFirst t1.blockAt t1.frame.builder.current? rest := by rw [hβ]; exact hs.tail
    have hinv1 : compiling.inv t → compiling.inv t1 := fun hinv => ((compiling_rules.visit j t hinv).ok h1).1
    rcases mem_places_of_cons.1 hplace with ⟨rfl, henters⟩ | hplace
    · obtain ⟨e, hcalls, hlook⟩ := visit_calls h1 G (hs.first _ rfl) henters hends hexits
      obtain ⟨out2, -, A2, -⟩ := visitAll_leads h2 G1 hs1
      refine ⟨e, hcalls.keep A2.size_le fun n hn _ => A2.keep n hn, fun hinv => ?_⟩
      exact ((compiling_rules.visitAll rest t1 (hinv1 hinv)).ok h2).2.keeps.functions _ _ hlook
    · rw [← hc1, ← hβ] at hplace
      obtain ⟨e, hcalls, hlook⟩ := visitAll_calls h2 G1 hs1 i b hplace hends hexits
      exact ⟨e, hcalls, fun hinv => hlook (hinv1 hinv)⟩

lemma compiling_openEntry (ctx : MethodContext) (targeted : Bool) : compiling.Honours (openEntry targeted) := by
  have R : ControlRules ctx compiling := compiling_rules
  refine .ite (R.jmp.bind fun _ => Contract.Honours.bind (.get fun _ => .pure) fun b? => ?_) .pure
  cases b? with
  | some entry => exact R.addPred _ _
  | none => exact .pure

end Body

/-! ## Translated methods -/

namespace Stages

variable {ctx : MethodContext} {m : Method} {code : List Instruction} {t1 t2 t3 t4 t5 t' : BodyState}
  {out : List (BlockId × NodeId)} {n : Nat} {bs : List Nat}

section

variable (S : Stages ctx m code t1 t2 t3 t4 t5 t' out)

include S

lemma cut (L : Layout n code) (B : Boundaries n code bs)
    (hsome : ∀ p, (t1.blockAt p).isSome ↔ p ∈ bs ∧ p < n) : Flow.Cut t3.blockAt (branchesToEntry code) n code := by
  have hsome3 : ∀ p, (t3.blockAt p).isSome ↔ p ∈ bs ∧ p < n := fun p => by rw [S.before.blockAt, hsome]
  obtain ⟨i, rest, hcode⟩ : ∃ i rest, code = i :: rest := by
    cases hcode : code with
    | nil =>
      have := S.final
      rw [hcode] at this; cases this
    | cons i rest => exact ⟨i, rest, rfl⟩
  have hi : i ∈ code := by rw [hcode]; exact mem_cons_self
  have hpc := L.head_pc hcode
  obtain ⟨b, hb⟩ : ∃ b, t3.blockAt 0 = some b := by
    refine Option.isSome_iff_exists.1 ((hsome3 0).2 ⟨B.zero, ?_⟩)
    rw [← hpc]; exact L.pc_lt hi
  refine ⟨L, fun p c hp => ?_, ⟨b, hb⟩, S.tabled.injective, fun j hj p hp => ?_, fun p => ⟨S.tabled.start p, ?_⟩,
    fun p h => S.tabled.good.block_ne p _ h rfl, S.final⟩
  · rcases B.pc p ((hsome3 p).1 (by rw [hp]; rfl)).1 with rfl | h
    · exact hpc ▸ mem_map_of_mem hi
    · exact h
  · obtain ⟨hbs, hpcs⟩ := B.mark j hj p hp; exact (hsome3 p).2 ⟨hbs, L.ascending.lt p hpcs⟩
  · rintro ⟨rfl, ht⟩; rw [hb, S.entry ht b hb]

lemma wired (C : Flow.Cut t3.blockAt (branchesToEntry code) n code) :
    Wired t3.blockAt (branchesToEntry code) n code t'.frame.graph out := by
  obtain ⟨T, T', -, -, hlater⟩ := S.later
  have hblocks : t'.frame.graph.blocks.size = t3.frame.graph.blocks.size := by
    rw [show t'.frame.graph = _ from hlater.graph]; exact S.leads.blocks_size
  have hpc : ∀ b, (t'.frame.graph.block b).pc? = (t3.frame.graph.block b).pc? := fun b => by
    rw [S.block]; exact S.leads.block_pc b
  have hlt : ∀ y ∈ out, y.2.index < t5.frame.graph.nodes.size := fun y hy => (S.leads.fresh y hy).2
  refine ⟨C, S.unpruned, Edge.Is.keep S.edges hlt S.keep, fun b => ?_, fun p b h => ?_, fun b hb => ?_, fun p b => ?_,
    fun y hy => lt_of_lt_of_le (hlt y hy) hlater.grows.size_le, ?_, fun k hk hx => ?_⟩
  · rw [S.block]
    refine (S.leads.preds b).trans ?_
    rw [S.tabled.preds, nil_append]
  · rw [hblocks]; exact S.tabled.good.block_lt p b h
  · exact S.tabled.cover b (hblocks ▸ hb)
  · rw [hpc]
    refine ⟨fun h => (S.tabled.blockAt_pc p b h).resolve_right fun hz => ?_, S.tabled.pc p b⟩
    obtain ⟨c, hc⟩ := C.entry
    rw [blockAt, starts, Array.getD_eq_getD_getElem?, Array.getElem?_eq_none (by omega)] at hc
    cases hc
  · have := S.leads.sorted
    rw [pairwise_map] at this
    rw [Nodup, pairwise_map]; exact this.imp fun h he => by simp [he] at h
  · -- a node at which control leaves is there before maturing, and comes with an edge
    by_cases hk5 : t5.frame.graph.Has k
    · have hphi : (t5.frame.graph.node k).op ≠ .phi := by
        intro hp
        rcases hlater.grows.phi k hk5 hp with h | h <;>
          rcases hx with hx | hx | hx | ⟨-, number, hx⟩ <;> rw [show (t'.frame.graph.node k).op = _ from h] at hx <;>
            cases hx
      have hsame := S.keep k hk5 hphi
      rw [hsame] at hx
      by_cases hk3 : t3.frame.graph.Has k
      · rw [show t5.frame.graph.node k = _ from S.leads.keep k hk3] at hx
        exact absurd hx (S.tabled.exits k hk3)
      · rcases S.leads.exits k (not_lt.1 hk3) hk5 hx with h | ⟨hop, p, hp, q, hq, hpn, hqn⟩
        · exact .inl h
        · refine .inr ⟨by rwa [hsame], p, hp, q, hq, ?_, ?_⟩
          · rwa [hsame, S.keep p.2 (hlt p hp) (by rw [show t5.frame.graph.node p.2 = _ from hpn]; simp)]
          · rwa [hsame, S.keep q.2 (hlt q hq) (by rw [show t5.frame.graph.node q.2 = _ from hqn]; simp)]
    · rcases hlater.fresh k (not_lt.1 hk5) hk with h | h | h <;>
        rcases hx with hx | hx | hx | ⟨-, number, hx⟩ <;> rw [show (t'.frame.graph.node k).op = _ from h] at hx <;>
          cases hx

lemma compiling_entering (h : Body.compiling.inv t1) : Body.compiling.inv t4 := by
  have R : ControlRules ctx Body.compiling := Body.compiling_rules
  have h2 := (R.storeArgs 0 0 m.paramModes t1 h).ok S.args
  have h3 := ((Body.initOwner_keeps R.toBodyRules).honours t2 h2.1).ok S.init
  exact ((Body.compiling_openEntry ctx _ t3 h3.1).ok S.opened).1

lemma calls (C : Flow.Cut t3.blockAt (branchesToEntry code) n code)
    (hplace : (i, b) ∈ places t3.blockAt (some startBlock) code) (hends : i.ends = true)
    (hexits : i.exits = []) :
    ∃ e, t'.frame.graph.Calls b e ∧ (Body.compiling.inv t1 → t'.world.image.functions.lookup .abort = some e) := by
  obtain ⟨T, T', -, -, hlater⟩ := S.later
  have hβ : t4.blockAt = t3.blockAt := by
    funext p
    simp [blockAt, starts, (Body.openEntry_ok S.opened).1]
  obtain ⟨e, hcalls, hlook⟩ := Body.visitAll_calls S.visits S.entered
    (by rw [hβ, S.entering]; exact S.tabled.startsFirst C.layout) i b (by rwa [hβ, S.entering]) hends hexits
  refine ⟨e, hcalls.keep hlater.grows.size_le S.keep, fun h => ?_⟩
  rw [S.world]
  exact hlook (S.compiling_entering h)

end

end Stages

/-- The graph of every method that is translated has the control flow of its code. In a world that is in order, the
function that is called where an object is thrown is the one that ends everything. -/
theorem methodGraph_follows (source : ClassSource) (c : ClassId) (file : ClassFile) (member : Member) (e : EntityId)
    (world world' : World) (g : Graph) (h : methodGraph source c file member e world = .ok g world') :
    ∃ body ops, member.code? = some body ∧ Bytecode.decode body.bytes = .ok ops ∧
      g.Follows (Instruction.ofDecoded body.bytes.length ops)
        fun f => world.Ready → world'.image.functions.lookup .abort = some f := by
  obtain ⟨m, body, ops, bs, -, hbody, hops, hbs, t1, t2, t3, t4, t5, t', out, S, hmake, -, -, hsome, rfl, rfl⟩ :=
    methodGraph_stages h
  have L := Instruction.layout_ofDecoded (decode_ascending hops)
  have C := S.cut L (boundaries_spec hbs L) hsome
  have W := S.wired C
  refine ⟨body, ops, hbody, hops, W.follows fun i b hplace hends hexits => ?_⟩
  obtain ⟨f, hcalls, hlook⟩ := S.calls C hplace hends hexits
  refine ⟨f, hcalls.tidy W.unpruned, fun hready => hlook ?_⟩
  have R : ControlRules { source, owner := c, file, result? := m.resultMode? } Body.compiling := Body.compiling_rules
  exact ((R.makeBlocks _ bs _ ⟨hready, selects_new _ _ _ _⟩).ok hmake).1

/-- A loop back to the entry: two jumps lead there from the start block, and one from the end of the loop. -/
theorem methodGraph_follows_countdown : ∃ g world', translateAlone (staticMethod [.int] (some .int)) 2 1 countdown =
    .ok g world' ∧
    (g.block ⟨2⟩).pc? = some 0 ∧ (g.block ⟨2⟩).preds.map (fun e => (g.node e).block) = [⟨0⟩, ⟨0⟩, ⟨3⟩] ∧
    ∃ ops, Bytecode.decode countdown = .ok ops ∧ g.Follows (Instruction.ofDecoded countdown.length ops)
      fun f => World.Ready { image := { program := { entities :=
        #[⟨"m", "m", none, .method (staticMethod [.int] (some .int)), .exported, none⟩] } } } →
        world'.image.functions.lookup .abort = some f := by
  have run : (match translateAlone (staticMethod [.int] (some .int)) 2 1 countdown with
    | .ok g _ => (g.block ⟨2⟩).pc? == some 0 && (g.block ⟨2⟩).preds.map (fun e => (g.node e).block) == [⟨0⟩, ⟨0⟩, ⟨3⟩]
    | .error _ _ => false) = true := by decide +kernel
  cases h : translateAlone (staticMethod [.int] (some .int)) 2 1 countdown with
  | error e world' =>
    rw [h] at run
    cases run
  | ok g world' =>
    rw [h] at run
    obtain ⟨hpc, hpreds⟩ := Bool.and_eq_true_iff.1 run
    obtain ⟨body, ops, hbody, hops, hfollows⟩ := methodGraph_follows _ _ _ _ _ _ _ _ h
    cases hbody
    exact ⟨g, world', rfl, eq_of_beq hpc, eq_of_beq hpreds, ops, hops, hfollows⟩

end JvmGraph
