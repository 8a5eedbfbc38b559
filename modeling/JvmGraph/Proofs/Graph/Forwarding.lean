import JvmGraph.Graph.Basic
import JvmGraph.Proofs.Arrays
import Mathlib.Data.Finset.Card

/-!
# Forwarding nodes

What the updates of a graph do to its nodes and blocks, and what `resolve` finds after them. Forwarding
never runs in a circle (`Settled`): a node is made to forward only to a node that does not forward itself,
so that the nodes can be ranked along the forwarding, with no more ranks than there are forwarding nodes.
-/

namespace JvmGraph.Graph

open List Array

variable {n phi : NodeId} {g' : Graph} {a b w p : NodeId} {op : Op} {m : NodeId} {inputs : List NodeId}

/-- The node that is added next. -/
abbrev fresh (g : Graph) : NodeId := ⟨g.nodes.size⟩

abbrev Has (g : Graph) (n : NodeId) : Prop := n.index < g.nodes.size

abbrev HasBlock (g : Graph) (b : BlockId) : Prop := b.index < g.blocks.size

/-! ## Nodes and blocks after an update -/

section

variable (g : Graph)

section

variable (b : BlockId) (op : Op) (mode : Mode) (inputs : List NodeId)

lemma node_add (n : NodeId) : (g.add b op mode inputs).2.node n =
    if n.index = g.nodes.size then ⟨op, mode, b, inputs⟩ else g.node n := by
  simp only [add, node, getD_eq_getD_getElem?, getElem?_push]
  split <;> rfl

@[simp]
lemma add_fst : (g.add b op mode inputs).1 = g.fresh := rfl

@[simp]
lemma size_add : (g.add b op mode inputs).2.nodes.size = g.nodes.size + 1 := by simp [add]

end

lemma node_setNode (p : NodeId) (v : Node) (n : NodeId) :
    (g.setNode p v).node n = if n = p ∧ g.Has p then v else g.node n := by
  obtain ⟨p⟩ := p
  obtain ⟨n⟩ := n
  simp only [setNode, node, Arrays.getD_setIfInBounds, NodeId.mk.injEq]

@[simp]
lemma size_setNode (p : NodeId) (v : Node) : (g.setNode p v).nodes.size = g.nodes.size := by
  simp [setNode]

lemma block_setBlock (b : BlockId) (v : Block) (c : BlockId) :
    (g.setBlock b v).block c = if c = b ∧ g.HasBlock b then v else g.block c := by
  obtain ⟨b⟩ := b
  obtain ⟨c⟩ := c
  simp only [setBlock, block, Arrays.getD_setIfInBounds, BlockId.mk.injEq]

@[simp]
lemma size_setBlock (b : BlockId) (v : Block) : (g.setBlock b v).blocks.size = g.blocks.size := by simp [setBlock]

lemma block_newBlock (c : BlockId) : g.newBlock.2.block c = g.block c := by
  simp only [newBlock, block, getD_eq_getD_getElem?, getElem?_push]
  split
  · rename_i h; simp [h]
  · rfl

end

variable {g : Graph}

lemma block_of_le {b : BlockId} (h : g.blocks.size ≤ b.index) : g.block b = {} := by
  simp [block, h]

lemma node_of_le (h : g.nodes.size ≤ n.index) : g.node n = ⟨.bad, .tuple, startBlock, []⟩ := by
  simp [node, h]

lemma lt_of_op (h : (g.node n).op ≠ .bad) : g.Has n := by
  by_contra hn
  rw [node_of_le (by omega)] at h
  exact h rfl

lemma lt_of_op_eq (h : (g.node n).op = op) (hb : op ≠ .bad := by simp) : g.Has n :=
  lt_of_op (h ▸ hb)

/-! ## Following -/

def target? (g : Graph) (n : NodeId) : Option NodeId :=
  match g.node n with
  | ⟨.forward, _, _, m :: _⟩ => some m
  | _ => none

lemma target?_eq_some : g.target? n = some m ↔ (g.node n).op = .forward ∧ (g.node n).inputs.head? = some m := by
  unfold target?
  split
  · rename_i h; simp [h]
  · rename_i h
    simp only [reduceCtorEq, false_iff, not_and]
    intro ho hi
    cases hn : g.node n with
    | mk op mode block inputs =>
      rw [hn] at ho hi h
      cases inputs with
      | nil => simp at hi
      | cons a rest => subst ho; exact h mode block a rest rfl

lemma target?_eq_none_of_op (h : (g.node n).op ≠ .forward) : g.target? n = none := by
  cases ht : g.target? n with
  | none => rfl
  | some m => exact absurd (target?_eq_some.1 ht).1 h

lemma follow_succ (g : Graph) (fuel : Nat) (n : NodeId) :
    g.follow (fuel + 1) n = (g.target? n).elim n (g.follow fuel) := by
  unfold follow target?
  generalize g.node n = node
  obtain ⟨op, mode, block, inputs⟩ := node
  cases inputs <;> cases op <;> rfl

lemma follow_of_none (h : g.target? n = none) (fuel : Nat) : g.follow fuel n = n := by
  cases fuel with
  | zero => rfl
  | succ fuel => rw [follow_succ, h]; rfl

def forwarding (g : Graph) : Finset Nat := (Finset.range g.nodes.size).filter fun i => (g.node ⟨i⟩).op = .forward

lemma card_forwarding_le (g : Graph) : g.forwarding.card ≤ g.nodes.size := by
  have := Finset.card_filter_le (.range g.nodes.size) fun i => (g.node ⟨i⟩).op = .forward
  rwa [Finset.card_range] at this

/-- Forwarding ends: there is a rank that falls along it and stays below the number of forwarding
nodes. Every forwarding node has a target, and that is a node of the graph. -/
structure Settled (g : Graph) : Prop where
  ranked : ∃ rank : NodeId → Nat, (∀ n m, g.target? n = some m → rank m < rank n) ∧
    ∀ n, rank n ≤ g.forwarding.card
  target : ∀ n, (g.node n).op = .forward → ∃ m, (g.node n).inputs = [m] ∧ m.index < g.nodes.size

lemma follow_rank {rank : NodeId → Nat} (hr : ∀ n m, g.target? n = some m → rank m < rank n) :
    ∀ (fuel : Nat) (n : NodeId), rank n ≤ fuel →
      g.target? (g.follow fuel n) = none ∧ ∀ more, g.follow (fuel + more) n = g.follow fuel n := by
  intro fuel
  induction fuel with
  | zero =>
    intro n h
    have hn : g.target? n = none := by
      cases ht : g.target? n with
      | none => rfl
      | some m => have := hr n m ht; omega
    exact ⟨hn, fun more => follow_of_none hn _⟩
  | succ fuel ih =>
    intro n h
    cases ht : g.target? n with
    | none => exact ⟨by rwa [follow_of_none ht], fun more => by simp [follow_of_none ht]⟩
    | some m =>
      have hm := hr n m ht
      obtain ⟨h1, h2⟩ := ih m (by omega)
      refine ⟨by rwa [follow_succ, ht], fun more => ?_⟩
      have e : fuel + 1 + more = (fuel + more) + 1 := by omega
      rw [e, follow_succ, follow_succ, ht]; exact h2 more

namespace Settled

lemma resolve_of_none (_ : g.Settled) (h : g.target? n = none) : g.resolve n = n :=
  follow_of_none h _

section

variable (S : g.Settled)

include S

lemma resolve_of_target (h : g.target? n = some m) : g.resolve n = g.resolve m := by
  obtain ⟨rank, hr, hb⟩ := S.ranked
  have hm := hr n m h
  have hn := le_trans (hb n) (card_forwarding_le g)
  unfold resolve
  obtain ⟨k, hk⟩ : ∃ k, g.nodes.size = k + 1 := ⟨g.nodes.size - 1, by omega⟩
  rw [hk, follow_succ, h]
  exact ((follow_rank hr k m (by omega)).2 1).symm

lemma target?_resolve (n : NodeId) : g.target? (g.resolve n) = none := by
  obtain ⟨rank, hr, hb⟩ := S.ranked
  exact (follow_rank hr g.nodes.size n (le_trans (hb n) (card_forwarding_le g))).1

lemma target?_eq_none_iff : g.target? n = none ↔ (g.node n).op ≠ .forward := by
  refine ⟨fun h ho => ?_, target?_eq_none_of_op⟩
  obtain ⟨m, hm, -⟩ := S.target n ho
  have := target?_eq_some.2 ⟨ho, by rw [hm]; rfl⟩
  rw [h] at this
  cases this

lemma op_resolve (n : NodeId) : (g.node (g.resolve n)).op ≠ .forward :=
  S.target?_eq_none_iff.1 (S.target?_resolve n)

lemma resolve_of_op (h : (g.node n).op ≠ .forward) : g.resolve n = n :=
  S.resolve_of_none (target?_eq_none_of_op h)

@[simp]
lemma resolve_resolve (n : NodeId) : g.resolve (g.resolve n) = g.resolve n :=
  S.resolve_of_none (S.target?_resolve n)

lemma resolve_induction {P : NodeId → NodeId → Prop} (root : ∀ n, g.target? n = none → P n n)
    (step : ∀ n m, g.target? n = some m → P m (g.resolve m) → P n (g.resolve m)) (n : NodeId) :
    P n (g.resolve n) := by
  obtain ⟨rank, hr, -⟩ := S.ranked
  induction hk : rank n using Nat.strong_induction_on generalizing n with
  | _ k ih =>
    cases ht : g.target? n with
    | none => rw [S.resolve_of_none ht]; exact root n ht
    | some m =>
      rw [S.resolve_of_target ht]
      exact step n m ht (ih (rank m) (by have := hr n m ht; omega) m rfl)

lemma resolve_lt (h : g.Has n) : (g.resolve n).index < g.nodes.size := by
  refine S.resolve_induction (P := fun a b => g.Has a → g.Has b)
    (fun _ _ h => h) (fun a m ht ih _ => ih ?_) n h
  obtain ⟨ho, hi⟩ := target?_eq_some.1 ht
  obtain ⟨m', hm, hlt⟩ := S.target a ho
  rw [hm] at hi
  cases hi
  exact hlt

end

end Settled

/-! ## Nodes that stand for the same -/

def Same (g : Graph) (a b : NodeId) : Prop := g.resolve a = g.resolve b

lemma Same.refl (g : Graph) (a : NodeId) : g.Same a a := rfl

lemma Same.symm (h : g.Same a b) : g.Same b a := Eq.symm h

lemma Same.trans {c : NodeId} (h : g.Same a b) (h' : g.Same b c) : g.Same a c :=
  Eq.trans h h'

lemma Settled.same_resolve (S : g.Settled) (n : NodeId) : g.Same (g.resolve n) n :=
  S.resolve_resolve n

/-! ## Resolving after an update -/

lemma node_congr (h : g'.nodes = g.nodes) (n : NodeId) : g'.node n = g.node n := by
  simp [node, h]

lemma follow_congr (h : ∀ n, g'.target? n = g.target? n) :
    ∀ (fuel : Nat) (n : NodeId), g'.follow fuel n = g.follow fuel n
  | 0, _ => rfl
  | fuel + 1, n => by
    rw [follow_succ, follow_succ, h]
    cases g.target? n with
    | none => rfl
    | some m => exact follow_congr h fuel m

lemma Settled.congr (S : g.Settled) (hs : g.nodes.size ≤ g'.nodes.size)
    (ht : ∀ n, g'.target? n = g.target? n) (hf : ∀ n, (g'.node n).op = .forward → g'.node n = g.node n) :
    g'.Settled := by
  have hop : ∀ n, (g.node n).op = .forward → (g'.node n).op = .forward := by
    intro n hn
    obtain ⟨m, hm, -⟩ := S.target n hn
    exact (target?_eq_some.1 ((ht n).trans (target?_eq_some.2 ⟨hn, by rw [hm]; rfl⟩))).1
  have hsub : g.forwarding ⊆ g'.forwarding := by
    intro i hi
    simp only [forwarding, Finset.mem_filter, Finset.mem_range] at hi ⊢
    exact ⟨by omega, hop _ hi.2⟩
  obtain ⟨rank, hr, hb⟩ := S.ranked
  refine ⟨⟨rank, fun n m h => hr n m (by rwa [← ht]), fun n => ?_⟩, fun n hn => ?_⟩
  · exact le_trans (hb n) (Finset.card_le_card hsub)
  · have e := hf n hn
    obtain ⟨m, hm, hlt⟩ := S.target n (by rwa [← e]); exact ⟨m, by rw [e, hm], by omega⟩

lemma Settled.resolve_congr (S : g.Settled) (S' : g'.Settled) (ht : ∀ n, g'.target? n = g.target? n)
    (n : NodeId) : g'.resolve n = g.resolve n := by
  refine S.resolve_induction (P := fun a b => g'.resolve a = b) (fun a h => ?_) (fun a m h ih => ?_) n
  · exact S'.resolve_of_none (by rwa [ht])
  · rw [S'.resolve_of_target (by rwa [ht]), ih]

section Add

variable {b : BlockId} {mode : Mode}

lemma target?_add (ho : op ≠ .forward) (n : NodeId) : (g.add b op mode inputs).2.target? n = g.target? n := by
  by_cases h : n.index = g.nodes.size
  · have hn : (g.node n).op ≠ .forward := by rw [node_of_le (by omega)]; simp
    rw [target?_eq_none_of_op hn, target?_eq_none_of_op (by rwa [node_add, if_pos h])]
  · simp [target?, node_add, if_neg h]

lemma Settled.add (S : g.Settled) (ho : op ≠ .forward) : (g.add b op mode inputs).2.Settled := by
  refine S.congr (by simp) (target?_add ho) fun n hn => ?_
  rw [node_add] at hn ⊢
  split at hn
  · exact absurd hn ho
  · rename_i h; rw [if_neg h]

lemma Settled.resolve_add (S : g.Settled) (ho : op ≠ .forward) (n : NodeId) :
    (g.add b op mode inputs).2.resolve n = g.resolve n :=
  S.resolve_congr (S.add ho) (target?_add ho) n

end Add

section SetNode

variable {v : Node}

lemma target?_setNode (hp : (g.node p).op ≠ .forward) (hv : v.op ≠ .forward) (n : NodeId) :
    (g.setNode p v).target? n = g.target? n := by
  by_cases h : n = p
  · subst h
    rw [target?_eq_none_of_op hp, target?_eq_none_of_op]
    rw [node_setNode]
    split
    · exact hv
    · exact hp
  · simp only [target?, node_setNode, h, false_and, if_false]

lemma Settled.setNode (S : g.Settled) (hp : (g.node p).op ≠ .forward) (hv : v.op ≠ .forward) :
    (g.setNode p v).Settled := by
  refine S.congr (by simp) (target?_setNode hp hv) fun n hn => ?_
  rw [node_setNode] at hn ⊢
  split at hn
  · exact absurd hn hv
  · rename_i h; rw [if_neg h]

lemma Settled.resolve_setNode (S : g.Settled) (hp : (g.node p).op ≠ .forward) (hv : v.op ≠ .forward)
    (n : NodeId) : (g.setNode p v).resolve n = g.resolve n :=
  S.resolve_congr (S.setNode hp hv) (target?_setNode hp hv) n

end SetNode

lemma Settled.of_nodes (S : g.Settled) (h : g'.nodes = g.nodes) : g'.Settled :=
  S.congr (by rw [h]) (fun n => by simp [target?, node_congr h]) fun n _ => node_congr h n

lemma resolve_of_nodes (h : g'.nodes = g.nodes) (n : NodeId) : g'.resolve n = g.resolve n := by
  unfold resolve
  rw [h]
  exact follow_congr (fun m => by simp [target?, node_congr h]) _ n

/-! ## Exchange -/

section Exchange

lemma node_exchange (hne : p ≠ w) (hp : g.Has p) (n : NodeId) : (g.exchange p w).node n =
      if n = p then { g.node p with op := .forward, inputs := [w] } else g.node n := by
  rw [exchange, if_neg hne, node_setNode]
  simp [hp]

@[simp]
lemma size_exchange : (g.exchange p w).nodes.size = g.nodes.size := by
  unfold exchange
  split <;> simp

@[simp]
lemma blocks_exchange : (g.exchange p w).blocks = g.blocks := by
  unfold exchange
  split <;> rfl

lemma target?_exchange (hne : p ≠ w) (hp : g.Has p) (n : NodeId) :
    (g.exchange p w).target? n = if n = p then some w else g.target? n := by
  unfold target?
  rw [node_exchange hne hp]
  by_cases h : n = p <;> simp [h]

lemma card_forwarding_exchange (hne : p ≠ w) (hp : g.Has p)
    (ho : (g.node p).op ≠ .forward) : (g.exchange p w).forwarding.card = g.forwarding.card + 1 := by
  have hnot : p.index ∉ g.forwarding := by
    simp only [forwarding, Finset.mem_filter, not_and]; exact fun _ => ho
  rw [← Finset.card_insert_of_notMem hnot]
  congr 1
  ext i
  simp only [forwarding, node_exchange hne hp]
  by_cases h : (⟨i⟩ : NodeId) = p
  · subst h; simp [hp]
  · have hi : i ≠ p.index := fun e => h (by simp_all); simp [h, hi]

variable (S : g.Settled) (hne : p ≠ w) (hp : g.Has p) (hw : g.Has w)
  (hop : (g.node p).op ≠ .forward) (how : (g.node w).op ≠ .forward)

include S hne hp hw hop how

lemma Settled.exchange : (g.exchange p w).Settled := by
  obtain ⟨rank, hr, hb⟩ := S.ranked
  have htw := target?_eq_none_of_op how
  let rank' (n : NodeId) := if n = p then 1 else if (g.target? n).isSome then rank n + 1 else 0
  refine ⟨⟨rank', fun n m h => ?_, fun n => ?_⟩, fun n hn => ?_⟩
  · rw [target?_exchange hne hp] at h
    by_cases hnp : n = p
    · rw [if_pos hnp] at h
      cases h
      simp [rank', hnp, Ne.symm hne, htw]
    · rw [if_neg hnp] at h
      have hlt := hr n m h
      simp only [rank', hnp, if_false, h, Option.isSome_some, if_true]
      split
      · omega
      · split <;> omega
  · rw [card_forwarding_exchange hne hp hop]
    have := hb n
    simp only [rank']
    split
    · omega
    · split <;> omega
  · rw [node_exchange hne hp] at hn ⊢
    by_cases hnp : n = p
    · rw [if_pos hnp]; exact ⟨w, rfl, by simpa using hw⟩
    · rw [if_neg hnp] at hn ⊢
      obtain ⟨m, hm, hlt⟩ := S.target n hn; exact ⟨m, hm, by simpa using hlt⟩

lemma Settled.resolve_exchange (n : NodeId) :
    (g.exchange p w).resolve n = if g.resolve n = p then w else g.resolve n := by
  have S' := S.exchange hne hp hw hop how
  have htw : (g.exchange p w).target? w = none := by
    rw [target?_exchange hne hp, if_neg (Ne.symm hne)]; exact target?_eq_none_of_op how
  refine S.resolve_induction (P := fun a r => (g.exchange p w).resolve a = if r = p then w else r)
    (fun a h => ?_) (fun a m h ih => ?_) n
  · by_cases hap : a = p
    · rw [if_pos hap, S'.resolve_of_target (m := w) (by rw [target?_exchange hne hp, if_pos hap]),
        S'.resolve_of_none htw]
    · rw [if_neg hap]; exact S'.resolve_of_none (by rwa [target?_exchange hne hp, if_neg hap])
  · have hap : a ≠ p := fun e => by simp [e, target?_eq_none_of_op hop] at h
    rw [S'.resolve_of_target (m := m) (by rwa [target?_exchange hne hp, if_neg hap]), ih]

end Exchange

/-! ## Growth -/

/-- Nodes are added, and those that were there stay as they are. -/
structure Extends (g g' : Graph) : Prop where
  size_le : g.nodes.size ≤ g'.nodes.size
  keep : ∀ n : NodeId, n.index < g.nodes.size → g'.node n = g.node n

namespace Extends

variable {g'' : Graph}

lemma refl (g : Graph) : g.Extends g := ⟨le_refl _, fun _ _ => rfl⟩

lemma trans (E : g.Extends g') (E' : g'.Extends g'') : g.Extends g'' :=
  ⟨le_trans E.size_le E'.size_le, fun n hn => (E'.keep n (lt_of_lt_of_le hn E.size_le)).trans (E.keep n hn)⟩

lemma of_nodes (h : g'.nodes = g.nodes) : g.Extends g' := ⟨by rw [h], fun n _ => node_congr h n⟩

lemma add (g : Graph) (b : BlockId) (op : Op) (mode : Mode) (inputs : List NodeId) :
    g.Extends (g.add b op mode inputs).2 :=
  ⟨by simp, fun n hn => by rw [node_add, if_neg (by omega)]⟩

lemma keep_of_op (E : g.Extends g') (h : (g.node n).op = op) (hb : op ≠ .bad := by simp) : g'.node n = g.node n :=
  E.keep n (lt_of_op_eq h hb)

/-- What holds of all nodes that are new, first some and then others. -/
lemma fresh {P : Node → Prop} (E : g'.Extends g'')
    (h : ∀ n, g.nodes.size ≤ n.index → g'.Has n → P (g'.node n))
    (h' : ∀ n, g'.nodes.size ≤ n.index → g''.Has n → P (g''.node n)) (n : NodeId)
    (h1 : g.nodes.size ≤ n.index) (h2 : g''.Has n) : P (g''.node n) := by
  by_cases hn : g'.Has n
  · rw [E.keep n hn]; exact h n h1 hn
  · exact h' n (by omega) h2

end Extends

/-! While a graph is built, nodes are added, and a Phi without operands gets its operands or is replaced.
All other nodes stay as they are. -/

structure Grows (g g' : Graph) : Prop where
  size_le : g.nodes.size ≤ g'.nodes.size
  keep : ∀ n : NodeId, n.index < g.nodes.size → (g.node n).op ≠ .phi ∨ (g.node n).inputs ≠ [] →
    g'.node n = g.node n
  block : ∀ n : NodeId, n.index < g.nodes.size → (g'.node n).block = (g.node n).block
  phi : ∀ n : NodeId, n.index < g.nodes.size → (g.node n).op = .phi →
    (g'.node n).op = .phi ∨ (g'.node n).op = .forward
  same : ∀ a b, g.Same a b → g'.Same a b

namespace Grows

lemma of_extends (E : g.Extends g') (hr : ∀ n, g'.resolve n = g.resolve n) : g.Grows g' :=
  ⟨E.size_le, fun n h _ => E.keep n h, fun n h => by rw [E.keep n h],
    fun n h hp => .inl (by rwa [E.keep n h]), fun a b hs => (hr a).trans (.trans hs (hr b).symm)⟩

lemma refl (g : Graph) : g.Grows g := of_extends (.refl g) fun _ => rfl

lemma of_nodes (h : g'.nodes = g.nodes) : g.Grows g' := of_extends (.of_nodes h) (resolve_of_nodes h)

lemma add (S : g.Settled) {b : BlockId} {mode : Mode} (ho : op ≠ .forward) : g.Grows (g.add b op mode inputs).2 :=
  of_extends (.add g b op mode inputs) (S.resolve_add ho)

lemma fill (S : g.Settled) (hp : (g.node p).op = .phi) (hi : (g.node p).inputs = []) (inputs : List NodeId) :
    g.Grows (g.setNode p { g.node p with inputs }) := by
  have hf : (g.node p).op ≠ .forward := by simp [hp]
  refine ⟨by simp, fun n _ hk => ?_, fun n _ => ?_, fun n _ h => .inl ?_, fun a c hs => ?_⟩
  · rw [node_setNode, if_neg]
    rintro ⟨rfl, -⟩
    rcases hk with hk | hk
    · exact hk hp
    · exact hk hi
  · rw [node_setNode]
    split
    · rename_i e; rw [e.1]
    · rfl
  · rw [node_setNode]
    split
    · exact hp
    · exact h
  · have hr := fun n => S.resolve_setNode (v := { g.node p with inputs }) hf hf n
    exact (hr a).trans (.trans hs (hr c).symm)

lemma trans {g'' : Graph} (G : g.Grows g') (G' : g'.Grows g'') : g.Grows g'' := by
  have hs := G.size_le
  refine ⟨le_trans hs G'.size_le, fun n h hk => ?_, fun n h => ?_, fun n h hp => ?_,
    fun a b h => G'.same a b (G.same a b h)⟩
  · have e := G.keep n h hk; rw [G'.keep n (by omega) (by rwa [e]), e]
  · rw [G'.block n (by omega), G.block n h]
  · rcases G.phi n h hp with h' | h'
    · exact G'.phi n (by omega) h'
    · exact .inr (by rw [G'.keep n (by omega) (.inl (by simp [h'])), h'])

/-- A Phi that had no operands is replaced, after it got some or not. -/
lemma exchange (G : g.Grows g') (S' : g'.Settled) (hp : (g.node p).op = .phi)
    (hi : (g.node p).inputs = []) (hp' : (g'.node p).op = .phi) (hlt : g'.Has p) (hne : p ≠ w)
    (hw : g'.Has w) (hwf : (g'.node w).op ≠ .forward) : g.Grows (g'.exchange p w) := by
  have hn := node_exchange (g := g') hne hlt
  refine ⟨by simpa using G.size_le, fun n h hk => ?_, fun n h => ?_, fun n h hop => ?_, fun a b h => ?_⟩
  · have hnp : n ≠ p := by
      rintro rfl
      rcases hk with hk | hk
      · exact hk hp
      · exact hk hi
    rw [hn, if_neg hnp, G.keep n h hk]
  · rw [hn, ← G.block n h]
    split
    · rename_i e; rw [e]
    · rfl
  · rw [hn]
    split
    · exact .inr rfl
    · exact G.phi n h hop
  · have hr := S'.resolve_exchange hne hlt hw (by simp [hp']) hwf
    unfold Same
    rw [hr, hr, G.same a b h]

lemma resolve_of_keep (G : g.Grows g') (S' : g'.Settled) (hn : g.Has n)
    (ho : (g.node n).op ≠ .phi) (hf : (g.node n).op ≠ .forward) : g'.resolve n = n :=
  S'.resolve_of_op (by rwa [G.keep n hn (.inl ho)])

end Grows

/-! ## What a Phi merges -/

lemma mergeOf_cons_none (g : Graph) (phi n : NodeId) (rest : List NodeId) : g.mergeOf phi none (n :: rest) =
      if g.resolve n = phi then g.mergeOf phi none rest else g.mergeOf phi (some (g.resolve n)) rest := rfl

lemma mergeOf_cons_some (g : Graph) (phi met n : NodeId) (rest : List NodeId) : g.mergeOf phi (some met) (n :: rest) =
      if g.resolve n = phi then g.mergeOf phi (some met) rest
      else if g.resolve n = met then g.mergeOf phi (some met) rest else .several := rfl

lemma mergeOf_some (g : Graph) (phi met : NodeId) : ∀ inputs, g.mergeOf phi (some met) inputs =
    if ∀ i ∈ inputs, g.resolve i = phi ∨ g.resolve i = met then .single met else .several
  | [] => by simp [mergeOf]
  | n :: rest => by
    rw [mergeOf_cons_some, mergeOf_some g phi met rest]
    by_cases h1 : g.resolve n = phi
    · simp [h1]
    · by_cases h2 : g.resolve n = met <;> simp [h1, h2]

lemma mergeOf_nothing : ∀ {inputs : List NodeId}, g.mergeOf phi none inputs = .nothing → ∀ i ∈ inputs, g.resolve i = phi
  | [], _ => by simp
  | n :: rest, h => by
    rw [mergeOf_cons_none, mergeOf_some] at h
    split at h
    · rename_i hn; exact forall_mem_cons.2 ⟨hn, mergeOf_nothing h⟩
    · split at h <;> cases h

lemma mergeOf_single : ∀ {inputs : List NodeId}, g.mergeOf phi none inputs = .single w ↔
    w ≠ phi ∧ (∃ i ∈ inputs, g.resolve i = w) ∧ ∀ i ∈ inputs, g.resolve i = phi ∨ g.resolve i = w
  | [] => by simp [mergeOf]
  | n :: rest => by
    rw [mergeOf_cons_none, mergeOf_some]
    by_cases hn : g.resolve n = phi
    · rw [if_pos hn, mergeOf_single]
      simp only [exists_mem_cons_iff, forall_mem_cons, hn, true_or, true_and]
      exact and_congr_right fun hw => and_congr_left fun _ => (or_iff_right (Ne.symm hw)).symm
    · rw [if_neg hn]
      constructor
      · intro h
        split at h
        · cases h
          exact ⟨hn, ⟨n, mem_cons_self, rfl⟩, forall_mem_cons.2 ⟨.inr rfl, ‹_›⟩⟩
        · cases h
      · rintro ⟨-, -, hall⟩
        obtain ⟨h, hall⟩ := forall_mem_cons.1 hall
        obtain rfl := h.resolve_left hn
        rw [if_pos hall]

lemma length_of_mergeOf_several (h : g.mergeOf phi none inputs = .several) : 1 < inputs.length := by
  match inputs, h with
  | [n], h =>
    rw [mergeOf_cons_none] at h
    split at h <;> cases h
  | _ :: _ :: _, _ => simp

/-! ## Replacing a Phi that has its operands -/

lemma exchange_setNode (g : Graph) (hne : p ≠ w) (hp : g.Has p) (inputs : List NodeId) :
    (g.setNode p { g.node p with inputs }).exchange p w = g.exchange p w := by
  have hself : (g.setNode p { g.node p with inputs }).node p = { g.node p with inputs } := by
    rw [node_setNode, if_pos ⟨rfl, hp⟩]
  rw [exchange, if_neg hne, exchange, if_neg hne, hself]
  simp [setNode]

lemma setNode_add (g : Graph) (v : Node) (hp : p.index < g.nodes.size) (b : BlockId) (op : Op)
    (mode : Mode) (inputs : List NodeId) :
    ((g.setNode p v).add b op mode inputs).2 = (g.add b op mode inputs).2.setNode p v := by
  simp only [setNode, add, mk.injEq, true_and, and_true]
  refine ext_getElem? fun i => ?_
  simp only [getElem?_push, getElem?_setIfInBounds]
  by_cases hi : i = g.nodes.size
  · have hne : p.index ≠ i := by omega
    simp [hi, hi ▸ hne]
  · by_cases hpi : p.index = i
    · simp [hi, hpi, hpi ▸ hp, Nat.lt_succ_of_lt (hpi ▸ hp)]
    · simp [hpi]

end JvmGraph.Graph
