import JvmGraph.Proofs.Graph.Forwarding

/-!
# Walks through a graph

Control starts in the start block and goes from block to block along the predecessor lists. A walk keeps
the blocks that were entered, the last one first, each with the position of the predecessor that it was
entered through: that position selects the operand of the Phis of the block.
-/

namespace JvmGraph.Graph

open List

/-- The blocks entered after the start block, the last one first, each with the position of the
predecessor it was entered through. -/
abbrev Walk := List (BlockId × Nat)

namespace Walk

def last : Walk → BlockId
  | [] => startBlock
  | (b, _) :: _ => b

def blocks (w : Walk) : List BlockId := w.map Prod.fst ++ [startBlock]

lemma last_mem_blocks (w : Walk) : w.last ∈ w.blocks := by cases w <;> simp [last, blocks]

lemma start_mem_blocks (w : Walk) : startBlock ∈ w.blocks := by simp [blocks]

lemma blocks_cons (b : BlockId) (k : Nat) (w : Walk) : blocks ((b, k) :: w) = b :: w.blocks := rfl

end Walk

/-- Each block is entered through a predecessor that comes from the block before it. -/
def IsWalk (g : Graph) : Walk → Prop
  | [] => True
  | (b, k) :: w => (g.block b).preds[k]?.map g.predBlock = some (Walk.last w) ∧ IsWalk g w

instance (g : Graph) : (w : Walk) → Decidable (g.IsWalk w)
  | [] => inferInstanceAs (Decidable True)
  | (_, _) :: w =>
    have := instDecidableIsWalk g w
    inferInstanceAs (Decidable (_ ∧ _))

variable {g : Graph} {w : Walk} {k : Nat} {n m : NodeId} {b : BlockId} {w' : Walk}

lemma IsWalk.edge (h : g.IsWalk ((b, k) :: w)) : ∃ e, (g.block b).preds[k]? = some e ∧ g.predBlock e = w.last := by
  have := h.1
  rwa [Option.map_eq_some_iff] at this

lemma IsWalk.of_suffix (hw : g.IsWalk w) (h : w' <:+ w) : g.IsWalk w' := by
  induction w with
  | nil =>
    rw [suffix_nil.1 h]
    trivial
  | cons s w ih =>
    rcases suffix_cons_iff.1 h with rfl | h
    · exact hw
    · exact ih hw.2 h

lemma Walk.first_entry : ∀ {w : Walk}, b ∈ w.map Prod.fst → ∃ k w', (b, k) :: w' <:+ w ∧ b ∉ w'.map Prod.fst
  | (c, k) :: w, hmem => by
    by_cases hw : b ∈ w.map Prod.fst
    · obtain ⟨j, w', h1, h2⟩ := first_entry hw; exact ⟨j, w', h1.trans (suffix_cons _ _), h2⟩
    · obtain rfl := (mem_cons.1 hmem).resolve_right hw; exact ⟨k, w, suffix_refl _, hw⟩

lemma Walk.blocks_subset (h : w' <:+ w) : w'.blocks ⊆ w.blocks := by
  intro c hc
  rcases mem_append.1 hc with hc | hc
  · exact mem_append_left _ ((h.map _).subset hc)
  · exact mem_append_right _ hc

lemma IsWalk.first_visit (hb : b ≠ startBlock) (hw : g.IsWalk w) (hmem : b ∈ w.blocks) :
    ∃ (k : Nat) (w' : Walk), g.IsWalk ((b, k) :: w') ∧ b ∉ w'.blocks ∧ ∀ c ∈ w'.blocks, c ∈ w.blocks := by
  have hout : ∀ v : Walk, b ∈ v.blocks ↔ b ∈ v.map Prod.fst := fun v => by simp [Walk.blocks, hb]
  obtain ⟨k, w', h1, h2⟩ := Walk.first_entry ((hout w).1 hmem)
  exact ⟨k, w', hw.of_suffix h1, mt (hout w').1 h2, Walk.blocks_subset ((suffix_cons _ _).trans h1)⟩

/-- The node that a value comes from on a walk: every Phi takes the operand of the predecessor through which
its block was last entered. -/
def valueOn (g : Graph) : Walk → NodeId → NodeId
  | [], n => g.resolve n
  | (b, k) :: w, n =>
    let m := g.resolve n
    if (g.node m).op = .phi then
      if (g.node m).block = b then (g.node m).inputs[k]?.elim m (g.valueOn w) else g.valueOn w m
    else m

lemma valueOn_congr (h : g.Same n m) : g.valueOn w n = g.valueOn w m := by
  have h' : g.resolve n = g.resolve m := h
  cases w with
  | nil => exact h
  | cons e w => simp [valueOn, h']

lemma valueOn_of_op (w : Walk) (h : (g.node (g.resolve n)).op ≠ .phi) : g.valueOn w n = g.resolve n := by
  cases w with
  | nil => rfl
  | cons e w => simp [valueOn, if_neg h]

lemma valueOn_phi {i : NodeId} (ho : (g.node (g.resolve n)).op = .phi) (hb : (g.node (g.resolve n)).block = b)
    (hi : (g.node (g.resolve n)).inputs[k]? = some i) : g.valueOn ((b, k) :: w) n = g.valueOn w i := by
  simp [valueOn, if_pos ho, if_pos hb, hi]

lemma Settled.valueOn_back (S : g.Settled)
    (hb : (g.node (g.resolve n)).block ≠ b) : g.valueOn ((b, k) :: w) n = g.valueOn w n := by
  by_cases ho : (g.node (g.resolve n)).op = .phi
  · simp only [valueOn, if_pos ho, if_neg hb]; exact valueOn_congr (S.same_resolve n)
  · rw [valueOn_of_op _ ho, valueOn_of_op _ ho]

/-- The computation that a value comes from on a walk: a node that is no Phi, with the walk up to where it was
computed last. -/
def source (g : Graph) : Walk → NodeId → NodeId × Walk
  | [], n => (g.resolve n, [])
  | (b, k) :: w, n =>
    let m := g.resolve n
    if (g.node m).block = b then
      if (g.node m).op = .phi then (g.node m).inputs[k]?.elim (m, (b, k) :: w) (g.source w) else (m, (b, k) :: w)
    else g.source w m

lemma source_congr (h : g.Same n m) : g.source w n = g.source w m := by
  have h' : g.resolve n = g.resolve m := h
  cases w with
  | nil => simp [source, h']
  | cons e w => simp [source, h']

/-- When the Phis are followed back along a walk from `n`, a node is met for which `P` holds. -/
inductive Leads (g : Graph) (P : NodeId → Prop) : Walk → NodeId → Prop
  | here {w : Walk} {n : NodeId} (h : P (g.resolve n)) : Leads g P w n
  | phi {b : BlockId} {k : Nat} {w : Walk} {n i : NodeId} (op : (g.node (g.resolve n)).op = .phi)
      (block : (g.node (g.resolve n)).block = b) (operand : (g.node (g.resolve n)).inputs[k]? = some i)
      (rest : Leads g P w i) : Leads g P ((b, k) :: w) n
  | back {b : BlockId} {k : Nat} {w : Walk} {n : NodeId} (block : (g.node (g.resolve n)).block ≠ b)
      (rest : Leads g P w n) : Leads g P ((b, k) :: w) n

namespace Leads

variable {P : NodeId → Prop}

lemma congr (h : g.Same n m) (hl : g.Leads P w n) : g.Leads P w m := by
  induction hl generalizing m with
  | here hs => exact .here (Eq.subst h hs)
  | phi ho hb hi hr => rw [h] at ho hb hi; exact .phi ho hb hi hr
  | back hb _ ih => rw [h] at hb; exact .back hb (ih h)

lemma valueOn (hl : g.Leads P w n) (S : g.Settled) (hP : ∀ m, P m → (g.node m).op ≠ .phi) : P (g.valueOn w n) := by
  induction hl with
  | here h => rwa [valueOn_of_op _ (hP _ h)]
  | phi ho hb hi _ ih => rwa [valueOn_phi ho hb hi]
  | back hb _ ih => rwa [S.valueOn_back hb]

end Leads

end JvmGraph.Graph
