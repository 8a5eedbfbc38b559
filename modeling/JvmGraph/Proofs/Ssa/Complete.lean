import JvmGraph.Proofs.Graph.Pruning
import JvmGraph.Proofs.Ssa.Flow

/-!
# Complete graphs are proper

Once all blocks are matured, what is at hand in a block is computed on every walk to it: it lies there or in
the start block, or it is an entry, and entries were computed before. So nodes use what is
available, and the operands of a Phi are available in the predecessors.
-/

namespace JvmGraph.Ssa

open JvmGraph.Graph (Walk)

variable {n : NodeId} {b : BlockId} {x : Var}

variable {s : Builder} {T : Record}

lemma AtHand.on {w : Walk} (h : AtHand s T w.last n) (F : Finished s T) (S : Strict s T .idle)
    (hentry : ∀ x, True → ∀ m, T.entry w.last x = some m → On s w m) : On s w n := by
  by_cases hf : (s.graph.node n).op = .forward
  · -- an alias of an entry of its own block
    obtain ⟨x, m, hm, hs⟩ := (S.node_ok n).alias_ok (.inr hf)
    rcases h.2 with hb | hb | ⟨y, m', hm', hs'⟩
    · rw [hb] at hm; exact (hentry x trivial m hm).same hs.symm
    · rw [hb] at hm
      unfold On
      rw [show s.graph.resolve n = s.graph.resolve m from hs, (F.unknown_of_start hm).2]
      exact Walk.start_mem_blocks w
    · exact (hentry y trivial m' hm').same hs'.symm
  · rcases h.2 with hb | hb | ⟨y, m, hm, hs⟩
    · unfold On; rw [F.shape.settled.resolve_of_op hf, hb]; exact Walk.last_mem_blocks w
    · unfold On; rw [F.shape.settled.resolve_of_op hf, hb]; exact Walk.start_mem_blocks w
    · exact (hentry y trivial m hm).same hs.symm

lemma Finished.writesOn (F : Finished s T) (S : Strict s T .idle) : WritesOn s T fun _ => True :=
  fun _ _ hentry x _ v hv => (S.written_ok _ x v hv).on F S hentry

section

variable (F : Finished s T) (S : Strict s T .idle)
    (hs : ∀ n, (s.graph.node n).op = .phi → (s.graph.node n).block ≠ Graph.startBlock)

include F S hs

lemma Finished.avail_atHand (h : AtHand s T b n) : s.graph.Avail b n := by
  rintro w hw rfl
  exact .of_mem (h.on F S (F.on_entry (F.writesOn S) hw)) (hs _)

lemma Finished.avail_holds (h : s.Holds b x n) : s.graph.Avail b n := by
  rintro w hw rfl
  exact .of_mem (F.on_holds (F.writesOn S) trivial hw h) (hs _)

end

lemma Builder.Holds.lt (h : s.Holds b x n) (Sh : Shape s) (D : Defined s T) : s.graph.Has n := by
  obtain ⟨m, hm, hs⟩ := h
  have hlt := Sh.settled.resolve_lt (D.def_lt b x m hm)
  rw [show s.graph.resolve m = s.graph.resolve n from hs] at hlt
  by_contra hn
  have hop : (s.graph.node n).op ≠ .forward := by simp [Graph.node_of_le (not_lt.1 hn)]
  rw [Sh.settled.resolve_of_op hop] at hlt
  exact hn hlt

section

variable (I : Inv True s T .idle) (hm : ∀ b : BlockId, s.graph.HasBlock b → s.isMatured b = true)

include I hm

lemma Inv.merged (hn : (s.graph.node n).op = .phi) : ∃ x, Merged s x n := by
  rcases ((I.strictly trivial).node_ok n).phi_ok hn with hw | ⟨-, h⟩
  · obtain ⟨x, hx⟩ := Option.isSome_iff_exists.1 hw
    have hmem := (I.entered.incomplete_iff _ x n).2 ⟨hx, rfl, id⟩
    simp [I.entered.matured_incomplete _ (hm _ (I.shape.node_block n))] at hmem
  · exact h

lemma Inv.start_phi (n : NodeId) (hp : (s.graph.node n).op = .phi) : (s.graph.node n).block ≠ Graph.startBlock := by
  intro hb
  obtain ⟨x, hM⟩ := I.merged hm hp
  have hlen := hM.several
  rw [hb, I.shape.start_preds] at hlen
  cases hlen

lemma Inv.input_lt (n i : NodeId) (hi : i ∈ (s.graph.node n).inputs) : s.graph.Has i := by
  by_cases hp : (s.graph.node n).op = .phi
  · obtain ⟨x, hM⟩ := I.merged hm hp
    obtain ⟨k, hk, rfl⟩ := List.getElem_of_mem hi
    exact (hM.operands.get hk (hM.operands.length_eq ▸ hk)).lt I.shape I.defined
  · by_cases hf : (s.graph.node n).op = .forward
    · obtain ⟨m, hm', hlt⟩ := I.shape.settled.target n hf
      rw [hm', List.mem_singleton] at hi; rwa [hi]
    · exact (((I.strictly trivial).node_ok n).input_ok hp hf i hi).1

lemma Inv.unpruned (hd : ∀ b, (s.graph.block b).dead = false) : s.graph.Unpruned := by
  have F := I.finished hm
  have S := I.strictly trivial
  have hs := I.start_phi hm
  have harity : ∀ n, (s.graph.node n).op = .phi →
      (s.graph.node n).inputs.length = (s.graph.block (s.graph.node n).block).preds.length := fun n ho => by
    obtain ⟨x, hM⟩ := I.merged hm ho; exact hM.operands.length_eq
  refine ⟨⟨⟨I.shape.settled, fun b e he => ?_, fun n ho _ => harity n ho, fun n ho k i e hi he => ?_⟩,
    fun n hp hf i hi => F.avail_atHand S hs ((S.node_ok n).input_ok hp hf i hi)⟩,
    ⟨⟨I.shape.blocks_pos, I.shape.node_block⟩, hd, fun n ho _ => harity n ho⟩, fun n => (S.node_ok n).not_end, hs,
    I.shape.pred_ok, fun n _ => I.input_lt hm n⟩
  · obtain ⟨-, hp, hf⟩ := I.shape.pred_ok b e he; rwa [I.shape.settled.resolve_of_op hf]
  · obtain ⟨x, hM⟩ := I.merged hm ho
    obtain ⟨hk, rfl⟩ := List.getElem?_eq_some_iff.1 hi
    obtain ⟨hk', rfl⟩ := List.getElem?_eq_some_iff.1 he
    exact F.avail_holds S hs (hM.operands.get hk hk')

end

end JvmGraph.Ssa
