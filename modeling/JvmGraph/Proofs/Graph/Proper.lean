import JvmGraph.Graph.Normalize
import JvmGraph.Proofs.Graph.Walk

/-!
# Proper graphs and what normalising does to them

In a proper graph every value is computed before it is used, on every walk: the inputs of a node on every walk
to its block, an operand of a Phi on every walk to the predecessor it belongs to.
Normalising replaces Phis that merge a single value. That keeps a graph proper and leaves what is available to come
from the same computations: the value that the Phi merges was computed before the block of the Phi was first entered,
so it is not computed anew while the Phi is available.
-/

namespace JvmGraph.Graph

open List

variable {b : BlockId} {n : NodeId} {w : Walk} {e m i : NodeId}

def Reached (g : Graph) (b : BlockId) : Prop := ∃ w : Walk, g.IsWalk w ∧ w.last = b

/-- What `n` stands for has been computed on a walk. Phis are computed when their block is entered through an edge. -/
def Computed (g : Graph) (w : Walk) (n : NodeId) : Prop :=
  (g.node (g.resolve n)).block ∈ if (g.node (g.resolve n)).op = .phi then w.map Prod.fst else w.blocks

/-- What `n` stands for is computed on every walk to `b`. -/
def Avail (g : Graph) (b : BlockId) (n : NodeId) : Prop := ∀ w : Walk, g.IsWalk w → w.last = b → g.Computed w n

/-- Phis have an operand for every predecessor of their block, which is computed on every walk to it. -/
structure Merging (g : Graph) : Prop where
  settled : g.Settled
  pred_op : ∀ b, ∀ e ∈ (g.block b).preds, (g.node (g.resolve e)).op ≠ .phi
  arity : ∀ n, (g.node n).op = .phi → g.Reached (g.node n).block →
    (g.node n).inputs.length = (g.block (g.node n).block).preds.length
  operands : ∀ n, (g.node n).op = .phi → ∀ (k : Nat) (i e : NodeId), (g.node n).inputs[k]? = some i →
    (g.block (g.node n).block).preds[k]? = some e → g.Avail (g.predBlock e) i

/-- What other nodes use is computed on every walk to their block as well. -/
structure Proper (g : Graph) : Prop extends g.Merging where
  uses : ∀ n, (g.node n).op ≠ .phi → (g.node n).op ≠ .forward →
    ∀ i ∈ (g.node n).inputs, g.Avail (g.node n).block i

section Lemmas

variable {g : Graph} {k : Nat}

lemma Reached.edge (hr : g.Reached (g.predBlock e)) (he : e ∈ (g.block b).preds) : g.Reached b := by
  obtain ⟨k, hk, rfl⟩ := getElem_of_mem he
  obtain ⟨w, hw, hlast⟩ := hr
  exact ⟨(b, k) :: w, ⟨by rw [List.getElem?_eq_getElem hk, Option.map_some, hlast], hw⟩, rfl⟩

namespace Computed

lemma congr (h : g.Same n m) (hc : g.Computed w n) : g.Computed w m := by
  unfold Computed
  rwa [← show g.resolve n = g.resolve m from h]

lemma mem_blocks (h : g.Computed w n) : (g.node (g.resolve n)).block ∈ w.blocks := by
  unfold Computed at h
  split at h
  · exact mem_append_left _ h
  · exact h

lemma of_mem (h : (g.node (g.resolve n)).block ∈ w.blocks)
    (hs : (g.node (g.resolve n)).op = .phi → (g.node (g.resolve n)).block ≠ startBlock) : g.Computed w n := by
  unfold Computed
  split
  · rename_i ho; exact (mem_append.1 h).resolve_right fun h => hs ho (mem_singleton.1 h)
  · exact h

lemma of_suffix {w' : Walk} (h : g.Computed w' n) (hs : w' <:+ w) : g.Computed w n := by
  unfold Computed at h ⊢
  by_cases ho : (g.node (g.resolve n)).op = .phi
  · rw [if_pos ho] at h ⊢; exact (hs.map _).subset h
  · rw [if_neg ho] at h ⊢; exact Walk.blocks_subset hs h

lemma back (h : g.Computed ((b, k) :: w) n) (hb : (g.node (g.resolve n)).block ≠ b) : g.Computed w n := by
  unfold Computed at h ⊢
  by_cases ho : (g.node (g.resolve n)).op = .phi
  · rw [if_pos ho] at h ⊢; exact (mem_cons.1 h).resolve_left hb
  · rw [if_neg ho] at h ⊢; exact (mem_cons.1 h).resolve_left hb

end Computed

lemma Avail.congr (h : g.Same n m) (ha : g.Avail b n) : g.Avail b m :=
  fun w hw hlast => (ha w hw hlast).congr h

lemma Avail.back (ha : g.Avail b n) (hw : g.IsWalk ((b, k) :: w)) (hb : (g.node (g.resolve n)).block ≠ b) :
    g.Avail w.last n :=
  fun w' hw' hlast => (ha ((b, k) :: w') ⟨by rw [hw.1, hlast], hw'⟩ rfl).back hb

lemma Merging.avail_operand (G : g.Merging) (ho : (g.node n).op = .phi)
    (hi : (g.node n).inputs[k]? = some i) (hw : g.IsWalk (((g.node n).block, k) :: w)) : g.Avail w.last i := by
  obtain ⟨e, he, hlast⟩ := hw.edge
  rw [← hlast]
  exact G.operands n ho k i e hi he

end Lemmas

/-! ## Replacing a Phi that merges one value -/

lemma exchange_block (g : Graph) (p v : NodeId) (b : BlockId) : (g.exchange p v).block b = g.block b := by
  simp [block]

/-- A Phi all of whose operands stand for it or for `v`. -/
structure Trivial (g : Graph) (p v : NodeId) : Prop where
  op : (g.node p).op = .phi
  merge : g.merge p = .single v
  value_lt : v.index < g.nodes.size

namespace Trivial

variable {g : Graph} {p v : NodeId}

section

variable (t : g.Trivial p v)

include t

lemma lt : g.Has p := lt_of_op_eq t.op

lemma ne : p ≠ v := Ne.symm (mergeOf_single.1 t.merge).1

lemma node_exchange (hn : n ≠ p) : (g.exchange p v).node n = g.node n := by
  rw [Graph.node_exchange t.ne t.lt, if_neg hn]

lemma block_exchange (n : NodeId) : ((g.exchange p v).node n).block = (g.node n).block := by
  rw [Graph.node_exchange t.ne t.lt]
  split
  · rename_i h; rw [h]
  · rfl

lemma ne_of_phi (h : ((g.exchange p v).node n).op = .phi) : n ≠ p := by
  rintro rfl
  simp [Graph.node_exchange t.ne t.lt] at h

section

variable (S : g.Settled)

include S

lemma root : (g.node v).op ≠ .forward := by
  obtain ⟨-, ⟨i, -, rfl⟩, -⟩ := mergeOf_single.1 t.merge
  exact S.op_resolve i

lemma resolve_phi : g.resolve p = p := S.resolve_of_op (by simp [t.op])

lemma settled : (g.exchange p v).Settled := S.exchange t.ne t.lt t.value_lt (by simp [t.op]) (t.root S)

lemma resolve_exchange (n : NodeId) : (g.exchange p v).resolve n = if g.resolve n = p then v else g.resolve n :=
  S.resolve_exchange t.ne t.lt t.value_lt (by simp [t.op]) (t.root S) n

lemma same_exchange (hi : i ∈ (g.node p).inputs) : (g.exchange p v).Same i p := by
  show (g.exchange p v).resolve _ = (g.exchange p v).resolve p
  rw [t.resolve_exchange S, t.resolve_exchange S, t.resolve_phi S, if_pos rfl]
  rcases (mergeOf_single.1 t.merge).2.2 i hi with h | h
  · rw [if_pos h]
  · rw [h, if_neg (Ne.symm t.ne)]

end

variable (G : g.Merging)

include G

lemma operand {k : Nat} (hw : g.IsWalk (((g.node p).block, k) :: w)) :
    ∃ i, (g.node p).inputs[k]? = some i ∧ (g.resolve i = p ∨ g.resolve i = v) ∧ g.Avail w.last i := by
  obtain ⟨e, he, -⟩ := hw.edge
  obtain ⟨hk, -⟩ := List.getElem?_eq_some_iff.1 he
  have hk' : k < (g.node p).inputs.length := by rwa [G.arity p t.op ⟨_, hw, rfl⟩]
  have hi := List.getElem?_eq_getElem hk'
  exact ⟨_, hi, (mergeOf_single.1 t.merge).2.2 _ (getElem_mem hk'), G.avail_operand t.op hi hw⟩

/-- When the block of the Phi was first entered, the value that it merges had been computed. -/
lemma first_entry (hw : g.IsWalk w) (hp : g.Computed w p) :
    ∃ k w0, ((g.node p).block, k) :: w0 <:+ w ∧ g.Computed w0 v := by
  unfold Computed at hp
  rw [t.resolve_phi G.settled, if_pos t.op] at hp
  obtain ⟨k, w0, hs, hnot⟩ := Walk.first_entry hp
  have h0 := hw.of_suffix hs
  obtain ⟨i, -, hi, ha⟩ := t.operand G h0
  have hc := ha w0 h0.2 rfl
  rcases hi with hi | hi
  · unfold Computed at hc; rw [hi, if_pos t.op] at hc; exact absurd hc hnot
  · exact ⟨k, w0, hs, hc.congr (hi.trans (G.settled.resolve_of_op (t.root G.settled)).symm)⟩

lemma computed (hw : g.IsWalk w) (hp : g.Computed w p) : g.Computed w v := by
  obtain ⟨k, w0, hs, hc⟩ := t.first_entry G hw hp
  exact hc.of_suffix ((suffix_cons _ _).trans hs)

/-- Where the Phi is available, the value that it merges is not computed anew. -/
lemma apart (hr : g.Reached b) (ha : g.Avail b p) : (g.node v).block ≠ b := by
  have hphi : ∀ w, g.Computed w p ↔ (g.node p).block ∈ w.map Prod.fst := fun w => by
    rw [Computed, t.resolve_phi G.settled, if_pos t.op]
  obtain ⟨w, hw, hlast⟩ := hr
  -- the Phi is not computed before an edge is walked, so that `b` is not the start block
  have hstart : b ≠ startBlock := fun h => by simpa [hphi] using ha [] trivial h.symm
  have hmem : b ∈ w.map Prod.fst := by
    cases w with
    | nil => exact absurd hlast.symm hstart
    | cons s w => exact hlast ▸ mem_cons_self
  obtain ⟨k, w1, hs, hnot⟩ := Walk.first_entry hmem
  have h1 := hw.of_suffix hs
  obtain ⟨j, w0, hs0, hc⟩ := t.first_entry G h1 (ha _ h1 rfl)
  have hs1 : w0 <:+ w1 := by
    rcases suffix_cons_iff.1 hs0 with h | h
    · cases h
      exact suffix_refl _
    · exact (suffix_cons _ _).trans h
  have hv := (hc.of_suffix hs1).mem_blocks
  rw [G.settled.resolve_of_op (t.root G.settled)] at hv
  rintro rfl
  rcases mem_append.1 hv with h | h
  · exact hnot h
  · exact hstart (mem_singleton.1 h)

lemma predBlock_exchange (he : e ∈ (g.block b).preds) : (g.exchange p v).predBlock e = g.predBlock e := by
  have hne : g.resolve e ≠ p := fun h => G.pred_op b e he (h ▸ t.op)
  unfold predBlock
  rw [t.resolve_exchange G.settled, if_neg hne, t.node_exchange hne]

end

lemma isWalk_exchange (t : g.Trivial p v) (G : g.Merging) : ∀ {w : Walk}, (g.exchange p v).IsWalk w ↔ g.IsWalk w
  | [] => Iff.rfl
  | (b, k) :: w => by
    have hw := t.isWalk_exchange G (w := w)
    refine and_congr ?_ hw
    rw [exchange_block]
    cases he : (g.block b).preds[k]? with
    | none => simp
    | some e => rw [Option.map_some, Option.map_some, t.predBlock_exchange G (mem_of_getElem? he)]

section

variable (t : g.Trivial p v) (G : g.Merging)

include t G

lemma computed_exchange (hw : g.IsWalk w) (h : g.Computed w n) : (g.exchange p v).Computed w n := by
  unfold Computed
  rw [t.resolve_exchange G.settled]
  by_cases hr : g.resolve n = p
  · have hv := t.computed G hw (h.congr (hr.trans (t.resolve_phi G.settled).symm))
    rw [if_pos hr, t.node_exchange (Ne.symm t.ne)]
    unfold Computed at hv; rwa [G.settled.resolve_of_op (t.root G.settled)] at hv
  · rwa [if_neg hr, t.node_exchange hr]

lemma avail_exchange (h : g.Avail b n) : (g.exchange p v).Avail b n := fun w hw hlast =>
  have hw := (t.isWalk_exchange G).1 hw
  t.computed_exchange G hw (h w hw hlast)

lemma reached_exchange : (g.exchange p v).Reached b ↔ g.Reached b :=
  exists_congr fun _ => and_congr_left fun _ => t.isWalk_exchange G

lemma merging : (g.exchange p v).Merging := by
  refine ⟨t.settled G.settled, fun b e he => ?_, fun n ho hr => ?_, fun n ho k i e hi he => ?_⟩
  · rw [exchange_block] at he
    have hop := G.pred_op b e he
    have hne : g.resolve e ≠ p := fun h => hop (h ▸ t.op)
    rwa [t.resolve_exchange G.settled, if_neg hne, t.node_exchange hne]
  · have hne := t.ne_of_phi ho
    rw [t.node_exchange hne] at ho hr ⊢
    rw [exchange_block]; exact G.arity n ho ((t.reached_exchange G).1 hr)
  · have hne := t.ne_of_phi ho
    rw [t.node_exchange hne] at ho hi he
    rw [exchange_block] at he
    rw [t.predBlock_exchange G (mem_of_getElem? he)]
    exact t.avail_exchange G (G.operands n ho k i e hi he)

end

lemma proper (t : g.Trivial p v) (G : g.Proper) : (g.exchange p v).Proper := by
  refine ⟨t.merging G.toMerging, fun n ho hf i hi => ?_⟩
  have hne : n ≠ p := by
    rintro rfl
    rw [Graph.node_exchange t.ne t.lt, if_pos rfl] at hf; exact hf rfl
  rw [t.node_exchange hne] at ho hf hi ⊢
  exact t.avail_exchange G.toMerging (G.uses n ho hf i hi)

lemma source_exchange (t : g.Trivial p v) (G : g.Merging) : ∀ {w : Walk} {n : NodeId}, g.IsWalk w → g.Avail w.last n →
    (g.exchange p v).source w n = g.source w n := by
  have hres := t.resolve_exchange G.settled
  have hv : (g.exchange p v).resolve v = v := by
    rw [hres, G.settled.resolve_of_op (t.root G.settled), if_neg (Ne.symm t.ne)]
  intro w
  induction w with
  | nil =>
    intro n hw ha
    have hne : g.resolve n ≠ p := fun h => by
      have hc := ha [] hw rfl
      unfold Computed at hc
      rw [h, if_pos t.op] at hc; cases hc
    rw [source, source, hres, if_neg hne]
  | cons s w ih =>
    obtain ⟨b, k⟩ := s
    intro n hw ha
    by_cases hn : g.resolve n = p
    · -- the Phi makes way for its value, which is not computed in `b`
      have hp : g.Avail b p := ha.congr (hn.trans (t.resolve_phi G.settled).symm)
      have hvb : (g.node v).block ≠ b := t.apart G ⟨_, hw, rfl⟩ hp
      have hleft : (g.exchange p v).source ((b, k) :: w) n = (g.exchange p v).source w v := by
        simp only [source, hres, hn, if_pos, t.block_exchange, if_neg hvb]
      have hsame : ∀ {i}, g.resolve i = p ∨ g.resolve i = v → (g.exchange p v).Same v i := fun {i} hi => by
        show (g.exchange p v).resolve v = (g.exchange p v).resolve i
        rw [hv, hres]
        rcases hi with hi | hi
        · rw [if_pos hi]
        · rw [hi, if_neg (Ne.symm t.ne)]
      rw [hleft]
      by_cases hb : (g.node p).block = b
      · obtain ⟨i, hi, hri, hai⟩ := t.operand G (hb.symm ▸ hw)
        have hright : g.source ((b, k) :: w) n = g.source w i := by
          simp [source, hn, if_pos hb, if_pos t.op, hi]
        rw [hright, ← ih hw.2 hai]; exact source_congr (hsame hri)
      · have hright : g.source ((b, k) :: w) n = g.source w p := by simp [source, hn, if_neg hb]
        rw [hright, ← ih hw.2 (hp.back hw (by rwa [t.resolve_phi G.settled]))]
        exact source_congr (hsame (.inl (t.resolve_phi G.settled)))
    · simp only [source, hres, if_neg hn, t.node_exchange hn]
      split
      · rename_i hb
        split
        · rename_i ho
          cases hi : (g.node (g.resolve n)).inputs[k]? with
          | none => rfl
          | some i => exact ih hw.2 (G.avail_operand ho hi (hb.symm ▸ hw))
        · rfl
      · exact ih hw.2 ((ha.congr (G.settled.same_resolve n).symm).back hw (by rwa [G.settled.resolve_resolve]))

end Trivial

end JvmGraph.Graph
