import JvmGraph.Proofs.Graph.Walk
import JvmGraph.Proofs.Ssa.Invariant

/-!
# How values flow along walks

When every block is matured, every entry agrees with the ends of the predecessors. So the value of an entry
on a walk is the value that the walk's last but one block holds at its end. Where entries are passed on
unchanged, this needs that values are computed before they are written: then what a block passes on
cannot lie in that block, since it was there when the block was first entered.
-/

namespace JvmGraph.Ssa

open JvmGraph.Graph Walk

open JvmGraph.Graph (Walk)

variable {w : Walk} {n : NodeId} {k : Nat} {m p : NodeId} {b : BlockId}

variable {strict : Prop} {s : Builder} {T : Record} {x : Var}

structure Finished (s : Builder) (T : Record) : Prop where
  shape : Shape s
  defined : Defined s T
  agrees : ∀ b x n, T.entry b x = some n → Agrees s b x n

lemma Inv.finished (I : Inv strict s T .idle) (hm : ∀ b, s.graph.HasBlock b → s.isMatured b = true) :
    Finished s T := by
  refine ⟨I.shape, I.defined, fun b x n h => ?_⟩
  rcases I.entered.entry_ok b x n h with ⟨hw, hb⟩ | ⟨-, ha⟩
  · have hmem := (I.entered.incomplete_iff b x n).2 ⟨hw, hb, id⟩
    simp [I.entered.matured_incomplete b (hm b (hb ▸ I.shape.node_block n))] at hmem
  · exact ha

lemma Defined.written_or_entry {c : BlockId} (D : Defined s T) (h : s.definition? c x = some m) :
    T.written c x = some m ∨ T.written c x = none ∧ ∃ n, T.entry c x = some n ∧ s.graph.Same m n := by
  cases hw : T.written c x with
  | none => exact .inr ⟨rfl, D.def_entry c x m h hw⟩
  | some v => rw [D.def_written c x v hw] at h; exact .inl h

/-! ## Operands along a walk -/

lemma Merged.resolve (h : Merged s x p) (S : s.graph.Settled) : s.graph.resolve p = p :=
  S.resolve_of_op (by simp [h.op])

lemma Merged.operand (h : Merged s x p) (hw : s.graph.IsWalk (((s.graph.node p).block, k) :: w)) :
    ∃ i, (s.graph.node p).inputs[k]? = some i ∧ s.Holds w.last x i := by
  obtain ⟨e, he, hlast⟩ := hw.edge
  obtain ⟨hk, rfl⟩ := List.getElem?_eq_some_iff.1 he
  have hk' : k < (s.graph.node p).inputs.length := by rwa [h.operands.length_eq]
  refine ⟨(s.graph.node p).inputs[k], List.getElem?_eq_getElem hk', ?_⟩
  rw [← hlast]
  exact h.operands.get hk' hk

lemma Finished.merges_or_holds (F : Finished s T) (hn : T.entry b x = some n)
    (hw : s.graph.IsWalk ((b, k) :: w)) : (Merged s x n ∧ (s.graph.node n).block = b) ∨
      s.Holds w.last x n ∧ ∀ (j : Nat) (v : Walk), s.graph.IsWalk ((b, j) :: v) → s.Holds v.last x n := by
  have hpass : s.preds b = [] ∨ (∀ e ∈ s.preds b, s.Holds (s.graph.predBlock e) x n) →
      ∀ (j : Nat) (v : Walk), s.graph.IsWalk ((b, j) :: v) → s.Holds v.last x n := by
    intro h j v hv
    obtain ⟨e, he, hlast⟩ := hv.edge
    rcases h with h | h
    · simp [show (s.graph.block b).preds = [] from h] at he
    · rw [← hlast]; exact h e (List.mem_of_getElem? he)
  cases F.agrees b x n hn with
  | nothing hp => exact .inr ⟨hpass (.inl hp) k w hw, hpass (.inl hp)⟩
  | same _ hall => exact .inr ⟨hpass (.inr hall) k w hw, hpass (.inr hall)⟩
  | merged hb hM => exact .inl ⟨hM, hb⟩

/-- The start block has nothing to offer but what was written there. -/
lemma Finished.unknown_of_start (F : Finished s T) (hn : T.entry startBlock x = some n) :
    (s.graph.node (s.graph.resolve n)).op = .unknown ∧ (s.graph.node (s.graph.resolve n)).block = startBlock := by
  have hp := F.shape.start_preds
  cases F.agrees _ x n hn with
  | nothing _ ho hb => exact ⟨ho, hb⟩
  | same h => exact absurd hp h
  | merged hb hM =>
    have := hM.several; simp [hb, hp] at this

/-! ## Writes on a walk -/

def lastWrite (written : BlockId → Option NodeId) : Walk → Option (Walk × NodeId)
  | [] => none
  | (_, _) :: w =>
    match written (Walk.last w) with
    | some v => some (w, v)
    | none => lastWrite written w

/-- Where a value comes from: the given write, or nothing was ever written. -/
def Source (g : Graph) : Option (Walk × NodeId) → NodeId → Prop
  | some (_, v), m => m = g.resolve v
  | none, m => (g.node m).op = .unknown

lemma Finished.leads_entry (F : Finished s T) : ∀ {w : Walk} {n : NodeId}, s.graph.IsWalk w →
    T.entry w.last x = some n →
    s.graph.Leads (Source s.graph (lastWrite (T.written · x) w)) w n ∧
      (Source s.graph (lastWrite (T.written · x) w) (s.graph.resolve n) ∨ Merged s x (s.graph.resolve n))
  | [], n, _, hn => by
    have h := (F.unknown_of_start hn).1; exact ⟨.here h, .inl h⟩
  | (b, k) :: w, n, hw, hn => by
    -- what the block before holds comes from the last write
    have held : ∀ {i}, s.Holds (last w) x i →
        s.graph.Leads (Source s.graph (lastWrite (T.written · x) ((b, k) :: w))) w i ∧
          (Source s.graph (lastWrite (T.written · x) ((b, k) :: w)) (s.graph.resolve i) ∨
            Merged s x (s.graph.resolve i)) := by
      rintro i ⟨m, hm, hs⟩
      have hs' : s.graph.resolve m = s.graph.resolve i := hs
      rw [lastWrite]
      rcases F.defined.written_or_entry hm with hv | ⟨hv, n', hn', hs2⟩
      · rw [hv]; exact ⟨.here hs'.symm, .inl hs'.symm⟩
      · rw [hv]
        obtain ⟨h1, h2⟩ := F.leads_entry hw.2 hn'
        have hin : s.graph.Same n' i := hs2.symm.trans hs
        exact ⟨h1.congr hin, by rwa [← show s.graph.resolve n' = s.graph.resolve i from hin]⟩
    rcases F.merges_or_holds hn hw with ⟨hM, hb⟩ | ⟨hh, -⟩
    · have hr := hM.resolve F.shape.settled
      obtain ⟨i, hi, hh⟩ := hM.operand (by rwa [hb])
      refine ⟨.phi (by rw [hr]; exact hM.op) (by rwa [hr]) (by rwa [hr]) (held hh).1, .inr ?_⟩
      rwa [hr]
    · obtain ⟨h1, h2⟩ := held hh
      refine ⟨?_, h2⟩
      rcases h2 with h2 | h2
      · exact .here h2
      · by_cases hb : (s.graph.node (s.graph.resolve n)).block = b
        · -- the Phi is one of this block, so that it takes an operand here
          obtain ⟨i, hi, hh⟩ := h2.operand (by rwa [hb]); exact .phi h2.op hb hi (held hh).1
        · exact .back hb h1

/-! ## Values that are computed before they are used -/

def On (s : Builder) (w : Walk) (n : NodeId) : Prop := (s.graph.node (s.graph.resolve n)).block ∈ w.blocks

lemma On.same (h : On s w n) (hs : s.graph.Same n m) : On s w m := by
  unfold On at h ⊢
  rwa [← show s.graph.resolve n = s.graph.resolve m from hs]

/-- What a block writes to variables in `V` was computed on every walk that leads there, provided that what it asked for
was. -/
def WritesOn (s : Builder) (T : Record) (V : Var → Prop) : Prop :=
  ∀ w : Walk, s.graph.IsWalk w → (∀ x, V x → ∀ n, T.entry w.last x = some n → On s w n) →
    ∀ x, V x → ∀ v, T.written w.last x = some v → On s w v

variable {V : Var → Prop}

/-- What a block was asked for lies on every walk that leads there. -/
lemma Finished.on_entry (F : Finished s T) (W : WritesOn s T V) : ∀ {w : Walk}, s.graph.IsWalk w →
    ∀ x, V x → ∀ n, T.entry w.last x = some n → On s w n
  | [], _, x, _, n, hn => by
    unfold On
    rw [(F.unknown_of_start hn).2]; exact start_mem_blocks _
  | (b, k) :: w, hw, x, hx, n, hn => by
    rcases F.merges_or_holds hn hw with ⟨hM, hb⟩ | ⟨⟨m, hm, hs⟩, -⟩
    · unfold On; rw [hM.resolve F.shape.settled, hb]; exact last_mem_blocks _
    · have hold : On s w m := by
        rcases F.defined.written_or_entry hm with hv | ⟨-, n', hn', hs'⟩
        · exact W w hw.2 (F.on_entry W hw.2) x hx m hv
        · exact (F.on_entry W hw.2 x hx n' hn').same hs'.symm
      have := hold.same hs; exact .tail _ this

lemma Finished.on_holds (F : Finished s T) (W : WritesOn s T V) (hx : V x) {i : NodeId} (hw : s.graph.IsWalk w)
    (h : s.Holds w.last x i) : On s w i := by
  obtain ⟨m, hm, hs⟩ := h
  rcases F.defined.written_or_entry hm with hv | ⟨-, n', hn', hs'⟩
  · exact (W w hw (F.on_entry W hw) x hx m hv).same hs
  · exact (F.on_entry W hw x hx n' hn').same (hs'.symm.trans hs)

lemma Finished.transfer (F : Finished s T) (W : WritesOn s T V) (hx : V x) (hw : s.graph.IsWalk ((b, k) :: w))
    (hn : T.entry b x = some n) :
    (∃ i, (s.graph.node (s.graph.resolve n)).op = .phi ∧ (s.graph.node (s.graph.resolve n)).block = b ∧
        (s.graph.node (s.graph.resolve n)).inputs[k]? = some i ∧ s.Holds w.last x i) ∨
      (s.graph.node (s.graph.resolve n)).block ≠ b ∧ s.Holds w.last x n := by
  rcases F.merges_or_holds hn hw with ⟨hM, hb⟩ | ⟨hh, hall⟩
  · obtain ⟨i, hi, hh⟩ := hM.operand (by rwa [hb])
    rw [hM.resolve F.shape.settled]; exact .inl ⟨i, hM.op, hb, hi, hh⟩
  · refine .inr ⟨fun he => ?_, hh⟩
    have hb : b ≠ startBlock := by
      rintro rfl
      obtain ⟨e, he, -⟩ := hw.edge
      simp [show (s.graph.block startBlock).preds = [] from F.shape.start_preds] at he
    obtain ⟨j, v, hv, hnot, -⟩ := hw.first_visit hb (last_mem_blocks ((b, k) :: w))
    have := F.on_holds W hx hv.2 (hall j v hv)
    rw [On, he] at this; exact hnot this

lemma Finished.valueOn_entry (F : Finished s T) (W : WritesOn s T V) (hx : V x) : ∀ {w w' : Walk} {n v : NodeId},
    s.graph.IsWalk w → T.entry w.last x = some n → lastWrite (T.written · x) w = some (w', v) →
    s.graph.valueOn w n = s.graph.valueOn w' v
  | [], w', n, v, _, _, h => by cases h
  | (b, k) :: w, w', n, v, hw, hn, h => by
    have held : ∀ {i}, s.Holds (last w) x i → s.graph.valueOn w i = s.graph.valueOn w' v := by
      rintro i ⟨m, hm, hs⟩
      rw [lastWrite] at h
      rcases F.defined.written_or_entry hm with hv | ⟨hv, n', hn', hs'⟩
      · rw [hv] at h
        cases h
        exact valueOn_congr hs.symm
      · rw [hv] at h
        rw [← F.valueOn_entry W hx hw.2 hn' h]; exact valueOn_congr (hs.symm.trans hs')
    rcases F.transfer W hx hw hn with ⟨i, ho, hb, hi, hh⟩ | ⟨hb, hh⟩
    · rw [valueOn_phi ho hb hi]; exact held hh
    · rw [F.shape.settled.valueOn_back hb]; exact held hh

end JvmGraph.Ssa
