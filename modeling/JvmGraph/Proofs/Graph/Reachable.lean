import JvmGraph.Graph.Reachability
import JvmGraph.Proofs.Graph.Walk
import Mathlib.Algebra.BigOperators.Group.Finset.Basic

/-!
# The blocks that control reaches

The search for reachable blocks finds exactly the blocks that a walk leads to (`has_reachable`). Its fuel is
enough: every step takes a block off the work list, and the blocks put on it are paid for by the edges of
the block that is marked.
-/

namespace JvmGraph.Graph

open List Bool

variable {c : BlockId} {i : Nat} {g : Graph} {s : Successors} {b : BlockId}

/-! ## Successors -/

lemma size_addSuccessor (t : BlockId) (s : Successors) (b : BlockId) : (addSuccessor t s b).size = s.size := by
  simp [addSuccessor]

lemma getD_addSuccessor (t : BlockId) (s : Successors) (b : BlockId) (i : Nat) :
    (addSuccessor t s b).getD i [] = if i = b.index ∧ i < s.size then t :: s.getD i [] else s.getD i [] := by
  rw [addSuccessor, Arrays.getD_modify]
  by_cases hi : i = b.index <;> simp [hi]

lemma mem_foldl_addSuccessor {t : BlockId} : ∀ {sources : List BlockId} {s : Successors},
    c ∈ (sources.foldl (addSuccessor t) s).getD i [] ↔ c ∈ s.getD i [] ∨ (c = t ∧ ⟨i⟩ ∈ sources ∧ i < s.size)
  | [], s => by simp
  | b :: sources, s => by
    rw [foldl_cons, mem_foldl_addSuccessor, getD_addSuccessor, size_addSuccessor]
    have hb : (⟨i⟩ : BlockId) = b ↔ i = b.index := by
      cases b
      simp
    rw [mem_cons, hb]
    by_cases h : i = b.index ∧ i < s.size
    · rw [if_pos h, mem_cons]
      tauto
    · rw [if_neg h]
      tauto

lemma size_foldl_addSuccessor (t : BlockId) : ∀ (sources : List BlockId) (s : Successors),
    (sources.foldl (addSuccessor t) s).size = s.size
  | [], _ => rfl
  | b :: sources, s => by rw [foldl_cons, size_foldl_addSuccessor, size_addSuccessor]

lemma mem_foldl_targets (g : Graph) : ∀ {targets : List BlockId} {s : Successors},
    c ∈ (targets.foldl (fun s b => ((g.block b).preds.map g.predBlock).foldl (addSuccessor b) s) s).getD i [] ↔
      c ∈ s.getD i [] ∨ (c ∈ targets ∧ ⟨i⟩ ∈ (g.block c).preds.map g.predBlock ∧ i < s.size)
  | [], s => by simp
  | t :: targets, s => by
    rw [foldl_cons, mem_foldl_targets g, mem_foldl_addSuccessor, size_foldl_addSuccessor]
    constructor
    · rintro ((h | ⟨rfl, h1, h2⟩) | ⟨h1, h2, h3⟩)
      · exact .inl h
      · exact .inr ⟨by simp, h1, h2⟩
      · exact .inr ⟨.tail _ h1, h2, h3⟩
    · rintro (h | ⟨h1, h2, h3⟩)
      · exact .inl (.inl h)
      · rcases mem_cons.1 h1 with rfl | h1
        · exact .inl (.inr ⟨rfl, h2, h3⟩)
        · exact .inr ⟨h1, h2, h3⟩

lemma size_foldl_targets (g : Graph) : ∀ (targets : List BlockId) (s : Successors),
    (targets.foldl (fun s b => ((g.block b).preds.map g.predBlock).foldl (addSuccessor b) s) s).size = s.size
  | [], _ => rfl
  | t :: targets, s => by rw [foldl_cons, size_foldl_targets, size_foldl_addSuccessor]

lemma size_successors (g : Graph) : g.successors.size = g.blocks.size := by
  rw [successors, size_foldl_targets, Array.size_replicate]

lemma mem_blockIds : b ∈ g.blockIds ↔ g.HasBlock b := by
  simp only [blockIds, mem_map, mem_range]
  constructor
  · rintro ⟨i, hi, rfl⟩; exact hi
  · exact fun h => ⟨b.index, h, rfl⟩

lemma lt_of_mem_preds {e : NodeId} (he : e ∈ (g.block c).preds) : g.HasBlock c := by
  by_contra hc
  simp [block_of_le (not_lt.1 hc)] at he

lemma mem_successors :
    c ∈ g.successors.getD i [] ↔ i < g.blocks.size ∧ ∃ e ∈ (g.block c).preds, g.predBlock e = ⟨i⟩ := by
  rw [successors, mem_foldl_targets, Arrays.getD_replicate, Array.size_replicate, mem_blockIds]
  constructor
  · rintro (h | ⟨-, h, hi⟩)
    · cases h
    · exact ⟨hi, mem_map.1 h⟩
  · rintro ⟨hi, e, he, hb⟩; exact .inr ⟨lt_of_mem_preds he, mem_map.2 ⟨e, he, hb⟩, hi⟩

/-! ## The number of edges -/

/-- How many successors the blocks outside of `seen` have. -/
def unseenEdges (s : Successors) (seen : Marks) : Nat :=
  ∑ i ∈ Finset.range s.size, if seen.has i then 0 else (s.getD i []).length

lemma unseenEdges_addSuccessor (t : BlockId) (s : Successors) (b : BlockId) (n : Nat) :
    unseenEdges (addSuccessor t s b) (.empty n) ≤ unseenEdges s (.empty n) + 1 := by
  simp only [unseenEdges, size_addSuccessor, getD_addSuccessor, Marks.has_empty, false_eq_true, if_false]
  by_cases hb : b.index < s.size
  · have hmem : b.index ∈ Finset.range s.size := Finset.mem_range.2 hb
    rw [← Finset.add_sum_erase _ _ hmem, ← Finset.add_sum_erase (Finset.range s.size)
      (fun i => (s.getD i []).length) hmem]
    have hrest : ∀ i ∈ (Finset.range s.size).erase b.index,
        (if i = b.index ∧ i < s.size then t :: s.getD i [] else s.getD i []).length = (s.getD i []).length := by
      intro i hi
      rw [if_neg fun h => (Finset.mem_erase.1 hi).1 h.1]
    rw [Finset.sum_congr rfl hrest, if_pos ⟨rfl, hb⟩, length_cons]; omega
  · refine Nat.le_succ_of_le (le_of_eq (Finset.sum_congr rfl fun i hi => ?_))
    rw [if_neg]
    rintro ⟨rfl, h⟩; exact hb h

lemma unseenEdges_foldl_addSuccessor (t : BlockId) (n : Nat) : ∀ (sources : List BlockId) (s : Successors),
    unseenEdges (sources.foldl (addSuccessor t) s) (.empty n) ≤ unseenEdges s (.empty n) + sources.length
  | [], _ => le_refl _
  | b :: sources, s => by
    have h1 := unseenEdges_foldl_addSuccessor t n sources (addSuccessor t s b)
    have h2 := unseenEdges_addSuccessor t s b n
    rw [foldl_cons, length_cons]; omega

lemma foldl_preds_length (g : Graph) (targets : List BlockId) : ∀ m,
    targets.foldl (fun n b => n + (g.block b).preds.length) m =
      m + targets.foldl (fun n b => n + (g.block b).preds.length) 0 := by
  induction targets with
  | nil => exact fun m => rfl
  | cons b targets ih =>
    intro m
    rw [foldl_cons, foldl_cons, ih, ih (0 + _)]; omega

lemma unseenEdges_foldl_targets (g : Graph) (n : Nat) : ∀ (targets : List BlockId) (s : Successors),
    unseenEdges (targets.foldl (fun s b => ((g.block b).preds.map g.predBlock).foldl (addSuccessor b) s) s) (.empty n) ≤
      unseenEdges s (.empty n) + targets.foldl (fun n b => n + (g.block b).preds.length) 0
  | [], _ => le_refl _
  | b :: targets, s => by
    have h1 := unseenEdges_foldl_targets g n targets (((g.block b).preds.map g.predBlock).foldl (addSuccessor b) s)
    have h2 := unseenEdges_foldl_addSuccessor b n ((g.block b).preds.map g.predBlock) s
    rw [length_map] at h2
    rw [foldl_cons, foldl_cons, foldl_preds_length]; omega

lemma edgeCount_eq (g : Graph) : g.edgeCount = g.blockIds.foldl (fun n b => n + (g.block b).preds.length) 0 := by
  have hlist : g.blockIds.map (fun b => (g.block b).preds.length) = g.blocks.toList.map fun b => b.preds.length := by
    apply ext_getElem
    · simp [blockIds]
    · intro i h1 h2
      have hi : i < g.blocks.size := by simpa using h2
      simp [blockIds, block, Array.getD_eq_getD_getElem?, hi]
  have hfold := congrArg (List.foldl (· + ·) 0) hlist
  rw [foldl_map, foldl_map] at hfold
  rw [hfold, edgeCount, ← Array.foldl_toList]

lemma unseenEdges_successors (g : Graph) : unseenEdges g.successors (.empty g.blocks.size) ≤ g.edgeCount := by
  have h := unseenEdges_foldl_targets g g.blocks.size g.blockIds (.replicate g.blocks.size [])
  have hzero : unseenEdges (.replicate g.blocks.size []) (.empty g.blocks.size) = 0 := by
    refine Finset.sum_eq_zero fun i _ => ?_
    simp only [Marks.has_empty, false_eq_true, if_false, Arrays.getD_replicate, length_nil]
  rwa [hzero, zero_add, ← edgeCount_eq] at h

/-! ## The search -/

lemma Marks.has_insert_of_lt {s : Marks} {m n : Nat} (hm : m < s.marked.size) :
    (s.insert m).has n = true ↔ n = m ∨ s.has n = true := by
  rw [Marks.has_insert]
  simp only [or_eq_true, decide_eq_true_eq]
  constructor
  · rintro (⟨rfl, -⟩ | h)
    · exact .inl rfl
    · exact .inr h
  · rintro (rfl | h)
    · exact .inl ⟨rfl, hm⟩
    · exact .inr h

lemma Marks.size_insert (s : Marks) (n : Nat) : (s.insert n).marked.size = s.marked.size := by
  simp [Marks.insert]

lemma size_visit (s : Successors) : ∀ (fuel : Nat) (seen : Marks) (work : List BlockId),
    (visit s fuel seen work).marked.size = seen.marked.size
  | 0, _, _ => rfl
  | _ + 1, _, [] => rfl
  | fuel + 1, seen, b :: work => by
    rw [visit]
    split
    · exact size_visit s fuel seen work
    · rw [size_visit s fuel, Marks.size_insert]

lemma size_reachable (g : Graph) : g.reachable.marked.size = g.blocks.size := by
  rw [reachable, size_visit, Marks.empty, Array.size_replicate]

lemma unseenEdges_insert {seen : Marks} (hi : i < s.size) (hs : i < seen.marked.size) (h : seen.has i = false) :
    unseenEdges s (seen.insert i) + (s.getD i []).length = unseenEdges s seen := by
  have hmem : i ∈ Finset.range s.size := Finset.mem_range.2 hi
  unfold unseenEdges
  rw [← Finset.add_sum_erase _ _ hmem,
    ← Finset.add_sum_erase (Finset.range s.size) (fun i => if seen.has i = true then 0 else (s.getD i []).length) hmem]
  have hself : (seen.insert i).has i = true := (Marks.has_insert_of_lt hs).2 (.inl rfl)
  have hrest : ∀ j ∈ (Finset.range s.size).erase i, (if (seen.insert i).has j = true then 0 else (s.getD j []).length) =
        if seen.has j = true then 0 else (s.getD j []).length := by
    intro j hj
    have hne := (Finset.mem_erase.1 hj).1
    have : (seen.insert i).has j = seen.has j := by
      rw [Bool.eq_iff_iff, Marks.has_insert_of_lt hs]; simp [hne]
    rw [this]
  rw [Finset.sum_congr rfl hrest, if_pos hself, if_neg (by simp [h])]
  omega

lemma visit_sound {P : BlockId → Prop} (step : ∀ b c, P b → c ∈ s.getD b.index [] → P c) :
    ∀ {fuel : Nat} {seen : Marks} {work : List BlockId},
    (∀ i, seen.has i = true → P ⟨i⟩) → (∀ b ∈ work, P b) → ∀ i, (visit s fuel seen work).has i = true → P ⟨i⟩
  | 0, seen, _, hseen, _, i, h => hseen i h
  | _ + 1, seen, [], hseen, _, i, h => hseen i h
  | fuel + 1, seen, b :: work, hseen, hwork, i, h => by
    have hb := hwork b (by simp)
    have hwork' := fun c hc => hwork c (mem_cons_of_mem b hc)
    by_cases hb' : seen.has b.index = true
    · rw [visit, if_pos hb'] at h; exact visit_sound step hseen hwork' i h
    · rw [visit, if_neg hb'] at h
      refine visit_sound step (fun j hj => ?_) (fun c hc => ?_) i h
      · rw [Marks.has_insert] at hj
        simp only [or_eq_true, decide_eq_true_eq] at hj
        rcases hj with ⟨rfl, -⟩ | hj
        · exact hb
        · exact hseen j hj
      · rcases mem_append.1 hc with hc | hc
        · exact step b c hb hc
        · exact hwork' c hc

lemma visit_complete (hrange : ∀ i, ∀ c ∈ s.getD i [], c.index < s.size) :
    ∀ (fuel : Nat) (seen : Marks) (work : List BlockId), seen.marked.size = s.size → (∀ b ∈ work, b.index < s.size) →
      work.length + unseenEdges s seen ≤ fuel →
      (∀ i, seen.has i = true → ∀ c ∈ s.getD i [], seen.has c.index = true ∨ c ∈ work) →
      (∀ i, seen.has i = true → (visit s fuel seen work).has i = true) ∧
      (∀ b ∈ work, (visit s fuel seen work).has b.index = true) ∧
      ∀ i, (visit s fuel seen work).has i = true → ∀ c ∈ s.getD i [], (visit s fuel seen work).has c.index = true
  | 0, seen, work, _, _, hf, hclosed => by
    have hnil : work = [] := length_eq_zero_iff.1 (by omega)
    subst hnil
    exact ⟨fun _ h => h, by simp, fun i hi c hc => (hclosed i hi c hc).resolve_right (by simp)⟩
  | _ + 1, seen, [], _, _, _, hclosed => by
    refine ⟨fun _ h => h, by simp, fun i hi c hc => ?_⟩
    exact (hclosed i hi c hc).resolve_right (by simp)
  | fuel + 1, seen, b :: work, hsize, hwork, hf, hclosed => by
    have hb := hwork b (by simp)
    have hwork' := fun c hc => hwork c (mem_cons_of_mem b hc)
    rw [length_cons] at hf
    by_cases hseen : seen.has b.index = true
    · rw [visit, if_pos hseen]
      have hclosed' : ∀ i, seen.has i = true → ∀ c ∈ s.getD i [], seen.has c.index = true ∨ c ∈ work := by
        intro i hi c hc
        rcases hclosed i hi c hc with h | h
        · exact .inl h
        · rcases mem_cons.1 h with rfl | h
          · exact .inl hseen
          · exact .inr h
      obtain ⟨h1, h2, h3⟩ := visit_complete hrange fuel seen work hsize hwork' (by omega) hclosed'
      refine ⟨h1, fun c hc => ?_, h3⟩
      rcases mem_cons.1 hc with rfl | hc
      · exact h1 _ hseen
      · exact h2 c hc
    · rw [visit, if_neg hseen]
      have hins := fun n => Marks.has_insert_of_lt (s := seen) (m := b.index) (n := n) (by rwa [hsize])
      have hcount := unseenEdges_insert hb (by rwa [hsize]) (not_eq_true _ ▸ hseen)
      obtain ⟨h1, h2, h3⟩ := visit_complete hrange fuel (seen.insert b.index) (s.getD b.index [] ++ work)
        ((Marks.size_insert _ _).trans hsize)
        (fun c hc => (mem_append.1 hc).elim (hrange _ c) (hwork' c))
        (by rw [length_append]; omega) (fun i hi c hc => by
          rcases (hins i).1 hi with rfl | hi
          · exact .inr (mem_append_left _ hc)
          · rcases hclosed i hi c hc with h | h
            · exact .inl ((hins _).2 (.inr h))
            · rcases mem_cons.1 h with rfl | h
              · exact .inl ((hins _).2 (.inl rfl))
              · exact .inr (by simp [h]))
      refine ⟨fun i hi => h1 i ((hins i).2 (.inr hi)), fun c hc => ?_, h3⟩
      rcases mem_cons.1 hc with rfl | hc
      · exact h1 _ ((hins _).2 (.inl rfl))
      · exact h2 c (by simp [hc])

lemma has_reachable (hblocks : 0 < g.blocks.size) (hnode : ∀ n, (g.node n).block.index < g.blocks.size) :
    g.reachable.has b.index = true ↔ ∃ w, g.IsWalk w ∧ w.last = b := by
  constructor
  · intro h
    refine visit_sound (P := fun b => ∃ w, g.IsWalk w ∧ w.last = b) (fun b c hb hc => ?_)
      (fun i hi => by simp at hi) (fun b hb => ?_) b.index h
    · obtain ⟨w, hw, rfl⟩ := hb
      obtain ⟨-, e, he, hlast⟩ := mem_successors.1 hc
      obtain ⟨k, hk, rfl⟩ := getElem_of_mem he
      exact ⟨(c, k) :: w, ⟨by rw [getElem?_eq_getElem hk, Option.map_some, hlast], hw⟩, rfl⟩
    · rw [mem_singleton.1 hb]; exact ⟨[], trivial, rfl⟩
  · rintro ⟨w, hw, rfl⟩
    obtain ⟨-, hstart, hclosed⟩ := visit_complete (s := g.successors) (fun i c hc => by
        obtain ⟨-, e, he, -⟩ := mem_successors.1 hc
        rw [size_successors]
        exact lt_of_mem_preds he)
      (g.edgeCount + 1) (.empty g.blocks.size) [startBlock]
      (by rw [size_successors]; simp [Marks.empty])
      (fun b hb => by rwa [mem_singleton.1 hb, size_successors])
      (by have := unseenEdges_successors g; rw [length_singleton]; omega)
      (fun i hi => by simp at hi)
    induction w with
    | nil => exact hstart _ (mem_singleton.2 rfl)
    | cons step w ih =>
      obtain ⟨b, k⟩ := step
      obtain ⟨e, he, hlast⟩ := hw.edge
      refine hclosed _ (ih hw.2) b (mem_successors.2 ⟨?_, e, mem_of_getElem? he, hlast⟩)
      rw [← hlast]; exact hnode _

end JvmGraph.Graph
