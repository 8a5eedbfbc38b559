import Mathlib.Tactic.Lemma
/-!
# Arrays as tables

Arrays that are read with a default for the places that they do not have, after one place was changed.
-/

namespace JvmGraph.Arrays

open Array

variable {α : Type} (a : Array α) (i j : Nat) (d : α)

lemma getD_modify (f : α → α) :
    (a.modify i f).getD j d = if j = i ∧ i < a.size then f (a.getD j d) else a.getD j d := by
  simp only [getD_eq_getD_getElem?, getElem?_modify]
  by_cases h : i = j
  · subst h
    by_cases hi : i < a.size <;> simp [hi]
  · simp [h, Ne.symm h]

lemma getD_setIfInBounds (x : α) : (a.setIfInBounds i x).getD j d = if j = i ∧ i < a.size then x else a.getD j d := by
  by_cases h : i = j
  · subst h
    by_cases hi : i < a.size <;> simp [hi]
  · simp [h, Ne.symm h]

lemma getD_replicate (n : Nat) : (replicate n d).getD i d = d := by
  rw [getD_eq_getD_getElem?, getElem?_replicate]
  split <;> rfl

lemma ext_getD {a b : Array α} {d : α} (hs : a.size = b.size) (h : ∀ i, a.getD i d = b.getD i d) : a = b := by
  refine ext hs fun i h1 h2 => ?_
  have := h i
  rwa [getD_eq_getD_getElem?, getD_eq_getD_getElem?, getElem?_eq_getElem h1, getElem?_eq_getElem h2] at this

end JvmGraph.Arrays
