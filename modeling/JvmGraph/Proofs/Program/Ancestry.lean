import Mathlib.Data.List.Nodup
import Mathlib.Data.List.Perm.Subperm
import JvmGraph.Proofs.Program.Change

/-!
# Superclass chains that end

A chain of superclasses that comes to an end has each class once, so it is no longer than the program has
classes, and `ancestry` gives the whole of it.
-/

namespace JvmGraph.Program

open List

variable {p p' : Program} {c d s : ClassId} {l l' : List ClassId}

inductive Lineage (p : Program) : ClassId → List ClassId → Prop
  | root {c : ClassId} (h : (p.classAt c).superclass? = none) : Lineage p c [c]
  | sub {c s : ClassId} {l : List ClassId} (h : (p.classAt c).superclass? = some s) (hs : Lineage p s l) :
      Lineage p c (c :: l)

lemma length_le_of_nodup (hn : l.Nodup) (hl : ∀ d ∈ l, p.HasClass d) : l.length ≤ p.classes.size := by
  have hnodup : (l.map ClassId.index).Nodup := by
    refine Nodup.map ?_ hn
    intro a b hab; exact ClassId.ext hab
  have hsub : l.map ClassId.index ⊆ List.range p.classes.size := by
    intro i hi
    obtain ⟨d, hd, rfl⟩ := mem_map.1 hi; exact mem_range.2 (hl d hd)
  have := (Nodup.subperm hnodup hsub).length_le
  simpa using this

namespace Lineage

section

variable (h : p.Lineage c l)

include h

lemma unique (h' : p.Lineage c l') : l = l' := by
  induction h generalizing l' with
  | root hc =>
    cases h' with
    | root => rfl
    | sub hs _ => rw [hc] at hs; cases hs
  | sub hc _ ih =>
    cases h' with
    | root hn => rw [hc] at hn; cases hn
    | sub hs hl =>
      rw [hc, Option.some.injEq] at hs
      subst hs
      rw [ih hl]

lemma self_mem : c ∈ l := by cases h <;> simp

lemma suffix (hd : d ∈ l) : ∃ l', p.Lineage d l' ∧ l' <:+ l := by
  induction h with
  | root hc =>
    rw [mem_singleton] at hd
    subst hd; exact ⟨_, .root hc, suffix_refl _⟩
  | @sub a s m hc hs ih =>
    rcases mem_cons.1 hd with rfl | hd
    · exact ⟨_, .sub hc hs, suffix_refl _⟩
    · obtain ⟨l', h1, h2⟩ := ih hd; exact ⟨l', h1, h2.trans (suffix_cons a m)⟩

lemma nodup : l.Nodup := by
  induction h with
  | root => simp
  | @sub a s m hc hs ih =>
    refine nodup_cons.2 ⟨?_, ih⟩
    intro ha
    -- the chain of `a` would be a part of its own rest
    obtain ⟨l', h1, h2⟩ := hs.suffix ha
    rw [h1.unique (.sub hc hs)] at h2
    have := h2.length_le; simp only [length_cons] at this; omega

lemma chain_eq {fuel : Nat} (hf : l.length ≤ fuel) : p.chain fuel c = l := by
  induction h generalizing fuel with
  | root hc =>
    obtain ⟨n, rfl⟩ : ∃ n, fuel = n + 1 := ⟨fuel - 1, by simp at hf; omega⟩; simp [chain, hc]
  | sub hc _ ih =>
    obtain ⟨n, rfl⟩ : ∃ n, fuel = n + 1 := ⟨fuel - 1, by simp at hf; omega⟩
    simp only [length_cons, Nat.add_le_add_iff_right] at hf; simp [chain, hc, ih hf]

lemma length_le (hl : ∀ d ∈ l, p.HasClass d) : l.length ≤ p.classes.size :=
  length_le_of_nodup h.nodup hl

lemma ancestry_eq (hl : ∀ d ∈ l, p.HasClass d) : p.ancestry c = l :=
  h.chain_eq (Nat.le_succ_of_le (h.length_le hl))

lemma congr (hl : ∀ d ∈ l, (p'.classAt d).superclass? = (p.classAt d).superclass?) : p'.Lineage c l := by
  induction h with
  | @root a hc => exact .root ((hl a (by simp)).trans hc)
  | @sub a s m hc _ ih =>
    refine .sub ((hl a (by simp)).trans hc) (ih ?_)
    intro d hd; exact hl d (.tail _ hd)

end

end Lineage

end JvmGraph.Program
