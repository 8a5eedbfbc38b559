import Mathlib.Data.List.Forall2
import JvmGraph.Proofs.Bytecode.Flow

/-!
# Edges into and out of blocks

Which edges lead into the block at an address, and which lead out of a block, by the instructions that stand in
blocks. An instruction that control reaches stands in a block, and a block is left by its last instruction only.
-/

namespace JvmGraph

open List Instruction Option

variable {b : BlockId} {i : Instruction} {c? : Option BlockId} {p : Nat} {j : Instruction}

lemma Layout.split_next {n : Nat} {code : List Instruction} (L : Layout n code) (hj : j ∈ code)
    (hi : i ∈ code) (h : i.pc = j.next) : ∃ pre post, code = pre ++ j :: i :: post := by
  obtain ⟨pre, post, hcode⟩ := append_of_mem hj
  have hnext := L.next pre j post hcode
  cases post with
  | nil =>
    have := L.pc_lt hi
    simp only [head?_nil, map_none, getD_none] at hnext
    omega
  | cons k post =>
    have hk : k ∈ code := by simp [hcode]
    obtain rfl := L.eq_of_pc hi hk (h.trans hnext); exact ⟨pre, post, hcode⟩

namespace Flow

variable {β : Nat → Option BlockId} {targeted : Bool} {n : Nat} {code : List Instruction}
  {x : Edge} {rest : List Instruction} {b0 : BlockId}

/-! ## Edges into a block -/

def towards (p : Nat) (x : Instruction × BlockId) : List Edge :=
  (x.1.successors.filter fun s => s.2 = some p).map fun s => ⟨x.2, s.1, s.2⟩

def fallsFirst (β : Nat → Option BlockId) (p : Nat) (c? : Option BlockId) : List Instruction → List Edge
  | [] => []
  | i :: _ => (falls β c? i.pc).filter fun x => x.target = some p

lemma falls_target {pc : Nat} (h : x ∈ falls β c? pc) : x.target = some pc := by
  unfold falls at h
  split at h
  · split at h
    · cases h
    · rw [mem_singleton.1 h]
  · cases h

lemma falls_none (pc : Nat) : falls β none pc = [] := by
  unfold falls
  split
  · simp_all
  · rfl

lemma towards_eq (hp : β p = some b0)
    (hnext : i.next = (rest.head?.map pc).getD n) (hpn : p < n) (hne : i.ends = false → i.next = p → b ≠ b0) :
    ((i.exitsFrom b).filter fun x => x.target = some p) ++
      fallsFirst β p (if i.ends then none else some b) rest = towards p (i, b) := by
  cases hends : i.ends with
  | true =>
    have hfirst : fallsFirst β p none rest = [] := by
      cases rest with
      | nil => rfl
      | cons j rest => simp [fallsFirst, falls_none]
    simp only [if_true, hfirst, append_nil, exitsFrom, towards, successors, hends, List.filter_map]
    rfl
  | false =>
    simp only [exitsFrom, exits_of_not_ends hends, towards, successors, hends]
    cases rest with
    | nil =>
      have : i.next ≠ p := by
        rw [hnext]
        simp only [head?_nil, map_none, getD_none]
        omega
      simp [fallsFirst, this]
    | cons j rest =>
      have hj : i.next = j.pc := by simp [hnext]
      by_cases hjp : j.pc = p
      · have hb := hne hends (hj.trans hjp); simp [fallsFirst, falls, hjp, hp, hb, hj]
      · have hno : (falls β (some b) j.pc).filter (fun x => x.target = some p) = [] := by
          rw [filter_eq_nil_iff]
          intro x hx; simp [falls_target hx, hjp]
        simp [fallsFirst, hno, hj, hjp]

lemma edges_into (hp : β p = some b0) (hpn : p < n) : ∀ (rest : List Instruction) (c? : Option BlockId),
    (∀ pre i post, rest = pre ++ i :: post → i.next = (post.head?.map pc).getD n) →
    (∀ i b, (i, b) ∈ places β c? rest → i.ends = false → i.next = p → b ≠ b0) →
    (edges β c? rest).filter (fun x => x.target = some p) =
      fallsFirst β p c? rest ++ (places β c? rest).flatMap (towards p)
  | [], _, _, _ => rfl
  | i :: rest, c?, hnext, hne => by
    have ih := edges_into hp hpn rest (leaves β c? i) (fun pre j post h => hnext (i :: pre) j post (by simp [h]))
      (fun j b hj => hne j b (mem_places_of_cons.2 (.inr hj)))
    have hstep : ((enters β c? i).toList.flatMap i.exitsFrom).filter (fun x => x.target = some p) ++
        fallsFirst β p (leaves β c? i) rest = ((enters β c? i).toList.map (i, ·)).flatMap (towards p) := by
      cases he : enters β c? i with
      | none =>
        have hfirst : fallsFirst β p (leaves β c? i) rest = [] := by
          have : leaves β c? i = none := by simp [leaves, he]
          rw [this]
          cases rest with
          | nil => rfl
          | cons j rest => simp [fallsFirst, falls_none]
        simp [hfirst]
      | some b =>
        have := towards_eq hp (hnext [] i rest rfl) hpn fun h1 h2 =>
          hne i b (mem_places_of_cons.2 (.inl ⟨rfl, he⟩)) h1 h2
        simpa [leaves, he] using this
    rw [edges, places, flatMap_append, filter_append, filter_append, ih, ← append_assoc _ _ (.flatMap _ _), hstep]
    rfl

/-! ## Instructions that control reaches -/

lemma Cut.placed_next (C : Cut β targeted n code) {w : Way} (hi : i ∈ code) (hj : j ∈ code)
    (hs : (w, some i.pc) ∈ j.successors) (hb : β i.pc = none)
    (hplace : (j, b) ∈ places β (some Graph.startBlock) code) :
    (i, b) ∈ places β (some Graph.startBlock) code := by
  have hends : j.ends = false := by
    by_contra hends
    rw [Bool.not_eq_false] at hends
    rw [successors, if_pos hends] at hs
    have := C.mark j hj i.pc (mem_marks_of_exits hs); simp [hb] at this
  have hnext : i.pc = j.next := by
    simp only [successors, hends, Bool.false_eq_true, if_false, mem_singleton, Prod.mk.injEq, some.injEq] at hs
    exact hs.2
  obtain ⟨pre, post, hcode⟩ := C.layout.split_next hj hi hnext
  rw [hcode] at hplace ⊢
  exact mem_places_next hends hb (hcode ▸ C.layout.nodup) hplace

lemma Cut.placed (C : Cut β targeted n code) (hr : Reaches code p) :
    ∀ i ∈ code, i.pc = p → ∃ b, (i, b) ∈ places β (some Graph.startBlock) code := by
  induction hr with
  | entry =>
    intro i hi hpc
    obtain ⟨b, hb⟩ := C.entry; exact ⟨b, mem_places_of_begin (by rwa [hpc]) hi⟩
  | @step j w p hj _ hs ih =>
    intro i hi hpc
    subst hpc
    cases hb : β i.pc with
    | some b => exact ⟨b, mem_places_of_begin hb hi⟩
    | none =>
      obtain ⟨b, hplace⟩ := ih j hj rfl; exact ⟨b, C.placed_next hi hj hs hb hplace⟩

lemma forall₂_places {P : Instruction → Bool} : ∀ (rest : List Instruction) (c? : Option BlockId), rest.Nodup →
    (∀ i ∈ rest, P i = true → ∃ b, (i, b) ∈ places β c? rest) →
    Forall₂ (fun i x => i = x.1) (rest.filter P) ((places β c? rest).filter fun x => P x.1)
  | [], _, _, _ => .nil
  | i :: rest, c?, hnd, h => by
    obtain ⟨hi, hnd⟩ := nodup_cons.1 hnd
    have ih := forall₂_places rest (leaves β c? i) hnd fun j hj hP => by
      obtain ⟨b, hb⟩ := h j (.tail _ hj) hP
      rcases mem_places_of_cons.1 hb with ⟨rfl, -⟩ | hb
      · exact absurd hj hi
      · exact ⟨b, hb⟩
    rw [places, filter_append]
    cases hP : P i with
    | false =>
      have hnone : ((enters β c? i).toList.map (i, ·)).filter (fun x => P x.1) = [] := by simp [hP]
      rwa [filter_cons_of_neg (by simp [hP]), hnone]
    | true =>
      obtain ⟨b, hb⟩ := h i mem_cons_self hP
      have he : enters β c? i = some b := by
        rcases mem_places_of_cons.1 hb with ⟨-, he⟩ | hb
        · exact he
        · exact absurd (mem_code_of_places hb) hi
      rw [he]; simpa [hP] using ih

/-! ## Edges out of a block -/

lemma edges_source : ∀ {rest : List Instruction} {c? : Option BlockId}, x ∈ edges β c? rest →
    c? = some x.source ∨ ∃ i, (i, x.source) ∈ places β c? rest
  | [], _, h => by cases h
  | i :: rest, c?, h => by
    rw [edges, mem_append, mem_append, mem_flatMap] at h
    rcases h with h | ⟨b, hb, h⟩ | h
    · unfold falls at h
      split at h
      · split at h
        · cases h
        · rw [mem_singleton.1 h]; exact .inl rfl
      · cases h
    · obtain ⟨e, -, rfl⟩ := mem_map.1 h
      exact .inr ⟨i, mem_places_of_cons.2 (.inl ⟨rfl, by simpa using hb⟩)⟩
    · rcases edges_source h with h | ⟨j, hj⟩
      · refine .inr ⟨i, mem_places_of_cons.2 (.inl ⟨rfl, ?_⟩)⟩
        unfold leaves at h
        split at h
        · cases h
        · exact h
      · exact .inr ⟨j, mem_places_of_cons.2 (.inr hj)⟩

/-- Nothing comes from a block that one is not in and never comes to. -/
lemma edges_outside (hc : c? ≠ some b) (hb : ∀ i ∈ rest, β i.pc ≠ some b) :
    (edges β c? rest).filter (fun x => x.source = b) = [] := by
  rw [filter_eq_nil_iff]
  intro x hx hsource
  obtain rfl : x.source = b := by simpa using hsource
  rcases edges_source hx with h | ⟨j, hj⟩
  · exact hc h
  · exact not_mem_places hc hb hj

/-- The edges out of block `b` are those of an instruction that ends it, or the fall into the block that follows. -/
def Departs (b : BlockId) (ps : List (Instruction × BlockId)) (out : List Edge) : Prop :=
  (∃ i, (i, b) ∈ ps ∧ i.ends = true ∧ out = i.exitsFrom b) ∨ ∃ pc, out = [⟨b, .into, some pc⟩]

lemma Departs.mono {ps ps' : List (Instruction × BlockId)} {out : List Edge} (h : Departs b ps out)
    (hps : ∀ x ∈ ps, x ∈ ps') : Departs b ps' out :=
  h.imp_left fun ⟨i, hi, he, ho⟩ => ⟨i, hps _ hi, he, ho⟩

lemma filter_exitsFrom (i : Instruction) (b : BlockId) :
    (i.exitsFrom b).filter (fun x => x.source = b) = i.exitsFrom b := by
  rw [filter_eq_self]
  intro x hx
  obtain ⟨e, -, rfl⟩ := mem_map.1 hx
  simp

lemma filter_exitsFrom_ne (i : Instruction) {c : BlockId} (h : c ≠ b) :
    (i.exitsFrom c).filter (fun x => x.source = b) = [] := by
  rw [filter_eq_nil_iff]
  intro x hx
  obtain ⟨e, -, rfl⟩ := mem_map.1 hx
  simpa using h

lemma filter_falls_ne {pc : Nat} (h : c? ≠ some b ∨ β pc = some b) :
    (falls β c? pc).filter (fun x => x.source = b) = [] := by
  rw [filter_eq_nil_iff]
  intro x hx
  unfold falls at hx
  split at hx
  · rename_i c b' hb'
    split at hx
    · cases hx
    · rename_i hne
      rw [mem_singleton.1 hx]
      intro hcb
      obtain rfl : c = b := by simpa using hcb
      rcases h with h | h
      · exact h rfl
      · rw [h, some.injEq] at hb'; exact hne hb'
  · cases hx

/-- The block that an instruction is in is left by that instruction, or after it when another block begins. -/
lemma edges_from_entered : ∀ (rest : List Instruction) {i : Instruction} {c? : Option BlockId},
    enters β c? i = some b → (falls β c? i.pc).filter (fun x => x.source = b) = [] → (∀ j ∈ rest, β j.pc ≠ some b) →
    final β (leaves β c? i) rest ≠ some b →
    Departs b (places β c? (i :: rest)) ((edges β c? (i :: rest)).filter fun x => x.source = b)
  | rest, i, c?, he, hfalls, hrest, hf => by
    rw [edges, filter_append, filter_append, hfalls, he, toList_some, flatMap_singleton, filter_exitsFrom, nil_append]
    cases hends : i.ends with
    | true =>
      have hl : leaves β c? i = none := by simp [leaves, hends]
      rw [hl, edges_outside (by simp) hrest, append_nil]
      exact .inl ⟨i, mem_places_of_cons.2 (.inl ⟨rfl, he⟩), hends, rfl⟩
    | false =>
      have hl : leaves β c? i = some b := by simp [leaves, hends, he]
      have hnone : i.exitsFrom b = [] := by simp [exitsFrom, exits_of_not_ends hends]
      rw [hl] at hf
      rw [hl, hnone, nil_append]
      refine .mono ?_ fun x hx => mem_places_of_cons.2 (.inr (by rwa [hl]))
      cases rest with
      | nil => exact absurd rfl hf
      | cons j rest =>
        have hrest' : ∀ k ∈ rest, β k.pc ≠ some b := fun k hk => hrest k (.tail _ hk)
        cases hbeta : β j.pc with
        | some c =>
          have hcb : c ≠ b := fun h => hrest j (.head _) (h ▸ hbeta)
          have he : enters β (some b) j = some c := by simp [enters, hbeta]
          have hl : leaves β (some b) j ≠ some b := by
            unfold leaves
            split
            · simp
            · rw [he]; simpa using hcb
          rw [edges, filter_append, filter_append, he, toList_some, flatMap_singleton,
            filter_exitsFrom_ne j hcb, edges_outside hl hrest']
          refine .inr ⟨j.pc, ?_⟩
          simp [falls, hbeta, Ne.symm hcb]
        | none => exact edges_from_entered rest (by simp [enters, hbeta]) (by simp [falls, hbeta]) hrest' hf

lemma edges_from : ∀ (rest : List Instruction) (c? : Option BlockId),
    (∀ p q, β p = some b → β q = some b → p = q) → (rest.map pc).Nodup →
    (∃ j ∈ rest, β j.pc = some b) → (c? = some b → ∀ i ∈ rest.head?, β i.pc = some b) → final β c? rest ≠ some b →
    Departs b (places β c? rest) ((edges β c? rest).filter fun x => x.source = b)
  | [], _, _, _, h, _, _ => by
    obtain ⟨j, hj, -⟩ := h; cases hj
  | i :: rest, c?, hinj, hnd, hj, hc, hf => by
    rw [map_cons, nodup_cons] at hnd
    rw [final] at hf
    by_cases hi : β i.pc = some b
    · refine edges_from_entered rest (by simp [enters, hi]) (filter_falls_ne (.inr hi)) (fun j hj hjb => ?_) hf
      exact hnd.1 (hinj _ _ hi hjb ▸ mem_map_of_mem hj)
    · have hcb : c? ≠ some b := fun h => hi (hc h i rfl)
      have he : enters β c? i ≠ some b := by
        unfold enters
        cases hbeta : β i.pc with
        | none => simpa using hcb
        | some d => simpa [hbeta] using hi
      have hl : leaves β c? i ≠ some b := by
        unfold leaves
        split
        · simp
        · exact he
      have hexits : ((enters β c? i).toList.flatMap i.exitsFrom).filter (fun x => x.source = b) = [] := by
        cases hent : enters β c? i with
        | none => rfl
        | some d =>
          rw [toList_some, flatMap_singleton]
          exact filter_exitsFrom_ne i fun h => he (h ▸ hent)
      rw [edges, filter_append, filter_append, filter_falls_ne (.inl hcb), hexits]
      obtain ⟨j, hj, hjb⟩ := hj
      have hj : j ∈ rest := by
        rcases mem_cons.1 hj with rfl | hj
        · exact absurd hjb hi
        · exact hj
      exact (edges_from rest (leaves β c? i) hinj hnd.2 ⟨j, hj, hjb⟩ (fun h => absurd h hl) hf).mono
        fun x hx => mem_places_of_cons.2 (.inr hx)

end Flow

end JvmGraph
