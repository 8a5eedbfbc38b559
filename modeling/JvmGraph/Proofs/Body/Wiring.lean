import JvmGraph.Proofs.Body.Whole
import JvmGraph.Proofs.Bytecode.Arrivals

/-!
# Blocks and the code they stand for

The edges of a graph are those of its code, in order. So control gets to a block in the graph if and only if it
reaches the address of the block in the code, and the edges into a block that is reached are the ways to its
address, from instructions that are reached. The start block leads to an entry that is branched to by two edges:
one that was opened for it, and one for falling into the first instruction.
-/

namespace JvmGraph

open List JvmGraph.Graph JvmGraph.Flow Option

variable {b c : BlockId} {p : Nat} {e : NodeId} {x : Edge} {i : Instruction} {w : Way} {g : Graph}

lemma forall₂_comp {α β γ : Type} {R : α → β → Prop} {S : β → γ → Prop} {l : List α} {u : List β} {v : List γ}
    (h : Forall₂ R l u) (h' : Forall₂ S u v) : Forall₂ (fun a c => ∃ b, R a b ∧ S b c) l v := by
  induction h generalizing v with
  | nil =>
    cases h'
    exact .nil
  | cons hr _ ih =>
    cases h' with
    | cons hs h' => exact .cons ⟨_, hr, hs⟩ (ih h')

/-! ## Edges of the code -/

namespace Flow

variable {β : Nat → Option BlockId} {targeted : Bool} {n : Nat} {code : List Instruction}

def entering (targeted : Bool) (p : Nat) : List Edge :=
  if targeted = true ∧ p = 0 then [⟨Graph.startBlock, .into, some 0⟩, ⟨Graph.startBlock, .into, some 0⟩] else []

def allEdges (β : Nat → Option BlockId) (targeted : Bool) (code : List Instruction) : List Edge :=
  opening targeted ++ edges β (some Graph.startBlock) code

lemma falls_of_begin {pc : Nat} (hb : β pc = some b) :
    falls β (some c) pc = if c = b then [] else [⟨c, .into, some pc⟩] := by
  simp [falls, hb]

lemma mem_towards : x ∈ towards p (i, b) ↔ x.source = b ∧ x.target = some p ∧ (x.way, some p) ∈ i.successors := by
  simp only [towards, List.mem_map, mem_filter, decide_eq_true_eq]
  constructor
  · rintro ⟨⟨w, t⟩, ⟨hs, rfl⟩, rfl⟩; exact ⟨rfl, rfl, hs⟩
  · rintro ⟨rfl, ht, hs⟩; refine ⟨(x.way, some p), ⟨hs, rfl⟩, ?_⟩; rw [← ht]

namespace Cut

variable (C : Cut β targeted n code)

include C

lemma code_cons : ∃ i rest, code = i :: rest ∧ i.pc = 0 := by
  cases hcode : code with
  | nil =>
    have := C.final
    rw [hcode] at this; cases this
  | cons i rest => exact ⟨i, rest, rfl, C.layout.head_pc hcode⟩

lemma entry_eq (hb : β 0 = some b) : b = startBlock ↔ targeted = false := by
  rw [← some.injEq, ← hb, C.start]
  simp

lemma fallsFirst_eq (p : Nat) : (opening targeted).filter (fun x => x.target = some p) ++
    fallsFirst β p (some startBlock) code = entering targeted p := by
  obtain ⟨i, rest, hcode, hpc⟩ := C.code_cons
  obtain ⟨b, hb⟩ := C.entry
  have hentry := C.entry_eq hb
  rw [hcode, fallsFirst, hpc, falls_of_begin hb]
  cases targeted with
  | false => rw [hentry.2 rfl]; simp [opening, entering]
  | true =>
    have hne : startBlock ≠ b := fun h => by simpa using hentry.1 h.symm
    by_cases hp : p = 0
    · simp [opening, entering, hne, hp]
    · simp [opening, entering, hp, Ne.symm hp]

lemma edges_into (hp : β p = some b) : (allEdges β targeted code).filter (fun x => x.target = some p) =
    entering targeted p ++ (places β (some startBlock) code).flatMap (towards p) := by
  have hpn : p < n := by
    obtain ⟨i, hi, rfl⟩ := mem_map.1 (C.pc p b hp); exact C.layout.pc_lt hi
  rw [allEdges, filter_append, Flow.edges_into hp hpn code _ C.layout.next, ← append_assoc, C.fallsFirst_eq p]
  -- a block that falls through to `p` begins before it
  rintro i c hplace - rfl rfl
  obtain ⟨q, hq, hle, -, -⟩ := C.stands hplace
  have := C.layout.lt_next (mem_code_of_places hplace)
  have := C.injective _ _ _ hp hq
  omega

lemma edge_cases (hp : β p = some b) (hx : x ∈ allEdges β targeted code) (ht : x.target = some p) : p = 0 ∨
    ∃ i, (i, x.source) ∈ places β (some startBlock) code ∧ (x.way, some p) ∈ i.successors := by
  have hmem : x ∈ (allEdges β targeted code).filter (fun x => x.target = some p) := mem_filter.2 ⟨hx, by simpa using ht⟩
  rw [C.edges_into hp, mem_append, mem_flatMap] at hmem
  rcases hmem with h | ⟨⟨i, c⟩, hplace, hto⟩
  · unfold entering at h
    split at h
    · rename_i h0; exact .inl h0.2
    · cases h
  · obtain ⟨hc, -, hs⟩ := mem_towards.1 hto; exact .inr ⟨i, by rwa [hc], hs⟩

lemma edge_of_place (hp : β p = some b) (hi : (i, c) ∈ places β (some startBlock) code)
    (hs : (w, some p) ∈ i.successors) : ⟨c, w, some p⟩ ∈ allEdges β targeted code := by
  have hmem : (⟨c, w, some p⟩ : Edge) ∈ (allEdges β targeted code).filter (fun x => x.target = some p) := by
    rw [C.edges_into hp]
    exact mem_append_right _ (mem_flatMap.2 ⟨(i, c), hi, mem_towards.2 ⟨rfl, rfl, hs⟩⟩)
  exact (mem_filter.1 hmem).1

lemma edges_from (hp : β p = some b) :
    Departs b (places β (some startBlock) code) ((allEdges β targeted code).filter fun x => x.source = b) := by
  have hopening : (opening targeted).filter (fun x => x.source = b) = [] := by
    cases targeted with
    | false => rfl
    | true =>
      have hne : startBlock ≠ b := by rintro rfl; simpa using (C.start p).1 hp
      simp [opening, hne]
  rw [allEdges, filter_append, hopening, nil_append]
  refine Flow.edges_from code _ (fun p q => C.injective p q b) ?_ ?_ (fun h i hi => ?_) (by rw [C.final]; simp)
  · exact C.layout.ascending.sorted.imp ne_of_lt
  · obtain ⟨i, hi, rfl⟩ := mem_map.1 (C.pc p b hp); exact ⟨i, hi, hp⟩
  · -- the start block begins at the first instruction
    cases h
    obtain ⟨j, rest, hcode, hpc⟩ := C.code_cons
    rw [hcode] at hi
    cases hi
    rwa [hpc, ← ((C.start p).1 hp).1]

end Cut

lemma Cut.edges_from_start (C : Cut β true n code) :
    (allEdges β true code).filter (fun x => x.source = startBlock) = entering true 0 := by
  obtain ⟨i, rest, hcode, hpc⟩ := C.code_cons
  obtain ⟨b, hb⟩ := C.entry
  have hne : startBlock ≠ b := fun h => by simpa using (C.entry_eq hb).1 h.symm
  have hnone : ∀ j ∈ rest, β j.pc ≠ some startBlock := fun j _ h => by simpa using (C.start j.pc).1 h
  have henters : enters β (some startBlock) i = some b := by simp [enters, hpc, hb]
  have hleaves : leaves β (some startBlock) i ≠ some startBlock := by
    unfold leaves
    split
    · simp
    · rw [henters]; simpa using Ne.symm hne
  rw [allEdges, hcode, edges, filter_append, filter_append, filter_append, edges_outside hleaves hnone, henters,
    toList_some, flatMap_singleton, filter_exitsFrom_ne i (Ne.symm hne), hpc, falls_of_begin hb]
  simp [opening, entering, hne]

end Flow

/-! ## Edges of the graph -/

lemma Way.Is.block (h : w.Is g b e) : (g.node e).block = b := by
  cases w with
  | jump | into | ret => exact h.2
  | taken | fall => exact h.2.1

lemma Way.Is.op_ne (h : w.Is g b e) : (g.node e).op ≠ .phi ∧ (g.node e).op ≠ .forward := by
  cases w <;> rw [h.1] <;> simp

/-- A graph that was made for a piece of code, before it is tidied: the edges of the code are the edges between the
blocks, and control leaves blocks nowhere else. -/
structure Wired (β : Nat → Option BlockId) (targeted : Bool) (n : Nat) (code : List Instruction) (g : Graph)
    (out : List (BlockId × NodeId)) : Prop where
  cut : Flow.Cut β targeted n code
  unpruned : g.Unpruned
  edges : List.Forall₂ (Edge.Is β g) (Flow.allEdges β targeted code) out
  preds : ∀ b, (g.block b).preds = (out.filter fun y => y.1 = b).map Prod.snd
  block_lt : ∀ p b, β p = some b → b.index < g.blocks.size
  cover : ∀ b, b.index < g.blocks.size → b = Graph.startBlock ∨ b = Graph.endBlock ∨ ∃ p, β p = some b
  pc : ∀ p b, (g.block b).pc? = some p ↔ β p = some b
  lt : ∀ y ∈ out, y.2.index < g.nodes.size
  nodup : (out.map Prod.snd).Nodup
  exits : ∀ k, k.index < g.nodes.size → (g.node k).IsExit → k ∈ out.map Prod.snd ∨ g.Splits out k

namespace Wired

variable {β : Nat → Option BlockId} {targeted : Bool} {n : Nat} {code : List Instruction}
  {out : List (BlockId × NodeId)}

variable (W : Wired β targeted n code g out)

include W

lemma mem_preds : e ∈ (g.block c).preds ↔ (c, e) ∈ out := by
  rw [W.preds, List.mem_map]
  constructor
  · rintro ⟨⟨d, k⟩, h, rfl⟩
    obtain ⟨hmem, hd⟩ := mem_filter.1 h
    obtain rfl : d = c := by simpa using hd
    exact hmem
  · exact fun h => ⟨(c, e), mem_filter.2 ⟨h, by simp⟩, rfl⟩

lemma edge_of_out (h : (c, e) ∈ out) : ∃ x ∈ allEdges β targeted code, Edge.Is β g x (c, e) :=
  forall₂_mem_right W.edges h

lemma predBlock_eq (h : (c, e) ∈ out) : g.predBlock e = (g.node e).block := by
  obtain ⟨x, -, -, hw⟩ := W.edge_of_out h
  rw [predBlock, W.unpruned.settled.resolve_of_op hw.op_ne.2]

lemma target_eq {y : BlockId × NodeId} (h : Edge.Is β g x y) (hp : β p = some b) : y.1 = b ↔ x.target = some p := by
  have hl := h.1
  cases ht : x.target with
  | none =>
    rw [ht] at hl
    refine ⟨fun hb => ?_, fun h => by cases h⟩
    rw [← hb, ← some.inj hl] at hp; exact absurd hp (W.cut.ne_end p)
  | some q =>
    rw [ht] at hl
    constructor
    · rintro rfl; rw [W.cut.injective p q _ hp hl]
    · rintro ⟨⟩; exact some.inj (hl.symm.trans hp)

lemma reached_edge (hx : x ∈ allEdges β targeted code)
    (ht : x.target = some p) (hp : β p = some b) (hr : g.Reached x.source) : g.Reached b := by
  obtain ⟨⟨c, e⟩, hout, h⟩ := forall₂_mem_left W.edges hx
  obtain rfl : c = b := (W.target_eq h hp).2 ht
  refine .edge ?_ (W.mem_preds.2 hout)
  rwa [W.predBlock_eq hout, h.2.block]

lemma reaches_of_walk : ∀ {w : Graph.Walk}, g.IsWalk w → ∀ p, β p = some w.last → Reaches code p
  | [], _, p, hp => by
    rw [((W.cut.start p).1 hp).1]; exact .entry
  | (b, k) :: w, hw, p, hp => by
    obtain ⟨hk, hw⟩ := hw
    obtain ⟨e, he, hlast⟩ := map_eq_some_iff.1 hk
    have hout := W.mem_preds.1 (mem_of_getElem? he)
    obtain ⟨x, hx, h⟩ := W.edge_of_out hout
    have hsource : x.source = Graph.Walk.last w := by rw [← hlast, W.predBlock_eq hout, h.2.block]
    rcases W.cut.edge_cases hp hx ((W.target_eq h hp).1 rfl) with rfl | ⟨i, hplace, hs⟩
    · exact .entry
    · obtain ⟨q, hq, -, -, hreach⟩ := W.cut.stands hplace
      exact .step (mem_code_of_places hplace) (hreach (reaches_of_walk hw q (hsource ▸ hq))) hs

lemma reached_of_reaches (hr : Reaches code p) : ∀ i ∈ code, i.pc = p →
    ∀ b, (i, b) ∈ places β (some startBlock) code → g.Reached b := by
  have hstart : g.Reached startBlock := ⟨[], trivial, rfl⟩
  induction hr with
  | entry =>
    intro i hi hpc b hb
    obtain ⟨b0, hb0⟩ := W.cut.entry
    obtain rfl := W.cut.places_inj hb (mem_places_of_begin (by rwa [hpc]) hi)
    cases targeted with
    | false => rwa [(W.cut.entry_eq hb0).2 rfl]
    | true =>
      refine W.reached_edge (x := ⟨startBlock, .into, some 0⟩) ?_ rfl hb0 hstart
      exact mem_append_left _ (by simp [opening])
  | @step j w p hj hrj hs ih =>
    intro i hi hpc b hb
    subst hpc
    obtain ⟨c, hc⟩ := W.cut.placed hrj j hj rfl
    have hrc := ih j hj rfl c hc
    cases hβ : β i.pc with
    | none =>
      obtain rfl := W.cut.places_inj hb (W.cut.placed_next hi hj hs hβ hc); exact hrc
    | some b0 =>
      obtain rfl := W.cut.places_inj hb (mem_places_of_begin hβ hi)
      exact W.reached_edge (W.cut.edge_of_place hβ hc hs) rfl hβ hrc

lemma reached_iff (hp : β p = some b) : g.Reached b ↔ Reaches code p := by
  constructor
  · rintro ⟨w, hw, rfl⟩; exact W.reaches_of_walk hw p hp
  · intro hr
    obtain ⟨i, hi, rfl⟩ := mem_map.1 (W.cut.pc p b hp)
    exact W.reached_of_reaches hr i hi rfl b (mem_places_of_begin hp hi)

/-- The block of an instruction is reached just if the instruction is. -/
lemma reached_place (h : (i, b) ∈ places β (some startBlock) code) : g.Reached b ↔ Reaches code i.pc := by
  obtain ⟨q, hq, -, -, hreach⟩ := W.cut.stands h
  exact ⟨fun hb => hreach ((W.reached_iff hq).1 hb), fun hr => W.reached_of_reaches hr i (mem_code_of_places h) rfl b h⟩

end Wired

end JvmGraph
