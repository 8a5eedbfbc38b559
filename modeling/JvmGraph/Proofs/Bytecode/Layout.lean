import Mathlib.Data.List.Nodup
import JvmGraph.Bytecode.Boundaries
import JvmGraph.Proofs.Steps

/-!
# How instructions lie in the code

Reading never goes back, and an instruction takes a byte at least. So the addresses of instructions
increase from 0 on, and each instruction ends where the next one begins. Decoding stops where no instruction can
be read, be it the end of the code or not.
-/

namespace JvmGraph

open Reader Steps List Bytecode Prod Text

variable {i j : Instruction} {pc : Nat} {s s' : Input} {bs : List Nat} {n : Nat} {ops : List (Nat × Operation)}

/-- A reader takes its bytes off the front of the input, and what follows them does not matter to it. -/
def Advances {α : Type} (r : Reader α) : Prop :=
  ∀ s a s', r s = .ok (a, s') → ∃ b, s.rest = b ++ s'.rest ∧ s'.position = s.position + b.length ∧
    ∀ x, r ⟨s.position, b ++ x⟩ = .ok (a, ⟨s'.position, x⟩)

namespace Advances

variable {α β : Type} {x : Reader α}

lemma pure {a : α} : Advances (pure a : Reader α) := by
  intro s b s' h
  cases h
  exact ⟨[], rfl, rfl, fun _ => rfl⟩

lemma throw {e : Error} : Advances (throw e : Reader α) := by
  intro s b s' h
  cases h

lemma bind {f : α → Reader β} (hx : Advances x) (hf : ∀ a, Advances (f a)) : Advances (x >>= f) := by
  intro s b s' h
  obtain ⟨a, s1, h1, h2⟩ := state_bind_ok.1 h
  obtain ⟨b1, hrest1, hposition1, hread1⟩ := hx s a s1 h1
  obtain ⟨b2, hrest2, hposition2, hread2⟩ := hf a s1 b s' h2
  refine ⟨b1 ++ b2, by rw [hrest1, hrest2, append_assoc], ?_, fun y => state_bind_ok.2 ⟨a, _, ?_, hread2 y⟩⟩
  · rw [hposition2, hposition1, length_append, Nat.add_assoc]
  · rw [append_assoc]; exact hread1 _

lemma ite {c : Prop} [Decidable c] {y : Reader α} (hx : Advances x) (hy : Advances y) :
    Advances (if c then x else y) := by
  split
  · exact hx
  · exact hy

/-! ## Numbers and tables -/

lemma u8 : Advances u8 := by
  intro s a s' h
  obtain ⟨position, rest⟩ := s
  cases rest with
  | nil => cases h
  | cons b rest =>
    cases h
    exact ⟨[_], rfl, rfl, fun _ => rfl⟩

lemma u16 : Advances u16 := u8.bind fun _ => u8.bind fun _ => pure

lemma u32 : Advances u32 := u16.bind fun _ => u16.bind fun _ => pure

lemma i8 : Advances i8 := u8.bind fun _ => pure

lemma i16 : Advances i16 := u16.bind fun _ => pure

lemma i32 : Advances i32 := u32.bind fun _ => pure

lemma index8 : Advances index8 := u8.bind fun _ => pure

lemma take : Advances (take n) := by
  intro s a s' h
  obtain ⟨position, rest⟩ := s
  simp only [Reader.take] at h
  split at h
  · rename_i hn
    cases h
    refine ⟨rest.take n, (take_append_drop n rest).symm, by rw [hn], fun x => ?_⟩
    simp only [Reader.take, take_left' hn, drop_left' hn, hn, if_true]
  · cases h

lemma times {r : Reader α} (hr : Advances r) (n : Nat) : Advances (times n r) := by
  have after : ∀ n done, Advances (timesAfter r done n) := by
    intro n
    induction n with
    | zero => exact fun _ => pure
    | succ n ih => exact fun _ => hr.bind fun _ => ih _
  exact after n []

lemma zero : Advances zero := u8.bind fun _ => ite throw pure

lemma entry {table : List α} {i : Nat} : Advances (Bytecode.entry table i) := by
  unfold Bytecode.entry
  split
  · exact pure
  · exact throw

/-! ## Families of instructions -/

lemma constantAt {i : Nat} : Advances (constantAt i) :=
  ite pure <| ite pure <| ite pure <| ite pure <| ite pure <| ite pure <| ite (i8.bind fun _ => pure) <|
    ite (i16.bind fun _ => pure) <| ite (index8.bind fun _ => pure) (u16.bind fun _ => pure)

lemma accessAt {ofLocal : Kind → UInt16 → Operation} {ofElement : Kind → Operation} {i : Nat} :
    Advances (accessAt ofLocal ofElement i) :=
  ite (entry.bind fun _ => index8.bind fun _ => pure) <| ite (entry.bind fun _ => pure) (entry.bind fun _ => pure)

lemma arithmeticAt {i : Nat} : Advances (arithmeticAt i) :=
  ite (entry.bind fun _ => entry.bind fun _ => pure) <| ite (entry.bind fun _ => entry.bind fun _ => pure)
    (index8.bind fun _ => i8.bind fun _ => pure)

lemma entryCount {low high : Int32} : Advances (entryCount low high) := by
  refine ite (throw.bind fun _ => ?_) ?_
  all_goals
    split
    · exact pure
    · exact throw

lemma tableSwitch : Advances (tableSwitch pc) :=
  take.bind fun _ => i32.bind fun _ => i32.bind fun _ => i32.bind fun _ => entryCount.bind fun n =>
    (i32.times n).bind fun _ => pure

lemma lookupSwitch : Advances (lookupSwitch pc) :=
  take.bind fun _ => i32.bind fun _ => u32.bind fun n =>
    (times (i32.bind fun _ => i32.bind fun _ => pure) n.toNat).bind fun _ => pure

lemma wide : Advances wide :=
  u8.bind fun _ => ite (entry.bind fun _ => u16.bind fun _ => pure) <|
    ite (entry.bind fun _ => u16.bind fun _ => pure) <|
    ite (u16.bind fun _ => pure) <| ite (u16.bind fun _ => i16.bind fun _ => pure) throw

lemma branchTo {operation : Nat → Operation} : Advances (branchTo pc operation) :=
  i16.bind fun _ => pure

lemma plainAt {op : Nat} : Advances (plainAt pc op) :=
  ite constantAt <| ite accessAt <| ite accessAt <| ite entry <| ite arithmeticAt <| ite entry <| ite entry <|
    ite (i16.bind fun _ => pure) <| ite (u8.bind fun _ => pure) <| ite tableSwitch <| ite lookupSwitch <|
    ite (entry.bind fun _ => pure) <| ite (entry.bind fun _ => u16.bind fun _ => pure) <|
    ite (u16.bind fun _ => u8.bind fun _ => zero.bind fun _ => pure) <|
    ite (u16.bind fun _ => zero.bind fun _ => zero.bind fun _ => pure) <| ite (u16.bind fun _ => pure) <|
    ite (u16.bind fun _ => pure) <| ite pure <| ite pure <| ite (u16.bind fun _ => pure) <|
    ite (u16.bind fun _ => pure) <| ite pure <| ite wide <| ite (u16.bind fun _ => u8.bind fun _ => pure) <|
    ite (i32.bind fun _ => pure) throw

lemma operationAt : Advances (operationAt pc) :=
  u8.bind fun _ => ite (entry.bind fun _ => branchTo) <| ite branchTo <| ite (u8.bind fun _ => pure) <| ite branchTo <|
    ite branchTo <| ite (i32.bind fun _ => pure) (plainAt.bind fun _ => pure)

end Advances

/-! ## Code -/

namespace Bytecode

variable {code rest : Bytes} {list : List (Nat × Except Error Operation)}

def Encodes (pc : Nat) (b : Text.Bytes) (op : Except Error Operation) : Prop :=
  b ≠ [] ∧ ∀ x, instruction ⟨pc, b ++ x⟩ = .ok ((pc, op), ⟨pc + b.length, x⟩)

/-- The bytes are those of the instructions one after the other, the first of them at `pc`. -/
inductive Tiles : Nat → List (Nat × Except Error Operation) → Text.Bytes → Prop
  | nil {pc : Nat} : Tiles pc [] []
  | cons {pc : Nat} {b code : Text.Bytes} {op : Except Error Operation} {list : List (Nat × Except Error Operation)} :
    Encodes pc b op → Tiles (pc + b.length) list code → Tiles pc ((pc, op) :: list) (b ++ code)

def Stuck (pc : Nat) (rest : Text.Bytes) : Prop := ∃ e, instruction ⟨pc, rest⟩ = .error e ∧ ¬ e.isBreakdown

/-- An instruction begins where it is read, and takes a byte at least. -/
lemma encodes_of_ok {pc' position : Nat} {op : Except Error Operation}
    (h : instruction ⟨pc, code⟩ = .ok ((pc', op), ⟨position, rest⟩)) :
    ∃ b, Encodes pc b op ∧ pc' = pc ∧ code = b ++ rest ∧ position = pc + b.length := by
  obtain ⟨_, _, hget, h⟩ := state_bind_ok.1 h
  cases hget
  obtain ⟨_, _, h1, h⟩ := state_bind_ok.1 h
  cases h
  obtain ⟨b, hcode, hposition, hread⟩ := Advances.operationAt _ _ _ h1
  refine ⟨b, ⟨?_, fun x => ?_⟩, rfl, hcode, hposition⟩
  · rintro rfl; cases hread []
  · rw [← show position = pc + b.length from hposition]
    exact state_bind_ok.2 ⟨_, _, rfl, state_bind_ok.2 ⟨op, _, hread x, rfl⟩⟩

lemma Tiles.ascending (h : Tiles pc list code) :
    (list.map fst).Pairwise (· < ·) ∧ (∀ p ∈ list.map fst, pc ≤ p ∧ p < pc + code.length) ∧
      ∀ p, (list.map fst).head? = some p → p = pc := by
  induction h with
  | nil => simp
  | @cons pc b code op list hb _ ih =>
    obtain ⟨hsorted, hrange, -⟩ := ih
    have hpos := length_pos_iff.2 hb.1
    refine ⟨pairwise_cons.2 ⟨fun p hp => ?_, hsorted⟩, forall_mem_cons.2 ⟨?_, fun p hp => ?_⟩, by simp⟩
    · have := hrange p hp; omega
    · rw [length_append]; omega
    · have := hrange p hp; rw [length_append]; omega

lemma tiles_of_instructions :
    ∀ {fuel : Nat} {done list : List (Nat × Except Error Operation)} {pc : Nat} {code : Bytes},
    code.length ≤ fuel → instructions done fuel ⟨pc, code⟩ = .ok list → ∃ new tiled rest,
      list = done.reverse ++ new ∧ code = tiled ++ rest ∧ Tiles pc new tiled ∧ Stuck (pc + tiled.length) rest
  | 0, done, list, pc, code, hfuel, h => by
    obtain rfl : code = [] := length_eq_zero_iff.1 (by omega)
    cases h
    exact ⟨[], [], [], (append_nil _).symm, rfl, .nil, .truncated, rfl, by decide⟩
  | fuel + 1, done, list, pc, code, hfuel, h => by
    unfold instructions at h
    cases hi : instruction ⟨pc, code⟩ with
    | error e =>
      simp only [hi] at h
      split at h
      · cases h
      · rename_i he
        cases h
        exact ⟨[], [], code, (append_nil _).symm, rfl, .nil, e, hi, he⟩
    | ok p =>
      obtain ⟨⟨pc', op⟩, ⟨position, next⟩⟩ := p
      simp only [hi] at h
      obtain ⟨b, hb, rfl, rfl, rfl⟩ := encodes_of_ok hi
      have hpos := length_pos_iff.2 hb.1
      rw [length_append] at hfuel
      obtain ⟨new, tiled, rest, rfl, rfl, htiles, hstuck⟩ := tiles_of_instructions (by omega) h
      refine ⟨(_, op) :: new, b ++ tiled, rest, by simp, (append_assoc ..).symm, .cons hb htiles, ?_⟩
      rwa [length_append, ← Nat.add_assoc]

lemma Tiles.instructions_eq {tiled : Bytes} (h : Tiles pc list tiled)
    (hstuck : Stuck (pc + tiled.length) rest) : ∀ {fuel : Nat} {done : List (Nat × Except Error Operation)},
    (tiled ++ rest).length ≤ fuel → instructions done fuel ⟨pc, tiled ++ rest⟩ = .ok (done.reverse ++ list) := by
  induction h with
  | nil =>
    intro fuel done _
    obtain ⟨e, he, hbreakdown⟩ := hstuck
    cases fuel with
    | zero => simp [instructions]
    | succ fuel =>
      simp only [length_nil, Nat.add_zero] at he; simp [instructions, he, hbreakdown]
  | @cons pc b code op list hb _ ih =>
    intro fuel done hfuel
    have hpos := length_pos_iff.2 hb.1
    rw [append_assoc, length_append] at hfuel
    obtain ⟨fuel, rfl⟩ := Nat.exists_eq_add_one_of_ne_zero (show fuel ≠ 0 by omega)
    rw [length_append, ← Nat.add_assoc] at hstuck
    rw [append_assoc, instructions, hb.2]
    simpa using @ih hstuck fuel ((pc, op) :: done) (by omega)

lemma mapM_ok_iff : ∀ {list : List (Nat × Except Error Operation)} {ops : List (Nat × Operation)},
    (list.mapM fun (pc, operation) => do return (pc, ← operation) : Except Error (List (Nat × Operation))) = .ok ops ↔
      list = ops.map fun i => (i.1, .ok i.2)
  | [], ops => by
    constructor
    · intro h
      cases h
      rfl
    · intro h; rw [map_eq_nil_iff.1 h.symm]; rfl
  | (pc, operation) :: rest, ops => by
    rw [mapM_cons, except_bind_ok]
    constructor
    · rintro ⟨i, hi, h⟩
      obtain ⟨ops', hrest, h⟩ := except_bind_ok.1 h
      obtain ⟨op, rfl, hi⟩ := except_bind_ok.1 hi
      cases h
      cases hi
      rw [mapM_ok_iff.1 hrest]; rfl
    · intro h
      obtain ⟨i, ops', rfl, hi, hrest⟩ := map_eq_cons_iff.1 h.symm
      cases hi
      exact ⟨i, rfl, except_bind_ok.2 ⟨ops', mapM_ok_iff.2 hrest.symm, rfl⟩⟩

/-- Code is decoded up to the first place where no instruction can be read, and without a word about what is left
there. The instructions up to that place lie one after the other from address 0 on. -/
theorem decode_tiles (code : Text.Bytes) (ops : List (Nat × Operation)) : decode code = .ok ops ↔
    ∃ tiled rest, code = tiled ++ rest ∧ Tiles 0 (ops.map fun i => (i.1, .ok i.2)) tiled ∧ Stuck tiled.length rest := by
  rw [decode, except_bind_ok]
  constructor
  · rintro ⟨list, hlist, h⟩
    obtain ⟨new, tiled, rest, rfl, hcode, htiles, hstuck⟩ := tiles_of_instructions (Nat.le_refl _) hlist
    rw [Nat.zero_add] at hstuck
    exact ⟨tiled, rest, hcode, mapM_ok_iff.1 h ▸ htiles, hstuck⟩
  · rintro ⟨tiled, rest, rfl, htiles, hstuck⟩
    exact ⟨_, htiles.instructions_eq (by rwa [Nat.zero_add]) (Nat.le_refl _), mapM_ok_iff.2 rfl⟩

end Bytecode

/-! ## Addresses -/

/-- Addresses that increase from 0 on and stay below a bound. -/
structure Ascending (bound : Nat) (pcs : List Nat) : Prop where
  sorted : pcs.Pairwise (· < ·)
  lt : ∀ pc ∈ pcs, pc < bound
  head : ∀ pc, pcs.head? = some pc → pc = 0

namespace Bytecode

lemma decode_ascending {code : Bytes} (h : decode code = .ok ops) : Ascending code.length (ops.map fst) := by
  obtain ⟨list, hlist, hops⟩ := except_bind_ok.1 h
  obtain ⟨_, tiled, rest, rfl, rfl, htiles, -⟩ := tiles_of_instructions (by omega) hlist
  rw [mapM_ok_iff.1 hops] at htiles
  obtain ⟨hsorted, hrange, hhead⟩ := htiles.ascending
  have hfst : ops.map fst = (ops.map fun i => (i.1, (.ok i.2 : Except Error Operation))).map fst := by
    simp
  rw [hfst]
  refine ⟨hsorted, fun p hp => ?_, hhead⟩
  have := hrange p hp
  rw [length_append]
  omega

end Bytecode

structure Layout (n : Nat) (code : List Instruction) : Prop where
  ascending : Ascending n (code.map Instruction.pc)
  next : ∀ pre i post, code = pre ++ i :: post → i.next = (post.head?.map Instruction.pc).getD n

namespace Instruction

lemma map_pc_ofDecoded (n : Nat) : ∀ ops, (ofDecoded n ops).map Instruction.pc = ops.map fst
  | [] => rfl
  | [_] => rfl
  | x :: y :: ops => congrArg (x.1 :: ·) (map_pc_ofDecoded n (y :: ops))

lemma next_ofDecoded (n : Nat) : ∀ ops pre i post, ofDecoded n ops = pre ++ i :: post →
    i.next = (post.head?.map Instruction.pc).getD n
  | [], pre, i, post, h => by
    have : ([] : List Instruction) = pre ++ i :: post := h; simp at this
  | [x], pre, i, post, h => by
    have e : [⟨x.1, x.2, n⟩] = pre ++ i :: post := h
    cases pre with
    | nil =>
      cases e
      rfl
    | cons j pre => simp at e
  | x :: y :: ops, pre, i, post, h => by
    have e : ⟨x.1, x.2, y.1⟩ :: ofDecoded n (y :: ops) = pre ++ i :: post := h
    cases pre with
    | nil =>
      cases e
      cases ops <;> rfl
    | cons j pre =>
      rw [cons_append, cons.injEq] at e; exact next_ofDecoded n (y :: ops) pre i post e.2

lemma layout_ofDecoded (h : Ascending n (ops.map fst)) : Layout n (ofDecoded n ops) :=
  ⟨by rwa [map_pc_ofDecoded], next_ofDecoded n ops⟩

end Instruction

namespace Layout

variable {code : List Instruction}

section

variable (L : Layout n code) {pre post : List Instruction}

include L

lemma pc_lt (hi : i ∈ code) : i.pc < n :=
  L.ascending.lt i.pc (mem_map_of_mem hi)

lemma next_le (h : code = pre ++ i :: post) (hj : j ∈ post) : i.next ≤ j.pc := by
  have hs := L.ascending.sorted
  rw [L.next pre i post h]
  cases post with
  | nil => cases hj
  | cons k post =>
    rw [h, map_append, pairwise_append] at hs
    rcases mem_cons.1 hj with rfl | hj
    · exact Nat.le_refl _
    · have := (pairwise_cons.1 (pairwise_cons.1 hs.2.1).2).1 j.pc (mem_map_of_mem hj)
      exact Nat.le_of_lt this

lemma lt_next (hi : i ∈ code) : i.pc < i.next := by
  obtain ⟨pre, post, h⟩ := append_of_mem hi
  have hs := L.ascending.sorted
  rw [L.next pre i post h]
  cases post with
  | nil => exact L.pc_lt hi
  | cons k post =>
    rw [h, map_append, pairwise_append] at hs
    exact (pairwise_cons.1 hs.2.1).1 k.pc (by simp)

lemma pc_between {k : Instruction} (h : code = pre ++ i :: j :: post) (hk : k ∈ code) : k.pc ≤ i.pc ∨ j.pc ≤ k.pc := by
  have hs := L.ascending.sorted
  rw [h, map_append, pairwise_append] at hs
  rw [h, mem_append] at hk
  rcases hk with hk | hk
  · exact .inl (Nat.le_of_lt (hs.2.2 k.pc (mem_map_of_mem hk) i.pc (by simp)))
  · rcases mem_cons.1 hk with rfl | hk
    · exact .inl (by omega)
    · rcases mem_cons.1 hk with rfl | hk
      · exact .inr (by omega)
      · have := (pairwise_cons.1 (pairwise_cons.1 hs.2.1).2).1 k.pc (mem_map_of_mem hk)
        exact .inr (by omega)

lemma nodup : code.Nodup := .of_map _ (L.ascending.sorted.imp Nat.ne_of_lt)

lemma head_pc {rest : List Instruction} (h : code = i :: rest) : i.pc = 0 :=
  L.ascending.head i.pc (by simp [h])

lemma eq_of_pc (hi : i ∈ code) (hj : j ∈ code) (h : i.pc = j.pc) : i = j :=
  inj_on_of_nodup_map (L.ascending.sorted.imp Nat.ne_of_lt) hi hj h

lemma eq_zero_of_pc {k : Nat} (hi : code[k]? = some i) (h : i.pc = 0) : k = 0 := by
  obtain ⟨hk, hget⟩ := List.getElem?_eq_some_iff.1 hi
  have hlt : 0 < code.length := Nat.lt_of_le_of_lt (by omega) hk
  obtain ⟨j, rest, hcode⟩ := List.exists_cons_of_length_pos hlt
  have hj : code[0] = j := by simp [hcode]
  have heq : code[k] = code[0] := by
    rw [hget, hj]
    exact L.eq_of_pc (List.mem_of_getElem? hi) (by simp [hcode]) (h.trans (L.head_pc hcode).symm)
  exact (L.nodup.getElem_inj_iff).1 heq

end

end Layout

/-! ## Boundaries -/

lemma Marks.has_ofList {p : Nat} {ns : List Nat} : (Marks.ofList n ns).has p = true ↔ p ∈ ns ∧ p < n := by
  have fold : ∀ (ns : List Nat) (s : Marks), (ns.foldl Marks.insert s).has p = true ↔
      p ∈ ns ∧ p < s.marked.size ∨ s.has p = true := by
    intro ns
    induction ns with
    | nil => simp
    | cons m ns ih =>
      intro s
      rw [foldl_cons, ih, Marks.has_insert]
      simp only [Marks.insert]
      grind
  rw [Marks.ofList, fold, Marks.has_empty]
  simp [Marks.empty]

structure Boundaries (n : Nat) (code : List Instruction) (bs : List Nat) : Prop where
  sorted : bs.Pairwise (· < ·)
  zero : 0 ∈ bs
  pc : ∀ p ∈ bs, p = 0 ∨ p ∈ code.map Instruction.pc
  mark : ∀ i ∈ code, ∀ p ∈ i.marks, p ∈ bs ∧ p ∈ code.map Instruction.pc

lemma Boundaries.cons {code : List Instruction} (B : Boundaries n code bs) : ∃ rest, bs = 0 :: rest := by
  have hzero := B.zero
  cases bs with
  | nil => cases hzero
  | cons b rest =>
    rcases mem_cons.1 hzero with rfl | h
    · exact ⟨rest, rfl⟩
    · exact absurd ((pairwise_cons.1 B.sorted).1 0 h) (Nat.not_lt_zero b)

lemma Except.forM_ok {ε α : Type} {f : α → Except ε Unit} : ∀ {l : List α}, l.forM f = .ok () → ∀ a ∈ l, f a = .ok ()
  | [], _, a, ha => by cases ha
  | b :: l, h, a, ha => by
    change (f b >>= fun _ => l.forM f) = .ok () at h
    cases hb : f b with
    | error e => rw [hb] at h; cases h
    | ok u =>
      rw [hb] at h
      rcases mem_cons.1 ha with rfl | ha
      · exact hb
      · exact Except.forM_ok h a ha

namespace Bytecode

variable {code : List Instruction}

lemma boundaries_ok (h : boundaries n code = .ok bs) :
    (∀ i ∈ code, ∀ p ∈ i.marks, p ∈ code.map Instruction.pc ∧ p < n) ∧
    bs = 0 :: (code.map Instruction.pc).filter fun pc => pc ≠ 0 &&
    (Marks.ofList n (code.flatMap Instruction.marks)).has pc := by
  unfold boundaries at h
  simp only at h
  cases hc : (code.forM fun i => i.marks.forM fun target =>
      if (Marks.ofList n (code.map Instruction.pc)).has target then pure ()
      else throw (.invalidBranchTarget i.pc target) : Except Error Unit) with
  | error e => rw [hc] at h; cases h
  | ok u =>
    rw [hc] at h
    cases h
    refine ⟨fun i hi p hp => ?_, rfl⟩
    have hall := Except.forM_ok (Except.forM_ok hc i hi) p hp
    by_contra hn
    rw [if_neg (by rwa [Marks.has_ofList])] at hall; cases hall

lemma boundaries_spec (h : boundaries n code = .ok bs) (L : Layout n code) : Boundaries n code bs := by
  obtain ⟨hmarks, rfl⟩ := boundaries_ok h
  refine ⟨?_, by simp, fun p hp => ?_, fun i hi p hp => ⟨?_, (hmarks i hi p hp).1⟩⟩
  · rw [pairwise_cons]
    refine ⟨fun p hp => ?_, L.ascending.sorted.filter _⟩
    grind
  · rcases mem_cons.1 hp with rfl | hp
    · exact .inl rfl
    · exact .inr (mem_filter.1 hp).1
  · by_cases hz : p = 0
    · simp [hz]
    · refine .tail _ (mem_filter.2 ⟨(hmarks i hi p hp).1, ?_⟩)
      have : (Marks.ofList n (code.flatMap Instruction.marks)).has p = true :=
        Marks.has_ofList.2 ⟨mem_flatMap.2 ⟨i, hi, hp⟩, (hmarks i hi p hp).2⟩
      simp [hz, this]

end Bytecode

end JvmGraph
