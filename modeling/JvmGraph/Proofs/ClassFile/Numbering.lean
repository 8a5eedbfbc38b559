import JvmGraph.Proofs.ClassFile.RoundTrip

/-!
# Numbers of constants
The constants of a class file are numbered from 1 on, and a wide one takes two numbers. A number finds the constant
that it was given to, and the numbers that were given to none find nothing.
-/

namespace JvmGraph

open Text List

namespace Constant

def width (c : Constant) : Nat := if c.isWide then 2 else 1

def widths : List Constant → Nat
  | [] => 0
  | c :: cs => c.width + widths cs

def place (cs : List Constant) (j : Nat) : Nat := 1 + widths (cs.take j)

/-- Before each constant there is an index left of those that are counted. -/
lemma Fill.widths_lt : ∀ {cs : List Constant} {n j : Nat}, Fill cs n → j < cs.length → widths (cs.take j) < n
  | c :: cs, n, 0, h, _ => h.1
  | c :: cs, n, j + 1, h, hj => by
    have hrest := h.2.widths_lt (Nat.lt_of_succ_lt_succ hj)
    rw [length_entries] at hrest
    rw [take_succ_cons, widths, width]; omega

end Constant

namespace ConstantPool

open Constant (place widths)

structure Numbers (p : ConstantPool) (cs : List Constant) : Prop where
  placed : ∀ j c, cs[j]? = some c → ∃ i : UInt16, i.toNat = place cs j ∧ p.get i = .ok c
  found : ∀ (i : UInt16) c, p.get i = .ok c → ∃ j, cs[j]? = some c ∧ i.toNat = place cs j
  unplaced : ∀ i : UInt16, (∀ j < cs.length, i.toNat ≠ place cs j) → p.get i = .error (.invalidConstantIndex i)
  zero : p.get 0 = .error (.invalidConstantIndex 0)
  behind_wide : ∀ (i k : UInt16) c, p.get i = .ok c → c.isWide → k.toNat = i.toNat + 1 →
    p.get k = .error (.invalidConstantIndex k)
  beyond : ∀ i : UInt16, p.count ≤ i.toNat → p.get i = .error (.invalidConstantIndex i)
  indexed : ∀ j, p.indexed[j]? = cs[j]?.map fun c => (place cs j, c)

variable {p : ConstantPool} {i : Nat} {index : UInt16} {c : Constant}

lemma getElem?_indexed_entries : ∀ (cs : List Constant) (j k : Nat),
    (((cs.flatMap Constant.entries).zipIdx k).filterMap fun p => p.1.map fun c => (p.2, c))[j]? =
      cs[j]?.map fun c => (k + widths (cs.take j), c)
  | [], j, k => by simp
  | c :: cs, 0, k => by
    rw [flatMap_cons, Constant.entries]
    split <;> simp [widths]
  | c :: cs, j + 1, k => by
    have hrest := getElem?_indexed_entries cs j (k + c.width)
    rw [flatMap_cons, zipIdx_append, Constant.length_entries, ← Constant.width, filterMap_append]
    have hone : ((c.entries.zipIdx k).filterMap fun p => p.1.map fun c => (p.2, c)) = [(k, c)] := by
      rw [Constant.entries]
      split <;> simp
    rw [hone, singleton_append, List.getElem?_cons_succ, hrest, List.getElem?_cons_succ, take_succ_cons, widths,
      Nat.add_assoc]

lemma getElem?_indexed (cs : List Constant) (j : Nat) :
    (ofConstants cs).indexed[j]? = cs[j]?.map fun c => (place cs j, c) := by
  rw [place, ← getElem?_indexed_entries cs j 1]
  rfl

lemma mem_indexed : (i, c) ∈ p.indexed ↔ p.entries[i]? = some (some c) := by
  simp [ConstantPool.indexed, mem_zipIdx_iff_getElem?]

lemma get_eq_ok_iff : p.get index = .ok c ↔ p.entries[index.toNat]? = some (some c) := by
  rw [get, get?, Array.getD_eq_getD_getElem?]
  cases p.entries[index.toNat]? with
  | none => simp
  | some c? => cases c? <;> simp

lemma get_eq_error (h : ∀ c, p.entries[index.toNat]? ≠ some (some c)) :
    p.get index = .error (.invalidConstantIndex index) := by
  cases hget : p.get index with
  | ok c => exact absurd (get_eq_ok_iff.1 hget) (h c)
  | error e =>
    rw [get] at hget
    split at hget <;> cases hget
    rfl

lemma numbers_ofConstants {cs : List Constant} {n : UInt16} (h : Constant.Fill cs (n.toNat - 1)) :
    (ofConstants cs).Numbers cs := by
  have hentry (i : Nat) (c : Constant) :
      (ofConstants cs).entries[i]? = some (some c) ↔ ∃ j, cs[j]? = some c ∧ i = place cs j := by
    rw [← mem_indexed, mem_iff_getElem?]
    simp only [getElem?_indexed, Option.map_eq_some_iff, Prod.mk.injEq]
    constructor
    · rintro ⟨j, c, hj, rfl, rfl⟩; exact ⟨j, hj, rfl⟩
    · rintro ⟨j, hj, rfl⟩; exact ⟨j, c, hj, rfl, rfl⟩
  obtain ⟨hzero, hnone⟩ := isLaidOut_ofConstants cs
  refine ⟨fun j c hj => ?_, fun i c hi => (hentry _ c).1 (get_eq_ok_iff.1 hi), fun i hi => get_eq_error fun c hc => ?_,
    get_eq_error fun c => ?_, fun i k c hi hc hk => get_eq_error fun d => ?_, fun i hi => get_eq_error fun c => ?_,
    getElem?_indexed cs⟩
  · have hlt := h.widths_lt (List.getElem?_eq_some_iff.1 hj).1
    have hi : (UInt16.ofNat (place cs j)).toNat = place cs j := by
      rw [UInt16.toNat_ofNat', place]
      have := n.toNat_lt; omega
    exact ⟨_, hi, get_eq_ok_iff.2 ((hentry _ c).2 ⟨j, hj, hi⟩)⟩
  · obtain ⟨j, hj, hplace⟩ := (hentry _ c).1 hc
    exact hi j (List.getElem?_eq_some_iff.1 hj).1 hplace
  · simp [hzero]
  · simp [hk, (hnone i.toNat).2 ⟨c, get_eq_ok_iff.1 hi, hc⟩]
  · simp [Array.getElem?_eq_none hi]

end ConstantPool

/-- The constants of a class file stand one after the other behind their count, and each has as its index one more
than the constants before it take up. These are the indices that find a constant. -/
theorem parse_numbers {b : Bytes} {cf : ClassFile} (h : ClassFile.parse b = .ok cf) :
    ∃ (head : Bytes) (n : UInt16) (cs : List Constant), head.length = 8 ∧
      head ++ bigEndian 2 n.toNat ++ cs.flatMap Constant.written <+: b ∧ (∀ c ∈ cs, c.Fits) ∧
      Constant.Fill cs (n.toNat - 1) ∧ cf.pool.Numbers cs := by
  obtain ⟨f, hvalid, rfl, rfl⟩ := parse_ok.1 h
  exact ⟨bigEndian 4 0xcafebabe ++ bigEndian 2 f.minorVersion.toNat ++ bigEndian 2 f.majorVersion.toNat, f.poolCount,
    f.constants, by simp, by simp [ClassForm.bytes], hvalid.constants, hvalid.fill,
    ConstantPool.numbers_ofConstants hvalid.fill⟩

def ClassForm.wide : ClassForm where
  minorVersion := 0
  majorVersion := 50
  poolCount := 5
  constants := [.long 1, .classRef 1, .double 2]
  flags := 0
  thisClass := 0
  superClass := 0
  interfaces := []
  fields := []
  methods := []
  attributes := []

theorem parse_numbers_wide : ∃ cf, ClassFile.parse ClassForm.wide.bytes = .ok cf ∧ ∃ cs, cf.pool.Numbers cs := by
  have hread : (ClassFile.parse ClassForm.wide.bytes).toOption.isSome := by decide +kernel
  obtain ⟨cf, hcf⟩ := Option.isSome_iff_exists.1 hread
  obtain ⟨-, -, cs, -, -, -, -, hnumbers⟩ := parse_numbers (Steps.ok_of_toOption hcf)
  exact ⟨cf, Steps.ok_of_toOption hcf, cs, hnumbers⟩

end JvmGraph
