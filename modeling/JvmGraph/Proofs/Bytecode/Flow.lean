import JvmGraph.Graph.Basic
import JvmGraph.Proofs.Bytecode.Layout

/-!
# Control flow of code

The code is cut into blocks at the addresses for which `β` has one. Gone through in order, each instruction
stands in the block that was entered last, unless control has gone elsewhere since. The edges between
blocks are listed in the order in which one comes to them.
-/

namespace JvmGraph

open List

variable {b : BlockId} {i j : Instruction}

/-- How control gets from one block to another. -/
inductive Way where
  | jump
  /-- The two sides of a conditional branch. -/
  | taken | fall
  /-- From an instruction to the one after it. -/
  | into
  | ret
  deriving DecidableEq, Repr

structure Edge where
  source : BlockId
  way : Way
  target : Option Nat
  deriving DecidableEq, Repr

namespace Instruction

/-- Control does not go on to the next instruction by itself. -/
def ends (i : Instruction) : Bool :=
  match i.op with
  | .branch _ _ _ _ | .jump _ | .yield _ | .throw | .uncompiled _ => true
  | _ => false

def exits (i : Instruction) : List (Way × Option Nat) :=
  match i.op with
  | .branch _ _ _ target => [(.taken, some target), (.fall, some i.next)]
  | .jump target => [(.jump, some target)]
  | .yield _ => [(.ret, none)]
  | _ => []

def exitsFrom (i : Instruction) (b : BlockId) : List Edge := i.exits.map fun x => ⟨b, x.1, x.2⟩

/-- Where control can go from an instruction, and how. -/
def successors (i : Instruction) : List (Way × Option Nat) := if i.ends then i.exits else [(.into, some i.next)]

lemma exits_of_not_ends (h : i.ends = false) : i.exits = [] := by
  obtain ⟨pc, op, next⟩ := i
  cases op <;> first | rfl | cases h

lemma mem_marks_of_exits {w : Way} {p : Nat} (h : (w, some p) ∈ i.exits) : p ∈ i.marks := by
  obtain ⟨pc, op, next⟩ := i
  cases op <;> simp [exits, marks] at h ⊢
  · exact h.imp And.right And.right
  · exact h.2

end Instruction

/-- Control reaches an address from the first one. -/
inductive Reaches (code : List Instruction) : Nat → Prop
  | entry : Reaches code 0
  | step {i : Instruction} {w : Way} {p : Nat} : i ∈ code → Reaches code i.pc → (w, some p) ∈ i.successors →
    Reaches code p

namespace Flow

variable (β : Nat → Option BlockId)

def enters (c? : Option BlockId) (i : Instruction) : Option BlockId := (β i.pc).or c?

def leaves (c? : Option BlockId) (i : Instruction) : Option BlockId := if i.ends then none else enters β c? i

def falls (c? : Option BlockId) (pc : Nat) : List Edge :=
  match c?, β pc with
  | some c, some b => if c = b then [] else [⟨c, .into, some pc⟩]
  | _, _ => []

def places : Option BlockId → List Instruction → List (Instruction × BlockId)
  | _, [] => []
  | c?, i :: rest => (enters β c? i).toList.map (i, ·) ++ places (leaves β c? i) rest

def edges : Option BlockId → List Instruction → List Edge
  | _, [] => []
  | c?, i :: rest => falls β c? i.pc ++ ((enters β c? i).toList.flatMap i.exitsFrom ++ edges (leaves β c? i) rest)

/-- The block that control is in after all of the code. -/
def final : Option BlockId → List Instruction → Option BlockId
  | c?, [] => c?
  | c?, i :: rest => final (leaves β c? i) rest

end Flow

/-- The blocks `β` cut the code up as they should: each begins at an instruction, where control can arrive from
elsewhere a block begins, and control does not run off the end of the code. -/
structure Flow.Cut (β : Nat → Option BlockId) (targeted : Bool) (n : Nat) (code : List Instruction) : Prop where
  layout : Layout n code
  pc : ∀ p b, β p = some b → p ∈ code.map Instruction.pc
  entry : ∃ b, β 0 = some b
  injective : ∀ p q b, β p = some b → β q = some b → p = q
  mark : ∀ i ∈ code, ∀ p ∈ i.marks, (β p).isSome
  start : ∀ p, β p = some Graph.startBlock ↔ p = 0 ∧ targeted = false
  ne_end : ∀ p, β p ≠ some Graph.endBlock
  final : Flow.final β (some Graph.startBlock) code = none

namespace Flow

variable {β : Nat → Option BlockId} {targeted : Bool} {n : Nat} {code : List Instruction}

/-! ## Instructions in their blocks -/

lemma mem_places_of_cons {c? : Option BlockId} {rest : List Instruction} :
    (j, b) ∈ places β c? (i :: rest) ↔ j = i ∧ enters β c? i = some b ∨ (j, b) ∈ places β (leaves β c? i) rest := by
  rw [places, mem_append, mem_map]
  constructor
  · rintro (⟨c, hc, h⟩ | h)
    · cases h
      exact .inl ⟨rfl, by simpa using hc⟩
    · exact .inr h
  · rintro (⟨rfl, h⟩ | h)
    · exact .inl ⟨b, by simpa using h, rfl⟩
    · exact .inr h

lemma mem_code_of_places : ∀ {code : List Instruction} {c? : Option BlockId}, (j, b) ∈ places β c? code → j ∈ code
  | [], _, h => by cases h
  | i :: rest, c?, h => by
    rcases mem_places_of_cons.1 h with ⟨rfl, -⟩ | h
    · exact (.head _)
    · exact .tail _ (mem_code_of_places h)

lemma mem_places_of_begin (hb : β j.pc = some b) :
    ∀ {code : List Instruction} {c? : Option BlockId}, j ∈ code → (j, b) ∈ places β c? code
  | i :: rest, c?, h => by
    rw [mem_places_of_cons]
    rcases mem_cons.1 h with rfl | h
    · exact .inl ⟨rfl, by simp [enters, hb]⟩
    · exact .inr (mem_places_of_begin hb h)

lemma mem_places_next {post : List Instruction} (hi : i.ends = false) (hj : β j.pc = none) :
    ∀ {pre : List Instruction} {c? : Option BlockId}, (pre ++ i :: j :: post).Nodup →
      (i, b) ∈ places β c? (pre ++ i :: j :: post) → (j, b) ∈ places β c? (pre ++ i :: j :: post)
  | [], c?, hnd, h => by
    rcases mem_places_of_cons.1 h with ⟨-, h⟩ | h
    · refine mem_places_of_cons.2 (.inr (mem_places_of_cons.2 (.inl ⟨rfl, ?_⟩)))
      simp only [leaves, hi, enters, hj]; exact h
    · exact absurd (mem_code_of_places h) (nodup_cons.1 hnd).1
  | k :: pre, c?, hnd, h => by
    rcases mem_places_of_cons.1 h with ⟨rfl, -⟩ | h
    · exact absurd (mem_append_right _ (.head _)) (nodup_cons.1 hnd).1
    · exact mem_places_of_cons.2 (.inr (mem_places_next hi hj (nodup_cons.1 hnd).2 h))

lemma not_mem_places : ∀ {code : List Instruction} {c? : Option BlockId},
    c? ≠ some b → (∀ i ∈ code, β i.pc ≠ some b) → (j, b) ∉ places β c? code
  | [], _, _, _, h => by cases h
  | i :: rest, c?, hc, hb, h => by
    have he : enters β c? i ≠ some b := by
      rw [enters]
      cases hi : β i.pc with
      | none => simpa using hc
      | some c =>
        have := hb i (.head _)
        rw [hi] at this; simpa using this
    rcases mem_places_of_cons.1 h with ⟨-, h⟩ | h
    · exact he h
    · refine not_mem_places ?_ (fun k hk => hb k (.tail _ hk)) h
      rw [leaves]
      split
      · simp
      · exact he

def Stands (β : Nat → Option BlockId) (code : List Instruction) (b : BlockId) (p : Nat) : Prop :=
  ∃ q, β q = some b ∧ q ≤ p ∧ (∀ r, q < r → r ≤ p → β r = none) ∧ (Reaches code q → Reaches code p)

lemma Stands.next (C : Cut β targeted n code) {pre post : List Instruction} (h : code = pre ++ i :: j :: post)
    (hi : Stands β code b i.pc) (he : i.ends = false) (hj : β j.pc = none) : Stands β code b j.pc := by
  obtain ⟨q, hq, hle, hnone, hreach⟩ := hi
  have hmem : i ∈ code := by simp [h]
  have hnext : i.next = j.pc := C.layout.next pre i (j :: post) h
  have hlt := C.layout.lt_next hmem
  refine ⟨q, hq, by omega, fun r h1 h2 => ?_, fun hr => ?_⟩
  · by_cases hr : r ≤ i.pc
    · exact hnone r h1 hr
    · -- no instruction begins between the two
      cases hb : β r with
      | none => rfl
      | some c =>
        obtain ⟨k, hk, rfl⟩ := mem_map.1 (C.pc r c hb)
        rcases C.layout.pc_between h hk with hle | hle
        · exact absurd hle hr
        · simp [Nat.le_antisymm h2 hle, hj] at hb
  · exact .step hmem (hreach hr) (by simp [Instruction.successors, he, hnext] : (Way.into, some j.pc) ∈ i.successors)

lemma stands_of_places (C : Cut β targeted n code) : ∀ {rest pre : List Instruction}
    {c? : Option BlockId}, code = pre ++ rest →
    (∀ j post c, rest = j :: post → c? = some c → β j.pc = none → Stands β code c j.pc) →
    (i, b) ∈ places β c? rest → Stands β code b i.pc
  | [], _, _, _, _, h => by cases h
  | j :: post, pre, c?, hcode, hc, h => by
    have head : ∀ c, enters β c? j = some c → Stands β code c j.pc := by
      intro c he
      rw [enters] at he
      cases hb : β j.pc with
      | none => rw [hb] at he; exact hc j post c rfl he hb
      | some d =>
        rw [hb] at he
        cases he
        exact ⟨j.pc, hb, Nat.le_refl _, fun r h1 h2 => by omega, id⟩
    rcases mem_places_of_cons.1 h with ⟨rfl, he⟩ | h
    · exact head b he
    · refine stands_of_places C (show code = (pre ++ [j]) ++ post by simp [hcode]) (fun k post' c hk hl hb => ?_) h
      subst hk
      rw [leaves] at hl
      cases hends : j.ends with
      | true => simp [hends] at hl
      | false => rw [hends] at hl; exact (head c hl).next C hcode hends hb

/-- An instruction stands in the block that begins last before it. -/
lemma Cut.stands (C : Cut β targeted n code) (h : (i, b) ∈ places β (some Graph.startBlock) code) :
    Stands β code b i.pc := by
  refine stands_of_places C (nil_append _).symm (fun j post c hj _ hb => ?_) h
  obtain ⟨b0, hb0⟩ := C.entry
  simp [C.layout.head_pc hj, hb0] at hb

lemma Cut.places_inj (C : Cut β targeted n code) {c : BlockId} (hb : (i, b) ∈ places β (some Graph.startBlock) code)
    (hc : (i, c) ∈ places β (some Graph.startBlock) code) : b = c := by
  obtain ⟨p, hp, hple, hpn, -⟩ := C.stands hb
  obtain ⟨q, hq, hqle, hqn, -⟩ := C.stands hc
  rcases Nat.lt_trichotomy p q with h | rfl | h
  · simp [hpn q h hqle] at hq
  · rw [hp] at hq; exact Option.some.inj hq
  · simp [hqn p h hple] at hp

end Flow

end JvmGraph
