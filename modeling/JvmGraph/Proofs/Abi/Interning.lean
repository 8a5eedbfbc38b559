import JvmGraph.Proofs.Abi.Image
import JvmGraph.Proofs.Symbol.Schemes
import Mathlib.Data.Finset.Card
import Mathlib.Data.Nat.Digits.Defs

/-!
# Constant strings

However the creation of strings is mixed with that of other entities, a text is stored once in each of the two
forms. Numbers and symbols come from the lengths of the tables, so the invariant ties three things together: the place
of a text in its table, its entity, and what that entity is.
-/

namespace JvmGraph

open Text List Program

/-- The two forms in which constant strings are stored. -/
inductive StringSort where
  | record
  | literal
  deriving DecidableEq

namespace StringSort

/-- What is stored for a text: with its hash and length in front, or alone; a NUL byte ends it. -/
def content : StringSort → Bytes → Initializer
  | record, bytes => .compound [.const .char (Nat.ofDigits 31 (bytes.reverse.map UInt8.toNat) % 65536 : Nat),
      .const .char bytes.length, .bytes (bytes ++ [0])]
  | literal, bytes => .bytes (bytes ++ [0])

def entity : StringSort → Nat → Bytes → Entity
  | record => recordEntity
  | literal => literalEntity

end StringSort

def StringPool.table (p : StringPool) : StringSort → Strings
  | .record => p.records
  | .literal => p.literals

inductive Creation where
  | string (s : StringSort) (bytes : Bytes)
  | function (f : RuntimeFunction)
  | primitiveClass (k : Kind)
  | entity (entity : Entity)
  | member (owner : ClassId) (entity : Entity)

namespace Creation

def run (im : Image) : Creation → EntityId × Image
  | string .record bytes => im.record bytes
  | string .literal bytes => im.literal bytes
  | function f => im.function f
  | primitiveClass k => im.primitiveClass k
  | entity e => im.newEntity e
  | member c e => ((im.program.addMember c e).1, { im with program := (im.program.addMember c e).2 })

/-- Requests one after the other, each with the entity that it is given. -/
def runAll (im : Image) (cs : List Creation) : List (Creation × EntityId) × Image :=
  cs.foldl (fun (answers, im) c => (answers ++ [(c, (c.run im).1)], (c.run im).2)) ([], im)

def string? : Creation → Option (StringSort × Bytes)
  | string s bytes => some (s, bytes)
  | _ => none

end Creation

/-! ## What an entity tells -/

variable {s s' : StringSort} {i j : Nat} {b b' : Bytes} {e e' : EntityId} {im im' : Image}

lemma recordHash_eq (bytes : Bytes) :
    (recordHash bytes).toNat = Nat.ofDigits 31 (bytes.reverse.map UInt8.toNat) % 65536 := by
  induction bytes using List.reverseRecOn with
  | nil => rfl
  | append_singleton bytes b ih =>
    have hstep : recordHash (bytes ++ [b]) = 31 * recordHash bytes + b.toUInt16 := by simp [recordHash]
    rw [hstep, reverse_append, reverse_singleton, singleton_append, map_cons, Nat.ofDigits_cons,
      UInt16.toNat_add, UInt16.toNat_mul]
    simp only [UInt8.toNat_toUInt16, UInt16.reduceToNat]; omega

namespace StringSort

lemma initializer_entity (s : StringSort) (i : Nat) (b : Bytes) : (s.entity i b).initializer? = some (s.content b) := by
  cases s with
  | record => rw [content, ← recordHash_eq]; rfl
  | literal => rfl

lemma content_injective (h : s.content b = s'.content b') : s = s' ∧ b = b' := by
  cases s <;> cases s' <;> simp_all [content]

lemma number_of_symbol (h : (s.entity i b).symbol = (s'.entity j b').symbol) : s = s' ∧ i = j := by
  have hsort : s = s' := by
    have hlist := congrArg (fun symbol => String.toList symbol |>.take 2) h
    cases s <;> cases s' <;> simp [entity, recordEntity, literalEntity, Entity.global] at hlist ⊢
  subst hsort
  cases s <;> exact ⟨rfl, Symbol.repr_injective ((String.append_right_inj _).1 h)⟩

end StringSort

/-! ## Requests -/

/-- A request that is answered with `e` leaves entities as they are and adds at most one string: the text that it asks
for, in the next place of its table. -/
structure Creation.Adds (c : Creation) (im im' : Image) (e : EntityId) (news : StringSort → Strings) : Prop where
  table : ∀ s, im'.strings.table s = im.strings.table s ++ news s
  kept : ∀ e, im.program.HasEntity e → im'.program.HasEntity e ∧ im'.program.entityAt e = im.program.entityAt e
  new : ∀ s b e, (b, e) ∈ news s → c = .string s b ∧ news s = [(b, e)] ∧ (im.strings.table s).lookup b = none ∧
    im'.program.HasEntity e ∧ im'.program.entityAt e = s.entity (im.strings.table s).length b
  found : ∀ s b, c = .string s b → (im'.strings.table s).lookup b = some e

namespace Creation

lemma kept_newEntity {entity : Entity} (he : im'.program.entities = im.program.entities.push entity)
    (h : im.program.HasEntity e) :
    im'.program.HasEntity e ∧ im'.program.entityAt e = im.program.entityAt e := by
  constructor
  · rw [Program.HasEntity, he, Array.size_push]; exact Nat.lt_succ_of_lt h
  · rw [entityAt, he]
    exact (im.program.entityAt_newEntity e entity).trans (if_neg (ne_of_lt h))

lemma Adds.nothing {c : Creation} (hs : im'.strings = im.strings)
    (h : im' = im ∨ ∃ entity, im'.program.entities = im.program.entities.push entity)
    (hfound : ∀ s b, c = .string s b → (im'.strings.table s).lookup b = some e) : c.Adds im im' e fun _ => [] where
  table s := by rw [hs, append_nil]
  kept e he := by
    rcases h with rfl | ⟨entity, h⟩
    · exact ⟨he, rfl⟩
    · exact kept_newEntity h he
  new := nofun
  found := hfound

lemma Adds.one (h : (im.strings.table s).lookup b = none)
    (hp : im'.program = (im.program.newEntity (s.entity (im.strings.table s).length b)).2)
    (ht : ∀ s', im'.strings.table s' = im.strings.table s' ++
    if s' = s then [(b, ⟨im.program.entities.size⟩)] else []) :
    (string s b).Adds im im' ⟨im.program.entities.size⟩ fun s' =>
    if s' = s then [(b, ⟨im.program.entities.size⟩)] else [] where
  table := ht
  kept _ := kept_newEntity (by rw [hp]; rfl)
  new s' b' e he := by
    split at he
    · rename_i hs
      cases mem_singleton.1 he
      rw [hs, if_pos rfl, hp, entityAt_newEntity, if_pos rfl]
      exact ⟨rfl, rfl, h, by simp [Program.HasEntity], rfl⟩
    · cases he
  found := by
    rintro _ _ ⟨⟩; simp [ht, lookup_append, h]

lemma run_adds (c : Creation) (im : Image) : ∃ news, c.Adds im (c.run im).2 (c.run im).1 news := by
  cases c with
  | string s b =>
    cases s <;> simp only [run, Image.record, Image.literal] <;> split <;> rename_i h
    · exact ⟨_, .nothing rfl (.inl rfl) (by rintro _ _ ⟨⟩; exact h)⟩
    · exact ⟨_, .one h rfl (by rintro ⟨⟩ <;> simp [StringPool.table, Image.newEntity, newEntity])⟩
    · exact ⟨_, .nothing rfl (.inl rfl) (by rintro _ _ ⟨⟩; exact h)⟩
    · exact ⟨_, .one h rfl (by rintro ⟨⟩ <;> simp [StringPool.table, Image.newEntity, newEntity])⟩
  | function f =>
    refine ⟨_, .nothing ?_ ?_ (by rintro _ _ ⟨⟩)⟩ <;> simp only [run, Image.function] <;> split
    exacts [rfl, rfl, .inl rfl, .inr ⟨_, rfl⟩]
  | primitiveClass k =>
    refine ⟨_, .nothing ?_ ?_ (by rintro _ _ ⟨⟩)⟩ <;> simp only [run, Image.primitiveClass] <;> split
    exacts [rfl, rfl, .inl rfl, .inr ⟨_, rfl⟩]
  | entity | member => exact ⟨_, .nothing rfl (.inr ⟨_, rfl⟩) (by rintro _ _ ⟨⟩)⟩

end Creation

/-! ## The invariant -/

/-- The strings of an image after some requests and their answers: each text is stored once, and its entity is made from
its place in the table. -/
structure Interned (cs : List Creation) (answers : List (Creation × EntityId)) (im : Image) : Prop where
  requests : answers.map Prod.fst = cs
  stored : ∀ s i b e, (im.strings.table s)[i]? = some (b, e) → im.program.HasEntity e ∧
    im.program.entityAt e = s.entity i b
  nodup : ∀ s, ((im.strings.table s).map Prod.fst).Nodup
  keys : ∀ s b, b ∈ (im.strings.table s).map Prod.fst ↔ Creation.string s b ∈ cs
  found : ∀ s b e, (Creation.string s b, e) ∈ answers → (im.strings.table s).lookup b = some e

namespace Interned

variable {cs : List Creation} {answers : List (Creation × EntityId)}

lemma run (I : Interned cs answers im) (c : Creation) :
    Interned (cs ++ [c]) (answers ++ [(c, (c.run im).1)]) (c.run im).2 := by
  obtain ⟨news, A⟩ := c.run_adds im
  refine ⟨by simp [I.requests], fun s i b e hi => ?_, fun s => ?_, fun s b => ⟨fun h => ?_, fun h => ?_⟩,
    fun s b e he => ?_⟩
  · rw [A.table, List.getElem?_append] at hi
    split at hi
    · obtain ⟨h1, h2⟩ := I.stored s i b e hi; exact (A.kept e h1).imp_right (·.trans h2)
    · obtain ⟨-, hnews, -, h⟩ := A.new s b e (mem_of_getElem? hi)
      rw [hnews] at hi
      have hlt := (List.getElem?_eq_some_iff.1 hi).1
      rw [length_singleton] at hlt
      obtain rfl : i = (im.strings.table s).length := by omega
      exact h
  · rw [A.table]
    rcases hnews : news s with _ | ⟨⟨b, e⟩, rest⟩
    · simpa using I.nodup s
    · obtain ⟨-, hone, hb, -⟩ := A.new s b e (by simp [hnews])
      obtain rfl : rest = [] := (List.cons.inj (hnews.symm.trans hone)).2
      rw [map_append, nodup_append]
      refine ⟨I.nodup s, nodup_singleton _, fun a ha c hc => ?_⟩
      obtain ⟨x, hx, rfl⟩ := mem_map.1 ha
      rw [mem_singleton.1 hc]
      rintro rfl; exact absurd (lookup_eq_none_iff.1 hb x hx) (by simp)
  · rw [A.table, map_append, mem_append, I.keys] at h
    rcases h with h | h
    · exact mem_append_left _ h
    · obtain ⟨⟨b, e⟩, hx, rfl⟩ := mem_map.1 h; simp [(A.new s b e hx).1]
  · rcases mem_append.1 h with h | h
    · rw [A.table, map_append]; exact mem_append_left _ ((I.keys s b).2 h)
    · obtain ⟨l₁, l₂, hl, -⟩ := lookup_eq_some_iff.1 (A.found s b (mem_singleton.1 h).symm)
      simp [hl]
  · rcases mem_append.1 he with he | he
    · rw [A.table, lookup_append, I.found s b e he, Option.some_or]
    · obtain ⟨hc, rfl⟩ := Prod.mk.inj (mem_singleton.1 he); exact A.found s b hc.symm

lemma runAll (p : Program) (cs : List Creation) :
    Interned cs (Creation.runAll { program := p } cs).1 (Creation.runAll { program := p } cs).2 := by
  induction cs using List.reverseRecOn with
  | nil => refine ⟨rfl, ?_, ?_, ?_, nofun⟩ <;> rintro ⟨⟩ <;> simp [Creation.runAll, StringPool.table]
  | append_singleton cs c ih =>
    simp only [Creation.runAll, foldl_append]; exact ih.run c

section

variable (I : Interned cs answers im) (h : (im.strings.table s).lookup b = some e)

include I h

lemma of_lookup : ∃ i, (im.strings.table s)[i]? = some (b, e) ∧ im.program.entityAt e = s.entity i b := by
  obtain ⟨l₁, l₂, hl, -⟩ := lookup_eq_some_iff.1 h
  have hi : (im.strings.table s)[l₁.length]? = some (b, e) := by simp [hl]
  exact ⟨_, hi, (I.stored s _ b e hi).2⟩

lemma eq_iff (h' : (im.strings.table s').lookup b' = some e') : e = e' ↔ s = s' ∧ b = b' := by
  constructor
  · rintro rfl
    obtain ⟨i, -, hi⟩ := I.of_lookup h
    obtain ⟨j, -, hj⟩ := I.of_lookup h'
    have hcontent := s.initializer_entity i b
    rw [← hi, hj, s'.initializer_entity] at hcontent
    exact (StringSort.content_injective (Option.some.inj hcontent)).imp Eq.symm Eq.symm
  · rintro ⟨rfl, rfl⟩; exact Option.some.inj (h.symm.trans h')

lemma eq_of_symbol (h' : (im.strings.table s').lookup b' = some e')
    (hsymbol : (im.program.entityAt e).symbol = (im.program.entityAt e').symbol) : e = e' := by
  obtain ⟨i, hi, he⟩ := I.of_lookup h
  obtain ⟨j, hj, he'⟩ := I.of_lookup h'
  rw [he, he'] at hsymbol
  obtain ⟨rfl, rfl⟩ := StringSort.number_of_symbol hsymbol
  exact congrArg Prod.snd (Option.some.inj (hi.symm.trans hj))

end

lemma size_eq (I : Interned cs answers im) : im.strings.size = (cs.filterMap Creation.string?).toFinset.card := by
  let all := (im.strings.records.map Prod.fst).map (Prod.mk StringSort.record) ++
    (im.strings.literals.map Prod.fst).map (Prod.mk StringSort.literal)
  have hnodup : all.Nodup := by
    refine nodup_append.2 ⟨(I.nodup .record).map fun _ _ h => (Prod.mk.inj h).2,
      (I.nodup .literal).map fun _ _ h => (Prod.mk.inj h).2, ?_⟩
    rintro _ ha _ hb rfl
    obtain ⟨_, -, rfl⟩ := mem_map.1 ha
    obtain ⟨_, -, hb⟩ := mem_map.1 hb; cases hb
  have hall : (cs.filterMap Creation.string?).toFinset = all.toFinset := by
    ext ⟨s, b⟩
    have hmem : (s, b) ∈ cs.filterMap Creation.string? ↔ b ∈ (im.strings.table s).map Prod.fst := by
      rw [I.keys, mem_filterMap]
      constructor
      · rintro ⟨⟨⟩, hc, ⟨⟩⟩; exact hc
      · exact fun h => ⟨_, h, rfl⟩
    rw [mem_toFinset, hmem]; cases s <;> simp [all, StringPool.table]
  rw [hall, toFinset_card_of_nodup hnodup]
  simp [all, StringPool.size]

end Interned

/-- In any sequence of requests on a program that has no strings so far: the entities of two strings are the same just
if both have the same form and text, their symbols are different if they are, and what an entity stores is its text,
whatever was requested later. There are as many strings as different ones were asked for. -/
theorem interning_exact (p : Program) (cs : List Creation) :
    let (answers, im) := Creation.runAll { program := p } cs
    (∀ s b e s' b' e', (Creation.string s b, e) ∈ answers → (Creation.string s' b', e') ∈ answers →
      (e = e' ↔ s = s' ∧ b = b') ∧
      ((im.program.entityAt e).symbol = (im.program.entityAt e').symbol → e = e') ∧
      (im.program.entityAt e).initializer? = some (s.content b)) ∧
    answers.map Prod.fst = cs ∧ im.strings.size = (cs.filterMap Creation.string?).toFinset.card := by
  have I := Interned.runAll p cs
  refine ⟨fun s b e s' b' e' h h' => ?_, I.requests, I.size_eq⟩
  have hb := I.found s b e h
  have hb' := I.found s' b' e' h'
  obtain ⟨i, -, hi⟩ := I.of_lookup hb
  exact ⟨I.eq_iff hb hb', I.eq_of_symbol hb hb', hi ▸ s.initializer_entity i b⟩

end JvmGraph
