import JvmGraph.Proofs.Loading.Works

/-!
# Shared entities

Asking for a runtime function, a class object of a primitive kind or a constant string adds entities that
belong to no class. Nothing that was there before changes. Functions and class objects are only declared, and a
constant string is found again under its number.
-/

namespace JvmGraph

open Steps World Text List Program

def primitiveEntity (k : Kind) : Entity := .global k.classObject .data .external none

def recordEntity (i : Nat) (bytes : Bytes) : Entity :=
  .global ("_Utf" ++ Nat.repr i) .data .hidden (some (recordInitializer bytes))

def literalEntity (i : Nat) (bytes : Bytes) : Entity :=
  .global ("_Str" ++ Nat.repr i) .data .hidden (some (literalInitializer bytes))

namespace Image

variable {im im' im'' : Image} {T T' : EntityId → Prop} {e : EntityId}

inductive Shared (im : Image) (e : EntityId) : Prop
  | function (f : RuntimeFunction) (h : im.program.entityAt e = functionEntity f)
  | primitive (k : Kind) (h : im.program.entityAt e = primitiveEntity k)
  | record (i : Nat) (bytes : Bytes) (hi : im.strings.records[i]? = some (bytes, e))
      (h : im.program.entityAt e = recordEntity i bytes)
  | literal (i : Nat) (bytes : Bytes) (hi : im.strings.literals[i]? = some (bytes, e))
      (h : im.program.entityAt e = literalEntity i bytes)

namespace Shared

lemma plain (h : im.Shared e) : (im.program.entityAt e).method? = none ∧ (im.program.entityAt e).owner? = none ∧
    (im.program.entityAt e).visibility ≠ .exported := by
  rcases h with ⟨_, h⟩ | ⟨_, h⟩ | ⟨_, _, _, h⟩ | ⟨_, _, _, h⟩ <;> rw [h] <;> exact ⟨rfl, rfl, nofun⟩

lemma method? (h : im.Shared e) : (im.program.entityAt e).method? = none := h.plain.1

lemma owner? (h : im.Shared e) : (im.program.entityAt e).owner? = none := h.plain.2.1

lemma not_exported (h : im.Shared e) : (im.program.entityAt e).visibility ≠ .exported := h.plain.2.2

lemma mono (h : im.Shared e) (he : im'.program.entityAt e = im.program.entityAt e)
    (hrecords : im.strings.records <+: im'.strings.records) (hliterals : im.strings.literals <+: im'.strings.literals) :
    im'.Shared e := by
  have hget : ∀ {l l' : Strings} {i : Nat} {x : Bytes × EntityId}, l <+: l' → l[i]? = some x → l'[i]? = some x := by
    rintro l _ i x ⟨tail, rfl⟩ hi
    rw [List.getElem?_append_left (List.getElem?_eq_some_iff.1 hi).1, hi]
  cases h with
  | function f h => exact .function f (he.trans h)
  | primitive k h => exact .primitive k (he.trans h)
  | record i bytes hi h => exact .record i bytes (hget hrecords hi) (he.trans h)
  | literal i bytes hi h => exact .literal i bytes (hget hliterals hi) (he.trans h)

end Shared

/-- Shared entities were added, and entities in `T`, none of them a method; nothing else happened to the program. -/
structure Supplies (T : EntityId → Prop) (im im' : Image) : Prop where
  becomes : im.program.Becomes im'.program
  classes : im'.program.classes = im.program.classes
  size : im.program.entities.size ≤ im'.program.entities.size
  entityAt : ∀ e, im.program.HasEntity e → im'.program.entityAt e = im.program.entityAt e
  plain : ∀ e, ¬ im.program.HasEntity e → (im'.program.entityAt e).method? = none
  new : ∀ e, im'.program.HasEntity e → im.program.HasEntity e ∨ im'.Shared e ∨ T e
  kept : ∀ f e, im.functions.lookup f = some e → im'.functions.lookup f = some e
  functions : ∀ f e, im'.functions.lookup f = some e → im.functions.lookup f = some e ∨
    im'.program.HasEntity e ∧ im'.program.entityAt e = functionEntity f
  records : im.strings.records <+: im'.strings.records
  literals : im.strings.literals <+: im'.strings.literals

namespace Supplies

lemma refl (T : EntityId → Prop) (im : Image) : Supplies T im im :=
  ⟨.refl, rfl, le_rfl, fun _ _ => rfl, fun e he => by rw [entityAt_of_not _ e he]; rfl, fun _ he => .inl he,
    fun _ _ h => h, fun _ _ h => .inl h, prefix_rfl, prefix_rfl⟩

variable (h : Supplies T im im')

include h

lemma hasEntity (he : im.program.HasEntity e) : im'.program.HasEntity e :=
  lt_of_lt_of_le he h.size

lemma classAt (c : ClassId) : im'.program.classAt c = im.program.classAt c := by
  rw [Program.classAt, Program.classAt, h.classes]

lemma declAt? (e : EntityId) : im.program.declAt? e = ((im'.program.entityAt e).method?).map Method.decl := by
  by_cases he : im.program.HasEntity e
  · rw [h.entityAt e he]; rfl
  · rw [h.plain e he, Program.declAt?, Program.methodAt?, Program.entityAt_of_not _ e he]; rfl

lemma trans (h' : Supplies T im' im'') : Supplies T im im'' where
  becomes := h.becomes.trans h'.becomes
  classes := h'.classes.trans h.classes
  size := h.size.trans h'.size
  entityAt := fun e he => (h'.entityAt e (h.hasEntity he)).trans (h.entityAt e he)
  plain := fun e he => by
    by_cases he' : im'.program.HasEntity e
    · rw [h'.entityAt e he']; exact h.plain e he
    · exact h'.plain e he'
  new := fun e he => by
    rcases h'.new e he with he' | he'
    · refine (h.new e he').imp id (Or.imp (fun hs => ?_) id)
      exact hs.mono (h'.entityAt e he') h'.records h'.literals
    · exact .inr he'
  kept := fun f e he => h'.kept f e (h.kept f e he)
  functions := fun f e he => by
    rcases h'.functions f e he with he | he
    · rcases h.functions f e he with he | ⟨h1, h2⟩
      · exact .inl he
      · exact .inr ⟨h'.hasEntity h1, (h'.entityAt e h1).trans h2⟩
    · exact .inr he
  records := h.records.trans h'.records
  literals := h.literals.trans h'.literals

lemma mono (hT : ∀ e, T e → T' e) : Supplies T' im im' :=
  { h with new := fun e he => (h.new e he).imp id (Or.imp id (hT e)) }

lemma enlarges : im.program.Enlarges im'.program := by
  refine ⟨⟨⟨by rw [h.classes], h.size, fun c _ => by rw [h.classAt]⟩,
    fun c _ => h.classAt c ▸ prefix_rfl, fun e he => by rw [h.entityAt e he]⟩, fun e => ?_, fun c => by rw [h.classAt]⟩
  by_cases he : im.program.HasEntity e
  · simp [graphAt?, h.entityAt e he]
  · rw [graphAt?, Entity.graph?, h.plain e he, graphAt?, entityAt_of_not _ e he]
    rfl

end Supplies

lemma supplies_newEntity {entity : Entity} (hprogram : im'.program = (im.program.newEntity entity).2)
    (hm : entity.method? = none) (hnew : im'.Shared ⟨im.program.entities.size⟩ ∨ T ⟨im.program.entities.size⟩)
    (hkept : ∀ f e, im.functions.lookup f = some e → im'.functions.lookup f = some e)
    (hfunctions : ∀ f e, im'.functions.lookup f = some e → im.functions.lookup f = some e ∨
      e = ⟨im.program.entities.size⟩ ∧ entity = functionEntity f)
    (hr : im.strings.records <+: im'.strings.records) (hl : im.strings.literals <+: im'.strings.literals) :
    Supplies T im im' := by
  have hsize : im'.program.entities.size = im.program.entities.size + 1 := by
    rw [hprogram, size_newEntity]
  have hat : ∀ e, im'.program.entityAt e =
      if e.index = im.program.entities.size then entity else im.program.entityAt e := fun e => by
    rw [hprogram, entityAt_newEntity]
  refine ⟨?_, by simp [hprogram], by omega, fun e he => ?_, fun e he => ?_, fun e he => ?_, hkept,
    fun f e he => ?_, hr, hl⟩
  · rw [hprogram]; exact .single (.addEntity im.program entity hm)
  · rw [hat, if_neg (ne_of_lt he)]
  · rw [hat]
    split
    · exact hm
    · rw [entityAt_of_not _ e he]; rfl
  · rw [Program.HasEntity, hsize] at he
    rcases Nat.lt_succ_iff_lt_or_eq.1 he with he | he
    · exact .inl he
    · obtain rfl : e = ⟨im.program.entities.size⟩ := EntityId.ext he; exact .inr hnew
  · refine (hfunctions f e he).imp id ?_
    rintro ⟨rfl, rfl⟩
    exact ⟨lt_of_lt_of_eq (Nat.lt_succ_self _) hsize.symm, (hat _).trans (if_pos rfl)⟩

variable (im : Image)

private lemma entityAt_new (entity : Entity) :
    (im.newEntity entity).2.program.entityAt ⟨im.program.entities.size⟩ = entity :=
  (entityAt_newEntity im.program ⟨im.program.entities.size⟩ entity).trans (if_pos rfl)

lemma lookup_append_singleton {α β : Type} [DecidableEq α] (l : List (α × β)) (a k : α) (b : β) :
    (l ++ [(a, b)]).lookup k = (l.lookup k).or (if k = a then some b else none) := by
  rw [lookup_append]
  by_cases h : k = a
  · simp [h]
  · have : (k == a) = false := by simpa using h
    simp [lookup_cons, h, this]

/-- A runtime function is declared once, and is what it is asked for. -/
lemma supplies_function (f : RuntimeFunction) : Supplies T im (im.function f).2 ∧
    (im.function f).2.functions.lookup f = some (im.function f).1 := by
  unfold function
  split
  · rename_i e hf; exact ⟨.refl T im, hf⟩
  · rename_i hf
    have hm : (functionEntity f).method? = none := rfl
    refine ⟨supplies_newEntity rfl hm (.inl (.function f (im.entityAt_new _))) ?_ ?_ prefix_rfl prefix_rfl, ?_⟩
    · intro g e hg; simp only [lookup_append_singleton, newEntity, hg, Option.some_or]
    · intro g e hg
      simp only [lookup_append_singleton, newEntity] at hg
      rcases Option.or_eq_some_iff.1 hg with hg | ⟨-, hnew⟩
      · exact .inl hg
      · split at hnew
        · rename_i hgf
          cases hnew
          exact .inr ⟨rfl, hgf ▸ rfl⟩
        · cases hnew
    · simp only [lookup_append_singleton, newEntity, hf, Option.none_or, if_true]

lemma supplies_primitiveClass (k : Kind) : Supplies T im (im.primitiveClass k).2 := by
  unfold primitiveClass
  split
  · exact .refl T im
  · exact supplies_newEntity rfl rfl (.inl (.primitive k (im.entityAt_new _))) (fun _ _ h => h) (fun _ _ h => .inl h)
      prefix_rfl prefix_rfl

lemma supplies_record (bytes : Bytes) : Supplies T im (im.record bytes).2 := by
  unfold record
  split
  · exact .refl T im
  · refine supplies_newEntity rfl rfl (.inl (.record im.strings.records.length bytes ?_ (im.entityAt_new _)))
      (fun _ _ h => h) (fun _ _ h => .inl h) (prefix_append _ _) prefix_rfl
    exact List.getElem?_concat_length

lemma supplies_literal (bytes : Bytes) : Supplies T im (im.literal bytes).2 := by
  unfold literal
  split
  · exact .refl T im
  · refine supplies_newEntity rfl rfl (.inl (.literal im.strings.literals.length bytes ?_ (im.entityAt_new _)))
      (fun _ _ h => h) (fun _ _ h => .inl h) prefix_rfl (prefix_append _ _)
    exact List.getElem?_concat_length

end Image

namespace World

variable {w : World} {im : Image} {S : ClassId → Prop} {T : EntityId → Prop}

lemma keeps_supplies (h : w.image.Supplies T im) : w.Keeps S { w with image := im } where
  program := {
    toContinues := h.enlarges.toContinues
    becomes := h.becomes
    kept := fun d _ _ => by rw [show ({ w with image := im } : World).program.classAt d = _ from h.classAt d]; rfl
    owned := fun e he _ => congrArg (·.decl) (h.entityAt e he) }
  named := fun _ _ h => h
  functions := h.kept
  records := h.records
  literals := h.literals

lemma works_supplies (c : ClassId) (h : w.image.Supplies T im) : Works c w { w with image := im } where
  keeps := keeps_supplies h
  idle := h.enlarges.toIdle
  classes := congrArg (·.size) h.classes
  origin := congrArg (·.origin) (h.classAt c)
  finalizing := rfl
  queue := rfl
  queued := rfl
  names := rfl
  functions := h.functions

lemma Sound.supplies (hs : w.Sound) (h : w.image.Supplies T im) : Sound { w with image := im } :=
  hs.keeps (keeps_supplies h) (congrArg (·.size) h.classes) rfl h.functions rfl

end World

/-! ## Steps on the image -/

section Ends

variable {w : World} {α β : Type} {E : World → Prop}

lemma ends_onImage_bind {f : Image → α × Image} {g : α → Load β} {R : β → World → Prop}
    (h : Ends (g (f w.image).1 { w with image := (f w.image).2 }) R E) : Ends ((Load.onImage f >>= g) w) R E := h

lemma ends_imageStep {x : EStateM Error Image α} {Q : α → World → Prop}
    (h : Ends (x w.image) (fun a im => Q a { w with image := im }) (fun im => E { w with image := im })) :
    Ends (Load.imageStep x w) Q E := by
  unfold Load.imageStep
  cases hx : x w.image <;> simpa [hx, Ends] using h

lemma ends_modifyGet_bind {ε σ : Type} {s : σ} {f : σ → α × σ} {g : α → EStateM ε σ β} {R : β → σ → Prop}
    {E : σ → Prop} (h : Ends (g (f s).1 (f s).2) R E) :
    Ends (((modifyGet f : EStateM ε σ α) >>= g) s) R E := h

end Ends

end JvmGraph
