import JvmGraph.Proofs.Lowering.Image
import JvmGraph.Proofs.Lowering.Lowered

/-!
# Lowered programs

Lowering a program lowers the graphs of its methods one after the other, and none of the others changes meanwhile. If it
succeeds, nothing in any graph speaks of objects, all references are direct, and memory is handed on along one thread in
each block. Lowering the program again leaves it as it is.
-/

namespace JvmGraph

open Steps List Option

namespace Program

variable {p : Program} {e : EntityId}

lemma regraph_regraph {g : Graph} (h : p.graphAt? e = some g) :
    ((p.modifyMethod e fun m => { m with graph? := none }).modifyMethod e fun m => { m with graph? := some g }) =
    p := by
  obtain ⟨m, hm, hg⟩ := bind_eq_some_iff.1 h
  have hhas : p.HasEntity e := hasEntity_of_methodAt? hm
  have hk : (p.entityAt e).kind = .method m := by
    unfold Entity.method? at hm
    split at hm
    · rename_i hk
      cases hm
      exact hk
    · cases hm
  have hback : (p.modifyMethod e fun m => { m with graph? := none }).entityAt e =
      { p.entityAt e with kind := .method { m with graph? := none } } := by
    rw [modifyMethod, entityAt_modifyEntity, if_pos ⟨rfl, hhas⟩, hk]
  have hsame : ({ p.entityAt e with kind := .method { m with graph? := some g } } : Entity) = p.entityAt e := by
    rw [← hg, ← hk]
  rw [modifyMethod, modifyEntity, hback]
  show { p with entities := (p.entities.setIfInBounds e.index _).setIfInBounds e.index _ } = p
  simp only [hsame]
  rw [Array.setIfInBounds_setIfInBounds]
  refine congrArg (fun a => { p with entities := a }) (Array.ext Array.size_setIfInBounds fun i h1 h2 => ?_)
  rw [Array.getElem_setIfInBounds]
  split
  · rename_i h; subst h; simp [entityAt, h2]
  · rfl

end Program

namespace Image

variable {flavour : Flavour} {im im' : Image} {e : EntityId} {u : Unit}

section

variable (h : lowerEntity flavour e im = .ok u im')

include h

lemma lowerEntity_ok : (im.program.graphAt? e = none ∧ im' = im) ∨ ∃ g s', im.program.graphAt? e = some g ∧
      lowerGraph flavour ⟨im.modifyProgram fun p => p.modifyMethod e fun m => { m with graph? := none }, g,
      g.uses⟩ = .ok () s' ∧
      im' = s'.image.modifyProgram fun p => p.modifyMethod e fun m => { m with graph? := some s'.graph } := by
  unfold lowerEntity at h
  split at h
  · rename_i hg
    cases h
    exact .inl ⟨hg, rfl⟩
  · rename_i g hg
    simp only [] at h
    split at h
    · rename_i hrun
      cases h
      exact .inr ⟨g, _, hg, hrun, rfl⟩
    · cases h

lemma graphAt?_lowerEntity {x : EntityId} (hx : x ≠ e) : im'.program.graphAt? x = im.program.graphAt? x := by
  rcases lowerEntity_ok h with ⟨-, rfl⟩ | ⟨g, s', -, hrun, rfl⟩
  · rfl
  · have hadd := adding_lowerGraph flavour
      ⟨im.modifyProgram fun p => p.modifyMethod e fun m => { m with graph? := none }, g, g.uses⟩ trivial
    rw [hrun] at hadd
    have hmiddle := hadd.2.enlarges.graph x
    have htaken := im.program.graphAt?_regraph e x none
    have hnew := s'.image.program.graphAt?_regraph e x (some s'.graph)
    rw [if_neg fun h => hx h.1] at hnew htaken; exact hnew.trans (hmiddle.trans htaken)

lemma lowered_lowerEntity (hg : ∀ g, im.program.graphAt? e = some g → g.Lowerable) :
    ∀ g, im'.program.graphAt? e = some g → g.Lowered := by
  intro g' hg'
  rcases lowerEntity_ok h with ⟨hnone, rfl⟩ | ⟨g, s', hg0, hrun, rfl⟩
  · simp [hnone] at hg'
  · have hnew := hg'.symm.trans (s'.image.program.graphAt?_regraph e e (some s'.graph))
    split at hnew
    · cases hnew
      exact (hg g hg0).lowered hrun
    · -- there is no graph where there is no method
      rename_i hm
      obtain ⟨m, hm', -⟩ := bind_eq_some_iff.1 hnew.symm
      rw [show s'.image.program.methodAt? e = some m from hm'] at hm; exact absurd ⟨rfl, rfl⟩ hm

end

lemma lowered_lowerEntities {es : List EntityId} (h : lowerEntities flavour es im = .ok u im') (hnd : es.Nodup)
    (hg : ∀ e g, im.program.graphAt? e = some g → if e ∈ es then g.Lowerable else g.Lowered) :
    ∀ e g, im'.program.graphAt? e = some g → g.Lowered := by
  induction es generalizing im with
  | nil =>
    cases h; exact fun e g h => by simpa using hg e g h
  | cons e es ih =>
    obtain ⟨u, im1, h1, h⟩ := bind_ok.1 h
    obtain ⟨hne, hnd⟩ := nodup_cons.1 hnd
    refine ih h hnd fun x g hx => ?_
    by_cases hxe : x = e
    · subst hxe
      rw [if_neg hne]; exact lowered_lowerEntity h1 (fun g hg' => by simpa using hg x g hg') g hx
    · rw [graphAt?_lowerEntity h1 hxe] at hx; simpa [hxe] using hg x g hx

lemma lowerEntity_again (h : ∀ g, im.program.graphAt? e = some g → g.Lowered) :
    lowerEntity flavour e im = .ok () im := by
  unfold lowerEntity
  split
  · rfl
  · rename_i g hg
    have hagain := (h g hg).again flavour
      (im.modifyProgram fun p => p.modifyMethod e fun m => { m with graph? := none })
    simp only []
    rw [hagain]
    exact congrArg (fun p => EStateM.Result.ok () { im with program := p }) (Program.regraph_regraph hg)

lemma lowerEntities_again (h : ∀ e g, im.program.graphAt? e = some g → g.Lowered) :
    ∀ es : List EntityId, lowerEntities flavour es im = .ok () im
  | [] => rfl
  | e :: es => bind_ok.2 ⟨(), im, lowerEntity_again (h e), lowerEntities_again h es⟩

end Image

def Image.Translated (im : Image) : Prop := ∀ e g, im.program.graphAt? e = some g →
  ∃ source c file member e' world world', methodGraph source c file member e' world = .ok g world'

/-- Lowering is complete and keeps memory linear, and lowering again changes nothing. -/
theorem lower_graphs_lowered {flavour : Flavour} {im im' : Image} (ht : im.Translated)
    (h : Image.lower flavour im = .ok () im') :
    (∀ e, (im'.program.graphAt? e).isSome = (im.program.graphAt? e).isSome) ∧
    (∀ e g, im'.program.graphAt? e = some g → g.Lowered) ∧
      ∀ flavour', Image.lower flavour' im' = .ok () im' := by
  have hsome := Image.lowering_lower flavour im trivial
  rw [h] at hsome
  have hrun := get_bind_ok.1 h
  have hlow := Image.lowered_lowerEntities hrun ?_ fun e g hg => ?_
  · refine ⟨hsome.2.graph, hlow, fun flavour' => bind_ok.2
      ⟨_, _, get_ok.2 ⟨rfl, rfl⟩, Image.lowerEntities_again hlow _⟩⟩
  · exact Nodup.map (fun a b h => congrArg EntityId.index h) nodup_range
  · obtain ⟨m, hm, -⟩ := bind_eq_some_iff.1 hg
    have hmem : e ∈ im.program.entityIds := mem_map.2 ⟨e.index, mem_range.2 (Program.hasEntity_of_methodAt? hm), rfl⟩
    rw [if_pos hmem]
    obtain ⟨source, c, file, member, e', world, world', hm⟩ := ht e g hg
    exact methodGraph_lowerable hm

def newArrayLength : Text.Bytes := [0x06, 0xbc, 0x0a, 0xbe, 0xac]

def Image.alone (m : Method) (g : Graph) : Image :=
  { program := { entities := #[⟨"m", "m", none, .method { m with graph? := some g }, .exported, none⟩] } }

lemma Image.graphAt?_alone {m : Method} {g g' : Graph} {e : EntityId}
    (h : (Image.alone m g).program.graphAt? e = some g') :
    g' = g := by
  obtain ⟨m', hm, hg⟩ := bind_eq_some_iff.1 h
  have he : e = ⟨0⟩ := EntityId.ext (Nat.lt_one_iff.1 (Program.hasEntity_of_methodAt? hm))
  rw [he] at hm
  cases hm
  exact (Option.some.inj hg).symm

/-- A new array and its length: both are lowered. -/
theorem lower_graphs_lowered_array : ∃ g world' im', translateAlone (staticMethod [] (some .int)) 1 0 newArrayLength =
    .ok g world' ∧
    (g.liveNodes.filter fun n => (g.node n).op.isObjectOp).length = 2 ∧
    Image.lower .simple (.alone (staticMethod [] (some .int)) g) = .ok () im' ∧ ∀ e g',
    im'.program.graphAt? e = some g' → g'.Lowered := by
  have run : (match translateAlone (staticMethod [] (some .int)) 1 0 newArrayLength with
    | .ok g _ => (g.liveNodes.filter fun n => (g.node n).op.isObjectOp).length == 2 &&
      (after? ((Image.lower .simple).run (.alone (staticMethod [] (some .int)) g))).isSome
    | .error _ _ => false) = true := by decide +kernel
  cases h : translateAlone (staticMethod [] (some .int)) 1 0 newArrayLength with
  | error e world' =>
    rw [h] at run
    cases run
  | ok g world' =>
    rw [h] at run
    obtain ⟨hcount, hrun⟩ := Bool.and_eq_true_iff.1 run
    obtain ⟨im', him'⟩ := isSome_iff_exists.1 hrun
    have hlower := after?_eq_some.1 him'
    refine ⟨g, world', im', rfl, eq_of_beq hcount, hlower, (lower_graphs_lowered (fun e g' hg => ?_) hlower).2.1⟩
    rw [Image.graphAt?_alone hg]
    exact ⟨_, _, _, _, _, _, _, h⟩

end JvmGraph
