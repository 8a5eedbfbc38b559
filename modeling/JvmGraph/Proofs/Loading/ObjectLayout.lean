import JvmGraph.Proofs.ClassFile.Writer
import JvmGraph.Proofs.Linking.Slots
import JvmGraph.Proofs.Loading.Failure

/-!
# The layout of objects
An object of a class has the instance fields of the class and of its superclasses. Each lies at a multiple of its
size, no two of them overlap, and all of them lie behind the dispatch table and within the size of the object. A class
adds its fields behind those of its superclass, so this carries over from class to class; it fails where a class is
laid out before its superclass, which takes a circle of supertypes. Offsets and sizes are numbers of 32 bits where
they are computed, so all of this is about objects whose size is such a number.
-/

open Relation (ReflTransGen TransGen)

namespace JvmGraph

open List Program

namespace Program

variable {p : Program} {c a a' : ClassId} {e e' : EntityId} {f f' : Field}

/-! ## Layouts -/

structure HasField (p : Program) (a : ClassId) (e : EntityId) (f : Field) : Prop where
  member : e ∈ (p.classAt a).members
  field : p.fieldAt? e = some f

/-- The fields of the classes in `l` lie behind the dispatch table and within `size`. -/
structure Fills (p : Program) (l : List ClassId) (size : Nat) : Prop where
  place : ∀ a ∈ l, ∀ e f, p.HasField a e f → f.isStatic = false →
    ∃ offset, f.offset? = some offset ∧ f.size ∣ offset ∧ Abi.pointerSize ≤ offset ∧ offset + f.size ≤ size
  static : ∀ a ∈ l, ∀ e f, p.HasField a e f → f.isStatic = true → f.offset? = none
  disjoint : ∀ a ∈ l, ∀ a' ∈ l, ∀ e f e' f', p.HasField a e f → p.HasField a' e' f' → e ≠ e' →
    ∀ o o', f.offset? = some o → f'.offset? = some o' → o + f.size ≤ o' ∨ o' + f'.size ≤ o

/-- Objects of `c` have the fields of `c` and its superclasses, all in places of their own. -/
structure LaidOut (p : Program) (c : ClassId) : Prop extends Fills p (p.ancestry c) (p.classAt c).size where
  /-- What the class adds lies behind what it inherits. -/
  inherited : ∀ s, (p.classAt c).superclass? = some s → (p.classAt s).size ≤ (p.classAt c).size ∧
    ∀ e f, p.HasField c e f → ∀ o, f.offset? = some o → (p.classAt s).size ≤ o
  words : Abi.pointerSize ∣ (p.classAt c).size
  vptr : Abi.pointerSize ≤ (p.classAt c).size

lemma Fills.le_size {l : List ClassId} {size o : Nat} (h : p.Fills l size) (ha : a ∈ l) (he : p.HasField a e f)
    (ho : f.offset? = some o) : o + f.size ≤ size := by
  cases hs : f.isStatic with
  | true => cases (h.static a ha e f he hs).symm.trans ho
  | false =>
    obtain ⟨offset, hoffset, -, -, hle⟩ := h.place a ha e f he hs
    cases hoffset.symm.trans ho
    exact hle

/-- A class whose fields follow each other from where those of the classes in `l` end. -/
lemma Fielded.laidOut {l : List ClassId} (h : p.Fielded c) (hanc : p.ancestry c = c :: l)
    (hbase : Abi.pointerSize ≤ p.fieldStart c) (hl : p.Fills l (p.fieldStart c))
    (hsuper : ∀ s, (p.classAt c).superclass? = some s → p.fieldStart c = (p.classAt s).size) : p.LaidOut c := by
  obtain ⟨stop, hplaced, hsize⟩ := h
  have hstop : stop ≤ (p.classAt c).size := hsize ▸ le_align stop Abi.pointerSize
  have hle := le_trans hplaced.le hstop
  have hown : ∀ e f, p.HasField c e f → ∀ o, f.offset? = some o → p.fieldStart c ≤ o := fun e f he o ho =>
    hplaced.start_le he.member he.field ho
  have hmem : ∀ {a}, a ∈ p.ancestry c → a = c ∨ a ∈ l := by simp [hanc]
  refine ⟨⟨fun a ha e f he hf => ?_, fun a ha e f he hf => ?_, ?_⟩, fun s hs => hsuper s hs ▸ ⟨hle, hown⟩,
    hsize ▸ dvd_align stop (by decide), le_trans hbase hle⟩
  · rcases hmem ha with rfl | ha
    · obtain ⟨offset, hoffset, hdvd, hbegin, hend⟩ := hplaced.exists_offset he.member he.field hf
      exact ⟨offset, hoffset, hdvd, le_trans hbase hbegin, le_trans hend hstop⟩
    · obtain ⟨offset, hoffset, hdvd, hbegin, hend⟩ := hl.place a ha e f he hf
      exact ⟨offset, hoffset, hdvd, hbegin, le_trans hend hle⟩
  · rcases hmem ha with rfl | ha
    · exact hplaced.offset?_static he.member he.field hf
    · exact hl.static a ha e f he hf
  · intro a ha a' ha' e f e' f' he he' hne o o' ho ho'
    -- an inherited field ends where those of the class begin
    rcases hmem ha with hac | ha <;> rcases hmem ha' with hac' | ha'
    · rw [hac] at he
      rw [hac'] at he'; exact hplaced.disjoint he.member he'.member hne he.field he'.field ho ho'
    · exact .inr (le_trans (hl.le_size ha' he' ho') (hown e f (hac ▸ he) o ho))
    · exact .inl (le_trans (hl.le_size ha he ho) (hown e' f' (hac' ▸ he') o' ho'))
    · exact hl.disjoint a ha a' ha' e f e' f' he he' hne o o' ho ho'

/-! ## Superclasses -/

section

variable (hup : ∀ b s, (p.classAt b).superclass? = some s → p.Above s b) {n : Nat}

include hup

lemma above_of_mem_chain (ha : a ∈ p.chain n c) : ReflTransGen p.Above a c := by
  induction n generalizing c with
  | zero => cases ha
  | succ n ih =>
    rw [chain, mem_cons] at ha
    rcases ha with rfl | ha
    · exact .refl
    · cases hs : (p.classAt c).superclass? with
      | none => simp [hs] at ha
      | some s =>
        rw [hs] at ha
        exact (ih ha).tail (hup c s hs)

lemma chain_pairwise : (p.chain n c).Pairwise fun b a => TransGen p.Above a b := by
  induction n generalizing c with
  | zero => exact .nil
  | succ n ih =>
    rw [chain]
    cases hs : (p.classAt c).superclass? with
    | none => exact pairwise_singleton _ _
    | some s => exact .cons (fun a ha => .tail' (above_of_mem_chain hup ha) (hup c s hs)) ih

omit hup in
lemma lineage_chain (h : (p.chain n c).length < n) : p.Lineage c (p.chain n c) := by
  induction n generalizing c with
  | zero => cases h
  | succ n ih =>
    rw [chain] at h ⊢
    cases hs : (p.classAt c).superclass? with
    | none => exact .root hs
    | some s =>
      rw [hs] at h
      exact .sub hs (ih (Nat.lt_of_succ_lt_succ h))

/-- A chain that does not end comes back to one of its classes. -/
lemma lineage_of_acyclic (hc : p.HasClass c) (hno : ∀ a ∈ p.ancestry c, ¬ TransGen p.Above a a) :
    p.Lineage c (p.ancestry c) ∧ ∀ a ∈ p.ancestry c, p.HasClass a := by
  have hhas : ∀ a ∈ p.ancestry c, p.HasClass a := by
    intro a ha
    rcases (above_of_mem_chain hup ha).cases_head with rfl | ⟨b, hab, -⟩
    · exact hc
    · exact hab.1
  have hnodup : (p.ancestry c).Nodup := by
    refine (chain_pairwise hup).imp_of_mem fun ha _ hba => ?_
    rintro rfl; exact hno _ ha hba
  exact ⟨lineage_chain (Nat.lt_succ_of_le (length_le_of_nodup hnodup hhas)), hhas⟩

end

end Program

lemma World.Planned.laidOut {w : World} {c : ClassId} {l : List ClassId} (h : w.Planned) (hl : w.program.Lineage c l)
    (hhas : ∀ a ∈ l, w.HasClass a) (hdone : ∀ a ∈ l, w.Finalized a)
    (hno : ∀ a ∈ l, ¬ TransGen w.program.Above a a) : w.program.LaidOut c ∧
      ∀ a ∈ l, (w.program.classAt a).size ≤ (w.program.classAt c).size := by
  induction hl with
  | @root c hs =>
    have hf := (h.plan c).laid (hdone c (by simp)) fun s hs' => nomatch hs.symm.trans hs'
    refine ⟨hf.laidOut ((Program.Lineage.root hs).ancestry_eq hhas) ?_ ⟨by simp, by simp, by simp⟩
      fun s hs' => ?_, by simp⟩
    · rw [fieldStart, hs]
    · cases hs.symm.trans hs'
  | @sub c s l hs hl ih =>
    obtain ⟨hfirst, hrest⟩ := forall_mem_cons.1 hhas
    obtain ⟨hdone1, hdones⟩ := forall_mem_cons.1 hdone
    obtain ⟨-, hnos⟩ := forall_mem_cons.1 hno
    obtain ⟨hlaid, hall⟩ := ih hrest hdones hnos
    have hstart : w.program.fieldStart c = (w.program.classAt s).size := by rw [fieldStart, hs]
    have hsuper : ∀ s', (w.program.classAt c).superclass? = some s' → s' = s := fun s' hs' => Option.some.inj
      (hs'.symm.trans hs)
    have hf : w.program.Fielded c := (h.plan c).laid hdone1 fun s' hs' => by
      rw [hsuper s' hs']
      exact ⟨hdones s hl.self_mem, hnos s hl.self_mem⟩
    have hlaid' : w.program.LaidOut c := by
      refine hf.laidOut ?_ (hstart ▸ hlaid.vptr) (hstart ▸ hlaid.toFills) fun s' hs' => hsuper s' hs' ▸ hstart
      rw [(Program.Lineage.sub hs hl).ancestry_eq hhas, hl.ancestry_eq hrest]
    refine ⟨hlaid', forall_mem_cons.2 ⟨le_refl _, fun a ha => ?_⟩⟩
    exact le_trans (hall a ha) (hlaid'.inherited s hs).1

/-- After any calls, failed ones among them: a class is laid out if it and its superclasses are finalized and none of
them is its own supertype. If its size is a number of 32 bits, so are those of its superclasses and thus all offsets.
-/
theorem finalized_laidOut (source : ClassSource) (calls : List Call) (c : ClassId)
    (hdone : ∀ a ∈ (Session.run source calls).world.program.ancestry c,
      ((Session.run source calls).world.classAt a).state = .finalized)
    (hno : ∀ a ∈ (Session.run source calls).world.program.ancestry c,
      ¬ TransGen (Session.run source calls).world.program.Above a a)
    (hsize : ((Session.run source calls).world.classAt c).size < 4294967296) :
    (Session.run source calls).world.program.LaidOut c ∧
      ∀ a ∈ (Session.run source calls).world.program.ancestry c,
        ((Session.run source calls).world.classAt a).size < 4294967296 := by
  have h : (Session.run source calls).world.Planned := (Session.run_account calls).planned
  have hc : (Session.run source calls).world.HasClass c := World.hasClass_of_finalized (hdone c mem_cons_self)
  obtain ⟨hl, hhas⟩ := Program.lineage_of_acyclic (fun b s hs => ((h.plan b).super s hs).1) hc hno
  obtain ⟨hlaid, hall⟩ := h.laidOut hl hhas hdone hno
  exact ⟨hlaid, fun a ha => lt_of_le_of_lt (hall a ha) hsize⟩

def paddedFields : ClassSource :=
  .ofDrafts [
    { name := "A", fields := [⟨1, "small", "B", none⟩, ⟨1, "wide", "J", none⟩, ⟨9, "shared", "I", none⟩,
      ⟨1, "last", "B", none⟩] },
    { name := "B", super? := some "A", interfaces := ["I"],
      fields := [⟨1, "half", "S", none⟩, ⟨1, "ref", "LA;", none⟩] },
    { name := "I", flags := 0x601, interfaces := ["X"] }]

/-- The interface of the class could not be finalized. -/
def paddedCalls : List Call := [.lookup "I", .finalize ⟨0⟩, .lookup "B", .finalize ⟨3⟩]

def paddedSession : Session := .run paddedFields paddedCalls

theorem finalized_laidOut_padded :
    (paddedSession.failures.length = 1 ∧ paddedSession.world.program.ancestry ⟨3⟩ = [⟨3⟩, ⟨4⟩, ⟨1⟩] ∧
      (∀ a ∈ paddedSession.world.program.ancestry ⟨3⟩, (paddedSession.world.classAt a).state = .finalized) ∧
      (paddedSession.world.classAt ⟨4⟩).size = 20 ∧ (paddedSession.world.classAt ⟨3⟩).size = 28) ∧
    paddedSession.world.program.LaidOut ⟨3⟩ := by
  have hdone : ∀ a ∈ paddedSession.world.program.ancestry ⟨3⟩, (paddedSession.world.classAt a).state = .finalized := by
    decide +kernel
  have hsize : (paddedSession.world.classAt ⟨3⟩).size = 28 := by decide +kernel
  have hno : ∀ a, ¬ TransGen paddedSession.world.program.Above a a := fun a =>
    grounded_of_climbs (show climbs _ [1, 0, 0, 2, 1] = true by decide +kernel) a a .refl
  refine ⟨⟨by decide +kernel, by decide +kernel, hdone, by decide +kernel, hsize⟩, ?_⟩
  exact (finalized_laidOut paddedFields paddedCalls ⟨3⟩ hdone (fun a _ => hno a) (hsize.trans_lt (by decide))).1

def rootInterface : ClassSource :=
  .ofDrafts [
    { name := "java/lang/Object", super? := none, interfaces := ["I"] },
    { name := "I", flags := 0x601, fields := [⟨1, "x", "I", none⟩] }]

def rootSession : Session := .run rootInterface [.lookup "java/lang/Object", .finalize ⟨0⟩]

/-- An interface of the class of objects is laid out before its superclass, with a field in the place of the dispatch
table. -/
theorem not_laidOut_rootInterface :
    rootSession.failures = [] ∧ rootSession.world.program.ancestry ⟨1⟩ = [⟨1⟩, ⟨0⟩] ∧
    (∀ a ∈ rootSession.world.program.ancestry ⟨1⟩, (rootSession.world.classAt a).state = .finalized) ∧
    ¬ rootSession.world.program.LaidOut ⟨1⟩ := by
  refine ⟨isEmpty_iff.1 (by decide +kernel), by decide +kernel, by decide +kernel, fun h => ?_⟩
  have hfield : rootSession.world.program.HasField ⟨1⟩ ⟨4⟩
      { descriptor := "I", type := .base .int, flags := ⟨1⟩, offset? := some 0 } :=
    ⟨by decide +kernel, by decide +kernel⟩
  obtain ⟨offset, hoffset, -, hle, -⟩ := h.place ⟨1⟩ (by decide +kernel) _ _ hfield (by decide)
  cases hoffset
  exact absurd hle (by decide)

end JvmGraph
