import JvmGraph.Proofs.ClassFile.Writer
import JvmGraph.Proofs.Linking.Slots
import JvmGraph.Proofs.Loading.Session

/-!
# The search for members
A member is looked for in a class, then above its superclass, then above its interfaces. Where supertypes form no
circle, this finds one if any supertype has one, and that of the nearest superclass before all others. An interface
has a superclass too, and what is above that is searched like the rest.
-/

open Relation (ReflTransGen TransGen)

namespace JvmGraph.Program

open List Option ClassInfo

variable {α β : Type} {p p' : Program} {c d s : ClassId} {accept : Entity → Bool} {depth : Nat} {e : EntityId}

def Extends (p : Program) (s c : ClassId) : Prop := (p.classAt c).superclass? = some s ∨ s ∈ (p.classAt c).interfaces

/-- The supertypes that are linked to `c` form no circle. -/
def Acyclic (p : Program) (c : ClassId) : Prop := ∀ d, ReflTransGen p.Extends d c → ¬ TransGen p.Extends d d

lemma Acyclic.extends (h : p.Acyclic c) (hs : p.Extends s c) : p.Acyclic s := fun d hd => h d (hd.tail hs)

lemma Settled.extends (h : p.Settled c) (hs : p.Extends s c) : p.Settled s := hs.elim h.super h.interface

lemma Settled.acyclic (h : p.Settled c) : p.Acyclic c := by
  intro d hd
  have hset : p.Settled d := by
    induction hd with
    | refl => exact h
    | tail _ hs ih => exact ih (h.extends hs)
  clear hd
  have hacc : Acc (TransGen p.Extends) d := by
    apply Acc.transGen
    induction hset with
    | intro c _ _ _ ihs ihi => exact ⟨_, fun s hs => hs.elim (ihs s) (ihi s)⟩
  clear hset
  induction hacc with
  | intro c _ ih => exact fun hcycle => ih c hcycle hcycle

lemma Extends.hasClass (h : p.Extends s c) : p.HasClass c := by
  by_contra hc
  simp [Extends, p.classAt_of_not c hc] at h

lemma findSome?_congr {f g : α → Option β} {l : List α} (h : ∀ a ∈ l, f a = g a) : l.findSome? f = l.findSome? g := by
  induction l with
  | nil => rfl
  | cons a l ih => rw [findSome?_cons, findSome?_cons, h a (by simp), ih fun b hb => h b (by simp [hb])]

lemma searchMember_succ_congr {depth' : Nat} (hdecl : (p'.classAt c).decl = (p.classAt c).decl)
    (hm : ∀ e ∈ (p.classAt c).members, accept (p'.entityAt e) = accept (p.entityAt e))
    (h : ∀ s, p.Extends s c → p'.searchMember accept depth' s = p.searchMember accept depth s) :
    p'.searchMember accept (depth' + 1) c = p.searchMember accept (depth + 1) c := by
  have hsuper : (p'.classAt c).superclass? = (p.classAt c).superclass? := (congrArg superclass? hdecl :)
  have hinter : (p'.classAt c).interfaces = (p.classAt c).interfaces := (congrArg interfaces hdecl :)
  simp only [searchMember, hsuper, hinter, memberWhere?_congr (congrArg members hdecl :) hm]
  rw [findSome?_congr fun i hi => h i (.inr hi)]
  cases hs : (p.classAt c).superclass? with
  | none => rfl
  | some s => rw [bind_some, bind_some, h s (.inl hs)]

lemma Acyclic.searchMember_add (more : Nat) (h : p.Acyclic c) {below : List ClassId} (hn : below.Nodup)
    (hb : ∀ b ∈ below, p.HasClass b ∧ TransGen p.Extends c b) (hd : p.classes.size < below.length + depth) :
    p.searchMember accept (depth + more) c = p.searchMember accept depth c := by
  induction depth generalizing c below with
  | zero =>
    have hle := length_le_of_nodup hn fun b hmem => (hb b hmem).1; omega
  | succ depth ih =>
    rw [add_right_comm]
    refine searchMember_succ_congr rfl (fun _ _ => rfl) fun s hs => ?_
    have hbelow : ∀ b ∈ c :: below, p.HasClass b ∧ TransGen p.Extends s b := by
      refine forall_mem_cons.2 ⟨⟨hs.hasClass, .single hs⟩, fun b hmem => ?_⟩
      exact ⟨(hb b hmem).1, .head hs (hb b hmem).2⟩
    have hc : c ∉ below := fun hmem => h c .refl (hb c hmem).2
    exact ih (h.extends hs) (nodup_cons.2 ⟨hc, hn⟩) hbelow (by rw [length_cons]; omega)

lemma Acyclic.searchMember_eq (h : p.Acyclic c) : p.searchMember accept (p.classes.size + 1) c =
    (p.memberWhere? c accept).or
      (((p.classAt c).superclass?.bind fun s => p.searchMember accept (p.classes.size + 1) s).or
        ((p.classAt c).interfaces.findSome? fun i => p.searchMember accept (p.classes.size + 1) i)) :=
  (h.searchMember_add 1 nodup_nil (by simp) (by simp)).symm

lemma searchMember_mem (h : p.searchMember accept depth c = some e) :
    ∃ d, ReflTransGen p.Extends d c ∧ e ∈ (p.classAt d).members ∧ accept (p.entityAt e) = true := by
  induction depth generalizing c with
  | zero => cases h
  | succ depth ih =>
    simp only [searchMember, or_eq_some_iff] at h
    rcases h with h | ⟨-, h | ⟨-, h⟩⟩
    · exact ⟨c, .refl, memberWhere?_some h⟩
    · obtain ⟨s, hs, h⟩ := bind_eq_some_iff.1 h
      obtain ⟨d, hd, he⟩ := ih h; exact ⟨d, hd.tail (.inl hs), he⟩
    · obtain ⟨i, hi, h⟩ := exists_of_findSome?_eq_some h
      obtain ⟨d, hd, he⟩ := ih h; exact ⟨d, hd.tail (.inr hi), he⟩

lemma Acyclic.isSome_searchMember (h : p.Acyclic c) (hd : ReflTransGen p.Extends d c) (he : e ∈ (p.classAt d).members)
    (ha : accept (p.entityAt e) = true) : (p.searchMember accept (p.classes.size + 1) c).isSome := by
  induction hd with
  | refl =>
    have hown : (p.memberWhere? d accept).isSome := find?_isSome.2 ⟨e, he, ha⟩
    rw [h.searchMember_eq, isSome_or, hown, Bool.true_or]
  | @tail s c _ hs ih =>
    rw [h.searchMember_eq, isSome_or, isSome_or]
    have hfound := ih (h.extends hs)
    rcases hs with hs | hs
    · simp [hs, hfound]
    · have hinter : ((p.classAt c).interfaces.findSome? fun i => p.searchMember accept (p.classes.size + 1) i).isSome :=
        findSome?_isSome_iff.2 ⟨s, hs, hfound⟩
      simp [hinter]

lemma Acyclic.searchMember_chain (h : p.Acyclic c) {fuel : Nat}
    (he : (p.chain fuel c).findSome? (p.memberWhere? · accept) = some e) :
    p.searchMember accept (p.classes.size + 1) c = some e := by
  induction fuel generalizing c with
  | zero => cases he
  | succ fuel ih =>
    rw [chain, findSome?_cons] at he
    rw [h.searchMember_eq]
    cases hown : p.memberWhere? c accept with
    | some x =>
      rw [hown] at he
      rw [← he]; rfl
    | none =>
      rw [hown] at he
      cases hs : (p.classAt c).superclass? with
      | none => simp [hs] at he
      | some s => rw [hs] at he; simp [ih (h.extends (.inl hs)) he]

/-- Where supertypes form no circle, a member is found if a class has one that is linked above the class or is itself,
and what is found is one. If there is one on the chain of superclasses, it is the first of the nearest class there. -/
theorem nearest_member (p : Program) (c : ClassId) (sort : MemberSort) (name descriptor : String) (h : p.Acyclic c) :
    (∀ e, p.member? c sort name descriptor = some e → ∃ d, ReflTransGen p.Extends d c ∧ e ∈ (p.classAt d).members ∧
      sort.accepts name descriptor (p.entityAt e) = true) ∧
    (∀ d e, ReflTransGen p.Extends d c → e ∈ (p.classAt d).members → sort.accepts name descriptor
    (p.entityAt e) = true →
      (p.member? c sort name descriptor).isSome) ∧
    ∀ e, (p.ancestry c).findSome? (fun a => (p.classAt a).members.find? fun e =>
        sort.accepts name descriptor (p.entityAt e)) = some e → p.member? c sort name descriptor = some e :=
  ⟨fun _ => searchMember_mem, fun _ _ => h.isSome_searchMember, fun _ => h.searchMember_chain⟩

end JvmGraph.Program

namespace JvmGraph

def classAboveInterface : ClassSource :=
  .ofDrafts [
    { name := "X", methods := [⟨1, "m", "()V", none⟩] },
    { name := "I", flags := 0x601, super? := some "X" },
    { name := "C", interfaces := ["I"] }]

def aboveInterface : Session := .run classAboveInterface ([.lookup "C"] ++ .finalize ⟨0⟩ :: [])

lemma acyclic_aboveInterface : aboveInterface.failures = [] ∧ aboveInterface.world.program.Acyclic ⟨0⟩ := by
  have hok : aboveInterface.failures = [] := List.isEmpty_iff.1 (by decide +kernel)
  have hset := (Session.ready hok).fine ⟨0⟩ (Session.finalized hok)
    (Program.grounded_of_ranked (show Program.ranked _ [3, 0, 2, 1] = true by decide +kernel) ⟨0⟩)
  exact ⟨hok, hset.acyclic⟩

/-- The method of the class above the interface is found, which the class does not have by any other way. -/
theorem nearest_member_aboveInterface : (aboveInterface.world.program.member? ⟨0⟩ .method "m" "()V").isSome := by
  have hmember : ((aboveInterface.world.program.classAt ⟨3⟩).members.find? fun e =>
      MemberSort.accepts .method "m" "()V" (aboveInterface.world.program.entityAt e)).isSome := by decide +kernel
  obtain ⟨e, he, ha⟩ := List.find?_isSome.1 hmember
  exact (Program.nearest_member _ ⟨0⟩ .method "m" "()V" acyclic_aboveInterface.2).2.1 ⟨3⟩ e
    (.tail (b := ⟨2⟩) (.single (.inl (by decide +kernel))) (.inr (by decide +kernel))) he ha

/-- Neither on the chain of superclasses nor in any interface is there such a method. -/
theorem member_beyond_interfaces : aboveInterface.failures = [] ∧ aboveInterface.world.program.Acyclic ⟨0⟩ ∧
    (aboveInterface.world.program.member? ⟨0⟩ .method "m" "()V").isSome = true ∧
    ∀ d ∈ List.range aboveInterface.world.program.classes.size,
      ((aboveInterface.world.classAt ⟨d⟩).isInterface = true ∨ ⟨d⟩ ∈ aboveInterface.world.program.ancestry ⟨0⟩) →
      ∀ e ∈ (aboveInterface.world.classAt ⟨d⟩).members,
        MemberSort.accepts .method "m" "()V" (aboveInterface.world.program.entityAt e) = false :=
  ⟨acyclic_aboveInterface.1, acyclic_aboveInterface.2, by decide +kernel, by decide +kernel⟩

end JvmGraph
