import JvmGraph.Proofs.Linking.Dispatch

/-!
# Dispatch by slot and by name

A method with a slot is found in two ways: by its slot in the dispatch table, and by name and descriptor in the
method table of the class object. Both lead to the same code, but for a stand-in of an inherited abstract
method: its slot holds the trap, its row the abstract method.
-/

namespace JvmGraph.Program

open ClassObject Option

variable {p : Program} {c : ClassId} {e o r : EntityId} {m mo mr : Method} {name : String} {j : Nat} {trap : EntityId}

def rowCode? (p : Program) (c : ClassId) (e : EntityId) : Option Initializer :=
  (p.methodTable c)[(p.methodIds c).idxOf e]?.bind codePointer?

def StandsForAbstract (p : Program) (m : Method) : Prop :=
  ∃ r mr, m.implementation? = some r ∧ p.declAt? r = some mr ∧ mr.isAbstract = true

lemma Described.rowCode? (h : p.Described c trap) (he : e ∈ (p.classAt c).members)
    (hm : p.declAt? e = some m) : p.rowCode? c e = some (.address (codeOf trap e m)) := by
  have hmem : e ∈ p.methodIds c := List.mem_filter.2 ⟨he, by simp [hm]⟩
  have hlt := List.idxOf_lt_length_of_mem hmem
  have hlt' : (p.methodIds c).idxOf e < (p.methodTable c).length := h.rows.length_eq ▸ hlt
  obtain ⟨m', hm', hcode, -⟩ := h.rows.get hlt hlt'
  simp only [List.get_eq_getElem, List.getElem_idxOf] at hm' hcode
  rw [hm, some.injEq] at hm'
  rw [Program.rowCode?, List.getElem?_eq_getElem hlt', bind_some, hcode, hm']

lemma Inherits.isOverridable (h : p.Settled c) (hi : p.Inherits c name m o r mr) (hname : (p.entityAt e).name = name)
    (hm : p.declAt? e = some m) : isOverridable name m.descriptor (p.entityAt e) = true := by
  obtain ⟨s, mo, hs, ⟨a, ha, hoa, hmo⟩, -, -, hstatic, hprivate⟩ := methodAbove_of_overridden hi.overridden
  have hr : p.declAt? (p.realOf o) = some mr := by rw [realOf, hi.real]; exact hi.decl
  have hflags : m.flags = mo.flags := hi.flags.trans (((h.super hs).ancestor ha).same_real hoa hmo hr).2.symm
  refine isOverridable_iff.2 ⟨hname, m, hm, rfl, ?_, ?_⟩
  · rwa [Method.isStatic, hflags]
  · rwa [hflags]

lemma IsTrap.declAt? (h : p.IsTrap trap) : p.declAt? trap = none := by
  rw [Program.declAt?, methodAt?, h.2]
  rfl

structure Agreement (p : Program) (c : ClassId) (e : EntityId) (m : Method) (row entry : Initializer)
    (trap : EntityId) : Prop where
  isTrap : p.IsTrap trap
  agree : row = entry ↔ ¬ p.StandsForAbstract m
  /-- Where they differ, one has the abstract method and the other the trap. -/
  differ : p.StandsForAbstract m → some row = m.implementation?.map .address ∧ entry = .address trap
  /-- A method that is abstract itself is the trap in both. -/
  abstract : m.isAbstract = true → row = .address trap ∧ entry = .address trap

lemma Plain.agreement (h : p.Plain c) (hext : (p.classAt c).isExtern = false) (he : e ∈ (p.classAt c).members)
    (hm : p.declAt? e = some m) (hj : m.slot? = some j) :
    ∃ row entry trap, p.rowCode? c e = some row ∧ (p.tableOf c)[j]? = some entry ∧
      p.Agreement c e m row entry trap := by
  obtain ⟨file, fields, declared, standIns, -, hp⟩ := h.settled.linked.parts
  obtain ⟨trap, htrap, hlaid, hrows⟩ := h.filled.laid
  have hrow := (hrows hext).rowCode? he hm
  rcases h.settled.own_or_inherits he hm with hnone | ⟨o, r, mr, hi⟩
  · have hex : m.excluded = false := by
      by_contra hex
      rw [Bool.not_eq_false] at hex; simp [hp.unslotted e he m hm hnone (.inl hex)] at hj
    have hno : ¬ p.StandsForAbstract m := by rintro ⟨r, mr, hr, -⟩; simp [hnone] at hr
    have hsame : codeOrTrap trap e m = .address (codeOf trap e m) := by
      rw [codeOrTrap, codeOf, hnone, getD_none]
    refine ⟨_, _, trap, hrow, h.entry_of_enters hlaid ⟨he, hm, hex⟩ hj, htrap, ?_, fun hs => absurd hs hno, ?_⟩
    · simp [hno, hsame]
    · intro habs; simp [codeOrTrap, codeOf, habs]
  · have hacc := hi.isOverridable h.settled rfl hm
    have hreal := hi.realOf_self hm
    obtain ⟨trap', htrap', hentry⟩ := h.entry_of_nearest (h.nearest?_self he hacc) (by rw [hreal]; exact hi.decl)
      (hi.slot ▸ hj)
    rw [hreal] at hentry
    have hcode : codeOf trap e m = r := by
      simp [codeOf, hi.isAbstract, hi.implementation]
    rw [hcode] at hrow
    have habs : p.StandsForAbstract m ↔ mr.isAbstract = true := by
      constructor
      · rintro ⟨r', mr', hr', hmr', habs⟩
        rw [hi.implementation, some.injEq] at hr'
        subst hr'
        rw [hi.decl, some.injEq] at hmr'; exact hmr' ▸ habs
      · exact fun habs => ⟨r, mr, hi.implementation, hi.decl, habs⟩
    refine ⟨_, _, trap', hrow, hentry, htrap', ?_, ?_, ?_⟩
    · rw [habs, codeOrTrap]
      cases hmr : mr.isAbstract with
      | false => simp
      | true =>
        -- the abstract method is not the trap
        have hne : r ≠ trap' := by
          rintro rfl
          have := hi.decl; simp [htrap'.declAt?] at this
        simpa using hne
    · intro hs; rw [hi.implementation, codeOrTrap, if_pos (habs.1 hs)]; exact ⟨rfl, rfl⟩
    · intro hm'; simp [hi.isAbstract] at hm'

end JvmGraph.Program
