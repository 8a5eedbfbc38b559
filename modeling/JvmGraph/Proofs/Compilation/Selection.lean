import JvmGraph.Proofs.Compilation.Slots
import JvmGraph.Proofs.Linking.Dispatch
import JvmGraph.Proofs.Lowering.ArrayLayout
import JvmGraph.Proofs.Lowering.Image

/-!
# Selecting a method for a receiver
A call that selects a method finds the code of the nearest method with its name and descriptor, from the class of the
receiver upwards. Lowering takes it from the slot of the method in the dispatch table of that class. If no class below
can have another, it takes the code of the method as it is known.
-/

namespace JvmGraph

open List Option Program Lower

namespace Program

variable {p : Program} {c a s : ClassId} {e : EntityId} {m me : Method} {name descriptor : String}

/-! ## The method that a receiver has -/

def nearestOwn? (p : Program) (c : ClassId) (name descriptor : String) : Option EntityId :=
  (p.ancestry c).findSome? fun a => p.memberWhere? a fun x =>
    isOverridable name descriptor x && (x.method?.bind Method.implementation?).isNone

def RespectsFinal (p : Program) (c : ClassId) : Prop :=
  ∀ b ∈ p.ancestry c, ∀ e ∈ (p.classAt b).members, ∀ m ∈ p.declAt? e, (m.isFinal = true → m.isAbstract = false) ∧
    (m.implementation? = none → ∀ o ∈ p.overrides? b (p.entityAt e).name m, ∀ mo ∈ p.declAt? (p.realOf o),
      mo.isFinal = false)

instance (p : Program) (c : ClassId) : Decidable (p.RespectsFinal c) := List.decidableBAll ..

lemma RespectsFinal.super (h : p.RespectsFinal c) (hset : p.Settled c) (hs : (p.classAt c).superclass? = some s) :
    p.RespectsFinal s := fun b hb => h b (by simp [hset.ancestry_sub hs, hb])

lemma Orderly.ancestor (h : p.Orderly c) (ha : a ∈ p.ancestry c) : p.Orderly a where
  settled := h.settled.ancestor ha
  classes b hb := h.classes b (h.settled.ancestry_trans ha hb)
  interfaces b hb := h.interfaces b (h.settled.ancestry_trans ha hb)

lemma Orderly.slot_or_final (h : p.Orderly a) (he : e ∈ (p.classAt a).members) (hm : p.declAt? e = some m)
    (hown : m.implementation? = none) (hacc : isOverridable name descriptor (p.entityAt e) = true)
    (hname : name.toList.head? ≠ some '<') : (∃ j, m.slot? = some j) ∨ m.isFinal = true := by
  obtain ⟨hn, m', hm', -, hstatic, hprivate⟩ := isOverridable_iff.1 hacc
  cases hm.symm.trans hm'
  obtain ⟨trap, -, hlaid, -⟩ := h.filled.laid
  have enters : m.excluded = false → ∃ j, m.slot? = some j :=
    fun hex => (hlaid.slot e m ⟨he, hm, hex⟩).imp fun _ h => h.1
  obtain ⟨file, fields, declared, standIns, -, hp⟩ := h.settled.linked.parts
  rcases hp.origin he hm with ⟨-, member, -, hd⟩ | ⟨-, ⟨o, r, mr, hi⟩ | hv⟩
  · cases hf : m.isFinal with
    | true => exact .inr rfl
    | false =>
      refine .inl (enters ?_)
      have hinit : (p.entityAt e).name ≠ "<init>" := by
        rw [hn]
        rintro rfl; exact hname rfl
      simp [hd.excluded, hstatic, hprivate, hf, hinit]
  · simp [hi.implementation] at hown
  · exact .inl (enters hv.excluded)

namespace Plain

lemma nearestOwn?_eq (h : p.Plain c) (name descriptor : String) :
    p.nearestOwn? c name descriptor = (p.nearest? c name descriptor).map p.realOf := by
  induction h.settled using Settled.down with
  | step c _ ih =>
    have hsub : ((p.classAt c).superclass?.bind fun s => p.nearestOwn? s name descriptor) =
        (p.overridden? c name descriptor).map p.realOf := by
      rw [overridden?_eq]
      cases hs : (p.classAt c).superclass? with
      | none => rfl
      | some s => exact ih s hs (h.super hs)
    rw [nearestOwn?, h.settled.findSome?_ancestry, h.settled.nearest?_eq]
    change Option.or _ ((p.classAt c).superclass?.bind fun s => p.nearestOwn? s name descriptor) = _
    rw [hsub]
    cases hf : p.memberWhere? c (isOverridable name descriptor) with
    | none =>
      rw [show p.memberWhere? c _ = none from find?_eq_none.2 fun x hx hacc =>
        find?_eq_none.1 hf x hx (Bool.and_eq_true_iff.1 hacc).1]
      rfl
    | some o =>
      obtain ⟨ho, hacc⟩ := memberWhere?_some hf
      rcases h.nearest_cases (h.nearest?_self ho hacc) with ⟨-, -, hown⟩ | ⟨-, -, m, o', r, mr, hm, hi⟩ | ⟨hnone, -⟩
      · rw [h.memberWhere?_eq (fun x hx => isInstanceMethod_of_overridable (Bool.and_eq_true_iff.1 hx).1) ho
          (by rw [hacc, Bool.true_and, isNone_iff_eq_none]; exact (implementation?_declAt? p o).trans hown)]
        simp [realOf_eq_self hown]
      · -- the stand-in is passed over, and what it stands for is found above
        rw [show p.memberWhere? c _ = none from find?_eq_none.2 fun x hx hacc' => by
          obtain ⟨hover, himp⟩ := Bool.and_eq_true_iff.1 hacc'
          rw [h.unique hx ho (isInstanceMethod_of_overridable hover) (isInstanceMethod_of_overridable hacc),
            show (p.entityAt o).method?.bind _ = _ from implementation?_declAt? p o, hm,
            bind_some, hi.implementation] at himp
          cases himp]
        obtain ⟨-, m', hm', hdesc, -⟩ := isOverridable_iff.1 hacc
        cases hm.symm.trans hm'
        rw [← hdesc, hi.overridden]; simp [hi.realOf_self hm, show p.realOf o' = r from hi.real]
      · simp [hf] at hnone

lemma nearest_below (h : p.Plain c) (hf : p.RespectsFinal c) (ha : a ∈ p.ancestry c) (he : e ∈ (p.classAt a).members)
    (hacc : isOverridable name descriptor (p.entityAt e) = true) (hname : name.toList.head? ≠ some '<')
    (hme : p.declAt? (p.realOf e) = some me) : ∃ o mo, p.nearest? c name descriptor = some o ∧
      p.declAt? (p.realOf o) = some mo ∧ (p.realOf o = p.realOf e ∨ me.isFinal = false) ∧
      ∀ j, me.slot? = some j → mo.slot? = some j := by
  induction h.settled using Settled.down with
  | step c _ ih =>
    by_cases hca : a = c
    · subst hca; exact ⟨e, me, h.nearest?_self he hacc, hme, .inl rfl, fun _ h => h⟩
    cases hs : (p.classAt c).superclass? with
    | none => rw [h.settled.ancestry_root hs, mem_singleton] at ha; exact absurd ha hca
    | some s =>
      rw [h.settled.ancestry_sub hs, mem_cons] at ha
      obtain ⟨o', mo', hnear, hmo', hsame, hslot⟩ := ih s hs (h.super hs) (hf.super h.settled hs) (ha.resolve_left hca)
      have hover : p.overridden? c name descriptor = some o' := (overridden?_sub hs name descriptor).trans hnear
      cases hw : p.memberWhere? c (isOverridable name descriptor) with
      | none => exact ⟨o', mo', by rw [h.settled.nearest?_eq, hw, hover]; rfl, hmo', hsame, hslot⟩
      | some o =>
        obtain ⟨ho, hacc'⟩ := memberWhere?_some hw
        have hnear' := h.nearest?_self ho hacc'
        obtain ⟨hn, m, hm, hd, hstatic, hprivate⟩ := isOverridable_iff.1 hacc'
        obtain ⟨file, fields, declared, standIns, -, hp⟩ := h.settled.linked.parts
        rw [← hn, ← hd] at hover
        rcases hp.origin ho hm with ⟨-, member, -, hdecl⟩ | ⟨-, ⟨o2, r, mr, hi⟩ | hv⟩
        · have hover' : p.overrides? c (p.entityAt o).name m = some o' := by
            rwa [overrides?, hstatic, hprivate, hn, if_neg (by simpa using hname), ← hn]
          have hfinal := (hf c h.settled.self_mem o ho m hm).2 hdecl.implementation o' hover' mo' hmo'
          have hinit : (p.entityAt o).name ≠ "<init>" := by
            rw [hn]
            rintro rfl; exact hname rfl
          have henters : p.Enters c o m := ⟨ho, hm, by simp [hdecl.excluded, hstatic, hprivate, hover', hinit]⟩
          refine ⟨o, m, hnear', by rwa [realOf_eq_self (by rw [hm]; exact hdecl.implementation)], .inr ?_,
            fun j hj => ?_⟩
          · rcases hsame with e' | h
            · rw [e', hme] at hmo'
              cases hmo'
              exact hfinal
            · exact h
          · -- it takes the slot of what it overrides
            obtain ⟨⟨s', hs', b, hb, hob⟩, hacc2⟩ := overridden?_some hover
            obtain ⟨-, m2, hm2, -⟩ := isOverridable_iff.1 hacc2
            have hat : p.slotAt? o' = some j := by
              rw [slotAt?_eq, hm2, bind_some, (((h.settled.super hs').ancestor hb).same_real hob hm2 hmo').1,
                hslot j hj]
            obtain ⟨ims, hims, -⟩ := hdecl.overwrites
            obtain ⟨trap, -, hlaid, -⟩ := h.filled.laid
            obtain ⟨k, hk, -, hsome, -⟩ := hlaid.slot o m henters
            rw [hk, hsome j (h.overridden_of_slot henters (by simp [hims, hover']) hat).2]
        · rw [hi.overridden] at hover
          cases hover
          exact ⟨o, mo', hnear', by rwa [hi.realOf_self hm, ← hi.real], by rwa [hi.realOf_self hm, ← hi.real], hslot⟩
        · rw [hv.overridden] at hover; cases hover

lemma selects (h : p.Plain c) (hf : p.RespectsFinal c) (ha : a ∈ p.ancestry c) (he : e ∈ (p.classAt a).members)
    (hm : p.declAt? e = some m) (hacc : isOverridable name descriptor (p.entityAt e) = true)
    (hname : name.toList.head? ≠ some '<') :
    ∃ r mr, p.nearestOwn? c name descriptor = some r ∧ p.declAt? r = some mr ∧
      ((m.binding = .dynamic ∧ ∃ j, m.slot? = some j ∧
          ∃ trap, p.IsTrap trap ∧ (p.tableOf c)[j]? = some (codeOrTrap trap r mr)) ∨
        (m.binding ≠ .interface ∧ (m.binding = .dynamic → m.slot? = none) ∧ m.implementation?.getD e = r ∧
          mr.isAbstract = false)) := by
  have hset := h.settled.ancestor ha
  have hreal : p.realOf e = m.implementation?.getD e := by rw [realOf, hm, bind_some]
  obtain ⟨me, hme, hown, ⟨b, hb, hrb⟩, hrname, hrdesc, hrflags⟩ := hset.real he hm
  rw [← hreal] at hme hrb hrname
  obtain ⟨o, mo, hnear, hmo, hsame, hslot⟩ := h.nearest_below hf ha he hacc hname hme
  refine ⟨p.realOf o, mo, by rw [h.nearestOwn?_eq, hnear]; rfl, hmo, ?_⟩
  -- a final method is the nearest wherever it is inherited
  have known : me.isFinal = true → m.implementation?.getD e = p.realOf o ∧ mo.isAbstract = false := by
    intro hfinal
    have heq := hsame.resolve_right (by rw [hfinal]; simp)
    rw [heq, hme] at hmo
    cases hmo
    exact ⟨hreal.symm.trans heq.symm, (hf b (h.settled.ancestry_trans ha hb) _ hrb me hme).1 hfinal⟩
  obtain ⟨hslots, hflags⟩ := hset.same_real he hm hme
  obtain ⟨hn, m', hm', hd, hstatic, hprivate⟩ := isOverridable_iff.1 hacc
  cases hm.symm.trans hm'
  have hacc' : isOverridable name descriptor (p.entityAt (p.realOf e)) = true :=
    isOverridable_iff.2 ⟨hrname.trans hn, me, hme, hrdesc.trans hd, by rwa [Method.isStatic, hrflags], by rwa [hrflags]⟩
  obtain ⟨file, fields, declared, standIns, -, hp⟩ := hset.linked.parts
  have hbinding : m.binding = .dynamic ∨ m.binding = .static ∧ (m.slot? = none ∨ me.isFinal = true) := by
    rcases hp.origin he hm with ⟨-, member, -, hdecl⟩ | ⟨-, ⟨o2, r, mr, hi⟩ | hv⟩
    · rw [hdecl.binding, h.classes a ha]
      cases hex : m.excluded with
      | true => exact .inr ⟨by simp, .inl (hp.unslotted e he m hm hdecl.implementation (.inl hex))⟩
      | false =>
        rw [hreal, hdecl.implementation, getD_none, hm] at hme
        cases hme
        cases hfin : m.isFinal <;> simp
    · exact .inl hi.binding
    · exact .inl hv.binding
  have hfinal : me.slot? = none → me.isFinal = true := fun hnone =>
    ((h.toOrderly.ancestor (h.settled.ancestry_trans ha hb)).slot_or_final hrb hme hown hacc' hname).resolve_left
      (by rw [hnone]; simp)
  rcases hbinding with hdyn | ⟨hstat, hno⟩
  · cases hj : m.slot? with
    | none => exact .inr ⟨by rw [hdyn]; simp, fun _ => rfl, known (hfinal (hslots.symm.trans hj))⟩
    | some j =>
      obtain ⟨trap, htrap, hentry⟩ := h.entry_of_nearest hnear hmo (hslot j (hslots.symm.trans hj))
      exact .inl ⟨hdyn, j, rfl, trap, htrap, hentry⟩
  · exact .inr ⟨by rw [hstat]; simp, by rw [hstat]; simp,
      known (hno.elim (fun hnone => hfinal (hslots.symm.trans hnone)) id)⟩

end Plain

end Program

/-! ## What lowering loads -/

/-- `x` is what is loaded from the address `source`. -/
def Graph.IsLoaded (g : Graph) (x source : NodeId) : Prop :=
  ∃ load memory b b', g.node x = ⟨.proj Projection.result, .reference, b, [load]⟩ ∧
    g.node load = ⟨.load .reference, .tuple, b', [memory, source]⟩

lemma Graph.node_rethreadCalls {g : Graph} {x m : NodeId} {calls : List NodeId} (h : x ∉ calls) :
    (calls.foldl (rethreadCall m) g).node x = g.node x := by
  induction calls generalizing g with
  | nil => rfl
  | cons c rest ih =>
    obtain ⟨hc, hrest⟩ := not_or.1 (mt mem_cons.2 h)
    rw [foldl_cons, ih hrest, rethreadCall, node_setNode, if_neg fun e => hc e.1]

/-- The table of the receiver of `n` is loaded, and then the entry that lies this many pointers behind its start. -/
def Lower.Fetches (n : NodeId) (slot : Nat) : Prop :=
  ∀ s : Lowering, (∀ call ∈ s.uses.calls.getD n.index [], s.graph.Has call) → ∃ x s' table place,
    loadSlot n slot s = .ok x s' ∧ s'.graph.IsLoaded table ((s.graph.node n).inputs.getD 1 n) ∧
      (∀ value, s'.graph.Computes value → value place = value table + .ofNat (slot * Abi.pointerSize)) ∧
      s'.graph.IsLoaded x place

lemma Lower.fetches (n : NodeId) (slot : Nat) : Fetches n slot := by
  intro s hcalls
  obtain ⟨x, s', h⟩ : ∃ x s', loadSlot n slot s = .ok x s' := ⟨_, _, rfl⟩
  obtain ⟨_, s0, h0, h1⟩ := Steps.bind_ok.1 h
  cases h0
  obtain ⟨table, s1, h0, h1⟩ := Steps.bind_ok.1 h1
  obtain ⟨G, b, G'⟩ := insert_gains h0
  obtain ⟨offset, s2, h0, h1⟩ := Steps.bind_ok.1 h1
  have G2 := onGraph_gains h0 rfl
  obtain ⟨place, s3, h0, h1⟩ := Steps.bind_ok.1 h1
  have G3 := onGraph_gains h0 rfl
  obtain ⟨code, s4, h0, h1⟩ := Steps.bind_ok.1 h1
  obtain ⟨G4, b', G4'⟩ := insert_gains h0
  obtain ⟨_, s5, h0, h1⟩ := Steps.bind_ok.1 h1
  cases h1
  have E3 := G3.toExtends.trans G4.toExtends
  have E2 := G2.toExtends.trans E3
  have hle := G.size_le.trans G2.size_le
  have hle' := hle.trans G3.size_le
  -- the calls through `n` were there before
  have keep : ∀ {y node}, s4.graph.node y = node → s.graph.nodes.size ≤ y.index → s'.graph.node y = node := by
    rintro y _ rfl hy
    rw [(onGraph_ok.1 (Steps.get_bind_ok.1 h0)).2, G4.uses, G3.uses, G2.uses, G.uses]
    exact Graph.node_rethreadCalls fun hmem => absurd (hcalls y hmem) (Nat.not_lt.2 hy)
  refine ⟨_, s', table.result, place, h, ⟨_, _, _, _, keep (G'.later E2) G'.new, keep (G.later E2) G.new⟩,
    fun value C => ?_, _, _, _, _, keep G4'.node_eq (hle'.trans G4'.new), keep G4.node_eq (hle'.trans G4.new)⟩
  rw [C.add (keep (G3.later G4.toExtends) (hle.trans G3.new)), C.const (keep (G2.later E3) (G.size_le.trans G2.new)),
    word_ofInt]

/-! ## What lowering selects -/

/-- While a program is lowered: the graphs of the methods `es` have been, and in that of `x` the nodes `ns`. -/
def Lower.Reaches (p : Program) (s : Lowering) : Prop :=
  ∃ im im' flavour es x g ns, im.program = p ∧ Image.lowerEntities flavour es im = .ok () im' ∧ lowerNodes flavour ns
    ⟨im'.modifyProgram fun p => p.modifyMethod x fun m => { m with graph? := none }, g, g.uses⟩ = .ok () s

/-- Method `e` is what it was whenever lowering comes to a node `n` that selects it, and then makes `n` stand for what
`find` gives. -/
structure Lower.Selects (p : Program) (n : NodeId) (e : EntityId) (find : Lower NodeId) : Prop where
  same : ∀ s, Reaches p s → p.SameMethod s.image.program e
  lowers : ∀ s : Lowering, p.SameMethod s.image.program e → lowerMethodSel n e s = (do
    let target ← find
    modifyGraph fun g => g.exchange n target) s

lemma Lower.Reaches.sameMethod {p : Program} {e : EntityId} {s : Lowering} (h : Reaches p s) (he : p.HasEntity e) :
    p.SameMethod s.image.program e := by
  obtain ⟨im, im', flavour, es, x, g, ns, rfl, hes, hns⟩ := h
  have h1 := ((Image.lowering_lowerEntities flavour es im trivial).ok hes).2.redrawn
  have h2 := ((adding_lowerNodes flavour ns _ trivial).ok hns).2.redrawn
  exact .of_decl (((h1.trans (.regraph im'.program x none)).trans h2).entity e he)

lemma Lower.selects_of_methodCode {p : Program} {n : NodeId} {e : EntityId} {m : Method} {find : Lower NodeId}
    (hm : p.declAt? e = some m) (h : ∀ m', m'.decl = m → methodCode n e (p.entityAt e).name m' = find) :
    Selects p n e find := by
  obtain ⟨_, hmethod, -⟩ := map_eq_some_iff.1 hm
  refine ⟨fun s hs => hs.sameMethod (hasEntity_of_methodAt? hmethod), fun s S => ?_⟩
  obtain ⟨m', hm', hdecl⟩ := map_eq_some_iff.1 (S.decl.trans hm)
  have hprogram : program s = .ok s.image.program s := rfl
  rw [← h m' hdecl, ← S.name, lowerMethodSel, Steps.bind_of_ok hprogram]
  simp [show (s.image.program.entityAt e).method? = some m' from hm']

/-- At every stage of a run, lowering finds the code of the nearest method for a receiver of any class, whether it loads
the code from the table of that class or knows it. -/
theorem selects_nearest (source : ClassSource) (root : String) (k : Nat) (p : Program)
    (hp : p = (worldAfter source root k).program) (c a : ClassId) (e : EntityId) (m : Method)
    (hc : (p.classAt c).state = .finalized) (hregular : p.Regular c) (hdistinct : ∀ b ∈ p.ancestry c, p.Distinct b)
    (hfinal : p.RespectsFinal c) (ha : a ∈ p.ancestry c) (he : e ∈ (p.classAt a).members) (hm : p.declAt? e = some m)
    (hstatic : m.isStatic = false) (hprivate : m.flags.isPrivate = false)
    (hname : (p.entityAt e).name.toList.head? ≠ some '<') (n : NodeId) :
    ∃ r mr, p.nearestOwn? c (p.entityAt e).name m.descriptor = some r ∧ p.declAt? r = some mr ∧
      ((∃ j trap, Lower.Selects p n e (Lower.loadSlot n j) ∧ Lower.Fetches n j ∧ p.IsTrap trap ∧
          (p.tableOf c)[j]? = some (Program.codeOrTrap trap r mr)) ∨
        (Lower.Selects p n e (Lower.address r) ∧ mr.isAbstract = false)) := by
  subst hp
  have hplain : (worldAfter source root k).program.Plain c := ⟨(worldAfter_fine k).orderly hc hregular, hdistinct⟩
  have hacc := isOverridable_iff.2 ⟨rfl, m, hm, rfl, hstatic, hprivate⟩
  obtain ⟨r, mr, hnear, hr, h⟩ := hplain.selects hfinal ha he hm hacc hname
  refine ⟨r, mr, hnear, hr, h.imp ?_ ?_⟩
  · rintro ⟨hdyn, j, hj, trap, htable⟩
    refine ⟨j, trap, selects_of_methodCode hm ?_, fetches n j, htable⟩
    rintro m' rfl
    rw [methodCode, show m'.binding = .dynamic from hdyn, show m'.slot? = some j from hj]
  · rintro ⟨hno, hnone, hreal, habs⟩
    refine ⟨selects_of_methodCode hm ?_, habs⟩
    rintro m' rfl
    rw [← show m'.implementation?.getD e = r from hreal, methodCode]
    split
    · exact absurd ‹_› hno
    · rename_i hdyn hj
      exact absurd ((hnone hdyn).symm.trans hj) (by simp)
    · rfl

/-- What becomes of a class that overrides a method of its superclass. -/
def overridingProgram : Program := (worldAfter overriding "B" 6).program

/-- A method of the superclass is selected, and the class of the receiver overrides it. -/
theorem selects_nearest_overriding : ∃ m mr, overridingProgram.declAt? ⟨12⟩ = some m ∧
    overridingProgram.declAt? ⟨19⟩ = some mr ∧
    ((∃ j trap, Lower.Selects overridingProgram ⟨7⟩ ⟨12⟩ (Lower.loadSlot ⟨7⟩ j) ∧ Lower.Fetches ⟨7⟩ j ∧
        overridingProgram.IsTrap trap ∧ (overridingProgram.tableOf ⟨1⟩)[j]? = some (Program.codeOrTrap trap ⟨19⟩ mr)) ∨
      (Lower.Selects overridingProgram ⟨7⟩ ⟨12⟩ (Lower.address ⟨19⟩) ∧ mr.isAbstract = false)) := by
  have hregular : overridingProgram.Regular ⟨1⟩ :=
    regular_of_ranked [1, 3, 0, 2, 2] (by decide +kernel) (by decide +kernel)
  have hrun : ((overridingProgram.declAt? ⟨12⟩).any fun m => decide (m.isStatic = false ∧ m.flags.isPrivate = false ∧
      overridingProgram.nearestOwn? ⟨1⟩ (overridingProgram.entityAt ⟨12⟩).name m.descriptor = some ⟨19⟩)) = true := by
        decide +kernel
  obtain ⟨m, hm, hrun⟩ := (any_eq_true _ _).1 hrun
  obtain ⟨hstatic, hprivate, hnear⟩ := of_decide_eq_true hrun
  obtain ⟨r, mr, hr, hmr, h⟩ := selects_nearest overriding "B" 6 overridingProgram rfl ⟨1⟩ ⟨3⟩ ⟨12⟩ m
    (by decide +kernel) hregular
    (by decide +kernel) (by decide +kernel) (by decide +kernel) (by decide +kernel) hm hstatic hprivate
      (by decide +kernel) ⟨7⟩
  cases hnear.symm.trans hr
  exact ⟨m, mr, hm, hmr, h⟩

/-- What becomes of a class that has another class among its interfaces. -/
def listingProgram : Program := (worldAfter listingClass "D" 9).program

/-- The slot of a method of such a class is not in its table. -/
theorem selects_no_entry : ∃ m, listingProgram.declAt? ⟨10⟩ = some m ∧ m.isStatic = false ∧ m.flags.isPrivate = false ∧
    (listingProgram.classAt ⟨1⟩).state = .finalized ∧ listingProgram.Grounded ⟨1⟩ ∧
    (∀ a ∈ listingProgram.ancestry ⟨1⟩, (listingProgram.classAt a).isInterface = false ∧ listingProgram.Distinct a) ∧
    listingProgram.RespectsFinal ⟨1⟩ ∧ ⟨10⟩ ∈ (listingProgram.classAt ⟨1⟩).members ∧
    listingProgram.nearestOwn? ⟨1⟩ (listingProgram.entityAt ⟨10⟩).name m.descriptor = some ⟨10⟩ ∧
    Lower.Selects listingProgram ⟨7⟩ ⟨10⟩ (Lower.loadSlot ⟨7⟩ 2) ∧ (listingProgram.tableOf ⟨1⟩)[2]? = none := by
  have hrun : ((listingProgram.declAt? ⟨10⟩).any fun m => decide (m.isStatic = false ∧ m.flags.isPrivate = false ∧
      listingProgram.nearestOwn? ⟨1⟩ (listingProgram.entityAt ⟨10⟩).name m.descriptor = some ⟨10⟩ ∧
        m.binding = .dynamic ∧
        m.slot? = some 2)) = true := by decide +kernel
  obtain ⟨m, hm, hrun⟩ := (any_eq_true _ _).1 hrun
  obtain ⟨hstatic, hprivate, hnear, hdyn, hslot⟩ := of_decide_eq_true hrun
  refine ⟨m, hm, hstatic, hprivate, by decide +kernel, grounded_of_climbs
    (show climbs _ [1, 2, 0, 1] = true by decide +kernel) _, by decide +kernel,
    by decide +kernel, by decide +kernel, hnear, selects_of_methodCode hm ?_, getElem?_eq_none (by decide +kernel)⟩
  rintro m' rfl
  rw [methodCode, show m'.binding = .dynamic from hdyn, show m'.slot? = some 2 from hslot]

end JvmGraph
