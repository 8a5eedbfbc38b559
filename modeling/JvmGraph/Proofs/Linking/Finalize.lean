import JvmGraph.Proofs.Loading.Ledger

/-!
# Finalizing a class

The finalization of a class loads its supertypes and finalizes them first. If the supertypes form no circle,
all of them are finalized when the class is laid out, and the class is settled in the end. In any case it has the
supertypes, the fields and the methods that its class file names, its tables are filled, and no class that was loaded
on the way is forgotten.
-/

open Relation (ReflTransGen TransGen)

namespace JvmGraph

open Steps Load World List Program ClassInfo

variable {w w' w'' : World} {c : ClassId} {file : ClassFile} {source : ClassSource} {finalize : ClassId → Load Unit}
  {name : String} {w1 : World}

namespace World

structure Underway (source : ClassSource) (c : ClassId) (file : ClassFile) (w w' : World) : Prop where
  keeps : w.Keeps w.Protected w'
  sound : w'.Sound
  fine : w'.Fine
  finalizing : w'.finalizing = c :: w.finalizing
  state : (w'.classAt c).state ≠ .finalized
  file : (w'.classAt c).file? = some file
  /-- Its members have no places yet. -/
  free : w'.Free c
  idle : w.program.Idle w'.program
  queues : Queues w w'
  /-- Classes that are new are not forgotten. -/
  accounted : ∀ d, w'.HasClass d → w.HasClass d ∨ w'.Protected d
  ledger : w.Ledger source → w'.Ledger source
  covered : w.Covered → w'.Covered

namespace Underway

variable (h : Underway source c file w w')

include h

lemma isProtected : w'.Protected c := .inr (by simp [h.finalizing])

lemma hasClass : w'.HasClass c := h.sound.hasClass h.isProtected

lemma protects (hs : w.Sound) {d : ClassId} (hd : w.Protected d) : w'.Protected d := by
  rcases hd with hd | hd
  · have hhas := hs.hasClass (.inl hd)
    exact .inl ((congrArg (·.state) (h.keeps.program.kept d hhas (.inl hd)) :).trans hd)
  · exact .inr (by simp [h.finalizing, hd])

lemma grows (hs : w.Sound) (h' : Grows w' w'') : Grows w w'' :=
  ⟨h.keeps.trans (h'.keeps.mono fun _ => h.protects hs), h'.fine⟩

lemma works_grows (hc : ¬ w.Protected c) (h' : Works c w' w'') : Grows w w'' :=
  ⟨h'.later h.keeps hc, h'.fine h.fine h.state⟩

lemma works (hc : ¬ w.Protected c) (h' : Works c w' w'') (hs : w''.Sound)
    (hfree : w''.Free c) (hledger : w'.Ledger source → w''.Ledger source) : Underway source c file w w'' where
  keeps := h'.later h.keeps hc
  sound := hs
  fine := h'.fine h.fine h.state
  finalizing := h'.finalizing.trans h.finalizing
  state := by rw [h'.state_eq]; exact h.state
  file := h'.file_eq.trans h.file
  free := hfree
  idle := h.idle.trans h'.idle
  queues := h.queues.trans (.of_eq h'.queue h'.queued)
  accounted := fun d hd => by
    refine (h.accounted d ((hasClass_iff h'.classes).1 hd)).imp id fun hp => ?_
    rw [Protected, h'.finalizing]; exact hp.imp (h'.advances h.state).state_eq id
  ledger := fun L => hledger (h.ledger L)
  covered := fun hv => h'.covered h.fine (h.covered hv) h.state

lemma gathers (hc : ¬ w.Protected c) (h' : Gathers c w' w'') (hfree : w''.Free c) : Underway source c file w w'' :=
  h.works hc h'.works h'.sound hfree fun L => L.gathers h.sound h' h.hasClass h.state

lemma member_decl (h' : Loads w' w'') {e : EntityId}
    (he : e ∈ (w'.classAt c).members) : (w''.program.entityAt e).decl = (w'.program.entityAt e).decl := by
  obtain ⟨h1, h2⟩ := h.sound.member c e he
  apply h'.keeps.program.owned e h1
  intro d hd
  rw [h2, Option.some.injEq] at hd
  exact hd ▸ h.isProtected

lemma prepares (hs : w.Sound) (h' : Prepares source w' w'')
    (hacc : ∀ d, w''.HasClass d → w'.HasClass d ∨ w''.Protected d) : Underway source c file w w'' := by
  have hdecl := h'.decl_eq h.sound h.isProtected
  have hmembers : (w''.classAt c).members = (w'.classAt c).members := (congrArg (·.members) hdecl :)
  refine ⟨h.keeps.trans (h'.keeps.mono fun _ => h.protects hs), h'.sound, h'.fine, h'.finalizing.trans h.finalizing,
    ?_, ?_, fun e he m hm => ?_, h.idle.trans h'.idle, h.queues.trans h'.queues, fun d hd => ?_,
    fun L => h'.ledger (h.ledger L), fun hv => h'.covered (h.covered hv)⟩
  · have hstate : (w''.classAt c).state = (w'.classAt c).state := (congrArg (·.state) hdecl :)
    rw [hstate]; exact h.state
  · exact (congrArg (·.file?) hdecl :).trans h.file
  · rw [hmembers] at he
    apply h.free e he m
    rwa [declAt?_eq_method?, ← h.member_decl h'.toLoads he, ← declAt?_eq_method?]
  · exact (hacc d hd).elim (fun hd => (h.accounted d hd).imp id h'.protected) .inr

lemma modifyClass (hc : ¬ w.Protected c) {f : ClassInfo → ClassInfo}
    (horigin : (f (w'.classAt c)).origin = (w'.classAt c).origin)
    (hprogress : (f (w'.classAt c)).progress = (w'.classAt c).progress)
    (hmembers : (f (w'.classAt c)).members = (w'.classAt c).members)
    (habove : ∀ s, (f (w'.classAt c)).Extends s → (w'.classAt c).Extends s ∨ w'.Protected s) :
    Underway source c file w (w'.modifyClass c f) ∧ (w'.modifyClass c f).classAt c = f (w'.classAt c) := by
  have hself : (w'.modifyClass c f).classAt c = f (w'.classAt c) := classAt_modifyClass_self _ c h.hasClass
  have hworks := works_modifyClass c w' horigin hprogress (hmembers ▸ prefix_rfl)
  refine ⟨h.works hc hworks ?_ (fun e he => ?_) fun L => ?_, hself⟩
  · exact hworks.sound_of_members h.sound (by rw [hself, hmembers]) (.inl h.isProtected)
  · rw [hself, hmembers] at he; exact h.free e he
  · refine L.works h.sound hworks h.hasClass h.state (fun _ _ => rfl) (fun s hs => ?_) fun e he => .inl he
    rw [hself] at hs; exact (habove s hs).elim (L.above c s) id

end Underway

def Pending (w : World) (c : ClassId) : Prop := ∀ d ∈ w.finalizing, TransGen w.program.Above c d

end World

def Finalizes (source : ClassSource) (finalize : ClassId → Load Unit) : Prop :=
  ∀ w c, w.Sound → w.Fine → w.Pending c →
    Ends (finalize c w)
      (fun _ w' => Prepares source w w' ∧ ((w'.classAt c).state = .finalized ∨ c ∈ w.finalizing) ∧
        ∀ d, w'.HasClass d → w.HasClass d ∨ w'.Protected d) (Grows w)

lemma ends_supertype {α : Type} {next : ClassId → Load α} {Q : α → World → Prop} (hfin : Finalizes source finalize)
    (h : Underway source c file w w') (hsound : w.Sound) (hp : w.Pending c) (hname : file.Names name)
    (hnext : ∀ s w2, Underway source c file w w2 → Prepares source w' w2 → w2.HasClass s →
      (w2.classAt s).name = name → w2.Protected s → (w2.program.Grounded c → w2.program.Settled s) →
        Ends (next s w2) Q (Grows w)) :
    Ends ((do
      let s ← classNamed source name
      finalize s
      next s) w') Q (Grows w) := by
  refine ends_bind ((classNamed_prepares source name h.sound h.fine).imp (fun _ _ h => h) fun w'' h' =>
    h.grows hsound h') ?_
  rintro s w1 ⟨hl1, hs, hsname, hnew⟩
  have hfile1 : (w1.classAt c).file? = some file :=
    (congrArg file? (hl1.decl_eq h.sound h.isProtected) :).trans h.file
  have habove : w1.program.Above s c := ⟨hs, file, hfile1, by rwa [show (w1.program.classAt s).name = name from hsname]⟩
  -- it is above all classes whose finalization has not ended
  have hpend : w1.Pending s := by
    intro d hd
    rw [hl1.finalizing, h.finalizing] at hd
    rcases mem_cons.1 hd with rfl | hd
    · exact .single habove
    · exact .head habove
        (TransGen.mono (fun _ _ h' => hl1.keeps.program.above (h.keeps.program.above h')) c d (hp d hd))
  refine ends_bind ((hfin w1 s hl1.sound hl1.fine hpend).imp (fun _ _ h => h) fun w'' h' => h.grows hsound
    (hl1.grows h')) ?_
  rintro _ w2 ⟨hl2, hdone, hnew2⟩
  have hprotected : w2.Protected s := hdone.imp id fun h => by rwa [hl2.finalizing]
  have hl := hl1.trans hl2
  refine hnext s w2 (h.prepares hsound hl fun d hd => ?_) hl (hl2.keeps.program.hasClass hs)
    ((hl2.keeps.program.name hs).trans hsname) hprotected fun hg => ?_
  · rcases hnew2 d hd with hd | hd
    · exact (hnew d hd).imp id fun (hds : d = s) => hds ▸ hprotected
    · exact .inr hd
  · have hs2 : w2.program.Above s c := hl2.keeps.program.above habove
    rcases hdone with hdone | hdone
    · exact hl2.fine s hdone (hg.of_above hs2)
    · -- `s` is above itself
      have hcycle := TransGen.mono (fun _ _ => hl2.keeps.program.above) s s (hpend s hdone)
      exact absurd hcycle (hg s (.single hs2))

/-! ## Superclass and interfaces -/

structure World.Rooted (c : ClassId) (file : ClassFile) (w : World) : Prop where
  based : w.program.Grounded c → w.program.Based c
  supertypes : w.Supertypes c file []
  members : (w.classAt c).members = []

lemma rooted_of_root (hname : file.superName? = .ok none) (hsuper : (w.classAt c).superclass? = none)
    (hinter : (w.classAt c).interfaces = []) (hmembers : (w.classAt c).members = []) : Rooted c file w := by
  have hno : ∀ s, ¬ (w.classAt c).Extends s := by
    simp only [Extends, hsuper, hinter]
    rintro s (hs | hs) <;> cases hs
  refine ⟨fun _ => ⟨fun s hs => absurd (.inl hs) (hno s), fun i hi => absurd (.inr hi) (hno i)⟩,
    ⟨fun s hs => absurd hs (hno s), by simp [hname, hsuper], by rw [hinter]; exact .nil⟩, hmembers⟩

lemma rooted_of_super {s : ClassId} (hname : file.superName? = .ok (some name))
    (hsuper : (w.classAt c).superclass? = some s) (hhas : w.HasClass s) (hcalled : (w.classAt s).name = name)
    (hs : w.program.Grounded c → w.program.Settled s) (hinter : (w.classAt c).interfaces = [])
    (hmembers : (w.classAt c).members = []) : Rooted c file w := by
  have hno : ∀ i, i ∉ (w.classAt c).interfaces := by simp [hinter]
  refine ⟨fun hg => ⟨fun s' hs' => ?_, fun i hi => absurd hi (hno i)⟩, ⟨?_, ?_, by rw [hinter]; exact .nil⟩, hmembers⟩
  · cases hsuper.symm.trans hs'
    exact hs hg
  · rintro s' (hs' | hs')
    · cases hsuper.symm.trans hs'
      exact hhas
    · exact absurd hs' (hno s')
  · rw [hname, hsuper, Option.map_some, hcalled]

lemma linkSuperclass_ends (hfin : Finalizes source finalize)
    (h : Underway source c file w w') (hsound : w.Sound) (hc : ¬ w.Protected c) (hp : w.Pending c)
    (hsuper : (w'.classAt c).superclass? = none) (hinter : (w'.classAt c).interfaces = [])
    (hmembers : (w'.classAt c).members = []) {superName? : Option String} (hname : file.superName? = .ok superName?) :
    Ends (linkSuperclass source finalize c superName? w')
      (fun _ w'' => Underway source c file w w'' ∧ Rooted c file w'') (Grows w) := by
  cases superName? with
  | none =>
    apply ends_get_bind
    generalize hentity :
      ({ name := "@vptr", symbol := _, owner? := some c, kind := _, visibility := _ } : Entity) = entity
    obtain ⟨hmethod, hfield, hinit⟩ : entity.method? = none ∧ entity.field?.isSome ∧ entity.initializer? = none := by
      rw [← hentity]; exact ⟨rfl, rfl, rfl⟩
    have hat : ∀ e, (w'.modifyProgram fun p => (p.newEntity entity).2).program.entityAt e =
        if e.index = w'.program.entities.size then entity else w'.program.entityAt e :=
      fun e => entityAt_newEntity w'.program e entity
    have hworks := works_newEntity c w' hmethod
    have h1 := h.works hc hworks (hworks.sound_of_members h.sound rfl (.inr rfl)) (.of_members hmembers) fun L => by
      refine L.works h.sound hworks h.hasClass h.state (fun e he => ?_) (L.above c) fun e he => ?_
      · have hhas : w'.HasEntity e :=
          he.elim (fun he => (h.sound.vtable c e he).1) fun he => (h.sound.classObject c e he).1
        rw [hat, if_neg (ne_of_lt hhas)]
      · -- the new entity is the hidden field
        replace he : e.index < w'.program.entities.size + 1 := size_newEntity w'.program entity ▸ he
        refine (Nat.lt_succ_iff_lt_or_eq.1 he).imp id fun he => ?_
        refine .hidden ?_ ?_
        · rwa [hat, if_pos he]
        · rwa [hat, if_pos he]
    obtain ⟨h2, hself⟩ := h1.modifyClass hc (f := fun info => { info with vptr? := some ⟨w'.program.entities.size⟩ })
      rfl rfl rfl fun s hs => .inl hs
    exact ⟨h2, rooted_of_root hname ((congrArg superclass? hself :).trans hsuper)
      ((congrArg interfaces hself :).trans hinter) ((congrArg members hself :).trans hmembers)⟩
  | some name =>
    refine ends_supertype hfin h hsound hp (.inl hname) fun s w2 h2 hl hs hsname hprotected hsettled => ?_
    apply ends_get_bind
    generalize (w2.classAt s).vptr? = vptr?
    have hdecl := hl.decl_eq h.sound h.isProtected
    have hinter2 : (w2.classAt c).interfaces = [] := (congrArg interfaces hdecl :).trans hinter
    obtain ⟨h3, hat⟩ := h2.modifyClass hc (f := fun info => { info with superclass? := some s, vptr? := vptr? }) rfl rfl
      rfl (by
        rintro d (hd | hd)
        · cases hd
          exact .inr hprotected
        · exact .inl (.inr hd))
    have hworks := works_modifyClass c w2 (f := fun info => { info with superclass? := some s, vptr? := vptr? }) rfl rfl
      prefix_rfl
    refine ⟨h3, rooted_of_super hname (congrArg superclass? hat :) (hworks.keeps.program.hasClass hs)
      ((hworks.keeps.program.name hs).trans hsname) ?_ ((congrArg interfaces hat :).trans hinter2)
      (((congrArg members hat :).trans (congrArg members hdecl :)).trans hmembers)⟩
    exact fun hg => hworks.settled h2.state (hsettled (hworks.keeps.program.grounded hg))

structure World.Joined (c : ClassId) (file : ClassFile) (indices : List UInt16) (w : World) : Prop where
  /-- Unless there is a circle, the supertypes are settled. -/
  parts : w.program.Grounded c → w.program.Based c ∧ w.program.Solid c ∧ ∃ fields declared standIns,
    w.program.Parts c file fields declared standIns
  supertypes : w.Supertypes c file indices
  composed : w.Composed c file

variable {indices : List UInt16}

lemma World.Joined.above (h : Joined c file indices w) (hfile : (w.classAt c).file? = some file) (s : ClassId)
    (hs : (w.classAt c).superclass? = some s) : w.program.Above s c := by
  refine ⟨h.supertypes.has s (.inl hs), file, hfile, .inl ?_⟩
  rw [h.supertypes.superclass, hs]
  rfl

lemma World.Underway.joined_loads (h : Underway source c file w w') (hl : Loads w' w'')
    (hj : Joined c file indices w') : Joined c file indices w'' := by
  have hdecl := hl.decl_eq h.sound h.isProtected
  have K : Program.SameRoots w'.program w''.program c := .of_decl hdecl
  have hcont := hl.keeps.program.toContinues
  refine ⟨fun hg => ?_, hj.supertypes.mono hcont K.superclass K.interfaces,
    hj.composed.mono hcont h.hasClass (congrArg members hdecl :)⟩
  obtain ⟨hb, hsolid, fields, declared, standIns, hp⟩ := hj.parts (hl.keeps.program.grounded hg)
  have hS : ∀ d, w'.program.Finalized d → w'.Protected d := fun d hd => .inl hd
  have hsame := K.above hb hl.keeps.program hS
  have hmembers : (w''.program.classAt c).members = (w'.program.classAt c).members := (congrArg members hdecl :)
  exact ⟨hb.keeps hl.keeps.program hS K, hsolid.mono hcont hsame (fun e he => (h.sound.member c e he).1) hmembers,
    fields, declared, standIns, hsame.parts hmembers (fun e he => .of_decl (h.member_decl hl he)) hp⟩

lemma World.Underway.joined_interface (h : Underway source c file w w') (hj : Joined c file indices w') {i : ClassId}
    {index : UInt16} (hhas : w'.HasClass i) (hname : file.pool.className index = .ok (w'.classAt i).name)
    (hi : w'.program.Grounded c → w'.program.Settled i) :
    Joined c file (indices ++ [index])
    (w'.modifyClass c fun info => { info with interfaces := info.interfaces ++ [i] }) := by
  let f (info : ClassInfo) : ClassInfo := { info with interfaces := info.interfaces ++ [i] }
  change Joined c file (indices ++ [index]) (w'.modifyClass c f)
  have hworks := works_modifyClass c w' (f := f) rfl rfl prefix_rfl
  have hat : (w'.modifyClass c f).program.classAt c = f (w'.classAt c) := classAt_modifyClass_self _ c h.hasClass
  have hent : ∀ e, (w'.modifyClass c f).program.entityAt e = w'.program.entityAt e := fun _ => rfl
  generalize w'.modifyClass c f = w1 at hworks hat hent ⊢
  have hcont := hworks.keeps.program.toContinues
  have hsuper : (w1.program.classAt c).superclass? = (w'.classAt c).superclass? := by rw [hat]
  have hinter : (w1.program.classAt c).interfaces = (w'.classAt c).interfaces ++ [i] := by rw [hat]
  have hmembers : (w1.program.classAt c).members = (w'.classAt c).members := by rw [hat]
  refine ⟨fun hg => ?_, hj.supertypes.extend hcont hsuper hinter (forall_mem_singleton.2 hhas) (.cons hname .nil),
    hj.composed.mono hcont h.hasClass hmembers⟩
  have hg' := hworks.keeps.program.grounded hg
  obtain ⟨hb, hsolid, fields, declared, standIns, hp⟩ := hj.parts hg'
  have hS : ∀ d, w'.program.Finalized d → d ≠ c := by
    rintro d hd rfl; exact h.state hd
  have hkept : ∀ j ∈ (w'.classAt c).interfaces, j ∈ (w1.program.classAt c).interfaces := by
    intro j hj
    rw [hinter]
    exact mem_append_left _ hj
  have hsame := hb.sameAbove hworks.keeps.program hS hkept hworks.flags_eq hsuper
  refine ⟨⟨fun s hs => ?_, fun j hj => ?_⟩, hsolid.mono hcont hsame (fun e he => (h.sound.member c e he).1) hmembers,
    fields, declared, standIns, ?_⟩
  · rw [hsuper] at hs; exact hworks.settled h.state (hb.super s hs)
  · rw [hinter, mem_append, mem_singleton] at hj
    rcases hj with hj | rfl
    · exact hworks.settled h.state (hb.interfaces j hj)
    · exact hworks.settled h.state (hi hg')
  · exact hsame.parts hmembers (fun e _ => .of_decl (congrArg (·.decl) (hent e))) hp

lemma addInterfaces_ends (hfin : Finalizes source finalize) (hsound : w.Sound) (hc : ¬ w.Protected c) (hp : w.Pending c)
    (is : List UInt16) (his : ∀ i ∈ is, i ∈ file.interfaces) (h : Underway source c file w w')
    (hj : Joined c file indices w') :
    Ends (addInterfaces source finalize c file.pool is w')
      (fun _ w'' => Underway source c file w w'' ∧ Joined c file (indices ++ is) w'') (Grows w) := by
  induction is generalizing w' indices with
  | nil => exact ends_pure ⟨h, by rwa [append_nil]⟩
  | cons index rest ih =>
    refine ends_pureStep_bind (fun name hname => ?_) ⟨h.keeps, h.fine⟩
    refine ends_supertype hfin h hsound hp (.inr ⟨index, his index (by simp), hname⟩)
      fun i w2 h2 hl hi hiname hprotected hsettled => ?_
    have hnamed : file.pool.className index = .ok (w2.classAt i).name := by rwa [hiname]
    have hj2 := h2.joined_interface (h.joined_loads hl.toLoads hj) hi hnamed hsettled
    obtain ⟨h3, -⟩ := h2.modifyClass hc (f := fun info => { info with interfaces := info.interfaces ++ [i] }) rfl rfl
      rfl
      (by
        rintro d (hd | hd)
        · exact .inl (.inl hd)
        · rcases mem_append.1 hd with hd | hd
          · exact .inl (.inr hd)
          · rw [mem_singleton] at hd
            exact .inr (hd ▸ hprotected))
    have hrest := ih (fun j hj => his j (by simp [hj])) h3 hj2; rwa [append_assoc] at hrest

/-! ## Members -/

lemma addMembers_ends (hc : ¬ w.Protected c) (h : Underway source c file w w') (hr : Rooted c file w') :
    Ends ((do addFields c file.fields; addMethods c file.methods : Load Unit) w')
      (fun _ w'' => Underway source c file w w'' ∧ Joined c file [] w'') (Grows w) := by
  refine ends_bind ((addFields_ends file.fields h.sound h.isProtected h.file).imp (fun _ _ h => h) fun w1 h' =>
    h.works_grows hc h') ?_
  rintro _ w1 ⟨fields, happ1, hfields⟩
  have hmem1 : (w1.classAt c).members = fields := by rw [happ1.members, hr.members, nil_append]
  have hnone1 : ∀ e ∈ fields, w1.program.declAt? e = none := by
    intro e he
    obtain ⟨member, -, hof⟩ := forall₂_mem_right hfields he
    obtain ⟨f, hf⟩ := Option.isSome_iff_exists.1 hof.field
    simp [declAt?, methodAt?, Entity.method?_of_field? hf]
  have h1 := h.gathers hc happ1.toGathers fun e he m hm => by
    cases (hnone1 e (hmem1 ▸ he)).symm.trans hm
  refine (addMethods_ends file.methods h1.sound h1.isProtected h1.state h1.file).imp ?_ fun w2 h' =>
    h1.works_grows hc h'
  rintro _ w2 ⟨declared, happ2, hdeclared, hmethods, hslots⟩
  have hmem2 : (w2.classAt c).members = fields ++ declared := by rw [happ2.members, hmem1]
  have hfields2 : ∀ e ∈ fields, w2.program.declAt? e = none := by
    intro e he
    have hhas := (h1.sound.member c e (hmem1 ▸ he)).1
    rw [declAt?_eq_method?, happ2.entityAt e hhas, ← declAt?_eq_method?, hnone1 e he]
  have hfree : ∀ e ∈ (w2.classAt c).members, ∀ m, w2.program.declAt? e = some m → m.slot? = none := by
    intro e he m hm
    rw [hmem2, mem_append] at he
    rcases he with he | he
    · simp [hfields2 e he] at hm
    · exact hslots e he m hm
  have hboth := happ1.trans happ2
  have hcont := hboth.works.keeps.program.toContinues
  refine ⟨h1.gathers hc happ2.toGathers fun e he m hm _ => hfree e he m hm, fun hg => ?_,
    hr.supertypes.mono hcont hboth.superclass hboth.interfaces, fields, declared, [], by rw [hmem2, append_nil],
    hfields.imp fun _ _ h => h.mono happ2.works.keeps.program.toContinues h1.hasClass, hmethods, by simp⟩
  have hg' := hboth.works.keeps.program.grounded hg
  obtain ⟨hb1, -⟩ := happ1.based h.state (hr.based hg')
  obtain ⟨hb2, -⟩ := happ2.based h1.state hb1
  refine ⟨hb2, fun e he name descriptor hinst => ?_, fields, declared, [], ?_, hfields2,
    hdeclared hb1, by simp, by simp,
    fun _ => rfl, ?_⟩
  · -- so far, all methods are declared
    obtain ⟨hname, m, hm, hdesc, hstatic⟩ := isInstanceMethod_iff.1 hinst
    rw [show (w2.program.classAt c).members = _ from hmem2, mem_append] at he
    rcases he with he | he
    · cases (hfields2 e he).symm.trans hm
    · obtain ⟨member, hmember, hof⟩ := forall₂_mem_right hmethods he
      obtain ⟨m', hm', hdescriptor, -, hflags, -⟩ := hof.method
      cases (declAt?_of_methodAt? hm').symm.trans hm
      exact .inl (ne_nil_of_mem ((mem_declaredFlags (hcont.file_eq_some h.file)).2
        ⟨member, hmember, hname ▸ hof.name, hdesc ▸ hdescriptor, hflags.symm, hstatic⟩))
  · rwa [append_nil]
  · exact fun e he m hm _ _ => hfree e he m hm

lemma linkAllInterfaces_ends (hc : ¬ w.Protected c) (h : Underway source c file w w') (hj : Joined c file indices w')
    (hplain : (w'.program.classAt c).isInterface = false) :
    Ends (linkInterfaces c (w'.program.allInterfaces c) w')
      (fun _ w'' => Underway source c file w w'' ∧ Joined c file indices w'' ∧
        (w''.program.Grounded c → w''.program.Covers c)) (Grows w) := by
  refine (linkInterfaces_ends h.sound h.isProtected h.state _).imp ?_ fun w'' h' => h.works_grows hc h'
  rintro _ w'' ⟨hlinks, hjoins⟩
  have hcont := hlinks.works.keeps.program.toContinues
  have hall : ∀ i ∈ w'.program.allInterfaces c, w'.program.InterfaceOf c i := fun i hi => mem_allInterfaces.1 hi
  refine ⟨h.gathers hc hlinks.toGathers (hlinks.free h.free), ⟨fun hg => ?_,
    hj.supertypes.mono hcont hlinks.superclass hlinks.interfaces, ?_⟩, fun hg => ?_⟩
  · obtain ⟨hb, hsolid, fields, declared, standIns, hp⟩ := hj.parts (hlinks.works.keeps.program.grounded hg)
    have h' := hjoins hplain hb hall
    obtain ⟨standIns', hp'⟩ := h'.parts file fields declared standIns hp
    exact ⟨(hlinks.based h.state hb).1, h'.solid hsolid, fields, declared, standIns', hp'⟩
  · -- stand-ins come behind what the class file declares
    obtain ⟨fields, declared, standIns, hmem, hf, hd, hs⟩ := hj.composed
    obtain ⟨new, hnew, hbare⟩ := hlinks.standIns
    refine ⟨fields, declared, standIns ++ new, by rw [hnew, hmem, append_assoc],
      hf.imp fun _ _ hf => hf.mono hcont h.hasClass, hd.imp fun _ _ hd => hd.mono hcont h.hasClass, fun e he => ?_⟩
    rcases mem_append.1 he with he | he
    · exact (hs e he).mono hcont
    · exact hbare e he
  · obtain ⟨hb, hsolid, -⟩ := hj.parts (hlinks.works.keeps.program.grounded hg)
    have h' := hjoins hplain hb hall
    refine ⟨fun _ im him => ?_, h'.solid hsolid, fun s hs => ?_⟩
    · obtain ⟨i, hi, he⟩ := hb.interfaceMember_of_keeps hlinks.works.keeps.program
        (by rintro d hd rfl; exact h.state hd) hlinks.interfaces him
      exact h'.provides im ⟨i, mem_allInterfaces.2 hi, he⟩
    · exact hlinks.works.keeps.program.above (hj.above h.file s (hlinks.superclass.symm.trans hs))

/-! ## The end -/

def World.finished (w : World) (c : ClassId) : World :=
  World.modifyClass { w.enqueue c with finalizing := (w.enqueue c).finalizing.filter (· ≠ c) } c fun info =>
    { info with state := .finalized }

namespace World

section

variable (w : World) (c : ClassId)

lemma finished_program :
    (w.finished c).program = w.program.modifyClass c fun info => { info with state := .finalized } := by
  unfold finished enqueue
  split <;> rfl

lemma finished_names : (w.finished c).names = w.names := by
  unfold finished enqueue
  split <;> rfl

lemma finished_image : (w.finished c).image =
    w.image.modifyProgram fun p => p.modifyClass c fun info => { info with state := .finalized } := by
  unfold finished enqueue
  split <;> rfl

lemma finished_finalizing : (w.finished c).finalizing = w.finalizing.filter (· ≠ c) := by
  unfold finished enqueue
  split <;> rfl

end

lemma finished_classAt (hc : w.HasClass c) (d : ClassId) :
    (w.finished c).classAt d = if d = c then { w.classAt c with state := .finalized } else w.classAt d := by
  rw [classAt, finished_program, classAt_modifyClass]
  by_cases hd : d = c
  · rw [if_pos ⟨hd, hc⟩, if_pos hd]; rfl
  · rw [if_neg (fun h => hd h.1), if_neg hd]; rfl

section

variable (w : World) (c : ClassId)

lemma finished_entityAt (e : EntityId) : (w.finished c).program.entityAt e = w.program.entityAt e := by
  simp [finished_program]

lemma finished_keeps : w.Keeps (· ≠ c) (w.finished c) where
  program := by
    rw [finished_program]; exact .modifyClass rfl prefix_rfl (fun h => absurd rfl h)
  named := fun name d hd => by rwa [named?, finished_names]
  functions := fun f e hf => by rwa [finished_image]
  records := by rw [finished_image]; exact prefix_rfl
  literals := by rw [finished_image]; exact prefix_rfl

lemma finished_idle : w.program.Idle (w.finished c).program := by
  rw [finished_program]
  exact (Program.Enlarges.modifyClass rfl prefix_rfl rfl).toIdle

lemma finished_classObjectField? (name : String) :
    (w.finished c).program.classObjectField? c name = w.program.classObjectField? c name := by
  have hobject : ((w.finished c).program.classAt c).classObject? = (w.program.classAt c).classObject? := by
    rw [finished_program]; exact modifyClass_congr (·.classObject?) rfl
  rw [classObjectField?, classObjectField?, hobject]
  simp [finished_entityAt]

end

lemma advances_finished (hc : ¬ w.Finalized c) : Advances w (w.finished c) := by
  obtain ⟨hq, hn⟩ := Queues.enqueue w c
  exact ⟨⟨(finished_keeps w c).mono (by rintro d hd rfl; exact hc hd)⟩, ⟨hq, hn⟩, .of_idle (finished_idle w c)⟩

lemma Sound.finished (hs : w.Sound) (hc : w.HasClass c) : (w.finished c).Sound := by
  have hat := finished_classAt hc
  -- of a class, nothing but the state may be new
  have hmembers : ∀ d, ((w.finished c).classAt d).members = (w.classAt d).members ∧
      ((w.finished c).classAt d).lineage = (w.classAt d).lineage := by
    intro d
    rw [hat]
    split
    · rename_i hd; rw [hd]; exact ⟨rfl, rfl⟩
    · exact ⟨rfl, rfl⟩
  refine hs.continues (finished_keeps w c).program.toContinues ?_ (finished_names w c) (fun f e hf => ?_)
    (fun d hd => ?_) (fun d e he => .inl ((hmembers d).1 ▸ he)) (fun d => (hmembers d).1 ▸ hs.members_nodup d)
    fun d hd => ⟨fun hd' => hd ?_, (hmembers d).2⟩
  · rw [finished_program, size_modifyClass]
  · rw [finished_image] at hf; exact .inl hf
  · rw [finished_finalizing, mem_filter] at hd
    exact ⟨hd.1, by rw [hat, if_neg (by simpa using hd.2)]⟩
  · by_cases hdc : d = c
    · left; rw [hat, if_pos hdc]
    · rw [Protected, hat, if_neg hdc, finished_finalizing, mem_filter]
      exact hd'.imp id fun hd' => ⟨hd', by simpa using hdc⟩

end World

lemma World.Lays.linked (h : Underway source c file w w') (hl : Lays c w' w1) (hb : w'.program.Based c)
    {fields declared standIns : List EntityId} (hp : w'.program.Parts c file fields declared standIns) :
    (w1.finished c).program.Settled c ∧ (w'.program.Covers c → (w1.finished c).program.Covers c) := by
  obtain ⟨hfits, -, hlaid⟩ := hl
  obtain ⟨hp1, trap, htrap, htabled, hdescribed⟩ := hlaid file h.file hb fields declared standIns hp
  obtain ⟨hb1, -⟩ := hfits.based h.state hb
  have hc1 : w1.HasClass c := hfits.sound.hasClass (hfits.works.protected_iff.2 h.isProtected)
  have hstate1 : ¬ w1.Finalized c := mt (hfits.works.finalized_iff c).1 h.state
  have hat : (w1.finished c).classAt c = { w1.classAt c with state := .finalized } :=
    (finished_classAt hc1 c).trans (if_pos rfl)
  have hent := finished_entityAt w1 c
  have hk := (finished_keeps w1 c).program
  have hsound := hfits.sound.finished hc1
  have hS : ∀ d, w1.program.Finalized d → d ≠ c := by
    rintro d hd rfl; exact hstate1 hd
  have K : Program.SameRoots w1.program (w1.finished c).program c :=
    ⟨(congrArg flags hat :), (congrArg superclass? hat :), (congrArg interfaces hat :)⟩
  have hmem : ((w1.finished c).program.classAt c).members = (w1.program.classAt c).members :=
    (congrArg members hat :)
  have hsame := K.above hb1 hk hS
  have hbased := hb1.keeps hk hS K
  have hdecl : ∀ e, (w1.finished c).program.declAt? e = w1.program.declAt? e := by
    intro e
    rw [declAt?_eq_method?, hent, ← declAt?_eq_method?]
  have hS1 : ∀ d, w'.program.Finalized d → d ≠ c := by
    rintro d hd rfl; exact h.state hd
  refine ⟨.intro c ⟨hk.hasClass hc1, (congrArg state hat :), hsound.members_nodup c, hsound.member c, ?_, ?_, ?_,
    trap, htrap.keeps hk, ?_, ?_⟩ hbased.super hbased.interfaces, fun hcov => Program.Based.covers hk hS hb1 K hmem
      (fun e he => (hfits.sound.member c e he).1)
        (Program.Based.covers hfits.works.keeps.program hS1 hb hfits.roots hfits.members
        (fun e he => (h.sound.member c e he).1) hcov)⟩
  · exact fun v hv => ⟨(hsound.vtable c v hv).1, (hsound.vtable c v hv).2.1⟩
  · exact fun o ho => ⟨(hsound.classObject c o ho).1, (hsound.classObject c o ho).2.1⟩
  · refine ⟨file, fields, declared, standIns, ?_, ?_⟩
    · exact (congrArg file? hat :).trans (hfits.works.file_eq.trans h.file)
    · exact hsame.parts hmem (fun e _ => .of_decl (congrArg (·.decl) (hent e))) hp1
  · refine htabled.congr hp1 hsame hmem (congrArg vtable? hat :) (congrArg vtableSize hat :)
      (fun e _ => hdecl e) fun v _ => ?_
    rw [hent]
  · intro hext
    refine (hdescribed ((congrArg isExtern hat :).symm.trans hext)).congr hmem
      (congrArg classObject? hat :) (fun e _ => hdecl e) (fun o _ => by rw [hent]) ?_
    exact fun t ht _ => ⟨hk.hasEntity ht, by rw [hent]⟩

lemma World.Lays.finished (h : Underway source c file w w') (hl : Lays c w' w1)
    (hj : Joined c file file.interfaces w') (hblank : w'.Blank c) : (w1.finished c).Finished c file := by
  have hclass1 := hl.fits.works.keeps.program.hasClass h.hasClass
  have hat : (w1.finished c).classAt c = { w1.classAt c with state := .finalized } :=
    (finished_classAt hclass1 c).trans (if_pos rfl)
  have hk := hl.fits.works.keeps.trans (finished_keeps w1 c)
  have hcont := hk.program.toContinues
  have hsame := finished_entityAt w1 c
  have hext : ((w1.finished c).classAt c).isExtern = (w'.classAt c).isExtern := hcont.isExtern h.hasClass
  have hname : ((w1.finished c).classAt c).name = (w'.classAt c).name := hcont.name h.hasClass
  have htables : (w'.classAt c).isExtern = false → (w1.finished c).HasTables c ((w1.finished c).classAt c).name := by
    intro hx sort
    obtain ⟨table?, hfield, htable⟩ := hl.fills.tables hx sort
    refine ⟨table?, (finished_classObjectField? w1 c _).trans hfield, fun t ht => ?_⟩
    obtain ⟨hhas, entries, hentries⟩ := htable t ht
    exact ⟨(finished_keeps w1 c).program.hasEntity hhas, entries, by rw [hsame, hentries, hname]⟩
  refine ⟨(hcont.file h.hasClass).trans h.file, ?_, ?_, fun v hv => ?_, fun o ho => ?_, fun hx => htables (hext ▸ hx)⟩
  · exact hj.supertypes.mono hcont ((congrArg superclass? hat :).trans hl.fits.superclass)
      ((congrArg interfaces hat :).trans hl.fits.interfaces)
  · exact hj.composed.mono hcont h.hasClass ((congrArg members hat :).trans hl.fits.members)
  · rw [show ((w1.finished c).classAt c).vtable? = _ from hcont.vtable? h.hasClass] at hv
    rw [hsame]; exact hl.fills.vtable v hv
  · rw [hext]
    cases hx : (w'.classAt c).isExtern with
    | true =>
      rw [show ((w1.finished c).classAt c).classObject? = _ from hcont.classObject? h.hasClass] at ho
      simp [hsame, hl.fills.classObject hx o ho, hblank o (.inr ho)]
    | false =>
      obtain ⟨table?, hfield, -⟩ := htables hx .methods
      rw [classObjectField?, show ((w1.finished c).program.classAt c).classObject? = _ from ho] at hfield
      cases hinit : ((w1.finished c).program.entityAt o).initializer? with
      | none => simp [hinit] at hfield
      | some contents => simp

lemma World.Lays.prepares (hc : ¬ w.Protected c) (h : Underway source c file w w')
    (hj : Joined c file file.interfaces w') (hcov : w'.program.Grounded c → w'.program.Covers c) (hl : Lays c w' w1) :
    Prepares source w (w1.finished c) ∧ ((w1.finished c).classAt c).state = .finalized ∧
      ∀ d, (w1.finished c).program.HasClass d → w.HasClass d ∨ (w1.finished c).Protected d := by
  have hfits := hl.fits
  have hc1 : w1.HasClass c := hfits.works.keeps.program.hasClass h.hasClass
  have hat := finished_classAt hc1
  have hdone : ((w1.finished c).classAt c).state = .finalized := by rw [hat, if_pos rfl]
  have hk := finished_keeps w1 c
  have hfine1 : w1.Fine := hfits.works.fine h.fine h.state
  have hstate1 : ¬ w1.Finalized c := mt (hfits.works.finalized_iff c).1 h.state
  have ha := (hfits.works.advances h.state).trans (advances_finished hstate1)
  have hclasses : (w1.finished c).program.classes.size = w'.program.classes.size := by
    rw [finished_program, size_modifyClass, hfits.works.classes]
  have hprotected : ∀ d, w'.Protected d → (w1.finished c).Protected d := by
    rintro d (hd | hd)
    · exact .inl (ha.state_eq hd)
    · by_cases hdc : d = c
      · exact .inl (hdc ▸ hdone)
      · refine .inr ?_
        rw [finished_finalizing, hfits.works.finalizing, mem_filter]
        exact ⟨hd, by simpa using hdc⟩
  have hS1 : ∀ d, w1.Finalized d → d ≠ c := by rintro d hd rfl; exact hstate1 hd
  have hlinked : (w1.finished c).program.Grounded c → (w1.finished c).program.Settled c ∧
    (w1.finished c).program.Covers c := by
    intro hg
    have hg' := hfits.works.keeps.program.grounded (hk.program.grounded hg)
    obtain ⟨hb, -, fields, declared, standIns, hp⟩ := hj.parts hg'
    exact (hl.linked h hb hp).imp id fun hcovers => hcovers (hcov hg')
  refine ⟨⟨⟨⟨?_, fun d hd hg => ?_⟩, hfits.sound.finished hc1, ?_, fun hv d hd hg => ?_⟩,
    (h.idle.trans hfits.works.idle).trans (finished_idle w1 c),
    h.queues.trans ha.toQueues, fun L0 => ?_⟩, hdone, fun d hd => ?_⟩
  · refine (hfits.works.later h.keeps hc).trans (hk.mono ?_)
    rintro d hd rfl; exact hc hd
  · by_cases hdc : d = c
    · exact hdc ▸ (hlinked (hdc ▸ hg)).1
    · rw [hat, if_neg hdc] at hd; exact (hfine1 d hd (hk.program.grounded hg)).keeps hk.program hS1
  · rw [finished_finalizing, hfits.works.finalizing, h.finalizing]
    have hnot : c ∉ w.finalizing := fun hmem => hc (.inr hmem)
    have hfilter : w.finalizing.filter (· ≠ c) = w.finalizing := by
      rw [filter_eq_self]
      intro d hd
      have : d ≠ c := by rintro rfl; exact hnot hd
      simpa using this
    rw [filter_cons, if_neg (by simp), hfilter]
  · by_cases hdc : d = c
    · exact hdc ▸ (hlinked (hdc ▸ hg)).2
    · rw [hat, if_neg hdc] at hd
      have hg1 := hk.program.grounded hg
      exact (hfine1 d hd hg1).covers hk.program hS1 (hfits.works.covered h.fine (h.covered hv) h.state d hd hg1)
  · have L := h.ledger L0
    refine L.advance h.sound ha hprotected (fun d => ?_) fun e he => ?_
    · by_cases hdc : d = c
      · subst hdc
        refine .inr ⟨fun _ => (L.known d h.hasClass).mono h.hasClass ha.toRetains, fun hd => absurd hdone hd, fun _ =>
          ⟨mem_enqueue w1 d, file, hl.finished h hj (L.blank d h.state)⟩, fun s hs => ?_⟩
        rw [Extends, hat, if_pos rfl, show (w1.classAt d).superclass? = _ from hfits.superclass,
          show (w1.classAt d).interfaces = _ from hfits.interfaces] at hs
        exact hprotected s (L.above d s hs)
      · exact .inl (.of_keeps (hfits.works.keeps.trans hk) hclasses hdc)
    · by_cases he' : w'.HasEntity e
      · exact .inl he'
      · have he1 : w1.HasEntity e := by rwa [HasEntity, finished_program] at he
        rcases hl.fills.fresh e he1 he' with hshared | ⟨hx, sort, hfield⟩
        · exact .inr (.shared (hshared.mono (finished_entityAt w1 c e) hk.records hk.literals))
        · exact .inr (.table c sort hdone ((ha.continues.isExtern h.hasClass).trans hx)
            ((finished_classObjectField? w1 c _).trans hfield))
  · exact (h.accounted d ((hasClass_iff hclasses).1 hd)).imp id (hprotected d)

lemma World.Sound.underway (hs : w.Sound) (hf : w.Fine) (hc : ¬ w.Protected c)
    (hfile : (w.classAt c).file? = some file) : Underway source
    c file w { w with finalizing := c :: w.finalizing } := by
  have hhas : w.HasClass c := hasClass_of_file hfile
  refine ⟨⟨.refl _ _, fun _ _ h => h, fun _ _ h => h, prefix_rfl, prefix_rfl⟩,
    { hs with finalizing := fun d hd => ?_, fresh := fun d hd =>
      hs.fresh d fun h => hd (h.imp id (mem_cons_of_mem c)) },
    hf, rfl, fun h => hc (.inl h), hfile, .of_members (hs.fresh c hc).2.2.1, .refl _, .of_eq rfl rfl,
      fun d hd => .inl hd,
    fun L => L.of_image hs rfl rfl (fun d hd => hd.imp id (mem_cons_of_mem c)) fun _ h => h, id⟩
  rcases mem_cons.1 hd with rfl | hd
  · exact ⟨hhas, fun h => hc (.inl h)⟩
  · exact hs.finalizing d hd

lemma classFileOf_ends (c : ClassId) (w : World) :
    Ends (classFileOf c w) (fun file w' => w' = w ∧ (w.classAt c).file? = some file) (· = w) := by
  apply ends_get_bind
  cases hfile : (w.classAt c).file? with
  | none => exact ends_throw rfl
  | some file => exact ends_pure ⟨rfl, rfl⟩

lemma finish_ends (hc : ¬ w.Protected c) (h : Underway source c file w w') (hj : Joined c file file.interfaces w')
    (hcov : w'.program.Grounded c → w'.program.Covers c) :
    Ends ((do
      layoutClass c
      modify fun w => w.enqueue c
      modify fun w => { w with finalizing := w.finalizing.filter (· ≠ c) }
      modifyClass c fun info => { info with state := .finalized } : Load Unit) w')
      (fun _ w'' => Prepares source w w'' ∧ (w''.Finalized c ∨ c ∈ w.finalizing) ∧
        ∀ d, w''.HasClass d → w.HasClass d ∨ w''.Protected d) (Grows w) := by
  refine ends_bind ((layoutClass_ends h.sound h.isProtected h.state h.free).imp (fun _ _ h => h) fun w'' h' =>
    h.works_grows hc h') ?_
  intro _ w1 hl
  obtain ⟨h1, h2, h3⟩ := hl.prepares hc h hj hcov
  exact ⟨h1, .inl h2, h3⟩

/-- Finalizing a class, given that its supertypes are finalized properly. -/
lemma finalizeWith_finalizes (hfin : Finalizes source finalize) : Finalizes source (finalizeWith source finalize) := by
  intro w c hs hf hp
  apply ends_get_bind
  split
  · rename_i hdone
    refine ends_pure ⟨.refl hs hf, ?_, fun d hd => .inl hd⟩
    simpa using hdone
  · rename_i hdone
    have hc : ¬ w.Protected c := by
      rintro (h | h) <;> simp [h] at hdone
    obtain ⟨hsuper, hinter, hmembers, -⟩ := hs.fresh c hc
    have hmarked : Grows w { w with finalizing := c :: w.finalizing } :=
      ⟨⟨.refl _ _, fun _ _ h => h, fun _ _ h => h, prefix_rfl, prefix_rfl⟩, hf⟩
    change Ends ((classFileOf c >>= _) { w with finalizing := c :: w.finalizing }) _ _
    refine ends_bind ((classFileOf_ends c _).imp (fun _ _ h => h) (by rintro _ rfl; exact hmarked)) ?_
    rintro file _ ⟨rfl, hfile⟩
    have h0 : Underway source c file w { w with finalizing := c :: w.finalizing } := hs.underway hf hc hfile
    refine ends_pureStep_bind (fun superName? hname => ?_) hmarked
    refine ends_bind (linkSuperclass_ends hfin h0 hs hc hp hsuper hinter hmembers hname) ?_
    rintro _ w1 ⟨h1, hr1⟩
    refine ends_bind_assoc (ends_bind (addMembers_ends hc h1 hr1) ?_)
    rintro _ w2 ⟨h2, hj2⟩
    refine ends_bind (addInterfaces_ends hfin hs hc hp file.interfaces (fun _ h => h) h2 hj2) ?_
    rintro _ w3 ⟨h3, hj3⟩
    have hflags3 : (w3.program.classAt c).flags = file.flags := (h3.sound.loaded c file h3.file).1
    split
    · rename_i hplain
      have hplain3 : (w3.program.classAt c).isInterface = false := by
        rw [isInterface, hflags3]; simpa [ClassFile.isInterface] using hplain
      apply ends_get_bind
      refine ends_bind (linkAllInterfaces_ends hc h3 hj3 hplain3) ?_
      rintro _ w4 ⟨h4, hj4, hcov⟩; exact finish_ends hc h4 hj4 hcov
    · rename_i hint
      refine finish_ends hc h3 hj3 fun hg => ⟨fun hplain => absurd hplain ?_, (hj3.parts hg).2.1, hj3.above h3.file⟩
      rw [isInterface, hflags3]; simpa [ClassFile.isInterface] using hint

lemma finalizeWithin_finalizes (source : ClassSource) (depth : Nat) :
    Finalizes source (finalizeWithin source depth) := by
  induction depth with
  | zero => exact fun w c _ hf _ => ends_throw (.refl hf)
  | succ depth ih => exact finalizeWith_finalizes ih

lemma finalizeClass_finalizes (source : ClassSource) : Finalizes source (finalizeClass source) := by
  intro w c hs hf hp
  exact finalizeWithin_finalizes source _ w c hs hf hp

end JvmGraph
