import JvmGraph.Proofs.Linking.Coverage

/-!
# Work on one class

The steps of a finalization work on one class and the entities that it owns. Classes that are finalized
together with their supertypes stay so through them.
-/

namespace JvmGraph

open Steps Program ClassInfo

variable {β : Type} {f : Program → Program} {world world' : World} {u : Unit}

namespace World

variable {w w' w'' : World} {c d : ClassId} {S : ClassId → Prop} {entity : Entity}

def Fine (w : World) : Prop :=
  ∀ c, (w.classAt c).state = .finalized → w.program.Grounded c → w.program.Settled c

lemma Fine.keeps (h : w.Fine) (hk : w.Keeps S w') (hS : ∀ d, w.Finalized d → S d)
    (hnew : ∀ d, w'.Finalized d → w.Finalized d) : w'.Fine := by
  intro d hd hg
  exact (h d (hnew d hd) (hk.program.grounded hg)).keeps hk.program hS

/-- Every finalized class whose supertypes form no circle has the methods of its interfaces. -/
def Covered (w : World) : Prop :=
  ∀ c, (w.classAt c).state = .finalized → w.program.Grounded c → w.program.Covers c

lemma Covered.keeps (h : w.Covered) (hf : w.Fine) (hk : w.Keeps S w') (hS : ∀ d, w.Finalized d → S d)
    (hnew : ∀ d, w'.Finalized d → w.Finalized d) : w'.Covered := by
  intro d hd hg
  have hg' := hk.program.grounded hg
  exact (hf d (hnew d hd) hg').covers hk.program hS (h d (hnew d hd) hg')

structure Works (c : ClassId) (w w' : World) : Prop where
  keeps : w.Keeps (· ≠ c) w'
  idle : w.program.Idle w'.program
  classes : w'.program.classes.size = w.program.classes.size
  origin : (w'.classAt c).origin = (w.classAt c).origin
  finalizing : w'.finalizing = w.finalizing
  queue : w'.queue = w.queue
  queued : w'.queued = w.queued
  names : w'.names = w.names
  functions : AddsFunctions w w'

namespace Works

lemma refl (c : ClassId) (w : World) : Works c w w :=
  ⟨.refl _ w, .refl _, rfl, rfl, rfl, rfl, rfl, rfl, fun _ _ h => .inl h⟩

section

variable (h : Works c w w')

include h

lemma trans (h' : Works c w' w'') : Works c w w'' where
  keeps := h.keeps.trans h'.keeps
  idle := h.idle.trans h'.idle
  classes := h'.classes.trans h.classes
  origin := h'.origin.trans h.origin
  finalizing := h'.finalizing.trans h.finalizing
  queue := h'.queue.trans h.queue
  queued := h'.queued.trans h.queued
  names := h'.names.trans h.names
  functions := fun f e hf => by
    rcases h'.functions f e hf with hf | hf
    · refine (h.functions f e hf).imp id fun ⟨he, hent⟩ => ?_
      have hface := h'.keeps.program.face e he
      exact ⟨h'.keeps.program.hasEntity he, (Entity.eq_of_face hface (by rw [hent]; rfl)).trans hent⟩
    · exact .inr hf

lemma state_eq : (w'.classAt c).state = (w.classAt c).state :=
  (congrArg state h.origin :)

lemma file_eq : (w'.classAt c).file? = (w.classAt c).file? :=
  (congrArg file? h.origin :)

lemma flags_eq : (w'.classAt c).flags = (w.classAt c).flags :=
  (congrArg flags h.origin :)

lemma state (d : ClassId) : (w'.classAt d).state = (w.classAt d).state := by
  by_cases hd : d = c
  · rw [hd, h.state_eq]
  · exact (congrArg (·.state) (h.keeps.decl_eq h.classes hd) :)

lemma finalized_iff (d : ClassId) : w'.Finalized d ↔ w.Finalized d := by rw [Finalized, Finalized, h.state]

lemma fine (hf : w.Fine) (hc : ¬ w.Finalized c) : w'.Fine :=
  hf.keeps h.keeps (by rintro d hd rfl; exact hc hd) fun d => (h.finalized_iff d).1

lemma covered (hf : w.Fine) (hv : w.Covered) (hc : ¬ w.Finalized c) : w'.Covered :=
  hv.keeps hf h.keeps (by rintro d hd rfl; exact hc hd) fun d => (h.finalized_iff d).1

lemma settled (hc : ¬ w.Finalized c) (hd : w.program.Settled d) : w'.program.Settled d := by
  refine hd.keeps h.keeps.program ?_
  rintro d hd rfl
  exact hc hd

lemma later {w0 : World} (hk : w0.Keeps S w) (hc : ¬ S c) : w0.Keeps S w' := by
  refine hk.trans (h.keeps.mono ?_)
  rintro d hd rfl
  exact hc hd

lemma protected_iff : w'.Protected c ↔ w.Protected c := by
  rw [Protected, Protected, h.state_eq, h.finalizing]

lemma sound (hs : w.Sound) (hmember : ∀ e ∈ (w'.classAt c).members, e ∈ (w.classAt c).members ∨
      w'.HasEntity e ∧ (w'.program.entityAt e).owner? = some c)
    (hnodup : (w'.classAt c).members.Nodup)
    (hc : w.Protected c ∨ (w'.classAt c).lineage = (w.classAt c).lineage) : w'.Sound := by
  have hother : ∀ {d}, d ≠ c → (w'.classAt d).members = (w.classAt d).members :=
    fun hd => (congrArg members (h.keeps.decl_eq h.classes hd) :)
  refine hs.continues h.keeps.program.toContinues h.classes h.names h.functions
    (fun d hd => ⟨h.finalizing ▸ hd, h.state d⟩) (fun d e he => ?_) (fun d => ?_) fun d hd => ?_
  · by_cases hdc : d = c
    · subst hdc; exact hmember e he
    · exact .inl (hother hdc ▸ he)
  · by_cases hdc : d = c
    · subst hdc; exact hnodup
    · exact hother hdc ▸ hs.members_nodup d
  · rw [Protected, h.state, h.finalizing] at hd
    refine ⟨hd, ?_⟩
    by_cases hdc : d = c
    · subst hdc; exact hc.resolve_left hd
    · exact (congrArg lineage (h.keeps.decl_eq h.classes hdc) :)

lemma sound_of_members (hs : w.Sound) (hm : (w'.classAt c).members = (w.classAt c).members)
    (hc : w.Protected c ∨ (w'.classAt c).lineage = (w.classAt c).lineage) : w'.Sound :=
  h.sound hs (fun _ he => .inl (hm ▸ he)) (hm ▸ hs.members_nodup c) hc

end

end Works

/-! ## Single changes -/

lemma keeps_modifyProgram (h : w.program.Keeps S (f w.program)) : w.Keeps S (w.modifyProgram f) :=
  ⟨h, fun _ _ h => h, fun _ _ h => h, List.prefix_rfl, List.prefix_rfl⟩

lemma works_modifyProgram (hk : w.program.Keeps (· ≠ c) (f w.program)) (hi : w.program.Idle (f w.program))
    (hclasses : (f w.program).classes.size = w.program.classes.size)
    (horigin : ((f w.program).classAt c).origin = (w.program.classAt c).origin) : Works c w (w.modifyProgram f) :=
  ⟨keeps_modifyProgram hk, hi, hclasses, horigin, rfl, rfl, rfl, rfl, fun _ _ h => .inl h⟩

lemma works_modifyClass (c : ClassId) (w : World) {f : ClassInfo → ClassInfo}
    (horigin : (f (w.classAt c)).origin = (w.classAt c).origin)
    (hprogress : (f (w.classAt c)).progress = (w.classAt c).progress)
    (hmembers : (w.classAt c).members <+: (f (w.classAt c)).members) : Works c w (w.modifyClass c f) := by
  have hbirth : (f (w.classAt c)).birth = (w.classAt c).birth := by
    rw [birth, horigin, birth]
  refine works_modifyProgram (.modifyClass hbirth hmembers fun h => absurd rfl h)
    (Program.Enlarges.modifyClass hbirth hmembers hprogress).toIdle (size_modifyClass _ _ _) ?_
  exact modifyClass_congr (·.origin) horigin

lemma works_newEntity (c : ClassId) (w : World) (hg : entity.method? = none) :
    Works c w (w.modifyProgram fun p => (p.newEntity entity).2) :=
  works_modifyProgram (.newEntity entity hg) (Program.Enlarges.newEntity (by simp [Entity.graph?, hg])).toIdle rfl rfl

lemma works_modifyEntity {e : EntityId} {f : Entity → Entity}
    (hu : Program.Update w.program (w.program.modifyEntity e f))
    (he : w.program.Enlarges (w.program.modifyEntity e f)) (ho : (w.program.entityAt e).owner? = some c) :
    Works c w (w.modifyProgram fun p => p.modifyEntity e f) :=
  works_modifyProgram (.modifyEntity hu he.toContinues ho (fun h => h rfl)) he.toIdle rfl rfl

lemma works_addMember (hc : w.HasClass c) (hg : entity.graph? = none) :
    Works c w (w.modifyProgram fun p => (p.addMember c entity).2) := by
  refine works_modifyProgram (.addMember hg hc fun h => h rfl) (Program.Enlarges.addMember hg).toIdle
    (by simp [addMember_snd]) ?_
  have hat := classAt_modifyClass_self (w.program.newEntity { entity with owner? := some c }).2 c
    (f := fun info => { info with members := info.members ++ [⟨w.program.entities.size⟩] }) hc
  rw [addMember_snd, hat]
  rfl

end World

/-! ## Steps of loading -/

variable {α : Type} {c : ClassId} {x : Except Error α} {a : α}

lemma pureStep_ok : Load.pureStep x world = .ok a world' ↔ x = .ok a ∧ world = world' := by
  cases x with
  | error e =>
    constructor
    · exact fun h => absurd h throw_ok
    · rintro ⟨⟨⟩, -⟩
  | ok b => simp [Load.pureStep, pure_ok]

lemma pureStep_bind (h : x = .ok a) (f : α → Load β) : (Load.pureStep x >>= f) world = f a world :=
  bind_of_ok (pureStep_ok.2 ⟨h, rfl⟩)

lemma modifyProgram_ok : Load.modifyProgram f world = .ok u world' ↔ world' = world.modifyProgram f := by
  constructor
  · intro h
    cases h
    rfl
  · rintro rfl; rfl

lemma modifyClass_ok {f : ClassInfo → ClassInfo} :
    Load.modifyClass c f world = .ok u world' ↔ world' = world.modifyClass c f := modifyProgram_ok

variable {R : β → World → Prop}

section Ends

variable {w : World} {Q : α → World → Prop} {E : World → Prop} {g : α → Load β}

lemma ends_onImage {f : Image → α × Image} (h : Q (f w.image).1 { w with image := (f w.image).2 }) :
    Ends (Load.onImage f w) Q E := h

lemma ends_modifyProgram {Q : Unit → World → Prop} (h : Q () (w.modifyProgram f)) :
    Ends (Load.modifyProgram f w) Q E := h

lemma ends_modifyClass {f : ClassInfo → ClassInfo} {Q : Unit → World → Prop}
    (h : Q () (w.modifyClass c f)) : Ends (Load.modifyClass c f w) Q E := h

lemma ends_onProgram_bind {f : Program → α × Program}
    (h : Ends (g (f w.program).1 (w.modifyProgram fun p => (f p).2)) R E) : Ends ((Load.onProgram f >>= g) w) R E := h

lemma ends_modifyClass_bind {f : ClassInfo → ClassInfo} {g : Unit → Load β}
    (h : Ends (g () (w.modifyClass c f)) R E) : Ends ((Load.modifyClass c f >>= g) w) R E := h

lemma ends_modifyProgram_bind {g : Unit → Load β} (h : Ends (g () (w.modifyProgram f)) R E) :
    Ends ((Load.modifyProgram f >>= g) w) R E := h

lemma ends_pureStep_bind
    (hok : ∀ a, x = .ok a → Ends (g a w) R E) (herror : E w) : Ends ((Load.pureStep x >>= g) w) R E := by
  cases x with
  | ok a => exact hok a rfl
  | error e => exact herror

end Ends

end JvmGraph
