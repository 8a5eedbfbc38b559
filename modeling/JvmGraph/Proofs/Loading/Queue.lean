import JvmGraph.Proofs.Loading.Construction

/-!
# Working through the queue

Classes leave the queue in the order in which they first entered it, each once. An emitted class that leaves it is
finalized and its methods are compiled, which may enter further classes. When the queue is empty every finalized class
has left it, and nothing is left to do.
-/

namespace JvmGraph

open Steps Load World List

variable {source : ClassSource} {w w' w1 w2 : World} {c : ClassId} {u : Unit} {fuel : Nat}

/-! ## One class -/

namespace World

structure Builds (source : ClassSource) (c : ClassId) (w w' : World) : Prop where
  fresh : (w.classAt c).constructed = false
  run : ∃ file w₁, (w.classAt c).file? = some file ∧ constructMethods source c file (w.bodies c file) w = .ok () w₁ ∧
    w' = w₁.modifyClass c fun info => { info with constructed := true }

inductive Handles (source : ClassSource) (c : ClassId) (w : World) : (isBuilt : Bool) → World → Prop
  | skip (hx : (w.classAt c).isExtern = true) : Handles source c w false w
  | build (w₁ w' : World) (hx : (w.classAt c).isExtern = false) (hfin : finalizeClass source c w = .ok () w₁)
      (h : Builds source c w₁ w') : Handles source c w true w'

structure Proceeds (c : ClassId) (isBuilt : Bool) (w w' : World) : Prop extends Retains w w', Queues w w' where
  hasClass : w.HasClass c
  emitted : (w.classAt c).isExtern = !isBuilt
  constructed : ∀ d, (w'.classAt d).constructed = true ↔ (w.classAt d).constructed = true ∨ isBuilt = true ∧ d = c

end World

lemma constructClass_builds (h : constructClass source c w = .ok u w') (hx : (w.classAt c).isExtern = false)
    (hfresh : (w.classAt c).constructed = false) : Builds source c w w' := by
  unfold constructClass at h
  replace h := get_bind_ok.1 h
  rw [show (w.program.classAt c).isExtern = false from hx, show (w.program.classAt c).constructed = false
    from hfresh] at h
  obtain ⟨file, _, hread, h⟩ := bind_ok.1 h
  obtain ⟨rfl, hfile⟩ := (classFileOf_ends c w).ok hread
  obtain ⟨⟨⟩, w1, hmethods, h⟩ := bind_ok.1 h
  exact ⟨hfresh, file, w1, hfile, hmethods, modifyClass_ok.1 h⟩

lemma finalizeClass_hasClass (h : finalizeClass source c w = .ok u w') (hidle : w.finalizing = []) :
    w.HasClass c := by
  replace h := get_bind_ok.1 h
  replace h := get_bind_ok.1 h
  simp only [hidle] at h
  split at h
  · rename_i hdone
    refine hasClass_of_state ?_
    rw [show w.program.classAt c = w.classAt c from rfl, show w.Finalized c by simpa using hdone]
    exact nofun
  · obtain ⟨_, _, hmark, h⟩ := bind_ok.1 h
    cases hmark
    obtain ⟨file, _, hread, h⟩ := bind_ok.1 h
    obtain ⟨-, hfile⟩ := (classFileOf_ends c _).ok hread; exact Program.hasClass_of_file hfile

lemma processClass_handles (h : processClass source c w = .ok u w') (hw : w.InOrder source)
    (hfresh : (w.classAt c).constructed = false) : ∃ isBuilt, Handles source c w isBuilt w' := by
  replace h := get_bind_ok.1 h
  split at h
  · rename_i hx; cases h; exact ⟨false, .skip hx⟩
  · rename_i hx
    have hx : (w.classAt c).isExtern = false := by simpa using hx
    obtain ⟨⟨⟩, w1, hfin, h⟩ := bind_ok.1 h
    have hclass := finalizeClass_hasClass hfin hw.idle
    have ha := ((finalizeClass_finalizes source w c hw.sound hw.fine (hw.pending c)).ok hfin).1.advances
    refine ⟨true, .build w1 w' hx hfin (constructClass_builds h ?_ ?_)⟩
    · exact (ha.continues.isExtern hclass).trans hx
    · exact (ha.constructed c).trans hfresh

namespace World

def markBuilt (w : World) (c : ClassId) : World := w.modifyClass c fun info => { info with constructed := true }

lemma constructed_markBuilt (hc : w.HasClass c) (d : ClassId) :
    ((w.markBuilt c).classAt d).constructed = true ↔ (w.classAt d).constructed = true ∨ d = c := by
  have hat := w.program.classAt_modifyClass c d fun info => { info with constructed := true }
  rw [show (w.markBuilt c).classAt d = _ from hat]
  by_cases hd : d = c
  · simp [hd, hc]
  · simp [hd, classAt]

lemma InOrder.markBuilt {file : ClassFile} (hw : w.InOrder source) (hc : w.IsEmitted c file)
    (hall : ∀ body ∈ w.bodies c file, body.1.hasBody = true → (w.program.graphAt? body.2).isSome) :
    (w.markBuilt c).InOrder source ∧ Retains w (w.markBuilt c) := by
  have hr : Retains w (w.markBuilt c) := hw.retains_note fun _ => rfl
  have hdone : ∀ d, ((w.markBuilt c).classAt d).constructed = true → (w.markBuilt c).Constructed d := by
    intro d hd
    rcases (constructed_markBuilt (hw.sound.hasClass (.inl hc.finalized)) d).1 hd with hd | rfl
    · exact (hw.ledger.constructed d hd).mono hw.sound hr fun _ hg => hg
    · have hc' := hc.mono hr
      refine ⟨hc'.finalized, hc'.emitted, fun file' hfile' body hb => ?_⟩
      obtain rfl : file' = file := Option.some.inj (hfile'.symm.trans hc'.file)
      rw [bodies_eq hw.sound (congrArg (·.members) (hr.decl_eq hc.finalized) :) hr.continues] at hb
      exact hall body hb
  exact ⟨hw.mark (fun _ => rfl) hdone, hr⟩

lemma Builds.proceeds (h : Builds source c w w') (hw : w.InOrder source) (hc : w.Finalized c)
    (hx : (w.classAt c).isExtern = false) : w'.InOrder source ∧ Proceeds c true w w' := by
  obtain ⟨file, w1, hfile, hrun, rfl⟩ := h.run
  have hc : w.IsEmitted c file := ⟨hc, hx, hfile⟩
  obtain ⟨hw1, hcomp, hall⟩ := constructMethods_compiles hrun hw hc fun _ hb => hb
  rw [← bodies_eq hw.sound (congrArg (·.members) (hcomp.decl_eq hc.finalized) :) hcomp.continues] at hall
  have hc1 := hc.mono hcomp.toRetains
  obtain ⟨hw', hr⟩ := hw1.markBuilt hc1 hall
  refine ⟨hw', hcomp.toRetains.trans hr, hcomp.toQueues.trans (.of_eq rfl rfl), hw.sound.hasClass (.inl hc.finalized),
    hx,
    fun d => ?_⟩
  rw [show World.modifyClass w1 c _ = w1.markBuilt c from rfl,
    constructed_markBuilt (hw1.sound.hasClass (.inl hc1.finalized)), hcomp.constructed]
  simp

lemma Handles.proceeds {isBuilt : Bool} (h : Handles source c w isBuilt w') (hw : w.InOrder source) :
    w'.InOrder source ∧ Proceeds c isBuilt w w' := by
  cases h with
  | skip hx =>
    refine ⟨hw, .refl w, .refl w, ?_, hx, fun d => by simp⟩
    by_contra hc
    simp [classAt, Program.classAt_of_not _ c hc] at hx
  | build w1 w' hx hfin h =>
    have hclass := finalizeClass_hasClass hfin hw.idle
    obtain ⟨hp, hstate, hnew⟩ := (finalizeClass_finalizes source w c hw.sound hw.fine (hw.pending c)).ok hfin
    have ha := hp.advances
    have hstate : w1.Finalized c := hstate.resolve_right fun h => by
      simp [hw.idle] at h
    obtain ⟨hw', hp⟩ := h.proceeds (hw.prepares hp fun d hd => (hnew d hd).imp id .inl) hstate ((
      ha.continues.isExtern hclass).trans hx)
    refine ⟨hw', ha.toRetains.trans hp.toRetains, ha.toQueues.trans hp.toQueues, hclass, hx, fun d => ?_⟩
    rw [hp.constructed, ha.constructed]

/-! ## The queue -/

/-- The queue of `w` is worked off. The classes `taken` leave it in this order, and `built` are those among them that
are built. -/
inductive Drains (source : ClassSource) : World → (taken built : List ClassId) → World → Prop
  | done {w : World} (h : w.queue = []) : Drains source w [] [] w
  | next {w w₁ w' : World} {c : ClassId} {rest taken built : List ClassId} {isBuilt : Bool} (hq : w.queue = c :: rest)
      (h : Handles source c { w with queue := rest } isBuilt w₁) (hrest : Drains source w₁ taken built w') :
      Drains source w (c :: taken) (if isBuilt then c :: built else built) w'

structure Standing (source : ClassSource) (w : World) (taken built : List ClassId) : Prop extends InOrder source w where
  order : w.queued.reverse = taken ++ w.queue
  nodup : w.queued.Nodup
  sublist : built.Sublist taken
  constructed : ∀ c, (w.classAt c).constructed = true ↔ c ∈ built
  hasClass : ∀ c ∈ taken, w.HasClass c
  complete : ∀ c ∈ taken, (w.classAt c).isExtern = false → c ∈ built

namespace Standing

variable {taken built rest : List ClassId} {isBuilt : Bool}

section

variable (h : Standing source w taken built)

include h

lemma not_mem (hq : w.queue = c :: rest) : c ∉ taken := by
  have hn : (taken ++ c :: rest).Nodup := by
    rw [← hq, ← h.order]; exact nodup_reverse.2 h.nodup
  exact fun hc => (nodup_append.1 hn).2.2 c hc c mem_cons_self rfl

lemma fresh (hq : w.queue = c :: rest) : (w.classAt c).constructed = false := by
  rw [Bool.eq_false_iff]
  exact fun hc => h.not_mem hq (h.sublist.subset ((h.constructed c).1 hc))

lemma dequeue (rest : List ClassId) : ({ w with queue := rest } : World).InOrder source := by
  refine ⟨(h.toReady.requeue rest w.queued).1, h.ledger.of_image h.sound rfl rfl (fun _ hd => hd) fun _ hd => hd, ?_⟩
  exact fun d hd => (h.accounted d hd).mono hd (.of_image rfl rfl) id id

lemma step (hq : w.queue = c :: rest) (hc : Handles source c { w with queue := rest } isBuilt w') :
    Standing source w' (taken ++ [c]) (built ++ if isBuilt then [c] else []) := by
  obtain ⟨hw', hp⟩ := hc.proceeds (h.dequeue rest)
  obtain ⟨new, hqueue, hqueued⟩ := hp.queue
  have horder : w'.queued.reverse = taken ++ [c] ++ w'.queue := by
    simp [hqueue, hqueued, reverse_append, h.order, hq]
  refine ⟨hw', horder, hp.nodup h.nodup, h.sublist.append ?_, fun d => ?_, fun d hd => ?_, fun d hd hx => ?_⟩
  · split
    · exact Sublist.refl _
    · exact nil_sublist _
  · have hmore : (w'.classAt d).constructed = true ↔ (w.classAt d).constructed = true ∨ isBuilt = true ∧ d = c :=
      hp.constructed d
    rw [hmore, h.constructed]; cases isBuilt <;> simp
  · rcases mem_append.1 hd with hd | hd
    · exact hp.continues.hasClass (h.hasClass d hd)
    · rw [mem_singleton.1 hd]; exact hp.continues.hasClass hp.hasClass
  · rcases mem_append.1 hd with hd | hd
    · exact mem_append_left _ (h.complete d hd ((hp.continues.isExtern (h.hasClass d hd)).symm.trans hx))
    · obtain rfl := mem_singleton.1 hd
      have hnot : (!isBuilt) = false := (hp.emitted.symm.trans (hp.continues.isExtern hp.hasClass).symm).trans hx
      simp [show isBuilt = true by simpa using hnot]

end

end Standing

end World

lemma processQueue_drains {taken built : List ClassId}
    (h : processQueue source fuel w = .ok u w') (hw : Standing source w taken built) :
    ∃ taken' built', Drains source w taken' built' w' ∧ Standing source w' (taken ++ taken') (built ++ built') ∧
      w'.queue = [] := by
  induction fuel generalizing w taken built with
  | zero => exact absurd h throw_ok
  | succ fuel ih =>
    obtain ⟨c?, w1, hdeq, h⟩ := bind_ok.1 h
    have hdeq : w.dequeue = (c?, w1) := modifyGet_ok.1 hdeq
    unfold World.dequeue at hdeq
    split at hdeq
    · rename_i hq
      obtain ⟨rfl, rfl⟩ := Prod.mk.inj hdeq
      cases h; exact ⟨[], [], .done hq, by simpa using hw, hq⟩
    · rename_i c rest hq
      obtain ⟨rfl, rfl⟩ := Prod.mk.inj hdeq
      obtain ⟨⟨⟩, w2, hclass, h⟩ := bind_ok.1 h
      obtain ⟨isBuilt, hc⟩ := processClass_handles hclass (hw.dequeue rest) (hw.fresh hq)
      obtain ⟨taken', built', hdrains, hstand, hempty⟩ := ih h (hw.step hq hc)
      refine ⟨c :: taken', _, .next hq hc hdrains, ?_, hempty⟩
      cases isBuilt <;> simpa using hstand

/-! ## From the beginning -/

lemma inOrder_empty (source : ClassSource) : InOrder source {} := by
  have hclass : ∀ c, ¬ (World.program {}).HasClass c := by simp [Program.HasClass, World.program]
  have hentity : ∀ e, ¬ (World.program {}).HasEntity e := by simp [Program.HasEntity, World.program]
  refine ⟨ready_empty, ⟨fun c => ⟨fun hc => absurd hc (hclass c), fun _ e he => ?_, fun hc => ?_, fun s hs => ?_⟩,
    fun e he => absurd he (hentity e), fun e he => ?_, fun c hc => ?_⟩, fun c hc => absurd hc (hclass c)⟩
  · exact absurd (hasClass_of_table he) (hclass c)
  · cases hc
  · rcases hs with hs | hs <;> cases hs
  · cases he
  · cases hc

lemma World.InOrder.enter {name : String} (hw : w.InOrder source) (h : classNamed source name w = .ok c w') :
    (w'.enqueue c).InOrder source ∧ Advances w (w'.enqueue c) := by
  obtain ⟨hp, -, -, hor⟩ := (classNamed_prepares source name hw.sound hw.fine).ok h
  have hl := hp.toLoads
  have ha := hp.advances
  have himage : (w'.enqueue c).image = w'.image ∧ (w'.enqueue c).names = w'.names := by
    unfold World.enqueue
    split
    · exact ⟨rfl, rfl⟩
    · exact ⟨rfl, rfl⟩
  have hready : (w'.enqueue c).Ready ∧ Loads w' (w'.enqueue c) := by
    have hr := hl.ready hw.toReady
    unfold World.enqueue
    split
    · exact ⟨hr, .refl hr.sound hr.fine⟩
    · exact hr.requeue _ _
  have hr : Retains w' (w'.enqueue c) := .of_image himage.1 himage.2
  have hq := Queues.enqueue w' c
  have hprogram : (w'.enqueue c).program = w'.program := congrArg (·.program) himage.1
  have ha' : Advances w' (w'.enqueue c) :=
    ⟨hr, hq, ⟨fun e => by rw [hprogram], fun d => by simp [World.classAt, hprogram]⟩⟩
  refine ⟨⟨hready.1, (hp.ledger hw.ledger).of_image hl.sound himage.1 himage.2 (fun _ => hready.2.protected)
    fun _ => hq.subset, fun d hd => ?_⟩,
    ha.trans ha'⟩
  rw [HasClass, hprogram] at hd
  rcases hor d hd with hd' | rfl
  · exact (hw.accounted d hd').mono hd' (ha.trans ha').toRetains (fun h => hready.2.protected (hl.protected h))
      fun h => hq.subset (ha.subset h)
  · exact .inr (.inl (mem_enqueue w' d))

/-- The class of classes and the root class have been entered into the queue, and nothing else was done. -/
def World.Opens (source : ClassSource) (root : String) (r : ClassId) (w : World) : Prop :=
  ∃ k w₁ w₂, classNamed source classClassName {} = .ok k w₁ ∧ classNamed source root (w₁.enqueue k) = .ok r w₂ ∧
    w = w₂.enqueue r

lemma loadFrom_drains {root : String} {r : ClassId} (h : loadFrom source root fuel {} = .ok r w) :
    ∃ w0 taken built, Opens source root r w0 ∧ Drains source w0 taken built w ∧ Standing source w taken built ∧
      w.queue = [] := by
  obtain ⟨classClass, w1, hclass, h⟩ := bind_ok.1 h
  obtain ⟨_, w2, henq, h⟩ := bind_ok.1 h
  cases henq
  obtain ⟨rootId, w3, hroot, h⟩ := bind_ok.1 h
  obtain ⟨_, w4, henq, h⟩ := bind_ok.1 h
  cases henq
  obtain ⟨_, w5, hrun, h⟩ := bind_ok.1 h
  obtain ⟨rfl, rfl⟩ := pure_ok.1 h
  obtain ⟨hw2, ha2⟩ := (inOrder_empty source).enter hclass
  obtain ⟨hw4, ha4⟩ := hw2.enter hroot
  have ha := ha2.trans ha4
  obtain ⟨new, hqueue, hqueued⟩ := ha.queue
  have hstart : Standing source (w3.enqueue rootId) [] [] := by
    refine ⟨hw4, by simp [hqueue, hqueued], ha.nodup nodup_nil, Sublist.refl _, fun c => ?_,
      fun _ hc => (nomatch hc), fun _ hc => nomatch hc⟩
    simp [ha.constructed, classAt_empty]
  obtain ⟨taken, built, hdrains, hstand, hempty⟩ := processQueue_drains hrun hstart
  exact ⟨_, taken, built, ⟨classClass, w1, w3, hclass, hroot, rfl⟩, hdrains, hstand, hempty⟩

end JvmGraph
