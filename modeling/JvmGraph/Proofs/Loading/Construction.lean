import JvmGraph.Proofs.Loading.Recording
import JvmGraph.Proofs.Loading.Run

/-!
# Compiling an emitted class

The bodies of a class are compiled one after the other. Compiling a body resolves constants and gives the method its
graph; it enters other classes into the queue, and touches no other code.
-/

namespace JvmGraph

open Steps Load World NodeContract List JvmGraph.Frame

/-! ## Bodies -/

def Frame.free : Contract Frame := .ofDoes (fun _ => True) (fun _ _ => True) (fun _ => trivial) fun _ _ => trivial

lemma Frame.free_keeps {α : Type} {x : Frame.Step α} {L : List NodeId} {K : α → List NodeId} :
    (ofContract free).Keeps L x K :=
  keeps_of_honours (Contract.honours_ofDoes fun _ _ _ _ _ => ⟨trivial, trivial⟩)

def Body.within (W : Contract World) : Contract BodyState where
  inv t := W.inv t.world
  does t t' := W.does t.world t'.world
  fails t t' := W.fails t.world t'.world
  refl := W.refl
  trans := W.trans
  fails_refl := W.fails_refl
  fails_trans := W.fails_trans

namespace Body

variable {W : Contract World} {ctx : MethodContext} {α : Type}

lemma within_onFrame (x : Frame.Step α) : (within W).Honours (onFrame x) := by
  rintro ⟨world, frame, blocks, initialized⟩ hw
  simp only [onFrame]
  cases x frame with
  | ok => exact ⟨hw, W.refl hw⟩
  | error => exact W.fails_refl hw

lemma within_onWorld {x : Load α} (hx : W.Honours x) : (within W).Honours (onWorld x) := by
  rintro ⟨world, frame, blocks, initialized⟩ hw
  have h := hx world hw
  simp only [onWorld]
  cases hr : x world with
  | ok a w => rwa [hr] at h
  | error e w => rwa [hr] at h

lemma within_modify {f : BodyState → BodyState} (hf : ∀ t, (f t).world = t.world) :
    (within W).Honours (modify f : Body Unit) := by
  intro t ht
  refine ends_modify ⟨?_, ?_⟩
  · show W.inv (f t).world; rwa [hf]
  · show W.does t.world (f t).world; rw [hf]; exact W.refl ht

lemma within_rules (hW : WorldRules ctx.source ctx.owner ctx.file W) : ControlRules ctx (within W) where
  frame := ⟨.ofContract free, ⟨fun _ => free_keeps, free_keeps, fun _ => free_keeps, free_keeps,
    free_keeps, fun _ => free_keeps, fun _ _ => free_keeps, free_keeps, free_keeps,
    fun _ _ => free_keeps, fun _ _ _ => free_keeps, fun _ => free_keeps, free_keeps⟩,
    fun _ => keeps_of_honours (within_onFrame _)⟩
  world := ⟨W, hW, fun h => keeps_of_honours (within_onWorld h)⟩
  initialized _ := keeps_of_honours (within_modify fun _ => rfl)
  select := ⟨fun _ _ => True, fun _ _ _ => trivial, fun _ _ _ _ _ => trivial, fun _ _ t ht _ _ =>
    keeps_of_honours (L := []) ((within_onFrame _).bind fun _ => (within_onFrame _).bind fun _ => within_onFrame _) t
      ht (by simp)⟩
  blocks _ := within_modify fun _ => rfl
  note _ _ := within_onFrame _
  newBlock := within_onFrame _
  nameBlock _ _ := within_onFrame _
  setCurrent _ := within_onFrame _
  addPred _ _ := within_onFrame _
  mature _ := within_onFrame _
  keepAlive _ := within_onFrame _
  ret _ := within_onFrame _
  arg _ _ := within_onFrame _

end Body

variable {source : ClassSource} {c : ClassId} {file : ClassFile} {W : Contract World}

lemma runBody_honours {x : Body Unit} (hx : (Body.within W).Honours x) (frame : Frame)
    (codeLength : Nat) : W.Honours (runBody frame codeLength x) := by
  intro w hw
  have h := hx { world := w, frame, blocks := Array.replicate codeLength none, initialized := [] } hw
  unfold runBody
  split
  · rename_i heq; rwa [heq] at h
  · rename_i heq; rwa [heq] at h

lemma methodGraph_honours (hW : WorldRules source c file W) (member : Member) (e : EntityId) :
    W.Honours (methodGraph source c file member e) := by
  refine .get fun w => ?_
  simp only []
  cases (w.program.entityAt e).method? with
  | none => exact .throw
  | some m =>
    cases member.code? with
    | none => exact .throw
    | some code =>
      have R : ControlRules ⟨source, c, file, m.resultMode?⟩ (Body.within W) := Body.within_rules hW
      exact (honours_pureStep _).bind fun ops => (honours_pureStep _).bind fun boundaries =>
        runBody_honours (R.whole _ _ _ _) _ _

/-! ## Methods -/

namespace World

variable {w w' w'' : World} {d : ClassId} {e : EntityId} {g : Graph}

structure Compiles (w w' : World) : Prop extends Retains w w', Queues w w' where
  loads : Loads w w'
  graph : ∀ e, (w.program.graphAt? e).isSome → (w'.program.graphAt? e).isSome
  constructed : ∀ d, (w'.classAt d).constructed = (w.classAt d).constructed

namespace Compiles

lemma of_advances (hl : Loads w w') (ha : Advances w w') : Compiles w w' :=
  ⟨ha.toRetains, ha.toQueues, hl, fun e he => by rwa [ha.graph], ha.constructed⟩

lemma refl (h : w.Ready) : Compiles w w := .of_advances (.refl h.sound h.fine) (.refl w)

lemma trans (h : Compiles w w') (h' : Compiles w' w'') : Compiles w w'' :=
  ⟨h.toRetains.trans h'.toRetains, h.toQueues.trans h'.toQueues, h.loads.trans h'.loads,
    fun e he => h'.graph e (h.graph e he), fun d => (h'.constructed d).trans (h.constructed d)⟩

end Compiles

def attached (w : World) (e : EntityId) (g : Graph) : World :=
  w.modifyProgram fun p => p.modifyMethod e fun m => { m with graph? := some g }

lemma graphAt?_attached (w : World) (e x : EntityId) (g : Graph) : (w.attached e g).program.graphAt? x =
      if x = e ∧ (w.program.methodAt? e).isSome then some g else w.program.graphAt? x :=
  w.program.graphAt?_regraph e x (some g)

lemma compiles_attached (hr : w.Ready) (e : EntityId) (hg : w.program.Selects g) : Compiles w (w.attached e g) := by
  refine ⟨⟨keeps_modifyProgram (.attach e hg)⟩, .of_eq rfl rfl, .attach hr e hg, fun x hx => ?_, fun _ => rfl⟩
  rw [graphAt?_attached]
  split
  · rfl
  · exact hx

lemma InOrder.attached (h : w.InOrder source) (hc : w.IsEmitted c file) {member : Member}
    (hb : (member, e) ∈ w.bodies c file) (hbody : member.hasBody = true) (hg : w.program.Selects g) :
    (w.attached e g).InOrder source := by
  have hcomp := compiles_attached h.toReady e hg
  have hc' := hc.mono hcomp.toRetains
  have hsame : (w.attached e g).bodies c file = w.bodies c file := by
    apply bodies_eq h.sound
    · rfl
    · exact hcomp.continues
  refine ⟨hcomp.loads.ready h.toReady, ?_, fun d hd => ?_⟩
  · have hk : w.program.Keeps (fun _ => True) (w.attached e g).program := .attach e hg
    have hsize : (w.attached e g).program.entities.size = w.program.entities.size := by
      show (w.program.modifyMethod e _).entities.size = _; simp
    refine h.ledger.step h.sound hcomp.toRetains (fun _ => hcomp.loads.protected) (fun _ hd => hd)
      (fun d => .inl ⟨id, rfl, fun x hx _ => hk.owned x hx fun _ _ => trivial⟩)
      (fun x hx => .inl (by rwa [HasEntity, Program.HasEntity, ← hsize])) ?_ ?_
    · intro x hx
      rw [graphAt?_attached] at hx
      split at hx
      · rename_i hxe
        exact ⟨c, file, member, hc'.finalized, hc'.emitted, hc'.file, by rwa [hsame, hxe.1], hbody⟩
      · exact (h.ledger.graph x hx).mono h.sound hcomp.toRetains
    · exact fun d hd => (h.ledger.constructed d hd).mono h.sound hcomp.toRetains hcomp.graph
  · exact (h.accounted d hd).mono hd hcomp.toRetains hcomp.loads.protected id

end World

lemma constructMethods_compiles {w w' : World} {u : Unit} {methods : List (Member × EntityId)}
    (h : constructMethods source c file methods w = .ok u w') (hw : w.InOrder source) (hc : w.IsEmitted c file)
    (hm : ∀ body ∈ methods, body ∈ w.bodies c file) :
    w'.InOrder source ∧ Compiles w w' ∧
      ∀ body ∈ methods, body.1.hasBody = true → (w'.program.graphAt? body.2).isSome := by
  induction methods generalizing w with
  | nil =>
    cases h; exact ⟨hw, .refl hw.toReady, fun _ hb => nomatch hb⟩
  | cons body rest ih =>
    obtain ⟨member, e⟩ := body
    have hrest : ∀ body ∈ rest, body ∈ w.bodies c file := fun body hb => hm body (.tail _ hb)
    unfold constructMethods at h
    split at h
    · rename_i hbody
      obtain ⟨g, w1, hgraph, h⟩ := bind_ok.1 h
      obtain ⟨_, w2, hattach, h⟩ := bind_ok.1 h
      obtain rfl : w2 = w1.attached e g := modifyProgram_ok.1 hattach
      obtain ⟨⟨hw1, hc1⟩, hl1, ha1⟩ := (methodGraph_honours recording_rules.world member e w ⟨hw, hc⟩).ok hgraph
      have hsel := ((methodGraph_ends file member e hw.toReady).ok hgraph).2.2
      have hadd := compiles_attached hw1.toReady e hsel
      have hsame1 : w1.bodies c file = w.bodies c file :=
        bodies_eq hw.sound (congrArg (·.members) (ha1.decl_eq hc.finalized) :) ha1.continues file
      have hsame2 : (w1.attached e g).bodies c file = w1.bodies c file :=
        bodies_eq hw1.sound (congrArg (·.members) (hadd.decl_eq hc1.finalized) :) hadd.continues file
      have hb := hm _ mem_cons_self
      obtain ⟨hw', hcomp, hall⟩ := ih h (hw1.attached hc1 (hsame1 ▸ hb) hbody hsel) (hc1.mono hadd.toRetains)
        (by rwa [hsame2, hsame1])
      refine ⟨hw', ((Compiles.of_advances hl1 ha1).trans hadd).trans hcomp, fun body hmem hbody' => ?_⟩
      rcases mem_cons.1 hmem with rfl | hmem
      · refine hcomp.graph e ?_
        have hmethod : (w1.program.methodAt? e).isSome := by
          have := of_mem_zip (hsame1 ▸ hb); exact (mem_filter.1 this.2).2
        rw [graphAt?_attached, if_pos ⟨rfl, hmethod⟩]; rfl
      · exact hall body hmem hbody'
    · rename_i hbody
      obtain ⟨hw', hcomp, hall⟩ := ih h hw hc hrest
      refine ⟨hw', hcomp, fun body hmem hbody' => ?_⟩
      rcases mem_cons.1 hmem with rfl | hmem
      · exact absurd hbody' hbody
      · exact hall body hmem hbody'

end JvmGraph
