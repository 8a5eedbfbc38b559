import JvmGraph.Proofs.Body.Rules

/-!
# Resolution keeps account
Resolving the constants of an emitted class finalizes the classes that they name. Only the element class of an array
type is looked up and left as it is, so a class that is loaded and not finalized when no finalization is underway
waits in the queue or is such an element class.
-/

namespace JvmGraph

open Steps Load World

namespace World

variable {w w' : World} {c : ClassId} {source : ClassSource} {file : ClassFile}

structure InOrder (source : ClassSource) (w : World) : Prop extends Ready w where
  ledger : w.Ledger source
  accounted : ∀ d, w.HasClass d → w.Accounted d

structure IsEmitted (c : ClassId) (file : ClassFile) (w : World) : Prop where
  finalized : (w.classAt c).state = .finalized
  emitted : (w.classAt c).isExtern = false
  file : (w.classAt c).file? = some file

lemma IsEmitted.mono (h : w.IsEmitted c file) (hr : Retains w w') : w'.IsEmitted c file := by
  have hdecl := hr.decl_eq h.finalized
  exact ⟨hr.state_eq h.finalized, (congrArg (·.isExtern) hdecl :).trans h.emitted,
    (congrArg (·.file?) hdecl :).trans h.file⟩

namespace InOrder

lemma step (h : w.InOrder source) (hl : Loads w w') (ha : Advances w w') (L : w'.Ledger source)
    (hnew : ∀ d, w'.HasClass d → w.HasClass d ∨ w'.Accounted d) : w'.InOrder source := by
  refine ⟨hl.ready h.toReady, L, fun d hd => ?_⟩
  rcases hnew d hd with hd | hd
  · exact (h.accounted d hd).mono hd ha.toRetains hl.protected ha.subset
  · exact hd

lemma prepares (h : w.InOrder source) (hp : Prepares source w w')
    (hnew : ∀ d, w'.HasClass d → w.HasClass d ∨ w'.Accounted d) : w'.InOrder source :=
  h.step hp.toLoads hp.advances (hp.ledger h.ledger) hnew

lemma supplies (h : w.InOrder source) {im : Image} (hs : w.image.Supplies (fun _ => False) im) :
    ({ w with image := im } : World).InOrder source ∧ Advances w { w with image := im } := by
  have hl : Loads w { w with image := im } := .supplies h.sound h.fine hs
  have he : w.program.Enlarges im.program := hs.enlarges
  have ha : Advances w { w with image := im } :=
    ⟨⟨hl.keeps.mono fun _ => .inl⟩, .of_eq rfl rfl, .of_idle he.toIdle⟩
  have hclass : ∀ d, ({ w with image := im } : World).classAt d = w.classAt d := hs.classAt
  have hsize : ({ w with image := im } : World).program.classes.size = w.program.classes.size :=
    congrArg (·.size) hs.classes
  refine ⟨h.step hl ha ?_ fun d hd => .inl ((hasClass_iff hsize).1 hd), ha⟩
  refine h.ledger.advance h.sound ha (fun _ => hl.protected)
    (fun d => .inl ⟨(hasClass_iff hsize).1, by rw [hclass], fun e he _ => ?_⟩)
    fun e he => (hs.new e he).imp id fun he => he.elim (fun h => .shared h) False.elim
  · exact congrArg (·.decl) (hs.entityAt e he)

section Note

variable {f : ClassInfo → ClassInfo} (hf : ∀ info, (f info).decl = info.decl)

include hf

lemma retains_note (h : w.InOrder source) : Retains w (w.modifyClass c f) :=
  ⟨(Loads.note h.toReady hf).keeps.mono fun _ => .inl⟩

lemma mark (h : w.InOrder source)
    (hdone : ∀ d, ((w.modifyClass c f).classAt d).constructed = true → (w.modifyClass c f).Constructed d) :
    (w.modifyClass c f).InOrder source := by
  have hl : Loads w (w.modifyClass c f) := .note h.toReady hf
  have hr : Retains w (w.modifyClass c f) := h.retains_note hf
  have hdecl : ∀ d, ((w.modifyClass c f).classAt d).decl = (w.classAt d).decl :=
    fun _ => Program.modifyClass_congr (p := w.program) (·.decl) (hf _)
  have hsize : (w.modifyClass c f).program.classes.size = w.program.classes.size := Program.size_modifyClass ..
  refine ⟨hl.ready h.toReady, ?_, fun d hd => ?_⟩
  · refine h.ledger.step h.sound hr (fun d => hl.protected) (fun d hd => hd)
      (fun d => .inl ⟨(hasClass_iff hsize).1, hdecl d, fun _ _ _ => rfl⟩) (fun e he => .inl he)
      (fun e hg => (h.ledger.graph e hg).mono h.sound hr) hdone
  · rw [hasClass_iff hsize] at hd; exact (h.accounted d hd).mono hd hr hl.protected id

lemma note (h : w.InOrder source) (hdone : ∀ info, (f info).constructed = info.constructed) :
    (w.modifyClass c f).InOrder source ∧ Advances w (w.modifyClass c f) := by
  have hsame : ∀ d, ((w.modifyClass c f).classAt d).constructed = (w.classAt d).constructed :=
    fun _ => Program.modifyClass_congr (p := w.program) (·.constructed) (hdone _)
  have hr : Retains w (w.modifyClass c f) := h.retains_note hf
  refine ⟨h.mark hf fun d hd => ?_, hr, .of_eq rfl rfl, ⟨fun _ => rfl, hsame⟩⟩
  rw [hsame] at hd
  exact (h.ledger.constructed d hd).mono h.sound hr fun _ hg => hg

end Note

end InOrder

def recording (source : ClassSource) (c : ClassId) (file : ClassFile) : Contract World where
  inv w := w.InOrder source ∧ w.IsEmitted c file
  does w w' := Loads w w' ∧ Advances w w'
  fails _ _ := True
  refl h := ⟨.refl h.1.sound h.1.fine, .refl _⟩
  trans h h' := ⟨h.1.trans h'.1, h.2.trans h'.2⟩
  fails_refl _ := trivial
  fails_trans _ _ := trivial

end World

variable {source : ClassSource} {c : ClassId} {file : ClassFile} {α : Type}

lemma recording_of_ok {x : Load α} (hx : ∀ {w w' a}, x w = .ok a w' → w.InOrder source → w.IsEmitted c file →
      w'.InOrder source ∧ Loads w w' ∧ World.Advances w w') : (recording source c file).Honours x := by
  intro w hw
  cases h : x w with
  | error => trivial
  | ok a w' =>
    obtain ⟨hin, hl, ha⟩ := hx h hw.1 hw.2; exact ⟨⟨hin, hw.2.mono ha.toRetains⟩, hl, ha⟩

lemma recording_onImage {f : Image → α × Image}
    (hf : ∀ im : Image, im.Supplies (fun _ => False) (f im).2) : (recording source c file).Honours (onImage f) := by
  refine recording_of_ok fun {w w' a} h hw _ => ?_
  cases h
  obtain ⟨hin, ha⟩ := hw.supplies (hf w.image)
  exact ⟨hin, .supplies hw.sound hw.fine (hf w.image), ha⟩

lemma recording_note {d : ClassId} {f : ClassInfo → ClassInfo} (hf : ∀ info, (f info).decl = info.decl)
    (hdone : ∀ info, (f info).constructed = info.constructed) :
    (recording source c file).Honours (Load.modifyClass d f) := by
  refine recording_of_ok fun {w w' a} h hw _ => ?_
  cases h
  obtain ⟨hin, ha⟩ := hw.note hf hdone
  exact ⟨hin, .note hw.toReady hf, ha⟩

lemma recording_finalize (name : String) : (recording source c file).Honours (do
    let found ← classNamed source name
    finalizeClass source found
    return found) := by
  refine recording_of_ok fun {w w' a} h hw _ => ?_
  obtain ⟨found, w1, hfound, h⟩ := bind_ok.1 h
  obtain ⟨_, w2, hfin, h⟩ := bind_ok.1 h
  obtain ⟨-, rfl⟩ := pure_ok.1 h
  obtain ⟨hp1, -, -, hor⟩ := (classNamed_prepares source name hw.sound hw.fine).ok hfound
  have hr1 : w1.Ready := hp1.ready hw.toReady
  obtain ⟨hp2, hdone, hnew⟩ := (finalizeClass_finalizes source w1 found hr1.sound hr1.fine (hr1.pending found)).ok hfin
  have hprotected : w2.Protected found := hdone.imp id fun h => by rwa [hp2.finalizing]
  have hp := hp1.trans hp2
  refine ⟨hw.prepares hp fun d hd => ?_, hp.toLoads, hp.advances⟩
  rcases hnew d hd with hd | hd
  · exact (hor d hd).imp id fun (hds : d = found) => .inl (hds ▸ hprotected)
  · exact .inr (.inl hd)

lemma recording_found (name : String) {f : ClassId → Load α}
    (hf : ∀ found, (recording source c file).Honours (f found)) : (recording source c file).Honours (do
      let found ← classNamed source name
      finalizeClass source found
      f found) := by
  have h := (recording_finalize name : (recording source c file).Honours _).bind hf
  simpa only [bind_assoc, pure_bind] using h

lemma recording_element {name : String} (hn : file.NamesElement name) :
    (recording source c file).Honours (classNamed source name) := by
  refine recording_of_ok fun {w w' found} h hw hc => ?_
  obtain ⟨hp, -, hname, hor⟩ := (classNamed_prepares source name hw.sound hw.fine).ok h
  refine ⟨hw.prepares hp fun d hd => ?_, hp.toLoads, hp.advances⟩
  refine (hor d hd).imp_right ?_
  rintro rfl
  have hc' := hc.mono hp.advances.toRetains
  exact .inr (.inr ⟨c, file, hc'.finalized, hc'.emitted, hc'.file, hname ▸ hn⟩)

lemma recording_rules : RefRules source c file (recording source c file) where
  image := recording_onImage
  note := recording_note
  element _ := recording_element
  found := recording_found

end JvmGraph
