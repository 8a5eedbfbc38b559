import JvmGraph.Proofs.ClassFile.Writer
import JvmGraph.Proofs.Linking.Slots
import JvmGraph.Proofs.Loading.Run

/-!
# Slots in a run

A compilation works through a queue of classes. At every stage of the queue, whether the run goes on, ends or
fails, the dispatch tables of finalized classes obey the laws of slots, and from one stage to the next no slot
changes.
-/

namespace JvmGraph

open Steps World

/-! ## Stages of a run -/

def Steps.endState {ε σ α : Type} : EStateM.Result ε σ α → σ
  | .ok _ s => s
  | .error _ s => s

/-- What compiling `root` has come to after so many steps of the queue. -/
def worldAfter (source : ClassSource) (root : String) (n : Nat) : World := endState (loadFrom source root n {})

variable {source : ClassSource} {root : String} {w : World} {α : Type} {x : Load α}

lemma becomes_endState_bind {β : Type} {f g : α → Load β} (hx : loading.Honours x) (hw : w.Ready)
    (h : ∀ a w', w'.Ready → Program.Becomes (endState (f a w')).program (endState (g a w')).program) :
    Program.Becomes (endState ((x >>= f) w)).program (endState ((x >>= g) w)).program := by
  have hends := hx w hw
  simp only [bind, EStateM.bind]
  cases hr : x w with
  | ok a w' => rw [hr] at hends; exact h a w' hends.1
  | error e w' => exact .refl

lemma grows_endState (hx : loading.Honours x) (hw : w.Ready) : Grows w (endState (x w)) := by
  have h := hx w hw
  cases hr : x w with
  | ok a w' => rw [hr] at h; exact h.2.toGrows
  | error e w' => rwa [hr] at h

lemma becomes_processQueue (n k : Nat) (hw : w.Ready) :
    Program.Becomes (endState (processQueue source n w)).program
    (endState (processQueue source (n + k) w)).program := by
  induction n generalizing w with
  | zero => exact (grows_endState (honours_processQueue (0 + k)) hw).keeps.program.becomes
  | succ n ih =>
    rw [Nat.succ_add]
    refine becomes_endState_bind honours_dequeue hw fun c? w1 hw1 => ?_
    cases c? with
    | none => exact .refl
    | some c => exact becomes_endState_bind (honours_processClass c) hw1 fun _ w2 hw2 => ih hw2

lemma worldAfter_becomes (source : ClassSource) (root : String) {n m : Nat} (h : n ≤ m) :
    Program.Becomes (worldAfter source root n).program (worldAfter source root m).program := by
  obtain ⟨k, rfl⟩ := Nat.exists_eq_add_of_le h
  refine becomes_endState_bind ((loading_rules source).classNamed _) ready_empty fun classClass _ h1 => ?_
  refine becomes_endState_bind (honours_enqueue _) h1 fun _ _ h2 => ?_
  refine becomes_endState_bind ((loading_rules source).classNamed _) h2 fun rootId _ h3 => ?_
  refine becomes_endState_bind (honours_enqueue _) h3 fun _ w h4 => ?_
  have hlast : ∀ fuel, (endState ((do processQueue source fuel; return rootId : Load ClassId) w)) =
      endState (processQueue source fuel w) := by
    intro fuel; simp only [bind, EStateM.bind]; cases processQueue source fuel w <;> rfl
  rw [hlast, hlast]
  exact becomes_processQueue n k h4

lemma worldAfter_fine (n : Nat) : (worldAfter source root n).Fine :=
  (grows_endState (honours_loadFrom root n) ready_empty).fine

/-! ## The laws of slots in a run -/

lemma World.Fine.orderly {c : ClassId} (hw : w.Fine) (hc : w.Finalized c)
    (h : w.program.Regular c) : w.program.Orderly c :=
  ⟨hw c hc h.grounded, h.classes, h.interfaces⟩

/-- At every stage of a run, the dispatch tables of all finalized classes obey the laws of slots. When the run goes
on, every slot stays what it is, at all times between the two stages. -/
theorem slots_obey_laws (source : ClassSource) (root : String) (n m : Nat) (h : n ≤ m) :
    (∀ c, ((worldAfter source root n).classAt c).state = .finalized → (worldAfter source root n).program.Regular c →
      (worldAfter source root n).program.SlotLaws c) ∧
    Program.SlotsKept (worldAfter source root n).program (worldAfter source root m).program ∧
    ∃ history : Program.History (worldAfter source root n).program (worldAfter source root m).program,
      history.states.Pairwise Program.SlotsKept := by
  have hbecomes := worldAfter_becomes source root h
  obtain ⟨history⟩ := hbecomes.history
  exact ⟨fun c hc hr => ((worldAfter_fine n).orderly hc hr).slotLaws, fun _ _ => hbecomes.slotAt?_eq,
    history, history.slotsKept⟩

def overriding : ClassSource :=
  .ofDrafts [
    { name := "A", methods := [⟨1, "m", "()V", some [0xb1]⟩, ⟨1, "n", "()V", some [0xb1]⟩] },
    { name := "I", flags := 0x601, methods := [⟨0x401, "k", "()V", none⟩] },
    { name := "B", super? := some "A", interfaces := ["I"],
      methods := [⟨1, "m", "()V", some [0xb1]⟩, ⟨1, "k", "()V", some [0xb1]⟩] }]

theorem slots_obey_laws_overriding :
    ((worldAfter overriding "B" 2).classAt ⟨1⟩).state = .finalized ∧
    (worldAfter overriding "B" 2).program.Regular ⟨1⟩ ∧
    (worldAfter overriding "B" 2).program.SlotLaws ⟨1⟩ ∧
    Program.SlotsKept (worldAfter overriding "B" 2).program (worldAfter overriding "B" 6).program := by
  have hstate : ((worldAfter overriding "B" 2).classAt ⟨1⟩).state = .finalized := by decide +kernel
  have hregular : (worldAfter overriding "B" 2).program.Regular ⟨1⟩ :=
    Program.regular_of_ranked [1, 3, 0, 2, 2] (by decide +kernel) (by decide +kernel)
  obtain ⟨hlaws, hkept, -⟩ := slots_obey_laws overriding "B" 2 6 (by decide)
  exact ⟨hstate, hregular, hlaws ⟨1⟩ hstate hregular, hkept⟩

def listingClass : ClassSource :=
  .ofDrafts [
    { name := "A", methods := [⟨1, "m", "()V", some [0xb1]⟩, ⟨1, "n", "()V", some [0xb1]⟩] },
    { name := "D", interfaces := ["A"], methods := [⟨1, "m", "()V", some [0xb1]⟩, ⟨1, "n", "()V", some [0xb1]⟩] }]

def circle : ClassSource :=
  .ofDrafts [
    { name := "X", super? := some "Y", isExtern := true },
    { name := "Y", super? := some "X", isExtern := true,
      methods := [⟨1, "m", "()V", some [0xb1]⟩, ⟨1, "n", "()V", some [0xb1]⟩] },
    { name := "R", methods := [⟨9, "f", "()V", some [0x01, 0xc1, 0, 2, 0x57, 0xb1]⟩],
      constants := [.ascii "X", .classRef 1] }]

/-- With a class among the interfaces of a class, or in a circle of superclasses, methods have slots that the table does
not have. -/
theorem slots_break_laws :
    (((worldAfter listingClass "D" 9).classAt ⟨1⟩).state = .finalized ∧
      (∀ a ∈ (worldAfter listingClass "D" 9).program.ancestry ⟨1⟩,
        ((worldAfter listingClass "D" 9).classAt a).isInterface = false) ∧
      ¬ (worldAfter listingClass "D" 9).program.SlotLaws ⟨1⟩) ∧
    (((worldAfter circle "R" 9).classAt ⟨4⟩).state = .finalized ∧
      (∀ a ∈ (worldAfter circle "R" 9).program.ancestry ⟨4⟩,
      ((worldAfter circle "R" 9).classAt a).isInterface = false) ∧
      ¬ (worldAfter circle "R" 9).program.SlotLaws ⟨4⟩) := by
  refine ⟨⟨by decide +kernel, by decide +kernel, fun h => ?_⟩, by decide +kernel, by decide +kernel, fun h => ?_⟩
  · exact absurd (h.headerSlots_lt (by decide +kernel)) (by decide +kernel)
  · exact absurd (h.headerSlots_lt (by decide +kernel)) (by decide +kernel)

end JvmGraph
