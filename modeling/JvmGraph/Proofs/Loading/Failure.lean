import JvmGraph.Proofs.ClassFile.Writer
import JvmGraph.Proofs.Loading.Plans

/-!
# After a failure

A session goes on in the world that a failed call has left behind. There a class that was looked up without success is
known by its name, and a class that could not be finalized is marked, so that asking again succeeds and does nothing.
This is the only way in which a lookup can give a class without its file and its class object, or a finalization can
succeed without effect: whatever else happens, complete classes stay complete, and only calls that fail leave marks.
-/

namespace JvmGraph

open Steps Load World List

variable {source : ClassSource} {w w' : World} {c : ClassId}

namespace Session

def Spoiled (s : Session) (c : ClassId) : Prop :=
  ∃ failure ∈ s.failures, ¬ failure.1.program.HasClass c ∧ failure.2.program.HasClass c

def Stuck (s : Session) (c : ClassId) : Prop :=
  ∃ failure ∈ s.failures, c ∉ failure.1.finalizing ∧ c ∈ failure.2.finalizing

structure Account (s : Session) : Prop where
  planned : s.world.Planned
  complete : ∀ c, s.world.HasClass c → s.world.Complete c ∨ s.Spoiled c
  marked : ∀ c ∈ s.world.finalizing, s.Stuck c

variable {s : Session}

lemma Account.call (h : s.Account) (call : Call) : (s.call source call).Account := by
  have hends : Ends (call.run source s.world) _ _ := planning_call call _ h.planned
  unfold Session.call
  split
  · rename_i w hrun
    obtain ⟨hr, ⟨hg, hnew, hf⟩⟩ := hends.ok hrun
    refine ⟨hr, fun c hc => ?_, fun c hc => h.marked c (hf ▸ hc)⟩
    exact (hnew c hc).elim (fun hc => (h.complete c hc).imp (·.mono hg) id) .inl
  · rename_i error w hrun
    rw [hrun] at hends
    obtain ⟨hg, hr⟩ : Fails s.world w := hends
    -- what is new is put down to this call
    have hlast : (s.world, w) ∈ s.failures ++ [(s.world, w)] := by simp
    refine ⟨hr, fun c hc => ?_, fun c hc => ?_⟩
    · by_cases hold : s.world.HasClass c
      · refine (h.complete c hold).imp (·.mono hg) ?_
        rintro ⟨failure, hmem, hspoiled⟩; exact ⟨failure, mem_append_left _ hmem, hspoiled⟩
      · exact .inr ⟨_, hlast, hold, hc⟩
    · by_cases hold : c ∈ s.world.finalizing
      · obtain ⟨failure, hmem, hstuck⟩ := h.marked c hold
        exact ⟨failure, mem_append_left _ hmem, hstuck⟩
      · exact ⟨_, hlast, hold, hc⟩

lemma run_account (calls : List Call) : (run source calls).Account := by
  have hstart : ({} : Session).Account :=
    ⟨planned_empty, fun _ hc => absurd hc (Nat.not_lt_zero _), fun _ hc => nomatch hc⟩
  unfold run
  generalize ({} : Session) = s at hstart ⊢
  induction calls generalizing s with
  | nil => exact hstart
  | cons call rest ih => exact ih (s := s.call source call) (hstart.call call)

end Session

/-- After any calls, failed ones among them: a lookup that succeeds gives a complete class of that name, unless the
class was declared by a call that failed, and a finalization that succeeds leaves the class finalized, unless it was
begun by a call that failed. -/
theorem success_or_failed_before (source : ClassSource) (calls : List Call) :
    (∀ name c w', classNamed source name (Session.run source calls).world = .ok c w' →
      (w'.classAt c).name = name ∧
        (w'.Complete c ∨ w' = (Session.run source calls).world ∧ (Session.run source calls).Spoiled c)) ∧
    ∀ c w', finalizeClass source c (Session.run source calls).world = .ok () w' →
      (w'.classAt c).state = .finalized ∨ w' = (Session.run source calls).world ∧
      (Session.run source calls).Stuck c := by
  have h : (Session.run source calls).Account := Session.run_account calls
  refine ⟨fun name c w' hrun => ?_, fun c w' hrun => ?_⟩
  · rcases (classNamed_enters source name _).ok hrun with ⟨hnamed, rfl⟩ | ⟨-, he⟩
    · obtain ⟨hhas, hname⟩ := h.planned.registered name c hnamed
      exact ⟨hname, (h.complete c hhas).imp id fun hs => ⟨rfl, hs⟩⟩
    · exact ⟨he.called, .inl he.complete⟩
  · have hd : Completes c (Session.run source calls).world w' := (finalizeWithin_completes _ c _ h.planned).ok hrun
    refine hd.isProtected.imp id fun hmem => ?_
    rw [hd.adds.finalizing] at hmem
    cases (finalizeClass_of_protected (.inr hmem)).symm.trans hrun
    exact ⟨rfl, h.marked c hmem⟩

def orphan : ClassSource := .ofDrafts [{ name := "B", super? := some "X" }]

/-- The class is found, and its finalization fails. -/
def orphanSession : Session := .run orphan [.lookup "B", .finalize ⟨0⟩]

theorem success_or_failed_before_orphan :
    (Session.run orphan [.lookup "B"]).world.Complete ⟨0⟩ ∧ orphanSession.Stuck ⟨0⟩ := by
  constructor
  · have hnone : (Session.run orphan [.lookup "B"]).failures = [] := isEmpty_iff.1 (by decide +kernel)
    have h := (success_or_failed_before orphan [.lookup "B"]).1 "B" ⟨0⟩ _ (classNamed_of_named (by decide +kernel))
    refine h.2.resolve_right ?_
    rintro ⟨-, failure, hmem, -⟩
    cases hmem
  · have h := (success_or_failed_before orphan [.lookup "B", .finalize ⟨0⟩]).2 ⟨0⟩ _
      (finalizeClass_of_protected (.inr (by decide +kernel)))
    exact (h.resolve_left (by decide +kernel)).2

/-- The missing class is given by the next lookup, and the next finalization succeeds without effect. -/
theorem orphan_asked_again :
    classNamed orphan "X" orphanSession.world = .ok ⟨1⟩ orphanSession.world ∧
    (orphanSession.world.classAt ⟨1⟩).file?.isNone ∧ (orphanSession.world.classAt ⟨1⟩).classObject?.isNone ∧
    finalizeClass orphan ⟨0⟩ orphanSession.world = .ok () orphanSession.world ∧
    (orphanSession.world.classAt ⟨0⟩).state ≠ .finalized :=
  ⟨classNamed_of_named (by decide +kernel), by decide +kernel, by decide +kernel, finalizeClass_of_protected
    (.inr (by decide +kernel)),
    by decide +kernel⟩

end JvmGraph
