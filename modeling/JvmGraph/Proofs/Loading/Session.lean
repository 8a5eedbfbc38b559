import JvmGraph.Proofs.Loading.Run

/-!
# Sessions

A session calls the loader again and again in one world: it looks up classes, finalizes them, resolves their constants
and compiles their methods, in any order. A call that fails leaves behind what it has done, and the session goes on.
As long as no call fails, the world stays in order.
-/

namespace JvmGraph

open Steps Load World

variable {calls : List Call} {c : ClassId} {w : World}

inductive Call where
  | lookup (name : String)
  | finalize (c : ClassId)
  | classRef (c : ClassId) (index : UInt16)
  | member (c : ClassId) (index : UInt16) (kind : RefKind)
  | construct (c : ClassId)

def Call.run (source : ClassSource) : Call → Load Unit
  | lookup name => do
    let _ ← classNamed source name
  | finalize c => finalizeClass source c
  | classRef c index => do
    let _ ← JvmGraph.classRef source c (← classFileOf c) index
  | member c index kind => do
    let _ ← memberEntity source c (← classFileOf c) index kind
  | construct c => constructClass source c

structure Session where
  world : World := {}
  /-- The worlds before and after each call that has failed. -/
  failures : List (World × World) := []

namespace Session

def call (source : ClassSource) (s : Session) (call : Call) : Session :=
  match call.run source s.world with
  | .ok _ w => { s with world := w }
  | .error _ w => { world := w, failures := s.failures ++ [(s.world, w)] }

def run (source : ClassSource) (calls : List Call) : Session := calls.foldl (Session.call source) {}

end Session

variable {source : ClassSource}

lemma classNamed_of_named {name : String} (h : w.named? name = some c) : classNamed source name w = .ok c w :=
  get_bind_ok.2 (by rw [h]; rfl)

lemma finalizeClass_of_protected (h : w.Protected c) : finalizeClass source c w = .ok () w := by
  refine get_bind_ok.2 (get_bind_ok.2 ?_)
  rw [if_pos (by simpa [Protected] using h)]
  rfl

lemma LoadRules.call {C : Contract World} (R : LoadRules source C)
    (hconstruct : ∀ c, C.Honours (constructClass source c))
    (call : Call) : C.Honours (call.run source) := by
  cases call with
  | lookup name => exact (R.classNamed name).bind fun _ => .pure
  | finalize c => exact R.finalizeClass c
  | classRef c index => exact (honours_classFileOf c).bind fun file => ((R.refs file).classRef index).bind fun _ =>
    .pure
  | member c index kind =>
    exact (honours_classFileOf c).bind fun file => ((R.refs file).memberEntity index kind).bind fun _ => .pure
  | construct c => exact hconstruct c

lemma honours_call (call : Call) : loading.Honours (call.run source) :=
    (loading_rules source).call honours_constructClass call

namespace Session

variable {s : Session} {P : World → Prop}

lemma ok_of_call {c : Call} (h : (s.call source c).failures = []) :
    s.failures = [] ∧ c.run source s.world = .ok () (s.call source c).world := by
  unfold call at h ⊢
  split
  · rename_i hrun; rw [hrun] at h; exact ⟨h, hrun⟩
  · rename_i hrun
    rw [hrun] at h; exact absurd h (List.append_ne_nil_of_right_ne_nil _ (List.cons_ne_nil _ _))

lemma induct_from (hstart : s.failures = [] → s.world.Ready ∧ P s.world)
    (hstep : ∀ (c : Call) (w w' : World), w.Ready → P w → c.run source w = .ok () w' → P w') (calls : List Call)
    (h : (calls.foldl (Session.call source) s).failures = []) :
    (calls.foldl (Session.call source) s).world.Ready ∧ P (calls.foldl (Session.call source) s).world := by
  induction calls generalizing s with
  | nil => exact hstart h
  | cons c rest ih =>
    refine ih (s := s.call source c) (fun hc => ?_) h
    obtain ⟨hs, hrun⟩ := ok_of_call hc
    obtain ⟨hr, hp⟩ := hstart hs; exact ⟨((honours_call c _ hr).ok hrun).1, hstep c _ _ hr hp hrun⟩

lemma induct (hempty : P {})
    (hstep : ∀ (c : Call) (w w' : World), w.Ready → P w → c.run source w = .ok () w' → P w') (calls : List Call)
    (h : (run source calls).failures = []) : (run source calls).world.Ready ∧ P (run source calls).world :=
  induct_from (fun _ => ⟨ready_empty, hempty⟩) hstep calls h

lemma ready (h : (run source calls).failures = []) : (run source calls).world.Ready :=
  (induct (P := fun _ => True) trivial (fun _ _ _ _ _ _ => trivial) calls h).1

lemma finalized {later : List Call} (h : (run source (calls ++ .finalize c :: later)).failures = []) :
    ((run source (calls ++ .finalize c :: later)).world.classAt c).state = .finalized := by
  have hrun : run source (calls ++ .finalize c :: later) =
      later.foldl (Session.call source) ((run source calls).call source (.finalize c)) := List.foldl_append
  rw [hrun] at h ⊢
  refine (induct_from (P := fun w => w.Finalized c) (fun hs => ?_)
    (fun call w w' hr hc hok => ?_) later h).2
  · obtain ⟨hcalls, hok⟩ := ok_of_call hs
    have hr := ready hcalls
    obtain ⟨hl, hdone, -⟩ := (finalizeClass_finalizes source _ c hr.sound hr.fine (hr.pending c)).ok hok
    exact ⟨hl.toLoads.ready hr, hdone.resolve_right (by simp [hr.idle])⟩
  · exact ((honours_call call w hr).ok hok).2.state_eq hc

lemma covered (h : (run source calls).failures = []) : (run source calls).world.Covered := by
  refine (induct (fun c hc => ?_) (fun call w w' hr hv hok => ?_) calls h).2
  · cases hc
  · exact ((honours_call call w hr).ok hok).2.covered hv

end Session

end JvmGraph
