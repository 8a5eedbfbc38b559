import JvmGraph.MethodBody.Compute
import JvmGraph.Proofs.Body.Frame

/-!
# The operand stack as a list

Within a block the operand stack of a frame is a list of slots, in which a `long` or `double` is a placeholder below
its value. Slots are variables that are never cleared: what was popped stays in its variable. So a frame carries a list
by the variables below its depth, and no others. One step on the frame does what the step on the list does, or fails
with it (`StackOp.follows`), and so does a run of steps.
-/

namespace JvmGraph

open List JvmGraph.Graph Ssa JvmGraph.Frame Builder

variable {mode : Mode} {slots st' : List Slot}

inductive Slot where
  | value (v : NodeId)
  | low (mode : Mode)
  deriving DecidableEq

/-- What a stack shuffle makes of the slots, the top one first, if there are enough of them. -/
def Shuffle.moved {α : Type} : Bool → Shuffle → List α → Option (List α)
  | false, .pop, _ :: st => some st
  | true, .pop, _ :: _ :: st => some st
  | false, .dup, a :: st => some (a :: a :: st)
  | true, .dup, a :: b :: st => some (a :: b :: a :: b :: st)
  | false, .dupX1, a :: b :: st => some (a :: b :: a :: st)
  | true, .dupX1, a :: b :: c :: st => some (a :: b :: c :: a :: b :: st)
  | false, .dupX2, a :: b :: c :: st => some (a :: b :: c :: a :: st)
  | true, .dupX2, a :: b :: c :: d :: st => some (a :: b :: c :: d :: a :: b :: st)
  | _, .swap, a :: b :: st => some (b :: a :: st)
  | _, _, _ => none

inductive StackOp where
  | push (v : NodeId)
  | pop (mode : Mode)
  | pushSlot (v : NodeId)
  | popSlot
  | shuffle (wide : Bool) (how : Shuffle)

namespace Frame

abbrev Outcome := Except Error (List Slot × List Slot)

/-- A node that is no placeholder and was not replaced. -/
def IsValue (f : Frame) (v : NodeId) : Prop := (f.graph.node v).op ≠ .bad ∧ (f.graph.node v).op ≠ .forward

def slotOf (f : Frame) (v : NodeId) : Slot := if (f.graph.node v).op = .bad then .low (f.modeOf v) else .value v

def slotsOf (f : Frame) (v : NodeId) : List Slot :=
  .value v :: if (f.modeOf v).isTwoSlot then [.low (f.modeOf v)] else []

def limited (f : Frame) (st : List Slot) : Outcome :=
  if f.maxStack.toNat < st.length then .error (.stackOverflow f.pc) else .ok ([], st)

def taken (f : Frame) (k : Nat) (st : List Slot) : Outcome :=
  if st.length < k then .error (.stackUnderflow f.pc) else .ok (st.take k, st.drop k)

/-- Whether a slot may be the lower half of a two-slot value. A Phi counts as one, since it may turn out to be. -/
def passes (f : Frame) : Slot → Bool
  | .value v => (f.graph.node v).op = .phi
  | .low _ => true

/-- What a pop in a mode takes off, whichever slots it meets: the width of the value on top is not compared with that of
the mode. -/
def popped (f : Frame) (mode : Mode) : List Slot → Outcome
  | [] => .error (.stackUnderflow f.pc)
  | top :: st =>
    if mode.isTwoSlot then
      match st with
      | [] => .error (.stackUnderflow f.pc)
      | below :: st => if f.passes below then .ok ([top], st) else .error (.slotArity f.pc)
    else
      match top with
      | .value _ => .ok ([top], st)
      | .low _ => .error (.slotArity f.pc)

end Frame

namespace StackOp

def run : StackOp → Frame.Step (List NodeId)
  | push v => do
    Frame.push v
    return []
  | pop mode => return [← Frame.pop mode]
  | pushSlot v => do
    Frame.pushSlot v
    return []
  | popSlot => return [← Frame.popSlot]
  | shuffle wide how => do
    Frame.shuffle wide how
    return []

def runAll : List StackOp → Frame.Step (List NodeId)
  | [] => return []
  | op :: ops => return (← op.run) ++ (← runAll ops)

def apply (f : Frame) : StackOp → List Slot → Frame.Outcome
  | push v, st => f.limited (f.slotsOf v ++ st)
  | pop mode, st => do
    let (slots, st) ← f.taken mode.width st
    return (slots.take 1, st)
  | pushSlot v, st => f.limited (f.slotOf v :: st)
  | popSlot, st => f.taken 1 st
  | shuffle wide how, st => (how.moved wide st).elim (.error (.stackUnderflow f.pc)) f.limited

def applyAll (f : Frame) : List StackOp → List Slot → Frame.Outcome
  | [], st => .ok ([], st)
  | op :: ops, st => do
    let (slots, st) ← op.apply f st
    let (more, st) ← applyAll f ops st
    return (slots ++ more, st)

/-- Nodes exist, values are no placeholders, and a value is popped in its mode. -/
def Proper (f : Frame) : StackOp → List Slot → Prop
  | push v, _ => f.IsValue v
  | pop mode, st => st.length < mode.width ∨ ∃ v rest, st = f.slotsOf v ++ rest ∧ f.modeOf v = mode
  | pushSlot v, _ => v.index < f.graph.nodes.size ∧ (f.graph.node v).op ≠ .forward
  | popSlot, _ => True
  | shuffle _ _, _ => True

def ProperAll (f : Frame) : List StackOp → List Slot → Prop
  | [], _ => True
  | op :: ops, st => op.Proper f st ∧ ∀ slots st', op.apply f st = .ok (slots, st') → ProperAll f ops st'

end StackOp

namespace Frame

open Steps

/-- The current block has a place for each stack slot, and the placeholders are such. -/
structure Ready (f : Frame) : Prop where
  current_lt : f.builder.current.index < f.builder.states.size
  room : f.maxStack.toNat ≤ (f.builder.state f.builder.current).definitions.size
  bads : ∀ mode n, f.graph.bads.lookup mode = some n →
    n.index < f.graph.nodes.size ∧ f.graph.node n = ⟨.bad, mode, Graph.startBlock, []⟩

def Holds (f : Frame) : Slot → NodeId → Prop
  | .value v, n => n = v ∧ f.IsValue v
  | .low mode, n => n.index < f.graph.nodes.size ∧ (f.graph.node n).op = .bad ∧ f.modeOf n = mode

structure Carries (f : Frame) (st : List Slot) : Prop extends Ready f where
  depth : f.depth = st.length
  fits : st.length ≤ f.maxStack.toNat
  slots : ∀ s below, s :: below <:+ st → ∃ n, f.slot below.length = some n ∧ f.Holds s n

/-- The frames differ in their stack only: nodes were added, and no local has another value. -/
structure Beside (f f' : Frame) : Prop extends Graph.Extends f.graph f'.graph where
  maxStack : f'.maxStack = f.maxStack
  pc : f'.pc = f.pc
  locals : ∀ x, f.maxStack.toNat ≤ x → f'.slot x = f.slot x

/-- What happens to the frame is what happens to the list: the same slots are taken off and left, or it fails in the
same way, and in no case is a local changed. -/
def Follows (f : Frame) (r : EStateM.Result Error Frame (List NodeId)) : Outcome → Prop
  | .ok (slots, st) => ∃ ns f', r = .ok ns f' ∧ Carries f' st ∧ Beside f f' ∧ List.Forall₂ f'.Holds slots ns
  | .error e => ∃ f', r = .error e f' ∧ Beside f f'

variable {f f' f'' : Frame} {st : List Slot} {s : Slot} {n v : NodeId} {e : Outcome}

lemma length_slotsOf (f : Frame) (v : NodeId) : (f.slotsOf v).length = (f.modeOf v).width := by
  unfold slotsOf Mode.width
  split <;> rfl

lemma passes_congr (h : f'.graph = f.graph) (s : Slot) : f'.passes s = f.passes s := by
  cases s <;> simp [passes, h]

namespace Beside

lemma withDepth (f : Frame) (d : Nat) : Beside f { f with depth := d } :=
  ⟨.refl _, rfl, rfl, fun _ _ => rfl⟩

lemma refl (f : Frame) : Beside f f := .withDepth f f.depth

lemma trans (B : Beside f f') (B' : Beside f' f'') : Beside f f'' where
  maxStack := B'.maxStack.trans B.maxStack
  pc := B'.pc.trans B.pc
  toExtends := B.toExtends.trans B'.toExtends
  locals x hx := (B'.locals x (by rwa [B.maxStack])).trans (B.locals x hx)

lemma limited (B : Beside f f') (st : List Slot) : f'.limited st = f.limited st := by
  rw [Frame.limited, Frame.limited, B.maxStack, B.pc]

lemma taken (B : Beside f f') (k : Nat) (st : List Slot) : f'.taken k st = f.taken k st := by
  rw [Frame.taken, Frame.taken, B.pc]

end Beside

lemma Follows.after {r : EStateM.Result Error Frame (List NodeId)} (h : f'.Follows r e) (B : Beside f f') :
    f.Follows r e := by
  cases e with
  | ok a =>
    obtain ⟨ns, f'', hr, C, B', hall⟩ := h; exact ⟨ns, f'', hr, C, B.trans B', hall⟩
  | error e =>
    obtain ⟨f'', hr, B'⟩ := h; exact ⟨f'', hr, B.trans B'⟩

lemma Follows.bind {x : Step (List NodeId)} {k : List NodeId → Step (List NodeId)}
    {next : List Slot × List Slot → Outcome} (h : f.Follows (x f) e)
    (hk : ∀ ns f' slots st, e = .ok (slots, st) → Carries f' st → Beside f f' → Forall₂ f'.Holds slots ns →
      f'.Follows (k ns f') (next (slots, st))) : f.Follows ((x >>= k) f) (e >>= next) := by
  cases e with
  | ok a =>
    obtain ⟨ns, f', hx, C, B, hall⟩ := h
    rw [bind_of_ok hx]; exact (hk ns f' a.1 a.2 rfl C B hall).after B
  | error e =>
    obtain ⟨f', hx, B⟩ := h; exact ⟨f', bind_of_error hx, B⟩

namespace Holds

lemma lt (h : f.Holds s n) : f.graph.Has n := by
  cases s with
  | value v => exact h.1 ▸ lt_of_op h.2.1
  | low mode => exact h.1

lemma later (h : f.Holds s n) (B : Beside f f') : f'.Holds s n := by
  have hnode := B.keep n h.lt
  cases s with
  | value v =>
    obtain ⟨rfl, hv⟩ := h; exact ⟨rfl, by rwa [IsValue, hnode]⟩
  | low mode =>
    obtain ⟨hlt, hop, hmode⟩ := h
    exact ⟨lt_of_lt_of_le hlt B.size_le, by rwa [hnode], by rwa [modeOf, hnode]⟩

lemma slotOf (h : f.graph.Has v) (hv : (f.graph.node v).op ≠ .forward) : f.Holds (f.slotOf v) v := by
  unfold Frame.slotOf
  split
  · exact ⟨h, ‹_›, rfl⟩
  · exact ⟨rfl, ‹_›, hv⟩

lemma resolve_eq (h : f.Holds s n) : f.graph.resolve n = n := by
  refine follow_of_none (target?_eq_none_of_op ?_) _
  cases s with
  | value v => exact h.1 ▸ h.2.2
  | low mode => simp [h.2.1]

lemma isPlaceholder (h : f.Holds s n) : f.isPlaceholder n = f.passes s := by
  rw [Frame.isPlaceholder, h.resolve_eq]
  cases s with
  | value v => simp [passes, ← h.1, show (f.graph.node n).op ≠ .bad from h.1 ▸ h.2.1]
  | low mode => simp [passes, h.2.1]

lemma isBad (h : f.Holds s n) : f.graph.isBad n = decide ((f.graph.node n).op = .bad) := by
  rw [Graph.isBad, h.resolve_eq]

lemma getValue (hs : f.Holds s n) (mode : Mode) {x : Nat} (h : f.slot x = some n) :
    build (getValue x mode) f = .ok n f := by
  refine build_ok.2 ⟨f.builder, ?_, rfl⟩
  show readAt _ x f.builder.current mode f.builder = _
  rw [readFuel, readAt, get_bind]
  simp only [show f.builder.definition? f.builder.current x = some n from h]
  rw [show f.builder.graph.resolve n = n from hs.resolve_eq]
  rfl

end Holds

lemma Ready.carries_nil (R : Ready f) (h : f.depth = 0) : Carries f [] :=
  ⟨R, h, Nat.zero_le _, fun _ _ h => absurd (suffix_nil.1 h) (cons_ne_nil _ _)⟩

namespace Carries

variable {ss : List Slot}

lemma bad (C : Carries f st) (h : build (Ssa.onGraph fun g => g.bad mode) f = .ok n f') :
    Carries f' st ∧ Beside f f' ∧ f'.Holds (.low mode) n := by
  rcases bad_ok h with ⟨hb, rfl⟩ | ⟨rfl, rfl⟩
  · obtain ⟨hlt, hn⟩ := C.bads mode n hb; exact ⟨C, .refl _, hlt, by rw [hn], by rw [modeOf, hn]⟩
  · have hsize := f.size_withBad mode
    have B : Beside f (f.withBad mode) :=
      ⟨(Graph.Extends.add f.graph _ .bad mode []).trans (.of_nodes rfl), rfl, rfl, fun _ _ => rfl⟩
    refine ⟨⟨⟨C.current_lt, C.room, bads_withBad C.bads⟩, C.depth, C.fits, fun s below hs => ?_⟩, B, ?_, ?_, ?_⟩
    · obtain ⟨n, hn, hs⟩ := C.slots s below hs; exact ⟨n, hn, hs.later B⟩
    · exact lt_of_lt_of_eq (Nat.lt_succ_self _) hsize.symm
    · rw [node_withBad, if_pos rfl]
    · rw [modeOf, node_withBad, if_pos rfl]

lemma pushSlot (C : Carries f st) (h : f.Holds s v) (hroom : st.length < f.maxStack.toNat) :
    ∃ f', pushSlot v f = .ok () f' ∧ Carries f' (s :: st) ∧ Beside f f' := by
  have hd := C.depth
  obtain ⟨f', hf⟩ :
    ∃ f', f' = { f with builder := f.builder.define f.builder.current f.depth v, depth := f.depth + 1 } := ⟨_, rfl⟩
  have hslot : ∀ y, f'.slot y = if y = st.length then some v else f.slot y := by
    intro y
    have := f.builder.definition?_define v C.current_lt (lt_of_lt_of_le hroom C.room) f.builder.current y
    rw [hf, hd]; simpa only [true_and] using! this
  have hsize : (f'.builder.state f'.builder.current).definitions.size =
    (f.builder.state f.builder.current).definitions.size := by
    rw [hf]
    show ((f.builder.define f.builder.current f.depth v).state f.builder.current).definitions.size = _
    rw [state_define]
    split <;> simp [BlockState.define]
  have B : Beside f f' := by
    refine ⟨by rw [hf]; exact .refl _, by rw [hf], by rw [hf], fun x hx => ?_⟩
    rw [hslot, if_neg (by omega)]
  have R : Ready f' := by
    refine ⟨?_, by rw [hsize, B.maxStack]; exact C.room, by rw [hf]; exact C.bads⟩
    rw [hf]; exact lt_of_lt_of_eq C.current_lt (f.builder.size_define _ _ v).symm
  refine ⟨f', by rw [hf]; exact pushSlot_of_lt (hd ▸ hroom) v,
    ⟨R, by rw [hf, length_cons, ← hd], by rwa [B.maxStack], ?_⟩, B⟩
  intro s' below hsuffix
  rw [hslot]
  rcases suffix_cons_iff.1 hsuffix with heq | hsuffix
  · cases heq
    exact ⟨v, if_pos rfl, h.later B⟩
  · obtain ⟨n, hn, hs⟩ := C.slots s' below hsuffix
    exact ⟨n, by rw [if_neg (ne_of_lt hsuffix.length_le), hn], hs.later B⟩

lemma pushSlot_full (C : Carries f st) (hroom : ¬ st.length < f.maxStack.toNat) (v : NodeId) :
    Frame.pushSlot v f = .error (.stackOverflow f.pc) f :=
  bind_of_error ((reserve_eq 1 f).trans (if_pos (by rw [C.depth]; omega)))

lemma push (C : Carries f st) (hv : f.IsValue v) (hroom : (f.slotsOf v ++ st).length ≤ f.maxStack.toNat) :
    ∃ f', push v f = .ok () f' ∧ Carries f' (f.slotsOf v ++ st) ∧ Beside f f' := by
  have hheld : f.Holds (.value v) v := ⟨rfl, hv⟩
  unfold slotsOf at hroom ⊢
  cases hw : (f.modeOf v).isTwoSlot with
  | false =>
    rw [hw] at hroom
    rw [push_one hw]; exact C.pushSlot hheld hroom
  | true =>
    rw [hw] at hroom
    obtain ⟨p, f1, hbad⟩ : ∃ p f1, build (Ssa.onGraph fun g => g.bad (f.modeOf v)) f = .ok p f1 := ⟨_, _, rfl⟩
    obtain ⟨C1, B1, hp⟩ := C.bad hbad
    obtain ⟨f2, h2, C2, B2⟩ := C1.pushSlot hp (by rw [B1.maxStack]; exact Nat.le_of_succ_le hroom)
    obtain ⟨f3, h3, C3, B3⟩ := C2.pushSlot ((hheld.later B1).later B2) (by rwa [B2.maxStack, B1.maxStack])
    refine ⟨f3, ?_, C3, B1.trans (B2.trans B3)⟩
    rw [push_two hw (by rwa [C.depth]), bind_of_ok hbad, bind_of_ok h2, h3]

lemma read (C : Carries f (s :: st)) :
    ∃ n f', Carries f' st ∧ (Beside f f' ∧ f'.graph = f.graph) ∧ f'.Holds s n ∧ release f = .ok st.length f' ∧
      f'.builder.guessMode st.length = some (f'.modeOf n) ∧ ∀ mode, build (getValue st.length mode) f' = .ok n f' := by
  obtain ⟨n, hn, hs⟩ := C.slots s st (suffix_refl _)
  have B := Beside.withDepth f st.length
  have C' : Carries { f with depth := st.length } st :=
    ⟨⟨C.current_lt, C.room, C.bads⟩, rfl, Nat.le_of_succ_le C.fits, fun s' below h =>
      C.slots s' below (h.trans (suffix_cons s st))⟩
  refine ⟨n, _, C', ⟨B, rfl⟩, hs.later B, release_ok.2 ⟨C.depth, rfl⟩, ?_, fun mode => (hs.later B).getValue mode hn⟩
  rw [guessMode, definedMode?, show f.builder.definition? f.builder.current st.length = some n from hn,
    Option.map_some, show f.builder.graph.resolve n = n from hs.resolve_eq]
  rfl

lemma popSlot (C : Carries f (s :: st)) :
    ∃ n f', Frame.popSlot f = .ok n f' ∧ Carries f' st ∧ Beside f f' ∧ f'.Holds s n := by
  obtain ⟨n, f', C', ⟨B, -⟩, hs, hr, hmode, hget⟩ := C.read
  refine ⟨n, f', ?_, C', B, hs⟩
  unfold Frame.popSlot
  rw [bind_of_ok hr, get_bind]
  simp only [hmode]
  exact hget _

lemma popSlots (C : Carries f st) (k : Nat) : f.Follows (popSlots k f) (f.taken k st) := by
  induction k generalizing f st with
  | zero => exact ⟨[], f, rfl, C, .refl f, .nil⟩
  | succ k ih =>
    cases st with
    | nil => exact ⟨f, bind_of_error (bind_of_error (release_zero C.depth)), .refl f⟩
    | cons s st =>
      obtain ⟨n, f1, hn, C1, B1, hs⟩ := C.popSlot
      have h := ih C1
      rw [B1.taken] at h
      unfold popSlots
      rw [bind_of_ok hn]
      simp only [taken, length_cons, Nat.add_lt_add_iff_right] at h ⊢
      split at h <;> rename_i hk
      · obtain ⟨f2, he, B2⟩ := h; rw [if_pos hk]; exact ⟨f2, bind_of_error he, B1.trans B2⟩
      · obtain ⟨ns, f2, he, C2, B2, hall⟩ := h
        rw [if_neg hk]
        exact ⟨n :: ns, f2, bind_of_ok he, C2, B1.trans B2, .cons (hs.later B2) hall⟩

lemma pushSlots (C : Carries f st) {vs : List NodeId} (h : Forall₂ f.Holds ss vs) :
    f.Follows ((Frame.pushSlots vs >>= fun _ => pure []) f) (f.limited (ss.reverse ++ st)) := by
  induction vs generalizing f st ss with
  | nil =>
    cases h
    rw [reverse_nil, nil_append, limited, if_neg (not_lt.2 C.fits)]
    exact ⟨[], f, rfl, C, .refl f, .nil⟩
  | cons v vs ih =>
    obtain ⟨s, ss, hs, hall, rfl⟩ := forall₂_cons_right_iff.1 h
    rw [Frame.pushSlots, bind_assoc, reverse_cons, append_assoc]
    by_cases hroom : st.length < f.maxStack.toNat
    · obtain ⟨f1, h1, C1, B1⟩ := C.pushSlot hs hroom
      rw [bind_of_ok h1, ← B1.limited]; exact (ih C1 (hall.imp fun _ _ h => h.later B1)).after B1
    · rw [bind_of_error (C.pushSlot_full hroom v), limited, if_pos]
      · exact ⟨f, rfl, .refl f⟩
      · simp; omega

lemma rel_getElem? {R : Slot → NodeId → Prop} {ns : List NodeId} (h : Forall₂ R ss ns) (i : Nat) :
    Option.Rel R ss[i]? ns[i]? := by
  induction h generalizing i with
  | nil => exact .none
  | cons h _ ih =>
    cases i with
    | zero => exact .some h
    | succ i => exact ih i

lemma apply_shuffle (f : Frame) (wide : Bool) (how : Shuffle) (st : List Slot) :
    (StackOp.shuffle wide how).apply f st = f.taken (shufflePlan wide how).1 st >>= fun a =>
      f.limited (((shufflePlan wide how).2.filterMap (a.1[·]?)).reverse ++ a.2) := by
  cases how <;> cases wide <;> rcases st with _ | ⟨a, _ | ⟨b, _ | ⟨c, _ | ⟨d, st⟩⟩⟩⟩ <;> rfl

lemma shuffle (C : Carries f st) (wide : Bool) (how : Shuffle) :
    f.Follows ((StackOp.shuffle wide how).run f) ((StackOp.shuffle wide how).apply f st) := by
  show f.Follows (((Frame.popSlots (shufflePlan wide how).1 >>= fun slots =>
    Frame.pushSlots ((shufflePlan wide how).2.filterMap (slots[·]?))) >>= fun _ => pure []) f) _
  rw [apply_shuffle, bind_assoc]
  refine (C.popSlots _).bind fun ns f1 slots st1 _ C1 B1 hall => ?_
  rw [← B1.limited]
  exact C1.pushSlots (rel_filterMap (R := Eq) (fun i j hij => hij ▸ rel_getElem? hall i) (forall₂_refl _))

lemma pop (C : Carries f st) (mode : Mode) : f.Follows ((StackOp.pop mode).run f) (f.popped mode st) := by
  show f.Follows ((Frame.pop mode >>= fun v => pure [v]) f) _
  unfold Frame.pop
  cases st with
  | nil => exact ⟨f, bind_of_error (bind_of_error (release_zero C.depth)), .refl f⟩
  | cons s st =>
    obtain ⟨n, f1, C1, ⟨B1, hg1⟩, hs, hr, -, hget⟩ := C.read
    simp only [bind_assoc]
    rw [bind_of_ok hr, bind_of_ok (hget _)]
    unfold popped
    rw [← B1.pc]
    cases hw : mode.isTwoSlot with
    | true =>
      simp only [if_true, bind_assoc]
      cases st with
      | nil => exact ⟨f1, bind_of_error (release_zero C1.depth), B1⟩
      | cons low st =>
        obtain ⟨p, f2, C2, ⟨B2, hg2⟩, hp, hr2, -, hget2⟩ := C1.read
        rw [bind_of_ok hr2, bind_of_ok (hget2 _), get_bind, hp.isPlaceholder, passes_congr (hg2.trans hg1)]
        cases hpass : f.passes low with
        | true =>
          simp only [hpass]
          exact ⟨[n], f2, rfl, C2, B1.trans B2, .cons (hs.later B2) .nil⟩
        | false =>
          simp only [hpass]; exact ⟨f2, B2.pc ▸ rfl, B1.trans B2⟩
    | false =>
      simp only [Bool.false_eq_true, if_false, bind_assoc]
      rw [get_bind]
      cases s with
      | value v =>
        rw [hs.isBad, decide_eq_false (hs.1 ▸ hs.2.1)]; exact ⟨[n], f1, rfl, C1, B1, .cons hs .nil⟩
      | low mode => rw [hs.isBad, decide_eq_true hs.2.1]; exact ⟨f1, rfl, B1⟩

end Carries

end Frame

/-! ## Runs -/

namespace StackOp

open Steps

variable {f f' : Frame} {st : List Slot}

lemma follows_limited {x : Step Unit} (hfull : f.maxStack.toNat < st.length → x f = .error (.stackOverflow f.pc) f)
    (hroom : st.length ≤ f.maxStack.toNat → ∃ f', x f = .ok () f' ∧ f'.Carries st ∧ f.Beside f') :
    f.Follows ((x >>= fun _ => pure []) f) (f.limited st) := by
  unfold limited
  split
  · exact ⟨f, bind_of_error (hfull ‹_›), .refl f⟩
  · obtain ⟨f', hx, C, B⟩ := hroom (by omega); exact ⟨[], f', bind_of_ok hx, C, B, .nil⟩

lemma popped_of_proper (B : f.Beside f') (h : (pop mode).Proper f st) : f'.popped mode st = (pop mode).apply f st := by
  rw [apply, taken]
  rcases h with hfew | ⟨v, rest, rfl, rfl⟩
  · rw [if_pos hfew, ← B.pc]
    unfold Mode.width at hfew
    rcases st with _ | ⟨s, _ | ⟨s', st⟩⟩
    · rfl
    · split at hfew
      · rename_i hw; simp [popped, hw]
      · simp at hfew
    · split at hfew <;> rw [length_cons, length_cons] at hfew <;> omega
  · rw [if_neg (by simp [length_slotsOf]), ← length_slotsOf]
    unfold slotsOf
    cases hw : (f.modeOf v).isTwoSlot <;> simp [popped, passes, hw]

lemma follows (op : StackOp) (B : f.Beside f') (C : f'.Carries st) (h : op.Proper f st) :
    f'.Follows (op.run f') (op.apply f st) := by
  cases op with
  | push v =>
    have hnode := B.keep v (lt_of_op h.1)
    have e : f.slotsOf v = f'.slotsOf v := by rw [Frame.slotsOf, Frame.slotsOf, Frame.modeOf, Frame.modeOf, hnode]
    rw [apply, e, ← B.limited]
    refine follows_limited (fun hfull => Frame.push_full ?_) (C.push (by rwa [IsValue, hnode]))
    rwa [length_append, Frame.length_slotsOf, ← C.depth, add_comm] at hfull
  | pop mode =>
    have hpop := C.pop mode; rwa [popped_of_proper B h] at hpop
  | pushSlot v =>
    have e : f.slotOf v = f'.slotOf v := by rw [Frame.slotOf, Frame.slotOf, Frame.modeOf, Frame.modeOf, B.keep v h.1]
    rw [apply, e, ← B.limited]
    exact follows_limited (fun hfull => C.pushSlot_full (not_lt.2 (Nat.le_of_lt_succ hfull)) v)
      (C.pushSlot (.slotOf (lt_of_lt_of_le h.1 B.size_le) (by rw [B.keep v h.1]; exact h.2)))
  | popSlot => rw [apply, ← B.taken]; exact C.popSlots 1
  | shuffle wide how =>
    have := C.shuffle wide how; rwa [apply, B.pc, funext B.limited] at this

def foldAll (step : StackOp → List Slot → Frame.Outcome) : List StackOp → List Slot → Frame.Outcome
  | [], st => .ok ([], st)
  | op :: ops, st => do
    let (slots, st) ← step op st
    let (more, st) ← foldAll step ops st
    return (slots ++ more, st)

lemma applyAll_eq (f : Frame) (ops : List StackOp) : applyAll f ops = foldAll (apply f) ops := by
  induction ops with
  | nil => rfl
  | cons op ops ih =>
    funext st
    rw [applyAll, foldAll, ih]

lemma follows_foldAll {step : StackOp → List Slot → Outcome} {P : List StackOp → List Slot → Prop}
    (hstep : ∀ op ops f' st, f.Beside f' → f'.Carries st → P (op :: ops) st →
      f'.Follows (op.run f') (step op st) ∧ ∀ slots st', step op st = .ok (slots, st') → P ops st')
    (ops : List StackOp) (B : f.Beside f') (C : f'.Carries st) (h : P ops st) :
    f'.Follows (runAll ops f') (foldAll step ops st) := by
  induction ops generalizing f' st with
  | nil => exact ⟨[], f', rfl, C, .refl f', .nil⟩
  | cons op ops ih =>
    obtain ⟨hop, hnext⟩ := hstep op ops f' st B C h
    refine hop.bind fun ns f1 slots st1 hst1 C1 B1 hall => ?_
    have hrest := ih (B.trans B1) C1 (hnext _ _ hst1)
    refine hrest.bind fun ns2 f2 slots2 st2 _ C2 B2 hall2 => ?_
    exact ⟨ns ++ ns2, f2, rfl, C2, .refl f2, rel_append (hall.imp fun _ _ h => h.later B2) hall2⟩

end StackOp

/-- Whatever is done to an empty operand stack within a block, it is a list of slots. -/
theorem operandStack_refines (f : Frame) (R : f.Ready) (hempty : f.depth = 0) (ops : List StackOp)
    (h : StackOp.ProperAll f ops []) : f.Follows (StackOp.runAll ops f) (StackOp.applyAll f ops []) := by
  rw [StackOp.applyAll_eq]
  exact StackOp.follows_foldAll (fun op ops f' st B C h => ⟨op.follows B C h.1, h.2⟩) ops (.refl f)
    (R.carries_nil hempty) h

/-! ## Pops in any mode -/

namespace StackOp

def effect (f : Frame) : StackOp → List Slot → Frame.Outcome
  | pop mode, st => f.popped mode st
  | op, st => op.apply f st

/-- A value is pushed, or something popped in some mode. -/
def Typed (f : Frame) : StackOp → Prop
  | push v => f.IsValue v
  | pop _ => True
  | _ => False

def Known (f : Frame) (st : List Slot) : Prop := ∀ v, .value v ∈ st → v.index < f.graph.nodes.size

lemma Known.popped (K : Known f st) (h : f.popped mode st = .ok (slots, st')) : Known f st' := by
  have hsub : st' ⊆ st := by
    unfold Frame.popped at h
    split at h
    · cases h
    · split at h <;> split at h
      · cases h
      · split at h <;> cases h
        exact fun _ h => .tail _ (.tail _ h)
      · cases h
        exact fun _ h => .tail _ h
      · cases h
  exact fun v hv => K v (hsub hv)

lemma Known.popped_eq (K : Known f st) (B : f.Beside f') (mode : Mode) : f'.popped mode st = f.popped mode st := by
  have hpasses : ∀ s ∈ st, f'.passes s = f.passes s := by
    rintro (v | _) hs
    · simp [Frame.passes, B.keep v (K v hs)]
    · rfl
  rcases st with _ | ⟨top, _ | ⟨below, st⟩⟩ <;> simp only [Frame.popped, B.pc]
  rw [hpasses below (by simp)]

lemma follows_effect (op : StackOp) (B : f.Beside f') (C : f'.Carries st) (K : Known f st) (h : op.Typed f) :
    f'.Follows (op.run f') (op.effect f st) ∧ ∀ slots st', op.effect f st = .ok (slots, st') → Known f st' := by
  cases op with
  | push v =>
    refine ⟨(push v).follows B C h, fun slots st' hst' u hu => ?_⟩
    rw [effect, apply, limited] at hst'
    · split at hst' <;> cases hst'
      rcases mem_append.1 hu with hu | hu
      · obtain rfl : u = v := by
          unfold slotsOf at hu
          split at hu <;> simpa using hu
        exact lt_of_op h.1
      · exact K u hu
    · nofun
  | pop mode =>
    refine ⟨?_, fun _ _ => K.popped⟩
    rw [effect, ← K.popped_eq B]; exact C.pop mode
  | pushSlot | popSlot | shuffle => exact h.elim

end StackOp

/-- Pushes and pops on an empty operand stack within a block, whichever modes are popped: the slots that a pop meets
decide what it does. On a stack of whole values, a pop in a mode of another width than the value on top fails if the
mode has two slots and no Phi is next, and takes the value off if the mode has one. -/
theorem typedPops_follow (f : Frame) (R : f.Ready) (hempty : f.depth = 0) (ops : List StackOp)
    (h : ∀ op ∈ ops, op.Typed f) :
    f.Follows (StackOp.runAll ops f) (StackOp.foldAll (StackOp.effect f) ops []) ∧
    ∀ mode v vs, mode.width ≠ (f.modeOf v).width → f.popped mode ((v :: vs).flatMap f.slotsOf) =
      if mode.isTwoSlot then
        match vs with
        | [] => .error (.stackUnderflow f.pc)
        | u :: _ => if (f.graph.node u).op = .phi then .ok ([.value v], (vs.flatMap f.slotsOf).tail)
          else .error (.slotArity f.pc)
      else .ok ([.value v], .low (f.modeOf v) :: vs.flatMap f.slotsOf) := by
  refine ⟨StackOp.follows_foldAll (P := fun ops st => StackOp.Known f st ∧ ∀ op ∈ ops, op.Typed f)
    (fun op ops f' st B C hP => ?_) ops (.refl f) (R.carries_nil hempty) ⟨nofun, h⟩, fun mode v vs hw => ?_⟩
  · obtain ⟨hop, hknown⟩ := op.follows_effect B C hP.1 (hP.2 op (by simp))
    exact ⟨hop, fun slots st' hst' => ⟨hknown slots st' hst', fun op hmem => hP.2 op (by simp [hmem])⟩⟩
  · unfold Mode.width at hw
    cases hm : mode.isTwoSlot <;> cases hv : (f.modeOf v).isTwoSlot <;> simp only [hm, hv, ne_eq,
      not_true_eq_false] at hw
    · simp [popped, slotsOf, hm, hv]
    · cases vs <;> simp [popped, slotsOf, passes, hm, hv]

def Frame.stocked : Frame :=
  let f := Frame.new "f" 4 1
  { f with builder.graph := ((f.graph.add Graph.startBlock .unknown .int []).2.add
    Graph.startBlock .unknown .long []).2 }

lemma Frame.ready_stocked : stocked.Ready where
  current_lt := by decide +kernel
  room := by decide +kernel
  bads mode n h := by cases h

lemma StackOp.ProperAll.cons {f : Frame} {op : StackOp} {ops : List StackOp} {st : List Slot} (h : op.Proper f st)
    (happly : op.apply f st = .ok (slots, st')) (hrest : ProperAll f ops st') : ProperAll f (op :: ops) st := by
  refine ⟨h, fun slots' st'' h' => ?_⟩
  cases happly.symm.trans h'
  exact hrest

/-- An `int` is copied below both slots of a `long`. -/
theorem operandStack_refines_dupX2 : ∃ f', StackOp.runAll
    [.push ⟨3⟩, .push ⟨2⟩, .shuffle false .dupX2, .pop .int, .pop .long, .pop .int] Frame.stocked =
    .ok [⟨2⟩, ⟨3⟩, ⟨2⟩] f' := by
  have hproper : StackOp.ProperAll stocked [.push ⟨3⟩, .push ⟨2⟩, .shuffle false .dupX2, .pop .int, .pop .long,
    .pop .int] [] :=
    .cons (show _ ∧ _ by decide +kernel) rfl <| .cons (show _ ∧ _ by decide +kernel) rfl <| .cons trivial rfl <|
      .cons (.inr ⟨⟨2⟩, _, rfl, rfl⟩) rfl <| .cons (.inr ⟨⟨3⟩, _, rfl, rfl⟩) rfl <|
        .cons (.inr ⟨⟨2⟩, _, rfl, rfl⟩) rfl trivial
  obtain ⟨ns, f', hrun, -, -, hall⟩ := operandStack_refines stocked ready_stocked rfl _ hproper
  rcases hall with _ | ⟨⟨rfl, -⟩, _ | ⟨⟨rfl, -⟩, _ | ⟨⟨rfl, -⟩, ⟨⟩⟩⟩⟩
  exact ⟨f', hrun⟩

/-- A `long` is popped as an `int`. -/
theorem typedPops_follow_split : ∃ f', StackOp.runAll [.push ⟨3⟩, .pop .int] Frame.stocked = .ok [⟨3⟩] f' := by
  have htyped : ∀ op ∈ [StackOp.push ⟨3⟩, .pop .int], op.Typed stocked := by
    simp only [forall_mem_cons, StackOp.Typed, IsValue, not_mem_nil, IsEmpty.forall_iff, implies_true, and_true]
    decide +kernel
  obtain ⟨ns, f', hrun, -, -, hall⟩ := (typedPops_follow stocked ready_stocked rfl _ htyped).1
  rcases hall with _ | ⟨⟨rfl, -⟩, ⟨⟩⟩
  exact ⟨f', hrun⟩

end JvmGraph
