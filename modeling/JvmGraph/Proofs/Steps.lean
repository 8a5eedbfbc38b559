import Mathlib.Tactic.Lemma
/-!
# Steps that succeed

A step of a state machine with faults either succeeds, with a result and a new state, or fails. These
lemmas take apart what it means for a composed step to succeed.
-/

namespace JvmGraph.Steps

variable {ε σ α β : Type} {s'' : σ}

variable {f : α → EStateM ε σ β} {x : EStateM ε σ α} {a : α} {b : β} {e : ε} {s s' : σ}

lemma bind_ok : (x >>= f) s = .ok b s'' ↔ ∃ a s', x s = .ok a s' ∧ f a s' = .ok b s'' := by
  simp only [bind, EStateM.bind]
  cases x s with
  | ok a s' =>
    simp only [EStateM.Result.ok.injEq]
    constructor
    · exact fun h => ⟨a, s', ⟨rfl, rfl⟩, h⟩
    · rintro ⟨a', t, ⟨rfl, rfl⟩, h⟩; exact h
  | error e s' => simp

lemma bind_of_ok (h : x s = .ok a s') : (x >>= f) s = f a s' := by
  simp [bind, EStateM.bind, h]

lemma bind_of_error (h : x s = .error e s') : (x >>= f) s = .error e s' := by
  simp [bind, EStateM.bind, h]

lemma pure_ok {b : α} : (pure a : EStateM ε σ α) s = .ok b s' ↔ a = b ∧ s = s' := by
  simp [pure, EStateM.pure]

lemma get_ok {a : σ} : (get : EStateM ε σ σ) s = .ok a s' ↔ s = a ∧ s = s' := by
  change EStateM.Result.ok s s = .ok a s' ↔ _
  simp

lemma get_bind (f : σ → EStateM ε σ β) (s : σ) : ((get : EStateM ε σ σ) >>= f) s = f s s := rfl

lemma get_bind_ok {f : σ → EStateM ε σ β} : ((get : EStateM ε σ σ) >>= f) s = .ok b s' ↔ f s s = .ok b s' := Iff.rfl

lemma modifyGet_ok {f : σ → α × σ} : (modifyGet f : EStateM ε σ α) s = .ok a s' ↔ f s = (a, s') := by
  change EStateM.Result.ok (f s).1 (f s).2 = .ok a s' ↔ _
  rw [EStateM.Result.ok.injEq, Prod.ext_iff]

lemma modify_ok {f : σ → σ} {u : PUnit} : (modify f : EStateM ε σ PUnit) s = .ok u s' ↔ f s = s' := by
  change EStateM.Result.ok PUnit.unit (f s) = .ok u s' ↔ _
  simp

lemma throw_ok : ¬ (throw e : EStateM ε σ α) s = .ok a s' := by
  intro h
  cases h

lemma mapM_cons_ok {as : List α} {bs : List β} : ((a :: as).mapM f) s = .ok bs s'' ↔
      ∃ b s' bs', f a s = .ok b s' ∧ as.mapM f s' = .ok bs' s'' ∧ bs = b :: bs' := by
  rw [List.mapM_cons, bind_ok]
  constructor
  · rintro ⟨b, s', hb, h⟩
    obtain ⟨bs', s3, hbs, hp⟩ := bind_ok.1 h
    cases hp; exact ⟨b, s', bs', hb, hbs, rfl⟩
  · rintro ⟨b, s', bs', hb, hbs, rfl⟩; exact ⟨b, s', hb, bind_ok.2 ⟨bs', s'', hbs, rfl⟩⟩

lemma except_bind_ok {x : Except ε α} {f : α → Except ε β} : (x >>= f) = .ok b ↔ ∃ a, x = .ok a ∧ f a = .ok b := by
  cases x with
  | error e => simp [bind, Except.bind]
  | ok a => simp [bind, Except.bind]

lemma ok_of_toOption {x : Except ε α} (h : x.toOption = some a) : x = .ok a := by
  cases x with
  | error e => cases h
  | ok b =>
    cases h
    rfl

lemma ok_of_any {x : Except ε α} {P : α → Bool} (h : x.toOption.any P = true) : ∃ a, x = .ok a ∧ P a = true := by
  cases x with
  | error e => cases h
  | ok a => exact ⟨a, rfl, h⟩

/-! ## Steps that lose their state when they fail -/

lemma state_bind_ok {x : StateT σ (Except ε) α} {f : α → StateT σ (Except ε) β} :
    (x >>= f) s = .ok (b, s'') ↔ ∃ a s', x s = .ok (a, s') ∧ f a s' = .ok (b, s'') := by
  change (x s >>= fun p => f p.1 p.2) = _ ↔ _
  rw [except_bind_ok]
  exact Prod.exists

lemma state_bind_error {x : StateT σ (Except ε) α} {f : α → StateT σ (Except ε) β} :
    (x >>= f) s = .error e ↔ x s = .error e ∨ ∃ a s', x s = .ok (a, s') ∧ f a s' = .error e := by
  change (x s >>= fun p => f p.1 p.2) = _ ↔ _
  cases x s with
  | error e' => simp [bind, Except.bind]
  | ok p =>
    obtain ⟨a, s'⟩ := p
    simp only [reduceCtorEq, false_or, Except.ok.injEq, Prod.mk.injEq]
    constructor
    · exact fun h => ⟨a, s', ⟨rfl, rfl⟩, h⟩
    · rintro ⟨_, _, ⟨rfl, rfl⟩, h⟩; exact h

lemma state_pure_ok {b : α} : (pure a : StateT σ (Except ε) α) s = .ok (b, s') ↔ a = b ∧ s = s' := by
  change (Except.ok (a, s) : Except ε (α × σ)) = .ok (b, s') ↔ _
  simp

def after? (r : EStateM.Result ε σ α) : Option σ :=
  match r with
  | .ok _ s => some s
  | .error _ _ => none

lemma ok_of_after? {r : EStateM.Result ε σ α} (h : after? r = some s) : ∃ a, r = .ok a s := by
  cases r with
  | ok a s' =>
    cases h
    exact ⟨a, rfl⟩
  | error e s' => cases h

lemma after?_eq_some {r : EStateM.Result ε σ Unit} : after? r = some s ↔ r = .ok () s := by
  constructor
  · intro h; obtain ⟨-, rfl⟩ := ok_of_after? h; rfl
  · rintro rfl; rfl

/-! ## What holds after a step, whether it succeeds or not -/

/-- `Q` holds of the result and the new state of a step that succeeded, and `E` of the state in which one failed. -/
def Ends (r : EStateM.Result ε σ α) (Q : α → σ → Prop) (E : σ → Prop) : Prop :=
  match r with
  | .ok a s => Q a s
  | .error _ s => E s

variable {r : EStateM.Result ε σ α} {Q Q' : α → σ → Prop} {E E' : σ → Prop}

lemma Ends.imp (h : Ends r Q E) (hQ : ∀ a s, Q a s → Q' a s) (hE : ∀ s, E s → E' s) : Ends r Q' E' := by
  cases r with
  | ok a s => exact hQ a s h
  | error e s => exact hE s h

lemma Ends.ok (h : Ends (x s) Q E) (hx : x s = .ok a s') : Q a s' := by rwa [hx] at h

variable {R : β → σ → Prop}

lemma ends_bind (hx : Ends (x s) Q E) (hf : ∀ a s', Q a s' → Ends (f a s') R E) : Ends ((x >>= f) s) R E := by
  simp only [bind, EStateM.bind]
  cases h : x s with
  | ok a s' => rw [h] at hx; exact hf a s' hx
  | error e s' => rwa [h] at hx

lemma ends_bind_assoc {γ : Type} {g : β → EStateM ε σ γ}
    {R : γ → σ → Prop} (h : Ends (((x >>= f) >>= g) s) R E) : Ends ((x >>= fun a => f a >>= g) s) R E := by
  rwa [bind_assoc] at h

lemma ends_pure (h : Q a s) : Ends ((pure a : EStateM ε σ α) s) Q E := h

lemma ends_throw (h : E s) : Ends ((throw e : EStateM ε σ α) s) Q E := h

lemma ends_get_bind {f : σ → EStateM ε σ β} (h : Ends (f s s) R E) : Ends (((get : EStateM ε σ σ) >>= f) s) R E := h

lemma ends_modify {f : σ → σ} {Q : PUnit → σ → Prop} (h : Q ⟨⟩ (f s)) :
    Ends ((modify f : EStateM ε σ PUnit) s) Q E := h

lemma ends_modifyGet {f : σ → α × σ} (h : Q (f s).1 (f s).2) : Ends ((modifyGet f : EStateM ε σ α) s) Q E := h

/-! ## Contracts -/

/-- What steps may rely on, what they do if they succeed, and what they leave behind if they fail. -/
structure Contract (σ : Type) where
  inv : σ → Prop
  does : σ → σ → Prop
  fails : σ → σ → Prop
  refl : ∀ {s}, inv s → does s s
  trans : ∀ {s s' s''}, does s s' → does s' s'' → does s s''
  fails_refl : ∀ {s}, inv s → fails s s
  fails_trans : ∀ {s s' s''}, does s s' → fails s' s'' → fails s s''

namespace Contract

variable {K : Contract σ}

def ofDoes (inv : σ → Prop) (does : σ → σ → Prop) (refl : ∀ s, does s s)
    (trans : ∀ {s s' s''}, does s s' → does s' s'' → does s s'') :
    Contract σ where
  inv := inv
  does := does
  fails _ _ := True
  refl _ := refl _
  trans := trans
  fails_refl _ := trivial
  fails_trans _ _ := trivial

def Honours (K : Contract σ) (x : EStateM ε σ α) : Prop :=
  ∀ s, K.inv s → Ends (x s) (fun _ s' => K.inv s' ∧ K.does s s') (K.fails s)

lemma ends_then {y : EStateM ε σ β} (hdoes : K.does s s')
    (hy : Ends (y s') (fun _ s'' => K.inv s'' ∧ K.does s' s'') (K.fails s')) :
    Ends (y s') (fun _ s'' => K.inv s'' ∧ K.does s s'') (K.fails s) :=
  hy.imp (fun _ _ h => ⟨h.1, K.trans hdoes h.2⟩) fun _ h => K.fails_trans hdoes h

namespace Honours

lemma pure : K.Honours (pure a : EStateM ε σ α) := fun _ hs => ⟨hs, K.refl hs⟩

lemma throw : K.Honours (throw e : EStateM ε σ α) := fun _ hs => K.fails_refl hs

lemma bind (hx : K.Honours x) (hf : ∀ a, K.Honours (f a)) : K.Honours (x >>= f) :=
  fun s hs => ends_bind (hx s hs) fun a s' h => ends_then h.2 (hf a s' h.1)

lemma get {f : σ → EStateM ε σ β} (hf : ∀ s, K.Honours (f s)) : K.Honours (get >>= f) :=
  fun s hs => ends_get_bind (hf s s hs)

lemma ite {p : Prop} [Decidable p] {y : EStateM ε σ α} (hx : K.Honours x) (hy : K.Honours y) :
    K.Honours (if p then x else y) := by
  split
  · exact hx
  · exact hy

end Honours

/-- Steps that a contract does not cover lead from what was done since `s` to what is wanted. -/
def Leads (K : Contract σ) (s : σ) (R : α → σ → Prop) (x : EStateM ε σ α) : Prop :=
  ∀ s', K.inv s' → K.does s s' → Ends (x s') R (K.fails s)

lemma Honours.leads (hx : K.Honours x) (hf : ∀ a, K.Leads s R (f a)) : K.Leads s R (x >>= f) :=
  fun s' hinv hdoes => ends_bind ((hx s' hinv).imp (fun _ _ h => h) fun _ h => K.fails_trans hdoes h) fun a s'' h =>
    hf a s'' h.1 (K.trans hdoes h.2)

lemma Leads.get {f : σ → EStateM ε σ β} (hf : ∀ s', K.Leads s R (f s')) :
    K.Leads s R (get >>= f) := fun s' hinv hdoes => ends_get_bind (hf s' s' hinv hdoes)

lemma honours_ofDoes {inv : σ → Prop} {does : σ → σ → Prop} {refl : ∀ s, does s s}
    {trans : ∀ {s s' s''}, does s s' → does s' s'' → does s s''}
    (h : ∀ s a s', inv s → x s = .ok a s' → inv s' ∧ does s s') : (ofDoes inv does refl trans).Honours x := by
  intro s hs
  cases hx : x s with
  | ok a s' => exact h s a s' hs hx
  | error e s' => trivial

end Contract

end JvmGraph.Steps
