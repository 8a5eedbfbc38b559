import JvmGraph.Proofs.Steps
import JvmGraph.Proofs.Symbol.Names

/-!
# How symbols are written

Whatever is written, the table only grows, by components of what is written, and a reference leads to an
entry that has the key of what it stands for. The only fault is a full table. The owner of a member is
written in front of everything else, so all of its scopes are spelled out.
-/

namespace JvmGraph.Symbol

open Text Steps List Table

variable {t t' : Table} {c : Component} {ps : List Piece} {name : List Char} {member : String}
  {f : Option Nat → Mangler α} {m : Mangler (List Piece)}

variable {α β : Type}

/-! ## The table -/

lemma record_eq (c : Component) (t : Table) :
    record c t = if capacity ≤ t.length then .error .compressionTableFull else .ok ((), t ++ [c]) := by
  change (if capacity ≤ t.length then _ else _ : Mangler Unit) t = _
  split <;> rfl

lemma record_ok {u : Unit} : record c t = .ok (u, t') ↔ t.length < capacity ∧ t ++ [c] = t' := by
  rw [record_eq]
  split
  · simp only [reduceCtorEq, false_iff]; omega
  · simp only [Except.ok.injEq, Prod.mk.injEq, true_and, iff_and_self]; omega

lemma place?_bind : (place? c >>= f) t = f (t.index? c) t := rfl

/-- A place that is found holds an entry with the key that was looked up. -/
lemma Table.index?_eq_some {i : Nat} (h : t.index? c = some i) : ∃ d, t[i]? = some d ∧ d.key = c.key := by
  obtain ⟨hi, hkey, -⟩ := findIdx?_eq_some_iff_getElem.1 h
  exact ⟨t[i], getElem?_eq_getElem hi, of_decide_eq_true hkey⟩

lemma Table.index?_eq_none : t.index? c = none ↔ ∀ d ∈ t, d.key ≠ c.key := by
  simp [index?]

/-! ## The ways in which each part is written -/

def namePaths (name : List Char) : List (List Char × List Char) :=
  (scopes name).map fun s => (name.take s.stop, s.part)

/-- Writes scopes that are given by themselves. -/
def pathNames (held : Option Piece) : List (List Char × List Char) → Mangler (List Piece)
  | [] => return []
  | (path, part) :: rest => do
    match ← place? (.scope path) with
    | some i => pathNames (some (.back (.scope path) i)) rest
    | none =>
      record (.scope path)
      let after ← pathNames none rest
      return held.toList ++ .text (sourceName part) :: after

lemma scopeNames_eq (name : List Char) : ∀ (held : Option Piece) (ss : List Scope),
    scopeNames name held ss = pathNames held (ss.map fun s => (name.take s.stop, s.part))
  | _, [] => rfl
  | held, s :: ss => by
    have hrest (held : Option Piece) := scopeNames_eq name held ss
    unfold scopeNames
    simp only [hrest]
    exact Eq.refl (pathNames held ((name.take s.stop, s.part) :: ss.map fun s => (name.take s.stop, s.part)))

lemma nestedScopes_eq (name : List Char) : nestedScopes name = pathNames none (namePaths name) :=
  scopeNames_eq name none (scopes name)

lemma pathNames_cons_ok {held : Option Piece} {path part : List Char} {rest : List (List Char × List Char)}
    (h : pathNames held ((path, part) :: rest) t = .ok (ps, t')) :
    (∃ i, t.index? (.scope path) = some i ∧ pathNames (some (.back (.scope path) i)) rest t = .ok (ps, t')) ∨
      (t.index? (.scope path) = none ∧ t.length < capacity ∧
        ∃ after, pathNames none rest (t ++ [.scope path]) = .ok (after, t') ∧
          ps = held.toList ++ .text (sourceName part) :: after) := by
  rw [pathNames, place?_bind] at h
  cases hi : t.index? (.scope path) with
  | some i => rw [hi] at h; exact .inl ⟨i, rfl, h⟩
  | none =>
    rw [hi] at h
    obtain ⟨_, t1, hrecord, h⟩ := state_bind_ok.1 h
    obtain ⟨hlt, rfl⟩ := record_ok.1 hrecord
    obtain ⟨after, t2, hafter, h⟩ := state_bind_ok.1 h
    cases h; exact .inr ⟨rfl, hlt, after, hafter, rfl⟩

lemma pointerName_ok (h : pointerName name t = .ok (ps, t')) :
    (∃ i, t.index? (.pointer name) = some i ∧ ps = [.back (.pointer name) i] ∧ t' = t) ∨
      (∃ i, t.index? (.scope name) = some i ∧ t.length < capacity ∧
        ps = [.text ['P'], .back (.scope name) i] ∧ t' = t ++ [.pointer name]) ∨
      (t.index? (.scope name) = none ∧ ∃ inner t1, pathNames none (namePaths name) t = .ok (inner, t1) ∧
        t1.length < capacity ∧ ps = .text ['P', 'N'] :: (inner ++ [.text ['E']]) ∧
        t' = t1 ++ [.pointer name]) := by
  rw [pointerName, place?_bind, place?_bind] at h
  cases hp : t.index? (.pointer name) with
  | some i =>
    rw [hp] at h
    cases h; exact .inl ⟨i, rfl, rfl, rfl⟩
  | none =>
    cases hs : t.index? (.scope name) with
    | some i =>
      rw [hp, hs] at h
      obtain ⟨_, t1, hrecord, h⟩ := state_bind_ok.1 h
      obtain ⟨hlt, rfl⟩ := record_ok.1 hrecord
      cases h; exact .inr (.inl ⟨i, rfl, hlt, rfl, rfl⟩)
    | none =>
      rw [hp, hs] at h
      obtain ⟨inner, t1, hinner, h⟩ := state_bind_ok.1 h
      obtain ⟨_, t2, hrecord, h⟩ := state_bind_ok.1 h
      obtain ⟨hlt, rfl⟩ := record_ok.1 hrecord
      cases h
      exact .inr (.inr ⟨rfl, inner, t1, nestedScopes_eq name ▸ hinner, hlt, rfl, rfl⟩)

lemma templateName_ok {p : Piece} (h : templateName t = .ok (p, t')) :
    (∃ i, t.index? .template = some i ∧ p = .back .template i ∧ t' = t) ∨
      (t.length < capacity ∧ p = .text (sourceName "JArray".toList) ∧ t' = t ++ [.template]) := by
  rw [templateName, place?_bind] at h
  cases hi : t.index? .template with
  | some i =>
    rw [hi] at h
    obtain ⟨rfl, rfl⟩ := state_pure_ok.1 h; exact .inl ⟨i, rfl, rfl, rfl⟩
  | none =>
    rw [hi] at h
    obtain ⟨_, t1, hrecord, h⟩ := state_bind_ok.1 h
    obtain ⟨hlt, rfl⟩ := record_ok.1 hrecord
    cases h; exact .inr ⟨hlt, rfl, rfl⟩

lemma typeName_array_ok {e : FieldType} (h : typeName (.array e) t = .ok (ps, t')) :
    (∃ i, t.index? (.arrayPointer e) = some i ∧ ps = [.back (.arrayPointer e) i] ∧ t' = t) ∨
      (∃ p t1 inner t2, templateName t = .ok (p, t1) ∧ typeName e t1 = .ok (inner, t2) ∧
        t2.length + 1 < capacity ∧ ps = .text ['P'] :: p :: .text ['I'] :: (inner ++ [.text ['E']]) ∧
        t' = t2 ++ [.array e, .arrayPointer e]) := by
  rw [typeName, place?_bind] at h
  cases hi : t.index? (.arrayPointer e) with
  | some i =>
    rw [hi] at h
    cases h; exact .inl ⟨i, rfl, rfl, rfl⟩
  | none =>
    rw [hi] at h
    obtain ⟨p, t1, hp, h⟩ := state_bind_ok.1 h
    obtain ⟨inner, t2, hinner, h⟩ := state_bind_ok.1 h
    obtain ⟨_, t3, hrecord, h⟩ := state_bind_ok.1 h
    obtain ⟨_, rfl⟩ := record_ok.1 hrecord
    obtain ⟨_, t4, hrecord, h⟩ := state_bind_ok.1 h
    obtain ⟨hlt, rfl⟩ := record_ok.1 hrecord
    cases h
    refine .inr ⟨p, t1, inner, t2, hp, hinner, by simpa using hlt, rfl, ?_⟩
    simp

lemma mapM_typeName_cons_ok {a : FieldType} {ts : List FieldType} {pss : List (List Piece)}
    (h : (a :: ts).mapM typeName t = .ok (pss, t')) :
    ∃ ps t1 rest, typeName a t = .ok (ps, t1) ∧ ts.mapM typeName t1 = .ok (rest, t') ∧ pss = ps :: rest := by
  rw [mapM_cons] at h
  obtain ⟨ps, t1, hps, h⟩ := state_bind_ok.1 h
  obtain ⟨rest, t2, hrest, h⟩ := state_bind_ok.1 h
  cases h
  exact ⟨ps, t1, rest, hps, hrest, rfl⟩

lemma signature_ok {type : MethodType} {isStatic : Bool}
    (h : signature member type isStatic t = .ok (ps, t')) : (type = ⟨[], none⟩ ∧ ps = [.text ['v']] ∧ t' = t) ∨
      ∃ result t1 params, resultName type.result? t = .ok (result, t1) ∧
        paramNames type.params t1 = .ok (params, t') ∧ ps = .text ['J'] :: (result ++ params) := by
  rw [signature] at h
  split at h
  next hc =>
    cases h
    obtain ⟨params, result?⟩ := type
    obtain ⟨-, rfl, rfl, -⟩ := hc; exact .inl ⟨rfl, rfl, rfl⟩
  next =>
    obtain ⟨result, t1, hresult, h⟩ := state_bind_ok.1 h
    obtain ⟨params, t2, hparams, h⟩ := state_bind_ok.1 h
    cases h; exact .inr ⟨result, t1, params, hresult, hparams, rfl⟩

/-- Nothing is recorded before the owner. -/
lemma ownerScopes_nil (owner : String) : ownerScopes owner [] = pathNames none (namePaths owner.toList) [] :=
  congrFun (nestedScopes_eq owner.toList) []

lemma memberSymbol_ok {owner : String} {kind : MemberKind} (h : memberSymbol owner member kind [] = .ok (ps, t')) :
    ∃ inner t1 types, pathNames none (namePaths owner.toList) [] = .ok (inner, t1) ∧
      encodedTypes member kind t1 = .ok (types, t') ∧
      ps = .text "_ZN".toList :: (inner ++ .text (memberName member) :: .text ['E'] :: types) := by
  obtain ⟨inner, t1, hinner, h⟩ := state_bind_ok.1 h
  obtain ⟨types, t2, htypes, h⟩ := state_bind_ok.1 h
  obtain ⟨rfl, rfl⟩ := state_pure_ok.1 h
  exact ⟨inner, t1, types, ownerScopes_nil owner ▸ hinner, htypes, rfl⟩

lemma run_ok {symbol : String} :
    run m = .ok symbol ↔ ∃ ps t, m [] = .ok (ps, t) ∧ String.ofList (render ps) = symbol := by
  change (Prod.fst <$> m []).map _ = _ ↔ _
  cases m [] with
  | error e => simp [Functor.map, Except.map]
  | ok p =>
    obtain ⟨ps, t⟩ := p; simp [Functor.map, Except.map]

lemma run_error {e : Error} (h : run m = .error e) : m [] = .error e := by
  change (Prod.fst <$> m []).map _ = _ at h
  cases hr : m [] with
  | error e' => simpa [hr, Functor.map, Except.map] using h
  | ok p => simp [hr, Functor.map, Except.map] at h

/-! ## Faults -/

def OnlyFull (m : Mangler α) : Prop := ∀ t e, m t = .error e → e = .compressionTableFull

namespace OnlyFull

variable {x : Mangler α}

lemma pure {a : α} : OnlyFull (pure a : Mangler α) := fun _ _ h => by cases h

lemma bind {f : α → Mangler β} (hx : OnlyFull x) (hf : ∀ a, OnlyFull (f a)) : OnlyFull (x >>= f) := by
  intro t e h
  obtain h | ⟨a, t', -, h⟩ := state_bind_error.1 h
  · exact hx t e h
  · exact hf a t' e h

lemma ite {c : Prop} [Decidable c] {y : Mangler α} (hx : OnlyFull x) (hy : OnlyFull y) :
    OnlyFull (if c then x else y) := by
  split
  · exact hx
  · exact hy

lemma record : OnlyFull (record c) := by
  intro t e h
  rw [record_eq] at h
  split at h
  · cases h
    rfl
  · cases h

lemma place? (hnone : OnlyFull (f none)) (hsome : ∀ i, OnlyFull (f (some i))) : OnlyFull (place? c >>= f) := by
  intro t e h
  rw [place?_bind] at h
  cases hi : t.index? c with
  | none => exact hnone t e (hi ▸ h)
  | some i => exact hsome i t e (hi ▸ h)

lemma pathNames : ∀ (held : Option Piece) (l : List (List Char × List Char)), OnlyFull (pathNames held l)
  | _, [] => pure
  | _, (_, _) :: l => place? (record.bind fun _ => (pathNames none l).bind fun _ => pure) fun _ => pathNames _ l

lemma nestedScopes (name : List Char) : OnlyFull (nestedScopes name) := by
  rw [nestedScopes_eq]
  exact pathNames none _

lemma pointerName (name : List Char) : OnlyFull (pointerName name) :=
  place? (place? ((nestedScopes name).bind fun _ => record.bind fun _ => pure) fun _ => record.bind fun _ => pure)
    fun _ => place? pure fun _ => pure

lemma templateName : OnlyFull templateName := place? (record.bind fun _ => pure) fun _ => pure

lemma typeName : ∀ t, OnlyFull (typeName t)
  | .base _ => pure
  | .object name => pointerName name.toList
  | .array e => place? (templateName.bind fun _ => (typeName e).bind fun _ => record.bind fun _ =>
      record.bind fun _ => pure) fun _ => pure

lemma mapM_typeName : ∀ ts : List FieldType, OnlyFull (ts.mapM Symbol.typeName)
  | [] => pure
  | t :: ts => by
    rw [mapM_cons]; exact (typeName t).bind fun _ => (mapM_typeName ts).bind fun _ => pure

lemma signature (member : String) (type : MethodType) (isStatic : Bool) :
    OnlyFull (signature member type isStatic) := by
  refine ite pure (bind ?_ fun _ => bind (ite pure ((mapM_typeName _).bind fun _ => pure)) fun _ => pure)
  cases type.result? with
  | none => exact pure
  | some t => exact typeName t

lemma encodedTypes (member : String) (kind : MemberKind) : OnlyFull (encodedTypes member kind) := by
  cases kind with
  | field => exact pure
  | method type isStatic => exact signature member type isStatic

/-- The owner of a symbol is never refused. -/
lemma run_owner {owner : String} {f : List Piece → Mangler (List Piece)} {e : Error} (hf : ∀ ps, OnlyFull (f ps))
    (h : run (ownerScopes owner >>= f) = .error e) : e = .compressionTableFull := by
  -- in the empty table the owner is looked up in vain
  exact (nestedScopes owner.toList).bind hf [] e (run_error h)

end OnlyFull

/-! ## The owner -/

lemma pathNames_fresh : ∀ {l : List (List Char × List Char)} {t t' : Table} {ps : List Piece},
    l.Pairwise (fun a b => a.1 ≠ b.1) → (∀ d ∈ t, ∀ a ∈ l, d.key ≠ a.1) → pathNames none l t = .ok (ps, t') →
    ps = l.map (fun a => .text (sourceName a.2)) ∧ t' = t ++ l.map fun a => .scope a.1
  | [], t, t', ps, _, _, h => by
    obtain ⟨rfl, rfl⟩ := state_pure_ok.1 h; simp
  | (path, part) :: l, t, t', ps, hl, ht, h => by
    have hnone : t.index? (.scope path) = none :=
      index?_eq_none.2 fun d hd => ht d hd (path, part) (mem_cons_self ..)
    obtain ⟨i, hi, -⟩ | ⟨-, -, after, hafter, rfl⟩ := pathNames_cons_ok h
    · simp [hnone] at hi
    · have hnew : ∀ d ∈ t ++ [.scope path], ∀ a ∈ l, d.key ≠ a.1 := by
        intro d hd a ha
        rcases mem_append.1 hd with hd | hd
        · exact ht d hd a (.tail _ ha)
        · obtain rfl := mem_singleton.1 hd; exact (pairwise_cons.1 hl).1 a ha
      obtain ⟨rfl, rfl⟩ := pathNames_fresh (pairwise_cons.1 hl).2 hnew hafter; simp

lemma pathNames_namePaths (h : pathNames none (namePaths name) [] = .ok (ps, t)) :
    ps = (namePaths name).map (fun a => .text (sourceName a.2)) ∧ t = (namePaths name).map fun a => .scope a.1 := by
  have hl : (namePaths name).Pairwise fun a b => a.1 ≠ b.1 := pairwise_map.2 (scopes_distinct name)
  simpa using pathNames_fresh hl (by simp) h

@[simp] lemma render_nil : render [] = [] := rfl

@[simp] lemma render_append (ps qs : List Piece) : render (ps ++ qs) = render ps ++ render qs := flatMap_append

@[simp] lemma render_text (s : List Char) (ps : List Piece) : render (.text s :: ps) = s ++ render ps := rfl

@[simp] lemma render_back (c : Component) (i : Nat) (ps : List Piece) :
    render (.back c i :: ps) = reference i ++ render ps := rfl

lemma render_owner (name : List Char) : render ((namePaths name).map fun a => .text (sourceName a.2)) =
      ((pieces '/' name).filter (· ≠ [])).flatMap sourceName := by
  rw [← map_part_scopes, render, flatMap_map, flatMap_map, namePaths, flatMap_map]
  rfl

end JvmGraph.Symbol
