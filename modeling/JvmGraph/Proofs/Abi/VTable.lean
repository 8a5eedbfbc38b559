import JvmGraph.Abi.VTable
import JvmGraph.Proofs.Loading.Keeps

/-!
# Laying out a dispatch table

Going through the members of a class gives each method that enters the table one slot: that of the method
it overrides, or the next free one. A slot holds what was entered into it last, and what the table began
with if nothing was.
-/

namespace JvmGraph

open List Program

variable {p p' : Program} {e : EntityId}

namespace VTable

variable {t : VTable} {slot : Nat} {v : Initializer} {m : Method}

/-- The table with all its places, null where nothing was entered. -/
def full (t : VTable) : List Initializer := resize t.size t.entries

lemma length_resize (n : Nat) (entries : List Initializer) : (resize n entries).length = n := by
  simp [resize]
  omega

@[simp] lemma length_full (t : VTable) : t.full.length = t.size := length_resize _ _

lemma getElem?_resize (n : Nat) (entries : List Initializer) (i : Nat) :
    (resize n entries)[i]? = if i < n then some (entries.getD i .null) else none := by
  simp only [resize, List.getElem?_append, List.getElem?_take]
  by_cases hi : i < n
  · by_cases he : i < entries.length
    · have h : i < min n entries.length := by omega
      simp [he, h]
    · have h : ¬ i < min n entries.length := by omega
      have h' : i - min n entries.length < n - entries.length := by omega
      simp [hi, h, h', List.getElem?_eq_none (not_lt.1 he)]
  · have h' : ¬ i - min n entries.length < n - entries.length := by omega
    simp [hi, h']

lemma getElem?_full (t : VTable) (i : Nat) :
    t.full[i]? = if i < t.size then some (t.entries.getD i .null) else none := getElem?_resize _ _ _

lemma getD_fill (t : VTable) (slot : Nat) (v : Initializer) (i : Nat) :
    (t.fill slot v).entries.getD i .null = if i = slot then v else t.entries.getD i .null := by
  simp only [fill, getD_eq_getElem?_getD, List.getElem?_set, length_resize, getElem?_resize]
  by_cases hi : slot = i
  · subst hi
    have h : slot < max t.entries.length (slot + 1) := by omega
    simp [h]
  · simp only [hi, Ne.symm hi]
    by_cases h : i < max t.entries.length (slot + 1)
    · simp [h]
    · have h' : t.entries.length ≤ i := by omega
      simp [h, List.getElem?_eq_none h']

lemma getElem?_full_fill (hs : slot < t.size) (i : Nat) :
    (t.fill slot v).full[i]? = if i = slot then some v else t.full[i]? := by
  rw [getElem?_full, getElem?_full, getD_fill]
  have hsize : (t.fill slot v).size = t.size := rfl
  rw [hsize]
  by_cases hi : i = slot
  · subst hi; simp [hs]
  · simp [hi]

lemma getElem?_full_grow (hlen : t.entries.length ≤ t.size) (i : Nat) :
    ({ t with size := t.size + 1 } : VTable).full[i]? = if i = t.size then some .null else t.full[i]? := by
  rw [getElem?_full, getElem?_full]
  by_cases hi : i = t.size
  · subst hi; simp [List.getElem?_eq_none hlen]
  · have h : i < t.size + 1 ↔ i < t.size := by omega
    simp [hi, h]

lemma length_fill (hlen : t.entries.length ≤ t.size) (hs : slot < t.size) :
    (t.fill slot v).entries.length ≤ (t.fill slot v).size := by
  simp only [fill, length_set, length_resize]
  omega

/-- The slot that a method gets, and the table with room for it. -/
def allot (t : VTable) : Option Nat → Nat × VTable
  | some slot => (slot, t)
  | none => (t.size, { t with size := t.size + 1 })

lemma enter_cons (trap : EntityId) (p : Program) (t : VTable) (e : EntityId) (rest : List EntityId) :
    enter trap p t (e :: rest) =
      match p.methodAt? e with
      | none => enter trap p t rest
      | some m =>
        if m.excluded then enter trap p t rest
        else
          enter trap (p.modifyMethod e fun x => { x with slot? := some (t.allot (inheritedSlot? p m)).1 })
            ((t.allot (inheritedSlot? p m)).2.fill (t.allot (inheritedSlot? p m)).1
              (.address (if m.isAbstract then trap else e))) rest := by
  rw [enter]
  cases p.methodAt? e with
  | none => rfl
  | some m =>
    simp only []
    split
    · rfl
    · cases inheritedSlot? p m <;> rfl

lemma inheritedSlot?_congr
    (h : ∀ o ∈ m.overwrites, p'.slotAt? o = p.slotAt? o) : inheritedSlot? p' m = inheritedSlot? p m := by
  unfold inheritedSlot?
  revert h
  induction m.overwrites with
  | nil => exact fun _ => rfl
  | cons o os ih =>
    intro h
    have ho : (p'.methodAt? o).bind Method.slot? = (p.methodAt? o).bind Method.slot? := h o (by simp)
    rw [List.findSome?_cons, List.findSome?_cons, ho, ih fun x hx => h x (by simp [hx])]

lemma inheritedSlot?_modifyMethod (f : Method → Method)
    (h : e ∉ m.overwrites) : inheritedSlot? (p.modifyMethod e f) m = inheritedSlot? p m := by
  refine inheritedSlot?_congr fun o ho => ?_
  have hoe : o ≠ e := by rintro rfl; exact h ho
  rw [slotAt?, methodAt?_modifyMethod, if_neg hoe, slotAt?]

/-! ## What entering methods leaves alone -/

def Slotted (e e' : Entity) : Prop :=
  e' = e ∨ ∃ m slot, e.kind = .method m ∧ m.excluded = false ∧
    e' = { e with kind := .method { m with slot? := some slot } }

lemma Slotted.trans {e e' e'' : Entity} (h : Slotted e e') (h' : Slotted e' e'') : Slotted e e'' := by
  rcases h with rfl | ⟨m, slot, hk, hm, rfl⟩
  · exact h'
  · rcases h' with rfl | ⟨m', slot', hk', hm', rfl⟩
    · exact .inr ⟨m, slot, hk, hm, rfl⟩
    · simp only [EntityKind.method.injEq] at hk'; subst hk'; exact .inr ⟨m, slot', hk, hm, rfl⟩

lemma slotted_modifyMethod (hm : p.methodAt? e = some m) (hx : m.excluded = false) (slot : Nat) (x : EntityId) :
    Slotted (p.entityAt x) ((p.modifyMethod e fun m => { m with slot? := some slot }).entityAt x) := by
  rw [modifyMethod, entityAt_modifyEntity]
  split
  · rename_i h
    obtain ⟨rfl, -⟩ := h
    have hk : (p.entityAt x).kind = .method m := by
      simp only [methodAt?, Entity.method?] at hm
      split at hm
      · rename_i m' hk; rw [hk]; simpa using hm
      · cases hm
    exact .inr ⟨m, slot, hk, hx, by rw [hk]⟩
  · exact .inl rfl

lemma enter_frame (trap : EntityId) (members : List EntityId) (p : Program) (t : VTable) :
    (enter trap p t members).2.classes = p.classes ∧ (enter trap p t members).2.entities.size = p.entities.size ∧
      (∀ e, Slotted (p.entityAt e) ((enter trap p t members).2.entityAt e)) ∧
      ∀ e, e ∉ members → (enter trap p t members).2.entityAt e = p.entityAt e := by
  induction members generalizing p t with
  | nil => exact ⟨rfl, rfl, fun _ => .inl rfl, fun _ _ => rfl⟩
  | cons e rest ih =>
    rw [enter_cons]
    cases hm : p.methodAt? e with
    | none =>
      obtain ⟨h1, h2, h3, h4⟩ := ih p t
      exact ⟨h1, h2, h3, fun x hx => h4 x (fun h => hx (by simp [h]))⟩
    | some m =>
      simp only []
      split
      · obtain ⟨h1, h2, h3, h4⟩ := ih p t
        exact ⟨h1, h2, h3, fun x hx => h4 x (fun h => hx (by simp [h]))⟩
      · rename_i hx
        refine ⟨(ih _ _).1, (ih _ _).2.1.trans (by simp), ?_, ?_⟩
        · intro x; exact (slotted_modifyMethod hm (by simpa using hx) _ x).trans ((ih _ _).2.2.1 x)
        · intro x hxe
          rw [(ih _ _).2.2.2 x (fun h => hxe (by simp [h]))]
          exact entityAt_modifyMethod_ne _ e x (fun h => hxe (by simp [h]))

lemma methodAt?_of_slotted (h : Slotted (p.entityAt e) (p'.entityAt e)) :
    p'.methodAt? e = p.methodAt? e ∨ ∃ m slot, p.methodAt? e = some m ∧ m.excluded = false ∧
      p'.methodAt? e = some { m with slot? := some slot } := by
  rcases h with h | ⟨m, slot, hk, hm, h⟩
  · exact .inl (by rw [methodAt?, h, methodAt?])
  · refine .inr ⟨m, slot, ?_, hm, ?_⟩
    · simp [methodAt?, Entity.method?, hk]
    · simp [methodAt?, Entity.method?, h]

lemma enter_becomes (trap : EntityId) (members : List EntityId) (p : Program) (t : VTable) (hnodup : members.Nodup)
    (hfree : ∀ e ∈ members, ∀ m, p.methodAt? e = some m → m.excluded = false → m.slot? = none) :
    p.Becomes (enter trap p t members).2 := by
  induction members generalizing p t with
  | nil => exact .refl
  | cons e rest ih =>
    obtain ⟨he, hrest⟩ := nodup_cons.1 hnodup
    have hfree' : ∀ x ∈ rest, ∀ m, p.methodAt? x = some m → m.excluded = false → m.slot? = none :=
      fun x hx => hfree x (by simp [hx])
    rw [enter_cons]
    cases hm : p.methodAt? e with
    | none => exact ih p t hrest hfree'
    | some m =>
      simp only []
      split
      · exact ih p t hrest hfree'
      · rename_i hx
        refine .head ?_ (ih _ _ hrest ?_)
        · apply Program.Update.assign
          simp [slotAt?, hm, hfree e (by simp) m hm (by simpa using hx)]
        · intro x hxr m' hm'
          have hxe : x ≠ e := by rintro rfl; exact he hxr
          rw [methodAt?_modifyMethod, if_neg hxe] at hm'; exact hfree' x hxr m' hm'

/-! ## The slots and the entries -/

/-- The methods among `members` take a slot each: that of what they override, or one that was not given out
before. -/
structure Entered (trap : EntityId) (p : Program) (t : VTable) (members : List EntityId) (p' : Program)
    (t' : VTable) : Prop where
  size_le : t.size ≤ t'.size
  slot : ∀ e ∈ members, ∀ m, p.methodAt? e = some m → m.excluded = false →
    ∃ slot, p'.slotAt? e = some slot ∧ slot < t'.size ∧ (∀ s, inheritedSlot? p m = some s → slot = s) ∧
      (inheritedSlot? p m = none → t.size ≤ slot)
  fresh : ∀ e ∈ members, ∀ e' ∈ members, ∀ m m', p.methodAt? e = some m → p.methodAt? e' = some m' →
    m.excluded = false → m'.excluded = false → inheritedSlot? p m = none → inheritedSlot? p m' = none →
      p'.slotAt? e = p'.slotAt? e' → e = e'
  entry : ∀ j,
    (∃ e ∈ members, ∃ m, p.methodAt? e = some m ∧ m.excluded = false ∧ p'.slotAt? e = some j ∧
      t'.full[j]? = some (.address (if m.isAbstract then trap else e))) ∨
    ((∀ e ∈ members, ∀ m, p.methodAt? e = some m → m.excluded = false → p'.slotAt? e ≠ some j) ∧
      t'.full[j]? = t.full[j]?)

variable {trap : EntityId} {t' : VTable} {rest : List EntityId}

lemma Entered.congr {q : Program} {members : List EntityId} (h : Entered trap p t members p' t')
    (hq : ∀ e, q.methodAt? e = p'.methodAt? e) : Entered trap p t members q t' := by
  have hslot : ∀ e, p'.slotAt? e = q.slotAt? e := fun e => by rw [slotAt?, slotAt?, hq]
  obtain ⟨h1, h2, h3, h4⟩ := h
  simp only [hslot] at h2 h3 h4
  exact ⟨h1, h2, h3, h4⟩

lemma Entered.skip (h : Entered trap p t rest p' t')
    (he : ∀ m, p.methodAt? e = some m → m.excluded = true) : Entered trap p t (e :: rest) p' t' := by
  have hmem : ∀ {x m}, x ∈ e :: rest → p.methodAt? x = some m → m.excluded = false → x ∈ rest := by
    intro x m hx hm hex
    rcases mem_cons.1 hx with rfl | hx
    · simp [he m hm] at hex
    · exact hx
  refine ⟨h.size_le, ?_, ?_, ?_⟩
  · intro x hx m hm hex; exact h.slot x (hmem hx hm hex) m hm hex
  · intro x hx y hy m m' hm hm' hex hey
    exact h.fresh x (hmem hx hm hex) y (hmem hy hm' hey) m m' hm hm' hex hey
  · intro j
    rcases h.entry j with ⟨x, hx, hm⟩ | ⟨hno, hj⟩
    · exact .inl ⟨x, by simp [hx], hm⟩
    · exact .inr ⟨fun x hx m hm hex => hno x (hmem hx hm hex) m hm hex, hj⟩

variable {t1 : VTable}

lemma allot_spec {slot? : Option Nat} (ha : t.allot slot? = (slot, t1)) (hlen : t.entries.length ≤ t.size)
    (hs : ∀ s, slot? = some s → s < t.size) : t.size ≤ t1.size ∧ slot < t1.size ∧ t1.entries.length ≤ t1.size ∧
      (∀ s, slot? = some s → slot = s) ∧ (slot? = none → slot = t.size) ∧ ∀ j, j ≠ slot → t1.full[j]? = t.full[j]? := by
  cases slot? with
  | some s => cases ha; exact ⟨le_rfl, hs _ rfl, hlen, fun _ h => by simpa using h, by simp, fun _ _ => rfl⟩
  | none =>
    cases ha
    refine ⟨Nat.le_succ _, Nat.lt_succ_self _, Nat.le_succ_of_le hlen, by simp, fun _ => rfl, ?_⟩
    intro j hj
    rw [getElem?_full_grow hlen, if_neg hj]

lemma Entered.cons (hm : p.methodAt? e = some m) (hex : m.excluded = false) (he : e ∉ rest)
    (hapart : ∀ x ∈ rest, ∀ m, p.methodAt? x = some m → m.excluded = false → e ∉ m.overwrites)
    (hlen : t.entries.length ≤ t.size) (hs : ∀ s, inheritedSlot? p m = some s → s < t.size)
    (ha : t.allot (inheritedSlot? p m) = (slot, t1)) (hkeep : p'.slotAt? e = some slot)
    (h : Entered trap (p.modifyMethod e fun x => { x with slot? := some slot })
      (t1.fill slot (.address (if m.isAbstract then trap else e))) rest p' t') :
        Entered trap p t (e :: rest) p' t' := by
  obtain ⟨hgrow, hlt, -, hsome, hnone, hrest⟩ := allot_spec ha hlen hs
  set p1 := p.modifyMethod e fun x => { x with slot? := some slot } with hp1
  have hne : ∀ {x}, x ∈ rest → x ≠ e := by rintro x hx rfl; exact he hx
  have hat : ∀ {x}, x ∈ rest → p1.methodAt? x = p.methodAt? x := by
    intro x hx
    rw [methodAt?_modifyMethod, if_neg (hne hx)]
  have hinh : ∀ {x m'}, x ∈ rest → p.methodAt? x = some m' → m'.excluded = false →
      inheritedSlot? p1 m' = inheritedSlot? p m' := by
    intro x m' hx hm' hex'; exact inheritedSlot?_modifyMethod _ (hapart x hx m' hm' hex')
  have hsize : t1.size ≤ t'.size := h.size_le
  refine ⟨hgrow.trans hsize, ?_, ?_, ?_⟩
  · intro x hx m' hm' hex'
    rcases mem_cons.1 hx with rfl | hx
    · rw [hm, Option.some.injEq] at hm'
      subst hm'; exact ⟨slot, hkeep, by omega, hsome, fun hn => (hnone hn).ge⟩
    · obtain ⟨s, h1, h2, h3, h4⟩ := h.slot x hx m' ((hat hx).trans hm') hex'
      rw [hinh hx hm' hex'] at h3 h4; exact ⟨s, h1, h2, h3, fun hn => hgrow.trans (h4 hn)⟩
  · -- the slot of `e` was given out before those of the others
    have hlow : ∀ y ∈ rest, ∀ m', p.methodAt? y = some m' → m'.excluded = false → inheritedSlot? p m' = none →
        p'.slotAt? y ≠ some slot := by
      intro y hy m' hm' hex' hn hys
      obtain ⟨s, h1, -, -, h4⟩ := h.slot y hy m' ((hat hy).trans hm') hex'
      rw [hinh hy hm' hex'] at h4
      rw [hys, Option.some.injEq] at h1
      have h5 : t1.size ≤ s := h4 hn; omega
    intro x hx y hy m1 m2 hm1 hm2 hex1 hex2 hn1 hn2 hxy
    rcases mem_cons.1 hx with rfl | hx'
    · rcases mem_cons.1 hy with rfl | hy'
      · rfl
      · exact absurd (hxy.symm.trans hkeep) (hlow y hy' m2 hm2 hex2 hn2)
    · rcases mem_cons.1 hy with rfl | hy'
      · exact absurd (hxy.trans hkeep) (hlow x hx' m1 hm1 hex1 hn1)
      · exact h.fresh x hx' y hy' m1 m2 ((hat hx').trans hm1) ((hat hy').trans hm2) hex1 hex2
          ((hinh hx' hm1 hex1).trans hn1) ((hinh hy' hm2 hex2).trans hn2) hxy
  · intro j
    rcases h.entry j with ⟨x, hx, m', hm', h1, h2, h3⟩ | ⟨hno, hj⟩
    · exact .inl ⟨x, by simp [hx], m', (hat hx) ▸ hm', h1, h2, h3⟩
    · rw [getElem?_full_fill hlt] at hj
      by_cases hjs : j = slot
      · subst hjs; rw [if_pos rfl] at hj; exact .inl ⟨e, by simp, m, hm, hex, hkeep, hj⟩
      · rw [if_neg hjs, hrest j hjs] at hj
        refine .inr ⟨?_, hj⟩
        intro x hx m' hm' hex'
        rcases mem_cons.1 hx with rfl | hx
        · rw [hkeep]; simpa using Ne.symm hjs
        · exact hno x hx m' ((hat hx).trans hm') hex'

lemma enter_spec (trap : EntityId) (members : List EntityId) (p : Program) (t : VTable) (hnodup : members.Nodup)
    (hapart : ∀ e ∈ members, ∀ m, p.methodAt? e = some m → m.excluded = false → ∀ o ∈ m.overwrites, o ∉ members)
    (hlen : t.entries.length ≤ t.size)
    (hs : ∀ e ∈ members, ∀ m, p.methodAt? e = some m → m.excluded = false →
      ∀ s, inheritedSlot? p m = some s → s < t.size) :
    Entered trap p t members (enter trap p t members).2 (enter trap p t members).1 := by
  induction members generalizing p t with
  | nil => exact ⟨le_rfl, by simp, by simp, fun j => .inr ⟨by simp, rfl⟩⟩
  | cons e rest ih =>
    obtain ⟨he, hrest⟩ := nodup_cons.1 hnodup
    have hapart' : ∀ x ∈ rest, ∀ m, p.methodAt? x = some m → m.excluded = false → ∀ o ∈ m.overwrites, o ∉ rest :=
      fun x hx m hm hex o ho hor => hapart x (by simp [hx]) m hm hex o ho (by simp [hor])
    have hs' : ∀ x ∈ rest, ∀ m, p.methodAt? x = some m → m.excluded = false →
        ∀ s, inheritedSlot? p m = some s → s < t.size := fun x hx => hs x (by simp [hx])
    rw [enter_cons]
    cases hm : p.methodAt? e with
    | none =>
      refine (ih p t hrest hapart' hlen hs').skip ?_
      intro m hm'; simp [hm] at hm'
    | some m =>
      simp only []
      split
      · refine (ih p t hrest hapart' hlen hs').skip ?_
        intro m' hm'
        rw [hm, Option.some.injEq] at hm'; rwa [← hm']
      · rename_i hex
        replace hex : m.excluded = false := by simpa using hex
        have hsm : ∀ s, inheritedSlot? p m = some s → s < t.size := hs e (by simp) m hm hex
        obtain ⟨hgrow, hlt, hlen', -⟩ := allot_spec rfl hlen hsm
        have hat : ∀ {f x}, x ∈ rest → (p.modifyMethod e f).methodAt? x = p.methodAt? x := by
          intro f x hx
          have hxe : x ≠ e := by rintro rfl; exact he hx
          rw [methodAt?_modifyMethod, if_neg hxe]
        have hover : ∀ x ∈ rest, ∀ m, p.methodAt? x = some m → m.excluded = false → e ∉ m.overwrites :=
          fun x hx m' hm' hex' ho => hapart x (by simp [hx]) m' hm' hex' e ho (by simp)
        refine Entered.cons hm hex he hover hlen hsm rfl ?_ (ih _ _ hrest ?_ (length_fill hlen' hlt) ?_)
        · rw [slotAt?, methodAt?, (enter_frame _ _ _ _).2.2.2 e he, ← methodAt?, methodAt?_modifyMethod, if_pos rfl, hm]
          rfl
        · intro x hx m' hm'; rw [hat hx] at hm'; exact hapart' x hx m' hm'
        · intro x hx m' hm' hex' s hinh
          rw [hat hx] at hm'
          rw [inheritedSlot?_modifyMethod _ (hover x hx m' hm' hex')] at hinh
          exact lt_of_lt_of_le (hs' x hx m' hm' hex' s hinh) hgrow

end VTable

end JvmGraph
