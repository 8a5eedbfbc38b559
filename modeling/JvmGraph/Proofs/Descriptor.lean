import JvmGraph.Descriptor
import JvmGraph.Proofs.Steps

/-!
# Descriptors and their written form
A text is read as a type exactly if it is the written form of that type, and the types that have a written form are
those of the grammar: primitive types, classes whose name is not empty and has no semicolon, and arrays. So every text
has at most one reading. The scanners hand on what follows a type, so each of their lemmas is about a text with any
rest behind it.
-/

namespace JvmGraph

open List Option FieldType

variable {s : List Char} {t : FieldType} {params : List FieldType} {k : Kind} {rest : List Char} {fuel : Nat}

def FieldType.IsDescribed : FieldType → Prop
  | base k => k ≠ .object ∧ k ≠ .void
  | object name => name ≠ "" ∧ ';' ∉ name.toList
  | array element => element.IsDescribed

/-- Method types that a descriptor can describe. -/
structure MethodType.IsDescribed (m : MethodType) : Prop where
  params : ∀ t ∈ m.params, t.IsDescribed
  result : ∀ t ∈ m.result?, t.IsDescribed

namespace FieldType

/-! ## One type -/

lemma letter_of_described (h : (base k).IsDescribed) :
    ∃ c, (base k).chars = [c] ∧ primitive? c = some k ∧ c ≠ '[' ∧ c ≠ 'L' ∧ c ≠ ')' ∧ c ≠ 'V' := by
  obtain ⟨hobject, hvoid⟩ := h
  cases k <;> first | exact absurd rfl hobject | exact absurd rfl hvoid | exact ⟨_, rfl, by decide, by decide⟩

lemma described_of_primitive? {c : Char} (h : primitive? c = some k) :
    (base k).IsDescribed ∧ (base k).chars = [c] := by
  obtain ⟨hc, hk⟩ := filter_eq_some_iff.1 h
  have hk' : (base k).IsDescribed := by simpa [IsDescribed] using hk
  refine ⟨hk', ?_⟩
  unfold Kind.ofLetter? at hc
  -- one case for each letter; the two that stand for references are not primitive
  repeat' split at hc
  all_goals cases hc
  all_goals first | (subst_vars; rfl) | exact absurd rfl hk'.1

lemma chars_eq_cons (h : t.IsDescribed) : ∃ c rest, t.chars = c :: rest ∧ c ≠ ')' ∧ c ≠ 'V' := by
  cases t with
  | base k =>
    obtain ⟨c, hc, -, -, -, hparen, hvoid⟩ := letter_of_described h
    exact ⟨c, [], hc, hparen, hvoid⟩
  | object name => exact ⟨'L', _, rfl, by decide⟩
  | array element => exact ⟨'[', _, rfl, by decide⟩

lemma span_name {name : List Char} (rest : List Char) (h : ';' ∉ name) :
    (name ++ ';' :: rest).takeWhile (· ≠ ';') = name ∧ (name ++ ';' :: rest).dropWhile (· ≠ ';') = ';' :: rest := by
  have hname : ∀ c ∈ name, decide (c ≠ ';') = true := by
    intro c hc; simpa using ne_of_mem_of_not_mem hc h
  rw [takeWhile_append_of_pos hname, dropWhile_append_of_pos hname]
  simp

lemma scan_chars (h : t.IsDescribed) (rest : List Char) : scan (t.chars ++ rest) = .ok (t, rest) := by
  induction t with
  | base k =>
    obtain ⟨c, hc, hk, harray, hobject, -⟩ := letter_of_described h
    rw [hc, singleton_append, scan, if_neg harray, if_neg hobject, hk]
  | object name =>
    obtain ⟨hname, hsemi⟩ := h
    obtain ⟨htake, hdrop⟩ := span_name rest hsemi
    rw [chars, cons_append, append_assoc, singleton_append, scan, htake, hdrop]
    cases hlist : name.toList with
    | nil => exact absurd (String.toList_eq_nil_iff.1 hlist) hname
    | cons n name' => simp [← hlist]
  | array element ih => rw [chars, cons_append, scan, ih h]; rfl

lemma of_scan (h : scan s = .ok (t, rest)) : t.IsDescribed ∧ s = t.chars ++ rest := by
  induction s generalizing t with
  | nil => cases h
  | cons c s ih =>
    rw [scan] at h
    split at h
    next hc =>
      cases hs : scan s with
      | error e => simp [hs, Except.map] at h
      | ok p =>
        simp only [hs] at h
        obtain ⟨rfl, rfl⟩ := h
        obtain ⟨helement, rfl⟩ := ih hs; exact ⟨helement, by rw [hc]; rfl⟩
    next =>
      split at h
      next hc =>
        split at h
        next n name x after htake hdrop =>
          cases h
          have hx : x = ';' := by
            have hhead := head?_dropWhile_not (fun c => decide (c ≠ ';')) s
            rw [hdrop] at hhead; simpa using hhead
          have hsplit := takeWhile_append_dropWhile (p := fun c => decide (c ≠ ';')) (l := s)
          rw [htake, hdrop, hx] at hsplit
          refine ⟨⟨by simp, fun hmem => ?_⟩, ?_⟩
          · rw [String.toList_ofList, ← htake] at hmem
            simpa using all_eq_true.1 all_takeWhile _ hmem
          · simp [hc, ← hsplit, chars]
        next => cases h
      next =>
        split at h
        next k hk =>
          cases h
          obtain ⟨hdescribed, hchars⟩ := described_of_primitive? hk
          exact ⟨hdescribed, by simp [hchars]⟩
        next => cases h

lemma ofChars_eq_ok_iff : ofChars s = .ok t ↔ t.IsDescribed ∧ s = t.chars := by
  rw [ofChars, Steps.except_bind_ok]
  constructor
  · rintro ⟨⟨t', rest⟩, hs, h⟩
    split at h
    next heq =>
      cases h
      cases heq
      simpa using of_scan hs
    next => cases h
  · rintro ⟨ht, rfl⟩; exact ⟨(t, []), by simpa using scan_chars ht [], rfl⟩

end FieldType

variable {m : MethodType}

namespace MethodType

open FieldType

/-! ## Parameters and result -/

lemma length_le_length_flatMap (h : ∀ t ∈ params, t.IsDescribed) :
    params.length ≤ (params.flatMap FieldType.chars).length := by
  induction params with
  | nil => simp
  | cons t ts ih =>
    obtain ⟨ht, hts⟩ := forall_mem_cons.1 h
    obtain ⟨c, cs, hchars, -⟩ := chars_eq_cons ht
    have := ih hts
    rw [flatMap_cons, length_append, hchars, length_cons, length_cons]; omega

lemma scanParams?_chars (h : ∀ t ∈ params, t.IsDescribed) (read : List FieldType) (rest : List Char)
    (hfuel : params.length ≤ fuel) :
    scanParams? read fuel (params.flatMap FieldType.chars ++ ')' :: rest) = some (read.reverse ++ params, rest) := by
  induction params generalizing read fuel with
  | nil => simp [scanParams?]
  | cons t ts ih =>
    obtain ⟨n, rfl⟩ : ∃ n, fuel = n + 1 := ⟨fuel - 1, by simp at hfuel; omega⟩
    obtain ⟨ht, hts⟩ := forall_mem_cons.1 h
    obtain ⟨c, cs, hchars, hparen, -⟩ := chars_eq_cons ht
    have hscan := scan_chars ht (ts.flatMap FieldType.chars ++ ')' :: rest)
    rw [hchars, cons_append] at hscan
    rw [flatMap_cons, append_assoc, hchars, cons_append, scanParams?, hscan]
    · simpa using ih hts (t :: read) (Nat.le_of_succ_le_succ hfuel)
    · rintro _ ⟨⟩; exact hparen rfl

lemma of_scanParams? {read : List FieldType}
    (h : scanParams? read fuel s = some (params, rest)) : ∃ new, (∀ t ∈ new, t.IsDescribed) ∧
      params = read.reverse ++ new ∧ s = new.flatMap FieldType.chars ++ ')' :: rest := by
  fun_induction scanParams? read fuel s with
  | case1 read fuel rest' =>
    cases h
    exact ⟨[], by simp⟩
  | case2 => cases h
  | case3 => cases h
  | case4 read fuel s hparen t rest' hs ih =>
    obtain ⟨new, hnew, rfl, rfl⟩ := ih h
    obtain ⟨ht, rfl⟩ := of_scan hs
    exact ⟨t :: new, forall_mem_cons.2 ⟨ht, hnew⟩, by simp, by simp⟩

lemma scanResult?_eq_some_iff {result? : Option FieldType} : scanResult? s = some result? ↔
    (∀ t ∈ result?, t.IsDescribed) ∧ s = result?.elim ['V'] FieldType.chars := by
  unfold scanResult?
  split
  next hs =>
    subst hs
    constructor
    · rintro ⟨⟩; exact ⟨by simp, rfl⟩
    · rintro ⟨ht, hs⟩
      cases result? with
      | none => rfl
      | some t =>
        obtain ⟨c, cs, hchars, -, hvoid⟩ := chars_eq_cons (ht t rfl)
        rw [elim_some, hchars] at hs
        cases hs
        exact absurd rfl hvoid
  next hs =>
    have hofChars : ∀ t, (FieldType.ofChars s).toOption = some t ↔ t.IsDescribed ∧ s = t.chars := by
      intro t
      rw [← ofChars_eq_ok_iff]; cases FieldType.ofChars s <;> simp [Except.toOption]
    cases result? with
    | none => simpa using hs
    | some t => simp [hofChars]

lemma ofChars?_eq_some_iff : ofChars? s = some m ↔ m.IsDescribed ∧ s = m.chars := by
  constructor
  · intro h
    unfold ofChars? at h
    split at h
    · obtain ⟨⟨params, rest⟩, hparams, h⟩ := bind_eq_some_iff.1 h
      obtain ⟨result?, hresult, h⟩ := bind_eq_some_iff.1 h
      cases h
      obtain ⟨new, hnew, rfl, rfl⟩ := of_scanParams? hparams
      obtain ⟨hdescribed, rfl⟩ := scanResult?_eq_some_iff.1 hresult
      exact ⟨⟨hnew, hdescribed⟩, rfl⟩
    · cases h
  · rintro ⟨⟨hparams, hresult⟩, rfl⟩
    -- every parameter takes a character, so there is fuel for all of them
    have hfuel :
      m.params.length ≤ (m.params.flatMap FieldType.chars ++ ')' :: m.result?.elim ['V'] FieldType.chars).length := by
      have := length_le_length_flatMap hparams
      rw [length_append]; omega
    rw [chars, ofChars?, scanParams?_chars hparams [] _ hfuel]
    simp [scanResult?_eq_some_iff.2 ⟨hresult, rfl⟩]

end MethodType

/-- Reading accepts exactly the written forms of the types of the grammar, each as the type that it is written for. -/
theorem descriptor_parse_iff :
    (∀ (s : String) (t : FieldType), FieldType.parse s = .ok t ↔ t.IsDescribed ∧ t.text = s) ∧
      ∀ (s : String) (m : MethodType), MethodType.parse s = .ok m ↔ m.IsDescribed ∧ m.text = s := by
  have htext : ∀ (cs : List Char) (s : String), String.ofList cs = s ↔ s.toList = cs := by
    intro cs s
    constructor
    · rintro rfl
      exact String.toList_ofList
    · rintro rfl
      exact String.ofList_toList
  constructor
  · intro s t
    rw [parse, ofChars_eq_ok_iff, text, htext]
  · intro s m
    rw [MethodType.text, htext, ← MethodType.ofChars?_eq_some_iff, MethodType.parse]
    cases MethodType.ofChars? s.toList <;> simp

/-! ## Counting slots -/

def FieldType.isWide (t : FieldType) : Bool := t = .base .long || t = .base .double

namespace MethodType

/-- One slot for every parameter, and another one for each that is wide. -/
def width (m : MethodType) : Nat := m.params.length + m.params.countP FieldType.isWide

lemma slots_of_described (h : t.IsDescribed) : t.slots = if t.isWide then 2 else 1 := by
  cases t with
  | base k =>
    obtain ⟨hobject, hvoid⟩ := h
    cases k <;> first | exact absurd rfl hobject | exact absurd rfl hvoid | rfl
  | object name => rfl
  | array element => rfl

lemma foldl_slots (h : ∀ t ∈ params, t.IsDescribed) (n : Nat) :
    params.foldl (fun n t => n + t.slots) n = n + (params.length + params.countP isWide) := by
  induction params generalizing n with
  | nil => rfl
  | cons t ts ih =>
    obtain ⟨ht, hts⟩ := forall_mem_cons.1 h
    rw [foldl_cons, ih hts, slots_of_described ht, length_cons, countP_cons]
    split <;> omega

lemma paramSlots_of_described (h : m.IsDescribed) :
    m.paramSlots = if m.width ≤ 65535 then .ok m.width else .error (.breakdown .parameterSlots) := by
  simp only [paramSlots, foldl_slots h.params, Nat.zero_add]
  rfl

/-- A parameter takes at most two slots and at least one character, and three characters are no parameter. -/
lemma width_le (h : m.IsDescribed) : m.width + 6 ≤ 2 * m.chars.length := by
  have hparams := length_le_length_flatMap h.params
  have hwide := countP_le_length (p := FieldType.isWide) (l := m.params)
  have hresult : 1 ≤ (m.result?.elim ['V'] FieldType.chars).length := by
    cases hr : m.result? with
    | none => exact Nat.le_refl 1
    | some t =>
      obtain ⟨c, cs, hchars, -⟩ := FieldType.chars_eq_cons (h.result t (by simp [hr]))
      simp [hchars]
  simp only [width, chars, length_cons, length_append]
  omega

lemma parse_eq_ok_iff {s : String} : parse s = .ok m ↔ m.IsDescribed ∧ s.toList = m.chars := by
  rw [← ofChars?_eq_some_iff, parse]
  cases ofChars? s.toList <;> simp

/-- The slots of the parameters are counted exactly, as long as there are no more than a 16-bit number can hold: then
the count is the answer up to 255, and beyond that the descriptor is refused. A descriptor with more slots breaks the
count down; it has at least 32771 characters. -/
theorem countParams_exact {s : String} {m : MethodType} (h : parse s = .ok m) :
    (m.width ≤ 65535 → m.paramSlots = .ok m.width ∧
      countParams s = if m.width ≤ 255 then .ok m.width else .error (.invalidDescriptor s)) ∧
    (65535 < m.width → m.paramSlots = .error (.breakdown .parameterSlots) ∧
      countParams s = .error (.breakdown .parameterSlots) ∧ 32771 ≤ s.length) := by
  obtain ⟨hm, hs⟩ := parse_eq_ok_iff.1 h
  have hcount : countParams s = m.paramSlots >>= fun n => if n ≤ 255 then .ok n else .error (.invalidDescriptor s) := by
    rw [countParams, h]; rfl
  rw [hcount, paramSlots_of_described hm]
  refine ⟨fun hle => ?_, fun hlt => ?_⟩
  · rw [if_pos hle]; exact ⟨rfl, rfl⟩
  · have hlen := width_le hm
    rw [if_neg (Nat.not_le.2 hlt)]; exact ⟨rfl, rfl, by rw [← String.length_toList, hs]; omega⟩

/-- A method with this many parameters of type `long`. -/
def longs (n : Nat) : MethodType := ⟨List.replicate n (.base .long), none⟩

lemma width_longs (n : Nat) : (longs n).width = 2 * n := by
  have hwide : isWide (.base .long) = true := rfl
  simp [width, longs, countP_replicate, hwide]
  omega

lemma parse_longs (n : Nat) : parse (longs n).text = .ok (longs n) := by
  refine parse_eq_ok_iff.2 ⟨⟨fun t ht => ?_, nofun⟩, String.toList_ofList⟩
  rw [eq_of_mem_replicate ht]
  exact ⟨nofun, nofun⟩

/-- At 127 parameters the count is the answer, at 128 the descriptor is refused, at 32768 the count breaks down. -/
theorem countParams_exact_longs :
    countParams (longs 127).text = .ok 254 ∧
    countParams (longs 128).text = .error (.invalidDescriptor (longs 128).text) ∧
    countParams (longs 32768).text = .error (.breakdown .parameterSlots) := by
  have h127 := (countParams_exact (parse_longs 127)).1
  have h128 := (countParams_exact (parse_longs 128)).1
  have h32768 := (countParams_exact (parse_longs 32768)).2
  simp only [width_longs] at h127 h128 h32768
  exact ⟨(h127 (by decide)).2, (h128 (by decide)).2, (h32768 (by decide)).2.1⟩

end MethodType

end JvmGraph
