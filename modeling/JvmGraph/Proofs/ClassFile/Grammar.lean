import JvmGraph.Proofs.Steps
import JvmGraph.Proofs.ClassFile.Writer

/-!
# Readers and grammars

A grammar says which bytes write which values. A reader goes by a grammar if it accepts exactly what the
grammar allows in front of any other bytes, and takes nothing of those. Such readers can be put one after the
other, repeated, and run on an input of their own.
-/

namespace JvmGraph

open Text Steps List UInt32

variable {α β : Type}

abbrev Grammar (α : Type) := α → Bytes → Prop

variable {w : α → Bytes}

namespace Reader

/-- On inputs of at most `n` bytes, a reader accepts exactly what the grammar allows, whatever follows, and finds out
if the input ends before that does. -/
structure Reads (n : Nat) (r : Reader α) (G : Grammar α) : Prop where
  ok : ∀ s a s', s.rest.length ≤ n →
    (r s = .ok (a, s') ↔ ∃ b, G a b ∧ s.rest = b ++ s'.rest ∧ s'.position = s.position + b.length)
  cut : ∀ s a c x, s.rest.length ≤ n → G a (s.rest ++ c :: x) → r s = .error .truncated

namespace Reads

variable {n : Nat} {r : Reader α} {G G' : Grammar α} {f : α → Reader β} {F : α → Grammar β} {c : Prop}

lemma mono {m : Nat} (h : Reads n r G) (hm : m ≤ n) : Reads m r G :=
  ⟨fun s a s' hs => h.ok s a s' (by omega), fun s a c x hs => h.cut s a c x (by omega)⟩

lemma of_iff (h : Reads n r G) (hG : ∀ a b, G a b ↔ G' a b) : Reads n r G' := by
  obtain rfl : G = G' := funext fun a => funext fun b => propext (hG a b)
  exact h

lemma pure (a : α) : Reads n (pure a) fun a' b => a' = a ∧ b = [] := by
  refine ⟨fun s a' s' _ => ?_, fun s a' c x _ h => by simp at h⟩
  rw [state_pure_ok]
  constructor
  · rintro ⟨rfl, rfl⟩; exact ⟨[], ⟨rfl, rfl⟩, rfl, rfl⟩
  · rintro ⟨_, ⟨rfl, rfl⟩, hrest, hposition⟩
    obtain ⟨position, rest⟩ := s
    cases hrest
    cases hposition
    exact ⟨rfl, rfl⟩

lemma throw (e : Error) : Reads n (throw e : Reader α) fun _ _ => False := by
  refine ⟨fun s a s' _ => ?_, fun _ _ _ _ _ h => h.elim⟩
  constructor
  · intro h; cases h
  · rintro ⟨_, ⟨⟩, -⟩

lemma bind (hr : Reads n r G) (hf : ∀ a b, G a b → b.length ≤ n → Reads (n - b.length) (f a) (F a)) :
    Reads n (r >>= f) fun c b => ∃ a b1 b2, G a b1 ∧ F a c b2 ∧ b = b1 ++ b2 := by
  refine ⟨fun s c s' hs => ?_, fun s c d x hs => ?_⟩
  · rw [state_bind_ok]
    constructor
    · rintro ⟨a, s1, h1, h2⟩
      obtain ⟨b1, hG, hrest1, hposition1⟩ := (hr.ok s a s1 hs).1 h1
      rw [hrest1, length_append] at hs
      obtain ⟨b2, hF, hrest2, hposition2⟩ := ((hf a b1 hG (by omega)).ok s1 c s' (by omega)).1 h2
      refine ⟨b1 ++ b2, ⟨a, b1, b2, hG, hF, rfl⟩, ?_, ?_⟩
      · rw [hrest1, hrest2, append_assoc]
      · rw [hposition2, hposition1, length_append, Nat.add_assoc]
    · rintro ⟨_, ⟨a, b1, b2, hG, hF, rfl⟩, hrest, hposition⟩
      rw [append_assoc] at hrest
      rw [length_append, ← Nat.add_assoc] at hposition
      refine ⟨a, ⟨s.position + b1.length, b2 ++ s'.rest⟩, (hr.ok _ _ _ hs).2 ⟨b1, hG, hrest, rfl⟩, ?_⟩
      rw [hrest, length_append] at hs
      exact ((hf a b1 hG (by omega)).ok _ _ _ (by dsimp only; omega)).2 ⟨b2, hF, rfl, hposition⟩
  · rintro ⟨a, b1, b2, hG, hF, heq⟩
    rw [state_bind_error]
    obtain ⟨left, hrest, hb2⟩ | ⟨left, rfl, hb2⟩ := append_eq_append_iff.1 heq.symm
    · -- the first reader gets what it needs
      refine .inr ⟨a, ⟨s.position + b1.length, left⟩, (hr.ok _ _ _ hs).2 ⟨b1, hG, hrest, rfl⟩, ?_⟩
      rw [hrest, length_append] at hs
      exact (hf a b1 hG (by omega)).cut _ c d x (by dsimp only; omega) (hb2 ▸ hF)
    · obtain _ | ⟨e, left⟩ := left
      · rw [append_nil] at hG
        refine .inr ⟨a, ⟨s.position + s.rest.length, []⟩, (hr.ok _ _ _ hs).2 ⟨_, hG, (append_nil _).symm, rfl⟩, ?_⟩
        exact (hf a _ hG hs).cut _ c d x (Nat.zero_le _) (hb2 ▸ hF)
      · exact .inl (hr.cut s a e left hs hG)

lemma bind_exact (hr : Reads n r fun a b => b = w a)
    (hf : ∀ a, Reads (n - (w a).length) (f a) (F a)) : Reads n (r >>= f) fun c b => ∃ a b', F a c b' ∧
    b = w a ++ b' := by
  refine (hr.bind fun a b hb _ => hb ▸ hf a).of_iff fun c b => ?_
  constructor
  · rintro ⟨a, _, b', rfl, hF, rfl⟩; exact ⟨a, b', hF, rfl⟩
  · rintro ⟨a, b', hF, rfl⟩; exact ⟨a, w a, b', rfl, hF, rfl⟩

lemma map_exact (hr : Reads n r fun a b => b = w a) (f : α → β) :
    Reads n (r >>= fun a => Pure.pure (f a)) fun c b => ∃ a, c = f a ∧ b = w a := by
  refine (hr.bind_exact fun a => pure (f a)).of_iff fun c b => ?_
  constructor
  · rintro ⟨a, _, ⟨rfl, rfl⟩, rfl⟩; exact ⟨a, rfl, append_nil _⟩
  · rintro ⟨a, rfl, rfl⟩; exact ⟨a, [], ⟨rfl, rfl⟩, (append_nil _).symm⟩

lemma lift (x : Except Error α) : Reads n (liftM x : Reader α) fun a b => x = .ok a ∧ b = [] := by
  cases x with
  | error e =>
    refine (throw e).of_iff fun a b => ?_
    simp
  | ok a =>
    refine (pure a).of_iff fun a' b => ?_
    simp [eq_comm]

lemma guard [Decidable c] {e : Error} (hr : ¬ c → Reads n r G) :
    Reads n (if c then MonadExcept.throw e else r) fun a b => ¬ c ∧ G a b := by
  split
  next h => exact (throw e).of_iff fun a b => by simp [h]
  next h => exact (hr h).of_iff fun a b => by simp [h]

lemma ite [Decidable c] {r' : Reader α} (hr : c → Reads n r G) (hr' : ¬ c → Reads n r' G') :
    Reads n (if c then r else r') fun a b => (c ∧ G a b) ∨ (¬ c ∧ G' a b) := by
  split
  next h => exact (hr h).of_iff fun a b => by simp [h]
  next h => exact (hr' h).of_iff fun a b => by simp [h]

end Reads

section Whole

variable {n : Nat} {r : Reader α} {G : Grammar α} (hr : Reads n r G) {input : Bytes} {a : α} {x : Bytes}

include hr

/-- A reader with an input of its own accepts what the grammar allows. -/
lemma whole_ok (hn : input.length ≤ n) : whole r input = .ok a ↔ G a input := by
  rw [whole, except_bind_ok]
  constructor
  · rintro ⟨⟨a', left⟩, h, hleft⟩
    obtain ⟨b, hG, hrest, -⟩ := (hr.ok _ _ _ hn).1 h
    simp only at hleft
    split at hleft
    next hempty =>
      cases hleft
      rw [isEmpty_iff.1 hempty, append_nil] at hrest; rwa [show input = b from hrest]
    next => cases hleft
  · intro hG
    exact ⟨(a, ⟨0 + input.length, []⟩), (hr.ok _ _ _ hn).2 ⟨input, hG, (append_nil _).symm, rfl⟩, rfl⟩

lemma whole_cut (hn : input.length ≤ n) (h : G a (input ++ x)) (hx : x ≠ []) : whole r input = .error .truncated := by
  obtain ⟨c, x, rfl⟩ := exists_cons_of_ne_nil hx
  rw [whole, hr.cut ⟨0, input⟩ a c x hn h]
  rfl

lemma whole_trailing (hn : (input ++ x).length ≤ n) (h : G a input) (hx : x ≠ []) :
    whole r (input ++ x) = .error (.trailingBytes x.length) := by
  rw [whole, (hr.ok ⟨0, input ++ x⟩ a ⟨0 + input.length, x⟩ hn).2 ⟨input, h, rfl, rfl⟩]
  obtain ⟨c, x, rfl⟩ := exists_cons_of_ne_nil hx
  rfl

end Whole

/-! ## Repetition -/

def Row (G : Grammar α) : Grammar (List α)
  | [], b => b = []
  | a :: as, b => ∃ b₁ b₂, G a b₁ ∧ Row G as b₂ ∧ b = b₁ ++ b₂

variable {n : Nat} {r : Reader α} {G : Grammar α}

lemma reads_timesAfter (hr : Reads n r G) : ∀ {m : Nat} (_ : m ≤ n) (k : Nat) (done : List α),
    Reads m (timesAfter r done k) fun l b => ∃ new, l = done.reverse ++ new ∧ new.length = k ∧ Row G new b
  | _, _, 0, done => by
    refine (Reads.pure done.reverse).of_iff fun l b => ?_
    constructor
    · rintro ⟨rfl, rfl⟩; exact ⟨[], (append_nil _).symm, rfl, rfl⟩
    · rintro ⟨new, rfl, hlength, hrow⟩
      obtain rfl := length_eq_zero_iff.1 hlength; exact ⟨append_nil _, hrow⟩
  | _, hm, k + 1, done => by
    refine ((hr.mono hm).bind fun a _ _ _ => reads_timesAfter hr (by omega) k (a :: done)).of_iff fun l b => ?_
    constructor
    · rintro ⟨a, b1, b2, hG, ⟨new, rfl, hlength, hrow⟩, rfl⟩
      exact ⟨a :: new, by simp, by simp [hlength], b1, b2, hG, hrow, rfl⟩
    · rintro ⟨new, rfl, hlength, hrow⟩
      obtain ⟨a, new, rfl⟩ := exists_cons_of_length_eq_add_one hlength
      obtain ⟨b1, b2, hG, hrow, rfl⟩ := hrow
      exact ⟨a, b1, b2, hG, ⟨new, by simp, by simpa using hlength, hrow⟩, rfl⟩

lemma reads_times (hr : Reads n r G) (k : Nat) : Reads n (times k r) fun l b => l.length = k ∧ Row G l b := by
  refine (reads_timesAfter hr (by omega) k []).of_iff fun l b => ?_
  simp

lemma reads_take (k : Nat) : Reads n (take k) fun a b => b = a ∧ a.length = k := by
  refine ⟨fun s a s' _ => ?_, fun s a c x _ h => ?_⟩
  · obtain ⟨position, rest⟩ := s
    obtain ⟨position', rest'⟩ := s'
    simp only [take]
    split
    next h =>
      constructor
      · rintro ⟨rfl, rfl, rfl⟩; exact ⟨_, ⟨rfl, h⟩, (take_append_drop k rest).symm, by rw [h]⟩
      · rintro ⟨_, ⟨rfl, hlength⟩, rfl, rfl⟩; subst hlength; simp
    next h =>
      simp only [reduceCtorEq, false_iff, not_exists, not_and]
      rintro _ ⟨rfl, hlength⟩ rfl -; simp [← hlength] at h
  · obtain ⟨rfl, hlength⟩ := h
    rw [length_append, length_cons] at hlength
    rw [take, if_neg (by rw [length_take]; omega)]

/-! ## Numbers -/

lemma reads_u8 : Reads n u8 fun a b => b = [a] := by
  refine ⟨fun s a s' _ => ?_, fun s a c x _ h => ?_⟩
  · obtain ⟨position, rest⟩ := s
    obtain ⟨position', rest'⟩ := s'
    cases rest with
    | nil => simp [u8]
    | cons c rest =>
      simp only [u8, Except.ok.injEq, Prod.mk.injEq, Input.mk.injEq]
      constructor
      · rintro ⟨rfl, rfl, rfl⟩; exact ⟨_, rfl, rfl, rfl⟩
      · rintro ⟨_, rfl, hrest, rfl⟩
        cases hrest
        exact ⟨rfl, rfl, rfl⟩
  · obtain ⟨position, rest⟩ := s
    cases rest with
    | nil => rfl
    | cons => simp at h

end Reader

@[simp] lemma length_bigEndian (w n : Nat) : (bigEndian w n).length = w := by simp [bigEndian]

lemma bigEndian_add (w v n : Nat) : bigEndian (w + v) n = bigEndian w (n >>> (8 * v)) ++ bigEndian v n := by
  simp only [bigEndian]
  rw [Nat.add_comm w v, range_add, reverse_append, map_append, ← map_reverse, map_map]
  congr 1
  refine map_congr_left fun i _ => ?_
  simp only [Function.comp_apply]
  rw [Nat.mul_add, Nat.shiftRight_add]

lemma bigEndian_mod (w n : Nat) : bigEndian w (n % 1 <<< (8 * w)) = bigEndian w n := by
  rw [Nat.one_shiftLeft]
  refine map_congr_left fun i hi => ?_
  rw [mem_reverse, mem_range] at hi
  rw [← UInt8.toNat_inj, UInt8.toNat_ofNat', UInt8.toNat_ofNat', Nat.shiftRight_eq_div_pow, Nat.shiftRight_eq_div_pow]
  -- byte `i` lies wholly below the cut
  have hsplit : 2 ^ (8 * w) = 2 ^ (8 * i) * (2 ^ 8 * 2 ^ (8 * (w - i - 1))) := by
    rw [← Nat.pow_add, ← Nat.pow_add]
    congr 1
    omega
  rw [hsplit, Nat.mod_mul_right_div_self, Nat.mod_mul_right_mod]

lemma bigEndian_shiftLeft_add (w v : Nat) {hi lo : Nat} (hlo : lo < 1 <<< (8 * v)) :
    bigEndian (w + v) (hi <<< (8 * v) + lo) = bigEndian w hi ++ bigEndian v lo := by
  have hpos : 0 < 2 ^ (8 * v) := Nat.two_pow_pos _
  rw [bigEndian_add, ← bigEndian_mod v (hi <<< (8 * v) + lo)]
  rw [Nat.one_shiftLeft] at hlo ⊢
  rw [Nat.shiftLeft_eq, Nat.shiftRight_eq_div_pow, Nat.mul_comm hi, Nat.mul_add_div hpos, Nat.div_eq_of_lt hlo,
    Nat.mul_add_mod, Nat.mod_eq_of_lt hlo, Nat.add_zero]

lemma bigEndian_one (a : UInt8) : bigEndian 1 a.toNat = [a] := by simp [bigEndian]

lemma toNat_join_u8 (hi lo : UInt8) : (hi.toUInt16 <<< 8 ||| lo.toUInt16).toNat = hi.toNat <<< 8 + lo.toNat := by
  have hhi := hi.toNat_lt
  have hlo := lo.toNat_lt
  rw [UInt16.toNat_or, UInt16.toNat_shiftLeft]
  simp only [UInt8.toNat_toUInt16]
  rw [show (8 : UInt16).toNat % 16 = 8 from rfl, Nat.mod_eq_of_lt (by omega), ← Nat.shiftLeft_add_eq_or_of_lt hlo]

lemma toNat_join_u16 (hi lo : UInt16) : (hi.toUInt32 <<< 16 ||| lo.toUInt32).toNat = hi.toNat <<< 16 + lo.toNat := by
  have hhi := hi.toNat_lt
  have hlo := lo.toNat_lt
  rw [UInt32.toNat_or, UInt32.toNat_shiftLeft]
  simp only [UInt16.toNat_toUInt32]
  rw [show (16 : UInt32).toNat % 32 = 16 from rfl, Nat.mod_eq_of_lt (by omega), ← Nat.shiftLeft_add_eq_or_of_lt hlo]

lemma toNat_join_u32 (hi lo : UInt32) : (hi.toUInt64 <<< 32 ||| lo.toUInt64).toNat = hi.toNat <<< 32 + lo.toNat := by
  have hhi := hi.toNat_lt
  have hlo := lo.toNat_lt
  rw [UInt64.toNat_or, UInt64.toNat_shiftLeft]
  simp only [toNat_toUInt64]
  rw [show (32 : UInt64).toNat % 64 = 32 from rfl, Nat.mod_eq_of_lt (by omega), ← Nat.shiftLeft_add_eq_or_of_lt hlo]

namespace Reader

variable {n : Nat}

lemma reads_halves {r : Reader α} (value : α → Nat) (width : Nat) {join : α → α → β} {value' : β → Nat}
    (hr : ∀ {n}, Reads n r fun a b => b = bigEndian width (value a)) (hlt : ∀ a, value a < 1 <<< (8 * width))
    (hjoin : ∀ hi lo, value' (join hi lo) = value hi <<< (8 * width) + value lo)
    (hsplit : ∀ c, ∃ hi lo, c = join hi lo) :
    Reads n (r >>= fun hi => r >>= fun lo => pure (join hi lo)) fun c b => b = bigEndian (width + width)
    (value' c) := by
  refine (hr.bind_exact fun hi => hr.map_exact (join hi)).of_iff fun c b => ?_
  have hwritten (hi lo : α) : bigEndian width (value hi) ++ bigEndian width (value lo) =
      bigEndian (width + width) (value' (join hi lo)) := by
    rw [hjoin, bigEndian_shiftLeft_add width width (hlt lo)]
  constructor
  · rintro ⟨hi, _, ⟨lo, rfl, rfl⟩, rfl⟩; exact hwritten hi lo
  · rintro rfl
    obtain ⟨hi, lo, rfl⟩ := hsplit c; exact ⟨hi, _, ⟨lo, rfl, rfl⟩, (hwritten hi lo).symm⟩

lemma reads_u16 : Reads n u16 fun a b => b = bigEndian 2 a.toNat := by
  refine reads_halves UInt8.toNat 1 (reads_u8.of_iff fun a b => by rw [bigEndian_one])
    UInt8.toNat_lt toNat_join_u8 fun c => ?_
  have hc := c.toNat_lt
  refine ⟨.ofNat (c.toNat / 2 ^ 8), .ofNat (c.toNat % 2 ^ 8), ?_⟩
  rw [← UInt16.toNat_inj, toNat_join_u8, UInt8.toNat_ofNat', UInt8.toNat_ofNat']
  omega

lemma reads_u32 : Reads n u32 fun a b => b = bigEndian 4 a.toNat := by
  refine reads_halves UInt16.toNat 2 reads_u16 UInt16.toNat_lt toNat_join_u16 fun c => ?_
  have hc := c.toNat_lt
  refine ⟨.ofNat (c.toNat / 2 ^ 16), .ofNat (c.toNat % 2 ^ 16), ?_⟩
  rw [← UInt32.toNat_inj, toNat_join_u16, UInt16.toNat_ofNat', UInt16.toNat_ofNat']
  omega

lemma reads_u64 : Reads n u64 fun a b => b = bigEndian 8 a.toNat := by
  refine reads_halves toNat 4 reads_u32 toNat_lt toNat_join_u32 fun c => ?_
  have hc := c.toNat_lt
  refine ⟨.ofNat (c.toNat / 2 ^ 32), .ofNat (c.toNat % 2 ^ 32), ?_⟩
  rw [← UInt64.toNat_inj, toNat_join_u32, toNat_ofNat', toNat_ofNat']
  omega

/-! ## Written forms -/

def Written {φ : Type} (valid : φ → Prop) (meaning : φ → α) (bytes : φ → Bytes) : Grammar α :=
  fun a b => ∃ f, valid f ∧ meaning f = a ∧ bytes f = b

def countedBytes {φ : Type} (bytes : φ → Bytes) (items : List φ) : Bytes :=
  bigEndian 2 items.length ++ items.flatMap bytes

section Written

variable {φ : Type} {valid : φ → Prop} {meaning : φ → α} {bytes : φ → Bytes} {r : Reader α}

lemma Reads.written (hr : Reads n r fun a b => b = w a) : Reads n r (Written (fun _ => True) id w) := by
  refine hr.of_iff fun a b => ?_
  constructor
  · rintro rfl; exact ⟨a, trivial, rfl, rfl⟩
  · rintro ⟨_, -, rfl, rfl⟩; rfl

lemma row_written : ∀ (l : List α) (b : Bytes), Row (Written valid meaning bytes) l b ↔
    ∃ fs : List φ, (∀ f ∈ fs, valid f) ∧ fs.map meaning = l ∧ fs.flatMap bytes = b
  | [], b => by
    constructor
    · rintro rfl; exact ⟨[], forall_mem_nil _, rfl, rfl⟩
    · rintro ⟨fs, -, hfs, rfl⟩; rw [map_eq_nil_iff.1 hfs]; rfl
  | a :: l, b => by
    simp only [Row, row_written l]
    constructor
    · rintro ⟨_, _, ⟨f, hf, rfl, rfl⟩, ⟨fs, hfs, rfl, rfl⟩, rfl⟩
      exact ⟨f :: fs, forall_mem_cons.2 ⟨hf, hfs⟩, rfl, rfl⟩
    · rintro ⟨fs, hfs, hmap, rfl⟩
      obtain ⟨f, fs, rfl, rfl, rfl⟩ := map_eq_cons_iff.1 hmap
      obtain ⟨hf, hfs⟩ := forall_mem_cons.1 hfs
      exact ⟨_, _, ⟨f, hf, rfl, rfl⟩, ⟨fs, hfs, rfl, rfl⟩, rfl⟩

lemma reads_counted (hr : Reads n r (Written valid meaning bytes)) :
    Reads n (counted r) (Written (fun fs => fs.length < 0x10000 ∧ ∀ f ∈ fs, valid f) (List.map meaning)
      (countedBytes bytes)) := by
  refine (reads_u16.bind_exact fun k => reads_times (hr.mono (by omega)) k.toNat).of_iff fun l b => ?_
  simp only [row_written]
  constructor
  · rintro ⟨k, _, ⟨hlength, fs, hfs, rfl, rfl⟩, rfl⟩
    rw [length_map] at hlength
    exact ⟨fs, ⟨hlength ▸ k.toNat_lt, hfs⟩, rfl, by rw [countedBytes, hlength]⟩
  · rintro ⟨fs, ⟨hlt, hfs⟩, rfl, rfl⟩
    have hk : (UInt16.ofNat fs.length).toNat = fs.length := by
      rw [UInt16.toNat_ofNat', Nat.mod_eq_of_lt hlt]
    exact ⟨.ofNat fs.length, _, ⟨by rw [length_map, hk], fs, hfs, rfl, rfl⟩, by rw [countedBytes, hk]⟩

end Written

end Reader

end JvmGraph
