import JvmGraph.Proofs.ClassFile.Form

/-!
# Reading class files by their grammar

Every reader of a part of a class file goes by the written forms of that part. The reader of a class therefore
accepts the bytes of the valid forms, gives their meaning, and accepts nothing else.
-/

namespace JvmGraph

open Text Reader List AttributeForm ClassFile UInt32

variable {α : Type} {n : Nat} {pool : ConstantPool} {b : Bytes}

/-! ## Constants -/

namespace Constant

/-- The byte that tells the sorts of constants apart. -/
def tag : Constant → UInt8
  | utf8 _ => 1
  | integer _ => 3
  | float _ => 4
  | long _ => 5
  | double _ => 6
  | classRef _ => 7
  | string _ => 8
  | member .field _ _ => 9
  | member .method _ _ => 10
  | member .interfaceMethod _ _ => 11
  | nameAndType _ _ => 12

lemma written_eq_tag_cons (c : Constant) : ∃ b, c.written = c.tag :: b := by
  fun_cases tag c <;> exact ⟨_, rfl⟩

def Tagged (tag : UInt8) : Grammar Constant := fun c b => c.Fits ∧ c.written = tag :: b

lemma Tagged.tag_eq {tag : UInt8} {c : Constant} (h : Tagged tag c b) : c.tag = tag := by
  obtain ⟨b', hb'⟩ := c.written_eq_tag_cons
  exact (cons.inj (hb'.symm.trans h.2)).1

section

variable {tag : UInt8} (k : UInt8) (htag : tag.toNat = k.toNat)

include htag

lemma reads_tagged {r : Reader α} {w : α → Bytes} (hr : Reads n r fun a b => b = w a) (make : α → Constant)
    (hmake : ∀ a, Tagged k (make a) (w a)) (hinv : ∀ c, c.tag = k → ∃ a, c = make a := by
      intro c hc
      fun_cases Constant.tag c <;> simp_all [Constant.tag]) :
    Reads n (r >>= fun a => pure (make a)) (Tagged tag) := by
  obtain rfl := UInt8.toNat_inj.1 htag
  refine (hr.map_exact make).of_iff fun c b => ?_
  constructor
  · rintro ⟨a, rfl, rfl⟩; exact hmake a
  · intro h
    obtain ⟨a, rfl⟩ := hinv c h.tag_eq
    exact ⟨a, rfl, (cons.inj (h.2.symm.trans (hmake a).2)).2⟩

lemma reads_tagged_pair (make : UInt16 → UInt16 → Constant)
    (hmake : ∀ a a', Tagged k (make a a') (bigEndian 2 a.toNat ++ bigEndian 2 a'.toNat))
    (hinv : ∀ c, c.tag = k → ∃ a a', c = make a a' := by
      intro c hc
      fun_cases Constant.tag c <;> simp_all [Constant.tag]) :
    Reads n (u16 >>= fun a => u16 >>= fun a' => pure (make a a')) (Tagged tag) := by
  obtain rfl := UInt8.toNat_inj.1 htag
  refine (reads_u16.bind_exact fun a => reads_u16.map_exact (make a)).of_iff fun c b => ?_
  constructor
  · rintro ⟨a, _, ⟨a', rfl, rfl⟩, rfl⟩; exact hmake a a'
  · intro h
    obtain ⟨a, a', rfl⟩ := hinv c h.tag_eq
    exact ⟨a, _, ⟨a', rfl, rfl⟩, (cons.inj (h.2.symm.trans (hmake a a').2)).2⟩

end

lemma reads_utf8 : Reads n (u16 >>= fun k => take k.toNat >>= fun bytes => pure (utf8 bytes)) (Tagged 1) := by
  refine (reads_u16.bind_exact fun k => (reads_take k.toNat).bind fun bytes _ _ _ => .pure (utf8 bytes)).of_iff
    fun c b => ?_
  constructor
  · rintro ⟨k, _, ⟨bytes, _, _, ⟨rfl, hlength⟩, ⟨rfl, rfl⟩, rfl⟩, rfl⟩
    refine ⟨(congrArg (· < 0x10000) hlength).mpr k.toNat_lt, ?_⟩
    rw [append_nil, ← hlength]; rfl
  · intro h
    obtain ⟨bytes, rfl⟩ : ∃ bytes, c = utf8 bytes := by
      have htag := h.tag_eq
      fun_cases tag c <;> simp_all [tag]
    have hn : (UInt16.ofNat bytes.length).toNat = bytes.length := by
      rw [UInt16.toNat_ofNat', Nat.mod_eq_of_lt h.1]
    refine ⟨.ofNat bytes.length, bytes, ⟨bytes, bytes, [], ⟨rfl, hn.symm⟩, ⟨rfl, rfl⟩, (append_nil _).symm⟩, ?_⟩
    rw [hn]; exact (cons.inj h.2).2.symm

lemma reads_constant : Reads n readConstant (Written Fits id written) := by
  refine (reads_u8.bind_exact (F := Tagged) fun tag => ?_).of_iff fun c b => ?_
  · split
    next h =>
      obtain rfl : tag = 1 := UInt8.toNat_inj.1 h; exact reads_utf8
    next h =>
      refine reads_tagged 3 h reads_u32 (fun n => integer n.toInt32) (fun _ => ⟨trivial, rfl⟩) fun c hc => ?_
      fun_cases Constant.tag c <;> simp_all [Constant.tag]
      exact ⟨_, (Int32.toInt32_toUInt32 _).symm⟩
    next h => exact reads_tagged 4 h reads_u32 float fun _ => ⟨trivial, rfl⟩
    next h =>
      refine reads_tagged 5 h reads_u64 (fun n => long n.toInt64) (fun _ => ⟨trivial, rfl⟩) fun c hc => ?_
      fun_cases Constant.tag c <;> simp_all [Constant.tag]
      exact ⟨_, (Int64.toInt64_toUInt64 _).symm⟩
    next h => exact reads_tagged 6 h reads_u64 double fun _ => ⟨trivial, rfl⟩
    next h => exact reads_tagged 7 h reads_u16 classRef fun _ => ⟨trivial, rfl⟩
    next h => exact reads_tagged 8 h reads_u16 string fun _ => ⟨trivial, rfl⟩
    next h => exact reads_tagged_pair 9 h (member .field) fun _ _ => ⟨trivial, rfl⟩
    next h => exact reads_tagged_pair 10 h (member .method) fun _ _ => ⟨trivial, rfl⟩
    next h => exact reads_tagged_pair 11 h (member .interfaceMethod) fun _ _ => ⟨trivial, rfl⟩
    next h => exact reads_tagged_pair 12 h nameAndType fun _ _ => ⟨trivial, rfl⟩
    next =>
      refine (Reads.throw _).of_iff fun c b => ?_
      constructor
      · rintro ⟨⟩
      · intro h
        obtain rfl := h.tag_eq
        fun_cases Constant.tag c <;> simp_all [Constant.tag]
  · constructor
    · rintro ⟨tag, b, ⟨hfits, h⟩, rfl⟩; exact ⟨c, hfits, rfl, h⟩
    · rintro ⟨c, hfits, rfl, rfl⟩
      obtain ⟨b, h⟩ := c.written_eq_tag_cons; exact ⟨c.tag, b, ⟨hfits, h⟩, h⟩

lemma length_entries (c : Constant) : c.entries.length = if c.isWide then 2 else 1 := by
  rw [entries]
  split <;> rfl

lemma fill_zero {cs : List Constant} : Fill cs 0 ↔ cs = [] := by cases cs <;> simp [Fill]

lemma reads_constants : ∀ (n k : Nat) (done : List Constant), Reads n (readConstants done k) fun l b =>
    ∃ cs, l = done.reverse ++ cs ∧ Fill cs k ∧ (∀ c ∈ cs, c.Fits) ∧ cs.flatMap written = b
  | _, 0, done => by
    refine (Reads.pure done.reverse).of_iff fun l b => ?_
    simp only [fill_zero]
    constructor
    · rintro ⟨rfl, rfl⟩; exact ⟨[], (append_nil _).symm, rfl, forall_mem_nil _, rfl⟩
    · rintro ⟨_, rfl, rfl, -, rfl⟩; exact ⟨append_nil _, rfl⟩
  | _, 1, done => by
    refine (reads_constant.bind fun c _ _ _ => .pure (c :: done).reverse).of_iff fun l b => ?_
    constructor
    · rintro ⟨_, _, _, ⟨c, hc, rfl, rfl⟩, ⟨rfl, rfl⟩, rfl⟩
      refine ⟨[c], reverse_cons, ⟨Nat.one_pos, ?_⟩, by simpa using hc, by simp⟩
      rw [length_entries]
      split <;> rfl
    · rintro ⟨cs, rfl, hfill, hfits, rfl⟩
      obtain _ | ⟨c, cs⟩ := cs
      · simp [Fill] at hfill
      · have hnil : 1 - c.entries.length = 0 := by
          rw [length_entries]
          split <;> rfl
        rw [Fill, hnil, fill_zero] at hfill
        obtain ⟨-, rfl⟩ := hfill
        exact ⟨c, _, [], ⟨c, hfits c (.head _), rfl, rfl⟩, ⟨reverse_cons.symm, rfl⟩, by simp⟩
  | _, k + 2, done => by
    refine (reads_constant.bind (F := fun c l b => ∃ cs, l = (c :: done).reverse ++ cs ∧
      Fill cs (k + 2 - c.entries.length) ∧ (∀ c ∈ cs, c.Fits) ∧ cs.flatMap written = b) fun c _ _ _ => ?_).of_iff
        fun l b => ?_
    · split
      next hwide =>
        rw [show k + 2 - c.entries.length = k by simp [length_entries, hwide]]
        exact reads_constants _ k (c :: done)
      next hnarrow =>
        rw [show k + 2 - c.entries.length = k + 1 by simp [length_entries, hnarrow]]
        exact reads_constants _ (k + 1) (c :: done)
    · constructor
      · rintro ⟨_, _, _, ⟨c, hc, rfl, rfl⟩, ⟨cs, rfl, hfill, hfits, rfl⟩, rfl⟩
        exact ⟨c :: cs, by simp, ⟨by omega, hfill⟩, forall_mem_cons.2 ⟨hc, hfits⟩, rfl⟩
      · rintro ⟨cs, rfl, hfill, hfits, rfl⟩
        obtain _ | ⟨c, cs⟩ := cs
        · simp [Fill] at hfill
        · obtain ⟨hc, hfits⟩ := forall_mem_cons.1 hfits
          exact ⟨c, _, _, ⟨c, hc, rfl, rfl⟩, ⟨cs, by simp, hfill.2, hfits, rfl⟩, rfl⟩

end Constant

lemma reads_pool : Reads n readPool fun p b => ∃ (k : UInt16) (cs : List Constant),
    Constant.Fill cs (k.toNat - 1) ∧ (∀ c ∈ cs, c.Fits) ∧ p = .ofConstants cs ∧
      b = bigEndian 2 k.toNat ++ cs.flatMap Constant.written := by
  refine (reads_u16.bind_exact fun k => (Constant.reads_constants _ (k.toNat - 1) []).bind fun cs _ _ _ =>
    .pure (ConstantPool.ofConstants cs)).of_iff fun p b => ?_
  constructor
  · rintro ⟨n, _, ⟨_, _, _, ⟨cs, rfl, hfill, hfits, rfl⟩, ⟨rfl, rfl⟩, rfl⟩, rfl⟩
    exact ⟨n, _, hfill, hfits, rfl, by rw [append_nil]⟩
  · rintro ⟨n, cs, hfill, hfits, rfl, rfl⟩
    exact ⟨n, _, ⟨cs, _, [], ⟨cs, rfl, hfill, hfits, rfl⟩, ⟨rfl, rfl⟩, (append_nil _).symm⟩, rfl⟩

/-! ## Attributes -/

lemma reads_handler : Reads n readHandler (Written (fun _ => True) id Handler.bytes) := by
  refine (reads_u16.bind_exact fun startPc => reads_u16.bind_exact fun endPc => reads_u16.bind_exact fun handlerPc =>
    reads_u16.map_exact fun catchType => Handler.mk startPc endPc handlerPc catchType).of_iff fun h b => ?_
  constructor
  · rintro ⟨startPc, _, ⟨endPc, _, ⟨handlerPc, _, ⟨catchType, rfl, rfl⟩, rfl⟩, rfl⟩, rfl⟩
    exact ⟨_, trivial, rfl, by simp [Handler.bytes]⟩
  · rintro ⟨h, -, rfl, rfl⟩
    exact ⟨h.startPc, _, ⟨h.endPc, _, ⟨h.handlerPc, _, ⟨h.catchType, rfl, rfl⟩, rfl⟩, rfl⟩, by simp [Handler.bytes]⟩

def attributesOf (pool : ConstantPool) : Grammar Attribute :=
  Written (fun f => f.IsValid pool) AttributeForm.meaning AttributeForm.bytes

def codesOf (pool : ConstantPool) (length : UInt32) : Grammar Attribute := fun a b =>
  ∃ maxStack maxLocals instructions handlers attributes, instructions.length < 0x100000000 ∧
    ¬ length ≤ UInt32.ofNat instructions.length ∧ handlers.length < 0x10000 ∧ attributes.length < 0x10000 ∧
    (∀ f ∈ attributes, f.IsValid pool) ∧
    a = .code maxStack maxLocals instructions handlers (attributes.map AttributeForm.meaning) ∧
    b = codeBody maxStack maxLocals instructions handlers (countedBytes AttributeForm.bytes attributes)

lemma reads_code (length : UInt32) {nested : Reader Attribute}
    (hnested : Reads n nested (attributesOf pool)) : Reads n (readCode length nested) (codesOf pool length) := by
  refine (reads_u16.bind_exact fun maxStack => reads_u16.bind_exact fun maxLocals => reads_u32.bind_exact fun k =>
    .guard fun _ => (reads_take k.toNat).bind fun instructions _ _ _ =>
      (reads_counted reads_handler).bind fun handlers _ _ _ =>
    (reads_counted (hnested.mono (by omega))).bind fun attributes _ _ _ =>
    .pure (Attribute.code maxStack maxLocals instructions handlers attributes)).of_iff fun a b => ?_
  constructor
  · rintro ⟨maxStack, _, ⟨maxLocals, _, ⟨k, _, ⟨hlt, instructions, _, _, ⟨rfl, hk⟩, ⟨_, _, _,
      ⟨handlers, hhandlers, rfl, rfl⟩, ⟨_, _, _, ⟨attributes, hattributes, rfl, rfl⟩, ⟨rfl, rfl⟩, rfl⟩, rfl⟩, rfl⟩,
      rfl⟩, rfl⟩, rfl⟩
    have hof : UInt32.ofNat k.toNat = k := UInt32.ofNat_toNat
    refine ⟨maxStack, maxLocals, _, handlers, attributes, hk ▸ k.toNat_lt, by rwa [hk, hof], hhandlers.1,
      hattributes.1, hattributes.2, by simp, ?_⟩
    simp [codeBody, hk]
  · rintro ⟨maxStack, maxLocals, instructions, handlers, attributes, hinstructions, hlt, hhandlers, hlength,
      hattributes, rfl, rfl⟩
    have hn : (UInt32.ofNat instructions.length).toNat = instructions.length := by
      rw [UInt32.toNat_ofNat', Nat.mod_eq_of_lt hinstructions]
    refine ⟨maxStack, _, ⟨maxLocals, _, ⟨.ofNat instructions.length, _, ⟨hlt, instructions, _, _, ⟨rfl, hn.symm⟩,
      ⟨handlers, _, _, ⟨handlers, ⟨hhandlers, fun _ _ => trivial⟩, map_id _, rfl⟩,
      ⟨_, _, _, ⟨attributes, ⟨hlength, hattributes⟩, rfl, rfl⟩, ⟨rfl, rfl⟩, rfl⟩, rfl⟩, rfl⟩, rfl⟩, rfl⟩, ?_⟩
    simp [codeBody, hn]

lemma length_lt_codeBody (maxStack maxLocals : UInt16) (instructions : Bytes) (handlers : List Handler)
    (attributes : Bytes) :
    instructions.length < (codeBody maxStack maxLocals instructions handlers attributes).length := by
  simp only [codeBody, length_append, length_bigEndian]
  omega

lemma reads_attribute (pool : ConstantPool) : ∀ {n depth : Nat}, n ≤ depth →
    Reads n (readAttribute pool depth) (attributesOf pool)
  | n, 0, hn => by
    have hnil {s : Input} (hs : s.rest.length ≤ n) : s.rest = [] := length_eq_zero_iff.1 (by omega)
    refine ⟨fun s a s' hs => ?_, fun _ _ _ _ _ _ => rfl⟩
    simp only [hnil hs]
    constructor
    · intro h; cases h
    · rintro ⟨_, ⟨f, -, -, rfl⟩, hempty, -⟩
      obtain ⟨hbytes, -⟩ := append_eq_nil_iff.1 hempty.symm
      cases f <;> simp [bytes, attributeBytes, bigEndian] at hbytes
  | n, depth + 1, hn => by
    have hcode {m : Nat} {body : Bytes} (h : body.length ≤ depth) :
        Reads m (liftM (whole (readCode (.ofNat body.length) (readAttribute pool depth)) body) : Reader Attribute)
          fun a b => codesOf pool (.ofNat body.length) a body ∧ b = [] :=
      (Reads.lift _).of_iff fun a b => by rw [whole_ok (reads_code _ (reads_attribute pool (by omega))) h]
    refine (reads_u16.bind_exact fun nameIndex => reads_u32.bind_exact fun length =>
      (reads_take length.toNat).bind fun body _ hbody hle => (Reads.lift (pool.bytes nameIndex)).bind fun name _ _ _ =>
      .ite (fun _ => hcode ?_) fun _ => .pure (Attribute.other nameIndex body)).of_iff fun a b => ?_
    · rw [hbody.1, length_bigEndian] at hle; omega
    constructor
    · rintro ⟨nameIndex, _, ⟨length, _, ⟨_, body, _, ⟨rfl, hlength⟩, ⟨name, _, _, ⟨hname, rfl⟩, hbody, rfl⟩, rfl⟩,
        rfl⟩, rfl⟩
      have hlt : body.length < 0x100000000 := hlength ▸ length.toNat_lt
      obtain ⟨rfl, ⟨maxStack, maxLocals, instructions, handlers, attributes, -, -, hhandlers, hattributes, hforms,
        rfl, rfl⟩, rfl⟩ | ⟨hother, rfl, rfl⟩ := hbody
      · refine ⟨.code nameIndex maxStack maxLocals instructions handlers attributes,
          .code hname hlt hhandlers hattributes hforms, meaning.eq_1 .., ?_⟩
        simp [bytes_code, attributeBytes, hlength]
      · refine ⟨.other nameIndex body, .other hname hother hlt, meaning.eq_2 .., ?_⟩
        simp [bytes, attributeBytes, hlength]
    · rintro ⟨f, hvalid, rfl, rfl⟩
      have hfield {body : Bytes} (hlt : body.length < 0x100000000) : (ofNat body.length).toNat = body.length := by
        rw [toNat_ofNat', Nat.mod_eq_of_lt hlt]
      cases hvalid with
      | @code nameIndex maxStack maxLocals instructions handlers attributes hname hlt hhandlers hattributes hforms =>
        have hinstructions := length_lt_codeBody maxStack maxLocals instructions handlers
          (countedBytes bytes attributes)
        have hcheck : ¬ ofNat (codeBody maxStack maxLocals instructions handlers
            (countedBytes bytes attributes)).length ≤ ofNat instructions.length := by
          rw [le_iff_toNat_le, hfield hlt, hfield (by omega)]; omega
        refine ⟨nameIndex, _, ⟨.ofNat _, _, ⟨_, _, _, ⟨rfl, (hfield hlt).symm⟩, ⟨codeName, [], _, ⟨hname, rfl⟩,
          .inl ⟨rfl, ⟨maxStack, maxLocals, instructions, handlers, attributes, Nat.lt_trans hinstructions hlt, hcheck,
            hhandlers, hattributes, hforms, meaning.eq_1 .., rfl⟩, rfl⟩, rfl⟩, rfl⟩, rfl⟩, ?_⟩
        simp [bytes_code, attributeBytes, hfield hlt]
      | @other nameIndex info name hname hother hlt =>
        refine ⟨nameIndex, _, ⟨.ofNat info.length, _, ⟨info, info, _, ⟨rfl, (hfield hlt).symm⟩, ⟨name, [], _,
          ⟨hname, rfl⟩, .inr ⟨hother, meaning.eq_2 .., rfl⟩, rfl⟩, rfl⟩, rfl⟩, ?_⟩
        simp [bytes, attributeBytes, hfield hlt]

/-! ## Members and classes -/

lemma reads_member {nested : Reader Attribute} (hnested : Reads n nested (attributesOf pool)) :
    Reads n (readMember nested) (Written (fun f => f.IsValid pool) MemberForm.meaning MemberForm.bytes) := by
  refine (reads_u16.bind_exact fun flags => reads_u16.bind_exact fun nameIndex =>
    reads_u16.bind_exact fun descriptorIndex => (reads_counted (hnested.mono (by omega))).bind fun attributes _ _ _ =>
    .pure (Member.mk (.ofBits flags) nameIndex descriptorIndex attributes)).of_iff fun m b => ?_
  constructor
  · rintro ⟨flags, _, ⟨nameIndex, _, ⟨descriptorIndex, _, ⟨_, _, _, ⟨attributes, ⟨hlength, hforms⟩, rfl, rfl⟩,
      ⟨rfl, rfl⟩, rfl⟩, rfl⟩, rfl⟩, rfl⟩
    refine ⟨⟨flags, nameIndex, descriptorIndex, attributes⟩, ⟨hlength, hforms⟩, rfl, ?_⟩
    simp [MemberForm.bytes]
  · rintro ⟨f, ⟨hlength, hforms⟩, rfl, rfl⟩
    refine ⟨f.flags, _, ⟨f.nameIndex, _, ⟨f.descriptorIndex, _, ⟨_, _, _, ⟨f.attributes, ⟨hlength, hforms⟩, rfl, rfl⟩,
      ⟨rfl, rfl⟩, rfl⟩, rfl⟩, rfl⟩, ?_⟩
    simp [MemberForm.bytes]

lemma isSupported_iff {major minor : UInt16} : isSupported major minor ↔ minor = 0 ∧ (major = 49 ∨ major = 50) := by
  simp [isSupported]

lemma reads_class (size : Nat) :
    Reads size (readClass size) (Written ClassForm.IsValid ClassForm.meaning ClassForm.bytes) := by
  have hattribute (pool : ConstantPool) {n : Nat} := @reads_attribute pool n size
  refine (reads_u32.bind_exact fun magic => .guard fun _ => reads_u16.bind_exact fun minorVersion =>
    reads_u16.bind_exact fun majorVersion => .guard fun _ => reads_pool.bind fun pool _ _ _ =>
    reads_u16.bind_exact fun flags => reads_u16.bind_exact fun thisClass => reads_u16.bind_exact fun superClass =>
    (reads_counted reads_u16.written).bind fun interfaces _ _ _ =>
    (reads_counted (reads_member (hattribute pool (by omega)))).bind fun fields _ _ _ =>
    (reads_counted (reads_member (hattribute pool (by omega)))).bind fun methods _ _ _ =>
    (reads_counted (hattribute pool (by omega))).bind fun attributes _ _ _ =>
    .pure (mk minorVersion majorVersion pool (.ofBits flags) thisClass superClass interfaces fields methods
      attributes)).of_iff fun cf b => ?_
  constructor
  · rintro ⟨_, _, ⟨hmagic, minorVersion, _, ⟨majorVersion, _, ⟨hversion, _, _, _, ⟨poolCount, constants, hfill, hfits,
      rfl, rfl⟩, ⟨flags, _, ⟨thisClass, _, ⟨superClass, _, ⟨_, _, _, ⟨interfaces, ⟨hinterfaces, -⟩, rfl, rfl⟩, ⟨_, _, _,
      ⟨fields, ⟨hfields, hfieldForms⟩, rfl, rfl⟩, ⟨_, _, _, ⟨methods, ⟨hmethods, hmethodForms⟩, rfl, rfl⟩, ⟨_, _, _,
      ⟨attributes, ⟨hattributes, hforms⟩, rfl, rfl⟩, ⟨rfl, rfl⟩, rfl⟩, rfl⟩, rfl⟩, rfl⟩, rfl⟩, rfl⟩, rfl⟩, rfl⟩, rfl⟩,
      rfl⟩, rfl⟩
    obtain rfl := Decidable.of_not_not hmagic
    obtain ⟨hminor, hmajor⟩ := isSupported_iff.1 (by simpa using hversion)
    refine ⟨⟨minorVersion, majorVersion, poolCount, constants, flags, thisClass, superClass, interfaces,
      fields, methods,
      attributes⟩, ⟨hminor, hmajor, hfill, hfits, hinterfaces, hfields, hfieldForms, hmethods,
        hmethodForms, hattributes,
      hforms⟩, ?_, ?_⟩
    · simp [ClassForm.meaning, ClassForm.pool]
    · simp [ClassForm.bytes, classMagic]
  · rintro ⟨f, hvalid, rfl, rfl⟩
    have hversion := isSupported_iff.2 ⟨hvalid.minorVersion, hvalid.majorVersion⟩
    refine ⟨classMagic, _, ⟨fun h => h rfl, f.minorVersion, _, ⟨f.majorVersion, _, ⟨by simp [hversion], f.pool, _, _,
      ⟨f.poolCount, f.constants, hvalid.fill, hvalid.constants, rfl, rfl⟩,
        ⟨f.flags, _, ⟨f.thisClass, _, ⟨f.superClass, _,
      ⟨_, _, _, ⟨f.interfaces, ⟨hvalid.length_interfaces, fun _ _ => trivial⟩, map_id _, rfl⟩,
      ⟨_, _, _, ⟨f.fields, ⟨hvalid.length_fields, hvalid.fields⟩, rfl, rfl⟩,
      ⟨_, _, _, ⟨f.methods, ⟨hvalid.length_methods, hvalid.methods⟩, rfl, rfl⟩,
      ⟨_, _, _, ⟨f.attributes, ⟨hvalid.length_attributes, hvalid.attributes⟩, rfl, rfl⟩, ⟨rfl, rfl⟩, rfl⟩, rfl⟩, rfl⟩,
      rfl⟩, rfl⟩, rfl⟩, rfl⟩, rfl⟩, rfl⟩, rfl⟩, ?_⟩
    simp [ClassForm.bytes, classMagic]

/-! ## The whole file -/

lemma parse_ok {cf : ClassFile} : parse b = .ok cf ↔ ∃ f : ClassForm, f.IsValid ∧ f.meaning = cf ∧ f.bytes = b :=
  whole_ok (reads_class b.length) (by omega)

/-- Reading undoes writing, accepts the valid forms only, and what was read is the standard form of the file but for
flags without a meaning, the constant that names code and the count of the pool. -/
theorem parse_serialise :
    (∀ (cf : ClassFile) (codeIndex : UInt16), cf.IsWritable codeIndex →
      ClassFile.parse (cf.serialise codeIndex) = .ok cf) ∧
    (∀ f : ClassForm, f.IsValid → ClassFile.parse f.bytes = .ok f.meaning) ∧
    ∀ (b : Bytes) (cf : ClassFile), ClassFile.parse b = .ok cf →
      ∃ f : ClassForm, f.IsValid ∧ f.bytes = b ∧ f.meaning = cf ∧
        ∀ codeIndex, cf.serialise codeIndex = (f.standard codeIndex).bytes := by
  refine ⟨fun cf codeIndex h => parse_ok.2 ⟨_, h.isValid_form, h.meaning_form, rfl⟩,
    fun f hf => parse_ok.2 ⟨f, hf, rfl, rfl⟩, fun b cf h => ?_⟩
  obtain ⟨f, hvalid, rfl, rfl⟩ := parse_ok.1 h
  exact ⟨f, hvalid, rfl, rfl, fun codeIndex => congrArg ClassForm.bytes (f.form_meaning codeIndex)⟩

/-- Code within code, each under a constant of its own, with flags that have no meaning. The second index of the last
constant is not counted. -/
def ClassForm.nested : ClassForm where
  minorVersion := 0
  majorVersion := 50
  poolCount := 5
  constants := [.utf8 codeName, .utf8 codeName, .utf8 [], .long (-1)]
  flags := 0xf001
  thisClass := 7
  superClass := 0
  interfaces := [7]
  fields := []
  methods := [⟨0x1008, 3, 3, [.code 1 1 1 [0xb1] [⟨0, 1, 0, 0⟩] [.code 2 0 0 [] [] [.other 3 [1, 2]]]]⟩]
  attributes := [.other 3 []]

theorem parse_serialise_nested :
    ClassForm.nested.IsValid ∧ ClassFile.parse ClassForm.nested.bytes = .ok ClassForm.nested.meaning ∧
      ClassForm.nested.meaning.IsWritable 1 ∧
      ClassFile.parse (ClassForm.nested.meaning.serialise 1) = .ok ClassForm.nested.meaning ∧
      ∃ f : ClassForm, f.IsValid ∧ f.bytes = ClassForm.nested.bytes ∧ f.meaning = ClassForm.nested.meaning ∧
        ∀ codeIndex, ClassForm.nested.meaning.serialise codeIndex = (f.standard codeIndex).bytes := by
  have hother (info : Bytes) (h : info.length < 0x100000000) :
      (other 3 info).IsValid ClassForm.nested.pool :=
    .other (show _ = Except.ok [] from rfl) (by decide +kernel) h
  have hcode (i : UInt16) (h : ClassForm.nested.pool.bytes i = .ok codeName) :
      (code 1 1 1 [0xb1] [⟨0, 1, 0, 0⟩] [.code i 0 0 [] [] [.other 3 [1, 2]]]).IsValid
        ClassForm.nested.pool := by
    refine .code rfl ?_ (by decide) (by simp) ?_
    · simp [codeBody, countedBytes, bytes, attributeBytes, Handler.bytes]
    · refine forall_mem_singleton.2 (.code h ?_ (by decide) (by decide) ?_)
      · simp [codeBody, countedBytes, bytes, attributeBytes]
      · exact forall_mem_singleton.2 (hother _ (by decide))
  have hconstants : ∀ c ∈ ClassForm.nested.constants, c.Fits := by decide +kernel
  have hvalid : ClassForm.nested.IsValid := by
    refine ⟨rfl, .inr rfl, by decide, hconstants, by decide, by decide, forall_mem_nil _, by decide, ?_,
      by decide, ?_⟩
    · exact forall_mem_singleton.2 ⟨by decide, forall_mem_singleton.2 (hcode 2 rfl)⟩
    · exact forall_mem_singleton.2 (hother _ (by decide))
  have hwritable : ClassForm.nested.meaning.IsWritable 1 := by
    have hpool : ClassForm.nested.meaning.pool = ClassForm.nested.pool := rfl
    refine ⟨rfl, .inr rfl, ConstantPool.isLaidOut_ofConstants _, by decide, hconstants, by decide, by decide, by decide,
      forall_mem_nil _, by decide, ?_, by decide, ?_⟩
    · refine forall_mem_singleton.2 ⟨by decide, ?_⟩
      rw [MemberForm.form_meaning]
      refine ⟨by simp [MemberForm.standard], ?_⟩
      simpa [MemberForm.standard, standard, hpool] using hcode 1 rfl
    · refine forall_mem_singleton.2 ?_
      simpa [form_meaning, standard, hpool] using hother [] (by decide)
  exact ⟨hvalid, parse_serialise.2.1 _ hvalid, hwritable, parse_serialise.1 _ _ hwritable,
    parse_serialise.2.2 _ _ (parse_serialise.2.1 _ hvalid)⟩

/-- A class file says itself where it ends: one that is left off early is cut off, and nothing may follow. -/
theorem parse_delimited {b : Bytes} {cf : ClassFile} (h : ClassFile.parse b = .ok cf) :
    (∀ p x : Bytes, p ++ x = b → x ≠ [] → ClassFile.parse p = .error .truncated) ∧
      ∀ x : Bytes, x ≠ [] → ClassFile.parse (b ++ x) = .error (.trailingBytes x.length) := by
  have hform := (whole_ok (reads_class b.length) (Nat.le_refl _)).1 h
  constructor
  · rintro p x rfl hx
    exact whole_cut (reads_class p.length) (Nat.le_refl _) hform hx
  · exact fun x hx => whole_trailing (reads_class _) (Nat.le_refl _) hform hx

def ClassDraft.returning : ClassDraft := { name := "C", methods := [{ flags := 9, name := "m", code? := some [0xb1] }] }

/-- The file of `returning` up to the instruction and with two bytes more. -/
theorem parse_delimited_returning :
    (∃ cf, ClassFile.parse ClassDraft.returning.written = .ok cf) ∧
      ClassFile.parse (ClassDraft.returning.written.take 90) = .error .truncated ∧
      ClassFile.parse (ClassDraft.returning.written ++ [0, 1]) = .error (.trailingBytes 2) := by
  have hread : (parse ClassDraft.returning.written).toOption.isSome := by decide +kernel
  obtain ⟨cf, hcf⟩ := Option.isSome_iff_exists.1 hread
  obtain ⟨hcut, htrailing⟩ := parse_delimited (Steps.ok_of_toOption hcf)
  exact ⟨⟨cf, Steps.ok_of_toOption hcf⟩, hcut _ _ (take_append_drop 90 _) (by decide +kernel),
    htrailing [0, 1] (by decide)⟩

end JvmGraph
