/-!
# UTF-8, strict and lossy

A byte sequence is cut into segments, each a character or a fault. A fault is a longest run of bytes
that begins some well-formed sequence without finishing it, or else a single byte that begins none.
Strict reading refuses a text with a fault; lossy reading writes U+FFFD for each one.
-/

namespace JvmGraph.Text

abbrev Bytes := List UInt8

namespace Utf8

/-- What a lead byte promises: its own payload bits, the range of the byte after it, and how many
continuation bytes follow that one. -/
structure Lead where
  payload : Nat
  low : UInt8
  high : UInt8
  more : Nat

/-- The lead bytes of the well-formed multi-byte sequences. Overlong forms, surrogates and values
above U+10FFFF are shut out by the range of the second byte. -/
def lead? (b : UInt8) : Option Lead :=
  if 0xc2 ≤ b ∧ b ≤ 0xdf then some ⟨b.toNat - 0xc0, 0x80, 0xbf, 0⟩
  else if b = 0xe0 then some ⟨0, 0xa0, 0xbf, 1⟩
  else if b = 0xed then some ⟨0xd, 0x80, 0x9f, 1⟩
  else if 0xe1 ≤ b ∧ b ≤ 0xef then some ⟨b.toNat - 0xe0, 0x80, 0xbf, 1⟩
  else if b = 0xf0 then some ⟨0, 0x90, 0xbf, 2⟩
  else if 0xf1 ≤ b ∧ b ≤ 0xf3 then some ⟨b.toNat - 0xf0, 0x80, 0xbf, 2⟩
  else if b = 0xf4 then some ⟨4, 0x80, 0x8f, 2⟩
  else none

def tail : Nat → Nat → Bytes → Option Char × Bytes
  | 0, acc, bs => (some (Char.ofNat acc), bs)
  | n + 1, acc, b :: bs =>
    if 0x80 ≤ b ∧ b ≤ 0xbf then tail n (acc * 64 + (b.toNat - 0x80)) bs else (none, b :: bs)
  | _ + 1, _, [] => (none, [])

def segment (b : UInt8) (bs : Bytes) : Option Char × Bytes :=
  if b < 0x80 then (some (Char.ofNat b.toNat), bs)
  else match lead? b, bs with
    | some l, c :: rest =>
      if l.low ≤ c ∧ c ≤ l.high then tail l.more (l.payload * 64 + (c.toNat - 0x80)) rest
      else (none, bs)
    | _, _ => (none, bs)

/-- Cuts at most `fuel` segments; `done` are those before them, the last one first. A segment takes at
least one byte, so the length of the text is fuel enough. -/
def cut (done : List (Option Char)) : Nat → Bytes → List (Option Char)
  | 0, _ => done.reverse
  | _ + 1, [] => done.reverse
  | fuel + 1, b :: bs =>
    let (c, rest) := segment b bs
    cut (c :: done) fuel rest

def segments (bs : Bytes) : List (Option Char) := cut [] bs.length bs

def decode? (bs : Bytes) : Option String := ((segments bs).mapM id).map String.ofList

/-- The text `bs` encodes, with U+FFFD for every fault. -/
def decodeLossy (bs : Bytes) : String :=
  String.ofList ((segments bs).map fun c => c.getD (Char.ofNat 0xfffd))

def encode (s : String) : Bytes := s.toUTF8.data.toList

end Utf8

end JvmGraph.Text
