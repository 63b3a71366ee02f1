/-
Code page 437, the character set of ZIP names that are not marked as
UTF-8.

A byte below 128 is the ASCII character; a byte from 128 on is the
character of the table `high`. What is decoded is given as UTF-8 bytes.
Two facts are wanted of it: bytes come back as they are exactly if they
are all ASCII (`decode_eq_self_iff`), because every other character
takes more than one byte in UTF-8; and different bytes come back
different (`decode_injective`).
-/
import FactoryCacher.Lib.Bytes

namespace FactoryCacher

namespace Cp437

/-- The code points of the bytes from 128 on. -/
def high : List Nat :=
  [ 0x00C7, 0x00FC, 0x00E9, 0x00E2, 0x00E4, 0x00E0, 0x00E5, 0x00E7,
    0x00EA, 0x00EB, 0x00E8, 0x00EF, 0x00EE, 0x00EC, 0x00C4, 0x00C5,
    0x00C9, 0x00E6, 0x00C6, 0x00F4, 0x00F6, 0x00F2, 0x00FB, 0x00F9,
    0x00FF, 0x00D6, 0x00DC, 0x00A2, 0x00A3, 0x00A5, 0x20A7, 0x0192,
    0x00E1, 0x00ED, 0x00F3, 0x00FA, 0x00F1, 0x00D1, 0x00AA, 0x00BA,
    0x00BF, 0x2310, 0x00AC, 0x00BD, 0x00BC, 0x00A1, 0x00AB, 0x00BB,
    0x2591, 0x2592, 0x2593, 0x2502, 0x2524, 0x2561, 0x2562, 0x2556,
    0x2555, 0x2563, 0x2551, 0x2557, 0x255D, 0x255C, 0x255B, 0x2510,
    0x2514, 0x2534, 0x252C, 0x251C, 0x2500, 0x253C, 0x255E, 0x255F,
    0x255A, 0x2554, 0x2569, 0x2566, 0x2560, 0x2550, 0x256C, 0x2567,
    0x2568, 0x2564, 0x2565, 0x2559, 0x2558, 0x2552, 0x2553, 0x256B,
    0x256A, 0x2518, 0x250C, 0x2588, 0x2584, 0x258C, 0x2590, 0x2580,
    0x03B1, 0x00DF, 0x0393, 0x03C0, 0x03A3, 0x03C3, 0x00B5, 0x03C4,
    0x03A6, 0x0398, 0x03A9, 0x03B4, 0x221E, 0x03C6, 0x03B5, 0x2229,
    0x2261, 0x00B1, 0x2265, 0x2264, 0x2320, 0x2321, 0x00F7, 0x2248,
    0x00B0, 0x2219, 0x00B7, 0x221A, 0x207F, 0x00B2, 0x25A0, 0x00A0 ]

/-- The code point of a byte. -/
def codePoint (b : UInt8) : Nat :=
  if b.toNat < 128 then b.toNat else high.getD (b.toNat - 128) 0

/-- The character of a byte. -/
def char (b : UInt8) : Char := Char.ofNat (codePoint b)

/-- A name in code page 437, as UTF-8. -/
def decode (raw : Bytes) : Bytes :=
  (raw.map char).flatMap String.utf8EncodeChar

/-- A fact about every byte, from the 256 of them. -/
theorem forall_byte {p : UInt8 → Prop} (h : ∀ n < 256, p (UInt8.ofNat n))
    (b : UInt8) : p b := by
  have hb := h b.toNat b.toNat_lt
  rwa [UInt8.ofNat_toNat] at hb

theorem utf8_ascii (b : UInt8) (h : b < 128) :
    String.utf8EncodeChar (char b) = [b] := by
  revert h
  apply forall_byte (p := fun b => b < 128 →
    String.utf8EncodeChar (char b) = [b])
  decide +kernel

theorem utf8_high (b : UInt8) (h : ¬ b < 128) :
    2 ≤ (String.utf8EncodeChar (char b)).length := by
  revert h
  apply forall_byte (p := fun b => ¬ b < 128 →
    2 ≤ (String.utf8EncodeChar (char b)).length)
  decide +kernel

theorem decode_cons (b : UInt8) (raw : Bytes) :
    decode (b :: raw) = String.utf8EncodeChar (char b) ++ decode raw := rfl

/-- Decoding never shortens a name. -/
theorem length_le_decode (raw : Bytes) :
    raw.length ≤ (decode raw).length := by
  induction raw with
  | nil => exact Nat.le_refl _
  | cons b raw ih =>
      have hone : 1 ≤ (String.utf8EncodeChar (char b)).length := by
        by_cases hb : b < 128
        case pos => rw [utf8_ascii b hb, List.length_singleton]
        case neg => exact Nat.le_of_succ_le (utf8_high b hb)
      rw [decode_cons, List.length_cons, List.length_append]
      omega

/-- A name comes back as it is exactly if it is ASCII. -/
theorem decode_eq_self_iff (raw : Bytes) :
    decode raw = raw ↔ ∀ b ∈ raw, b < 128 := by
  induction raw with
  | nil => exact ⟨fun _ _ hb => absurd hb List.not_mem_nil, fun _ => rfl⟩
  | cons b raw ih =>
      rw [decode_cons, List.forall_mem_cons]
      by_cases hb : b < 128
      case pos =>
        rw [utf8_ascii b hb, List.singleton_append, List.cons.injEq, ih]
        exact ⟨fun h => ⟨hb, h.2⟩, fun h => ⟨rfl, h.2⟩⟩
      case neg =>
        constructor
        · intro h
          -- two bytes or more for this one, and no fewer for the rest
          have hlen := congrArg List.length h
          have htwo := utf8_high b hb
          have hrest := length_le_decode raw
          rw [List.length_append, List.length_cons] at hlen
          omega
        · intro h
          exact absurd h.1 hb

/-- The byte of a character, found in the table. -/
def byteOf (c : Char) : Nat :=
  if c.toNat < 128 then c.toNat else 128 + high.idxOf c.toNat

theorem byteOf_char (b : UInt8) : byteOf (char b) = b.toNat := by
  apply forall_byte (p := fun b => byteOf (char b) = b.toNat)
  decide +kernel

theorem char_injective : Function.Injective char := by
  intro a b h
  apply UInt8.toNat_inj.mp
  rw [← byteOf_char a, ← byteOf_char b, h]

/-- Different names come back different. -/
theorem decode_injective : Function.Injective decode := by
  intro a b h
  have hencode : (a.map char).utf8Encode = (b.map char).utf8Encode :=
    congrArg List.toByteArray h
  have hstring : String.ofList (a.map char) = String.ofList (b.map char) :=
    String.toByteArray_inj.mp hencode
  exact List.map_injective_iff.mpr char_injective
    (String.ofList_injective hstring)

end Cp437

end FactoryCacher
