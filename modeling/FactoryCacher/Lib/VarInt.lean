/-
Variable-length integers of 62 bits, as QUIC writes them.

The two high bits of the first byte are the base-two logarithm of the
number of bytes, the rest is the number, most significant byte first. A
number is written in the fewest bytes it fits; a reader takes any width.

A `VarInt` carries its bound, so writing never fails, and what a reader
returns is one again. `decode_encode` is the round trip in front of any
rest.
-/
import FactoryCacher.Lib.Bytes

namespace FactoryCacher

structure VarInt where
  value : Nat
  bound : value < 2 ^ 62
  deriving DecidableEq

namespace VarInt

/-- The logarithm of the number of bytes a number is written in. -/
def tag (x : VarInt) : Nat :=
  if x.value < 2 ^ 6 then 0
  else if x.value < 2 ^ 14 then 1
  else if x.value < 2 ^ 30 then 2
  else 3

/-- What is written: the width above the number. -/
def tagged (x : VarInt) : Nat := x.tag * 2 ^ (8 * 2 ^ x.tag - 2) + x.value

def encode (x : VarInt) : Bytes := toBE (2 ^ x.tag) x.tagged

/-- The number in a text, without the two bits of its width. -/
def ofText (text : Bytes) (h : text.length ≤ 8) : VarInt where
  value := ofBE text % 2 ^ (8 * text.length - 2)
  bound := by
    have hpow : 2 ^ (8 * text.length - 2) ≤ 2 ^ 62 :=
      Nat.pow_le_pow_right (by decide) (by omega)
    exact lt_of_lt_of_le (Nat.mod_lt _ (Nat.two_pow_pos _)) hpow

/-- How many bytes the text has that starts with `first`. -/
def width (first : UInt8) : Nat := 2 ^ (first.toNat / 64)

theorem width_le (first : UInt8) : width first ≤ 8 := by
  have hfirst := first.toNat_lt
  have hpow : 2 ^ (first.toNat / 64) ≤ 2 ^ 3 :=
    Nat.pow_le_pow_right (by decide) (by omega)
  exact hpow

/-- The number in front of a byte string, and what comes after it;
`none` where the string ends first. -/
def decode (buf : Bytes) : Option (VarInt × Bytes) :=
  match buf with
  | [] => none
  | first :: rest =>
      if (first :: rest).length < width first then none
      else
        some (ofText ((first :: rest).take (width first))
            (le_trans (List.length_take_le ..) (width_le first)),
          (first :: rest).drop (width first))

-- ============================================================ the round trip

/-- A text of `w + 1` bytes starts with the highest of them. -/
theorem toBE_succ (w n : Nat) :
    toBE (w + 1) n = UInt8.ofNat (n / 256 ^ w) :: toBE w n := by
  have hsnoc : ∀ (w n : Nat),
      toLE (w + 1) n = toLE w n ++ [UInt8.ofNat (n / 256 ^ w)] := by
    intro w
    induction w with
    | zero =>
        intro n
        simp [toLE]
    | succ w ih =>
        intro n
        rw [toLE, ih, toLE, List.cons_append, Nat.div_div_eq_div_mul,
          ← pow_succ']
  rw [toBE, toBE, hsnoc, List.reverse_append]
  rfl

/-- A text whose first byte names its width is read as what it
spells. -/
theorem decode_text {first : UInt8} {more : Bytes}
    (h : (first :: more).length = width first) (rest : Bytes) :
    decode (first :: more ++ rest)
      = some (ofText (first :: more) (h ▸ width_le first), rest) := by
  have hlong : ¬ (first :: (more ++ rest)).length < width first := by
    rw [← h]
    simp
  have htake : (first :: (more ++ rest)).take (width first)
      = first :: more := by
    rw [← h, ← List.cons_append, List.take_left]
  have hdrop : (first :: (more ++ rest)).drop (width first) = rest := by
    rw [← h, ← List.cons_append, List.drop_left]
  rw [List.cons_append, decode, if_neg hlong]
  simp only [htake, hdrop]

theorem tag_cases (x : VarInt) :
    (x.tag = 0 ∧ x.value < 2 ^ 6) ∨ (x.tag = 1 ∧ x.value < 2 ^ 14)
    ∨ (x.tag = 2 ∧ x.value < 2 ^ 30) ∨ x.tag = 3 := by
  unfold tag
  split
  case isTrue h => exact Or.inl ⟨rfl, h⟩
  case isFalse =>
    split
    case isTrue h => exact Or.inr (Or.inl ⟨rfl, h⟩)
    case isFalse =>
      split
      case isTrue h => exact Or.inr (Or.inr (Or.inl ⟨rfl, h⟩))
      case isFalse => exact Or.inr (Or.inr (Or.inr rfl))

/-- What is written fits its width, its first byte names the width, and
the rest is the number. -/
theorem tagged_spec (x : VarInt) :
    x.tagged < 256 ^ 2 ^ x.tag
    ∧ x.tagged / 256 ^ (2 ^ x.tag - 1) < 256
    ∧ x.tagged / 256 ^ (2 ^ x.tag - 1) / 64 = x.tag
    ∧ x.tagged % 2 ^ (8 * 2 ^ x.tag - 2) = x.value := by
  have hx := x.bound
  unfold tagged
  rcases x.tag_cases with ⟨ht, hv⟩ | ⟨ht, hv⟩ | ⟨ht, hv⟩ | ht
  all_goals
    rw [ht]
    omega

/-- Writing a number and reading it again. -/
theorem decode_encode (x : VarInt) (rest : Bytes) :
    decode (x.encode ++ rest) = some (x, rest) := by
  obtain ⟨hfits, hbyte, htag, hvalue⟩ := x.tagged_spec
  have hpos : 2 ^ x.tag = 2 ^ x.tag - 1 + 1 :=
    (Nat.sub_add_cancel Nat.one_le_two_pow).symm
  obtain ⟨first, hfirst⟩ : ∃ first : UInt8,
      UInt8.ofNat (x.tagged / 256 ^ (2 ^ x.tag - 1)) = first := ⟨_, rfl⟩
  have hencode : x.encode = first :: toBE (2 ^ x.tag - 1) x.tagged := by
    rw [encode, ← hfirst, ← toBE_succ, ← hpos]
  have hlen : x.encode.length = width first := by
    rw [encode, length_toBE, width, ← hfirst, UInt8.toNat_ofNat',
      Nat.mod_eq_of_lt hbyte, htag]
  have hspells : ofBE x.encode = x.tagged := ofBE_toBE hfits
  have hread : ofText x.encode (hlen ▸ width_le first) = x := by
    have hnumber : ofBE x.encode % 2 ^ (8 * x.encode.length - 2)
        = x.value := by
      rw [hspells, encode, length_toBE, hvalue]
    simp only [ofText, hnumber]
  rw [hencode] at hlen
  rw [hencode, decode_text hlen, Option.some.injEq, Prod.mk.injEq]
  simp only [hencode] at hread
  exact ⟨hread, rfl⟩

end VarInt

end FactoryCacher
