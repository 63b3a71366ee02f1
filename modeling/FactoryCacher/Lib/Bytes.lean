/-
Byte strings, fixed-width numbers and checked readers.

The vocabulary every wire format here is spelled in: a byte string is a
list of octets, a number of `w` bytes is written least significant byte
first (`toLE`) or most significant first (`toBE`), and a reader (`Get`)
consumes a byte string from the front and fails when it is too short,
reporting what it asked for and what was left.

# What a user of this file needs

- `ofLE_toLE` / `ofBE_toBE`: a number that fits in its width reads back
  unchanged; the length of the text is the width.
- the `run_*_append` lemmas: a reader applied to the writer's output
  followed by anything returns the value and leaves the rest. Chained by
  `Get.run_bind_ok`, they turn a record's round trip into one pass over
  its fields.
-/
import Mathlib.Tactic.Common
import Mathlib.Tactic.Ring
import Mathlib.Data.List.Basic

namespace FactoryCacher

/-- A byte string. -/
abbrev Bytes := List UInt8

-- ==================================================== fixed-width numbers

/-- The `w` low bytes of `n`, least significant first. -/
def toLE : Nat → Nat → Bytes
  | 0, _ => []
  | w + 1, n => UInt8.ofNat n :: toLE w (n / 256)

/-- The number a byte string spells, least significant byte first. -/
def ofLE : Bytes → Nat
  | [] => 0
  | b :: bs => b.toNat + 256 * ofLE bs

/-- The `w` low bytes of `n`, most significant first. -/
def toBE (w n : Nat) : Bytes := (toLE w n).reverse

/-- The number a byte string spells, most significant byte first. -/
def ofBE (bs : Bytes) : Nat := ofLE bs.reverse

/-- The text of a number is as long as its width. -/
@[simp] theorem length_toLE (w n : Nat) : (toLE w n).length = w := by
  induction w generalizing n with
  | zero => rfl
  | succ w ih => simp [toLE, ih]

/-- In either order. -/
@[simp] theorem length_toBE (w n : Nat) : (toBE w n).length = w := by
  simp [toBE]

/-- Reading back keeps the number modulo the width. -/
theorem ofLE_toLE_mod (w n : Nat) : ofLE (toLE w n) = n % 256 ^ w := by
  induction w generalizing n with
  | zero => simp [toLE, ofLE, Nat.mod_one]
  | succ w ih =>
      simp only [toLE, ofLE, ih, UInt8.toNat_ofNat']
      rw [pow_succ' 256 w, Nat.mod_mul]

/-- A number that fits in `w` bytes reads back unchanged. -/
theorem ofLE_toLE {w n : Nat} (h : n < 256 ^ w) : ofLE (toLE w n) = n := by
  rw [ofLE_toLE_mod, Nat.mod_eq_of_lt h]

/-- What a byte string spells fits its width. -/
theorem ofLE_lt (bs : Bytes) : ofLE bs < 256 ^ bs.length := by
  induction bs with
  | nil => exact Nat.one_pos
  | cons b bs ih =>
      have hb := b.toNat_lt
      rw [ofLE, List.length_cons, pow_succ']
      omega

/-- The text of what a byte string spells is that string. -/
theorem toLE_ofLE (bs : Bytes) : toLE bs.length (ofLE bs) = bs := by
  induction bs with
  | nil => rfl
  | cons b bs ih =>
      have hb := b.toNat_lt
      have hlow : UInt8.ofNat (b.toNat + 256 * ofLE bs) = b := by
        apply UInt8.toNat_inj.mp
        rw [UInt8.toNat_ofNat']
        omega
      have hhigh : (b.toNat + 256 * ofLE bs) / 256 = ofLE bs := by omega
      rw [ofLE, List.length_cons, toLE, hlow, hhigh, ih]

/-- The same for the other order. -/
theorem ofBE_toBE {w n : Nat} (h : n < 256 ^ w) : ofBE (toBE w n) = n := by
  rw [ofBE, toBE, List.reverse_reverse, ofLE_toLE h]

-- ============================================================ the writers

/-- `put_u16_le`. -/
def putU16Le (x : UInt16) : Bytes := toLE 2 x.toNat

/-- `put_u32_le`. -/
def putU32Le (x : UInt32) : Bytes := toLE 4 x.toNat

/-- `put_u64_le`. -/
def putU64Le (x : UInt64) : Bytes := toLE 8 x.toNat

/-- `put_u32`: big endian. -/
def putU32 (x : UInt32) : Bytes := toBE 4 x.toNat

/-- `put_u64`: big endian. -/
def putU64 (x : UInt64) : Bytes := toBE 8 x.toNat

/-- Each writer writes the width of its type. -/
@[simp] theorem length_putU16Le (x : UInt16) : (putU16Le x).length = 2 :=
  length_toLE ..

@[simp] theorem length_putU32Le (x : UInt32) : (putU32Le x).length = 4 :=
  length_toLE ..

@[simp] theorem length_putU64Le (x : UInt64) : (putU64Le x).length = 8 :=
  length_toLE ..

@[simp] theorem length_putU32 (x : UInt32) : (putU32 x).length = 4 :=
  length_toBE ..

@[simp] theorem length_putU64 (x : UInt64) : (putU64 x).length = 8 :=
  length_toBE ..

-- ============================================================ the readers

/-- A read past the end: how many bytes were asked for, how many were
left. -/
structure TryGetError where
  requested : Nat
  available : Nat
  deriving DecidableEq, Repr

/-- A checked reader over the front of a byte string. -/
abbrev Get := StateT Bytes (Except TryGetError)

/-- Take exactly `n` bytes. -/
def tryTake (n : Nat) : Get Bytes := fun buf =>
  if buf.length < n then .error ⟨n, buf.length⟩
  else .ok (buf.take n, buf.drop n)

/-- `try_get_u8`. -/
def tryGetU8 : Get UInt8 := fun buf =>
  match buf with
  | [] => .error ⟨1, 0⟩
  | b :: rest => .ok (b, rest)

/-- `try_get_u16_le`. -/
def tryGetU16Le : Get UInt16 := do
  let b ← tryTake 2
  return UInt16.ofNat (ofLE b)

/-- `try_get_u32_le`. -/
def tryGetU32Le : Get UInt32 := do
  let b ← tryTake 4
  return UInt32.ofNat (ofLE b)

/-- `try_get_u64_le`. -/
def tryGetU64Le : Get UInt64 := do
  let b ← tryTake 8
  return UInt64.ofNat (ofLE b)

/-- `try_get_u32`: big endian. -/
def tryGetU32 : Get UInt32 := do
  let b ← tryTake 4
  return UInt32.ofNat (ofBE b)

/-- `try_get_u64`: big endian. -/
def tryGetU64 : Get UInt64 := do
  let b ← tryTake 8
  return UInt64.ofNat (ofBE b)

namespace Get

variable {α β : Type}

/-- A sequenced read whose first part succeeds is the second part on
what it left. -/
theorem run_bind_ok {x : Get α} {f : α → Get β} {buf rest : Bytes} {a : α}
    (h : x buf = .ok (a, rest)) : (x >>= f) buf = f a rest := by
  show (x buf >>= fun p => f p.1 p.2) = _
  rw [h]
  rfl

/-- A sequenced read that succeeds succeeds in both parts. -/
theorem bind_eq_ok {x : Get α} {f : α → Get β} {buf rest : Bytes} {b : β}
    (h : (x >>= f) buf = .ok (b, rest)) :
    ∃ a mid, x buf = .ok (a, mid) ∧ f a mid = .ok (b, rest) := by
  cases hx : x buf with
  | error e =>
      have herror : (x >>= f) buf = .error e := by
        show (x buf >>= fun p => f p.1 p.2) = _
        rw [hx]
        rfl
      rw [herror] at h
      cases h
  | ok p =>
      obtain ⟨a, mid⟩ := p
      rw [run_bind_ok hx] at h
      exact ⟨a, mid, rfl, h⟩

/-- A reader that takes nothing leaves everything. -/
@[simp] theorem run_pure (a : α) (buf : Bytes) :
    (pure a : Get α) buf = .ok (a, buf) := rfl

/-- Looking at the input takes nothing off it. -/
@[simp] theorem run_get (buf : Bytes) :
    (get : Get Bytes) buf = .ok (buf, buf) := rfl

end Get

/-- A front of the right length is taken. -/
@[simp] theorem run_tryTake_append (pre rest : Bytes) :
    tryTake pre.length (pre ++ rest) = .ok (pre, rest) := by
  simp [tryTake]

/-- With the length given separately, as the readers of numbers have it. -/
theorem run_tryTake_append' {n : Nat} {pre : Bytes} (h : pre.length = n)
    (rest : Bytes) : tryTake n (pre ++ rest) = .ok (pre, rest) := by
  subst h
  exact run_tryTake_append pre rest

/-- What was taken has the length asked for, and the rest follows it. -/
theorem tryTake_eq_ok {n : Nat} {buf taken rest : Bytes}
    (h : tryTake n buf = .ok (taken, rest)) :
    taken.length = n ∧ buf = taken ++ rest := by
  unfold tryTake at h
  by_cases hlen : buf.length < n
  · rw [if_pos hlen] at h
    cases h
  · rw [if_neg hlen] at h
    cases h
    refine ⟨?_, (List.take_append_drop n buf).symm⟩
    rw [List.length_take]
    omega

/-- A byte is its own text. -/
@[simp] theorem run_tryGetU8_cons (b : UInt8) (rest : Bytes) :
    tryGetU8 (b :: rest) = .ok (b, rest) := rfl

/-- A number is read back, whatever follows its text; one lemma for each
width and order. -/
@[simp] theorem run_tryGetU16Le_append (x : UInt16) (rest : Bytes) :
    tryGetU16Le (putU16Le x ++ rest) = .ok (x, rest) := by
  unfold tryGetU16Le
  rw [Get.run_bind_ok (run_tryTake_append' (length_putU16Le x) rest)]
  have hx := x.toNat_lt
  simp [putU16Le, ofLE_toLE (w := 2) (n := x.toNat) (by omega)]

@[simp] theorem run_tryGetU32Le_append (x : UInt32) (rest : Bytes) :
    tryGetU32Le (putU32Le x ++ rest) = .ok (x, rest) := by
  unfold tryGetU32Le
  rw [Get.run_bind_ok (run_tryTake_append' (length_putU32Le x) rest)]
  have hx := x.toNat_lt
  simp [putU32Le, ofLE_toLE (w := 4) (n := x.toNat) (by omega)]

@[simp] theorem run_tryGetU32_append (x : UInt32) (rest : Bytes) :
    tryGetU32 (putU32 x ++ rest) = .ok (x, rest) := by
  unfold tryGetU32
  rw [Get.run_bind_ok (run_tryTake_append' (length_putU32 x) rest)]
  have hx := x.toNat_lt
  simp [putU32, ofBE_toBE (w := 4) (n := x.toNat) (by omega)]

@[simp] theorem run_tryGetU64Le_append (x : UInt64) (rest : Bytes) :
    tryGetU64Le (putU64Le x ++ rest) = .ok (x, rest) := by
  unfold tryGetU64Le
  rw [Get.run_bind_ok (run_tryTake_append' (length_putU64Le x) rest)]
  have hx := x.toNat_lt
  simp [putU64Le, ofLE_toLE (w := 8) (n := x.toNat) (by omega)]

@[simp] theorem run_tryGetU64_append (x : UInt64) (rest : Bytes) :
    tryGetU64 (putU64 x ++ rest) = .ok (x, rest) := by
  unfold tryGetU64
  rw [Get.run_bind_ok (run_tryTake_append' (length_putU64 x) rest)]
  have hx := x.toNat_lt
  simp [putU64, ofBE_toBE (w := 8) (n := x.toNat) (by omega)]

/-- What was read is what was written there. -/
theorem tryGetU32Le_eq_ok {buf rest : Bytes} {x : UInt32}
    (h : tryGetU32Le buf = .ok (x, rest)) : buf = putU32Le x ++ rest := by
  obtain ⟨b, mid, htake, h⟩ := Get.bind_eq_ok h
  obtain ⟨hlen, hbuf⟩ := tryTake_eq_ok htake
  cases h
  have hlt := ofLE_lt b
  rw [hlen, show 256 ^ 4 = 2 ^ 32 from rfl] at hlt
  have htext := toLE_ofLE b
  rw [hlen] at htext
  rw [hbuf, putU32Le, UInt32.toNat_ofNat', Nat.mod_eq_of_lt hlt, htext]

-- The same, one field of a record at a time.

section Fields

variable {β : Type}

/-- A field that is a byte. -/
theorem get_u8_cons (f : UInt8 → Get β) (b : UInt8) (rest : Bytes) :
    (tryGetU8 >>= f) (b :: rest) = f b rest :=
  Get.run_bind_ok (run_tryGetU8_cons b rest)

/-- Fields that are numbers, by width. -/
theorem get_u16Le_append (f : UInt16 → Get β) (x : UInt16) (rest : Bytes) :
    (tryGetU16Le >>= f) (putU16Le x ++ rest) = f x rest :=
  Get.run_bind_ok (run_tryGetU16Le_append x rest)

theorem get_u32Le_append (f : UInt32 → Get β) (x : UInt32) (rest : Bytes) :
    (tryGetU32Le >>= f) (putU32Le x ++ rest) = f x rest :=
  Get.run_bind_ok (run_tryGetU32Le_append x rest)

theorem get_u64Le_append (f : UInt64 → Get β) (x : UInt64) (rest : Bytes) :
    (tryGetU64Le >>= f) (putU64Le x ++ rest) = f x rest :=
  Get.run_bind_ok (run_tryGetU64Le_append x rest)

/-- A field of known length. -/
theorem get_take_append (f : Bytes → Get β) {n : Nat} {pre : Bytes}
    (h : pre.length = n) (rest : Bytes) :
    (tryTake n >>= f) (pre ++ rest) = f pre rest :=
  Get.run_bind_ok (run_tryTake_append' h rest)

/-- And an empty one. -/
theorem get_take_zero (f : Bytes → Get β) (rest : Bytes) :
    (tryTake 0 >>= f) rest = f [] rest :=
  get_take_append f List.length_nil rest

end Fields

end FactoryCacher
