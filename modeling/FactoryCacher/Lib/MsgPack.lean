/-
MessagePack, without maps, signed numbers and floats.

An array is a header with its length and then its elements, a byte string
a header with its length and then its bytes, and so is a text. The headers
come in several widths, and a writer takes the shortest; a number is its
own header. The readers here are those of the format: they take what they
need off the front and give back what is behind it. What was written is
read back whatever follows it, up to the lengths the format has
(`readArray_append`, `readBin_append`).

# Codecs

A `Codec` is a writer and a reader with the values for which that holds.
Structs are put together from codecs (`pair`, `struct`), and other types
go through one that is there (`via`), so that a message of any shape is
read back by construction.
-/
import FactoryCacher.Lib.Bytes

namespace FactoryCacher

namespace MsgPack

-- ================================================================= writing

/-- An array of `n` elements follows: up to 15 in the tag itself, else in
two or four bytes. -/
def arrayHeader (n : Nat) : Bytes :=
  if n < 16 then [UInt8.ofNat (0x90 + n)]
  else if n < 2 ^ 16 then 0xdc :: toBE 2 n
  else 0xdd :: toBE 4 n

/-- A byte string of `n` bytes follows. -/
def binHeader (n : Nat) : Bytes :=
  if n < 2 ^ 8 then 0xc4 :: toBE 1 n
  else if n < 2 ^ 16 then 0xc5 :: toBE 2 n
  else 0xc6 :: toBE 4 n

/-- A byte string. -/
def writeBin (bytes : Bytes) : Bytes := binHeader bytes.length ++ bytes

/-- A text of `n` bytes follows: up to 31 in the tag itself. -/
def strHeader (n : Nat) : Bytes :=
  if n < 32 then [UInt8.ofNat (0xa0 + n)]
  else if n < 2 ^ 8 then 0xd9 :: toBE 1 n
  else if n < 2 ^ 16 then 0xda :: toBE 2 n
  else 0xdb :: toBE 4 n

/-- A text, as its bytes. -/
def writeStr (bytes : Bytes) : Bytes := strHeader bytes.length ++ bytes

/-- A number that is not negative: up to 127 it is its own tag. -/
def writeUInt (n : Nat) : Bytes :=
  if n < 128 then [UInt8.ofNat n]
  else if n < 2 ^ 8 then 0xcc :: toBE 1 n
  else if n < 2 ^ 16 then 0xcd :: toBE 2 n
  else if n < 2 ^ 32 then 0xce :: toBE 4 n
  else 0xcf :: toBE 8 n

/-- An array. -/
def writeArray {α : Type} (write : α → Bytes) (xs : List α) : Bytes :=
  arrayHeader xs.length ++ xs.flatMap write

-- ================================================================= reading

/-- A number of `w` bytes. -/
def readNumber (w : Nat) (buf : Bytes) : Option (Nat × Bytes) :=
  if buf.length < w then none else some (ofBE (buf.take w), buf.drop w)

/-- The length of an array. -/
def readArrayHeader : Bytes → Option (Nat × Bytes)
  | [] => none
  | tag :: rest =>
      if 0x90 ≤ tag.toNat ∧ tag.toNat < 0xa0 then
        some (tag.toNat - 0x90, rest)
      else if tag = 0xdc then readNumber 2 rest
      else if tag = 0xdd then readNumber 4 rest
      else none

/-- The length of a byte string. -/
def readBinHeader : Bytes → Option (Nat × Bytes)
  | [] => none
  | tag :: rest =>
      if tag = 0xc4 then readNumber 1 rest
      else if tag = 0xc5 then readNumber 2 rest
      else if tag = 0xc6 then readNumber 4 rest
      else none

/-- A byte string, which has to be there whole. -/
def readBin (buf : Bytes) : Option (Bytes × Bytes) :=
  match readBinHeader buf with
  | none => none
  | some (n, rest) =>
      if rest.length < n then none else some (rest.take n, rest.drop n)

/-- The length of a text. -/
def readStrHeader : Bytes → Option (Nat × Bytes)
  | [] => none
  | tag :: rest =>
      if 0xa0 ≤ tag.toNat ∧ tag.toNat < 0xc0 then
        some (tag.toNat - 0xa0, rest)
      else if tag = 0xd9 then readNumber 1 rest
      else if tag = 0xda then readNumber 2 rest
      else if tag = 0xdb then readNumber 4 rest
      else none

/-- A text, as its bytes. -/
def readStr (buf : Bytes) : Option (Bytes × Bytes) :=
  match readStrHeader buf with
  | none => none
  | some (n, rest) =>
      if rest.length < n then none else some (rest.take n, rest.drop n)

/-- A number. -/
def readUInt : Bytes → Option (Nat × Bytes)
  | [] => none
  | tag :: rest =>
      if tag.toNat < 128 then some (tag.toNat, rest)
      else if tag = 0xcc then readNumber 1 rest
      else if tag = 0xcd then readNumber 2 rest
      else if tag = 0xce then readNumber 4 rest
      else if tag = 0xcf then readNumber 8 rest
      else none

/-- `n` elements. -/
def readMany {α : Type} (read : Bytes → Option (α × Bytes)) :
    Nat → Bytes → Option (List α × Bytes)
  | 0, buf => some ([], buf)
  | n + 1, buf =>
      match read buf with
      | none => none
      | some (x, rest) =>
          match readMany read n rest with
          | none => none
          | some (xs, rest) => some (x :: xs, rest)

/-- An array. -/
def readArray {α : Type} (read : Bytes → Option (α × Bytes))
    (buf : Bytes) : Option (List α × Bytes) :=
  match readArrayHeader buf with
  | none => none
  | some (n, rest) => readMany read n rest

-- ============================================================== round trips

/-- A number that fits its bytes. -/
theorem readNumber_append {w n : Nat} (h : n < 256 ^ w) (rest : Bytes) :
    readNumber w (toBE w n ++ rest) = some (n, rest) := by
  have hlen : (toBE w n).length = w := length_toBE w n
  have htake : (toBE w n ++ rest).take w = toBE w n :=
    List.take_left' hlen
  have hdrop : (toBE w n ++ rest).drop w = rest := List.drop_left' hlen
  rw [readNumber, if_neg, htake, hdrop, ofBE_toBE h]
  rw [List.length_append, hlen]
  omega

/-- The three widths of the header of an array; the tag tells which. -/
theorem readArrayHeader_append {n : Nat} (h : n < 2 ^ 32) (rest : Bytes) :
    readArrayHeader (arrayHeader n ++ rest) = some (n, rest) := by
  rw [arrayHeader]
  by_cases hshort : n < 16
  · have htag : (UInt8.ofNat (0x90 + n)).toNat = 0x90 + n := by
      rw [UInt8.toNat_ofNat']
      omega
    rw [if_pos hshort, List.singleton_append, readArrayHeader, htag,
      if_pos (by omega), Nat.add_sub_cancel_left]
  · rw [if_neg hshort]
    by_cases hmiddle : n < 2 ^ 16
    · rw [if_pos hmiddle, List.cons_append, readArrayHeader,
        if_neg (by decide), if_pos rfl]
      exact readNumber_append (by omega) rest
    · rw [if_neg hmiddle, List.cons_append, readArrayHeader,
        if_neg (by decide), if_neg (by decide), if_pos rfl]
      exact readNumber_append (by omega) rest

/-- Those of a byte string. -/
theorem readBinHeader_append {n : Nat} (h : n < 2 ^ 32) (rest : Bytes) :
    readBinHeader (binHeader n ++ rest) = some (n, rest) := by
  rw [binHeader]
  by_cases hshort : n < 2 ^ 8
  · rw [if_pos hshort, List.cons_append, readBinHeader, if_pos rfl]
    exact readNumber_append (by omega) rest
  · rw [if_neg hshort]
    by_cases hmiddle : n < 2 ^ 16
    · rw [if_pos hmiddle, List.cons_append, readBinHeader,
        if_neg (by decide), if_pos rfl]
      exact readNumber_append (by omega) rest
    · rw [if_neg hmiddle, List.cons_append, readBinHeader,
        if_neg (by decide), if_neg (by decide), if_pos rfl]
      exact readNumber_append (by omega) rest

/-- A byte string is read back. -/
theorem readBin_append {bytes : Bytes} (h : bytes.length < 2 ^ 32)
    (rest : Bytes) :
    readBin (writeBin bytes ++ rest) = some (bytes, rest) := by
  rw [readBin, writeBin, List.append_assoc, readBinHeader_append h]
  dsimp only
  rw [if_neg, List.take_left, List.drop_left]
  rw [List.length_append]
  omega

/-- A text has one width more, for short ones. -/
theorem readStrHeader_append {n : Nat} (h : n < 2 ^ 32) (rest : Bytes) :
    readStrHeader (strHeader n ++ rest) = some (n, rest) := by
  rw [strHeader]
  by_cases hfix : n < 32
  · have htag : (UInt8.ofNat (0xa0 + n)).toNat = 0xa0 + n := by
      rw [UInt8.toNat_ofNat']
      omega
    rw [if_pos hfix, List.singleton_append, readStrHeader, htag,
      if_pos (by omega), Nat.add_sub_cancel_left]
  · rw [if_neg hfix]
    by_cases hshort : n < 2 ^ 8
    · rw [if_pos hshort, List.cons_append, readStrHeader,
        if_neg (by decide), if_pos rfl]
      exact readNumber_append (by omega) rest
    · rw [if_neg hshort]
      by_cases hmiddle : n < 2 ^ 16
      · rw [if_pos hmiddle, List.cons_append, readStrHeader,
          if_neg (by decide), if_neg (by decide), if_pos rfl]
        exact readNumber_append (by omega) rest
      · rw [if_neg hmiddle, List.cons_append, readStrHeader,
          if_neg (by decide), if_neg (by decide), if_neg (by decide),
          if_pos rfl]
        exact readNumber_append (by omega) rest

/-- A text is read back. -/
theorem readStr_append {bytes : Bytes} (h : bytes.length < 2 ^ 32)
    (rest : Bytes) :
    readStr (writeStr bytes ++ rest) = some (bytes, rest) := by
  rw [readStr, writeStr, List.append_assoc, readStrHeader_append h]
  dsimp only
  rw [if_neg, List.take_left, List.drop_left]
  rw [List.length_append]
  omega

/-- A number is read back, from five widths. -/
theorem readUInt_append {n : Nat} (h : n < 2 ^ 64) (rest : Bytes) :
    readUInt (writeUInt n ++ rest) = some (n, rest) := by
  rw [writeUInt]
  by_cases hfix : n < 128
  · have htag : (UInt8.ofNat n).toNat = n := by
      rw [UInt8.toNat_ofNat']
      omega
    rw [if_pos hfix, List.singleton_append, readUInt, htag, if_pos hfix]
  · rw [if_neg hfix]
    by_cases h8 : n < 2 ^ 8
    · rw [if_pos h8, List.cons_append, readUInt, if_neg (by decide),
        if_pos rfl]
      exact readNumber_append (by omega) rest
    · rw [if_neg h8]
      by_cases h16 : n < 2 ^ 16
      · rw [if_pos h16, List.cons_append, readUInt, if_neg (by decide),
          if_neg (by decide), if_pos rfl]
        exact readNumber_append (by omega) rest
      · rw [if_neg h16]
        by_cases h32 : n < 2 ^ 32
        · rw [if_pos h32, List.cons_append, readUInt, if_neg (by decide),
            if_neg (by decide), if_neg (by decide), if_pos rfl]
          exact readNumber_append (by omega) rest
        · rw [if_neg h32, List.cons_append, readUInt, if_neg (by decide),
            if_neg (by decide), if_neg (by decide), if_neg (by decide),
            if_pos rfl]
          exact readNumber_append (by omega) rest

section Arrays

variable {α : Type} {write : α → Bytes}
  {read : Bytes → Option (α × Bytes)}

/-- Elements one after another, each of which is read back. -/
theorem readMany_append {xs : List α}
    (hread : ∀ x ∈ xs, ∀ rest, read (write x ++ rest) = some (x, rest))
    (rest : Bytes) :
    readMany read xs.length (xs.flatMap write ++ rest)
      = some (xs, rest) := by
  induction xs with
  | nil => rfl
  | cons x xs ih =>
      obtain ⟨hx, hxs⟩ := List.forall_mem_cons.1 hread
      rw [List.length_cons, List.flatMap_cons, List.append_assoc, readMany,
        hx]
      dsimp only
      rw [ih hxs]

/-- An array is read back if its elements are. -/
theorem readArray_append {xs : List α} (h : xs.length < 2 ^ 32)
    (hread : ∀ x ∈ xs, ∀ rest, read (write x ++ rest) = some (x, rest))
    (rest : Bytes) :
    readArray read (writeArray write xs ++ rest) = some (xs, rest) := by
  rw [readArray, writeArray, List.append_assoc, readArrayHeader_append h]
  exact readMany_append hread rest

end Arrays

-- =================================================================== codecs

/-- A writer and a reader, and the values that survive both. -/
structure Codec (α : Type) where
  write : α → Bytes
  read : Bytes → Option (α × Bytes)
  Fits : α → Prop
  read_write : ∀ {a}, Fits a → ∀ rest,
    read (write a ++ rest) = some (a, rest)

namespace Codec

variable {α β : Type}

/-- The value at the front of a buffer. -/
def decode (c : Codec α) (buf : Bytes) : Option α :=
  (c.read buf).map Prod.fst

/-- A value that fits is what its bytes decode to. -/
theorem decode_write (c : Codec α) {a : α} (h : c.Fits a) :
    c.decode (c.write a) = some a := by
  have hread := c.read_write h []
  rw [List.append_nil] at hread
  exact congrArg (Option.map Prod.fst) hread

/-- Byte strings. -/
def bin : Codec Bytes where
  write := writeBin
  read := readBin
  Fits bytes := bytes.length < 2 ^ 32
  read_write h rest := readBin_append h rest

/-- Texts. -/
def str : Codec Bytes where
  write := writeStr
  read := readStr
  Fits bytes := bytes.length < 2 ^ 32
  read_write h rest := readStr_append h rest

/-- Numbers of up to eight bytes. -/
def uint : Codec Nat where
  write := writeUInt
  read := readUInt
  Fits n := n < 2 ^ 64
  read_write h rest := readUInt_append h rest

/-- Truth values, a tag each. -/
def bool : Codec Bool where
  write b := [if b then 0xc3 else 0xc2]
  read
    | [] => none
    | tag :: rest =>
        if tag = 0xc3 then some (true, rest)
        else if tag = 0xc2 then some (false, rest)
        else none
  Fits _ := True
  read_write {b} _ rest := by
    cases b with
    | false => rfl
    | true => rfl

/-- Arrays of what another codec writes. -/
def array (c : Codec α) : Codec (List α) where
  write := writeArray c.write
  read := readArray c.read
  Fits xs := xs.length < 2 ^ 32 ∧ ∀ x ∈ xs, c.Fits x
  read_write h rest :=
    readArray_append h.1 (fun x hx => c.read_write (h.2 x hx)) rest

/-- One after the other. -/
def pair (c : Codec α) (d : Codec β) : Codec (α × β) where
  write x := c.write x.1 ++ d.write x.2
  read buf :=
    match c.read buf with
    | none => none
    | some (a, rest) =>
        match d.read rest with
        | none => none
        | some (b, rest) => some ((a, b), rest)
  Fits x := c.Fits x.1 ∧ d.Fits x.2
  read_write h rest := by
    rw [List.append_assoc, c.read_write h.1]
    dsimp only
    rw [d.read_write h.2]

/-- The `n` fields of a struct, which is an array of them. -/
def struct (n : Nat) (hn : n < 2 ^ 32) (c : Codec α) : Codec α where
  write a := arrayHeader n ++ c.write a
  read buf :=
    match readArrayHeader buf with
    | none => none
    | some (count, rest) => if count = n then c.read rest else none
  Fits := c.Fits
  read_write h rest := by
    rw [List.append_assoc, readArrayHeader_append hn]
    dsimp only
    rw [if_pos rfl, c.read_write h]

/-- A type whose values are written as those of another one. -/
def via (c : Codec α) (toRaw : β → α) (ofRaw : α → Option β)
    (hraw : ∀ b, ofRaw (toRaw b) = some b) : Codec β where
  write b := c.write (toRaw b)
  read buf :=
    match c.read buf with
    | none => none
    | some (a, rest) => (ofRaw a).map fun b => (b, rest)
  Fits b := c.Fits (toRaw b)
  read_write h rest := by
    rw [c.read_write h]
    dsimp only
    rw [hraw]
    rfl

end Codec

-- =================================================================== lengths

/-- No header is longer than a tag and four bytes. -/
theorem length_arrayHeader_le (n : Nat) : (arrayHeader n).length ≤ 5 := by
  rw [arrayHeader]
  split
  · simp
  · split <;> simp [length_toBE]

/-- The same for byte strings. -/
theorem length_binHeader_le (n : Nat) : (binHeader n).length ≤ 5 := by
  rw [binHeader]
  split
  · simp [length_toBE]
  · split <;> simp [length_toBE]

end MsgPack

end FactoryCacher
