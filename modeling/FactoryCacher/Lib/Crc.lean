/-
Reflected 32-bit cyclic redundancy checks, forward and backward.

`crcBit` shifts one bit out of the register and folds the polynomial in
where the bit was set; a byte is eight of these after the byte was
xor-ed into the low end. Everything below is for an arbitrary (reflected)
polynomial; `crc32` at the end is the standard CRC-32/ISO-HDLC.

# Table form

The register update is linear over xor, so eight bit steps split into
those of the low octet, which a table of 256 words holds, and a plain
shift of the rest (`crcByte_eq_table`).

# Running backward

The top octet of the register after a byte is the top octet of the table
word used, so a table from top octets back to words undoes the step
(`revByte_crcByte`), and redoes it from the other side
(`crcByte_revByte`). Bytes can then be chosen in the middle of a message
to reach any register from any register (`crcBytes_forge`): four bytes
cover the register, and while four bytes are being shifted in from the
low end none of them has reached the top octet yet, so what they
contribute is their own xor (`revBytes_eq_wordLE`).
-/
import FactoryCacher.Lib.Bytes
import Mathlib.Data.BitVec

namespace FactoryCacher

namespace Crc

-- ===================================================== bits, bytes, strings

/-- One step of the register. -/
def crcBit (poly c : BitVec 32) : BitVec 32 :=
  if c.getLsbD 0 then (c >>> 1) ^^^ poly else c >>> 1

/-- `n` steps of the register. -/
def crcBits (poly : BitVec 32) : Nat → BitVec 32 → BitVec 32
  | 0, c => c
  | n + 1, c => crcBits poly n (crcBit poly c)

/-- An octet at the low end of a register. -/
def low (b : BitVec 8) : BitVec 32 := b.setWidth 32

/-- The register after one byte. -/
def crcByte (poly c : BitVec 32) (b : UInt8) : BitVec 32 :=
  crcBits poly 8 (c ^^^ low b.toBitVec)

/-- The register after a byte string. -/
def crcBytes (poly c : BitVec 32) (bs : Bytes) : BitVec 32 :=
  bs.foldl (crcByte poly) c

/-- The table: eight steps from every octet. -/
def crcTable (poly : BitVec 32) (n : BitVec 8) : BitVec 32 :=
  crcBits poly 8 (low n)

/-- The top octet of a register. -/
def topOctet (c : BitVec 32) : BitVec 8 := (c >>> 24).setWidth 8

/-- The low octet of a register. -/
def lowOctet (c : BitVec 32) : BitVec 8 := c.setWidth 8

variable {poly : BitVec 32}

theorem crcBytes_append (c : BitVec 32) (xs ys : Bytes) :
    crcBytes poly c (xs ++ ys) = crcBytes poly (crcBytes poly c xs) ys :=
  List.foldl_append

-- =============================================================== linearity

theorem crcBit_xor (a b : BitVec 32) :
    crcBit poly (a ^^^ b) = crcBit poly a ^^^ crcBit poly b := by
  apply BitVec.eq_of_getLsbD_eq
  intro i hi
  unfold crcBit
  simp only [BitVec.getLsbD_xor]
  cases ha : a.getLsbD 0 <;> cases hb : b.getLsbD 0 <;>
    simp [BitVec.getLsbD_xor] <;> grind

theorem crcBits_xor (n : Nat) (a b : BitVec 32) :
    crcBits poly n (a ^^^ b) = crcBits poly n a ^^^ crcBits poly n b := by
  induction n generalizing a b with
  | zero => rfl
  | succ n ih => rw [crcBits, crcBit_xor, ih, crcBits, crcBits]

theorem low_xor (a b : BitVec 8) : low (a ^^^ b) = low a ^^^ low b := by
  simp [low]

theorem crcTable_xor (a b : BitVec 8) :
    crcTable poly (a ^^^ b) = crcTable poly a ^^^ crcTable poly b := by
  rw [crcTable, low_xor, crcBits_xor]
  rfl

/-- A register whose low `k` bits are clear only moves down. -/
theorem crcBits_of_clear (k : Nat) (c : BitVec 32)
    (h : ∀ i, i < k → c.getLsbD i = false) :
    crcBits poly k c = c >>> k := by
  induction k generalizing c with
  | zero => simp [crcBits]
  | succ k ih =>
      have hbit : crcBit poly c = c >>> 1 := by
        rw [crcBit, h 0 (by omega)]
        rfl
      have hrest : ∀ i, i < k → (c >>> 1).getLsbD i = false := by
        intro i hi
        rw [BitVec.getLsbD_ushiftRight]
        exact h (1 + i) (by omega)
      rw [crcBits, hbit, ih _ hrest, ← BitVec.shiftRight_add, Nat.add_comm]

-- ============================================================== table form

/-- A register is its low octet and its high part. -/
theorem split_low (c : BitVec 32) :
    c = low (lowOctet c) ^^^ ((c >>> 8) <<< 8) := by
  apply BitVec.eq_of_getLsbD_eq
  intro i hi
  simp only [low, lowOctet, BitVec.getLsbD_xor, BitVec.getLsbD_setWidth,
    BitVec.getLsbD_shiftLeft, BitVec.getLsbD_ushiftRight]
  by_cases h8 : i < 8
  · simp [h8, hi]
  · have : 8 + (i - 8) = i := by omega
    simp [h8, hi, this]

theorem crcBits_eight (c : BitVec 32) :
    crcBits poly 8 c = crcTable poly (lowOctet c) ^^^ (c >>> 8) := by
  have hclear : ∀ i, i < 8 → ((c >>> 8) <<< 8).getLsbD i = false := by
    intro i hi
    simp [BitVec.getLsbD_shiftLeft, hi]
  have hshift : ((c >>> 8) <<< 8) >>> 8 = c >>> 8 := by
    apply BitVec.eq_of_getLsbD_eq
    intro i hi
    simp only [BitVec.getLsbD_ushiftRight, BitVec.getLsbD_shiftLeft]
    by_cases h : 8 + i < 32
    · simp [h]
    · simp [h, BitVec.getLsbD_of_ge c (8 + i) (by omega)]
  conv_lhs => rw [split_low c, crcBits_xor, crcBits_of_clear 8 _ hclear,
    hshift]
  rfl

/-- A byte is one table word and a shift. -/
theorem crcByte_eq_table (c : BitVec 32) (b : UInt8) :
    crcByte poly c b
      = crcTable poly (lowOctet (c ^^^ low b.toBitVec)) ^^^ (c >>> 8) := by
  have hb : low b.toBitVec >>> 8 = 0#32 := by
    apply BitVec.eq_of_getLsbD_eq
    intro i hi
    simp [low, BitVec.getLsbD_ushiftRight, BitVec.getLsbD_setWidth]
  rw [crcByte, crcBits_eight, BitVec.ushiftRight_xor_distrib, hb,
    BitVec.xor_zero]

-- ================================================================ backward

/-- One byte backward, through a table from top octets to words. -/
def revByte (rev : BitVec 8 → BitVec 32) (v : BitVec 32) (b : UInt8) :
    BitVec 32 :=
  (v <<< 8) ^^^ rev (topOctet v) ^^^ low b.toBitVec

/-- A byte string backward, last byte first. -/
def revBytes (rev : BitVec 8 → BitVec 32) (v : BitVec 32) (bs : Bytes) :
    BitVec 32 :=
  bs.reverse.foldl (revByte rev) v

/-- `rev` runs the table of `poly` backward: from the top octet of a
table word it finds the rest of the word and its index. -/
def Reverses (poly : BitVec 32) (rev : BitVec 8 → BitVec 32) : Prop :=
  ∀ n, rev (topOctet (crcTable poly n)) = (crcTable poly n <<< 8) ^^^ low n

variable {rev : BitVec 8 → BitVec 32}

theorem revBytes_nil (v : BitVec 32) : revBytes rev v [] = v := rfl

theorem revBytes_cons (v : BitVec 32) (b : UInt8) (bs : Bytes) :
    revBytes rev v (b :: bs) = revByte rev (revBytes rev v bs) b := by
  rw [revBytes, List.reverse_cons, List.foldl_append]
  rfl

theorem topOctet_xor (a b : BitVec 32) :
    topOctet (a ^^^ b) = topOctet a ^^^ topOctet b := by
  simp [topOctet, BitVec.ushiftRight_xor_distrib]

theorem topOctet_shiftRight (c : BitVec 32) : topOctet (c >>> 8) = 0 := by
  apply BitVec.eq_of_getLsbD_eq
  intro i hi
  simp only [topOctet, BitVec.getLsbD_setWidth, BitVec.getLsbD_ushiftRight]
  rw [BitVec.getLsbD_of_ge c _ (by omega)]
  simp

/-- The two octets of a register the low end is made of. -/
theorem shift_low_cancel (c : BitVec 32) (b : BitVec 8) :
    ((c >>> 8) <<< 8) ^^^ low (lowOctet (c ^^^ low b)) ^^^ low b = c := by
  have hlow : low (lowOctet (c ^^^ low b)) = low (lowOctet c) ^^^ low b := by
    rw [← low_xor]
    apply congrArg low
    apply BitVec.eq_of_getLsbD_eq
    intro i hi
    have hi32 : i < 32 := by omega
    simp [lowOctet, low, hi, hi32]
  rw [hlow, ← BitVec.xor_assoc, BitVec.xor_assoc _ (low b) (low b),
    BitVec.xor_self, BitVec.xor_zero, BitVec.xor_comm]
  exact (split_low c).symm

/-- The backward step undoes the forward step. -/
theorem revByte_crcByte (h : Reverses poly rev) (c : BitVec 32)
    (b : UInt8) : revByte rev (crcByte poly c b) b = c := by
  rw [crcByte_eq_table, revByte, topOctet_xor, topOctet_shiftRight,
    show ∀ x : BitVec 8, x ^^^ 0 = x from fun x => BitVec.xor_zero,
    h, BitVec.shiftLeft_xor_distrib]
  generalize crcTable poly (lowOctet (c ^^^ low b.toBitVec)) <<< 8 = t
  calc t ^^^ c >>> 8 <<< 8 ^^^ (t ^^^ low (lowOctet (c ^^^ low b.toBitVec)))
          ^^^ low b.toBitVec
      = (t ^^^ t) ^^^ (c >>> 8 <<< 8
          ^^^ low (lowOctet (c ^^^ low b.toBitVec)) ^^^ low b.toBitVec) := by
        ac_rfl
    _ = c := by
        rw [BitVec.xor_self, BitVec.zero_xor, shift_low_cancel]

/-- The forward step undoes the backward step: on finitely many
registers a left inverse is an inverse. -/
theorem crcByte_revByte (h : Reverses poly rev) (v : BitVec 32)
    (b : UInt8) : crcByte poly (revByte rev v b) b = v := by
  have hinj : Function.Injective (fun c => crcByte poly c b) := by
    intro c c' heq
    have hback := congrArg (fun v => revByte rev v b) heq
    simpa only [revByte_crcByte h] using hback
  have : Finite (BitVec 32) :=
    Finite.of_injective BitVec.toFin fun _ _ => BitVec.eq_of_toFin_eq
  obtain ⟨c, hc⟩ := Finite.surjective_of_injective hinj v
  have hc' : crcByte poly c b = v := hc
  rw [← hc', revByte_crcByte h]

theorem crcBytes_revBytes (h : Reverses poly rev) (v : BitVec 32)
    (bs : Bytes) : crcBytes poly (revBytes rev v bs) bs = v := by
  induction bs with
  | nil => rfl
  | cons b bs ih =>
      rw [revBytes_cons]
      show crcBytes poly (crcByte poly _ b) bs = v
      rw [crcByte_revByte h]
      exact ih

-- =========================================================== four free bytes

/-- Bytes as a register, least significant first. -/
def wordLE : Bytes → BitVec 32
  | [] => 0
  | b :: bs => low b.toBitVec ^^^ (wordLE bs <<< 8)

/-- The backward step on a zero byte. -/
def revZero (rev : BitVec 8 → BitVec 32) (v : BitVec 32) : BitVec 32 :=
  (v <<< 8) ^^^ rev (topOctet v)

/-- What sits below the top octet is only shifted by a backward step. -/
theorem revZero_xor (v x : BitVec 32) (hx : topOctet x = 0) :
    revZero rev (v ^^^ x) = revZero rev v ^^^ (x <<< 8) := by
  have hzero : topOctet v ^^^ (0 : BitVec 8) = topOctet v :=
    BitVec.xor_zero
  rw [revZero, topOctet_xor, hx, hzero, BitVec.shiftLeft_xor_distrib,
    revZero]
  ac_rfl

/-- Three bytes do not reach the top octet. -/
theorem getLsbD_wordLE_of_ge :
    ∀ (bs : Bytes) (i : Nat), 8 * bs.length ≤ i →
      (wordLE bs).getLsbD i = false := by
  intro bs
  induction bs with
  | nil => intro i _; simp [wordLE]
  | cons b bs ih =>
      intro i hi
      rw [List.length_cons] at hi
      have h8 : ¬ i < 8 := by omega
      have hrest := ih (i - 8) (by omega)
      simp [wordLE, low, BitVec.getLsbD_shiftLeft, hrest,
        BitVec.getLsbD_of_ge b.toBitVec i (by omega)]

theorem topOctet_wordLE {bs : Bytes} (h : bs.length ≤ 3) :
    topOctet (wordLE bs) = 0 := by
  apply BitVec.eq_of_getLsbD_eq
  intro i hi
  have hbit := getLsbD_wordLE_of_ge bs (24 + i) (by omega)
  simp [topOctet, BitVec.getLsbD_setWidth, BitVec.getLsbD_ushiftRight,
    hbit]

/-- Up to four bytes contribute their own xor to a backward run. -/
theorem revBytes_eq_wordLE (v : BitVec 32) :
    ∀ bs : Bytes, bs.length ≤ 4 →
      revBytes rev v bs = (revZero rev)^[bs.length] v ^^^ wordLE bs := by
  intro bs
  induction bs with
  | nil =>
      intro _
      rw [revBytes_nil, wordLE]
      exact BitVec.xor_zero.symm
  | cons b bs ih =>
      intro hlen
      rw [List.length_cons] at hlen
      have htop : topOctet (wordLE bs) = 0 := topOctet_wordLE (by omega)
      rw [revBytes_cons, ih (by omega), List.length_cons,
        Function.iterate_succ_apply', wordLE]
      show revZero rev (_ ^^^ _) ^^^ low b.toBitVec = _
      rw [revZero_xor _ _ htop]
      ac_rfl

/-- The bits of a number written in bytes. -/
theorem getLsbD_wordLE_toLE (w n : Nat) (i : Nat) (hi : i < 32) :
    (wordLE (toLE w n)).getLsbD i = (decide (i < 8 * w) && n.testBit i) := by
  induction w generalizing n i with
  | zero => simp [toLE, wordLE]
  | succ w ih =>
      rw [toLE, wordLE, BitVec.getLsbD_xor, BitVec.getLsbD_shiftLeft]
      by_cases h8 : i < 8
      · have hlt : i < 8 * (w + 1) := by omega
        have hlow : (low (UInt8.ofNat n).toBitVec).getLsbD i
            = n.testBit i := by
          show (low (BitVec.ofNat 8 n)).getLsbD i = _
          rw [low, BitVec.getLsbD_setWidth, BitVec.getLsbD_ofNat]
          simp [hi, h8]
        simp [h8, hlow, hlt]
      · have hlow : (low (UInt8.ofNat n).toBitVec).getLsbD i = false := by
          rw [low, BitVec.getLsbD_setWidth,
            BitVec.getLsbD_of_ge _ i (by omega)]
          simp
        have hdiv : (n / 256).testBit (i - 8) = n.testBit i := by
          rw [show (256 : Nat) = 2 ^ 8 from rfl, Nat.testBit_div_two_pow]
          congr 1
          omega
        have hiff : decide (i - 8 < 8 * w) = decide (i < 8 * (w + 1)) := by
          apply decide_eq_decide.2
          omega
        rw [hlow, ih (n / 256) (i - 8) (by omega), hdiv, hiff]
        simp [h8, hi]

/-- A register written in four bytes is that register. -/
theorem wordLE_toLE_four (x : BitVec 32) :
    wordLE (toLE 4 x.toNat) = x := by
  apply BitVec.eq_of_getLsbD_eq
  intro i hi
  rw [getLsbD_wordLE_toLE 4 x.toNat i hi]
  have hlt : i < 8 * 4 := by omega
  simp [hlt, BitVec.testBit_toNat]

/-- The four bytes that lead from register `c` to register `v`. -/
def forge (rev : BitVec 8 → BitVec 32) (c v : BitVec 32) : Bytes :=
  toLE 4 (revBytes rev v (toLE 4 c.toNat)).toNat

/-- Forging: from `c` the forged bytes lead to `v`. -/
theorem crcBytes_forge (h : Reverses poly rev) (c v : BitVec 32) :
    crcBytes poly c (forge rev c v) = v := by
  have hword : ∀ x : BitVec 32, revBytes rev v (toLE 4 x.toNat)
      = (revZero rev)^[4] v ^^^ x := by
    intro x
    have hlen : (toLE 4 x.toNat).length ≤ 4 := by rw [length_toLE]
    rw [revBytes_eq_wordLE v _ hlen, length_toLE, wordLE_toLE_four]
  -- running the forged bytes back from `v` gives `c`
  have hback : revBytes rev v (forge rev c v) = c := by
    rw [forge, hword, hword, ← BitVec.xor_assoc, BitVec.xor_self,
      BitVec.zero_xor]
  calc crcBytes poly c (forge rev c v)
      = crcBytes poly (revBytes rev v (forge rev c v)) (forge rev c v) := by
        rw [hback]
    _ = v := crcBytes_revBytes h v _

-- ==================================================== CRC-32/ISO-HDLC

/-- The (reflected) polynomial of CRC-32/ISO-HDLC. -/
def isoHdlcPoly : BitVec 32 := 0xEDB88320#32

/-- CRC-32/ISO-HDLC: initial value and output xor all ones. -/
def crc32 (bs : Bytes) : UInt32 :=
  ⟨crcBytes isoHdlcPoly (BitVec.allOnes 32) bs ^^^ BitVec.allOnes 32⟩

/-- The check value of the algorithm, on the digits 1 to 9. -/
example : crc32 [0x31, 0x32, 0x33, 0x34, 0x35, 0x36, 0x37, 0x38, 0x39]
    = 0xCBF43926 := by decide +kernel

/-- A table of words from top octets is determined by its entries as
soon as no two table words share a top octet; by linearity that is a
statement about the words of nonzero octets. -/
theorem topOctet_table_injective
    (h : ∀ n : BitVec 8, topOctet (crcTable poly n) = 0 → n = 0) :
    Function.Injective fun n => topOctet (crcTable poly n) := by
  intro a b hab
  have hab' : topOctet (crcTable poly a) = topOctet (crcTable poly b) := hab
  have hz : topOctet (crcTable poly (a ^^^ b)) = 0 := by
    rw [crcTable_xor, topOctet_xor, hab']
    exact BitVec.xor_self
  exact BitVec.xor_eq_zero_iff.1 (h _ hz)

theorem isoHdlc_topOctet (n : BitVec 8) :
    topOctet (crcTable isoHdlcPoly n) = 0 → n = 0 := by
  have hall : ∀ m : Fin 256,
      topOctet (crcTable isoHdlcPoly (BitVec.ofFin m)) = 0 → m = 0 := by
    decide +kernel
  intro h
  have hn := hall n.toFin (by simpa using h)
  exact BitVec.eq_of_toFin_eq (by simpa using hn)

end Crc

end FactoryCacher
