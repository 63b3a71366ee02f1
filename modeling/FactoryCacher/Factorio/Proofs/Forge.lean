/-
CRC forging is right: the reversed table inverts the forward one, the
reversed digest runs the CRC backward, and the four bytes of `forgeCrc`
make the CRC of the whole message the target.

The library's theory is over registers as bit vectors and an arbitrary
reversed table; this file shows that the program's tables and digests
are instances of it (`reverses_new`, `update_toBitVec`) and reads off
the result (`crc32_forge`).
-/
import FactoryCacher.Factorio.RevCrc

namespace FactoryCacher

open Crc

-- ======================================================= the reversed table

theorem topByte_eq (x : UInt32) :
    topOctet x.toBitVec = BitVec.ofFin (topByte x) := by
  apply BitVec.eq_of_toNat_eq
  have hx := x.toNat_lt
  simp only [topOctet, BitVec.toNat_setWidth, BitVec.toNat_ushiftRight,
    UInt32.toNat_toBitVec, topByte, UInt32.toNat_shiftRight]
  show x.toNat >>> 24 % 256 = x.toNat >>> 24
  rw [Nat.shiftRight_eq_div_pow]
  omega

theorem get_set (v : Vector UInt32 256) (i j : Fin 256) (x : UInt32) :
    (v.set i x).get j = if i = j then x else v.get j := by
  show (v.set i x)[j.val] = if i = j then x else v[j.val]
  rw [Vector.getElem_set]
  simp [Fin.ext_iff]

/-- Entries written at distinct places are all there in the end. -/
theorem get_foldl_setEntry (table : Vector UInt32 256)
    (hinj : Function.Injective fun n => topByte (table.get n)) :
    ∀ (todo : List (Fin 256)) (start : Vector UInt32 256) (n : Fin 256),
      n ∈ todo ∨ start.get (topByte (table.get n))
        = (table.get n <<< 8) ^^^ UInt32.ofNat n →
      (todo.foldl (RevCRC.setEntry table) start).get
        (topByte (table.get n)) = (table.get n <<< 8) ^^^ UInt32.ofNat n := by
  intro todo
  induction todo with
  | nil =>
      intro start n h
      rcases h with h | h
      · cases h
      · exact h
  | cons m todo ih =>
      intro start n h
      rw [List.foldl_cons]
      apply ih
      by_cases hnm : n = m
      · right
        subst hnm
        rw [RevCRC.setEntry, get_set, if_pos rfl]
      · rcases h with h | h
        · rcases List.mem_cons.1 h with h | h
          · exact absurd h hnm
          · exact Or.inl h
        · right
          have hne : topByte (table.get m) ≠ topByte (table.get n) :=
            fun heq => hnm (hinj heq).symm
          rw [RevCRC.setEntry, get_set, if_neg hne]
          exact h

/-- The reversed table of a digest, as a function of the top octet. -/
def RevCRC.rev (rc : RevCRC) (t : BitVec 8) : BitVec 32 :=
  (rc.reverseTable.get t.toFin).toBitVec

/-- No two table words share a top byte. -/
theorem topByte_table_injective {crc : CrcCrate} (h : crc.IsIsoHdlc) :
    Function.Injective fun n => topByte (crc.table.get n) := by
  intro a b hab
  have htop : topOctet (crcTable isoHdlcPoly (BitVec.ofFin a))
      = topOctet (crcTable isoHdlcPoly (BitVec.ofFin b)) := by
    rw [← h.table, ← h.table, topByte_eq, topByte_eq]
    exact congrArg BitVec.ofFin hab
  have heq := topOctet_table_injective isoHdlc_topOctet htop
  exact BitVec.ofFin.inj heq

/-- The table `RevCRC::new` derives runs the forward table backward. -/
theorem reverses_new {crc : CrcCrate} (h : crc.IsIsoHdlc) :
    Reverses isoHdlcPoly (RevCRC.new crc).rev := by
  intro n
  have hentry := get_foldl_setEntry crc.table (topByte_table_injective h)
    (List.finRange 256) (Vector.replicate 256 0) n.toFin
    (Or.inl (List.mem_finRange _))
  have htable := h.table n.toFin
  rw [BitVec.ofFin_toFin] at htable
  have hlow : (UInt32.ofNat n.toFin).toBitVec = low n := by
    apply BitVec.eq_of_toNat_eq
    have hn := n.isLt
    simp [low]
  rw [← htable, topByte_eq]
  show ((RevCRC.new crc).reverseTable.get _).toBitVec = _
  rw [RevCRC.new, hentry, UInt32.toBitVec_xor, hlow]
  rfl

-- ====================================================== the reversed digest

theorem step_toBitVec (rc : RevCRC) (value : UInt32) (byte : UInt8) :
    (rc.step value byte).toBitVec
      = revByte rc.rev value.toBitVec byte := by
  have htop : rc.rev (topOctet value.toBitVec)
      = (rc.reverseTable.get (topByte value)).toBitVec := by
    rw [topByte_eq]
    rfl
  rw [revByte, htop]
  rfl

theorem update_toBitVec (rc : RevCRC) (value : UInt32) (data : Bytes) :
    (rc.update value data).toBitVec
      = revBytes rc.rev value.toBitVec data := by
  unfold RevCRC.update revBytes
  induction data.reverse generalizing value with
  | nil => rfl
  | cons byte rest ih =>
      rw [List.foldl_cons, ih, step_toBitVec, List.foldl_cons]

/-- Two pieces, the later one first. -/
theorem RevDigest.update_update (d : RevDigest) (xs ys : Bytes) :
    (d.update ys).update xs = d.update (xs ++ ys) := by
  simp [RevDigest.update, RevCRC.update, List.foldl_append]

/-- A reversed digest fed the pieces of `after`, last piece first. -/
theorem foldl_update_eq (d : RevDigest) (pieces : List Bytes) :
    pieces.reverse.foldl RevDigest.update d = d.update pieces.flatten := by
  induction pieces generalizing d with
  | nil => rfl
  | cons piece pieces ih =>
      rw [List.reverse_cons, List.foldl_append, ih]
      show (d.update pieces.flatten).update piece = _
      rw [RevDigest.update_update, List.flatten_cons]

-- ================================================================= forging

/-- Forging, over the reversed digest of what comes after. -/
theorem crc32_forge {crc : CrcCrate} (h : crc.IsIsoHdlc)
    (before after : Bytes) (target : UInt32) :
    crc32 (before ++ forgeCrc (crc32 before)
        (((RevCRC.new crc).digest target).update after) ++ after)
      = target := by
  have hrev := reverses_new h
  -- the register after `before`, and the one `after` must start from
  have hbefore : (crc32 before ^^^ crc.xorout).toBitVec
      = crcBytes isoHdlcPoly (BitVec.allOnes 32) before := by
    rw [UInt32.toBitVec_xor, h.xorout, crc32]
    show crcBytes isoHdlcPoly _ before ^^^ BitVec.allOnes 32
      ^^^ BitVec.allOnes 32 = _
    rw [BitVec.xor_assoc, BitVec.xor_self, BitVec.xor_zero]
  have hforge : forgeCrc (crc32 before)
      (((RevCRC.new crc).digest target).update after)
      = forge (RevCRC.new crc).rev
          (crcBytes isoHdlcPoly (BitVec.allOnes 32) before)
          (revBytes (RevCRC.new crc).rev (target ^^^ crc.xorout).toBitVec
            after) := by
    rw [← hbefore, ← update_toBitVec]
    show putU32Le ((RevCRC.new crc).update ((RevCRC.new crc).update
      (target ^^^ crc.xorout) after) (putU32Le (crc32 before ^^^ crc.xorout)))
      = _
    rw [putU32Le, forge, ← update_toBitVec]
    rfl
  rw [crc32, hforge, List.append_assoc, crcBytes_append, crcBytes_append,
    crcBytes_forge hrev, crcBytes_revBytes hrev]
  apply UInt32.toBitVec_inj.1
  show (target ^^^ crc.xorout).toBitVec ^^^ BitVec.allOnes 32 = _
  rw [UInt32.toBitVec_xor, h.xorout]
  show target.toBitVec ^^^ BitVec.allOnes 32 ^^^ BitVec.allOnes 32 = _
  rw [BitVec.xor_assoc, BitVec.xor_self, BitVec.xor_zero]

/-- The textbook implementation is one. -/
theorem isoHdlcCrate_isIsoHdlc : isoHdlcCrate.IsIsoHdlc where
  finalize pieces := by
    have hfold : ∀ (pieces : List Bytes) (c : BitVec 32),
        pieces.foldl (crcBytes isoHdlcPoly) c
          = crcBytes isoHdlcPoly c pieces.flatten := by
      intro pieces
      induction pieces with
      | nil => intro c; rfl
      | cons p ps ih =>
          intro c
          rw [List.foldl_cons, ih, List.flatten_cons, crcBytes_append]
    show (⟨pieces.foldl (crcBytes isoHdlcPoly) (BitVec.allOnes 32)
      ^^^ BitVec.allOnes 32⟩ : UInt32) = _
    rw [hfold]
    rfl
  checksum _ := rfl
  table n := by
    show ((Vector.ofFn fun n : Fin 256 =>
      (⟨crcTable isoHdlcPoly (BitVec.ofFin n)⟩ : UInt32))[n.val]).toBitVec
      = _
    rw [Vector.getElem_ofFn]
  xorout := rfl

/-- The four bytes of `forge_crc` between `before` and `after` give the
whole the target CRC, however `after` was cut for the reversed digest. -/
theorem crc_forging {crc : CrcCrate} (h : crc.IsIsoHdlc)
    (before after : Bytes) (target : UInt32) {pieces : List Bytes}
    (hcut : pieces.flatten = after) {digest : RevDigest}
    (hdigest : digest = pieces.reverse.foldl RevDigest.update
      ((RevCRC.new crc).digest target)) :
    (forgeCrc (crc32 before) digest).length = 4
    ∧ crc32 (before ++ forgeCrc (crc32 before) digest ++ after)
      = target := by
  subst hcut hdigest
  rw [foldl_update_eq]
  exact ⟨rfl, crc32_forge h before pieces.flatten target⟩

/-- "save" and "game", the latter in two pieces. -/
theorem crc_forging_saveGame :
    ∃ f : Bytes, f.length = 4
      ∧ f = forgeCrc (crc32 [115, 97, 118, 101])
        ((((RevCRC.new isoHdlcCrate).digest 298719934).update
          [109, 101]).update [103, 97])
      ∧ crc32 ([115, 97, 118, 101] ++ f ++ [103, 97, 109, 101])
        = 298719934 := by
  have hcut : ([[103, 97], [109, 101]] : List Bytes).flatten
      = [103, 97, 109, 101] := rfl
  obtain ⟨hlen, hcrc⟩ := crc_forging isoHdlcCrate_isIsoHdlc
    [115, 97, 118, 101] [103, 97, 109, 101] 298719934 hcut rfl
  exact ⟨_, hlen, rfl, hcrc⟩

end FactoryCacher
