/-
The CRC crate as this program sees it, and the reversed CRC
(factorio-cacher/src/rev_crc.rs).

The `crc` crate is a dependency, so it is a parameter: a digest type with
its operations, the one-shot checksum, the first lookup table and the
output xor of the algorithm. What the program relies on is
`CrcCrate.IsIsoHdlc`: it computes CRC-32/ISO-HDLC, in pieces as well as
at once, from the lookup table of that algorithm.

`RevCRC` inverts the lookup table by its top octets and runs a message
backward; `forgeCrc` meets a forward and a backward run in the middle.
-/
import FactoryCacher.Lib.Crc

namespace FactoryCacher

-- =========================================================== the crc crate

/-- What `crc::Crc<u32>` offers. -/
structure CrcCrate where
  Digest : Type
  /-- `Crc::digest` -/
  digest : Digest
  /-- `Digest::update` -/
  update : Digest → Bytes → Digest
  /-- `Digest::finalize` -/
  finalize : Digest → UInt32
  /-- `Crc::checksum` -/
  checksum : Bytes → UInt32
  /-- `Crc::table()[0]` -/
  table : Vector UInt32 256
  /-- `Algorithm::xorout` -/
  xorout : UInt32

/-- The crate computes CRC-32/ISO-HDLC, incrementally, with its table. -/
structure CrcCrate.IsIsoHdlc (crc : CrcCrate) : Prop where
  finalize : ∀ pieces : List Bytes,
    crc.finalize (pieces.foldl crc.update crc.digest)
      = Crc.crc32 pieces.flatten
  checksum : ∀ bs, crc.checksum bs = Crc.crc32 bs
  table : ∀ n : Fin 256, (crc.table.get n).toBitVec
    = Crc.crcTable Crc.isoHdlcPoly (BitVec.ofFin n)
  xorout : crc.xorout = 0xFFFFFFFF

/-- The textbook implementation, register and table. -/
def isoHdlcCrate : CrcCrate where
  Digest := BitVec 32
  digest := BitVec.allOnes 32
  update := Crc.crcBytes Crc.isoHdlcPoly
  finalize c := ⟨c ^^^ BitVec.allOnes 32⟩
  checksum := Crc.crc32
  table := Vector.ofFn fun n =>
    ⟨Crc.crcTable Crc.isoHdlcPoly (BitVec.ofFin n)⟩
  xorout := 0xFFFFFFFF

-- ======================================================== the reversed CRC

/-- The top byte of a word, as a table index. -/
def topByte (x : UInt32) : Fin 256 :=
  ⟨(x >>> 24).toNat, by
    have := x.toNat_lt
    simp [UInt32.toNat_shiftRight, Nat.shiftRight_eq_div_pow]
    omega⟩

/-- `RevCRC`: the output xor of its algorithm and the reversed table. -/
structure RevCRC where
  xorout : UInt32
  reverseTable : Vector UInt32 256

namespace RevCRC

/-- One turn of the loop of `new`: entry `n` goes to the place of its
top byte. -/
def setEntry (table : Vector UInt32 256) (reverseTable : Vector UInt32 256)
    (n : Fin 256) : Vector UInt32 256 :=
  reverseTable.set (topByte (table.get n))
    ((table.get n <<< 8) ^^^ UInt32.ofNat n)

/-- `RevCRC::new`. -/
def new (crc : CrcCrate) : RevCRC where
  xorout := crc.xorout
  reverseTable := (List.finRange 256).foldl (setEntry crc.table)
    (Vector.replicate 256 0)

/-- One turn of the loop of `update`. -/
def step (rc : RevCRC) (value : UInt32) (byte : UInt8) : UInt32 :=
  (value <<< 8) ^^^ rc.reverseTable.get (topByte value) ^^^ byte.toUInt32

/-- `RevCRC::update`: the bytes of `data` from the last to the first. -/
def update (rc : RevCRC) (value : UInt32) (data : Bytes) : UInt32 :=
  data.reverse.foldl rc.step value

end RevCRC

/-- `RevDigest`. -/
structure RevDigest where
  crc : RevCRC
  value : UInt32

/-- `RevCRC::digest`. -/
def RevCRC.digest (rc : RevCRC) (initialValue : UInt32) : RevDigest :=
  { crc := rc, value := initialValue ^^^ rc.xorout }

namespace RevDigest

/-- `RevDigest::update`; data must be appended in reverse order. -/
def update (d : RevDigest) (data : Bytes) : RevDigest :=
  { d with value := d.crc.update d.value data }

/-- `RevDigest::finalize`. -/
def finalize (d : RevDigest) : UInt32 := d.value

end RevDigest

/-- `forge_crc`: the four bytes to put between what `beforeDigest` has
seen and what `afterDigest` has seen. -/
def forgeCrc (beforeDigest : UInt32) (afterDigest : RevDigest) : Bytes :=
  let before := beforeDigest ^^^ afterDigest.crc.xorout
  putU32Le (afterDigest.update (putU32Le before)).finalize

end FactoryCacher
