/-
Messages between the two Nebula proxies (dsp-nebula-cacher/src/
protocol.rs).

In the place of a deduplicated packet the server sends a
`StartDedupIndicator` as a WebSocket message of its own, which the
client knows by its magic number. The packet's description then goes
over a stream of its own.
-/
import FactoryCacher.Nebula.NebulaProtocol

namespace FactoryCacher

structure DedupedPacketDescription where
  packet : NebulaPacket
  originalPacketSize : UInt64
  deriving DecidableEq

structure StartDedupIndicator where
  dedupId : UInt64
  deriving DecidableEq

namespace StartDedupIndicator

/-- `MAGIC_NUMBER`. -/
def magicNumber : Bytes :=
  [0x17, 0xf8, 0x4a, 0xc8, 0x97, 0xb3, 0x67, 0x69, 0x95, 0xb8, 0xf5, 0xfb,
   0xc3, 0xa1, 0x0c, 0x9b, 0xed, 0xa0, 0x2a, 0xab, 0x0e, 0x3e, 0x75, 0x2e,
   0x8b, 0x46, 0xa1, 0xaf, 0x40, 0xcf, 0x86, 0x0f]

def decode (buf : Bytes) : Option StartDedupIndicator :=
  if magicNumber.isPrefixOf buf then
    match tryGetU64 (buf.drop magicNumber.length) with
    | .error _ => none
    | .ok (dedupId, _) => some { dedupId }
  else none

def encode (indicator : StartDedupIndicator) : Bytes :=
  magicNumber ++ putU64 indicator.dedupId

/-- An indicator that is sent is recognized. -/
theorem decode_encode (indicator : StartDedupIndicator) :
    decode indicator.encode = some indicator := by
  have hmagic : magicNumber.isPrefixOf indicator.encode = true := by
    rw [encode, List.isPrefixOf_iff_prefix]
    exact List.prefix_append ..
  have hid := run_tryGetU64_append indicator.dedupId []
  rw [List.append_nil] at hid
  rw [decode, if_pos hmagic, encode, List.drop_left, hid]

/-- Only what starts with the magic number is. -/
theorem decode_eq_none {buf : Bytes} (h : ¬ magicNumber <+: buf) :
    decode buf = none := by
  rw [decode, if_neg (mt List.isPrefixOf_iff_prefix.1 h)]

end StartDedupIndicator

end FactoryCacher
