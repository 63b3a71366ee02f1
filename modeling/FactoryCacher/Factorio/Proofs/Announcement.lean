/-
The announcement that reaches the client.

When the game server announces a world, the server proxy sends the
announcement on with the world size replaced by its estimate. It does
not remember where the decoder found the metadata: it searches the whole
packet for the twenty bytes of the metadata and replaces them wherever
they stand (`filter_packet`).

# The layout of an announcement

A packet that `announcedWorld` recognises is cut into five parts:

    head ++ confirm ++ front ++ metadata ++ trailing

The head is the packet header up to the content of its confirm array,
and the front is the heartbeat's flags, its sequence number, the number
of actions and the type of the first. `Announcement` carries that its
parts are read as such whatever follows them, so `bytes` of it is an
announcement of any metadata put into it (`announcedWorld_bytes`), and
every announcement is one (`exists_announcement`).

# What the search may find

The search goes through the packet from the left. It finds the metadata
where the decoder read it unless an earlier match overlaps it, and then
it misses it. The twenty bytes of the metadata can also stand elsewhere
in the packet, and are replaced there as well. So the packet that goes
on is the one with the field rewritten where the decoder read it just
when the search reports that place and no other, or when the estimate is
the world size itself: the condition of `announcement_rewrite` is exact
(`replaceAll_eq_overwrite_iff` of Lib/Search.lean).

A match elsewhere need not be noticed. In the confirm array and behind
the metadata nobody looks at what it changes, and the client still reads
the announcement it should (`SearchClear`). Anywhere else it can be
noticed: the replaced bytes are fields the client reads
(`announcement_rewrite_breaks`, where they are the action type).
-/
import FactoryCacher.Lib.Readers
import FactoryCacher.Factorio.Proofs.Forwarding

namespace FactoryCacher

-- ================================================================ positions

namespace FactorioPacketHeader

/-- The length of the confirm array that follows. -/
def confirmLength (messageId : UInt16) : Get Nat :=
  if messageId &&& 0x8000 ≠ 0 then do
    let len ← tryGetU32Le
    return len.toNat
  else return 0

/-- The fragmentation fields up to the content of the confirm array. -/
def readFragmentation (isFragmented isLastFragment : Bool) :
    Get (PacketFragmentationInfo × Nat) := do
  let messageId ← tryGetU16Le
  let fragmentId ← decodeFragmentId isFragmented
  let len ← confirmLength messageId
  return ({ isLastFragment := isLastFragment
            messageId := messageId &&& 0x7FFF
            fragmentId := fragmentId }, len)

/-- The header up to the content of the confirm array, and the length of
the array. -/
def readHead : Get (FactorioPacketHeader × Nat) := do
  let flags ← tryGetU8
  let packetType := PacketType.ofU8 (flags &&& 0b00011111)
  let isFragmented := flags &&& 0b01000000 != 0
  let isLastFragment := flags &&& 0b10000000 != 0
  if isFragmented || isLastFragment then do
    let (fragmentation, len) ←
      readFragmentation isFragmented isLastFragment
    return ({ packetType := packetType
              fragmentation := some fragmentation }, len)
  else return ({ packetType := packetType, fragmentation := none }, 0)

theorem tryAdvance_zero : tryAdvance 0 = pure () := by
  funext buf
  rfl

theorem skipConfirmArray_eq (messageId : UInt16) :
    skipConfirmArray messageId = confirmLength messageId >>= tryAdvance := by
  unfold skipConfirmArray confirmLength
  by_cases h : messageId &&& 0x8000 ≠ 0
  · rw [if_pos h, if_pos h, bind_assoc]
    simp only [pure_bind]
  · rw [if_neg h, if_neg h, pure_bind, tryAdvance_zero]

/-- The decoder is the head, and a jump over the confirm array. -/
theorem decode_eq : decode = do
    let (header, len) ← readHead
    tryAdvance len
    return header := by
  unfold decode readHead
  rw [bind_assoc]
  congr 1
  funext flags
  dsimp only
  split
  · simp only [decodeFragmentation, readFragmentation, bind_assoc,
      pure_bind, skipConfirmArray_eq]
  · rw [pure_bind]
    dsimp only
    rw [tryAdvance_zero, pure_bind]

theorem readHead_local : readHead.Local := by
  have hvarint : tryGetFactorioVarint16.Local :=
    tryGetU8_local.bind fun _ =>
      Get.Local.ite tryGetU16Le_local (Get.Local.pure _)
  have hfragmentId : ∀ isFragmented, (decodeFragmentId isFragmented).Local :=
    fun _ => Get.Local.ite (hvarint.bind fun _ => Get.Local.pure _)
      (Get.Local.pure _)
  have hconfirm : ∀ messageId, (confirmLength messageId).Local :=
    fun _ => Get.Local.ite
      (tryGetU32Le_local.bind fun _ => Get.Local.pure _) (Get.Local.pure _)
  have hfragmentation : ∀ isFragmented isLastFragment,
      (readFragmentation isFragmented isLastFragment).Local :=
    fun _ _ => tryGetU16Le_local.bind fun _ =>
      (hfragmentId _).bind fun _ => (hconfirm _).bind fun _ =>
        Get.Local.pure _
  exact tryGetU8_local.bind fun _ =>
    Get.Local.ite ((hfragmentation _ _).bind fun _ => Get.Local.pure _)
      (Get.Local.pure _)

/-- What the decoder accepts is a head, a confirm array of the length
the head says, and the message. -/
theorem decode_eq_ok {packet msgData : Bytes}
    {header : FactorioPacketHeader}
    (h : decode packet = .ok (header, msgData)) :
    ∃ head confirm, packet = head ++ (confirm ++ msgData)
      ∧ ∀ rest, readHead (head ++ rest)
        = .ok ((header, confirm.length), rest) := by
  rw [decode_eq] at h
  obtain ⟨⟨header', len⟩, rest, hhead, h⟩ := Get.bind_eq_ok h
  obtain ⟨_, msgData', hskip, h⟩ := Get.bind_eq_ok h
  obtain ⟨confirm, _, htake, hskip⟩ := Get.bind_eq_ok hskip
  cases h
  cases hskip
  obtain ⟨head, hpacket, hreads⟩ := readHead_local _ _ _ hhead
  obtain ⟨hlen, hrest⟩ := tryTake_eq_ok htake
  refine ⟨head, confirm, by rw [hpacket, hrest], ?_⟩
  rw [hlen]
  exact hreads

theorem decode_append {head confirm : Bytes} {header : FactorioPacketHeader}
    (hreads : ∀ rest, readHead (head ++ rest)
      = .ok ((header, confirm.length), rest)) (msgData : Bytes) :
    decode (head ++ (confirm ++ msgData)) = .ok (header, msgData) := by
  rw [decode_eq, Get.run_bind_ok (hreads _)]
  exact Get.run_bind_ok
    (Get.run_bind_ok (run_tryTake_append confirm msgData))

end FactorioPacketHeader

namespace ServerToClientHeartbeatPacket

/-- What a heartbeat holds in front of its first action's content. -/
structure Front where
  flags : UInt8
  sequenceNumber : UInt32
  actionCount : UInt32
  actionType : UInt8

/-- A heartbeat up to the content of its first action. -/
def readFront : Get Front := do
  let flags ← tryGetU8
  let sequenceNumber ← tryGetU32Le
  let actionCount ← tryGetFactorioVarint32
  let actionType ← tryGetU8
  return { flags, sequenceNumber, actionCount, actionType }

theorem readFront_local : readFront.Local := by
  have hvarint : tryGetFactorioVarint32.Local :=
    tryGetU8_local.bind fun _ =>
      Get.Local.ite tryGetU32Le_local (Get.Local.pure _)
  exact tryGetU8_local.bind fun _ => tryGetU32Le_local.bind fun _ =>
    hvarint.bind fun _ => tryGetU8_local.bind fun _ => Get.Local.pure _

/-- The front says that the map is ready. -/
def Front.MapReady (front : Front) : Prop :=
  front.flags = hasSynchronizerActions ∧ 0 < front.actionCount
    ∧ front.actionType = mapReadyForDownloadActionId

/-- The decoder reads the flags and jumps over the sequence number. -/
theorem decode_eq_ok_iff {msgData : Bytes}
    {heartbeat : ServerToClientHeartbeatPacket} :
    decode msgData = .ok heartbeat ↔
      ∃ sequenceNumber rest,
        tryGetU8 msgData = .ok (heartbeat.flags, rest)
        ∧ tryGetU32Le rest = .ok (sequenceNumber, heartbeat.data) := by
  constructor
  · intro h
    unfold decode at h
    cases hflags : tryGetU8 msgData with
    | error e =>
        rw [hflags] at h
        cases h
    | ok first =>
        obtain ⟨flags, rest⟩ := first
        rw [hflags] at h
        change (tryGetU32Le rest >>= fun p => Except.ok _) = _ at h
        cases hnumber : tryGetU32Le rest with
        | error e =>
            rw [hnumber] at h
            cases h
        | ok second =>
            rw [hnumber] at h
            cases h
            exact ⟨second.1, rest, rfl, hnumber⟩
  · intro h
    obtain ⟨sequenceNumber, rest, hflags, hnumber⟩ := h
    unfold decode
    rw [hflags]
    change (tryGetU32Le rest >>= fun p => Except.ok _) = _
    rw [hnumber]
    rfl

/-- A heartbeat that is map-ready has such a front, and the metadata
follows it. -/
theorem readFront_of_mapReady {msgData : Bytes}
    {heartbeat : ServerToClientHeartbeatPacket}
    {info : FactorioWorldMetadata} (hdecode : decode msgData = .ok heartbeat)
    (hready : heartbeat.tryDecodeMapReady = .ok (some info)) :
    ∃ front rest trailing, readFront msgData = .ok (front, rest)
      ∧ front.MapReady
      ∧ FactorioWorldMetadata.decode rest = .ok (info, trailing) := by
  obtain ⟨sequenceNumber, rest, hflags, hnumber⟩ :=
    decode_eq_ok_iff.mp hdecode
  unfold tryDecodeMapReady at hready
  by_cases hactions : heartbeat.flags = hasSynchronizerActions
  case neg =>
    rw [if_neg hactions] at hready
    cases hready
  rw [if_pos hactions] at hready
  cases hfirst : decodeFirstAction heartbeat.data with
  | error e =>
      rw [hfirst] at hready
      cases hready
  | ok action =>
      obtain ⟨action, trailing⟩ := action
      rw [hfirst] at hready
      cases hready
      obtain ⟨actionCount, actions, hcount, hfirst⟩ :=
        Get.bind_eq_ok hfirst
      by_cases hpos : 0 < actionCount
      case neg =>
        rw [if_neg hpos] at hfirst
        cases hfirst
      rw [if_pos hpos] at hfirst
      obtain ⟨actionType, content, htype, hfirst⟩ := Get.bind_eq_ok hfirst
      by_cases hmap : actionType = mapReadyForDownloadActionId
      case neg =>
        rw [if_neg hmap] at hfirst
        cases hfirst
      rw [if_pos hmap] at hfirst
      obtain ⟨info', trailing', hinfo, hfirst⟩ := Get.bind_eq_ok hfirst
      cases hfirst
      refine ⟨⟨heartbeat.flags, sequenceNumber, actionCount, actionType⟩,
        content, trailing, ?_, ⟨hactions, hpos, hmap⟩, hinfo⟩
      unfold readFront
      rw [Get.run_bind_ok hflags, Get.run_bind_ok hnumber,
        Get.run_bind_ok hcount, Get.run_bind_ok htype]
      rfl

/-- And a heartbeat with such a front and metadata is map-ready. -/
theorem mapReady_of_readFront {msgData rest trailing : Bytes}
    {front : Front} {info : FactorioWorldMetadata}
    (hfront : readFront msgData = .ok (front, rest))
    (hready : front.MapReady)
    (hinfo : FactorioWorldMetadata.decode rest = .ok (info, trailing)) :
    ∃ heartbeat, decode msgData = .ok heartbeat
      ∧ heartbeat.flags = front.flags
      ∧ tryGetU32Le (msgData.drop 1)
        = .ok (front.sequenceNumber, heartbeat.data)
      ∧ heartbeat.tryDecodeMapReady = .ok (some info) := by
  obtain ⟨flags, afterFlags, hflags, hfront⟩ := Get.bind_eq_ok hfront
  obtain ⟨sequenceNumber, data, hnumber, hfront⟩ := Get.bind_eq_ok hfront
  obtain ⟨actionCount, actions, hcount, hfront⟩ := Get.bind_eq_ok hfront
  obtain ⟨actionType, content, htype, hfront⟩ := Get.bind_eq_ok hfront
  cases hfront
  obtain ⟨hactions, hpos, hmap⟩ := hready
  have hdrop : msgData.drop 1 = afterFlags := by
    cases msgData with
    | nil => cases hflags
    | cons b msgData =>
        cases hflags
        rfl
  refine ⟨⟨flags, data⟩, decode_eq_ok_iff.mpr ⟨_, _, hflags, hnumber⟩,
    rfl, by rw [hdrop]; exact hnumber, ?_⟩
  have hfirst : decodeFirstAction data = .ok (some info, trailing) := by
    unfold decodeFirstAction
    rw [Get.run_bind_ok hcount, if_pos hpos, Get.run_bind_ok htype,
      if_pos hmap, Get.run_bind_ok hinfo]
    rfl
  unfold tryDecodeMapReady
  rw [if_pos hactions]
  show (decodeFirstAction data).map Prod.fst = _
  rw [hfirst]
  rfl

end ServerToClientHeartbeatPacket

namespace FactorioWorldMetadata

/-- The world size comes first. -/
theorem encode_eq (info : FactorioWorldMetadata) :
    info.encode = putU32Le info.worldSize
      ++ List.flatten [putU32Le info.noIdea1, putU32Le info.auxSize,
        putU32Le info.noIdea2, putU32Le info.worldCrc] := rfl

theorem decode_encode_append (info : FactorioWorldMetadata)
    (rest : Bytes) : decode (info.encode ++ rest) = .ok (info, rest) := by
  simp only [encode, List.flatten_cons, List.flatten_nil, List.append_nil,
    List.append_assoc, decode, get_u32Le_append]
  rfl

/-- The metadata stands in front of what its decoder leaves. -/
theorem decode_eq_ok {buf rest : Bytes} {info : FactorioWorldMetadata}
    (h : decode buf = .ok (info, rest)) : buf = info.encode ++ rest := by
  obtain ⟨worldSize, buf₁, h₁, h⟩ := Get.bind_eq_ok h
  obtain ⟨noIdea1, buf₂, h₂, h⟩ := Get.bind_eq_ok h
  obtain ⟨auxSize, buf₃, h₃, h⟩ := Get.bind_eq_ok h
  obtain ⟨noIdea2, buf₄, h₄, h⟩ := Get.bind_eq_ok h
  obtain ⟨worldCrc, buf₅, h₅, h⟩ := Get.bind_eq_ok h
  cases h
  rw [tryGetU32Le_eq_ok h₁, tryGetU32Le_eq_ok h₂, tryGetU32Le_eq_ok h₃,
    tryGetU32Le_eq_ok h₄, tryGetU32Le_eq_ok h₅]
  simp only [encode, List.flatten_cons, List.flatten_nil, List.append_nil,
    List.append_assoc]

end FactorioWorldMetadata

-- ============================================================== the layout

open ServerProxyState

/-- Everything of an announcement but the metadata, cut into the parts
the decoders read. -/
structure Announcement where
  head : Bytes
  confirm : Bytes
  front : Bytes
  trailing : Bytes
  header : FactorioPacketHeader
  fields : ServerToClientHeartbeatPacket.Front
  readsHead : ∀ rest, FactorioPacketHeader.readHead (head ++ rest)
    = .ok ((header, confirm.length), rest)
  readsFront : ∀ rest, ServerToClientHeartbeatPacket.readFront
    (front ++ rest) = .ok (fields, rest)
  /-- a heartbeat, not fragmented or the first fragment -/
  isHeartbeat : header.packetType = .serverToClientHeartbeat
    ∧ (header.fragmentation.all fun frag => frag.fragmentId == some 0)
  isMapReady : fields.MapReady

/-- What the client reads in an announcement. -/
structure Reading where
  header : FactorioPacketHeader
  flags : UInt8
  sequenceNumber : UInt32
  info : FactorioWorldMetadata
  deriving DecidableEq

/-- The decoders one after the other; the sequence number is what the
heartbeat's decoder jumps over. -/
def readAnnouncement (packet : Bytes) :
    Except TryGetError (Option Reading) := do
  let (header, msgData) ← FactorioPacketHeader.decode packet
  let heartbeat ← ServerToClientHeartbeatPacket.decode msgData
  let (sequenceNumber, _) ← tryGetU32Le (msgData.drop 1)
  let info ← heartbeat.tryDecodeMapReady
  return info.map fun info =>
    { header, flags := heartbeat.flags, sequenceNumber, info }

namespace Announcement

/-- The packet that announces `info`. -/
def bytes (a : Announcement) (info : FactorioWorldMetadata) : Bytes :=
  a.head ++ (a.confirm ++ (a.front ++ (info.encode ++ a.trailing)))

/-- The same announcement with other bytes where the decoders do not
look. -/
def withUnread (a : Announcement) (confirm trailing : Bytes)
    (hlen : confirm.length = a.confirm.length) : Announcement :=
  { a with
    confirm := confirm
    trailing := trailing
    readsHead := by
      rw [hlen]
      exact a.readsHead }

theorem decode_bytes (a : Announcement) (info : FactorioWorldMetadata) :
    FactorioPacketHeader.decode (a.bytes info)
      = .ok (a.header, a.front ++ (info.encode ++ a.trailing)) :=
  FactorioPacketHeader.decode_append a.readsHead _

theorem heartbeat_bytes (a : Announcement) (info : FactorioWorldMetadata) :
    ∃ heartbeat,
      ServerToClientHeartbeatPacket.decode
          (a.front ++ (info.encode ++ a.trailing)) = .ok heartbeat
      ∧ heartbeat.flags = a.fields.flags
      ∧ tryGetU32Le
          ((a.front ++ (info.encode ++ a.trailing)).drop 1)
        = .ok (a.fields.sequenceNumber, heartbeat.data)
      ∧ heartbeat.tryDecodeMapReady = .ok (some info) :=
  ServerToClientHeartbeatPacket.mapReady_of_readFront (a.readsFront _)
    a.isMapReady (info.decode_encode_append a.trailing)

/-- The proxy recognises it. -/
theorem announcedWorld_bytes (a : Announcement)
    (info : FactorioWorldMetadata) :
    announcedWorld (a.bytes info) = some info := by
  obtain ⟨heartbeat, hdecode, -, -, hready⟩ := a.heartbeat_bytes info
  unfold announcedWorld
  rw [a.decode_bytes]
  dsimp only
  rw [if_pos a.isHeartbeat, hdecode]
  dsimp only
  rw [hready]

/-- The client reads in it what it was made of. -/
theorem readAnnouncement_bytes (a : Announcement)
    (info : FactorioWorldMetadata) :
    readAnnouncement (a.bytes info)
      = .ok (some ⟨a.header, a.fields.flags, a.fields.sequenceNumber,
          info⟩) := by
  obtain ⟨heartbeat, hdecode, hflags, hnumber, hready⟩ :=
    a.heartbeat_bytes info
  unfold readAnnouncement
  rw [a.decode_bytes]
  show (ServerToClientHeartbeatPacket.decode _ >>= _) = _
  rw [hdecode]
  show (tryGetU32Le _ >>= _) = _
  rw [hnumber]
  show (heartbeat.tryDecodeMapReady >>= _) = _
  rw [hready, ← hflags]
  rfl

end Announcement

/-- Every packet the proxy recognises is of this form. -/
theorem exists_announcement {packet : Bytes}
    {info : FactorioWorldMetadata}
    (h : announcedWorld packet = some info) :
    ∃ a : Announcement, packet = a.bytes info := by
  unfold announcedWorld at h
  cases hheader : FactorioPacketHeader.decode packet with
  | error e =>
      rw [hheader] at h
      cases h
  | ok decoded =>
      obtain ⟨header, msgData⟩ := decoded
      rw [hheader] at h
      dsimp only at h
      by_cases hheartbeat : header.packetType = .serverToClientHeartbeat
          ∧ (header.fragmentation.all fun frag =>
            frag.fragmentId == some 0)
      case neg =>
        rw [if_neg hheartbeat] at h
        cases h
      rw [if_pos hheartbeat] at h
      cases hdecode : ServerToClientHeartbeatPacket.decode msgData with
      | error e =>
          rw [hdecode] at h
          cases h
      | ok heartbeat =>
          rw [hdecode] at h
          have hready : heartbeat.tryDecodeMapReady
              = .ok (some info) := by
            dsimp only at h
            split at h
            · next info' hinfo =>
                cases h
                exact hinfo
            · cases h
          obtain ⟨head, confirm, hpacket, hreadsHead⟩ :=
            FactorioPacketHeader.decode_eq_ok hheader
          obtain ⟨fields, rest, trailing, hfront, hfields, hinfo⟩ :=
            ServerToClientHeartbeatPacket.readFront_of_mapReady hdecode
              hready
          obtain ⟨front, hmsg, hreadsFront⟩ :=
            ServerToClientHeartbeatPacket.readFront_local _ _ _ hfront
          refine ⟨⟨head, confirm, front, trailing, header, fields,
            hreadsHead, hreadsFront, hheartbeat, hfields⟩, ?_⟩
          rw [Announcement.bytes, hpacket, hmsg,
            FactorioWorldMetadata.decode_eq_ok hinfo]

-- ================================================================ positions

/-- Where the content of the confirm array starts. -/
def confirmStart (packet : Bytes) : Nat :=
  FactorioPacketHeader.readHead.stopsAt packet

/-- Where the message starts, behind the header. -/
def messageStart (packet : Bytes) : Nat :=
  FactorioPacketHeader.decode.stopsAt packet

/-- Where the decoder reads the metadata. -/
def metadataStart (packet : Bytes) : Nat :=
  Get.stopsAt (do
    let _ ← FactorioPacketHeader.decode
    ServerToClientHeartbeatPacket.readFront) packet

/-- A match in front of the metadata that changes nothing the decoders
look at: the four bytes of the world size are in the confirm array, and
the metadata itself can still be found. -/
def HarmlessMatch (packet : Bytes) (q : Nat) : Prop :=
  confirmStart packet ≤ q ∧ q + 4 ≤ messageStart packet
    ∧ q + 20 ≤ metadataStart packet

/-- The search finds nothing else in front of the metadata. -/
def SearchClear (packet : Bytes) (info : FactorioWorldMetadata) : Prop :=
  ∀ q ∈ findIter info.encode 0 0 packet, q < metadataStart packet →
    HarmlessMatch packet q

/-- Where the decoder read the world size, another one. -/
def rewriteWorldSize (packet : Bytes) (newSize : UInt32) : Bytes :=
  overwrite packet (putU32Le newSize) (metadataStart packet)

/-- `out` announces `newInfo` where `packet` announces `info`; otherwise
the decoders cannot tell them apart. -/
structure Announces (packet out : Bytes)
    (info newInfo : FactorioWorldMetadata) : Prop where
  length : out.length = packet.length
  announced : announcedWorld out = some newInfo
  reading : ∃ reading, readAnnouncement packet = .ok (some reading)
    ∧ reading.info = info
    ∧ readAnnouncement out = .ok (some { reading with info := newInfo })

namespace Announcement

variable (a : Announcement) (info : FactorioWorldMetadata)

/-- The position of the metadata. -/
def metadataAt : Nat := a.head.length + a.confirm.length + a.front.length

theorem confirmStart_bytes : confirmStart (a.bytes info) = a.head.length :=
  Get.stopsAt_eq (a.readsHead _)

theorem messageStart_bytes :
    messageStart (a.bytes info) = a.head.length + a.confirm.length := by
  have hdecode := a.decode_bytes info
  rw [bytes, ← List.append_assoc] at hdecode
  rw [messageStart, bytes, ← List.append_assoc, Get.stopsAt_eq hdecode,
    List.length_append]

theorem metadataStart_bytes :
    metadataStart (a.bytes info) = a.metadataAt := by
  have hread : (FactorioPacketHeader.decode >>= fun _ =>
      ServerToClientHeartbeatPacket.readFront) (a.bytes info)
      = .ok (a.fields, info.encode ++ a.trailing) := by
    rw [Get.run_bind_ok (a.decode_bytes info)]
    exact a.readsFront _
  rw [bytes, ← List.append_assoc, ← List.append_assoc] at hread
  rw [metadataStart, bytes, ← List.append_assoc, ← List.append_assoc,
    Get.stopsAt_eq hread, List.length_append, List.length_append,
    metadataAt]

theorem bytes_eq : a.bytes info
    = (a.head ++ a.confirm ++ a.front) ++ (info.encode ++ a.trailing) := by
  simp only [bytes, List.append_assoc]

theorem metadataAt_eq :
    a.metadataAt = (a.head ++ a.confirm ++ a.front).length := by
  simp only [metadataAt, List.length_append]

theorem encode_isPrefix_drop :
    info.encode <+: (a.bytes info).drop a.metadataAt := by
  rw [bytes_eq, metadataAt_eq, List.drop_left]
  exact List.prefix_append ..

/-- Rewriting the metadata where the decoder read it. -/
theorem overwrite_bytes (info' : FactorioWorldMetadata) :
    overwrite (a.bytes info) info'.encode a.metadataAt
      = a.bytes info' := by
  rw [bytes_eq, bytes_eq, metadataAt_eq]
  exact overwrite_append (by simp)

/-- Other bytes where the decoders do not look change nothing they
read. -/
theorem announces_withUnread {out confirm trailing : Bytes}
    {newInfo : FactorioWorldMetadata}
    (hlen : confirm.length = a.confirm.length)
    (hout : out = (a.withUnread confirm trailing hlen).bytes newInfo)
    (hlength : out.length = (a.bytes info).length) :
    Announces (a.bytes info) out info newInfo where
  length := hlength
  announced := by
    rw [hout]
    exact announcedWorld_bytes ..
  reading := by
    refine ⟨_, a.readAnnouncement_bytes info, rfl, ?_⟩
    rw [hout]
    exact readAnnouncement_bytes ..

/-- Rewriting the field alone. -/
theorem rewriteWorldSize_bytes (newSize : UInt32) :
    rewriteWorldSize (a.bytes info) newSize
      = a.bytes { info with worldSize := newSize } := by
  rw [rewriteWorldSize, metadataStart_bytes, bytes_eq, bytes_eq,
    metadataAt_eq, info.encode_eq, FactorioWorldMetadata.encode_eq,
    List.append_assoc (putU32Le _), List.append_assoc (putU32Le _)]
  exact overwrite_append
    ((length_putU32Le newSize).trans (length_putU32Le _).symm)

end Announcement

-- =============================================================== rewriting

/-- Behind the world size the metadata is as before. -/
theorem FactorioWorldMetadata.getElem?_encode_of_le
    (info : FactorioWorldMetadata) (newSize : UInt32) {i : Nat}
    (h : 4 ≤ i) :
    ({ info with worldSize := newSize } : FactorioWorldMetadata).encode[i]?
      = info.encode[i]? := by
  have hboth : ∀ size : UInt32,
      ({ info with worldSize := size } : FactorioWorldMetadata).encode[i]?
        = (List.flatten [putU32Le info.noIdea1, putU32Le info.auxSize,
            putU32Le info.noIdea2, putU32Le info.worldCrc])[i - 4]? := by
    intro size
    have hsize := length_putU32Le size
    rw [encode_eq, List.getElem?_append_right (by rwa [hsize]), hsize]
  exact (hboth newSize).trans (hboth info.worldSize).symm

/-- Another world size is written otherwise. -/
theorem FactorioWorldMetadata.encode_worldSize_eq_iff
    (info : FactorioWorldMetadata) (newSize : UInt32) :
    ({ info with worldSize := newSize } : FactorioWorldMetadata).encode
        = info.encode
      ↔ newSize = info.worldSize := by
  constructor
  · intro h
    have hread := info.decode_encode_append []
    rw [← h, decode_encode_append] at hread
    have hinfo := (Prod.mk.inj (Except.ok.inj hread)).1
    exact congrArg worldSize hinfo
  · intro h
    rw [h]

theorem FactorioWorldMetadata.encode_ne_nil
    (info : FactorioWorldMetadata) : info.encode ≠ [] := by
  intro h
  have hlen := info.length_encode
  rw [h] at hlen
  cases hlen

namespace Announcement

variable {a : Announcement} {info : FactorioWorldMetadata}
  {newSize : UInt32}

/-- The search finds the metadata where the decoder read it. -/
theorem metadataAt_mem (hclear : SearchClear (a.bytes info) info) :
    a.metadataAt ∈ findIter info.encode 0 0 (a.bytes info) := by
  refine mem_findIter info.encode_ne_nil (Nat.zero_le _)
    (a.encode_isPrefix_drop info) ?_
  intro q hq hlt
  obtain ⟨-, -, hfree⟩ := hclear q hq (by rwa [metadataStart_bytes])
  rw [metadataStart_bytes] at hfree
  rwa [info.length_encode]

/-- In front of the metadata the replacement only touches the confirm
array. -/
theorem getElem?_replaceAll_of_read
    (hclear : SearchClear (a.bytes info) info) {i : Nat}
    (hi : i < a.metadataAt)
    (hread : i < a.head.length
      ∨ a.head.length + a.confirm.length ≤ i) :
    (replaceAll info.encode
        ({ info with worldSize := newSize } : FactorioWorldMetadata).encode
        (a.bytes info))[i]?
      = (a.bytes info)[i]? := by
  refine getElem?_replaceAll_of_agree (by simp) info.encode_ne_nil ?_
  intro q hq hle _
  obtain ⟨hconfirm, hmessage, -⟩ := hclear q hq
    (by rw [metadataStart_bytes]; omega)
  rw [confirmStart_bytes] at hconfirm
  rw [messageStart_bytes] at hmessage
  exact info.getElem?_encode_of_le newSize (by omega)

/-- The rewritten announcement is the announcement of the new metadata,
up to bytes the decoders do not look at. -/
theorem replaceAll_bytes (h : newSize = info.worldSize
      ∨ SearchClear (a.bytes info) info) :
    ∃ confirm trailing hlen,
      replaceAll info.encode
          ({ info with worldSize := newSize } : FactorioWorldMetadata).encode
          (a.bytes info)
        = (a.withUnread confirm trailing hlen).bytes
          { info with worldSize := newSize } := by
  rcases h with rfl | hclear
  · -- the metadata is replaced by itself
    refine ⟨a.confirm, a.trailing, rfl, List.ext_getElem? fun i => ?_⟩
    exact getElem?_replaceAll_of_agree rfl info.encode_ne_nil
      fun _ _ _ _ => rfl
  · let out := replaceAll info.encode
      ({ info with worldSize := newSize } : FactorioWorldMetadata).encode
      (a.bytes info)
    have hout : out.length = (a.bytes info).length :=
      length_replaceAll (by simp) info.encode_ne_nil
    have hconfirm : ((out.drop a.head.length).take
        a.confirm.length).length = a.confirm.length := by
      rw [List.length_take, List.length_drop, hout, bytes,
        List.length_append, List.length_append]
      omega
    refine ⟨(out.drop a.head.length).take a.confirm.length,
      out.drop (a.metadataAt + 20), hconfirm, ?_⟩
    -- the four cuts, each where the part in front of it ends
    have hhead : out.drop 0 = a.head ++ out.drop (0 + a.head.length) := by
      apply drop_eq_append
      intro j hj
      rw [Nat.zero_add]
      refine (getElem?_replaceAll_of_read hclear
        (by unfold metadataAt; omega) (Or.inl hj)).trans ?_
      rw [bytes, List.getElem?_append_left hj]
    have hfront : out.drop (a.head.length + a.confirm.length)
        = a.front ++ out.drop a.metadataAt := by
      apply drop_eq_append
      intro j hj
      refine (getElem?_replaceAll_of_read hclear
        (by unfold metadataAt; omega) (Or.inr (by omega))).trans ?_
      rw [bytes, List.getElem?_append_right (by omega),
        List.getElem?_append_right (by omega),
        List.getElem?_append_left (by omega)]
      congr 1
      omega
    have hinfo : out.drop a.metadataAt
        = ({ info with worldSize := newSize } :
            FactorioWorldMetadata).encode
          ++ out.drop (a.metadataAt + 20) := by
      apply drop_eq_append
      intro j hj
      rw [FactorioWorldMetadata.length_encode] at hj
      refine (getElem?_replaceAll_of_match (by simp) info.encode_ne_nil
        (metadataAt_mem hclear) (Nat.le_add_right ..)
        (by rw [info.length_encode]; omega)).trans ?_
      rw [Nat.add_sub_cancel_left]
    rw [List.drop_zero, Nat.zero_add] at hhead
    show out = a.head ++ ((out.drop a.head.length).take a.confirm.length
      ++ (a.front ++ (_ ++ out.drop (a.metadataAt + 20))))
    rw [← hinfo, ← hfront, ← List.drop_drop, List.take_append_drop,
      ← hhead]

/-- So the client reads the announcement of the new metadata. -/
theorem announces_of_clear (h : newSize = info.worldSize
      ∨ SearchClear (a.bytes info) info) :
    Announces (a.bytes info)
      (replaceAll info.encode
        ({ info with worldSize := newSize } : FactorioWorldMetadata).encode
        (a.bytes info))
      info { info with worldSize := newSize } := by
  obtain ⟨confirm, trailing, hlen, hout⟩ := replaceAll_bytes h
  exact a.announces_withUnread info hlen hout
    (length_replaceAll (by simp) info.encode_ne_nil)

/-- And it is the packet with the field rewritten where the decoder read
it, just when the search reports that place alone. -/
theorem replaceAll_eq_rewriteWorldSize_iff :
    replaceAll info.encode
        ({ info with worldSize := newSize } : FactorioWorldMetadata).encode
        (a.bytes info)
      = rewriteWorldSize (a.bytes info) newSize
    ↔ newSize = info.worldSize
      ∨ findIter info.encode 0 0 (a.bytes info)
        = [metadataStart (a.bytes info)] := by
  rw [rewriteWorldSize_bytes,
    ← a.overwrite_bytes info { info with worldSize := newSize },
    metadataStart_bytes, replaceAll_eq_overwrite_iff (by simp)
      info.encode_ne_nil (a.encode_isPrefix_drop info),
    info.encode_worldSize_eq_iff]

/-- In that case nothing else is different for the client. -/
theorem announces_iff :
    (Announces (a.bytes info)
        (replaceAll info.encode
          ({ info with worldSize := newSize } :
            FactorioWorldMetadata).encode (a.bytes info))
        info { info with worldSize := newSize }
      ∧ replaceAll info.encode
          ({ info with worldSize := newSize } :
            FactorioWorldMetadata).encode (a.bytes info)
        = rewriteWorldSize (a.bytes info) newSize)
    ↔ newSize = info.worldSize
      ∨ findIter info.encode 0 0 (a.bytes info)
        = [metadataStart (a.bytes info)] := by
  rw [← replaceAll_eq_rewriteWorldSize_iff]
  constructor
  · exact And.right
  · intro hsame
    have hout := hsame.trans (a.rewriteWorldSize_bytes info newSize)
    exact ⟨@announces_withUnread a info _ a.confirm a.trailing _ rfl hout
      (length_replaceAll (by simp) info.encode_ne_nil), hsame⟩

end Announcement

/-- An announcement that arrives goes to the client rewritten, and
everything else that is pushed is a request to the server. -/
theorem onPacketFromServer_announced {s : ServerProxyState} {d : Delivery}
    {info : FactorioWorldMetadata} (hphase : s.phase = .waitingForWorld)
    (hworld : announcedWorld d.packet = some info) :
    ∃ s' ids, s.onPacketFromServer d
      = some (s', .push (replaceAll info.encode (s.newWorldInfo info).encode
          d.packet) .toClient :: (ids : List UInt32).map requestEvent) := by
  obtain ⟨ids, hids⟩ := requestNextBlocks_requests
    (startDownload info (s.newWorldInfo info) d.instants.setBlock)
  have hout := transitionToDownloadingWorld_snd s d.packet info d.instants
  rw [hids] at hout
  refine ⟨(s.transitionToDownloadingWorld d.packet info d.instants).1,
    ids, ?_⟩
  rw [onPacketFromServer_announcement hphase hworld]
  exact congrArg (fun out => some (_, out)) hout

/-- The packet that arrives at the client should be the server's with
the estimate in the field the decoder read. It is, just when the
estimate is the world size or the search reports the metadata at the
decoder's place and nowhere else. What a decoder reads is as it should
be in more packets: it is enough that in front of the metadata the
search reports nothing but what is in the confirm array. -/
theorem announcement_rewrite {s : ServerProxyState} {d : Delivery}
    {info : FactorioWorldMetadata} (hphase : s.phase = .waitingForWorld)
    (hworld : announcedWorld d.packet = some info) :
    ∃ s' out ids,
      s.onPacketFromServer d
        = some (s', .push out .toClient
          :: (ids : List UInt32).map requestEvent)
      ∧ ((Announces d.packet out info (s.newWorldInfo info)
            ∧ out = rewriteWorldSize d.packet
              (s.worldEstimate info.worldSize))
          ↔ s.worldEstimate info.worldSize = info.worldSize
            ∨ findIter info.encode 0 0 d.packet
              = [metadataStart d.packet])
      ∧ (s.worldEstimate info.worldSize = info.worldSize
            ∨ SearchClear d.packet info →
          Announces d.packet out info (s.newWorldInfo info)) := by
  obtain ⟨s', ids, hstep⟩ := onPacketFromServer_announced hphase hworld
  obtain ⟨a, hpacket⟩ := exists_announcement hworld
  refine ⟨s', _, ids, hstep, ?_, ?_⟩
  · rw [hpacket]
    exact Announcement.announces_iff
  · intro hclear
    rw [hpacket] at hclear ⊢
    exact Announcement.announces_of_clear hclear

/-- The estimate with the default multiplier 1.6. The cast from a
floating point number saturates. -/
def defaultEstimate (worldSize : UInt32) : UInt32 :=
  UInt32.ofNat (min (worldSize.toNat * 8 / 5) 0xFFFFFFFF)

/-- A world of five bytes. -/
def fiveByteWorldInfo : FactorioWorldMetadata := ⟨5, 0, 0, 0, 0⟩

/-- An announcement that is not fragmented. -/
def plainAnnouncement : Delivery :=
  ⟨[0x07, 0x10, 3, 0, 0, 0, 2, 5] ++ fiveByteWorldInfo.encode ++ [9],
    atRest⟩

/-- A first fragment whose confirm array holds the metadata it
announces. -/
def confirmedAnnouncement : Delivery :=
  ⟨[0x47, 1, 0x80, 0, 20, 0, 0, 0] ++ fiveByteWorldInfo.encode
    ++ [0x10, 3, 0, 0, 0, 2, 5] ++ fiveByteWorldInfo.encode ++ [9], atRest⟩

theorem announcement_rewrite_confirmed :
    (∃ s' ids,
      (ServerProxyState.new defaultEstimate).onPacketFromServer
          plainAnnouncement
        = some (s', .push (rewriteWorldSize plainAnnouncement.packet 8)
            .toClient :: (ids : List UInt32).map requestEvent))
    ∧ ∃ s' out ids,
      (ServerProxyState.new defaultEstimate).onPacketFromServer
          confirmedAnnouncement
        = some (s', .push out .toClient
          :: (ids : List UInt32).map requestEvent)
      ∧ out.length = 56
      ∧ announcedWorld out = some ⟨8, 0, 0, 0, 0⟩
      ∧ out ≠ rewriteWorldSize confirmedAnnouncement.packet 8 := by
  constructor
  · obtain ⟨s', out, ids, hstep, hplace, -⟩ := @announcement_rewrite
      (ServerProxyState.new defaultEstimate) plainAnnouncement
      fiveByteWorldInfo rfl (by decide)
    obtain ⟨-, hout⟩ := hplace.mpr (Or.inr (by decide))
    rw [hout] at hstep
    exact ⟨s', ids, hstep⟩
  · have hclear : SearchClear confirmedAnnouncement.packet
        fiveByteWorldInfo := by
      unfold SearchClear HarmlessMatch
      decide
    obtain ⟨s', out, ids, hstep, hplace, hread⟩ := @announcement_rewrite
      (ServerProxyState.new defaultEstimate) confirmedAnnouncement
      fiveByteWorldInfo rfl (by decide)
    have hannounces := hread (Or.inr hclear)
    refine ⟨s', out, ids, hstep, hannounces.length, hannounces.announced,
      ?_⟩
    intro hout
    rcases hplace.mp ⟨hannounces, hout⟩ with hsame | hone
    · exact absurd hsame (by decide)
    · exact absurd hone (by decide)

/-- Without the condition: the bytes of the metadata are those of the
action type in front of it, so the search finds them one byte early. The
action type is replaced with the rest, and what reaches the client
announces nothing. -/
theorem announcement_rewrite_breaks :
    ∃ (d : Delivery) (info : FactorioWorldMetadata) (s' : ServerProxyState)
        (out : Bytes) (ids : List UInt32),
      announcedWorld d.packet = some info
      ∧ (ServerProxyState.new defaultEstimate).onPacketFromServer d
        = some (s', .push out .toClient :: ids.map requestEvent)
      ∧ findIter info.encode 0 0 d.packet = [7]
      ∧ metadataStart d.packet = 8
      ∧ announcedWorld out = none := by
  let info : FactorioWorldMetadata :=
    ⟨0x05050505, 0x05050505, 0x05050505, 0x05050505, 0x05050505⟩
  let d : Delivery :=
    ⟨[7, 0x10, 0, 0, 0, 0, 1, 5] ++ info.encode, atRest⟩
  have hworld : announcedWorld d.packet = some info := by decide
  obtain ⟨s', ids, hstep⟩ := onPacketFromServer_announced
    (s := ServerProxyState.new defaultEstimate) rfl hworld
  exact ⟨d, info, s', _, ids, hworld, hstep, by decide, by decide,
    by decide⟩

end FactoryCacher
