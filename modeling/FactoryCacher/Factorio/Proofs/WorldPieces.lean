/-
What `transfer_world_data` sends on the client: the pieces of the world,
in order, and nothing else.

# One argument, two logics

`worldPieces` is what there is to send, from the files' data: the entry
of each file and the end of the archive. The program reads a file, adds
it to the archive and sends its entry; so if reading gives the data and
sending appends, at the end everything was sent (`Relays.world`). What
reading and sending mean is a matter of the logic (`Relays`). Here it is
one in which a program may fail but keeps an invariant until it does, so
the result is about safety: nothing but the front of `worldPieces` is
ever sent, whatever the server answers. Factorio/Proofs/WorldArrival.lean
uses a logic of programs that return, and the same argument says that
everything arrives.
-/
import FactoryCacher.Common.Proofs.SuppliedReads
import FactoryCacher.Common.Proofs.TalkDelivery
import FactoryCacher.Factorio.WorldTransfer
import FactoryCacher.Factorio.Proofs.WorldFidelity

namespace FactoryCacher

open ClientProxy
open Nebula (Channel)

-- ================================================================ the pieces

section Pieces

variable {crc : CrcCrate} (miniz : MinizOxide)
  (worldReady : WorldReadyMessage)

/-- The end of the archive, if there is one. -/
def lastPiece (r : WorldReconstructor crc) : Except FinalizeError Bytes :=
  r.finalizeWorld worldReady.world worldReady.newInfo.worldSize.toNat
    worldReady.newInfo.worldCrc

/-- What there is to send of files whose data is known. -/
def worldPieces (r : WorldReconstructor crc) :
    List (FactorioFileDescription × Bytes) → List Bytes
  | [] => (lastPiece worldReady r).toOption.toList
  | file :: files =>
      match r.addFile miniz file.1 file.2 with
      | none => []
      | some (r, entry) => entry :: worldPieces r files

variable {miniz}

theorem worldPieces_eq {r r' : WorldReconstructor crc}
    {files : List (FactorioFileDescription × Bytes)} {entries : List Bytes}
    (h : addFiles miniz r files = some (r', entries)) :
    worldPieces miniz worldReady r files
      = entries ++ (lastPiece worldReady r').toOption.toList := by
  induction files generalizing r entries with
  | nil =>
      cases h
      rfl
  | cons file files ih =>
      rw [addFiles] at h
      rw [worldPieces]
      cases hadd : r.addFile miniz file.1 file.2 with
      | none =>
          rw [hadd] at h
          cases h
      | some added =>
          obtain ⟨r₁, entry⟩ := added
          rw [hadd] at h
          dsimp only at h ⊢
          split at h
          case h_1 => cases h
          case h_2 r₂ rest hrest =>
            cases h
            rw [ih hrest, List.cons_append]

end Pieces

-- ============================================================== the argument

/-- What it takes to relay pieces: reading leaves what was sent alone,
and sending appends, at least as far as `expected` goes. -/
structure Relays {σ τ₀ τ : Type}
    (L₀ : Logic Fault τ₀ (ExceptT Fault (StateM σ)))
    (L : Logic TransferFault τ (TransferM σ)) (idle : τ₀ → Prop)
    (J : List Bytes → τ → Prop) (expected : List Bytes)
    (err₀ : Fault → Prop) (err : TransferFault → Prop) : Prop where
  read : ∀ {α : Type} {x : ExceptT Fault (StateM σ) α} {P : α → Prop},
    L₀.Meets idle x (fun a t => P a ∧ idle t) err₀ → ∀ sent,
    L.Meets (J sent) (readChunks x) (fun a t => P a ∧ J sent t) err
  send : ∀ sent piece, sent ++ [piece] <+: expected →
    L.Meets (J sent) (sendPiece piece) (fun _ => J (sent ++ [piece])) err

section Relay

variable {σ τ₀ τ : Type} {L₀ : Logic Fault τ₀ (ExceptT Fault (StateM σ))}
  {L : Logic TransferFault τ (TransferM σ)} {idle : τ₀ → Prop}
  {J : List Bytes → τ → Prop} {expected : List Bytes}
  {err₀ : Fault → Prop} {err : TransferFault → Prop}
  {crc : CrcCrate} {miniz : MinizOxide}
  {provider : ChunkProvider (ExceptT Fault (StateM σ))} {fuel : Nat}
  {worldReady : WorldReadyMessage}
  {files : List (FactorioFileDescription × Bytes)}

/-- The loop over the files. -/
theorem Relays.loop (h : Relays L₀ L idle J expected err₀ err)
    (hreads : ∀ file ∈ files, L₀.Meets idle
      (collectData provider fuel file.1.chunkList)
      (fun buf t => buf = file.2 ∧ idle t) err₀)
    (hpanics : ∀ file ∈ files, ∀ r : WorldReconstructor crc,
      r.addFile miniz file.1 file.2 = none → err .encodeFile)
    (r : WorldReconstructor crc) (sent : List Bytes)
    (hexpected : sent ++ worldPieces miniz worldReady r files
      <+: expected) :
    L.Meets (J sent)
      (sendFiles miniz provider fuel r (files.map Prod.fst))
      (fun r' t => ∃ entries, addFiles miniz r files = some (r', entries)
        ∧ J (sent ++ entries) t) err := by
  induction files generalizing r sent with
  | nil =>
      apply L.pure
      intro t ht
      refine ⟨[], rfl, ?_⟩
      rwa [List.append_nil]
  | cons file files ih =>
      obtain ⟨hread, hrest⟩ := List.forall_mem_cons.mp hreads
      obtain ⟨hpanic, hpanics⟩ := List.forall_mem_cons.mp hpanics
      have hfile : L₀.Meets idle
          (r.reconstructWorldFile miniz provider fuel file.1)
          (fun added t => added = r.addFile miniz file.1 file.2 ∧ idle t)
          err₀ := by
        apply L₀.bind hread
        intro buf
        refine L₀.assume fun hbuf => ?_
        subst hbuf
        exact L₀.pure fun t ht => ⟨rfl, ht⟩
      apply L.bind (h.read hfile sent)
      intro added
      refine L.assume fun hadded => ?_
      rw [worldPieces] at hexpected
      cases added with
      | none => exact L.throw (hpanic r hadded.symm)
      | some added =>
          obtain ⟨r₁, entry⟩ := added
          rw [← hadded] at hexpected
          dsimp only at hexpected ⊢
          -- the entry is the next piece
          have hnext : sent ++ [entry]
              ++ worldPieces miniz worldReady r₁ files <+: expected := by
            rwa [List.append_assoc]
          apply L.bind (h.send sent entry
            ((List.prefix_append _ _).trans hnext))
          intro _
          refine L.mono (fun _ ht => ht) ?_
            (ih hrest hpanics r₁ (sent ++ [entry]) hnext)
          intro r' t ht
          obtain ⟨entries, hadds, hJ⟩ := ht
          refine ⟨entry :: entries, ?_, ?_⟩
          · rw [addFiles, ← hadded]
            dsimp only
            rw [hadds]
          · rwa [List.append_assoc] at hJ

/-- The whole world. -/
theorem Relays.world (h : Relays L₀ L idle J expected err₀ err)
    (hfiles : worldReady.world.files = files.map Prod.fst)
    (hexpected : worldPieces miniz worldReady
      (.new : WorldReconstructor crc) files = expected)
    (hmetadata : L₀.Meets idle (prefetchMetadataChunks provider fuel
        (worldReady.world.files.map FactorioFileDescription.chunkList))
      (fun _ => idle) err₀)
    (hreads : ∀ file ∈ files, L₀.Meets idle
      (collectData provider fuel file.1.chunkList)
      (fun buf t => buf = file.2 ∧ idle t) err₀)
    {markDirty : ExceptT Fault (StateM σ) Unit}
    (hmark : L₀.Meets idle markDirty (fun _ => idle) err₀)
    (hpanics : ∀ file ∈ files, ∀ r : WorldReconstructor crc,
      r.addFile miniz file.1 file.2 = none → err .encodeFile)
    (hfinal : ∀ (r : WorldReconstructor crc) entries e,
      addFiles miniz (.new : WorldReconstructor crc) files
        = some (r, entries) →
      lastPiece worldReady r = .error e → err (.finalize e)) :
    L.Meets (J []) (sendWorld miniz provider fuel crc markDirty worldReady)
      (fun _ => J expected) err := by
  have hplain : ∀ {x : ExceptT Fault (StateM σ) Unit},
      L₀.Meets idle x (fun _ => idle) err₀ → ∀ sent,
      L.Meets (J sent) (readChunks x) (fun _ => J sent) err := by
    intro x hx sent
    have hx' : L₀.Meets idle x (fun _ t => True ∧ idle t) err₀ :=
      L₀.mono (fun _ ht => ht) (fun _ _ ht => ⟨trivial, ht⟩) hx
    exact L.mono (fun _ ht => ht) (fun _ _ ht => ht.2) (h.read hx' sent)
  apply L.bind (hplain hmetadata [])
  intro _
  rw [hfiles]
  have hfront : [] ++ worldPieces miniz worldReady
      (.new : WorldReconstructor crc) files <+: expected :=
    hexpected ▸ List.prefix_rfl
  apply L.bind (h.loop hreads hpanics _ [] hfront)
  intro r
  refine L.cases fun entries => L.assume fun hadds => ?_
  rw [List.nil_append]
  rw [worldPieces_eq worldReady hadds] at hexpected
  apply L.bind (hplain hmark entries)
  intro _
  cases hpiece : lastPiece worldReady r with
  | error e =>
      have herr := hfinal r entries e hadds hpiece
      unfold lastPiece at hpiece
      rw [hpiece]
      exact L.throw herr
  | ok lastData =>
      rw [hpiece] at hexpected
      have hall : entries ++ [lastData] = expected := hexpected
      unfold lastPiece at hpiece
      rw [hpiece, ← hall]
      exact h.send entries lastData (hall ▸ List.prefix_rfl)

end Relay

-- ======================================================= a world taken apart

/-- What `deconstruct_world` makes of a world: its parts, all of them
described, and what is written under their keys. -/
theorem deconstructWorld_spec {blake3 : Bytes → ChunkKey}
    {miniz : MinizOxide} {zip : ZipCrate} {worldData auxData : Bytes}
    {world : FactorioWorldDescription} {chunks : ChunkMap}
    (h : deconstructWorld blake3 miniz zip worldData auxData
      = .ok (world, chunks)) :
    Grown blake3 WriteMap.empty chunks ∧ world.auxData = auxData
    ∧ ∃ parts : List WorldPart,
      zip.archive worldData
        = some ((parts.map WorldPart.zipFile).map some)
      ∧ world.files = parts.map WorldPart.desc
      ∧ ∀ p ∈ parts, Described miniz chunks p := by
  unfold deconstructWorld at h
  split at h
  case h_1 => cases h
  case h_2 zipFiles harchive =>
    split at h
    case h_1 => cases h
    case h_2 files chunks' hfiles =>
      cases h
      obtain ⟨hg, parts, rfl, rfl, hparts⟩ := deconstructFiles_spec hfiles
      exact ⟨hg, rfl, parts, harchive, rfl, hparts⟩

/-- The files of a world, with their data. -/
def partFiles (parts : List WorldPart) :
    List (FactorioFileDescription × Bytes) :=
  parts.map fun p => (p.desc, p.data)

/-- Over a provider that has the chunks, the world is sent. -/
theorem parts_sent {miniz : MinizOxide} {chunks : ChunkMap}
    {parts : List WorldPart} (hparts : ∀ p ∈ parts, Described miniz chunks p) :
    ∃ depth, ∀ fuel, depth ≤ fuel →
      ∀ {σ τ₀ τ : Type} {L₀ : Logic Fault τ₀ (ExceptT Fault (StateM σ))}
        {L : Logic TransferFault τ (TransferM σ)}
        {I : (ChunkKey → Prop) → τ₀ → Prop} {J : List Bytes → τ → Prop}
        {err₀ : Fault → Prop} {err : TransferFault → Prop} {crc : CrcCrate}
        {provider : ChunkProvider (ExceptT Fault (StateM σ))}
        {markDirty : ExceptT Fault (StateM σ) Unit}
        {worldReady : WorldReadyMessage} {expected : List Bytes},
      worldReady.world.files = parts.map WorldPart.desc →
      worldPieces miniz worldReady (.new : WorldReconstructor crc)
        (partFiles parts) = expected →
      Supplies L₀ provider chunks.Written I err₀ →
      Relays L₀ L (Idle I) J expected err₀ err →
      L₀.Meets (Idle I) markDirty (fun _ => Idle I) err₀ →
      (∀ file ∈ partFiles parts, ∀ r : WorldReconstructor crc,
        r.addFile miniz file.1 file.2 = none → err .encodeFile) →
      (∀ (r : WorldReconstructor crc) entries e,
        addFiles miniz (.new : WorldReconstructor crc) (partFiles parts)
          = some (r, entries) →
        lastPiece worldReady r = .error e → err (.finalize e)) →
      L.Meets (J [])
        (sendWorld miniz provider fuel crc markDirty worldReady)
        (fun _ => J expected) err := by
  have hmeans : ∀ l ∈ parts.map fun p =>
      (p.desc.chunkList, chunksOf p.data),
      Denotes chunks.Written parseList l.1.isLeaf l.1.chunks l.2 :=
    List.forall_mem_map.mpr fun p hp => (hparts p hp).means
  obtain ⟨depth, hread⟩ := supplied_lists hmeans
  refine ⟨depth, ?_⟩
  intro fuel hfuel σ τ₀ τ L₀ L I J err₀ err crc provider markDirty
    worldReady expected hfiles hexpected hsup hrelays hmark hpanics hfinal
  obtain ⟨hmetadata, hdata⟩ := hread fuel hfuel hsup
  have hnames : worldReady.world.files = (partFiles parts).map Prod.fst := by
    rw [hfiles, partFiles, List.map_map]
    rfl
  refine hrelays.world hnames hexpected ?_ ?_ hmark hpanics hfinal
  · rw [hfiles, List.map_map]
    rwa [List.map_map] at hmetadata
  · refine List.forall_mem_map.mpr fun p hp => ?_
    have hfile := hdata _ (List.mem_map_of_mem hp)
    rwa [flatten_chunksOf] at hfile

-- ========================================================== whatever happens

/-- A send fails if the proxy is gone, and appends otherwise. -/
theorem run_sendPiece {σ : Type} (data : Bytes) (s : σ × Channel) :
    (sendPiece data : TransferM σ Unit).run s
      = if s.2.isGone then (.error .send, s)
        else (.ok (),
          (s.1, { s.2 with sent := s.2.sent ++ [data] })) := by
  have hget : (get : TransferM σ (σ × Channel)).run s = (.ok s, s) := rfl
  unfold sendPiece
  rw [Faults.run_bind_ok hget]
  split <;> rfl

/-- Nothing but the front of `expected` is sent, however it ends. -/
theorem relays_always {σ : Type} (idle : σ → Prop) (expected : List Bytes) :
    Relays (Faults.logic Fault σ)
      (Faults.alwaysLogic TransferFault
        fun s : σ × Channel => s.2.sent <+: expected)
      idle (fun sent s => idle s.1 ∧ s.2.sent = sent) expected
      (fun _ => True) (fun _ => True) where
  read {α x P} hx sent := by
    intro s hfront hs
    have hends := hx s.1 hs.1
    refine ⟨hfront, ?_⟩
    show Faults.Ends _ _ ((x.run s.1).1.mapError TransferFault.chunks, _)
    rcases hr : x.run s.1 with ⟨e | a, s'⟩
    · trivial
    · rw [hr] at hends
      exact ⟨hends.1, hends.2, hs.2⟩
  send sent piece hnext := by
    intro s hfront hs
    rw [run_sendPiece]
    split
    · exact ⟨hfront, trivial⟩
    · rw [hs.2]
      exact ⟨hnext, hs.1, rfl⟩

/-- Whatever is in the caches and the responses: what a session hands out
under a key of the server is the server's chunk. -/
theorem fetchProvider_supplies {blake3 : Bytes → ChunkKey}
    {chunks : ChunkMap} (hunique : NoSecondPreimage blake3 chunks)
    (i : Nat) :
    Supplies (Faults.logic Fault FetchRun) (fetchProvider blake3 i)
      chunks.Written (fun _ run => Integrity blake3 run.state)
      (fun _ => True) where
  prefetch _ keys _ := by
    apply Faults.meets_of_ok fun _ => trivial
    intro run _ run' hinv hrun
    exact ((fetchProvider_recording blake3 i).prefetch _ _ _ _ hinv hrun).1
  getChunk _ k b _ hs := by
    apply Faults.meets_of_ok fun _ => trivial
    intro run chunk run' hinv hrun
    obtain ⟨hinv', -, hhas⟩ :=
      (fetchProvider_recording blake3 i).getChunk _ _ _ _ hinv hrun
    exact ⟨hunique k b chunk hs (hinv'.locals i k chunk hhas), hinv'⟩

/-- A client that fetches the chunks of the parts beside others, from any
server and with any cache: nothing but their pieces is ever sent, in
order, and all of them are if the transfer succeeds. -/
theorem only_pieces_sent {blake3 : Bytes → ChunkKey} {miniz : MinizOxide}
    {chunks : ChunkMap} (hunique : NoSecondPreimage blake3 chunks)
    {parts : List WorldPart}
    (hparts : ∀ p ∈ parts, Described miniz chunks p) :
    ∃ depth, ∀ fuel, depth ≤ fuel →
      ∀ {crc : CrcCrate} {worldReady : WorldReadyMessage} {i : Nat}
        {s : FetcherState} {schedule : List FetchAction}
        {goneAfter : Option Nat} {result : Except TransferFault Unit}
        {run : FetchRun} {channel : Channel},
      worldReady.world.files = parts.map WorldPart.desc →
      Reachable blake3 s →
      (sendWorld miniz (fetchProvider blake3 i) fuel crc
        (fetchMarkDirty blake3) worldReady).run
        (⟨s, schedule⟩, .new goneAfter) = (result, run, channel) →
      channel.sent <+: worldPieces miniz worldReady
        (.new : WorldReconstructor crc) (partFiles parts)
      ∧ (result = .ok () → channel.sent = worldPieces miniz worldReady
        (.new : WorldReconstructor crc) (partFiles parts)) := by
  obtain ⟨depth, hsent⟩ := parts_sent hparts
  refine ⟨depth, ?_⟩
  intro fuel hfuel crc worldReady i s schedule goneAfter result run channel
    hfiles hreach hrun
  have hmark : (Faults.logic Fault FetchRun).Meets
      (Idle fun _ run => Integrity blake3 run.state)
      (fetchMarkDirty blake3)
      (fun _ => Idle fun _ run => Integrity blake3 run.state)
      (fun _ => True) := by
    intro run hidle
    obtain ⟨asked, hinv⟩ := hidle
    exact ⟨asked, Integrity.act hinv .markDirty⟩
  have hpieces : worldPieces miniz worldReady
      (.new : WorldReconstructor crc) (partFiles parts) = _ := rfl
  have hmeets := hsent fuel hfuel hfiles hpieces
    (fetchProvider_supplies hunique i) (relays_always _ _) hmark
    (fun _ _ _ _ => trivial) (fun _ _ _ _ _ => trivial)
  have hends := hmeets (⟨s, schedule⟩, .new goneAfter) List.nil_prefix
    ⟨⟨fun _ => True, hreach.integrity⟩, rfl⟩
  rw [hrun] at hends
  refine ⟨hends.1, ?_⟩
  intro hok
  subst hok
  exact hends.2.2

end FactoryCacher
