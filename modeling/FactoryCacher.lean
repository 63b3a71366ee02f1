import FactoryCacher.Lib.Bytes
import FactoryCacher.Lib.Containers
import FactoryCacher.Lib.ContentTree
import FactoryCacher.Lib.Faults
import FactoryCacher.Common.Chunker
import FactoryCacher.Lib.RollingHash
import FactoryCacher.Common.Proofs.ChunkerSpec
import FactoryCacher.Common.Dedup
import FactoryCacher.Common.Proofs.ChunkTree
import FactoryCacher.Lib.LevelTree
import FactoryCacher.Common.Proofs.TreeShape
import FactoryCacher.Common.Messages
import FactoryCacher.Common.Proofs.ReplySizes
import FactoryCacher.Common.CacheWriter
import FactoryCacher.Common.Proofs.CacheSaving
import FactoryCacher.Lib.Crc
import FactoryCacher.Lib.Cp437
import FactoryCacher.Factorio.RevCrc
import FactoryCacher.Factorio.Proofs.Forge
import FactoryCacher.Lib.Zip
import FactoryCacher.Factorio.ZipWriter
import FactoryCacher.Factorio.Proofs.ZipRoundTrip
import FactoryCacher.Factorio.Protocol
import FactoryCacher.Factorio.World
import FactoryCacher.Factorio.Proofs.WorldStream
import FactoryCacher.Factorio.Proofs.WorldFidelity
import FactoryCacher.Lib.Machine
import FactoryCacher.Lib.Readers
import FactoryCacher.Lib.Search
import FactoryCacher.Lib.Blocks
import FactoryCacher.Factorio.ServerProxy
import FactoryCacher.Factorio.Proofs.WorldDownload
import FactoryCacher.Factorio.Proofs.Forwarding
import FactoryCacher.Factorio.Proofs.DownloadWindow
import FactoryCacher.Factorio.Proofs.Announcement
import FactoryCacher.Factorio.Proofs.BlockArithmetic
import FactoryCacher.Factorio.ClientProxy
import FactoryCacher.Factorio.Proofs.BlockServing
import FactoryCacher.Common.ChunkCache
import FactoryCacher.Common.Proofs.CacheOps
import FactoryCacher.Common.Proofs.CachePersistence
import FactoryCacher.Lib.Lru
import FactoryCacher.Common.Proofs.LruCache
import FactoryCacher.Common.Proofs.Resync
import FactoryCacher.Common.Proofs.FetchProgress
import FactoryCacher.Common.Proofs.CacheMachine
import FactoryCacher.Common.Proofs.ExclusiveFetch
import FactoryCacher.Common.Fetcher
import FactoryCacher.Common.Proofs.Sessions
import FactoryCacher.Common.Proofs.FetchRelease
import FactoryCacher.Common.Proofs.ChunkIntegrity
import FactoryCacher.Lib.Lz4Frame
import FactoryCacher.Nebula.Lz4FrameEncoder
import FactoryCacher.Nebula.Proofs.Lz4Framing
import FactoryCacher.Nebula.NebulaProtocol
import FactoryCacher.Nebula.Proofs.PacketRebuild
import FactoryCacher.Common.Proofs.ReadLog
import FactoryCacher.Lib.Segments
import FactoryCacher.Lib.WebSocket
import FactoryCacher.Nebula.Protocol
import FactoryCacher.Nebula.ClientProxy
import FactoryCacher.Nebula.Proofs.PacketDelivery
import FactoryCacher.Nebula.ServerProxy
import FactoryCacher.Nebula.Proofs.Transparency
import FactoryCacher.Nebula.Rendezvous
import FactoryCacher.Nebula.Proofs.StreamRendezvous
import FactoryCacher.Lib.VarInt
import FactoryCacher.Lib.Queues
import FactoryCacher.Lib.Paths
import FactoryCacher.Factorio.Peers
import FactoryCacher.Factorio.Proofs.PeerSteps
import FactoryCacher.Factorio.Proofs.PeerRegistry
import FactoryCacher.Lib.Histories
import FactoryCacher.Factorio.Proofs.PeerPaths
import FactoryCacher.Factorio.Proofs.PeerTasks
import FactoryCacher.Factorio.Proofs.PeerIsolation
import FactoryCacher.Lib.Pipes
import FactoryCacher.Lib.MsgPack
import FactoryCacher.Lib.LeadsTo
import FactoryCacher.Common.Conversation
import FactoryCacher.Common.Proofs.SessionMoves
import FactoryCacher.Common.Proofs.TalkLinks
import FactoryCacher.Common.Proofs.TalkSafety
import FactoryCacher.Common.Proofs.FetchWork
import FactoryCacher.Common.Proofs.TalkProgress
import FactoryCacher.Common.Proofs.RoomyCache
import FactoryCacher.Common.Proofs.SuppliedReads
import FactoryCacher.Common.Proofs.TalkDelivery
import FactoryCacher.Factorio.Proofs.WorldJourney
import FactoryCacher.Factorio.Proofs.WorldArrival
