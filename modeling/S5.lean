import S5.Lib.Run
import S5.Lib.Map
import S5.Lib.BigEndian
import S5.Lib.LittleEndian
import S5.Lib.Cbor
import S5.Lib.CborCodec
import S5.Lib.Hex
import S5.Lib.Base64Url
import S5.Lib.BitText
import S5.Lib.Base58
import S5.Lib.Latest
import S5.Lib.Checked
import S5.Lib.HttpRange
import S5.Lib.Chunked
import S5.Lib.XChaCha
import S5.Core.Location
import S5.Core.LocationFormat
import S5.Core.Pins
import S5.Core.BlobId
import S5.Core.Proof.BlobId
import S5.Core.CborValue
import S5.Core.Proof.CborValue
import S5.Core.Stream
import S5.Core.Proof.Wire
import S5.Core.Store
import S5.Core.Tee
import S5.Core.Proof.Tee
import S5.Stores.Ranges
import S5.Stores.Proof.Ranges
import S5.Blobs.Server
import S5.Blobs.Proof.Pinned
import S5.Blobs.Race
import S5.Blobs.Proof.Race
import S5.Blobs.Fetch
import S5.Blobs.Proof.Fetch
import S5.Blobs.Download
import S5.Blobs.Proof.Download
import S5.Blobs.Import
import S5.Blobs.Proof.Import
import S5.Blobs.Concurrent
import S5.Blobs.Proof.Concurrent
import S5.Blobs.Listing
import S5.Blobs.Proof.Listing
import S5.Blobs.Query
import S5.Blobs.Proof.Query
import S5.Blobs.Remote
import S5.Blobs.Proof.Remote
import S5.Blobs.Proof.Paths
import S5.Fs.Dir
import S5.Fs.Format
import S5.Fs.Path
import S5.Fs.Context
import S5.Fs.Merge
import S5.Fs.Sharding
import S5.Fs.Actor
import S5.Fs.Symbolic
import S5.Fs.Proof.Lookup
import S5.Fs.Proof.Shard
import S5.Fs.Proof.ShardLookup
import S5.Fs.Proof.ShardMerge
import S5.Fs.Proof.Merge
import S5.Fs.Proof.Shutdown
import S5.Fs.Api
import S5.Fs.Snapshots
import S5.Fs.Turn
import S5.Fs.System
import S5.Fs.FileOps
import S5.Fs.Proof.ShardRun
import S5.Fs.Head
import S5.Fs.Proof.Turn
import S5.Fs.Proof.System
import S5.Fs.Proof.Snapshots
import S5.Fs.Keys
import S5.Fs.Proof.Keys
import S5.Fs.Proof.KeysActor
import S5.Fs.Proof.KeysTurn
import S5.Fs.Proof.KeysSave
import S5.Fs.Proof.KeysRun
import S5.Fs.Proof.KeysSystem
import S5.Fs.Proof.Acts
import S5.Fs.Proof.Dirty
import S5.Fs.Proof.DirtyRun
import S5.Fs.Proof.Entries
import S5.Fs.Proof.Replaced
import S5.Fs.Proof.Stored
import S5.Fs.Proof.StoredRun
import S5.Fs.Proof.Placeholder
import S5.Fs.Proof.Promote
import S5.Fs.Create
import S5.Fs.Proof.Create
import S5.Fs.Proof.CreateAgain
import S5.Fs.Proof.PromoteFails
import S5.Fs.Proof.DeleteAgain
import S5.Fs.Panics
import S5.Fs.Proof.Panics
import S5.Fs.Proof.ShardFails
import S5.Fs.Proof.Absorb
import S5.Fs.Gc
import S5.Fs.Proof.Gc
import S5.Fs.Versions
import S5.Fs.Proof.Versions
import S5.Fs.Listing
import S5.Fs.Proof.Listing
import S5.Registry.Api
import S5.Registry.Pinner
import S5.Registry.Publish
import S5.Registry.Proof.Slot
import S5.Registry.Proof.Compose
import S5.Registry.Proof.Peers
import S5.Registry.Proof.Publish
import S5.Registry.Paths
import S5.Registry.Proof.Converge
import S5.Registry.Proof.Writers
import S5.Registry.Proof.Regress
import S5.Registry.Proof.Pinner
import S5.Node.Sync
import S5.Node.Proof.Sync
import S5.Client.Encrypted
import S5.Client.Proof.Encrypted
import S5.Client.Proof.Integrity
import S5.Lib.Interner
import S5.Fs.Segments
import S5.Fs.Exports
import S5.Fs.Proof.Exports
import S5.Fuse.Mount
import S5.Fuse.Proof.Mount
import S5.Fuse.Proof.Tree
import S5.Importers.Http
import S5.Importers.Proof.Http
import S5.Importers.Proof.Crawl
import S5.Lib.Search
import S5.Fs.Collect
import S5.Fs.Proof.Collect
import S5.Lib.Durable
import S5.Fs.Session
import S5.Fs.Proof.Tree
import S5.Fs.Proof.Requests
import S5.Fs.Proof.Session
import S5.Fuse.Write
import S5.Fuse.Proof.Write
import S5.Fuse.Collect
import S5.Fuse.Proof.Collect
import S5.Importers.Local
import S5.Importers.Proof.Local
import S5.Lib.Gossip
import S5.Node.Proof.Flat
import S5.Node.Proof.Replicas
import S5.Fs.Waiting
import S5.Fs.Proof.Forest
import S5.Fs.Proof.ForestTurn
import S5.Fs.Proof.Waiting
import S5.Fs.Proof.WaitingSave
import S5.Fs.Proof.WaitingRun
