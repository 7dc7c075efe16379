import Chromatin.Infra.Bytes
import Chromatin.Infra.Access
import Chromatin.Infra.SortedList
import Chromatin.Infra.Tiling
import Chromatin.Infra.TreeMap
import Chromatin.Infra.Run
import Chromatin.Infra.Paging
import Chromatin.Infra.Slices
import Chromatin.Infra.Cursor
import Chromatin.Infra.Assoc
import Chromatin.Util.Endian
import Chromatin.Util.Hex
import Chromatin.Wire.Codec
import Chromatin.Wire.Sample
import Chromatin.Storage.Tables
import Chromatin.Storage.Maintenance
import Chromatin.Storage.Cursors
import Chromatin.Engine.Ingest
import Chromatin.Net.Framing
import Chromatin.Net.Connection
import Chromatin.Net.Endpoint
import Chromatin.Net.Handshake
import Chromatin.Net.Server
import Chromatin.Config.Validate
import Chromatin.Sync.Reconciliation
import Chromatin.Sync.ReconcileCodec
import Chromatin.Sync.Protocol
import Chromatin.Sync.SpanDecoders
import Chromatin.Peer.ReconcileLoop
import Chromatin.Peer.SyncOrchestrator
import Chromatin.Peer.Announce
import Chromatin.Peer.PeerManager
import Chromatin.Peer.MessageDispatcher
import Chromatin.Storage.SequenceScan
import Chromatin.Peer.QueryRequests
import Chromatin.Peer.QueryClient
import Chromatin.Peer.ConnectionManager
import Chromatin.Peer.AcceptLoop
import Chromatin.Peer.ExpiryTimer
import Chromatin.Peer.BlobPushManager
import Chromatin.Peer.RateLimit
import Chromatin.Cli.Envelope
import Chromatin.Cli.Listing
import Chromatin.Cli.Pipeline
import Chromatin.Cli.Pump
import Chromatin.Cli.Contacts
import Chromatin.Cli.Remove
import Chromatin.Cli.Chunked
import Chromatin.Cli.Put
import Chromatin.Cli.Get
import Chromatin.Cli.Shapes
import Chromatin.Cli.Sample
import Chromatin.Properties.RangeSafety
import Chromatin.Properties.Reconciliation
import Chromatin.Properties.ReconcileLoop
import Chromatin.Properties.SyncCodecs
import Chromatin.Properties.EngineSteps
import Chromatin.Properties.EngineCalls
import Chromatin.Properties.SequenceIndex
import Chromatin.Properties.StoreRuns
import Chromatin.Properties.StoreIndexes
import Chromatin.Properties.SequencePaging
import Chromatin.Properties.NamespaceEnumeration
import Chromatin.Properties.BatchRead
import Chromatin.Properties.OwnerKeys
import Chromatin.Properties.Authorization
import Chromatin.Properties.BatchReadSize
import Chromatin.Properties.BatchStore
import Chromatin.Properties.Interleaving
import Chromatin.Properties.Deletion
import Chromatin.Properties.Acceptance
import Chromatin.Properties.Bomb
import Chromatin.Properties.Convergence
import Chromatin.Properties.SyncSession
import Chromatin.Properties.MissingOnce
import Chromatin.Properties.NamespaceHashes
import Chromatin.Properties.SyncTransfer
import Chromatin.Properties.SyncCursor
import Chromatin.Properties.SyncComplete
import Chromatin.Properties.SyncGuard
import Chromatin.Properties.Announce
import Chromatin.Properties.Quota
import Chromatin.Properties.Rejection
import Chromatin.Properties.PeerTable
import Chromatin.Properties.ConnectionLimits
import Chromatin.Properties.ExpiryTimer
import Chromatin.Properties.Deduplication
import Chromatin.Properties.Reconnect
import Chromatin.Properties.Backoff
import Chromatin.Properties.BlobFetch
import Chromatin.Properties.RateLimit
import Chromatin.Properties.Transport
import Chromatin.Properties.EndpointClose
import Chromatin.Properties.Chunking
import Chromatin.Properties.Handshake
import Chromatin.Properties.HandshakeCompletion
import Chromatin.Properties.HandshakeAgreement
import Chromatin.Properties.Listing
import Chromatin.Properties.TimeRange
import Chromatin.Properties.Download
import Chromatin.Properties.Upload
import Chromatin.Properties.ChunkedFiles
import Chromatin.Properties.PutSizes
import Chromatin.Properties.PutPayload
import Chromatin.Properties.Correlation
import Chromatin.Properties.PipelineRouting
import Chromatin.Properties.Removal
import Chromatin.Properties.Contacts
import Chromatin.Properties.WireShapes
import Chromatin.Properties.Envelope
