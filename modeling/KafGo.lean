import KafGo.Storage.CommitLog
import KafGo.Storage.Layout
import KafGo.Storage.Built
import KafGo.Storage.Region
import KafGo.Storage.Headers
import KafGo.Coordinator.PartitionState
import KafGo.Coordinator.Purgatory
import KafGo.Lib.Threads
import KafGo.Coordinator.Idempotence
import KafGo.Protocol.Reader
import KafGo.Protocol.RecordBatch
import KafGo.Partition.Leader
import KafGo.Partition.Steps
import KafGo.Partition.Watermarks
import KafGo.Partition.Waiters
import KafGo.Partition.Acks
import KafGo.Partition.IsrTick
import KafGo.Partition.History
import KafGo.Partition.InSync
import KafGo.Lib.Machine
import KafGo.Storage.Clip
import KafGo.Server.Fetch
import KafGo.Server.ReplicaFetcher
import KafGo.Lib.Crc32c
import KafGo.Protocol.MetadataBatch
import KafGo.Server.MetadataFetcher
import KafGo.Storage.TornTail
import KafGo.Storage.Contiguous
import KafGo.Coordinator.ProducerSnapshot
import KafGo.Coordinator.PidManager
import KafGo.Lib.Ring
import KafGo.Coordinator.ProducerStateManager
import KafGo.Server.ProducerRecovery
import KafGo.Lib.Keyed
import KafGo.Lib.Mailbox
import KafGo.Group.Store
import KafGo.Group.Changes
import KafGo.Group.Consistent
import KafGo.Group.Timeouts
import KafGo.Group.Rounds
import KafGo.Group.Barrier
import KafGo.Group.Waiting
import KafGo.Group.Sync
import KafGo.Coordinator.PartitionStateStore
import KafGo.Storage.TopicStore
import KafGo.Server.Broker
import KafGo.Server.Startup
import KafGo.Server.Recovery
import KafGo.Server.Plan
import KafGo.Server.Cluster
import KafGo.Server.Naming
import KafGo.Lib.Objects
import KafGo.Server.Process
import KafGo.Server.Isolation
import KafGo.Server.Reapply
import KafGo.Protocol.MetadataValue
import KafGo.Coordinator.MetadataLog
import KafGo.Server.Accepted
import KafGo.Lib.Cursor
import KafGo.Lib.Route
import KafGo.Wire.Admin
import KafGo.Wire.Client
import KafGo.Wire.Fetch
import KafGo.Wire.Request
import KafGo.Wire.Bounds
import KafGo.Wire.Safety
import KafGo.Wire.RoundTrip
import KafGo.Wire.FetchReply
import KafGo.Server.Registry
import KafGo.Group.Heartbeat
import KafGo.Coordinator.SequenceStream
import KafGo.Partition.Readmission
import KafGo.Coordinator.SnapshotRoundTrip
import KafGo.Partition.FailedProduce
import KafGo.Storage.Progress
import KafGo.Storage.Boundaries
import KafGo.Protocol.MalformedBatch
import KafGo.Lib.Stuck
import KafGo.Protocol.MalformedMetadata
import KafGo.Server.BatchParsers
import KafGo.Server.CountedRecords
import KafGo.Server.RecordLengths
import KafGo.Wire.Header
import KafGo.Server.ProduceReply
import KafGo.Wire.UnknownTags
import KafGo.Lib.ByteReader
import KafGo.Lib.SortedMap
import KafGo.Storage.Message
import KafGo.Storage.MessageLog
import KafGo.Storage.FailedAppend
import KafGo.Wire.Varint
import KafGo.Coordinator.RecordRing
import KafGo.Group.Offsets
import KafGo.Coordinator.SnapshotFiles
import KafGo.Storage.HeaderWalk
import KafGo.Storage.IndexRun
import KafGo.Lib.Projection
import KafGo.Partition.Stored
import KafGo.Server.Replicated
import KafGo.Server.Durable
import KafGo.Lib.Exchange
import KafGo.Server.FetchApi
import KafGo.Server.BrokerClient
import KafGo.Server.BrokerRegister
import KafGo.Server.Enrolment
import KafGo.Server.Fencing
import KafGo.Group.OffsetApi
import KafGo.Server.ListOffsetsApi
