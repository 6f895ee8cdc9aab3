import Strike.Go.Slice
import Strike.Lib.Machine
import Strike.Lib.ReadProg
import Strike.Buffer.IoBuffer
import Strike.Buffer.Storage
import Strike.Buffer.Fifo
import Strike.Buffer.MarkRestore
import Strike.Buffer.Reading
import Strike.Mqtt.Message
import Strike.Mqtt.Encode
import Strike.Mqtt.Codec
import Strike.Mqtt.Wire
import Strike.Mqtt.Rounds
import Strike.Mqtt.Termination
import Strike.Mqtt.Layout
import Strike.Mqtt.Framing
import Strike.Mqtt.Packet
import Strike.Mqtt.RoundTrip
import Strike.Mqtt.Chunking
import Strike.Go.Bytes
import Strike.Utils.BytesConv
import Strike.Utils.Args
import Strike.Http.Header
import Strike.Http.Codec
import Strike.Http.Stream
import Strike.Http.Scanning
import Strike.Http.Decoding
import Strike.Http.Connection
import Strike.Http.Smuggling
import Strike.Http.Message
import Strike.Http.Delivery
import Strike.Http.Recycling
import Strike.Http.InternalKeys
import Strike.Lib.System
import Strike.Sync.Queue
import Strike.Sync.ShardWorkerPool
import Strike.Protocol.CommonHeader
import Strike.Controller.SourceStream
import Strike.Rules.Matcher
import Strike.Rules.Engine
import Strike.Rules.OwnConfig
import Strike.Rules.Formula
import Strike.Rules.HttpParams
import Strike.Go.Buffers
import Strike.Network.Session
import Strike.Network.WriteOrder
import Strike.Network.FlushClose
import Strike.Lib.Calls
import Strike.Proxy.Stream
import Strike.Proxy.Lasting
import Strike.Proxy.Replies
import Strike.Proxy.Settling
import Strike.Proxy.Answered
import Strike.Proxy.FilterChain
import Strike.Proxy.Holding
import Strike.Proxy.Filtering
import Strike.Lib.Threads
import Strike.Proxy.Callbacks
import Strike.Proxy.Pooled
import Strike.Lib.Loop
import Strike.Utils.Quoting
import Strike.Utils.Query
import Strike.Http.Deleting
import Strike.Http.Path
import Strike.Http.Uri
import Strike.Http.Entries
import Strike.Http.HeadEnd
import Strike.Http.Incremental
import Strike.Http.Complete
import Strike.Http.OneHost
import Strike.Lib.Metering
import Strike.Lib.View
import Strike.Utils.TokenBucket
import Strike.Limit.QPS
import Strike.Limit.Rate
import Strike.Limit.UserQPS
import Strike.Limit.Engine
import Strike.Lib.Keyed
import Strike.Mqtt.ServerStream
import Strike.Stls.Context
import Strike.Stream.Listeners
import Strike.Server.Listeners
import Strike.Server.Connections
import Strike.Upstream.HostList
import Strike.Upstream.Cluster
import Strike.Proxy.Sharding
import Strike.Server.Removing
import Strike.Mqtt.Lengths
import Strike.Go.Pools
import Strike.Buffer.Counting
import Strike.Buffer.BytePool
import Strike.Lib.Tokens
import Strike.Buffer.Contexts
import Strike.Network.FilterManager
import Strike.Sync.WorkerPool
import Strike.Sync.Ownership
import Strike.Sync.Running
import Strike.Mqtt.Strings
import Strike.Http.ContentLength
import Strike.Buffer.ReadOnce
import Strike.Network.ReadLoop
import Strike.Lib.Histories
import Strike.Buffer.Memory
import Strike.Buffer.Apart
import Strike.Buffer.Acts
import Strike.Buffer.Isolation
import Strike.Buffer.Queues
import Strike.Http.Serving
