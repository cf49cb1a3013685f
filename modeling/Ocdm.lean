import Ocdm.Lib.Comp
import Ocdm.Lib.Bytes
import Ocdm.Lib.Upsert
import Ocdm.Lib.Gather
import Ocdm.Protobuf.Message
import Ocdm.Cenc.KeyId
import Ocdm.Cenc.KeyList
import Ocdm.Cenc.Parser
import Ocdm.Cenc.JsonKids
import Ocdm.Cenc.BoxLoop
import Ocdm.Cenc.ParseReads
import Ocdm.Cenc.BoxGuards
import Ocdm.Protobuf.Varint
import Ocdm.Protobuf.Encode
import Ocdm.Cenc.Widevine
import Ocdm.Cenc.Boxes
import Ocdm.Cenc.XmlText
import Ocdm.Cenc.FindInXml
import Ocdm.Cenc.Base64Text
import Ocdm.Cenc.Base64
import Ocdm.Cenc.XmlWalk
import Ocdm.Cenc.Records
import Ocdm.Cenc.ParseEnds
import Ocdm.Cenc.XmlKeys
import Ocdm.Cenc.PlayReadyHeader
import Ocdm.Cenc.PlayReady
import Ocdm.Cenc.Adds
import Ocdm.Exchange.Block
import Ocdm.Exchange.Client
import Ocdm.Exchange.Worker
import Ocdm.Exchange.Requests
import Ocdm.Exchange.Fps
import Ocdm.Lib.Refine
import Ocdm.Lib.Semaphore
import Ocdm.Exchange.Sharing
import Ocdm.Exchange.Serial
import Ocdm.Exchange.Progress
import Ocdm.Lib.Trace
import Ocdm.Lib.Effects
import Ocdm.Server.Buffers
import Ocdm.Server.Administrator
import Ocdm.Server.Teardown
import Ocdm.Session.Status
import Ocdm.Session.HeldKeys
import Ocdm.Session.Sink
import Ocdm.Session.Revocation
import Ocdm.Adapter.Subsamples
import Ocdm.Adapter.DecryptBuffer
import Ocdm.Adapter.Retry
import Ocdm.Adapter.RetryTrace
import Ocdm.Adapter.MultiDecrypt
import Ocdm.Adapter.MultiRetry
import Ocdm.Adapter.Delivery
import Ocdm.Exchange.Answers
import Ocdm.Adapter.FrameDecryption
import Ocdm.Adapter.DecryptToHost
import Ocdm.Adapter.Agreement
import Ocdm.Adapter.Extend
import Ocdm.Adapter.Partition
import Ocdm.Adapter.GStreamer
import Ocdm.Lib.Pairing
import Ocdm.Adapter.Mappings
import Ocdm.Adapter.GStreamerBuffer
import Ocdm.Adapter.SessionRetry
import Ocdm.Lib.Find
import Ocdm.Client.CapsParser
import Ocdm.Client.CapsFields
import Ocdm.Client.CapsHistory
import Ocdm.Lib.Assoc
import Ocdm.Client.AllocatedBuffer
import Ocdm.Client.Lengths
import Ocdm.Client.DrmTime
import Ocdm.Client.Robustness
import Ocdm.Client.Registry
import Ocdm.Client.References
import Ocdm.Client.WaitForKey
import Ocdm.Lib.Regex
import Ocdm.Server.TypeSupport
import Ocdm.Server.Shutdown
import Ocdm.Server.KeySystems
import Ocdm.Server.Sessions
import Ocdm.Server.CdmSessions
import Ocdm.Server.Tokenize
import Ocdm.Server.Lifecycle
import Ocdm.Lib.Wire
import Ocdm.Protobuf.Nested
import Ocdm.Protobuf.Consumes
import Ocdm.Protobuf.Walk
import Ocdm.Protobuf.Accept
import Ocdm.Protobuf.Reads
import Ocdm.Protobuf.Local
import Ocdm.Protobuf.Whole
import Ocdm.Protobuf.Unknown
import Ocdm.Protobuf.Records
import Ocdm.Protobuf.Presence
import Ocdm.Client.DecryptSession
import Ocdm.Client.Connection
