import ElectrumStreamingClient.Foundations.DelimitedText
import ElectrumStreamingClient.Foundations.FixedWidth
import ElectrumStreamingClient.Foundations.Hex
import ElectrumStreamingClient.Foundations.JsonText
import ElectrumStreamingClient.Foundations.KeyedLog
import ElectrumStreamingClient.Foundations.KeyedStore
import ElectrumStreamingClient.Foundations.LineFraming
import ElectrumStreamingClient.Foundations.Loop
import ElectrumStreamingClient.Foundations.MerkleTree
import ElectrumStreamingClient.Foundations.Places
import ElectrumStreamingClient.Foundations.Serde
import ElectrumStreamingClient.Foundations.Record
import ElectrumStreamingClient.Foundations.TransitionSystem
import ElectrumStreamingClient.Foundations.WrappingId
import ElectrumStreamingClient.Foundations.WriteAll
import ElectrumStreamingClient.Protocol.Bitcoin
import ElectrumStreamingClient.Protocol.Messages
import ElectrumStreamingClient.Protocol.Decode
import ElectrumStreamingClient.Protocol.Classification
import ElectrumStreamingClient.Protocol.MemberOrder
import ElectrumStreamingClient.Protocol.Response
import ElectrumStreamingClient.Protocol.Notification
import ElectrumStreamingClient.Protocol.Request
import ElectrumStreamingClient.Protocol.Hashes
import ElectrumStreamingClient.Protocol.RequestEncoding
import ElectrumStreamingClient.Protocol.Headers
import ElectrumStreamingClient.Protocol.History
import ElectrumStreamingClient.Protocol.ScriptStatus
import ElectrumStreamingClient.Protocol.TxMerkle
import ElectrumStreamingClient.Protocol.Event
import ElectrumStreamingClient.Protocol.EventHeaders
import ElectrumStreamingClient.Protocol.ResponseDecoders
import ElectrumStreamingClient.Protocol.HeaderFormats
import ElectrumStreamingClient.Tracker.PendingRequest
import ElectrumStreamingClient.Tracker.RequestTracker
import ElectrumStreamingClient.Tracker.Session
import ElectrumStreamingClient.Tracker.Run
import ElectrumStreamingClient.Tracker.UniqueIds
import ElectrumStreamingClient.Tracker.ExactlyOnce
import ElectrumStreamingClient.Tracker.Outstanding
import ElectrumStreamingClient.Tracker.AnyOrder
import ElectrumStreamingClient.Tracker.Lenience
import ElectrumStreamingClient.Io.ReadStreamer
import ElectrumStreamingClient.Io.Framing
import ElectrumStreamingClient.Io.Resumption
import ElectrumStreamingClient.Io.Consumption
import ElectrumStreamingClient.Io.CutLine
import ElectrumStreamingClient.Io.Write
import ElectrumStreamingClient.Io.TypedRequests
import ElectrumStreamingClient.Client.Link
import ElectrumStreamingClient.Client.AsyncClient
import ElectrumStreamingClient.Client.BlockingClient
import ElectrumStreamingClient.Client.Invariant
import ElectrumStreamingClient.Client.Conservation
import ElectrumStreamingClient.Client.Disconnect
import ElectrumStreamingClient.Client.Server
import ElectrumStreamingClient.Client.Correlation
import ElectrumStreamingClient.Client.Wire
import ElectrumStreamingClient.Client.Stream
import ElectrumStreamingClient.Client.Events
import ElectrumStreamingClient.Client.Shutdown
import ElectrumStreamingClient.Client.Agreement
import ElectrumStreamingClient.Client.Calls
import ElectrumStreamingClient.Client.Connection
