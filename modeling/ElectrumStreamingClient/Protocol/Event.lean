import ElectrumStreamingClient.Protocol.Notification
import ElectrumStreamingClient.Protocol.Request

/-!
# Events

What the client emits to its caller besides running callbacks: a completed or failed request of one
of the built-in types, or a notification.
-/

namespace ElectrumStreamingClient

open Serde

variable [Bitcoin]

/-- A successfully handled request and its decoded response. -/
inductive CompletedRequest where
  | header (req : Request.Header) (resp : Request.Response Request.Header)
  | headerWithProof (req : Request.HeaderWithProof)
      (resp : Request.Response Request.HeaderWithProof)
  | headers (req : Request.Headers) (resp : Request.Response Request.Headers)
  | headersWithCheckpoint (req : Request.HeadersWithCheckpoint)
      (resp : Request.Response Request.HeadersWithCheckpoint)
  | estimateFee (req : Request.EstimateFee) (resp : Request.Response Request.EstimateFee)
  | headersSubscribe (req : Request.HeadersSubscribe)
      (resp : Request.Response Request.HeadersSubscribe)
  | relayFee (req : Request.RelayFee) (resp : Request.Response Request.RelayFee)
  | getBalance (req : Request.GetBalance) (resp : Request.Response Request.GetBalance)
  | getHistory (req : Request.GetHistory) (resp : Request.Response Request.GetHistory)
  | getMempool (req : Request.GetMempool) (resp : Request.Response Request.GetMempool)
  | listUnspent (req : Request.ListUnspent) (resp : Request.Response Request.ListUnspent)
  | scriptHashSubscribe (req : Request.ScriptHashSubscribe)
      (resp : Request.Response Request.ScriptHashSubscribe)
  | scriptHashUnsubscribe (req : Request.ScriptHashUnsubscribe)
      (resp : Request.Response Request.ScriptHashUnsubscribe)
  | broadcastTx (req : Request.BroadcastTx) (resp : Request.Response Request.BroadcastTx)
  | broadcastPackage (req : Request.BroadcastPackage)
      (resp : Request.Response Request.BroadcastPackage)
  | broadcastPackageVerbose (req : Request.BroadcastPackageVerbose)
      (resp : Request.Response Request.BroadcastPackageVerbose)
  | getTx (req : Request.GetTx) (resp : Request.Response Request.GetTx)
  | getTxMerkle (req : Request.GetTxMerkle) (resp : Request.Response Request.GetTxMerkle)
  | getTxidFromPos (req : Request.GetTxidFromPos) (resp : Request.Response Request.GetTxidFromPos)
  | getFeeHistogram (req : Request.GetFeeHistogram)
      (resp : Request.Response Request.GetFeeHistogram)
  | getMempoolInfo (req : Request.GetMempoolInfo) (resp : Request.Response Request.GetMempoolInfo)
  | serverVersion (req : Request.ServerVersion) (resp : Request.Response Request.ServerVersion)
  | banner (req : Request.Banner) (resp : Request.Response Request.Banner)
  | features (req : Request.Features) (resp : Request.Response Request.Features)
  | ping (req : Request.Ping) (resp : Request.Response Request.Ping)
  | custom (req : Request.Custom) (resp : Request.Response Request.Custom)
  | spSubscribe (req : Request.SpSubscribe) (resp : Request.Response Request.SpSubscribe)
  | spUnsubscribe (req : Request.SpUnsubscribe) (resp : Request.Response Request.SpUnsubscribe)

/-- A request and the error the server answered it with. -/
inductive FailedRequest where
  | header (req : Request.Header) (error : ResponseError)
  | headerWithProof (req : Request.HeaderWithProof) (error : ResponseError)
  | headers (req : Request.Headers) (error : ResponseError)
  | headersWithCheckpoint (req : Request.HeadersWithCheckpoint) (error : ResponseError)
  | estimateFee (req : Request.EstimateFee) (error : ResponseError)
  | headersSubscribe (req : Request.HeadersSubscribe) (error : ResponseError)
  | relayFee (req : Request.RelayFee) (error : ResponseError)
  | getBalance (req : Request.GetBalance) (error : ResponseError)
  | getHistory (req : Request.GetHistory) (error : ResponseError)
  | getMempool (req : Request.GetMempool) (error : ResponseError)
  | listUnspent (req : Request.ListUnspent) (error : ResponseError)
  | scriptHashSubscribe (req : Request.ScriptHashSubscribe) (error : ResponseError)
  | scriptHashUnsubscribe (req : Request.ScriptHashUnsubscribe) (error : ResponseError)
  | broadcastTx (req : Request.BroadcastTx) (error : ResponseError)
  | broadcastPackage (req : Request.BroadcastPackage) (error : ResponseError)
  | broadcastPackageVerbose (req : Request.BroadcastPackageVerbose) (error : ResponseError)
  | getTx (req : Request.GetTx) (error : ResponseError)
  | getTxMerkle (req : Request.GetTxMerkle) (error : ResponseError)
  | getTxidFromPos (req : Request.GetTxidFromPos) (error : ResponseError)
  | getFeeHistogram (req : Request.GetFeeHistogram) (error : ResponseError)
  | getMempoolInfo (req : Request.GetMempoolInfo) (error : ResponseError)
  | serverVersion (req : Request.ServerVersion) (error : ResponseError)
  | banner (req : Request.Banner) (error : ResponseError)
  | features (req : Request.Features) (error : ResponseError)
  | ping (req : Request.Ping) (error : ResponseError)
  | custom (req : Request.Custom) (error : ResponseError)
  | spSubscribe (req : Request.SpSubscribe) (error : ResponseError)
  | spUnsubscribe (req : Request.SpUnsubscribe) (error : ResponseError)

/-- An event: a satisfied request, a failed one, or a notification. -/
inductive Event where
  | response (completed : CompletedRequest)
  | responseError (failed : FailedRequest)
  | notification (n : Notification)

/-- A request type whose responses and errors can be wrapped into events. -/
class RequestExt (Req : Type) extends Request Req where
  intoCompleted : Req → Response → CompletedRequest
  intoFailed : Req → ResponseError → FailedRequest

instance : RequestExt Request.Header where
  intoCompleted := .header
  intoFailed := .header

instance : RequestExt Request.HeaderWithProof where
  intoCompleted := .headerWithProof
  intoFailed := .headerWithProof

instance : RequestExt Request.Headers where
  intoCompleted := .headers
  intoFailed := .headers

instance : RequestExt Request.HeadersWithCheckpoint where
  intoCompleted := .headersWithCheckpoint
  intoFailed := .headersWithCheckpoint

instance : RequestExt Request.EstimateFee where
  intoCompleted := .estimateFee
  intoFailed := .estimateFee

instance : RequestExt Request.HeadersSubscribe where
  intoCompleted := .headersSubscribe
  intoFailed := .headersSubscribe

instance : RequestExt Request.RelayFee where
  intoCompleted := .relayFee
  intoFailed := .relayFee

instance : RequestExt Request.GetBalance where
  intoCompleted := .getBalance
  intoFailed := .getBalance

instance : RequestExt Request.GetHistory where
  intoCompleted := .getHistory
  intoFailed := .getHistory

instance : RequestExt Request.GetMempool where
  intoCompleted := .getMempool
  intoFailed := .getMempool

instance : RequestExt Request.ListUnspent where
  intoCompleted := .listUnspent
  intoFailed := .listUnspent

instance : RequestExt Request.ScriptHashSubscribe where
  intoCompleted := .scriptHashSubscribe
  intoFailed := .scriptHashSubscribe

instance : RequestExt Request.ScriptHashUnsubscribe where
  intoCompleted := .scriptHashUnsubscribe
  intoFailed := .scriptHashUnsubscribe

instance : RequestExt Request.BroadcastTx where
  intoCompleted := .broadcastTx
  intoFailed := .broadcastTx

instance : RequestExt Request.BroadcastPackage where
  intoCompleted := .broadcastPackage
  intoFailed := .broadcastPackage

instance : RequestExt Request.BroadcastPackageVerbose where
  intoCompleted := .broadcastPackageVerbose
  intoFailed := .broadcastPackageVerbose

instance : RequestExt Request.GetTx where
  intoCompleted := .getTx
  intoFailed := .getTx

instance : RequestExt Request.GetTxMerkle where
  intoCompleted := .getTxMerkle
  intoFailed := .getTxMerkle

instance : RequestExt Request.GetTxidFromPos where
  intoCompleted := .getTxidFromPos
  intoFailed := .getTxidFromPos

instance : RequestExt Request.GetFeeHistogram where
  intoCompleted := .getFeeHistogram
  intoFailed := .getFeeHistogram

instance : RequestExt Request.GetMempoolInfo where
  intoCompleted := .getMempoolInfo
  intoFailed := .getMempoolInfo

instance : RequestExt Request.ServerVersion where
  intoCompleted := .serverVersion
  intoFailed := .serverVersion

instance : RequestExt Request.Banner where
  intoCompleted := .banner
  intoFailed := .banner

instance : RequestExt Request.Features where
  intoCompleted := .features
  intoFailed := .features

instance : RequestExt Request.Ping where
  intoCompleted := .ping
  intoFailed := .ping

instance : RequestExt Request.Custom where
  intoCompleted := .custom
  intoFailed := .custom

instance : RequestExt Request.SpSubscribe where
  intoCompleted := .spSubscribe
  intoFailed := .spSubscribe

instance : RequestExt Request.SpUnsubscribe where
  intoCompleted := .spUnsubscribe
  intoFailed := .spUnsubscribe

end ElectrumStreamingClient
