import ElectrumStreamingClient.Protocol.Messages
import ElectrumStreamingClient.Protocol.Response

/-!
# Request types

The requests of `request.rs`. Each request type has its method and parameters, and the type its
successful responses decode to.
-/

namespace ElectrumStreamingClient

open Serde

/-- A typed request. -/
class Request (Req : Type) where
  /-- The expected response to a successful request. -/
  Response : Type
  /-- The method name and parameters of the request. -/
  toMethodAndParams : Req → MethodAndParams

/-- The raw request of a typed one under a given id. -/
def RawRequest.fromRequest {Req : Type} [Request Req] (id : UInt32) (req : Req) : RawRequest :=
  let (method, params) := Request.toMethodAndParams req
  RawRequest.new id method params

/-- The JSON number of a `u32`. -/
def ofU32 (n : UInt32) : Value := .number (.posInt n.toUInt64)

/-- The JSON number of a `usize`. -/
def ofUsize (n : Usize) : Value := .number (.posInt n)

namespace Request

/-- A request with any method and parameters. -/
structure Custom where
  method : CowStr
  params : List Value

instance : Request Custom where
  Response := Value
  toMethodAndParams req := (req.method, req.params)

/-- The header at a height. -/
structure Header where
  height : UInt32

/-- The header at a height, with a proof up to a checkpoint. -/
structure HeaderWithProof where
  height : UInt32
  cpHeight : UInt32

/-- Consecutive headers from a height on. -/
structure Headers where
  startHeight : UInt32
  count : Usize

/-- Consecutive headers from a height on, with a proof up to a checkpoint. -/
structure HeadersWithCheckpoint where
  startHeight : UInt32
  count : Usize
  cpHeight : UInt32

/-- How the server is to estimate a fee. -/
inductive EstimateFeeMode where
  | conservative
  | economical

/-- The mode as the server spells it. -/
def EstimateFeeMode.asStr : EstimateFeeMode → String
  | .conservative => "CONSERVATIVE"
  | .economical => "ECONOMICAL"

/-- The fee rate for confirmation within some number of blocks. -/
structure EstimateFee where
  /-- The number of blocks to confirm in. -/
  number : Usize
  mode : Option EstimateFeeMode

instance : Request EstimateFee where
  Response := EstimateFeeResp
  toMethodAndParams req :=
    ("blockchain.estimatefee",
      ofUsize req.number :: req.mode.toList.map fun mode => .string mode.asStr)

/-- Notifications of new best headers. -/
structure HeadersSubscribe where

/-- The lowest fee rate the server relays. -/
structure RelayFee where

instance : Request RelayFee where
  Response := RelayFeeResp
  toMethodAndParams _ := ("blockchain.relayfee", [])

/-- The fee rates in the mempool. -/
structure GetFeeHistogram where

instance : Request GetFeeHistogram where
  Response := List FeePair
  toMethodAndParams _ := ("mempool.get_fee_histogram", [])

/-- The fee rates the mempool accepts. -/
structure GetMempoolInfo where

instance : Request GetMempoolInfo where
  Response := MempoolInfoResp
  toMethodAndParams _ := ("mempool.get_info", [])

/-- The protocol versions a client supports. -/
inductive SupportedVersion where
  | exact (version : CowStr)
  | range (min max : CowStr)

/-- A version is a string, a range an array of two. -/
def SupportedVersion.toValue : SupportedVersion → Value
  | .exact version => .string version
  | .range min max => .array [.string min, .string max]

/-- The version of the server and of the protocol. -/
structure ServerVersion where
  clientName : CowStr
  protocolVersion : SupportedVersion

instance : Request ServerVersion where
  Response := ServerVersionResp
  toMethodAndParams req :=
    ("server.version", [.string req.clientName, req.protocolVersion.toValue])

/-- The banner of the server. -/
structure Banner where

instance : Request Banner where
  Response := String
  toMethodAndParams _ := ("server.banner", [])

/-- The features of the server. -/
structure Features where

/-- Keep the connection alive. -/
structure Ping where

instance : Request Ping where
  Response := Unit
  toMethodAndParams _ := ("server.ping", [])

variable [Bitcoin]

instance : Request Header where
  Response := HeaderResp
  toMethodAndParams req := ("blockchain.block.header", [ofU32 req.height])

instance : Request HeaderWithProof where
  Response := HeaderWithProofResp
  toMethodAndParams req :=
    ("blockchain.block.header", [ofU32 req.height, ofU32 req.cpHeight])

instance : Request Headers where
  Response := HeadersResp
  toMethodAndParams req :=
    ("blockchain.block.headers", [ofU32 req.startHeight, ofUsize req.count])

instance : Request HeadersWithCheckpoint where
  Response := HeadersWithCheckpointResp
  toMethodAndParams req :=
    ("blockchain.block.headers",
      [ofU32 req.startHeight, ofUsize req.count, ofU32 req.cpHeight])

instance : Request HeadersSubscribe where
  Response := HeadersSubscribeResp
  toMethodAndParams _ := ("blockchain.headers.subscribe", [])

instance : Request Features where
  Response := ServerFeatures
  toMethodAndParams _ := ("server.features", [])

/-! ## Requests about a script -/

/-- The JSON string of a script hash. -/
def ofScriptHash (scriptHash : ElectrumScriptHash) : Value :=
  .string (Bitcoin.scriptHashToString scriptHash.hash)

/-- The balance of a script. -/
structure GetBalance where
  scriptHash : ElectrumScriptHash

instance : Request GetBalance where
  Response := GetBalanceResp
  toMethodAndParams req := ("blockchain.scripthash.get_balance", [ofScriptHash req.scriptHash])

/-- The history of a script. -/
structure GetHistory where
  scriptHash : ElectrumScriptHash

instance : Request GetHistory where
  Response := List Tx
  toMethodAndParams req := ("blockchain.scripthash.get_history", [ofScriptHash req.scriptHash])

/-- The unconfirmed history of a script. -/
structure GetMempool where
  scriptHash : ElectrumScriptHash

instance : Request GetMempool where
  Response := List MempoolTx
  toMethodAndParams req := ("blockchain.scripthash.get_mempool", [ofScriptHash req.scriptHash])

/-- The unspent outputs of a script. -/
structure ListUnspent where
  scriptHash : ElectrumScriptHash

instance : Request ListUnspent where
  Response := List Utxo
  toMethodAndParams req := ("blockchain.scripthash.listunspent", [ofScriptHash req.scriptHash])

/-- Notifications of changes of the status of a script. -/
structure ScriptHashSubscribe where
  scriptHash : ElectrumScriptHash

instance : Request ScriptHashSubscribe where
  Response := Option ElectrumScriptStatus
  toMethodAndParams req := ("blockchain.scripthash.subscribe", [ofScriptHash req.scriptHash])

/-- No further notifications about a script. -/
structure ScriptHashUnsubscribe where
  scriptHash : ElectrumScriptHash

instance : Request ScriptHashUnsubscribe where
  Response := Bool
  toMethodAndParams req := ("blockchain.scripthash.unsubscribe", [ofScriptHash req.scriptHash])

/-! ## Requests about transactions -/

/-- Broadcast a transaction. -/
structure BroadcastTx where
  tx : Bitcoin.Transaction

instance : Request BroadcastTx where
  Response := Bitcoin.Txid
  toMethodAndParams req :=
    ("blockchain.transaction.broadcast", [.string (Bitcoin.serializeHex req.tx)])

/-- The JSON array of the transactions of a package. -/
def ofPackage (txs : List Bitcoin.Transaction) : Value :=
  .array (txs.map fun tx => .string (Bitcoin.serializeHex tx))

/-- Broadcast a package of transactions. -/
structure BroadcastPackage where
  txs : List Bitcoin.Transaction

instance : Request BroadcastPackage where
  Response := BroadcastPackageResp
  toMethodAndParams req := ("blockchain.transaction.broadcast_package", [ofPackage req.txs])

/-- Broadcast a package of transactions and get a verbose answer. -/
structure BroadcastPackageVerbose where
  txs : List Bitcoin.Transaction

instance : Request BroadcastPackageVerbose where
  Response := Value
  toMethodAndParams req :=
    ("blockchain.transaction.broadcast_package", [ofPackage req.txs, .bool true])

/-- A transaction by its id. -/
structure GetTx where
  txid : Bitcoin.Txid

instance : Request GetTx where
  Response := FullTx
  toMethodAndParams req :=
    ("blockchain.transaction.get", [.string (Bitcoin.txidToString req.txid)])

/-- The Merkle proof of a transaction. -/
structure GetTxMerkle where
  txid : Bitcoin.Txid
  height : UInt32

instance : Request GetTxMerkle where
  Response := TxMerkle
  toMethodAndParams req :=
    ("blockchain.transaction.get_merkle",
      [.string (Bitcoin.txidToString req.txid), ofU32 req.height])

/-- The transaction id at a position of a block. -/
structure GetTxidFromPos where
  height : UInt32
  txPos : Usize

instance : Request GetTxidFromPos where
  Response := TxidFromPos
  toMethodAndParams req :=
    ("blockchain.transaction.id_from_pos", [ofU32 req.height, ofUsize req.txPos])

/-! ## Silent payments -/

/-- Notifications about silent payments. -/
structure SpSubscribe where
  scanPrivKey : Bitcoin.SecretKey
  spendPubKey : Bitcoin.PublicKey
  startHeight : Option UInt32
  labels : Option (List UInt32)

/-- The optional arguments are positional: a missing height before labels is sent as `null`. -/
def SpSubscribe.optionalParams (req : SpSubscribe) : List Value :=
  match req.startHeight, req.labels with
  | some startHeight, some labels => [ofU32 startHeight, .array (labels.map ofU32)]
  | some startHeight, none => [ofU32 startHeight]
  | none, some labels => [.null, .array (labels.map ofU32)]
  | none, none => []

instance : Request SpSubscribe where
  Response := String
  toMethodAndParams req :=
    ("blockchain.silentpayments.subscribe",
      [Bitcoin.secretKeyValue req.scanPrivKey, Bitcoin.publicKeyValue req.spendPubKey] ++
        req.optionalParams)

/-- No further notifications about silent payments. -/
structure SpUnsubscribe where
  scanPrivKey : Bitcoin.SecretKey
  spendPubKey : Bitcoin.PublicKey

instance : Request SpUnsubscribe where
  Response := String
  toMethodAndParams req :=
    ("blockchain.silentpayments.unsubscribe",
      [Bitcoin.secretKeyValue req.scanPrivKey, Bitcoin.publicKeyValue req.spendPubKey])

/-! ## Decoders of responses -/

omit [Bitcoin] in
instance : Deserialize (Response Custom) := inferInstanceAs (Deserialize Value)

omit [Bitcoin] in
instance : Deserialize (Response Banner) := inferInstanceAs (Deserialize String)

omit [Bitcoin] in
instance : Deserialize (Response Ping) := inferInstanceAs (Deserialize Unit)

instance : Deserialize (Response HeadersSubscribe) :=
  inferInstanceAs (Deserialize HeadersSubscribeResp)

instance : Deserialize (Response ScriptHashSubscribe) :=
  inferInstanceAs (Deserialize (Option ElectrumScriptStatus))

instance : Deserialize (Response ScriptHashUnsubscribe) := inferInstanceAs (Deserialize Bool)

instance : Deserialize (Response BroadcastPackageVerbose) := inferInstanceAs (Deserialize Value)

instance : Deserialize (Response SpSubscribe) := inferInstanceAs (Deserialize String)

instance : Deserialize (Response SpUnsubscribe) := inferInstanceAs (Deserialize String)

end Request

end ElectrumStreamingClient
