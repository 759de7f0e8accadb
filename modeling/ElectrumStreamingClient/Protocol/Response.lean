import Mathlib.Data.List.AList
import ElectrumStreamingClient.Protocol.Bitcoin

/-!
# Response types

The types of `response.rs` that results decode to. Their decoders are instances of `Deserialize`;
those that no notification needs are not part of this module.
-/

namespace ElectrumStreamingClient

open Serde

/-- A type whose values are decoded from JSON. -/
class Deserialize (T : Type) where
  deserialize : Value → Except Error T

instance : Deserialize Value where
  deserialize := Value.asValue

instance : Deserialize String where
  deserialize := Value.asString

instance : Deserialize UInt32 where
  deserialize := Value.asU32

instance : Deserialize Bool where
  deserialize
    | .bool b => .ok b
    | _ => .error (.invalidType "a boolean")

instance : Deserialize Unit where
  deserialize
    | .null => .ok ()
    | _ => .error (.invalidType "unit")

instance {T : Type} [Deserialize T] : Deserialize (Option T) where
  deserialize
    | .null => .ok none
    | v => some <$> Deserialize.deserialize v

instance {T : Type} [Deserialize T] : Deserialize (List T) where
  deserialize
    | .array vs => vs.mapM Deserialize.deserialize
    | _ => .error (.invalidType "a sequence")

/-- Response to `server.version`. -/
structure ServerVersionResp where
  serverSoftware : String
  protocolVersion : String

/-- Response to `mempool.get_info`. -/
structure MempoolInfoResp where
  mempoolminfee : FeeRate
  minrelaytxfee : FeeRate
  incrementalrelayfee : FeeRate

/-- Response to `blockchain.estimatefee`; no rate if the server has none. -/
structure EstimateFeeResp where
  feeRate : Option FeeRate

/-- Response to `blockchain.relayfee`. -/
structure RelayFeeResp where
  fee : Amount

/-- Response to `blockchain.scripthash.get_balance`. -/
structure GetBalanceResp where
  confirmed : Amount
  unconfirmed : SignedAmount

/-- An entry of the fee histogram. -/
structure FeePair where
  feeRate : FeeRate
  weight : Weight

/-- The ports of a host of the server. -/
structure ServerHostValues where
  sslPort : Option UInt16
  tcpPort : Option UInt16

/-- A silent payments subscription. -/
structure SpSubscribeResp where
  address : String
  labels : List UInt32
  startHeight : UInt32

variable [Bitcoin]

/-- Response to `blockchain.block.header` without a checkpoint. -/
structure HeaderResp where
  header : Bitcoin.Header

/-- Response to `blockchain.block.header` with a checkpoint. -/
structure HeaderWithProofResp where
  branch : List Bitcoin.DoubleSHA
  header : Bitcoin.Header
  root : Bitcoin.DoubleSHA

/-- Response to `blockchain.block.headers` without a checkpoint. -/
structure HeadersResp where
  count : Usize
  headers : List Bitcoin.Header
  max : Usize

/-- Response to `blockchain.block.headers` with a checkpoint. -/
structure HeadersWithCheckpointResp where
  count : Usize
  headers : List Bitcoin.Header
  max : Usize
  root : Bitcoin.DoubleSHA
  branch : List Bitcoin.DoubleSHA

/-- Response to `blockchain.headers.subscribe`. -/
structure HeadersSubscribeResp where
  header : Bitcoin.Header
  height : UInt32

/-- An unconfirmed transaction. -/
structure MempoolTx where
  txid : Bitcoin.Txid
  fee : Amount
  /-- All its inputs are confirmed. -/
  confirmedInputs : Bool

/-- A confirmed transaction. -/
structure ConfirmedTx where
  txid : Bitcoin.Txid
  height : Height

/-- An entry of a history. -/
inductive Tx where
  | mempool (tx : MempoolTx)
  | confirmed (tx : ConfirmedTx)

/-- An unspent output. -/
structure Utxo where
  height : Height
  txPos : Usize
  txid : Bitcoin.Txid
  value : Amount

/-- Response to `blockchain.transaction.get`. -/
structure FullTx where
  tx : Bitcoin.Transaction

/-- Response to `blockchain.transaction.get_merkle`. -/
structure TxMerkle where
  blockHeight : Height
  merkle : List Bitcoin.DoubleSHA
  pos : Usize

/-- Response to `blockchain.transaction.id_from_pos`. -/
structure TxidFromPos where
  txid : Bitcoin.Txid

/-- A transaction of a package that was rejected. -/
structure BroadcastPackageError where
  txid : Bitcoin.Txid
  error : String

/-- Response to `blockchain.transaction.broadcast_package`. -/
structure BroadcastPackageResp where
  success : Bool
  errors : Option (List BroadcastPackageError)

/-- Response to `server.features`. -/
structure ServerFeatures where
  hosts : AList fun _ : String => ServerHostValues
  genesisHash : Bitcoin.BlockHash
  hashFunction : String
  serverVersion : String
  protocolMax : String
  protocolMin : String
  pruning : Option UInt32

/-- A transaction found by a silent payments scan. -/
structure TxTweak where
  height : UInt32
  txHash : Bitcoin.Txid
  tweakKey : Bitcoin.PublicKey

/-! ## Decoders of what notifications carry -/

/-- Decode a number as an `f32`, to the nearest one. -/
def asF32 : Value → Except Error Float32
  | .number (.posInt n) => .ok n.toFloat32
  | .number (.negInt n) => .ok n.toFloat32
  | .number (.float bits) => .ok (Float.ofBits bits).toFloat32
  | _ => .error (.invalidType "f32")

/-- `custom_serde::from_consensus_hex` to a header. -/
def fromConsensusHex (v : Value) : Except Error Bitcoin.Header := do
  let hexStr ← v.asString
  (Bitcoin.deserializeHexHeader hexStr).mapError Error.custom

instance : Deserialize ElectrumScriptHash where
  deserialize v := ElectrumScriptHash.mk <$> Bitcoin.asScriptHash v

instance : Deserialize ElectrumScriptStatus where
  deserialize v := ElectrumScriptStatus.mk <$> Bitcoin.asScriptStatus v

instance : Deserialize HeadersSubscribeResp where
  deserialize
    | .object ms => do
      let header ← field "hex" fromConsensusHex ms
      let height ← field "height" Value.asU32 ms
      return { header, height }
    | .array [v₀, v₁] => do
      let header ← fromConsensusHex v₀
      let height ← v₁.asU32
      return { header, height }
    | .array vs => .error (.invalidLength vs.length)
    | _ => .error (.invalidType "struct HeadersSubscribeResp")

omit [Bitcoin] in
instance : Deserialize SpSubscribeResp where
  deserialize
    | .object ms => do
      let address ← field "address" Value.asString ms
      let labels ← field "labels" Deserialize.deserialize ms
      let startHeight ← field "start_height" Value.asU32 ms
      return { address, labels, startHeight }
    | .array [v₀, v₁, v₂] => do
      let address ← v₀.asString
      let labels ← Deserialize.deserialize v₁
      let startHeight ← v₂.asU32
      return { address, labels, startHeight }
    | .array vs => .error (.invalidLength vs.length)
    | _ => .error (.invalidType "struct SpSubscribeResp")

instance : Deserialize TxTweak where
  deserialize
    | .object ms => do
      let height ← field "height" Value.asU32 ms
      let txHash ← field "tx_hash" Bitcoin.asTxid ms
      let tweakKey ← field "tweak_key" Bitcoin.asPublicKey ms
      return { height, txHash, tweakKey }
    | .array [v₀, v₁, v₂] => do
      let height ← v₀.asU32
      let txHash ← Bitcoin.asTxid v₁
      let tweakKey ← Bitcoin.asPublicKey v₂
      return { height, txHash, tweakKey }
    | .array vs => .error (.invalidLength vs.length)
    | _ => .error (.invalidType "struct TxTweak")

end ElectrumStreamingClient
