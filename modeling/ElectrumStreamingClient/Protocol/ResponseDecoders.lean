import ElectrumStreamingClient.Foundations.Record
import ElectrumStreamingClient.Protocol.Event
import ElectrumStreamingClient.Protocol.Headers
import ElectrumStreamingClient.Protocol.History

/-!
# Decoders of responses

The decoders derived for the response types of `response.rs`, with those of `custom_serde.rs` that
they call. Each is a `Decoder`, which tells what it ignores of a result.
-/

namespace ElectrumStreamingClient

open Serde

/-- Decode an integer in the range of a `u16`. -/
def asU16 : Value → Except Error UInt16
  | .number n =>
    match n.toInt? with
    | some i =>
      if 0 ≤ i ∧ i < 2 ^ 16 then .ok (UInt16.ofNat i.toNat) else .error (.invalidValue "u16")
    | none => .error (.invalidType "u16")
  | _ => .error (.invalidType "u16")

/-- `amount::serde::as_sat` of a signed amount. -/
def SignedAmount.asSat (v : Value) : Except Error SignedAmount :=
  SignedAmount.mk <$> v.asI64

/-- `Weight::from_vb`. -/
def Weight.fromVb (vb : UInt64) : Option Weight :=
  if vb.toNat * 4 < 2 ^ 64 then some { wu := vb * 4 } else none

namespace CustomSerde

/-- The sign bit is set, as it is for a negative zero. -/
def isSignNegative (x : Float32) : Bool :=
  x.toBits >>> 31 = 1

/-- `feerate_from_btc_per_kb_f32`, whose cast to an integer saturates. -/
def feerateFromBtcPerKbF32 (btcPerKvb : Float32) : Except Error FeeRate :=
  if isSignNegative btcPerKvb then
    .error (.custom "expected non-negative fee rate in BTC/kvB")
  else
    let satPerKwu := btcPerKvb * (100000000.0 / 4.0)
    .ok { satPerKwu := satPerKwu.toUInt64 }

def feerateFromBtcPerKb (v : Value) : Except Error FeeRate := do
  feerateFromBtcPerKbF32 (← asF32 v)

/-- A negative rate is none. -/
def feerateOptFromBtcPerKb (v : Value) : Except Error (Option FeeRate) := do
  let btcPerKvb ← asF32 v
  if isSignNegative btcPerKvb then
    return none
  else
    some <$> feerateFromBtcPerKbF32 btcPerKvb

def feerateFromSatPerByte (v : Value) : Except Error FeeRate := do
  let satPerVb ← asF32 v
  let satPerKwu := satPerVb * (1000.0 / 4.0)
  return { satPerKwu := satPerKwu.toUInt64 }

def weightFromVb (v : Value) : Except Error Weight := do
  let vb ← v.asU64
  match Weight.fromVb vb with
  | some weight => return weight
  | none => .error (.custom "overflow: vb value cannot fit in to WU")

end CustomSerde

/-! ## Headers -/

section Headers

variable [Bitcoin] [HeaderCodec]

/-- Decoding headers does not panic. -/
theorem headersFromHexOrList_ne_panic (v : Value) (panic : RuntimePanic) :
    headersFromHexOrList v ≠ .error panic := by
  intro h
  obtain ⟨result, hresult⟩ := headersFromHexOrList_returns v
  cases h.symm.trans hresult

/-- `headers_from_hex_or_list` as the decoder it is, since it does not panic. -/
def decodeHeaders (v : Value) : Except Error (List Bitcoin.Header) :=
  match h : headersFromHexOrList v with
  | .ok result => result
  | .error panic => absurd h (headersFromHexOrList_ne_panic v panic)

/-- The decoder has the result of the function. -/
theorem decodeHeaders_eq_iff {v : Value} {result : Except Error (List Bitcoin.Header)} :
    decodeHeaders v = result ↔ headersFromHexOrList v = .ok result := by
  rw [decodeHeaders]
  split
  next result' h => rw [h, Except.ok.injEq]
  next panic h => exact absurd h (headersFromHexOrList_ne_panic v panic)

end Headers

/-! ## Response types -/

/-- What else the decoders of responses call of the `bitcoin` crate. -/
class ResponseConversions [Bitcoin] where
  asDoubleSha : Value → Except Error Bitcoin.DoubleSHA
  asBlockHash : Value → Except Error Bitcoin.BlockHash
  /-- `consensus::encode::deserialize_hex` to a transaction. -/
  deserializeHexTransaction : String → Except String Bitcoin.Transaction
  /-- `amount::serde::as_btc`. -/
  asBtc : Value → Except Error Amount

/-- The conversions for types that are their bytes, with amounts of whole coins. -/
@[reducible] def byteConversions : @ResponseConversions byteBitcoin :=
  letI : Bitcoin := byteBitcoin
  { asDoubleSha := fun v => Bytes.reverse <$> Bytes.ofValue 32 v
    asBlockHash := fun v => Bytes.reverse <$> Bytes.ofValue 32 v
    deserializeHexTransaction := fun s =>
      match Hex.decode s.toList with
      | some tx => .ok tx
      | none => .error "invalid transaction"
    asBtc := fun v => do
      let btc ← v.asU32
      return { sat := btc.toUInt64 * 100000000 } }

/-- A type whose decoder tells what it ignores. -/
class Lenient (T : Type) [Deserialize T] where
  decoder : Decoder T
  decode_eq (v : Value) : decoder.decode v = Deserialize.deserialize v

/-- The values differ at most in what decoding them to the type ignores. -/
def Lenient.Alike (T : Type) [Deserialize T] [Lenient T] : Value → Value → Prop :=
  (decoder : Decoder T).Alike

/-- A type whose decoder looks at all of a value. -/
@[reducible] def Lenient.exact (T : Type) [Deserialize T] : Lenient T where
  decoder := .exact Deserialize.deserialize
  decode_eq _ := rfl

instance : Lenient Value := .exact Value

instance : Lenient String := .exact String

instance : Lenient Bool := .exact Bool

instance : Lenient Unit := .exact Unit

instance {T : Type} [Deserialize T] [Lenient T] : Lenient (List T) where
  decoder := .list Lenient.decoder
  decode_eq v := by
    cases v with
    | array vs =>
      show vs.mapM (Lenient.decoder : Decoder T).decode = vs.mapM Deserialize.deserialize
      rw [funext (Lenient.decode_eq (T := T))]
    | _ => rfl

instance {T : Type} [Deserialize T] [Lenient T] : Lenient (Option T) where
  decoder := .nullable Lenient.decoder
  decode_eq v := by
    cases v with
    | null => rfl
    | _ => exact congrArg (some <$> ·) (Lenient.decode_eq _)

def EstimateFeeResp.decoder : Decoder EstimateFeeResp :=
  .map EstimateFeeResp.mk (.exact CustomSerde.feerateOptFromBtcPerKb)

def FeePair.decoder : Decoder FeePair :=
  (Record.of FeePair.mk
    |>.field (.required "fee_rate" (.exact CustomSerde.feerateFromSatPerByte))
    |>.field (.required "weight" (.exact CustomSerde.weightFromVb))).decoder "FeePair"

def MempoolInfoResp.decoder : Decoder MempoolInfoResp :=
  (Record.of MempoolInfoResp.mk
    |>.field (.required "mempoolminfee" (.exact CustomSerde.feerateFromBtcPerKb))
    |>.field (.required "minrelaytxfee" (.exact CustomSerde.feerateFromBtcPerKb))
    |>.field (.required "incrementalrelayfee" (.exact CustomSerde.feerateFromBtcPerKb))).decoder
      "MempoolInfoResp"

def GetBalanceResp.decoder : Decoder GetBalanceResp :=
  (Record.of GetBalanceResp.mk
    |>.field (.required "confirmed" (.exact Amount.asSat))
    |>.field (.required "unconfirmed" (.exact SignedAmount.asSat))).decoder "GetBalanceResp"

/-- Decode a tuple of two strings, which comes as an array only. -/
def ServerVersionResp.deserialize : Value → Except Error ServerVersionResp
  | .array [v₀, v₁] => do
    let serverSoftware ← v₀.asString
    let protocolVersion ← v₁.asString
    return { serverSoftware, protocolVersion }
  | .array vs => .error (.invalidLength vs.length)
  | _ => .error (.invalidType "a tuple of size 2")

def ServerHostValues.decoder : Decoder ServerHostValues :=
  (Record.of ServerHostValues.mk
    |>.field (.optional "ssl_port" (.exact asU16))
    |>.field (.optional "tcp_port" (.exact asU16))).decoder "ServerHostValues"

instance : Deserialize FeePair := ⟨FeePair.decoder.decode⟩

instance : Lenient FeePair := ⟨FeePair.decoder, fun _ => rfl⟩

variable [Bitcoin]

instance : Lenient ElectrumScriptStatus := .exact ElectrumScriptStatus

/-! A struct that a header notification or a history has too is decoded field by field as the
others are. -/

/-- A new best header is decoded as a struct of two fields. -/
theorem HeadersSubscribeResp.deserialize_eq (v : Value) :
    ((Record.of HeadersSubscribeResp.mk
      |>.field (.required "hex" (.exact fromConsensusHex))
      |>.field (.required "height" (.exact Value.asU32))).decoder "HeadersSubscribeResp").decode v =
      Deserialize.deserialize v := by
  cases v with
  | object ms =>
    simp [StructField.ofMembers_required]
    rfl
  | array vs =>
    match vs with
    | [] => rfl
    | [_] => rfl
    | [_, _] =>
      simp [Record.ofElems_field]
      rfl
    | _ :: _ :: _ :: _ => rfl
  | _ => rfl

/-- An unconfirmed transaction is decoded as a struct of three fields. -/
theorem MempoolTx.deserialize_eq (v : Value) :
    ((Record.of MempoolTx.mk
      |>.field (.required "tx_hash" (.exact Bitcoin.asTxid))
      |>.field (.required "fee" (.exact Amount.asSat))
      |>.field (.required "height" (.exact CustomSerde.allInputsConfirmedBoolFromHeight))).decoder
        "MempoolTx").decode v = MempoolTx.deserialize v := by
  cases v with
  | object ms =>
    simp [StructField.ofMembers_required]
    rfl
  | array vs =>
    match vs with
    | [] => rfl
    | [_] => rfl
    | [_, _] => rfl
    | [_, _, _] =>
      simp [Record.ofElems_field]
      rfl
    | _ :: _ :: _ :: _ :: _ => rfl
  | _ => rfl

/-- A confirmed transaction is decoded as a struct of two fields. -/
theorem ConfirmedTx.deserialize_eq (v : Value) :
    ((Record.of ConfirmedTx.mk
      |>.field (.required "tx_hash" (.exact Bitcoin.asTxid))
      |>.field (.required "height" (.exact Height.deserialize))).decoder "ConfirmedTx").decode v =
      ConfirmedTx.deserialize v := by
  cases v with
  | object ms =>
    simp [StructField.ofMembers_required]
    rfl
  | array vs =>
    match vs with
    | [] => rfl
    | [_] => rfl
    | [_, _] =>
      simp [Record.ofElems_field]
      rfl
    | _ :: _ :: _ :: _ => rfl
  | _ => rfl

instance : Lenient HeadersSubscribeResp := ⟨_, HeadersSubscribeResp.deserialize_eq⟩

instance : Lenient MempoolTx := ⟨_, MempoolTx.deserialize_eq⟩

instance : Lenient ConfirmedTx := ⟨_, ConfirmedTx.deserialize_eq⟩

/-- An entry is alike to both of its forms. -/
instance : Lenient Tx where
  decoder := .untagged "Tx" (.map .mempool Lenient.decoder) (.map .confirmed Lenient.decoder)
  decode_eq v := by
    show untagged _ (fun v => _ <$> _) (fun v => _ <$> _) v = _
    simp only [Lenient.decode_eq]
    rfl

def Utxo.decoder : Decoder Utxo :=
  (Record.of Utxo.mk
    |>.field (.required "height" (.exact Height.deserialize))
    |>.field (.required "tx_pos" (.exact Value.asU64))
    |>.field (.required "tx_hash" (.exact Bitcoin.asTxid))
    |>.field (.required "value" (.exact Amount.asSat))).decoder "Utxo"

instance : Deserialize Utxo := ⟨Utxo.decoder.decode⟩

instance : Lenient Utxo := ⟨Utxo.decoder, fun _ => rfl⟩

def BroadcastPackageError.decoder : Decoder BroadcastPackageError :=
  (Record.of BroadcastPackageError.mk
    |>.field (.required "txid" (.exact Bitcoin.asTxid))
    |>.field (.required "error" (.exact Value.asString))).decoder "BroadcastPackageError"

def BroadcastPackageResp.decoder : Decoder BroadcastPackageResp :=
  (Record.of BroadcastPackageResp.mk
    |>.field (.required "success" (.exact Deserialize.deserialize))
    |>.field (.optional "errors" (.list BroadcastPackageError.decoder))).decoder
      "BroadcastPackageResp"

def HeaderResp.decoder : Decoder HeaderResp :=
  .map HeaderResp.mk (.exact fromConsensusHex)

def TxidFromPos.decoder : Decoder TxidFromPos :=
  .map TxidFromPos.mk (.exact Bitcoin.asTxid)

section Conversions

variable [ResponseConversions]

open ResponseConversions

def RelayFeeResp.decoder : Decoder RelayFeeResp :=
  .map RelayFeeResp.mk (.exact asBtc)

def HeaderWithProofResp.decoder : Decoder HeaderWithProofResp :=
  (Record.of HeaderWithProofResp.mk
    |>.field (.required "branch" (.list (.exact asDoubleSha)))
    |>.field (.required "header" (.exact fromConsensusHex))
    |>.field (.required "root" (.exact asDoubleSha))).decoder "HeaderWithProofResp"

/-- `custom_serde::from_consensus_hex` to a transaction. -/
def transactionFromConsensusHex (v : Value) : Except Error Bitcoin.Transaction := do
  let hexStr ← v.asString
  (deserializeHexTransaction hexStr).mapError Error.custom

def FullTx.decoder : Decoder FullTx :=
  .map FullTx.mk (.exact transactionFromConsensusHex)

def TxMerkle.decoder : Decoder TxMerkle :=
  (Record.of TxMerkle.mk
    |>.field (.required "block_height" (.exact Height.deserialize))
    |>.field (.required "merkle" (.list (.exact asDoubleSha)))
    |>.field (.required "pos" (.exact Value.asU64))).decoder "TxMerkle"

def ServerFeatures.decoder : Decoder ServerFeatures :=
  (Record.of ServerFeatures.mk
    |>.field (.required "hosts" (.hashMap ServerHostValues.decoder))
    |>.field (.required "genesis_hash" (.exact asBlockHash))
    |>.field (.required "hash_function" (.exact Value.asString))
    |>.field (.required "server_version" (.exact Value.asString))
    |>.field (.required "protocol_max" (.exact Value.asString))
    |>.field (.required "protocol_min" (.exact Value.asString))
    |>.field (.optional "pruning" (.exact Value.asU32))).decoder "ServerFeatures"

end Conversions

section Headers

variable [HeaderCodec]

/-- The headers under their name or that of the older format, of which there may be only one. -/
def headersField : StructField (List Bitcoin.Header) :=
  (StructField.required "headers" (.exact decodeHeaders)).withAliases ["hex"]

def HeadersResp.decoder : Decoder HeadersResp :=
  (Record.of HeadersResp.mk
    |>.field (.required "count" (.exact Value.asU64))
    |>.field headersField
    |>.field (.required "max" (.exact Value.asU64))).decoder "HeadersResp"

def HeadersWithCheckpointResp.decoder [ResponseConversions] : Decoder HeadersWithCheckpointResp :=
  (Record.of HeadersWithCheckpointResp.mk
    |>.field (.required "count" (.exact Value.asU64))
    |>.field headersField
    |>.field (.required "max" (.exact Value.asU64))
    |>.field (.required "root" (.exact ResponseConversions.asDoubleSha))
    |>.field (.required "branch" (.list (.exact ResponseConversions.asDoubleSha)))).decoder
      "HeadersWithCheckpointResp"

end Headers

/-! ## Responses to the built-in requests

Each response type has a decoder that tells what it ignores. -/

namespace Request

omit [Bitcoin] in
instance : Lenient (Response Custom) := inferInstanceAs (Lenient Value)

omit [Bitcoin] in
instance : Lenient (Response Banner) := inferInstanceAs (Lenient String)

omit [Bitcoin] in
instance : Lenient (Response Ping) := inferInstanceAs (Lenient Unit)

instance : Lenient (Response ScriptHashUnsubscribe) := inferInstanceAs (Lenient Bool)

instance : Lenient (Response BroadcastPackageVerbose) := inferInstanceAs (Lenient Value)

instance : Lenient (Response SpSubscribe) := inferInstanceAs (Lenient String)

instance : Lenient (Response SpUnsubscribe) := inferInstanceAs (Lenient String)

instance : Lenient (Response HeadersSubscribe) := inferInstanceAs (Lenient HeadersSubscribeResp)

instance : Lenient (Response ScriptHashSubscribe) :=
  inferInstanceAs (Lenient (Option ElectrumScriptStatus))

instance : Lenient (Response GetHistory) := inferInstanceAs (Lenient (List Tx))

instance : Lenient (Response GetMempool) := inferInstanceAs (Lenient (List MempoolTx))

omit [Bitcoin] in
instance : Deserialize (Response GetFeeHistogram) := inferInstanceAs (Deserialize (List FeePair))

omit [Bitcoin] in
instance : Lenient (Response GetFeeHistogram) := inferInstanceAs (Lenient (List FeePair))

instance : Deserialize (Response ListUnspent) := inferInstanceAs (Deserialize (List Utxo))

instance : Lenient (Response ListUnspent) := inferInstanceAs (Lenient (List Utxo))

omit [Bitcoin] in
instance : Deserialize (Response ServerVersion) := ⟨ServerVersionResp.deserialize⟩

omit [Bitcoin] in
instance : Lenient (Response ServerVersion) := .exact _

instance : Deserialize (Response BroadcastTx) := ⟨Bitcoin.asTxid⟩

instance : Lenient (Response BroadcastTx) := .exact _

omit [Bitcoin] in
instance : Deserialize (Response EstimateFee) := ⟨EstimateFeeResp.decoder.decode⟩

omit [Bitcoin] in
instance : Lenient (Response EstimateFee) := ⟨EstimateFeeResp.decoder, fun _ => rfl⟩

omit [Bitcoin] in
instance : Deserialize (Response GetMempoolInfo) := ⟨MempoolInfoResp.decoder.decode⟩

omit [Bitcoin] in
instance : Lenient (Response GetMempoolInfo) := ⟨MempoolInfoResp.decoder, fun _ => rfl⟩

instance : Deserialize (Response GetBalance) := ⟨GetBalanceResp.decoder.decode⟩

instance : Lenient (Response GetBalance) := ⟨GetBalanceResp.decoder, fun _ => rfl⟩

instance : Deserialize (Response Header) := ⟨HeaderResp.decoder.decode⟩

instance : Lenient (Response Header) := ⟨HeaderResp.decoder, fun _ => rfl⟩

instance : Deserialize (Response GetTxidFromPos) := ⟨TxidFromPos.decoder.decode⟩

instance : Lenient (Response GetTxidFromPos) := ⟨TxidFromPos.decoder, fun _ => rfl⟩

instance : Deserialize (Response BroadcastPackage) := ⟨BroadcastPackageResp.decoder.decode⟩

instance : Lenient (Response BroadcastPackage) := ⟨BroadcastPackageResp.decoder, fun _ => rfl⟩

section Conversions

variable [ResponseConversions]

instance : Deserialize (Response RelayFee) := ⟨RelayFeeResp.decoder.decode⟩

instance : Lenient (Response RelayFee) := ⟨RelayFeeResp.decoder, fun _ => rfl⟩

instance : Deserialize (Response HeaderWithProof) := ⟨HeaderWithProofResp.decoder.decode⟩

instance : Lenient (Response HeaderWithProof) := ⟨HeaderWithProofResp.decoder, fun _ => rfl⟩

instance : Deserialize (Response GetTx) := ⟨FullTx.decoder.decode⟩

instance : Lenient (Response GetTx) := ⟨FullTx.decoder, fun _ => rfl⟩

instance : Deserialize (Response GetTxMerkle) := ⟨TxMerkle.decoder.decode⟩

instance : Lenient (Response GetTxMerkle) := ⟨TxMerkle.decoder, fun _ => rfl⟩

instance : Deserialize (Response Features) := ⟨ServerFeatures.decoder.decode⟩

instance : Lenient (Response Features) := ⟨ServerFeatures.decoder, fun _ => rfl⟩

end Conversions

variable [HeaderCodec]

instance : Deserialize (Response Headers) := ⟨HeadersResp.decoder.decode⟩

instance : Lenient (Response Headers) := ⟨HeadersResp.decoder, fun _ => rfl⟩

instance [ResponseConversions] : Deserialize (Response HeadersWithCheckpoint) :=
  ⟨HeadersWithCheckpointResp.decoder.decode⟩

instance [ResponseConversions] : Lenient (Response HeadersWithCheckpoint) :=
  ⟨HeadersWithCheckpointResp.decoder, fun _ => rfl⟩

end Request

end ElectrumStreamingClient
