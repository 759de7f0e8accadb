import Mathlib.Logic.Function.Basic
import ElectrumStreamingClient.Protocol.Hashes
import ElectrumStreamingClient.Protocol.Request

/-!
# The encoding of requests

All built-in requests but the custom ones, and what a server can tell of a request from its method
and parameters: everything. The requests that share a method differ in the number of parameters, and
a height that is left out before labels is sent as `null`. `readRequest` is such a reading by the
server, a left inverse of the encoding.
-/

namespace ElectrumStreamingClient

open Serde Request

variable [Bitcoin]

/-- A request of one of the built-in types, without the custom ones. -/
inductive BuiltinRequest where
  | header (req : Request.Header)
  | headerWithProof (req : HeaderWithProof)
  | headers (req : Headers)
  | headersWithCheckpoint (req : HeadersWithCheckpoint)
  | estimateFee (req : EstimateFee)
  | headersSubscribe (req : HeadersSubscribe)
  | relayFee (req : RelayFee)
  | getBalance (req : GetBalance)
  | getHistory (req : GetHistory)
  | getMempool (req : GetMempool)
  | listUnspent (req : ListUnspent)
  | scriptHashSubscribe (req : ScriptHashSubscribe)
  | scriptHashUnsubscribe (req : ScriptHashUnsubscribe)
  | broadcastTx (req : BroadcastTx)
  | broadcastPackage (req : BroadcastPackage)
  | broadcastPackageVerbose (req : BroadcastPackageVerbose)
  | getTx (req : GetTx)
  | getTxMerkle (req : GetTxMerkle)
  | getTxidFromPos (req : GetTxidFromPos)
  | getFeeHistogram (req : GetFeeHistogram)
  | getMempoolInfo (req : GetMempoolInfo)
  | serverVersion (req : ServerVersion)
  | banner (req : Banner)
  | features (req : Features)
  | ping (req : Ping)
  | spSubscribe (req : SpSubscribe)
  | spUnsubscribe (req : SpUnsubscribe)

namespace BuiltinRequest

/-- The method and parameters of the request. -/
def toMethodAndParams : BuiltinRequest → MethodAndParams
  | header req => Request.toMethodAndParams req
  | headerWithProof req => Request.toMethodAndParams req
  | headers req => Request.toMethodAndParams req
  | headersWithCheckpoint req => Request.toMethodAndParams req
  | estimateFee req => Request.toMethodAndParams req
  | headersSubscribe req => Request.toMethodAndParams req
  | relayFee req => Request.toMethodAndParams req
  | getBalance req => Request.toMethodAndParams req
  | getHistory req => Request.toMethodAndParams req
  | getMempool req => Request.toMethodAndParams req
  | listUnspent req => Request.toMethodAndParams req
  | scriptHashSubscribe req => Request.toMethodAndParams req
  | scriptHashUnsubscribe req => Request.toMethodAndParams req
  | broadcastTx req => Request.toMethodAndParams req
  | broadcastPackage req => Request.toMethodAndParams req
  | broadcastPackageVerbose req => Request.toMethodAndParams req
  | getTx req => Request.toMethodAndParams req
  | getTxMerkle req => Request.toMethodAndParams req
  | getTxidFromPos req => Request.toMethodAndParams req
  | getFeeHistogram req => Request.toMethodAndParams req
  | getMempoolInfo req => Request.toMethodAndParams req
  | serverVersion req => Request.toMethodAndParams req
  | banner req => Request.toMethodAndParams req
  | features req => Request.toMethodAndParams req
  | ping req => Request.toMethodAndParams req
  | spSubscribe req => Request.toMethodAndParams req
  | spUnsubscribe req => Request.toMethodAndParams req

end BuiltinRequest

/-- The texts and JSON values of hashes, keys and transactions tell them apart. -/
class LawfulEncodings : Prop where
  serializeHex_injective : Function.Injective (Bitcoin.serializeHex : Bitcoin.Transaction → String)
  txidToString_injective : Function.Injective (Bitcoin.txidToString : Bitcoin.Txid → String)
  scriptHashToString_injective :
    Function.Injective (Bitcoin.scriptHashToString : Bitcoin.Sha256 → String)
  secretKeyValue_injective : Function.Injective (Bitcoin.secretKeyValue : Bitcoin.SecretKey → Value)
  publicKeyValue_injective : Function.Injective (Bitcoin.publicKeyValue : Bitcoin.PublicKey → Value)

/-! ## Reading parameters -/

omit [Bitcoin] in
def readU32 : Value → Option UInt32
  | .number (.posInt n) => some n.toUInt32
  | _ => none

def readUsize : Value → Option Usize
  | .number (.posInt n) => some n
  | _ => none

def readString : Value → Option String
  | .string s => some s
  | _ => none

/-- Read an array of values. -/
def readArray {α : Type} (read : Value → Option α) : Value → Option (List α)
  | .array vs => vs.mapM read
  | _ => none

noncomputable def readScriptHash (v : Value) : Option ElectrumScriptHash := do
  let s ← readString v
  let hash ← Function.partialInv Bitcoin.scriptHashToString s
  return { hash }

noncomputable def readTxid (v : Value) : Option Bitcoin.Txid := do
  let s ← readString v
  Function.partialInv Bitcoin.txidToString s

noncomputable def readTx (v : Value) : Option Bitcoin.Transaction := do
  let s ← readString v
  Function.partialInv Bitcoin.serializeHex s

noncomputable def readSecretKey : Value → Option Bitcoin.SecretKey :=
  Function.partialInv Bitcoin.secretKeyValue

noncomputable def readPublicKey : Value → Option Bitcoin.PublicKey :=
  Function.partialInv Bitcoin.publicKeyValue

/-! ## Values that were sent are read back -/

section ReadBack

omit [Bitcoin] in
@[simp] theorem readU32_ofU32 (n : UInt32) : readU32 (ofU32 n) = some n := by
  simp [readU32, ofU32]

omit [Bitcoin] in
@[simp] theorem readUsize_ofUsize (n : Usize) : readUsize (ofUsize n) = some n := rfl

omit [Bitcoin] in
@[simp] theorem readString_string (s : String) : readString (.string s) = some s := rfl

omit [Bitcoin] in
/-- An array is read back if its elements are. -/
theorem readArray_map {α : Type} {read : Value → Option α} {write : α → Value}
    (h : ∀ a, read (write a) = some a) (as : List α) :
    readArray read (.array (as.map write)) = some as := by
  rw [readArray]
  induction as with
  | nil => rfl
  | cons a as ih => simp [h, ih]

variable [LawfulEncodings]

open LawfulEncodings

@[simp] theorem readScriptHash_ofScriptHash (scriptHash : ElectrumScriptHash) :
    readScriptHash (ofScriptHash scriptHash) = some scriptHash := by
  simp [readScriptHash, ofScriptHash, Function.partialInv_left scriptHashToString_injective]

@[simp] theorem readTxid_string (txid : Bitcoin.Txid) :
    readTxid (.string (Bitcoin.txidToString txid)) = some txid := by
  simp [readTxid, Function.partialInv_left txidToString_injective]

@[simp] theorem readTx_string (tx : Bitcoin.Transaction) :
    readTx (.string (Bitcoin.serializeHex tx)) = some tx := by
  simp [readTx, Function.partialInv_left serializeHex_injective]

@[simp] theorem readArray_ofPackage (txs : List Bitcoin.Transaction) :
    readArray readTx (ofPackage txs) = some txs :=
  readArray_map readTx_string txs

@[simp] theorem readSecretKey_value (key : Bitcoin.SecretKey) :
    readSecretKey (Bitcoin.secretKeyValue key) = some key :=
  Function.partialInv_left secretKeyValue_injective key

@[simp] theorem readPublicKey_value (key : Bitcoin.PublicKey) :
    readPublicKey (Bitcoin.publicKeyValue key) = some key :=
  Function.partialInv_left publicKeyValue_injective key

end ReadBack

/-! ## Reading requests -/

/-- A request without parameters. -/
def readNothing (req : BuiltinRequest) : List Value → Option BuiltinRequest
  | [] => some req
  | _ => none

/-- A request about a script. -/
noncomputable def readScript (req : ElectrumScriptHash → BuiltinRequest) :
    List Value → Option BuiltinRequest
  | [v] => req <$> readScriptHash v
  | _ => none

/-- One header: with a second parameter, there is a proof up to it. -/
def readHeader : List Value → Option BuiltinRequest
  | [v] => do
    let height ← readU32 v
    return .header { height }
  | [v₀, v₁] => do
    let height ← readU32 v₀
    let cpHeight ← readU32 v₁
    return .headerWithProof { height, cpHeight }
  | _ => none

/-- Several headers: with a third parameter, there is a proof up to it. -/
def readHeaderList : List Value → Option BuiltinRequest
  | [v₀, v₁] => do
    let startHeight ← readU32 v₀
    let count ← readUsize v₁
    return .headers { startHeight, count }
  | [v₀, v₁, v₂] => do
    let startHeight ← readU32 v₀
    let count ← readUsize v₁
    let cpHeight ← readU32 v₂
    return .headersWithCheckpoint { startHeight, count, cpHeight }
  | _ => none

def readEstimateFeeMode : Value → Option EstimateFeeMode
  | .string "CONSERVATIVE" => some .conservative
  | .string "ECONOMICAL" => some .economical
  | _ => none

def readEstimateFee : List Value → Option BuiltinRequest
  | [v] => do
    let number ← readUsize v
    return .estimateFee { number, mode := none }
  | [v₀, v₁] => do
    let number ← readUsize v₀
    let mode ← readEstimateFeeMode v₁
    return .estimateFee { number, mode := some mode }
  | _ => none

noncomputable def readBroadcastTx : List Value → Option BuiltinRequest
  | [v] => do
    let tx ← readTx v
    return .broadcastTx { tx }
  | _ => none

/-- A package: with a second parameter, the answer is verbose. -/
noncomputable def readBroadcastPackage : List Value → Option BuiltinRequest
  | [v] => do
    let txs ← readArray readTx v
    return .broadcastPackage { txs }
  | [v, .bool true] => do
    let txs ← readArray readTx v
    return .broadcastPackageVerbose { txs }
  | _ => none

noncomputable def readGetTx : List Value → Option BuiltinRequest
  | [v] => do
    let txid ← readTxid v
    return .getTx { txid }
  | _ => none

noncomputable def readGetTxMerkle : List Value → Option BuiltinRequest
  | [v₀, v₁] => do
    let txid ← readTxid v₀
    let height ← readU32 v₁
    return .getTxMerkle { txid, height }
  | _ => none

def readGetTxidFromPos : List Value → Option BuiltinRequest
  | [v₀, v₁] => do
    let height ← readU32 v₀
    let txPos ← readUsize v₁
    return .getTxidFromPos { height, txPos }
  | _ => none

def readSupportedVersion : Value → Option SupportedVersion
  | .string version => some (.exact version)
  | .array [.string min, .string max] => some (.range min max)
  | _ => none

def readServerVersion : List Value → Option BuiltinRequest
  | [v₀, v₁] => do
    let clientName ← readString v₀
    let protocolVersion ← readSupportedVersion v₁
    return .serverVersion { clientName, protocolVersion }
  | _ => none

/-- The optional arguments of a subscription: `null` stands for a height that was left out. -/
def readOptionalParams : List Value → Option (Option UInt32 × Option (List UInt32))
  | [] => some (none, none)
  | [v] => do
    let startHeight ← readU32 v
    return (some startHeight, none)
  -- the placeholder for a height before labels
  | [.null, v] => do
    let labels ← readArray readU32 v
    return (none, some labels)
  | [v₀, v₁] => do
    let startHeight ← readU32 v₀
    let labels ← readArray readU32 v₁
    return (some startHeight, some labels)
  | _ => none

noncomputable def readSpSubscribe : List Value → Option BuiltinRequest
  | v₀ :: v₁ :: vs => do
    let scanPrivKey ← readSecretKey v₀
    let spendPubKey ← readPublicKey v₁
    let (startHeight, labels) ← readOptionalParams vs
    return .spSubscribe { scanPrivKey, spendPubKey, startHeight, labels }
  | _ => none

noncomputable def readSpUnsubscribe : List Value → Option BuiltinRequest
  | [v₀, v₁] => do
    let scanPrivKey ← readSecretKey v₀
    let spendPubKey ← readPublicKey v₁
    return .spUnsubscribe { scanPrivKey, spendPubKey }
  | _ => none

/-- The methods, and how the parameters of each are read. -/
noncomputable def readers : List (String × (List Value → Option BuiltinRequest)) :=
  [("blockchain.block.header", readHeader),
    ("blockchain.block.headers", readHeaderList),
    ("blockchain.estimatefee", readEstimateFee),
    ("blockchain.headers.subscribe", readNothing (.headersSubscribe {})),
    ("blockchain.relayfee", readNothing (.relayFee {})),
    ("blockchain.scripthash.get_balance", readScript fun h => .getBalance { scriptHash := h }),
    ("blockchain.scripthash.get_history", readScript fun h => .getHistory { scriptHash := h }),
    ("blockchain.scripthash.get_mempool", readScript fun h => .getMempool { scriptHash := h }),
    ("blockchain.scripthash.listunspent", readScript fun h => .listUnspent { scriptHash := h }),
    ("blockchain.scripthash.subscribe",
      readScript fun h => .scriptHashSubscribe { scriptHash := h }),
    ("blockchain.scripthash.unsubscribe",
      readScript fun h => .scriptHashUnsubscribe { scriptHash := h }),
    ("blockchain.transaction.broadcast", readBroadcastTx),
    ("blockchain.transaction.broadcast_package", readBroadcastPackage),
    ("blockchain.transaction.get", readGetTx),
    ("blockchain.transaction.get_merkle", readGetTxMerkle),
    ("blockchain.transaction.id_from_pos", readGetTxidFromPos),
    ("mempool.get_fee_histogram", readNothing (.getFeeHistogram {})),
    ("mempool.get_info", readNothing (.getMempoolInfo {})),
    ("server.version", readServerVersion),
    ("server.banner", readNothing (.banner {})),
    ("server.features", readNothing (.features {})),
    ("server.ping", readNothing (.ping {})),
    ("blockchain.silentpayments.subscribe", readSpSubscribe),
    ("blockchain.silentpayments.unsubscribe", readSpUnsubscribe)]

/-- Read a request from its method and parameters. -/
noncomputable def readRequest (message : MethodAndParams) : Option BuiltinRequest := do
  let read ← readers.lookup message.1
  read message.2

/-! ## Requests are read back -/

variable [LawfulEncodings]

omit [Bitcoin] [LawfulEncodings] in
/-- The mode of an estimate is read back. -/
theorem readEstimateFeeMode_asStr (mode : EstimateFeeMode) :
    readEstimateFeeMode (.string mode.asStr) = some mode := by
  cases mode <;> rfl

omit [Bitcoin] [LawfulEncodings] in
/-- The supported versions are read back. -/
theorem readSupportedVersion_toValue (version : SupportedVersion) :
    readSupportedVersion version.toValue = some version := by
  cases version <;> rfl

omit [LawfulEncodings] in
/-- The optional parameters are read back, those that are left out as well. -/
theorem readOptionalParams_optionalParams (req : SpSubscribe) :
    readOptionalParams req.optionalParams = some (req.startHeight, req.labels) := by
  obtain ⟨scanPrivKey, spendPubKey, startHeight, labels⟩ := req
  cases startHeight with
  | none =>
    cases labels with
    | none => rfl
    | some labels =>
      simp [SpSubscribe.optionalParams, readOptionalParams, readArray_map readU32_ofU32]
  | some startHeight =>
    have hheight := readU32_ofU32 startHeight
    cases labels with
    | none => simp [SpSubscribe.optionalParams, readOptionalParams]
    | some labels =>
      -- a height is a number, so it is not taken for one that was left out
      have hlabels := readArray_map readU32_ofU32 labels
      show (do
        let startHeight ← readU32 (ofU32 startHeight)
        let labels ← readArray readU32 (.array (labels.map ofU32))
        return (some startHeight, some labels)) = _
      rw [hheight, hlabels]
      rfl

omit [LawfulEncodings] in
/-- The reader of a method reads its parameters. -/
theorem readRequest_of_lookup {method : String} {read : List Value → Option BuiltinRequest}
    (h : readers.lookup method = some read) (params : List Value) :
    readRequest (method, params) = read params := by
  rw [readRequest, h]
  rfl

/-- A server can read back every request. -/
theorem readRequest_toMethodAndParams (req : BuiltinRequest) :
    readRequest req.toMethodAndParams = some req := by
  -- for each type: the reader under its method, and what that makes of its parameters
  cases req with
  | header req =>
    apply (readRequest_of_lookup rfl _).trans
    simp [readHeader]
  | headerWithProof req =>
    apply (readRequest_of_lookup rfl _).trans
    simp [readHeader]
  | headers req =>
    apply (readRequest_of_lookup rfl _).trans
    simp [readHeaderList]
  | headersWithCheckpoint req =>
    apply (readRequest_of_lookup rfl _).trans
    simp [readHeaderList]
  | estimateFee req =>
    apply (readRequest_of_lookup rfl _).trans
    -- a mode that is not given is not sent
    obtain ⟨number, _ | mode⟩ := req
    · simp [readEstimateFee]
    · simp [readEstimateFee, readEstimateFeeMode_asStr]
  | broadcastTx req =>
    apply (readRequest_of_lookup rfl _).trans
    simp [readBroadcastTx]
  | broadcastPackage req =>
    apply (readRequest_of_lookup rfl _).trans
    simp [readBroadcastPackage]
  | broadcastPackageVerbose req =>
    apply (readRequest_of_lookup rfl _).trans
    simp [readBroadcastPackage]
  | getTx req =>
    apply (readRequest_of_lookup rfl _).trans
    simp [readGetTx]
  | getTxMerkle req =>
    apply (readRequest_of_lookup rfl _).trans
    simp [readGetTxMerkle]
  | getTxidFromPos req =>
    apply (readRequest_of_lookup rfl _).trans
    simp [readGetTxidFromPos]
  | serverVersion req =>
    apply (readRequest_of_lookup rfl _).trans
    simp [readServerVersion, readSupportedVersion_toValue]
  | spSubscribe req =>
    apply (readRequest_of_lookup rfl _).trans
    simp [readSpSubscribe, readOptionalParams_optionalParams]
  | spUnsubscribe req =>
    apply (readRequest_of_lookup rfl _).trans
    simp [readSpUnsubscribe]
  | getBalance req | getHistory req | getMempool req | listUnspent req | scriptHashSubscribe req
  | scriptHashUnsubscribe req =>
    apply (readRequest_of_lookup rfl _).trans
    simp [readScript]
  | headersSubscribe req | relayFee req | getFeeHistogram req | getMempoolInfo req | banner req
  | features req | ping req =>
    exact (readRequest_of_lookup rfl _).trans rfl

/-- A method and parameters are those of one request of one type. -/
theorem toMethodAndParams_injective :
    Function.Injective (BuiltinRequest.toMethodAndParams : BuiltinRequest → MethodAndParams) := by
  intro req req' h
  have hread := readRequest_toMethodAndParams req
  rw [h, readRequest_toMethodAndParams] at hread
  exact (Option.some.inj hread).symm

omit [Bitcoin] [LawfulEncodings]

/-- Values that are their bytes are read back from what is sent. -/
theorem lawfulEncodings_byteBitcoin : @LawfulEncodings byteBitcoin :=
  letI : Bitcoin := byteBitcoin
  have _ : LawfulTxid := lawfulTxid_byteBitcoin
  { serializeHex_injective := by
      intro tx tx' h
      exact Hex.encode_injective (String.ofList_injective h)
    txidToString_injective := LawfulTxid.txidToString_injective
    scriptHashToString_injective := by
      intro hash hash' h
      exact Bytes.reverse_injective (Bytes.toHex_injective h)
    secretKeyValue_injective := by
      intro key key' h
      exact Bytes.toHex_injective (Value.string.inj h)
    publicKeyValue_injective := by
      intro key key' h
      exact Bytes.toHex_injective (Value.string.inj h) }

/-- A header is not requested with a proof by accident. -/
theorem toMethodAndParams_injective_header :
    letI : Bitcoin := byteBitcoin
    (BuiltinRequest.header { height := 1 }).toMethodAndParams ≠
      (BuiltinRequest.headerWithProof { height := 1, cpHeight := 0 }).toMethodAndParams := by
  let _ : Bitcoin := byteBitcoin
  have _ : LawfulEncodings := lawfulEncodings_byteBitcoin
  intro h
  cases toMethodAndParams_injective h

end ElectrumStreamingClient
