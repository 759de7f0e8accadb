import ElectrumStreamingClient.Io.Write
import ElectrumStreamingClient.Protocol.RequestEncoding

/-!
# Typed requests on the wire

What a server reads of the lines of built-in requests: the requests themselves, with their ids, one
message a line. It looks members up by name, and tells a batch from a single request by its array.
-/

namespace ElectrumStreamingClient

open Serde JsonText Request

variable [Bitcoin]

/-- A request with its id, as a raw request. -/
def BuiltinRequest.toRaw (call : UInt32 × BuiltinRequest) : RawRequest :=
  RawRequest.new call.1 call.2.toMethodAndParams.1 call.2.toMethodAndParams.2

/-- The elements of an array. -/
def asParams : Value → Except Serde.Error (List Value)
  | .array vs => .ok vs
  | _ => .error (.invalidType "an array")

/-- Read a request and its id. -/
noncomputable def readCall : Value → Option (UInt32 × BuiltinRequest)
  | .object ms => do
    let id ← (field "id" Value.asU32 ms).toOption
    let method ← (field "method" Value.asString ms).toOption
    let params ← (field "params" asParams ms).toOption
    let req ← readRequest (method, params)
    return (id, req)
  | _ => none

/-- Read a message: an array is a batch. -/
noncomputable def readMessage : Value → Option (RawOneOrMany (UInt32 × BuiltinRequest))
  | .array vs => (vs.mapM readCall).map .batch
  | v => (readCall v).map .single

/-- The JSON values of keys are strings. -/
class StringKeys : Prop where
  secretKeyValue : ∀ key : Bitcoin.SecretKey, ∃ s, Bitcoin.secretKeyValue key = .string s
  publicKeyValue : ∀ key : Bitcoin.PublicKey, ∃ s, Bitcoin.publicKeyValue key = .string s

omit [Bitcoin] in
/-- Keys that are their bytes are written as strings. -/
theorem stringKeys_byteBitcoin : @StringKeys byteBitcoin :=
  letI : Bitcoin := byteBitcoin
  { secretKeyValue := fun _ => ⟨_, rfl⟩, publicKeyValue := fun _ => ⟨_, rfl⟩ }

section CanWrite

omit [Bitcoin] in
/-- An array of values that can be written. -/
theorem canWrite_array_map {α : Type} {write : α → Value} (h : ∀ a, CanWrite (write a))
    (as : List α) : CanWrite (.array (as.map write)) := by
  apply elemsCanWrite_iff.mpr
  intro v hv
  obtain ⟨a, -, rfl⟩ := List.mem_map.mp hv
  exact h a

/-- A package of transactions can be written. -/
theorem canWrite_ofPackage (txs : List Bitcoin.Transaction) : CanWrite (ofPackage txs) := by
  have htx : ∀ tx : Bitcoin.Transaction, CanWrite (.string (Bitcoin.serializeHex tx)) :=
    fun _ => trivial
  exact canWrite_array_map htx txs

omit [Bitcoin] in
theorem canWrite_labels (labels : List UInt32) : CanWrite (.array (labels.map ofU32)) := by
  have hlabel : ∀ n, CanWrite (ofU32 n) := fun _ => trivial
  exact canWrite_array_map hlabel labels

variable [StringKeys]

theorem canWrite_secretKeyValue (key : Bitcoin.SecretKey) :
    CanWrite (Bitcoin.secretKeyValue key) := by
  obtain ⟨s, hs⟩ := StringKeys.secretKeyValue key
  rw [hs]
  trivial

theorem canWrite_publicKeyValue (key : Bitcoin.PublicKey) :
    CanWrite (Bitcoin.publicKeyValue key) := by
  obtain ⟨s, hs⟩ := StringKeys.publicKeyValue key
  rw [hs]
  trivial

/-- The parameters of every built-in request can be written. -/
theorem BuiltinRequest.canWrite (req : BuiltinRequest) :
    ElemsCanWrite req.toMethodAndParams.2 := by
  cases req with
  | estimateFee req =>
    obtain ⟨number, _ | mode⟩ := req
    · exact ⟨trivial, trivial⟩
    · exact ⟨trivial, trivial, trivial⟩
  | broadcastPackage req => exact ⟨canWrite_ofPackage req.txs, trivial⟩
  | broadcastPackageVerbose req => exact ⟨canWrite_ofPackage req.txs, trivial, trivial⟩
  | serverVersion req =>
    obtain ⟨clientName, version | ⟨min, max⟩⟩ := req
    · exact ⟨trivial, trivial, trivial⟩
    · exact ⟨trivial, ⟨trivial, trivial, trivial⟩, trivial⟩
  | spSubscribe req =>
    obtain ⟨scanPrivKey, spendPubKey, startHeight, labels⟩ := req
    refine ⟨canWrite_secretKeyValue _, canWrite_publicKeyValue _, ?_⟩
    obtain _ | startHeight := startHeight <;> obtain _ | labels := labels
    · trivial
    · exact ⟨trivial, canWrite_labels labels, trivial⟩
    · exact ⟨trivial, trivial⟩
    · exact ⟨trivial, canWrite_labels labels, trivial⟩
  | spUnsubscribe req => exact ⟨canWrite_secretKeyValue _, canWrite_publicKeyValue _, trivial⟩
  | headersSubscribe | relayFee | getFeeHistogram | getMempoolInfo | banner | features | ping =>
    trivial
  | header | getBalance | getHistory | getMempool | listUnspent | scriptHashSubscribe
  | scriptHashUnsubscribe | broadcastTx | getTx => exact ⟨trivial, trivial⟩
  | headerWithProof | headers | getTxMerkle | getTxidFromPos => exact ⟨trivial, trivial, trivial⟩
  | headersWithCheckpoint => exact ⟨trivial, trivial, trivial, trivial⟩

end CanWrite

/-! ## The round trip -/

section RoundTrip

variable [LawfulEncodings]

/-- A request is read back with its id. -/
theorem readCall_serialize (call : UInt32 × BuiltinRequest) :
    readCall (BuiltinRequest.toRaw call).serialize = some call := by
  obtain ⟨id, req⟩ := call
  have hid : Value.asU32 (.number (.posInt id.toUInt64)) = .ok id :=
    asU32_eq_ok_iff.mpr ⟨_, rfl, by simp [Number.toInt?]⟩
  -- each member is found under its name
  have hread : readCall (BuiltinRequest.toRaw (id, req)).serialize =
      ((Value.asU32 (.number (.posInt id.toUInt64))).toOption.bind fun id =>
        (readRequest req.toMethodAndParams).bind fun req => some (id, req)) := rfl
  rw [hread, hid, readRequest_toMethodAndParams]
  rfl

/-- A message is read back, a batch as a batch. -/
theorem readMessage_serialize (msg : RawOneOrMany (UInt32 × BuiltinRequest)) :
    readMessage (msg.map BuiltinRequest.toRaw).serialize = some msg := by
  cases msg with
  | single call =>
    show (readCall (BuiltinRequest.toRaw call).serialize).map RawOneOrMany.single = _
    rw [readCall_serialize, Option.map_some]
  | batch calls =>
    -- a batch is read call by call
    have hcalls : ((calls.map BuiltinRequest.toRaw).map RawRequest.serialize).mapM readCall =
        some calls := by
      induction calls with
      | nil => rfl
      | cons call calls ih =>
        rw [List.map_cons, List.map_cons, List.mapM_cons, readCall_serialize, ih]
        rfl
    rw [RawOneOrMany.map, RawOneOrMany.serialize, readMessage, hcalls, Option.map_some]

/-- A raw request determines its typed request and id. -/
theorem BuiltinRequest.toRaw_injective : Function.Injective BuiltinRequest.toRaw := by
  intro call call' h
  have hread := readCall_serialize call
  rw [h, readCall_serialize] at hread
  exact (Option.some.inj hread).symm

/-- From the lines of typed requests a server reads these requests, with their ids and in their
batches, and no others. -/
theorem readMessage_readLines [JsonFormat] [LawfulJsonFormat] [StringKeys]
    (msgs : List (RawOneOrMany (UInt32 × BuiltinRequest))) :
    (readLines ((msgs.map (RawOneOrMany.map BuiltinRequest.toRaw)).flatMap line)).map
      (fun v => v.bind readMessage) = msgs.map some := by
  have hcan : ∀ msg ∈ msgs.map (RawOneOrMany.map BuiltinRequest.toRaw), msg.CanWrite := by
    intro msg hmsg raw hraw
    obtain ⟨msg, -, rfl⟩ := List.mem_map.mp hmsg
    rw [RawOneOrMany.intoVec_map] at hraw
    obtain ⟨call, -, rfl⟩ := List.mem_map.mp hraw
    exact call.2.canWrite
  rw [readLines_flatMap_line hcan, List.map_map, List.map_map]
  apply List.map_congr_left
  intro msg _
  exact readMessage_serialize msg

omit [Bitcoin] [LawfulEncodings] in
/-- A header alone, and behind it a batch. -/
theorem readMessage_readLines_headers :
    letI : Bitcoin := byteBitcoin
    letI : JsonFormat := bitsFormat
    (readLines (([.single (0, .header { height := 1 }), .batch [(1, .ping {})]].map
      (RawOneOrMany.map BuiltinRequest.toRaw)).flatMap line)).map (fun v => v.bind readMessage) =
        [some (.single (0, .header { height := 1 })), some (.batch [(1, .ping {})])] := by
  let _ : Bitcoin := byteBitcoin
  let _ : JsonFormat := bitsFormat
  have _ : LawfulJsonFormat := lawful_bitsFormat
  have _ : LawfulEncodings := lawfulEncodings_byteBitcoin
  have _ : StringKeys := stringKeys_byteBitcoin
  exact readMessage_readLines [.single (0, .header { height := 1 }), .batch [(1, .ping {})]]

end RoundTrip

end ElectrumStreamingClient
