import ElectrumStreamingClient.Protocol.Messages

/-!
# Decoding incoming messages

The decoders derived for `protocol.rs`, with the two adapters of `custom_serde.rs` they call. An
incoming line is buffered as a `Value` and decoded as `RawOneOrMany<RawIncoming>`, an untagged
choice inside an untagged choice.

A derived struct without a flattened field also decodes from an array that holds its fields in
declaration order; a struct with one decodes from an object only.
-/

namespace ElectrumStreamingClient

open Serde

namespace CustomSerde

/-- The enum `custom_serde::result` decodes: either side of a response. -/
inductive T where
  | result (v : Value)
  | error (v : Value)

/-- The variants of `T` under the member names they carry on the wire. -/
def T.variants : List (String × (Value → Except Error T)) :=
  [("result", fun v => T.result <$> v.asValue), ("error", fun v => T.error <$> v.asValue)]

/-- Decode the side of a response from the members its struct left over. -/
def result (collected : Members) : Except Error (Except Value Value) :=
  (flattenedEnum "T" T.variants collected).map fun
    | .result v => .ok v
    | .error e => .error e

/-- Decode the protocol version, which must be `"2.0"`. -/
def version (v : Value) : Except Error Version := do
  let versionStr ← v.asString
  if versionStr ≠ jsonrpcVersion20 then
    .error (.custom "JSON-RPC version is not 2.0")
  else
    return {}

end CustomSerde

/-- Decode a notification from the members of an object. Unknown members are ignored. -/
def RawNotification.visitMap (ms : Members) : Except Error RawNotification := do
  let version ← field "jsonrpc" CustomSerde.version ms
  let method ← field "method" Value.asString ms
  let params ← field "params" Value.asValue ms
  return { version, method, params }

/-- Decode a notification from an array of its fields. -/
def RawNotification.visitSeq : List Value → Except Error RawNotification
  | [v₀, v₁, v₂] => do
    let version ← CustomSerde.version v₀
    let method ← v₁.asString
    let params ← v₂.asValue
    return { version, method, params }
  | vs => .error (.invalidLength vs.length)

def RawNotification.deserialize : Value → Except Error RawNotification
  | .object ms => RawNotification.visitMap ms
  | .array vs => RawNotification.visitSeq vs
  | _ => .error (.invalidType "struct RawNotification")

/-- The members a response leaves for its flattened result. -/
def RawResponse.collect (ms : Members) : Members :=
  ms.filter fun m => m.1 ∉ ["jsonrpc", "id"]

/-- Decode a response from the members of an object: `jsonrpc` and `id` are fields, the other
members are collected for the flattened result. -/
def RawResponse.visitMap (ms : Members) : Except Error RawResponse := do
  let version ← field "jsonrpc" CustomSerde.version ms
  let id ← field "id" Value.asU32 ms
  let result ← CustomSerde.result (RawResponse.collect ms)
  return { version, id, result }

def RawResponse.deserialize : Value → Except Error RawResponse
  | .object ms => RawResponse.visitMap ms
  | _ => .error (.invalidType "struct RawResponse")

/-- An incoming message is a notification if it decodes as one, else a response. -/
def RawIncoming.deserialize : Value → Except Error RawIncoming :=
  untagged "RawIncoming"
    (fun v => RawIncoming.notification <$> RawNotification.deserialize v)
    (fun v => RawIncoming.response <$> RawResponse.deserialize v)

/-- Decode a sequence of items. -/
def deserializeVec {T : Type} (dec : Value → Except Error T) : Value → Except Error (List T)
  | .array vs => vs.mapM dec
  | _ => .error (.invalidType "a sequence")

/-- A line is a single item if it decodes as one, else a batch. -/
def RawOneOrMany.deserialize {T : Type} (dec : Value → Except Error T) :
    Value → Except Error (RawOneOrMany T) :=
  untagged "RawOneOrMany"
    (fun v => RawOneOrMany.single <$> dec v)
    (fun v => RawOneOrMany.batch <$> deserializeVec dec v)

/-- Decode one incoming line. -/
def deserializeLine : Value → Except Error (RawOneOrMany RawIncoming) :=
  RawOneOrMany.deserialize RawIncoming.deserialize

end ElectrumStreamingClient
