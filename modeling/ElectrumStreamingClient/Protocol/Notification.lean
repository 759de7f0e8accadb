import ElectrumStreamingClient.Protocol.Messages
import ElectrumStreamingClient.Protocol.Response

/-!
# Notifications

The parsed notifications of `notification.rs`. The method of a raw notification decides what its
parameters are decoded to; a notification with another method is kept as it is.
-/

namespace ElectrumStreamingClient

open Serde

variable [Bitcoin]

/-- The best block header has changed. -/
structure HeaderNotification where
  param0 : HeadersSubscribeResp

/-- The status of a script has changed. -/
structure ScriptHashNotification where
  param0 : ElectrumScriptHash
  param1 : Option ElectrumScriptStatus

/-- An update of a silent payments subscription. -/
structure SpNotification where
  /-- The subscription this notification belongs to. -/
  subscription : SpSubscribeResp
  /-- How far the scan has come, from `0.0` through `1.0`. -/
  progress : Float32
  /-- The transactions found by the scan. -/
  history : List TxTweak

/-- A field that may be missing: an absent member is no value. -/
def optionalField {α : Type} (name : String) (dec : Value → Except Error (Option α))
    (ms : Members) : Except Error (Option α) :=
  if HasMember name ms then field name dec ms else .ok none

/-- Decode the parameters of a `HeaderNotification`, from an object or from an array of its
fields. -/
def HeaderNotification.deserialize : Value → Except Error HeaderNotification
  | .object ms => do
    let param0 ← field "param_0" Deserialize.deserialize ms
    return { param0 }
  | .array [v₀] => do
    let param0 ← Deserialize.deserialize v₀
    return { param0 }
  | .array vs => .error (.invalidLength vs.length)
  | _ => .error (.invalidType "struct HeaderNotification")

/-- Decode the parameters of a `ScriptHashNotification`, from an object or from an array of its
fields. -/
def ScriptHashNotification.deserialize : Value → Except Error ScriptHashNotification
  | .object ms => do
    let param0 ← field "param_0" Deserialize.deserialize ms
    let param1 ← optionalField "param_1" Deserialize.deserialize ms
    return { param0, param1 }
  | .array [v₀, v₁] => do
    let param0 ← Deserialize.deserialize v₀
    let param1 ← Deserialize.deserialize v₁
    return { param0, param1 }
  | .array vs => .error (.invalidLength vs.length)
  | _ => .error (.invalidType "struct ScriptHashNotification")

/-- Decode the parameters of a `SpNotification`, from an object or from an array of its fields. -/
def SpNotification.deserialize : Value → Except Error SpNotification
  | .object ms => do
    let subscription ← field "subscription" Deserialize.deserialize ms
    let progress ← field "progress" asF32 ms
    let history ← field "history" Deserialize.deserialize ms
    return { subscription, progress, history }
  | .array [v₀, v₁, v₂] => do
    let subscription ← Deserialize.deserialize v₀
    let progress ← asF32 v₁
    let history ← Deserialize.deserialize v₂
    return { subscription, progress, history }
  | .array vs => .error (.invalidLength vs.length)
  | _ => .error (.invalidType "struct SpNotification")

/-- A parsed notification. -/
inductive Notification where
  | header (n : HeaderNotification)
  | scriptHash (n : ScriptHashNotification)
  | spSubscribe (n : SpNotification)
  /-- A notification of another method, as it was received. -/
  | unknown (raw : RawNotification)

/-- Parse a raw notification. -/
def Notification.new (raw : RawNotification) : Except Error Notification :=
  match raw.method with
  | "blockchain.headers.subscribe" =>
    Notification.header <$> HeaderNotification.deserialize raw.params
  | "blockchain.scripthash.subscribe" =>
    Notification.scriptHash <$> ScriptHashNotification.deserialize raw.params
  | "blockchain.silentpayments.subscribe" =>
    Notification.spSubscribe <$> SpNotification.deserialize raw.params
  | _ => .ok (.unknown raw)

end ElectrumStreamingClient
