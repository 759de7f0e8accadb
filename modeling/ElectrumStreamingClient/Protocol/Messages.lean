import ElectrumStreamingClient.Foundations.Serde

/-!
# JSON-RPC messages

The message types of the Electrum wire format (`protocol.rs`): notifications, responses and
requests, and the one-or-many wrapper in which they travel.
-/

namespace ElectrumStreamingClient

open Serde

/-- An owned or borrowed static string. -/
abbrev CowStr := String

/-- A method name and its parameters, as used in a JSON-RPC request. -/
abbrev MethodAndParams := CowStr × List Value

/-- The JSON-RPC protocol version supported by this client. -/
def jsonrpcVersion20 : String := "2.0"

/-- The `jsonrpc` version field, which is always `"2.0"`. -/
structure Version where
deriving DecidableEq

/-- A server-initiated notification. -/
structure RawNotification where
  version : Version
  /-- The method name, e.g. `"blockchain.headers.subscribe"`. -/
  method : CowStr
  /-- The raw parameters. -/
  params : Value

/-- A response to a client-issued request: `result` is the result if the request succeeded, or
the error object if it failed. -/
structure RawResponse where
  version : Version
  /-- The id of the request this response is answering. -/
  id : UInt32
  result : Except Value Value

/-- An incoming message: a notification or a response. -/
inductive RawIncoming where
  | notification (raw : RawNotification)
  | response (resp : RawResponse)

/-- A request as it is sent to the server. -/
structure RawRequest where
  jsonrpc : CowStr
  /-- The client-assigned id, used to correlate with responses. -/
  id : UInt32
  method : CowStr
  params : List Value

/-- A request with the given id, method and parameters. -/
def RawRequest.new (id : UInt32) (method : CowStr) (params : List Value) : RawRequest :=
  { jsonrpc := jsonrpcVersion20, id, method, params }

/-- The error object of a response. -/
structure ResponseError where
  error : Value

/-- A response's typed outcome: a decoded result or the server's error. -/
abbrev ResponseResult (Resp : Type) := Except ResponseError Resp

/-! ## One or many -/

/-- A single item or a batch of items. -/
inductive RawOneOrMany (T : Type*) where
  | single (item : T)
  | batch (items : List T)

namespace RawOneOrMany

variable {T T₂ : Type*}

/-- The items, in order. -/
def intoVec : RawOneOrMany T → List T
  | single item => [item]
  | batch items => items

/-- Push an item onto an optional collection, creating or extending the batch. -/
def pushOpt (opt : Option (RawOneOrMany T)) (item : T) : Option (RawOneOrMany T) :=
  match opt with
  | none => some (single item)
  | some maybeBatch => some (batch (maybeBatch.intoVec ++ [item]))

/-- Apply a function to each item. -/
def map (f : T → T₂) : RawOneOrMany T → RawOneOrMany T₂
  | single item => single (f item)
  | batch items => batch (items.map f)

@[simp] theorem intoVec_single (item : T) : (single item).intoVec = [item] := rfl

@[simp] theorem intoVec_batch (items : List T) : (batch items).intoVec = items := rfl

@[simp] theorem intoVec_map (f : T → T₂) (r : RawOneOrMany T) :
    (r.map f).intoVec = r.intoVec.map f := by
  cases r <;> rfl

/-- The items collected so far; none before the first push. -/
def collected (opt : Option (RawOneOrMany T)) : List T :=
  (opt.map intoVec).getD []

/-- Pushing keeps the items in call order. -/
@[simp] theorem collected_pushOpt (opt : Option (RawOneOrMany T)) (item : T) :
    collected (pushOpt opt item) = collected opt ++ [item] := by
  cases opt <;> rfl

/-- The first push makes a single item, the second one a batch. -/
example : pushOpt (pushOpt none 1) 2 = some (batch [1, 2]) := rfl

end RawOneOrMany

end ElectrumStreamingClient
