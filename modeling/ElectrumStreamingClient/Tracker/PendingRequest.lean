import Mathlib.Data.List.Range
import ElectrumStreamingClient.Protocol.Event

/-!
# Pending requests

`PendingRequest` (`pending_request.rs`): the method and parameters of a request whose type has been
erased, with the handler that decodes the response to it. A handler either runs a callback or
produces an event. What a callback does is an observation of the type `Obs`.

A boxed handler can be moved but not copied. To speak about one handler among equal ones the model
gives each a `ticket`, which none of the operations of the client reads.
-/

namespace ElectrumStreamingClient

open Serde

variable [Bitcoin] {Obs : Type}

/-- What handling a message did: the callback it ran, if any, and its result. -/
structure Handled (Obs ε : Type) where
  called : Option Obs
  result : Except ε (Option Event)

section Handler

variable {Req : Type} [RequestExt Req] [Deserialize (Request.Response Req)]

/-- The handler of a request. It consumes the callback, which is run or dropped. -/
def handler (req : Req) (callback : Option (ResponseResult (Request.Response Req) → Obs))
    (rawResult : Except Value Value) : Handled Obs Error :=
  match rawResult, callback with
  | .ok rawResp, some cb =>
    -- `?` returns before the callback is called, which is then dropped
    match Deserialize.deserialize rawResp with
    | .ok resp => { called := some (cb (.ok resp)), result := .ok none }
    | .error err => { called := none, result := .error err }
  | .ok rawResp, none =>
    match Deserialize.deserialize rawResp with
    | .ok resp =>
      { called := none, result := .ok (some (.response (RequestExt.intoCompleted req resp))) }
    | .error err => { called := none, result := .error err }
  | .error rawErr, some cb =>
    { called := some (cb (.error { error := rawErr })), result := .ok none }
  | .error rawErr, none =>
    { called := none
      result := .ok (some (.responseError (RequestExt.intoFailed req { error := rawErr }))) }

end Handler

/-- The method and parameters, and the handler, that belong to one typed request. -/
inductive Erased : MethodAndParams → (Except Value Value → Handled Obs Error) → Prop
  | intro {Req : Type} [RequestExt Req] [Deserialize (Request.Response Req)] (req : Req)
      (callback : Option (ResponseResult (Request.Response Req) → Obs)) :
      Erased (Request.toMethodAndParams req) (handler req callback)

/-- A request that awaits its response. -/
structure PendingRequest (Obs : Type) where
  methodAndParams : MethodAndParams
  handler : Except Value Value → Handled Obs Error
  /-- Which handler this is. -/
  ticket : ℕ
  erased : Erased methodAndParams handler

namespace PendingRequest

section New

variable {Req : Type} [RequestExt Req] [Deserialize (Request.Response Req)]

/-- A pending request with an optional callback. -/
def new (req : Req) (callback : Option (ResponseResult (Request.Response Req) → Obs)) :
    PendingRequest Obs :=
  { methodAndParams := Request.toMethodAndParams req
    handler := ElectrumStreamingClient.handler req callback
    ticket := 0
    erased := .intro req callback }

/-- A pending request without a callback. -/
def event (req : Req) : PendingRequest Obs :=
  new req none

/-- `p` is the pending request of `req` with the given callback. -/
def IsFor (p : PendingRequest Obs) (req : Req)
    (callback : Option (ResponseResult (Request.Response Req) → Obs)) : Prop :=
  p.methodAndParams = Request.toMethodAndParams req ∧
    p.handler = ElectrumStreamingClient.handler req callback

end New

/-- The method name and parameters. -/
def toMethodAndParams (p : PendingRequest Obs) : MethodAndParams :=
  p.methodAndParams

/-- Run the handler on a raw result. -/
def handle (p : PendingRequest Obs) (result : Except Value Value) : Handled Obs Error :=
  p.handler result

/-- The request as it is sent under a given id. -/
def toRaw (p : PendingRequest Obs) (id : UInt32) : RawRequest :=
  RawRequest.new id p.toMethodAndParams.1 p.toMethodAndParams.2

/-- The request has a callback: the one that reports an error to the caller. -/
def HasCallback (p : PendingRequest Obs) : Prop :=
  (p.handle (.error .null)).called.isSome

/-- Every pending request is for some typed request. -/
theorem exists_isFor (p : PendingRequest Obs) :
    ∃ (Req : Type) (_ : RequestExt Req) (_ : Deserialize (Request.Response Req)) (req : Req)
      (callback : Option (ResponseResult (Request.Response Req) → Obs)), p.IsFor req callback := by
  obtain ⟨methodAndParams, handler, ticket, herased⟩ := p
  cases herased with
  | @intro Req ext de req callback => exact ⟨Req, ext, de, req, callback, rfl, rfl⟩

/-- The same request with another ticket. -/
def stamp (n : ℕ) (p : PendingRequest Obs) : PendingRequest Obs :=
  { p with ticket := n }

/-- Tickets from `n` on, in order. -/
def stampAll (n : ℕ) : List (PendingRequest Obs) → List (PendingRequest Obs)
  | [] => []
  | p :: ps => p.stamp n :: stampAll (n + 1) ps

/-- The tickets are consecutive. -/
@[simp] theorem tickets_stampAll (n : ℕ) (ps : List (PendingRequest Obs)) :
    (stampAll n ps).map ticket = List.range' n ps.length := by
  induction ps generalizing n with
  | nil => rfl
  | cons p ps ih => rw [stampAll, List.map_cons, ih, List.length_cons, List.range'_succ]; rfl

@[simp] theorem length_stampAll (n : ℕ) (ps : List (PendingRequest Obs)) :
    (stampAll n ps).length = ps.length := by
  induction ps generalizing n with
  | nil => rfl
  | cons p ps ih => simp [stampAll, ih]

/-- The ticket of a request is its place. -/
theorem getElem?_stampAll (n i : ℕ) (ps : List (PendingRequest Obs)) :
    (stampAll n ps)[i]? = ps[i]?.map (stamp (n + i)) := by
  induction ps generalizing n i with
  | nil => rfl
  | cons p ps ih =>
    rcases i with _ | i
    · rfl
    · rw [stampAll, List.getElem?_cons_succ, List.getElem?_cons_succ, ih]
      congr 2
      omega

/-- The tickets of later requests are behind those of the earlier ones. -/
theorem stampAll_append (n : ℕ) (ps qs : List (PendingRequest Obs)) :
    stampAll n (ps ++ qs) = stampAll n ps ++ stampAll (n + ps.length) qs := by
  induction ps generalizing n with
  | nil => rfl
  | cons p ps ih =>
    rw [List.cons_append, stampAll, ih, stampAll, List.cons_append, List.length_cons]
    congr 3
    omega

/-- The requests with tickets are the given ones, each with the ticket of its place. -/
theorem mem_stampAll {n : ℕ} {ps : List (PendingRequest Obs)} {q : PendingRequest Obs} :
    q ∈ stampAll n ps ↔
      ∃ (i : ℕ) (p : PendingRequest Obs), ps[i]? = some p ∧ q = p.stamp (n + i) := by
  rw [List.mem_iff_getElem?]
  apply exists_congr
  intro i
  rw [getElem?_stampAll, Option.map_eq_some_iff]
  exact exists_congr fun p => and_congr_right fun _ => eq_comm

/-- No two requests with tickets from a number on are the same. -/
theorem nodup_stampAll (n : ℕ) (ps : List (PendingRequest Obs)) : (stampAll n ps).Nodup := by
  apply List.Nodup.of_map ticket
  rw [tickets_stampAll]
  exact List.nodup_range'

end PendingRequest

/-- Give the requests handed in together their tickets. -/
def RawOneOrMany.stampFrom (n : ℕ) :
    RawOneOrMany (PendingRequest Obs) → RawOneOrMany (PendingRequest Obs)
  | .single p => .single (p.stamp n)
  | .batch ps => .batch (PendingRequest.stampAll n ps)

/-- A single request gets the first ticket, a batch consecutive ones. -/
@[simp] theorem RawOneOrMany.intoVec_stampFrom (n : ℕ) (reqs : RawOneOrMany (PendingRequest Obs)) :
    (reqs.stampFrom n).intoVec = PendingRequest.stampAll n reqs.intoVec := by
  cases reqs <;> rfl

/-! ## Batches -/

/-- A builder for a batch of requests. -/
structure BatchRequest (Obs : Type) where
  inner : Option (RawOneOrMany (PendingRequest Obs))

namespace BatchRequest

/-- The empty batch. -/
def new : BatchRequest Obs := { inner := none }

/-- The contents, if any request was added. -/
def intoInner (b : BatchRequest Obs) : Option (RawOneOrMany (PendingRequest Obs)) :=
  b.inner

variable {Req : Type} [RequestExt Req] [Deserialize (Request.Response Req)]

/-- Add a request with a callback. -/
def request (b : BatchRequest Obs) (req : Req)
    (callback : ResponseResult (Request.Response Req) → Obs) : BatchRequest Obs :=
  { inner := RawOneOrMany.pushOpt b.inner (PendingRequest.new req (some callback)) }

/-- Add a request whose response becomes an event. -/
def eventRequest (b : BatchRequest Obs) (req : Req) : BatchRequest Obs :=
  { inner := RawOneOrMany.pushOpt b.inner (PendingRequest.event req) }

end BatchRequest

end ElectrumStreamingClient
