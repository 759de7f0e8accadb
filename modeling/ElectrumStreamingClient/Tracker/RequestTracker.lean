import ElectrumStreamingClient.Foundations.KeyedStore
import ElectrumStreamingClient.Foundations.WrappingId
import ElectrumStreamingClient.Tracker.PendingRequest

/-!
# The request tracker

`RequestTracker` (`request_tracker.rs`): the map from ids to the requests that await a response.
-/

namespace ElectrumStreamingClient

open Serde

variable [Bitcoin] {Obs : Type}

/-- Why an incoming message could not be processed. -/
inductive ProcessError where
  /-- A response to an id that no request is pending under. -/
  | missingRequest (id : UInt32)
  /-- A successful response that does not decode to the expected type. -/
  | cannotDeserializeResponse (id : UInt32) (error : Error)
  /-- A notification of a known method with malformed parameters. -/
  | cannotDeserializeNotification (method : CowStr) (params : Value) (error : Error)

/-- The state of an Electrum client: the requests pending under each id. -/
structure RequestTracker (Obs : Type) where
  pending : AList fun _ : UInt32 => PendingRequest Obs

namespace RequestTracker

/-- A tracker without pending requests. -/
def new : RequestTracker Obs := { pending := ∅ }

/-- Clear all pending requests. -/
def clear (_tracker : RequestTracker Obs) : RequestTracker Obs := { pending := ∅ }

/-- The raw requests that have not yet received a response. -/
def pendingRequests (tracker : RequestTracker Obs) : List RawRequest :=
  tracker.pending.entries.map fun entry =>
    let (method, params) := entry.2.toMethodAndParams
    RawRequest.new entry.1 method params

/-- Register one request under the next id, which wraps around. -/
def addRequest (tracker : RequestTracker Obs) (nextId : UInt32) (req : PendingRequest Obs) :
    RawRequest × RequestTracker Obs × UInt32 :=
  let id := nextId
  -- `wrapping_add`
  let nextId := id + 1
  let (method, params) := req.toMethodAndParams
  (RawRequest.new id method params, { pending := tracker.pending.insert id req }, nextId)

/-- Register requests in order. -/
def addRequests (tracker : RequestTracker Obs) (nextId : UInt32) :
    List (PendingRequest Obs) → List RawRequest × RequestTracker Obs × UInt32
  | [] => ([], tracker, nextId)
  | req :: reqs =>
    let (raw, tracker, nextId) := tracker.addRequest nextId req
    let (raws, tracker, nextId) := tracker.addRequests nextId reqs
    (raw :: raws, tracker, nextId)

/-- Register a request or a batch of requests. Gives what is to be sent. -/
def trackRequest (tracker : RequestTracker Obs) (nextId : UInt32) :
    RawOneOrMany (PendingRequest Obs) → RawOneOrMany RawRequest × RequestTracker Obs × UInt32
  | .single req =>
    let (raw, tracker, nextId) := tracker.addRequest nextId req
    (.single raw, tracker, nextId)
  | .batch v =>
    let (raws, tracker, nextId) := tracker.addRequests nextId v
    (.batch raws, tracker, nextId)

/-- Process an incoming notification or response. -/
def handleIncoming (tracker : RequestTracker Obs) :
    RawIncoming → Handled Obs ProcessError × RequestTracker Obs
  | .notification raw =>
    match Notification.new raw with
    | .ok notification =>
      ({ called := none, result := .ok (some (.notification notification)) }, tracker)
    | .error error =>
      ({ called := none
         result := .error (.cannotDeserializeNotification raw.method raw.params error) }, tracker)
  | .response resp =>
    -- `HashMap::remove`, which tells whether there was a request
    match tracker.pending.lookup resp.id with
    | none => ({ called := none, result := .error (.missingRequest resp.id) }, tracker)
    | some req =>
      let handled := req.handle resp.result
      ({ called := handled.called
         result := handled.result.mapError (.cannotDeserializeResponse resp.id) },
        { pending := tracker.pending.erase resp.id })

/-! ## What the operations do -/

@[simp] theorem pending_new : (new : RequestTracker Obs).pending = ∅ := rfl

@[simp] theorem pending_clear (tracker : RequestTracker Obs) : tracker.clear.pending = ∅ := rfl

@[simp] theorem addRequest_fst (tracker : RequestTracker Obs) (nextId : UInt32)
    (req : PendingRequest Obs) : (tracker.addRequest nextId req).1 = req.toRaw nextId := rfl

@[simp] theorem addRequest_pending (tracker : RequestTracker Obs) (nextId : UInt32)
    (req : PendingRequest Obs) :
    (tracker.addRequest nextId req).2.1.pending = tracker.pending.insert nextId req := rfl

@[simp] theorem addRequest_nextId (tracker : RequestTracker Obs) (nextId : UInt32)
    (req : PendingRequest Obs) : (tracker.addRequest nextId req).2.2 = nextId + 1 := rfl

/-- Tracking registers the requests in order, and gives one raw request for each. -/
theorem trackRequest_eq (tracker : RequestTracker Obs) (nextId : UInt32)
    (reqs : RawOneOrMany (PendingRequest Obs)) :
    (tracker.trackRequest nextId reqs).1.intoVec = (tracker.addRequests nextId reqs.intoVec).1 ∧
      (tracker.trackRequest nextId reqs).2 = (tracker.addRequests nextId reqs.intoVec).2 := by
  cases reqs with
  | single req => exact ⟨rfl, rfl⟩
  | batch v => exact ⟨rfl, rfl⟩

/-- A notification leaves the tracker as it is. -/
theorem handleIncoming_notification_snd (tracker : RequestTracker Obs) (raw : RawNotification) :
    (tracker.handleIncoming (.notification raw)).2 = tracker := by
  simp only [handleIncoming]
  split <;> rfl

/-- A response under an id that is not pending is an error. -/
theorem handleIncoming_of_lookup_eq_none {tracker : RequestTracker Obs} {resp : RawResponse}
    (h : tracker.pending.lookup resp.id = none) :
    tracker.handleIncoming (.response resp) =
      ({ called := none, result := .error (.missingRequest resp.id) }, tracker) := by
  simp only [handleIncoming, h]

/-- A response to a pending request runs its handler, and removes it. -/
theorem handleIncoming_of_lookup_eq_some {tracker : RequestTracker Obs} {resp : RawResponse}
    {req : PendingRequest Obs} (h : tracker.pending.lookup resp.id = some req) :
    tracker.handleIncoming (.response resp) =
      ({ called := (req.handle resp.result).called
         result := (req.handle resp.result).result.mapError (.cannotDeserializeResponse resp.id) },
        { pending := tracker.pending.erase resp.id }) := by
  simp only [handleIncoming, h]

/-- A response takes the request of its id out of the pending ones, if there is one. -/
@[simp] theorem handleIncoming_response_pending (tracker : RequestTracker Obs)
    (resp : RawResponse) :
    (tracker.handleIncoming (.response resp)).2.pending = tracker.pending.erase resp.id := by
  rcases h : tracker.pending.lookup resp.id with _ | req
  · rw [handleIncoming_of_lookup_eq_none h, KeyedStore.erase_of_lookup_eq_none h]
  · rw [handleIncoming_of_lookup_eq_some h]

end RequestTracker

end ElectrumStreamingClient
