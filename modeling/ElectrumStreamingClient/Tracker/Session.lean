import Mathlib.Algebra.Order.Group.Multiset
import Mathlib.Tactic.Abel
import ElectrumStreamingClient.Tracker.RequestTracker

/-!
# Tracker sessions

A request tracker with the counter its ids come from, and the history of both: which request was
registered under which id and in front of which tracker, what was sent, which requests were
resolved by which response, and which were cleared. The operations of a session are those of the
tracker; the history is only written.

A session is `Consistent` with the first id of its counter: ids are assigned one after the other,
a pending request is one of the last `2 ^ 32` that were tracked and is filed under its own id, and
every request that was tracked is accounted for once.
-/

namespace ElectrumStreamingClient

open Serde KeyedStore WrappingId

variable [Bitcoin] {Obs : Type}

/-- The assignment of an id to a request. -/
structure Assignment (Obs : Type) where
  request : PendingRequest Obs
  id : UInt32
  /-- The tracker the request was inserted into. -/
  before : RequestTracker Obs

/-- A request of the tracker's that a response took out of the pending ones. -/
structure Resolution (Obs : Type) where
  request : PendingRequest Obs
  id : UInt32
  /-- The body of the response. -/
  body : Except Value Value
  /-- What handling the response did. -/
  handled : Handled Obs ProcessError

/-- A tracker, its counter, and their history. -/
structure Session (Obs : Type) where
  tracker : RequestTracker Obs
  nextId : UInt32
  /-- The assignments of ids, in order. -/
  assigned : List (Assignment Obs)
  /-- The raw requests given out for sending, in order. -/
  sent : List RawRequest
  resolved : List (Resolution Obs)
  cleared : List (PendingRequest Obs)

/-- The assignments made when requests are registered in order. -/
def assignments (tracker : RequestTracker Obs) (nextId : UInt32) :
    List (PendingRequest Obs) → List (Assignment Obs)
  | [] => []
  | req :: reqs =>
    let (_, tracker', nextId') := tracker.addRequest nextId req
    { request := req, id := nextId, before := tracker } :: assignments tracker' nextId' reqs

namespace Session

/-- A new tracker with a counter that starts at `start`. -/
def start (start : UInt32) : Session Obs :=
  { tracker := RequestTracker.new, nextId := start, assigned := [], sent := [], resolved := []
    cleared := [] }

/-- `RequestTracker::track_request`. -/
def track (s : Session Obs) (reqs : RawOneOrMany (PendingRequest Obs)) :
    RawOneOrMany RawRequest × Session Obs :=
  let (raws, tracker, nextId) := s.tracker.trackRequest s.nextId reqs
  (raws,
    { s with
      tracker, nextId
      assigned := s.assigned ++ assignments s.tracker s.nextId reqs.intoVec
      sent := s.sent ++ raws.intoVec })

/-- The resolution by a response, if its id is pending. -/
def resolution (s : Session Obs) : RawIncoming → Option (Resolution Obs)
  | .notification _ => none
  | .response resp =>
    (s.tracker.pending.lookup resp.id).map fun request =>
      { request, id := resp.id, body := resp.result
        handled := (s.tracker.handleIncoming (.response resp)).1 }

/-- `RequestTracker::handle_incoming`. -/
def incoming (s : Session Obs) (msg : RawIncoming) : Handled Obs ProcessError × Session Obs :=
  let (handled, tracker) := s.tracker.handleIncoming msg
  (handled, { s with tracker, resolved := s.resolved ++ (s.resolution msg).toList })

/-- `RequestTracker::clear`. -/
def clear (s : Session Obs) : Session Obs :=
  { s with
    tracker := s.tracker.clear
    cleared := s.cleared ++ s.tracker.pending.entries.map Sigma.snd }

/-- The requests that were dropped because another one was inserted under their id. -/
def replaced (s : Session Obs) : List (PendingRequest Obs) :=
  s.assigned.filterMap fun a => a.before.pending.lookup a.id

/-- The number of requests tracked so far. -/
def count (s : Session Obs) : ℕ := s.assigned.length

/-- No request is still pending when the `2 ^ 32`-th later one is tracked. -/
def NoOverrun (s : Session Obs) : Prop :=
  ∀ a ∈ s.assigned, ∀ p ∈ values a.before.pending, p.ticket + period ≠ a.request.ticket

end Session

/-! ## Where a request is filed -/

/-- A store of pending requests at a point where `n` requests have been tracked: each is one of
the last `2 ^ 32` of them, and is filed under its id. -/
def Filed (start : UInt32) (n : ℕ) (pending : AList fun _ : UInt32 => PendingRequest Obs) : Prop :=
  ∀ id p, pending.lookup id = some p →
    p.ticket < n ∧ id = idAt start p.ticket ∧ n ≤ p.ticket + period

/-- The request that is tracked next takes its id from the request a period before it, and only
from that one. -/
theorem Filed.lookup_next_iff {start : UInt32} {n : ℕ}
    {pending : AList fun _ : UInt32 => PendingRequest Obs} (h : Filed start n pending)
    (p : PendingRequest Obs) :
    pending.lookup (idAt start n) = some p ↔ p ∈ values pending ∧ p.ticket + period = n := by
  constructor
  · intro hp
    obtain ⟨hlt, hid, hle⟩ := h _ _ hp
    exact ⟨mem_values.mpr ⟨_, hp⟩, add_period_of_idAt_eq hid.symm hlt hle⟩
  · rintro ⟨hmem, rfl⟩
    obtain ⟨id, hp⟩ := mem_values.mp hmem
    obtain ⟨-, rfl, -⟩ := h _ _ hp
    rwa [idAt_add_period]

/-- The next request is filed under the next id. -/
theorem Filed.insert {start : UInt32} {n : ℕ}
    {pending : AList fun _ : UInt32 => PendingRequest Obs} (h : Filed start n pending)
    {req : PendingRequest Obs} (hreq : req.ticket = n) :
    Filed start (n + 1) (pending.insert (idAt start n) req) := by
  intro id p hp
  by_cases hid : id = idAt start n
  -- the new request
  · subst hid
    rw [AList.lookup_insert] at hp
    cases hp
    refine ⟨by omega, by rw [hreq], ?_⟩
    rw [hreq, period]
    omega
  · rw [AList.lookup_insert_ne hid] at hp
    obtain ⟨hlt, hp', hle⟩ := h id p hp
    -- the request a period back would have this id
    have hne : n ≠ p.ticket + period := by
      rintro rfl
      exact hid (hp'.trans (idAt_add_period start p.ticket).symm)
    exact ⟨by omega, hp', by omega⟩

/-- The requests that are not removed stay filed. -/
theorem Filed.erase {start : UInt32} {n : ℕ}
    {pending : AList fun _ : UInt32 => PendingRequest Obs} (h : Filed start n pending)
    (id : UInt32) : Filed start n (pending.erase id) := by
  intro id' p hp
  by_cases hid : id' = id
  · subst hid
    rw [AList.lookup_erase] at hp
    cases hp
  · rw [AList.lookup_erase_ne hid] at hp
    exact h id' p hp

namespace Session

/-! ## Consistency -/

/-- What a resolution records. -/
structure IsResolution (start : UInt32) (r : Resolution Obs) : Prop where
  id_eq : r.id = idAt start r.request.ticket
  called_eq : r.handled.called = (r.request.handle r.body).called
  result_eq : r.handled.result =
    (r.request.handle r.body).result.mapError (.cannotDeserializeResponse r.id)

/-- What holds of a session whose counter started at `start`. -/
structure Consistent (start : UInt32) (s : Session Obs) : Prop where
  nextId : s.nextId = idAt start s.count
  filed : Filed start s.count s.tracker.pending
  assigned : ∀ i a, s.assigned[i]? = some a →
    a.request.ticket = i ∧ a.id = idAt start i ∧ Filed start i a.before.pending
  sent : s.sent = s.assigned.map fun a => a.request.toRaw a.id
  resolved : ∀ r ∈ s.resolved, IsResolution start r
  /-- Every request that was tracked is in one place. -/
  accounted : values s.tracker.pending + (s.resolved.map Resolution.request : List _) +
      (s.cleared : List _) + (s.replaced : List _) =
    ((s.assigned.map Assignment.request : List _) : Multiset (PendingRequest Obs))

/-- A new session is consistent. -/
theorem consistent_start (id : UInt32) : Consistent id (start id : Session Obs) where
  nextId := (idAt_zero id).symm
  filed _ _ hp := by cases hp
  assigned _ _ ha := by cases ha
  sent := rfl
  resolved _ hr := by cases hr
  accounted := rfl

/-- Track one request. -/
def add (s : Session Obs) (req : PendingRequest Obs) : Session Obs :=
  { s with
    tracker := (s.tracker.addRequest s.nextId req).2.1
    nextId := (s.tracker.addRequest s.nextId req).2.2
    assigned := s.assigned ++ [{ request := req, id := s.nextId, before := s.tracker }]
    sent := s.sent ++ [(s.tracker.addRequest s.nextId req).1] }

/-- Requests that are added one by one are added as in a batch. -/
theorem foldl_add (reqs : List (PendingRequest Obs)) (s : Session Obs) :
    reqs.foldl add s =
      { s with
        tracker := (s.tracker.addRequests s.nextId reqs).2.1
        nextId := (s.tracker.addRequests s.nextId reqs).2.2
        assigned := s.assigned ++ assignments s.tracker s.nextId reqs
        sent := s.sent ++ (s.tracker.addRequests s.nextId reqs).1 } := by
  induction reqs generalizing s with
  | nil => simp [RequestTracker.addRequests, assignments]
  | cons req reqs ih =>
    rw [List.foldl_cons, ih]
    simp [add, RequestTracker.addRequests, assignments]

/-- Tracking a batch is tracking its requests in order. -/
theorem track_snd (s : Session Obs) (reqs : RawOneOrMany (PendingRequest Obs)) :
    (s.track reqs).2 = reqs.intoVec.foldl add s := by
  obtain ⟨hraws, htracker⟩ := s.tracker.trackRequest_eq s.nextId reqs
  simp only [track, foldl_add, hraws, htracker]

/-- Each request is assigned an id. -/
theorem map_request_assignments (tracker : RequestTracker Obs) (nextId : UInt32)
    (reqs : List (PendingRequest Obs)) :
    (assignments tracker nextId reqs).map Assignment.request = reqs := by
  induction reqs generalizing tracker nextId with
  | nil => rfl
  | cons req reqs ih => rw [assignments, List.map_cons, ih]

/-- Tracking assigns ids to the requests in order. -/
theorem assigned_track (s : Session Obs) (reqs : RawOneOrMany (PendingRequest Obs)) :
    (s.track reqs).2.assigned.map Assignment.request =
      s.assigned.map Assignment.request ++ reqs.intoVec := by
  rw [track, List.map_append, map_request_assignments]

theorem sent_track (s : Session Obs) (reqs : RawOneOrMany (PendingRequest Obs)) :
    (s.track reqs).2.sent = s.sent ++ (s.track reqs).1.intoVec := rfl

/-- A request replaces the one that is pending under its id. -/
theorem replaced_add (s : Session Obs) (req : PendingRequest Obs) :
    (s.add req).replaced = s.replaced ++ (s.tracker.pending.lookup s.nextId).toList := by
  rw [replaced, add, List.filterMap_append]
  rcases h : s.tracker.pending.lookup s.nextId with _ | p <;> simp [replaced, h]

/-- Adding the next request keeps a session consistent. -/
theorem Consistent.add {start : UInt32} {s : Session Obs} (h : Consistent start s)
    {req : PendingRequest Obs} (hreq : req.ticket = s.count) : Consistent start (s.add req) where
  nextId := by
    have hcount : (s.add req).count = s.count + 1 := by simp [count, Session.add]
    rw [hcount, idAt_succ, ← h.nextId]
    rfl
  filed := by
    have hcount : (s.add req).count = s.count + 1 := by simp [count, Session.add]
    rw [hcount]
    simpa [Session.add, h.nextId] using h.filed.insert hreq
  assigned i a ha := by
    rw [Session.add, List.getElem?_append] at ha
    split at ha
    · exact h.assigned i a ha
    -- the new assignment is the last one
    · obtain ⟨hi, rfl⟩ := List.getElem?_eq_some_iff.mp ha
      have hcount : i = s.count := by
        simp only [List.length_singleton] at hi
        simp only [count]
        omega
      subst hcount
      simpa [hreq, h.nextId] using h.filed
  sent := by simp [Session.add, h.sent]
  resolved := h.resolved
  accounted := by
    have hpending := values_eq_add_erase s.tracker.pending s.nextId
    have haccounted := h.accounted
    rw [replaced_add]
    -- the request that was filed under the id moves to the replaced ones
    simp only [Session.add, RequestTracker.addRequest_pending, values_insert, List.map_append,
      ← Multiset.coe_add]
    rw [← haccounted, hpending, ← Multiset.singleton_add]
    simp only [List.map_cons, List.map_nil, Multiset.coe_singleton]
    abel

/-- So does adding several ones. -/
theorem consistent_foldl_add {start : UInt32} (reqs : List (PendingRequest Obs))
    {s : Session Obs} (h : Consistent start s)
    (hreqs : reqs.map PendingRequest.ticket = List.range' s.count reqs.length) :
    Consistent start (reqs.foldl Session.add s) := by
  induction reqs generalizing s with
  | nil => exact h
  | cons req reqs ih =>
    rw [List.map_cons, List.length_cons, List.range'_succ, List.cons.injEq] at hreqs
    apply ih (h.add hreqs.1)
    have hcount : (s.add req).count = s.count + 1 := by simp [count, Session.add]
    rw [hcount]
    exact hreqs.2

/-- Tracking requests with the next tickets keeps a session consistent. -/
theorem Consistent.track {start : UInt32} {s : Session Obs} (h : Consistent start s)
    {reqs : RawOneOrMany (PendingRequest Obs)}
    (hreqs : reqs.intoVec.map PendingRequest.ticket =
      List.range' s.count reqs.intoVec.length) : Consistent start (s.track reqs).2 := by
  rw [track_snd]
  exact consistent_foldl_add reqs.intoVec h hreqs

/-- Clearing keeps a session consistent. -/
theorem Consistent.clear {start : UInt32} {s : Session Obs} (h : Consistent start s) :
    Consistent start s.clear where
  nextId := h.nextId
  filed _ _ hp := by cases hp
  assigned := h.assigned
  sent := h.sent
  resolved := h.resolved
  accounted := by
    have haccounted := h.accounted
    have hvalues : values s.clear.tracker.pending = 0 := rfl
    have hcleared : (s.clear.cleared : Multiset (PendingRequest Obs)) =
        (s.cleared : Multiset _) + values s.tracker.pending := by
      rw [Session.clear, ← Multiset.coe_add]
      rfl
    have hreplaced : s.clear.replaced = s.replaced := rfl
    have hresolved : s.clear.resolved = s.resolved := rfl
    have hassigned : s.clear.assigned = s.assigned := rfl
    -- what was pending moves to the cleared requests
    rw [hvalues, hcleared, hreplaced, hresolved, hassigned, ← haccounted]
    abel

/-- What is recorded of a message is what handling it did, if it resolves a request. -/
theorem sublist_resolution (s : Session Obs) (msg : RawIncoming) :
    ((s.resolution msg).toList.map Resolution.handled).Sublist [(s.incoming msg).1] := by
  rcases msg with raw | resp
  · exact List.nil_sublist _
  · rw [resolution]
    rcases s.tracker.pending.lookup resp.id with _ | p
    · exact List.nil_sublist _
    · exact List.Sublist.refl _

/-- A notification leaves the session as it is. -/
theorem incoming_notification_snd (s : Session Obs) (raw : RawNotification) :
    (s.incoming (.notification raw)).2 = s := by
  simp [incoming, resolution, RequestTracker.handleIncoming_notification_snd]

/-- So does a response to an id that is not pending. -/
theorem incoming_of_lookup_eq_none {s : Session Obs} {resp : RawResponse}
    (h : s.tracker.pending.lookup resp.id = none) :
    s.incoming (.response resp) =
      ({ called := none, result := .error (.missingRequest resp.id) }, s) := by
  simp [incoming, resolution, RequestTracker.handleIncoming_of_lookup_eq_none h, h]

/-- The resolution of a pending request by a response. -/
def resolve (req : PendingRequest Obs) (resp : RawResponse) : Resolution Obs :=
  { request := req
    id := resp.id
    body := resp.result
    handled :=
      { called := (req.handle resp.result).called
        result :=
          (req.handle resp.result).result.mapError (.cannotDeserializeResponse resp.id) } }

/-- A response to a pending id runs the handler of the request, which is no longer pending. -/
theorem incoming_of_lookup_eq_some {s : Session Obs} {resp : RawResponse}
    {req : PendingRequest Obs} (h : s.tracker.pending.lookup resp.id = some req) :
    s.incoming (.response resp) =
      ((resolve req resp).handled,
        { s with
          tracker := { pending := s.tracker.pending.erase resp.id }
          resolved := s.resolved ++ [resolve req resp] }) := by
  simp [incoming, resolution, RequestTracker.handleIncoming_of_lookup_eq_some h, h, resolve]

/-- Handling a message keeps a session consistent. -/
theorem Consistent.incoming {start : UInt32} {s : Session Obs} (h : Consistent start s)
    (msg : RawIncoming) : Consistent start (s.incoming msg).2 := by
  rcases msg with raw | resp
  · rwa [incoming_notification_snd]
  rcases hlookup : s.tracker.pending.lookup resp.id with _ | req
  · rwa [incoming_of_lookup_eq_none hlookup]
  rw [incoming_of_lookup_eq_some hlookup]
  obtain ⟨-, hid, -⟩ := h.filed _ _ hlookup
  refine { h with filed := h.filed.erase resp.id, resolved := ?_, accounted := ?_ }
  · intro r hr
    rcases List.mem_append.mp hr with hr | hr
    · exact h.resolved r hr
    · rw [List.mem_singleton.mp hr]
      exact ⟨hid, rfl, rfl⟩
  -- the request moves from the pending ones to the resolved ones
  · have haccounted := h.accounted
    rw [values_of_lookup hlookup] at haccounted
    have hreplaced : replaced { s with
        tracker := { pending := s.tracker.pending.erase resp.id }
        resolved := s.resolved ++ [resolve req resp] } = s.replaced := rfl
    rw [hreplaced, ← haccounted, ← Multiset.singleton_add]
    simp only [List.map_append, ← Multiset.coe_add, List.map_cons, List.map_nil,
      Multiset.coe_singleton, resolve]
    abel

end Session

end ElectrumStreamingClient
