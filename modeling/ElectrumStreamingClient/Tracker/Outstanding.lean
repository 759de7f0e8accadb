import ElectrumStreamingClient.Foundations.KeyedLog
import ElectrumStreamingClient.Tracker.Run

/-!
# Outstanding requests

`pending_requests` against a log of the traffic: what was sent, which ids were answered, and when
the tracker was cleared. In a run without overruns the pending requests are those that remain of the
sent ones, each as it was sent and as its typed request is encoded, so that a client may send them
again on another connection.
-/

namespace ElectrumStreamingClient

open Serde KeyedStore KeyedLog WrappingId

variable [Bitcoin] {Obs : Type}

namespace Session

/-- What a call adds to the log: the raw requests it returns, the id of a response that was
handled, whether it decoded or not, or that the tracker was cleared. -/
def traffic (s : Session Obs) : Input Obs → List (Entry UInt32 RawRequest)
  | .track reqs => [.added (s.track (reqs.stampFrom s.count)).1.intoVec]
  | .incoming (.notification _) => []
  | .incoming (.response resp) =>
    match (s.incoming (.response resp)).1.result with
    | .error (.missingRequest _) => []
    -- the request was taken out before its answer was decoded
    | .error (.cannotDeserializeResponse ..) => [.removed resp.id]
    | .error (.cannotDeserializeNotification ..) => []
    | .ok _ => [.removed resp.id]
  | .clear => [.cleared]

/-- The log of the calls made from a session on. -/
def trafficLog : Session Obs → List (Input Obs) → List (Entry UInt32 RawRequest)
  | _, [] => []
  | s, input :: inputs => s.traffic input ++ trafficLog (s.step input) inputs

theorem trafficLog_concat (s : Session Obs) (inputs : List (Input Obs)) (input : Input Obs) :
    trafficLog s (inputs ++ [input]) =
      trafficLog s inputs ++ (inputs.foldl step s).traffic input := by
  induction inputs generalizing s with
  | nil => exact List.append_nil _
  | cons first inputs ih => rw [List.cons_append, trafficLog, ih, ← List.append_assoc]; rfl

/-! ## One call -/

theorem pendingRequests_eq (tracker : RequestTracker Obs) :
    tracker.pendingRequests = tracker.pending.entries.map fun e => e.2.toRaw e.1 := rfl

/-- Tracking requests adds what is returned for them to the pending ones. -/
theorem pendingRequests_foldl_add {start : UInt32} (reqs : List (PendingRequest Obs))
    {s : Session Obs} (h : Consistent start s)
    (hreqs : reqs.map PendingRequest.ticket = List.range' s.count reqs.length)
    (hno : (reqs.foldl add s).NoOverrun) :
    (reqs.foldl add s).tracker.pendingRequests.Perm
      (s.tracker.pendingRequests ++ (s.tracker.addRequests s.nextId reqs).1) := by
  -- over the batch: the first request makes a session in which the others are tracked
  induction reqs generalizing s with
  | nil => simp [RequestTracker.addRequests]
  | cons req reqs ih =>
    rw [List.map_cons, List.length_cons, List.range'_succ, List.cons.injEq] at hreqs
    have hcount : (s.add req).count = s.count + 1 := by simp [count, add]
    have hrest := ih (h.add hreqs.1) (by rw [hcount]; exact hreqs.2) hno
    -- the id of the first request is free
    have hfresh := h.lookup_nextId_eq_none hreqs.1 hno
    have hadd : (s.add req).tracker.pendingRequests =
        req.toRaw s.nextId :: s.tracker.pendingRequests := by
      show ((s.tracker.pending.insert s.nextId req).entries.map _) = _
      rw [AList.entries_insert_of_notMem (AList.lookup_eq_none.mp hfresh)]
      rfl
    rw [hadd] at hrest
    exact hrest.trans List.perm_middle.symm

/-- A response to a pending id is handled, and takes that request out. -/
theorem traffic_of_lookup_eq_some {s : Session Obs} {resp : RawResponse} {p : PendingRequest Obs}
    (h : s.tracker.pending.lookup resp.id = some p) :
    s.traffic (.incoming (.response resp)) = [.removed resp.id] := by
  simp only [traffic, incoming_of_lookup_eq_some h, resolve]
  cases (p.handle resp.result).result <;> rfl

/-- A response under an id that is not pending is no traffic. -/
theorem traffic_of_lookup_eq_none {s : Session Obs} {resp : RawResponse}
    (h : s.tracker.pending.lookup resp.id = none) :
    s.traffic (.incoming (.response resp)) = [] := by
  simp only [traffic, incoming_of_lookup_eq_none h]

/-- A call that overruns nothing does to the pending requests what it does to the log. -/
theorem pendingRequests_step {start : UInt32} {s : Session Obs}
    {log : List (Entry UInt32 RawRequest)} (h : Consistent start s) (input : Input Obs)
    (hno : (s.step input).NoOverrun)
    (hlog : s.tracker.pendingRequests.Perm (remaining RawRequest.id log)) :
    (s.step input).tracker.pendingRequests.Perm
      (remaining RawRequest.id (log ++ s.traffic input)) := by
  cases input with
  | track reqs =>
    rw [step, track_snd] at hno ⊢
    rw [traffic, remaining_concat_added]
    obtain ⟨hraws, -⟩ := s.tracker.trackRequest_eq s.nextId (reqs.stampFrom s.count)
    have hpending := pendingRequests_foldl_add _ h (by simp) hno
    rw [← hraws] at hpending
    exact hpending.trans (hlog.append_right _)
  | incoming msg =>
    cases msg with
    | notification raw =>
      rw [step, incoming_notification_snd, traffic, List.append_nil]
      exact hlog
    | response resp =>
      cases hlookup : s.tracker.pending.lookup resp.id with
      | none =>
        rw [traffic_of_lookup_eq_none hlookup, step, incoming_of_lookup_eq_none hlookup,
          List.append_nil]
        exact hlog
      | some p =>
        rw [traffic_of_lookup_eq_some hlookup, remaining_concat_removed, step,
          incoming_of_lookup_eq_some hlookup]
        -- ids are keys, so erasing one filters the raw requests by it
        have herase : RequestTracker.pendingRequests
            { pending := s.tracker.pending.erase resp.id } =
              s.tracker.pendingRequests.filter fun raw => raw.id ≠ resp.id := by
          rw [pendingRequests_eq, pendingRequests_eq, entries_erase, List.filter_map]
          rfl
        rw [herase]
        exact hlog.filter _
  | clear =>
    rw [traffic, remaining_concat_cleared]
    exact List.Perm.refl _

/-! ## A run -/

/-- Without overruns the pending requests are those that remain. -/
theorem pendingRequests_run (id : UInt32) (inputs : List (Input Obs))
    (hno : (run id inputs).NoOverrun) :
    (run id inputs).tracker.pendingRequests.Perm
      (remaining RawRequest.id (trafficLog (start id) inputs)) := by
  induction inputs using List.reverseRecOn with
  | nil => exact List.Perm.refl _
  | append_singleton inputs input ih =>
    have hlog := ih hno.of_append
    rw [run_concat] at hno ⊢
    rw [trafficLog_concat]
    exact pendingRequests_step (consistent_run id inputs) input hno hlog

/-- A pending request is the one that was sent for the request in its place. -/
theorem Consistent.asSent {id : UInt32} {inputs : List (Input Obs)} {raw : RawRequest}
    (h : Consistent id (run id inputs))
    (hraw : raw ∈ (run id inputs).tracker.pendingRequests) :
    ∃ (i : ℕ) (p : PendingRequest Obs), (run id inputs).sent[i]? = some raw ∧
      (tracked inputs)[i]? = some p ∧ raw = p.toRaw raw.id := by
  obtain ⟨⟨rawId, p⟩, hentry, rfl⟩ := List.mem_map.mp hraw
  -- its ticket is the place at which it was handed over and sent
  have hlookup := AList.mem_lookup_iff.mpr hentry
  obtain ⟨a, ha, hrequest⟩ := h.assigned_of_lookup hlookup
  have hassigned : ((run id inputs).assigned.map Assignment.request)[p.ticket]? = some p := by
    rw [List.getElem?_map, ha, Option.map_some, hrequest]
  rw [assigned_run, PendingRequest.getElem?_stampAll, Option.map_eq_some_iff] at hassigned
  obtain ⟨q, hq, hstamp⟩ := hassigned
  refine ⟨p.ticket, q, h.sent_of_lookup hlookup, hq, ?_⟩
  -- the ticket is no part of what is sent
  show p.toRaw rawId = q.toRaw rawId
  rw [← hstamp]
  rfl

/-- The pending requests are what a client has to send again on another connection. -/
structure ResendsOutstanding (id : UInt32) (inputs : List (Input Obs)) : Prop where
  /-- They are the raw requests that were sent and neither answered nor cleared since. -/
  pending : ((run id inputs).tracker.pendingRequests : Multiset RawRequest) =
    remaining RawRequest.id (trafficLog (start id) inputs)
  /-- Each is what was sent for a typed request, and what that is encoded as under its id. -/
  asSent : ∀ raw ∈ (run id inputs).tracker.pendingRequests,
    ∃ (i : ℕ) (p : PendingRequest Obs),
      (run id inputs).sent[i]? = some raw ∧ (tracked inputs)[i]? = some p ∧
      ∀ (Req : Type) [RequestExt Req] [Deserialize (Request.Response Req)] (req : Req)
        (callback : Option (ResponseResult (Request.Response Req) → Obs)),
        p.IsFor req callback → raw = RawRequest.fromRequest raw.id req

/-- In every run in which no request is still pending when the `2 ^ 32`-th later one is tracked,
the pending requests are those that were sent and neither answered nor cleared since. -/
theorem resendsOutstanding_of_noOverrun (id : UInt32) (inputs : List (Input Obs))
    (hno : (run id inputs).NoOverrun) : ResendsOutstanding id inputs where
  pending := Multiset.coe_eq_coe.mpr (pendingRequests_run id inputs hno)
  asSent raw hraw := by
    obtain ⟨i, p, hsent, htracked, heq⟩ := (consistent_run id inputs).asSent hraw
    refine ⟨i, p, hsent, htracked, ?_⟩
    intro Req _ _ req callback hp
    rw [heq, PendingRequest.toRaw, PendingRequest.toMethodAndParams, hp.1]
    rfl

end Session

/-- Keep the connection alive, with the answer as an event. -/
def pingRequest : PendingRequest Unit :=
  PendingRequest.event ({} : Request.Ping)

/-- Two requests are tracked, and the first is answered. -/
def firstAnswered : List (Input Unit) :=
  [.track (.batch [pingRequest, pingRequest]),
    .incoming (.response { version := {}, id := 7, result := .ok .null })]

omit [Bitcoin] in
/-- The second one remains. -/
theorem resendsOutstanding_of_noOverrun_firstAnswered :
    letI : Bitcoin := bareBitcoin
    ((Session.run 7 firstAnswered).tracker.pendingRequests : Multiset RawRequest) =
      {RawRequest.fromRequest 8 ({} : Request.Ping)} := by
  let _ : Bitcoin := bareBitcoin
  have hcount : (Session.run 7 firstAnswered).count ≤ period := by decide
  have hno := (Session.consistent_run 7 firstAnswered).noOverrun_of_count_le hcount
  exact (Session.resendsOutstanding_of_noOverrun 7 firstAnswered hno).pending

end ElectrumStreamingClient
