import ElectrumStreamingClient.Foundations.Places
import ElectrumStreamingClient.Tracker.Run

/-!
# Exactly-once resolution

What a tracker does to its requests over a run without overruns, whatever the server sends. At any
time a tracked request is pending, resolved or cleared, and only one of these. It leaves the pending
ones by a `clear` or by the first later response with its id, which consumes its handler.
-/

namespace ElectrumStreamingClient

open Serde KeyedStore WrappingId

variable [Bitcoin] {Obs : Type}

/-- What a response with the given id and body does to the request of `req`. -/
structure Answers {Req : Type} [RequestExt Req] [Deserialize (Request.Response Req)] (req : Req)
    (callback : Option (ResponseResult (Request.Response Req) → Obs)) (id : UInt32)
    (body : Except Value Value) (handled : Handled Obs ProcessError) : Prop where
  /-- The callback gets the error, and nothing is returned. -/
  callbackError : ∀ cb err, callback = some cb → body = .error err →
    handled = { called := some (cb (.error { error := err })), result := .ok none }
  /-- The callback gets the decoded result, and nothing is returned. -/
  callbackOk : ∀ cb v resp, callback = some cb → body = .ok v →
    Deserialize.deserialize v = .ok resp →
      handled = { called := some (cb (.ok resp)), result := .ok none }
  /-- The event carries the request and the error. -/
  eventError : ∀ err, callback = none → body = .error err →
    handled =
      { called := none
        result := .ok (some (.responseError (RequestExt.intoFailed req { error := err }))) }
  /-- The event carries the request and the decoded result. -/
  eventOk : ∀ v resp, callback = none → body = .ok v → Deserialize.deserialize v = .ok resp →
    handled =
      { called := none
        result := .ok (some (.response (RequestExt.intoCompleted req resp))) }
  /-- A result that does not decode is an error, and no callback is run. -/
  undecodable : ∀ v err, body = .ok v →
    Deserialize.deserialize (T := Request.Response Req) v = .error err →
      handled = { called := none, result := .error (.cannotDeserializeResponse id err) }

namespace Session

/-- The resolution of a request by a response does what the request asked for. -/
theorem answers_resolve {Req : Type} [RequestExt Req] [Deserialize (Request.Response Req)]
    {req : Req} {callback : Option (ResponseResult (Request.Response Req) → Obs)}
    {p : PendingRequest Obs} (hp : p.IsFor req callback) (resp : RawResponse) :
    Answers req callback resp.id resp.result (resolve p resp).handled := by
  obtain ⟨version, id, body⟩ := resp
  -- the handler is that of the typed request, in each of its five cases
  simp only [resolve, PendingRequest.handle, hp.2]
  refine {
    callbackError := ?_, callbackOk := ?_, eventError := ?_, eventOk := ?_, undecodable := ?_ }
  · rintro cb err rfl rfl
    rfl
  · rintro cb v resp rfl rfl hdecode
    simp only [handler, hdecode]
    rfl
  · rintro err rfl rfl
    rfl
  · rintro v resp rfl rfl hdecode
    simp only [handler, hdecode]
    rfl
  · rintro v err rfl hdecode
    rcases callback with _ | cb <;>
    · simp only [handler, hdecode]
      rfl

/-- So it is with the resolutions that a session records. -/
theorem IsResolution.answers {start : UInt32} {r : Resolution Obs} (h : IsResolution start r)
    {Req : Type} [RequestExt Req] [Deserialize (Request.Response Req)] {req : Req}
    {callback : Option (ResponseResult (Request.Response Req) → Obs)}
    (hr : r.request.IsFor req callback) : Answers req callback r.id r.body r.handled := by
  have hanswers := answers_resolve hr { version := {}, id := r.id, result := r.body }
  have hhandled : r.handled =
      (resolve r.request { version := {}, id := r.id, result := r.body }).handled := by
    obtain ⟨request, id, body, called, result⟩ := r
    simp only [resolve, Handled.mk.injEq]
    exact ⟨h.called_eq, h.result_eq⟩
  rwa [hhandled]

/-- What one more call does to the pending requests of a session. -/
inductive StepResolves (s : Session Obs) : Input Obs → Session Obs → Prop
  /-- Tracking keeps the pending requests and adds those handed over. -/
  | track {reqs : RawOneOrMany (PendingRequest Obs)} {s' : Session Obs}
      (hpending : ∀ id p, s.tracker.pending.lookup id = some p →
        s'.tracker.pending.lookup id = some p)
      (hadded : values s'.tracker.pending = values s.tracker.pending +
        (PendingRequest.stampAll s.count reqs.intoVec : List _))
      (hresolved : s'.resolved = s.resolved) (hcleared : s'.cleared = s.cleared) :
      StepResolves s (.track reqs) s'
  /-- Clearing clears all of them. -/
  | clear {s' : Session Obs} (hpending : s'.tracker.pending = ∅)
      (hresolved : s'.resolved = s.resolved)
      (hcleared : (s'.cleared : Multiset (PendingRequest Obs)) =
        (s.cleared : Multiset _) + values s.tracker.pending) :
      StepResolves s .clear s'
  /-- A notification, decodable or not, changes nothing. -/
  | notification {raw : RawNotification}
      (hcalled : (s.incoming (.notification raw)).1.called = none)
      (hresult : (s.incoming (.notification raw)).1.result =
        match Notification.new raw with
        | .ok n => .ok (some (.notification n))
        | .error err => .error (.cannotDeserializeNotification raw.method raw.params err)) :
      StepResolves s (.incoming (.notification raw)) s
  /-- A response to an id that is not pending is an error, and changes nothing. -/
  | missing {resp : RawResponse} (hlookup : s.tracker.pending.lookup resp.id = none)
      (hhandled : (s.incoming (.response resp)).1 =
        { called := none, result := .error (.missingRequest resp.id) }) :
      StepResolves s (.incoming (.response resp)) s
  /-- A response to a pending id resolves that request, and no other. -/
  | resolved {resp : RawResponse} {p : PendingRequest Obs} {s' : Session Obs}
      (hlookup : s.tracker.pending.lookup resp.id = some p)
      (hgone : s'.tracker.pending.lookup resp.id = none)
      (hothers : ∀ id, id ≠ resp.id →
        s'.tracker.pending.lookup id = s.tracker.pending.lookup id)
      (hresolved : s'.resolved =
        s.resolved ++
          [{ request := p, id := resp.id, body := resp.result
             handled := (s.incoming (.response resp)).1 }])
      (hcleared : s'.cleared = s.cleared)
      (hanswers : ∀ (Req : Type) [RequestExt Req] [Deserialize (Request.Response Req)] (req : Req)
        (callback : Option (ResponseResult (Request.Response Req) → Obs)), p.IsFor req callback →
          Answers req callback resp.id resp.result (s.incoming (.response resp)).1) :
      StepResolves s (.incoming (.response resp)) s'

/-- Inserting under fresh ids keeps what is pending. -/
theorem lookup_foldl_add {start : UInt32} (reqs : List (PendingRequest Obs)) {s : Session Obs}
    (h : Consistent start s)
    (hreqs : reqs.map PendingRequest.ticket = List.range' s.count reqs.length)
    (hno : (reqs.foldl add s).NoOverrun) {id : UInt32} {p : PendingRequest Obs}
    (hp : s.tracker.pending.lookup id = some p) :
    (reqs.foldl add s).tracker.pending.lookup id = some p := by
  induction reqs generalizing s with
  | nil => exact hp
  | cons req reqs ih =>
    rw [List.map_cons, List.length_cons, List.range'_succ, List.cons.injEq] at hreqs
    have hcount : (s.add req).count = s.count + 1 := by simp [count, add]
    refine ih (h.add hreqs.1) (by rw [hcount]; exact hreqs.2) hno ?_
    -- the assignment of this request did not find its id taken
    have hfresh := h.lookup_nextId_eq_none hreqs.1 hno
    have hne : id ≠ s.nextId := by
      rintro rfl
      rw [hp] at hfresh
      cases hfresh
    simpa [add, AList.lookup_insert_ne hne] using hp

/-- What is pending after tracking is what was pending before, and the requests handed over. -/
theorem values_step_track {start : UInt32} {s : Session Obs} (h : Consistent start s)
    {reqs : RawOneOrMany (PendingRequest Obs)} (hno : (s.step (.track reqs)).NoOverrun) :
    values (s.step (.track reqs)).tracker.pending = values s.tracker.pending +
      (PendingRequest.stampAll s.count reqs.intoVec : List _) := by
  have h' := h.step (.track reqs)
  have hbefore := h.replaced_eq_nil_iff.mpr (hno.mono (assigned_step s (.track reqs)))
  have hafter := h'.replaced_eq_nil_iff.mpr hno
  have hassigned : (s.step (.track reqs)).assigned.map Assignment.request =
      s.assigned.map Assignment.request ++ PendingRequest.stampAll s.count reqs.intoVec := by
    rw [step, assigned_track, RawOneOrMany.intoVec_stampFrom]
  -- all of them are accounted for, before and after, and none was replaced
  have haccounted := h'.accounted
  rw [hassigned, ← Multiset.coe_add, ← h.accounted, hbefore, hafter] at haccounted
  have hresolved : (s.step (.track reqs)).resolved = s.resolved := rfl
  have hcleared : (s.step (.track reqs)).cleared = s.cleared := rfl
  rw [hresolved, hcleared, Multiset.coe_nil, add_zero, add_zero] at haccounted
  have hcancel : values (s.step (.track reqs)).tracker.pending +
      ((s.resolved.map Resolution.request : List _) + (s.cleared : List _)) =
        values s.tracker.pending + (PendingRequest.stampAll s.count reqs.intoVec : List _) +
          ((s.resolved.map Resolution.request : List _) + (s.cleared : List _)) := by
    rw [← add_assoc, haccounted]
    abel
  exact add_right_cancel hcancel

/-- Without overruns every call does one of these. -/
theorem stepResolves_step {start : UInt32} {s : Session Obs} (h : Consistent start s)
    (input : Input Obs) (hno : (s.step input).NoOverrun) : StepResolves s input (s.step input) := by
  rcases input with reqs | msg | _
  · have hadded := values_step_track h hno
    simp only [step, track_snd] at hno hadded ⊢
    refine .track (fun id p hp => lookup_foldl_add _ h (by simp) hno hp) hadded ?_ ?_
    · rw [foldl_add]
    · rw [foldl_add]
  · rcases msg with raw | resp
    -- a notification does not touch the tracker, whether it decodes or not
    · simp only [step]
      rw [incoming_notification_snd]
      rcases hnew : Notification.new raw with err | n
      · refine .notification ?_ ?_ <;> simp [incoming, RequestTracker.handleIncoming, hnew]
      · refine .notification ?_ ?_ <;> simp [incoming, RequestTracker.handleIncoming, hnew]
    · rcases hlookup : s.tracker.pending.lookup resp.id with _ | p
      · simp only [step, incoming_of_lookup_eq_none hlookup]
        exact .missing hlookup (by rw [incoming_of_lookup_eq_none hlookup])
      · simp only [step]
        refine .resolved hlookup ?_ ?_ ?_ ?_ ?_
        · rw [incoming_of_lookup_eq_some hlookup]
          exact AList.lookup_erase _ _
        · intro id hid
          rw [incoming_of_lookup_eq_some hlookup]
          exact AList.lookup_erase_ne hid
        · rw [incoming_of_lookup_eq_some hlookup]
          rfl
        · rw [incoming_of_lookup_eq_some hlookup]
        · intro Req _ _ req callback hp
          rw [incoming_of_lookup_eq_some hlookup]
          exact answers_resolve hp resp
  · refine .clear rfl rfl ?_
    rw [step, clear, ← Multiset.coe_add]
    rfl

/-- A call that is neither a `clear` nor a response with the given id. -/
def Spares (id : UInt32) : Input Obs → Prop
  | .track _ => True
  | .incoming (.notification _) => True
  | .incoming (.response resp) => resp.id ≠ id
  | .clear => False

/-- Such a call keeps the request pending under that id. -/
theorem StepResolves.lookup_of_spares {s s' : Session Obs} {input : Input Obs}
    (h : StepResolves s input s') {id : UInt32} (hspares : Spares id input)
    {p : PendingRequest Obs} (hp : s.tracker.pending.lookup id = some p) :
    s'.tracker.pending.lookup id = some p := by
  cases h with
  | track hpending _ => exact hpending id p hp
  | clear => exact hspares.elim
  | notification => exact hp
  | missing => exact hp
  | resolved _ _ hothers => rwa [hothers id (Ne.symm hspares)]

/-- A pending request stays pending until a `clear` or a response with its id. -/
theorem lookup_run_append {start : UInt32} {inputs later : List (Input Obs)}
    (hno : (run start (inputs ++ later)).NoOverrun) {id : UInt32} {p : PendingRequest Obs}
    (hp : (run start inputs).tracker.pending.lookup id = some p)
    (hspares : ∀ input ∈ later, Spares id input) :
    (run start (inputs ++ later)).tracker.pending.lookup id = some p := by
  -- the later calls are made one by one, each of them sparing the request
  induction later using List.reverseRecOn with
  | nil => simpa using hp
  | append_singleton later input ih =>
    rw [← List.append_assoc] at hno ⊢
    have hrest := ih hno.of_append fun i hi => hspares i (List.mem_append_left _ hi)
    rw [run_concat] at hno ⊢
    exact (stepResolves_step (consistent_run start _) input hno).lookup_of_spares
      (hspares input (by simp)) hrest

/-! ## Where the requests are -/

/-- The places of a request that was handed to a tracker. -/
inductive Place where
  | pending
  | resolved
  | cleared
  deriving DecidableEq

instance : Fintype Place :=
  ⟨{.pending, .resolved, .cleared}, fun place => by cases place <;> decide⟩

/-- The requests in a place. -/
def requestsAt (s : Session Obs) : Place → Multiset (PendingRequest Obs)
  | .pending => values s.tracker.pending
  | .resolved => (s.resolved.map Resolution.request : List _)
  | .cleared => (s.cleared : List _)

theorem sum_requestsAt (s : Session Obs) :
    ∑ place, s.requestsAt place = values s.tracker.pending +
      (s.resolved.map Resolution.request : List _) + (s.cleared : List _) := by
  have huniv : (Finset.univ : Finset Place) = {.pending, .resolved, .cleared} := rfl
  rw [huniv, Finset.sum_insert (by decide), Finset.sum_insert (by decide), Finset.sum_singleton,
    ← add_assoc]
  rfl

/-- What has become of the requests that were handed to the tracker in a run. -/
structure Disposes (start : UInt32) (inputs : List (Input Obs)) : Prop where
  /-- The three places hold these requests, with the handlers they came with, and no others. -/
  hold : Places.Hold (run start inputs).requestsAt (PendingRequest.stampAll 0 (tracked inputs))
  /-- Each is pending, resolved or cleared, and only one of these. -/
  place : ∀ (i : ℕ) (p : PendingRequest Obs), (tracked inputs)[i]? = some p →
    ∃! place, p.stamp i ∈ (run start inputs).requestsAt place
  /-- What is filed under an id is the request that was sent with it. -/
  filed : ∀ id q, (run start inputs).tracker.pending.lookup id = some q →
    ∃ (i : ℕ) (p : PendingRequest Obs), (tracked inputs)[i]? = some p ∧ q = p.stamp i ∧
      (run start inputs).sent[i]? = some (p.toRaw id)
  /-- A resolved request was sent with the id of the response, which did what it asked for. -/
  answered : ∀ r ∈ (run start inputs).resolved,
    ∃ (i : ℕ) (p : PendingRequest Obs), (tracked inputs)[i]? = some p ∧ r.request = p.stamp i ∧
      (run start inputs).sent[i]? = some (p.toRaw r.id) ∧
      ∀ (Req : Type) [RequestExt Req] [Deserialize (Request.Response Req)] (req : Req)
        (callback : Option (ResponseResult (Request.Response Req) → Obs)), p.IsFor req callback →
          Answers req callback r.id r.body r.handled

/-- A run without overruns holds the requests that were handed to it. -/
theorem hold_run {start : UInt32} {inputs : List (Input Obs)} (hno : (run start inputs).NoOverrun) :
    Places.Hold (run start inputs).requestsAt
      (PendingRequest.stampAll 0 (tracked inputs)) where
  sum := by
    -- without overruns no request was replaced, so all are accounted for in the three places
    have h := consistent_run start inputs
    have haccounted := h.accounted
    rw [h.replaced_eq_nil_iff.mpr hno, Multiset.coe_nil, add_zero, assigned_run] at haccounted
    rw [sum_requestsAt, haccounted]
  nodup := PendingRequest.nodup_stampAll 0 _

/-- A run without overruns disposes of the requests that were handed to it. -/
theorem disposes_run {start : UInt32} {inputs : List (Input Obs)}
    (hno : (run start inputs).NoOverrun) : Disposes start inputs := by
  have h := consistent_run start inputs
  have hhold := hold_run hno
  -- what is in a place was handed over, under the ticket of its place
  have htracked (place : Place) {q : PendingRequest Obs}
      (hq : q ∈ (run start inputs).requestsAt place) :
      ∃ (i : ℕ) (p : PendingRequest Obs), (tracked inputs)[i]? = some p ∧ q = p.stamp i := by
    obtain ⟨i, p, hp, hstamp⟩ := PendingRequest.mem_stampAll.mp (hhold.mem_of_mem hq)
    rw [Nat.zero_add] at hstamp
    exact ⟨i, p, hp, hstamp⟩
  refine { hold := hhold, place := ?_, filed := ?_, answered := ?_ }
  · intro i p hp
    apply hhold.existsUnique
    exact PendingRequest.mem_stampAll.mpr ⟨i, p, hp, by rw [Nat.zero_add]⟩
  · intro id q hq
    obtain ⟨i, p, hp, rfl⟩ := htracked .pending (mem_values.mpr ⟨id, hq⟩)
    obtain ⟨-, rfl, -⟩ := h.filed _ _ hq
    exact ⟨i, p, hp, rfl, getElem?_sent_run hp⟩
  · intro r hr
    obtain ⟨i, p, hp, hrequest⟩ :=
      htracked .resolved (Multiset.mem_coe.mpr (List.mem_map_of_mem hr))
    have hresolution := h.resolved r hr
    have hid : r.id = idAt start i := by
      rw [hresolution.id_eq, hrequest]
      rfl
    refine ⟨i, p, hp, hrequest, hid ▸ getElem?_sent_run hp, ?_⟩
    intro Req _ _ req callback hfor
    -- the ticket is no part of what the request is for
    have hfor' : r.request.IsFor req callback := by
      rw [hrequest]
      exact hfor
    exact hresolution.answers hfor'

/-- A run resolves each of its requests once. -/
structure ExactlyOnce (start : UInt32) (inputs : List (Input Obs)) : Prop where
  /-- At any time, every request handed over so far is in one place. -/
  disposes : ∀ before, before <+: inputs → Disposes start before
  /-- Each call resolves at most the request it is a response to. -/
  step : ∀ before input, before ++ [input] <+: inputs →
    StepResolves (run start before) input (run start (before ++ [input]))
  /-- A pending request is resolved by the first later response with its id, if no `clear` comes
  before it. -/
  firstResponse : ∀ before later resp p,
    before ++ later ++ [.incoming (.response resp)] <+: inputs →
    (run start before).tracker.pending.lookup resp.id = some p →
    (∀ input ∈ later, Spares resp.id input) →
      (run start (before ++ later ++ [.incoming (.response resp)])).resolved =
        (run start (before ++ later)).resolved ++ [resolve p resp]

/-- In every run in which no request is still pending when the `2 ^ 32`-th later one is tracked,
each request is resolved exactly once. -/
theorem exactlyOnce_of_noOverrun (start : UInt32) (inputs : List (Input Obs))
    (hno : (run start inputs).NoOverrun) : ExactlyOnce start inputs where
  disposes before hgrow := by
    obtain ⟨after, rfl⟩ := hgrow
    exact disposes_run hno.of_append
  step before input hgrow := by
    obtain ⟨after, rfl⟩ := hgrow
    have hbefore := hno.of_append
    rw [run_concat] at hbefore ⊢
    exact stepResolves_step (consistent_run start before) input hbefore
  firstResponse before later resp p hgrow hp hspares := by
    obtain ⟨after, rfl⟩ := hgrow
    have hlater := lookup_run_append hno.of_append.of_append hp hspares
    rw [run_concat, step, incoming_of_lookup_eq_some hlater]

end Session

/-- Keep the connection alive, and hand the answer to the caller. -/
def ping : PendingRequest (ResponseResult Value) :=
  PendingRequest.new ({ method := "server.ping", params := [] } : Request.Custom) (some id)

/-- A request is answered, answered again, and the tracker cleared. -/
def answeredTwice : List (Input (ResponseResult Value)) :=
  [.track (.single ping),
    .incoming (.response { version := {}, id := 7, result := .ok .null }),
    .incoming (.response { version := {}, id := 7, result := .error .null }), .clear]

omit [Bitcoin] in
/-- The caller gets the first answer, and only that. -/
theorem exactlyOnce_of_noOverrun_answeredTwice :
    letI : Bitcoin := bareBitcoin
    Session.ExactlyOnce 7 answeredTwice ∧
      (Session.run 7 answeredTwice).resolved.map (fun r => r.handled.called) =
        [some (.ok .null)] :=
  letI : Bitcoin := bareBitcoin
  ⟨Session.exactlyOnce_of_noOverrun 7 answeredTwice
    ((Session.consistent_run 7 answeredTwice).noOverrun_of_count_le (by decide)), rfl⟩

end ElectrumStreamingClient
