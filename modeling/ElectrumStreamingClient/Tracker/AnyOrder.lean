import ElectrumStreamingClient.Tracker.Run

/-!
# Answers in any order

What the answers to requests do does not depend on the schedule: neither on the order in which the
answers come, nor on which requests are tracked between two of them, nor on which requests are
tracked together in a batch. All that is asked of a schedule is that no request is answered twice,
or before it is tracked.
-/

namespace ElectrumStreamingClient

open Serde KeyedStore WrappingId

variable [Bitcoin] {Obs : Type}

/-- The message of a call. -/
def Input.message? : Input Obs → Option RawIncoming
  | .incoming msg => some msg
  | _ => none

/-- The id that a message answers. -/
def RawIncoming.responseId? : RawIncoming → Option UInt32
  | .response resp => some resp.id
  | .notification _ => none

/-- The ids answered by calls, in order. -/
def answeredIds (inputs : List (Input Obs)) : List UInt32 :=
  (inputs.filterMap Input.message?).filterMap RawIncoming.responseId?

/-- The requests of calls, with their tickets. -/
def requestsOf (inputs : List (Input Obs)) : List (PendingRequest Obs) :=
  PendingRequest.stampAll 0 (tracked inputs)

/-- A schedule, from a counter that starts at `id`, of at most as many requests as there are ids,
in which each is answered at most once and after it has been tracked, and none is cleared. -/
structure Orderly (id : UInt32) (inputs : List (Input Obs)) : Prop where
  uncleared : .clear ∉ inputs
  few : (requestsOf inputs).length ≤ period
  once : (answeredIds inputs).Nodup
  asked : ∀ n resp, inputs[n]? = some (.incoming (.response resp)) →
    ∃ p ∈ requestsOf (inputs.take n), resp.id = idAt id p.ticket

/-- What handling a message does when the given requests have been tracked. -/
def answer (id : UInt32) (reqs : List (PendingRequest Obs)) :
    RawIncoming → Handled Obs ProcessError
  | .notification raw => (RequestTracker.new.handleIncoming (.notification raw)).1
  | .response resp =>
    match reqs.find? fun p => resp.id = idAt id p.ticket with
    | some p => (Session.resolve p resp).handled
    | none => { called := none, result := .error (.missingRequest resp.id) }

namespace Session

/-- The messages of calls, each with what handling it did. -/
def outcomes (s : Session Obs) :
    List (Input Obs) → List (RawIncoming × Handled Obs ProcessError)
  | [] => []
  | input :: inputs =>
    (input.message?.map fun msg => (msg, (s.incoming msg).1)).toList ++
      (s.step input).outcomes inputs

theorem outcomes_append (s : Session Obs) (xs ys : List (Input Obs)) :
    s.outcomes (xs ++ ys) = s.outcomes xs ++ (xs.foldl step s).outcomes ys := by
  induction xs generalizing s with
  | nil => rfl
  | cons x xs ih =>
    rw [List.cons_append, outcomes, ih, outcomes, List.foldl_cons, List.append_assoc]

end Session

/-- Later requests have the tickets behind those of the earlier ones. -/
theorem requestsOf_append (xs ys : List (Input Obs)) :
    requestsOf (xs ++ ys) = requestsOf xs ++
      PendingRequest.stampAll (requestsOf xs).length (ys.flatMap Input.requests) := by
  simp [requestsOf, tracked, PendingRequest.stampAll_append]

theorem answeredIds_append (xs ys : List (Input Obs)) :
    answeredIds (xs ++ ys) = answeredIds xs ++ answeredIds ys := by
  rw [answeredIds, List.filterMap_append, List.filterMap_append, answeredIds, answeredIds]

/-- The first part of an orderly schedule is orderly. -/
theorem Orderly.of_append {id : UInt32} {xs ys : List (Input Obs)} (h : Orderly id (xs ++ ys)) :
    Orderly id xs where
  uncleared hmem := h.uncleared (List.mem_append_left _ hmem)
  few := by
    have hfew := h.few
    rw [requestsOf_append, List.length_append] at hfew
    exact (Nat.le_add_right _ _).trans hfew
  once := by
    have honce := h.once
    rw [answeredIds_append] at honce
    exact honce.of_append_left
  asked n resp hn := by
    have hlt := (List.getElem?_eq_some_iff.mp hn).1
    have hasked := h.asked n resp (by rw [List.getElem?_append_left hlt, hn])
    rwa [List.take_append_of_le_length hlt.le] at hasked

/-- An answer finds its request, which was not answered before. -/
theorem Orderly.found {id : UInt32} {xs ys : List (Input Obs)} {resp : RawResponse}
    (h : Orderly id (xs ++ .incoming (.response resp) :: ys)) :
    ∃ p ∈ requestsOf xs, resp.id = idAt id p.ticket ∧ resp.id ∉ answeredIds xs := by
  obtain ⟨p, hp, hid⟩ := h.asked xs.length resp (by simp)
  rw [List.take_left] at hp
  refine ⟨p, hp, hid, fun hmem => ?_⟩
  have honce := h.once
  rw [answeredIds_append] at honce
  exact List.disjoint_of_nodup_append honce hmem List.mem_cons_self

/-- Requests of a schedule with the same id are the same. -/
theorem Orderly.eq_of_idAt_eq {id : UInt32} {inputs : List (Input Obs)} (h : Orderly id inputs)
    {p q : PendingRequest Obs} (hp : p ∈ requestsOf inputs) (hq : q ∈ requestsOf inputs)
    (hid : idAt id p.ticket = idAt id q.ticket) : p = q := by
  have htickets : (requestsOf inputs).map PendingRequest.ticket =
      List.range' 0 (requestsOf inputs).length := by
    rw [requestsOf, PendingRequest.tickets_stampAll, PendingRequest.length_stampAll]
  -- so few tickets have different ids
  have hlt : ∀ p ∈ requestsOf inputs, p.ticket < period := by
    intro p hp
    have hmem := List.mem_map_of_mem (f := PendingRequest.ticket) hp
    rw [htickets, List.mem_range'_1] at hmem
    have hfew := h.few
    omega
  have hnodup : ((requestsOf inputs).map PendingRequest.ticket).Nodup := by
    rw [htickets]
    exact List.nodup_range'
  exact List.inj_on_of_nodup_map hnodup hp hq
    (WrappingId.eq_of_idAt_eq hid (hlt p hp) (hlt q hq))

namespace Session

/-- The requests of an orderly run that are pending are those not answered, once the answered ones
are known to be resolved. -/
theorem lookup_iff_of_resolved {id : UInt32} {inputs : List (Input Obs)} (h : Orderly id inputs)
    (hresolved : (run id inputs).resolved.map Resolution.id = answeredIds inputs)
    (hcleared : (run id inputs).cleared = []) {i : UInt32} {p : PendingRequest Obs} :
    (run id inputs).tracker.pending.lookup i = some p ↔
      p ∈ requestsOf inputs ∧ i = idAt id p.ticket ∧ i ∉ answeredIds inputs := by
  have hconsistent := consistent_run id inputs
  have hcount : (run id inputs).count = (requestsOf inputs).length := by
    rw [requestsOf, ← assigned_run id inputs, List.length_map, count]
  have hreplaced : (run id inputs).replaced = [] :=
    hconsistent.replaced_eq_nil_iff.mpr (hconsistent.noOverrun_of_count_le (hcount ▸ h.few))
  have hmem {p : PendingRequest Obs} : p ∈ requestsOf inputs ↔
      p ∈ values (run id inputs).tracker.pending ∨
        p ∈ (run id inputs).resolved.map Resolution.request := by
    rw [requestsOf, ← assigned_run id inputs, ← Multiset.mem_coe, ← hconsistent.accounted, hcleared,
      hreplaced]
    simp
  constructor
  · intro hlookup
    obtain ⟨hlt, rfl, -⟩ := hconsistent.filed _ _ hlookup
    refine ⟨hmem.mpr (.inl (mem_values.mpr ⟨_, hlookup⟩)), rfl, fun hanswered => ?_⟩
    -- a request that was answered under its id has been resolved, and is not pending
    rw [← hresolved, List.mem_map] at hanswered
    obtain ⟨r, hr, hid⟩ := hanswered
    have hrequest := h.eq_of_idAt_eq (hmem.mpr (.inr (List.mem_map_of_mem hr)))
      (hmem.mpr (.inl (mem_values.mpr ⟨_, hlookup⟩))) ((hconsistent.resolved r hr).id_eq ▸ hid)
    have honce := hconsistent.count_tickets hlt
    have hpending : 0 < (run id inputs).pendingTickets.count p.ticket :=
      Multiset.count_pos.mpr (mem_pendingTickets.mpr ⟨p, mem_values.mpr ⟨_, hlookup⟩, rfl⟩)
    have hresolved' : 0 < (run id inputs).resolvedTickets.count p.ticket := by
      rw [Multiset.count_pos, resolvedTickets, Multiset.mem_coe, ← hrequest]
      exact List.mem_map_of_mem (f := fun r => r.request.ticket) hr
    omega
  · rintro ⟨hp, rfl, hunanswered⟩
    rcases hmem.mp hp with hpending | hr
    · exact hconsistent.lookup_of_ticket hpending
    · obtain ⟨r, hmem, rfl⟩ := List.mem_map.mp hr
      refine absurd ?_ hunanswered
      rw [← hresolved, ← (hconsistent.resolved r hmem).id_eq]
      exact List.mem_map_of_mem hmem

/-- In an orderly run every answer finds its request. -/
theorem resolved_run {id : UInt32} {inputs : List (Input Obs)} (h : Orderly id inputs) :
    (run id inputs).resolved.map Resolution.id = answeredIds inputs ∧
      (run id inputs).cleared = [] := by
  induction inputs using List.reverseRecOn with
  | nil => exact ⟨rfl, rfl⟩
  | append_singleton inputs input ih =>
    obtain ⟨hresolved, hcleared⟩ := ih h.of_append
    rw [run_concat, answeredIds_append, ← hresolved]
    rcases input with reqs | (raw | resp) | _
    · refine ⟨?_, hcleared⟩
      simp [step, Session.track, answeredIds, Input.message?]
    · rw [step, incoming_notification_snd]
      refine ⟨?_, hcleared⟩
      simp [answeredIds, Input.message?, RawIncoming.responseId?]
    -- the request of a response is still pending, so it is resolved now
    · obtain ⟨p, hp, hid, hunanswered⟩ := h.found
      have hlookup := (lookup_iff_of_resolved h.of_append hresolved hcleared).mpr
        ⟨hp, hid, hunanswered⟩
      rw [step, incoming_of_lookup_eq_some hlookup]
      refine ⟨?_, hcleared⟩
      simp [answeredIds, Input.message?, RawIncoming.responseId?, resolve]
    -- an orderly schedule does not clear
    · exact absurd (List.mem_append_right _ List.mem_cons_self) h.uncleared

/-- The requests of an orderly run that are pending are those not answered. -/
theorem lookup_run_iff {id : UInt32} {inputs : List (Input Obs)} (h : Orderly id inputs)
    {i : UInt32} {p : PendingRequest Obs} :
    (run id inputs).tracker.pending.lookup i = some p ↔
      p ∈ requestsOf inputs ∧ i = idAt id p.ticket ∧ i ∉ answeredIds inputs :=
  lookup_iff_of_resolved h (resolved_run h).1 (resolved_run h).2

/-- A response to a tracked request is answered by its handler. -/
theorem answer_of_mem {id : UInt32} {inputs : List (Input Obs)} (h : Orderly id inputs)
    {p : PendingRequest Obs} (hp : p ∈ requestsOf inputs) {resp : RawResponse}
    (hid : resp.id = idAt id p.ticket) :
    answer id (requestsOf inputs) (.response resp) = (resolve p resp).handled := by
  rcases hfind : (requestsOf inputs).find? fun p => resp.id = idAt id p.ticket with _ | q
  · have hnone := List.find?_eq_none.mp hfind p hp
    simp [hid] at hnone
  · have hq : resp.id = idAt id q.ticket := by simpa using List.find?_some hfind
    have hsame : q = p := h.eq_of_idAt_eq (List.mem_of_find?_eq_some hfind) hp (hq.symm.trans hid)
    rw [answer, hfind, hsame]

/-- What the messages of the first calls do is told by the requests of all of them. -/
theorem outcomes_eq {id : UInt32} (xs ys : List (Input Obs)) (h : Orderly id (xs ++ ys)) :
    (start id).outcomes xs = (xs.filterMap Input.message?).map fun msg =>
      (msg, answer id (requestsOf (xs ++ ys)) msg) := by
  induction xs using List.reverseRecOn generalizing ys with
  | nil => rfl
  | append_singleton xs x ih =>
    have hrest : xs ++ [x] ++ ys = xs ++ (x :: ys) := by rw [List.append_assoc]; rfl
    rw [hrest] at h ⊢
    rw [outcomes_append, ih _ h, List.filterMap_append, List.map_append]
    congr 1
    rcases x with reqs | (raw | resp) | _
    · rfl
    · -- a notification does not look at the tracker
      have hfirst : ((run id xs).incoming (.notification raw)).1 =
          answer id (requestsOf (xs ++ .incoming (.notification raw) :: ys))
            (.notification raw) := by
        simp only [incoming, answer, RequestTracker.handleIncoming]
        split <;> rfl
      simp [outcomes, Input.message?, ← hfirst, run]
    -- a response finds its request, whatever was tracked or answered in between
    · obtain ⟨p, hp, hid, hunanswered⟩ := h.found
      have hlookup := (lookup_run_iff h.of_append).mpr ⟨hp, hid, hunanswered⟩
      have hmem : p ∈ requestsOf (xs ++ .incoming (.response resp) :: ys) := by
        rw [requestsOf_append]
        exact List.mem_append_left _ hp
      have hfirst : ((run id xs).incoming (.response resp)).1 = (resolve p resp).handled := by
        rw [incoming_of_lookup_eq_some hlookup]
      simp [outcomes, Input.message?, answer_of_mem h hmem hid, ← hfirst, run]
    · rfl

/-- Two orderly schedules of the same requests and the same messages do the same with each message,
send the same requests under the same ids, and leave the same ones pending. -/
theorem outcomes_perm {id : UInt32} {xs ys : List (Input Obs)} (hxs : Orderly id xs)
    (hys : Orderly id ys) (hrequests : xs.flatMap Input.requests = ys.flatMap Input.requests)
    (hmessages : (xs.filterMap Input.message?).Perm (ys.filterMap Input.message?)) :
    ((start id).outcomes xs).Perm ((start id).outcomes ys) ∧
      (run id xs).sent = (run id ys).sent ∧
      (run id xs).tracker.pendingRequests.Perm (run id ys).tracker.pendingRequests := by
  have hsame : requestsOf xs = requestsOf ys := congrArg (PendingRequest.stampAll 0) hrequests
  have hanswered {i : UInt32} : i ∈ answeredIds xs ↔ i ∈ answeredIds ys :=
    (hmessages.filterMap RawIncoming.responseId?).mem_iff
  refine ⟨?_, ?_, ?_⟩
  -- the outcome of a message depends on the requests of the whole schedule only
  · have houtcomes := outcomes_eq xs [] (by rwa [List.append_nil])
    have houtcomes' := outcomes_eq ys [] (by rwa [List.append_nil])
    rw [List.append_nil] at houtcomes houtcomes'
    rw [houtcomes, houtcomes', hsame]
    exact hmessages.map _
  · rw [sent_run, sent_run]
    exact congrArg _ hsame
  -- the same requests are pending under the same ids, filed in any order
  · refine List.Perm.map _ (List.lookup_ext (run id xs).tracker.pending.nodupKeys
      (run id ys).tracker.pending.nodupKeys fun i p => ?_)
    have hlookup := lookup_run_iff hxs (i := i) (p := p)
    rw [hsame, hanswered, ← lookup_run_iff hys] at hlookup
    exact hlookup

/-- Two requests are tracked together, and answered the other way round. -/
def togetherInputs (ping : PendingRequest (Except ResponseError Value)) :
    List (Input (Except ResponseError Value)) :=
  [.track (.batch [ping, ping]),
    .incoming (.response { version := {}, id := 1, result := .ok .null }),
    .incoming (.response { version := {}, id := 0, result := .ok (.bool true) })]

/-- They are tracked and answered one after the other. -/
def separateInputs (ping : PendingRequest (Except ResponseError Value)) :
    List (Input (Except ResponseError Value)) :=
  [.track (.single ping),
    .incoming (.response { version := {}, id := 0, result := .ok (.bool true) }),
    .track (.single ping),
    .incoming (.response { version := {}, id := 1, result := .ok .null })]

/-- Each of the two requests is answered once. -/
theorem orderly_togetherInputs (ping : PendingRequest (Except ResponseError Value)) :
    Orderly 0 (togetherInputs ping) where
  uncleared := by simp [togetherInputs]
  few := show 2 ≤ period by decide
  once := show [(1 : UInt32), 0].Nodup by decide
  asked n resp hn := by
    rcases n with _ | _ | _ | n <;> cases hn
    · exact ⟨ping.stamp 1, List.mem_cons_of_mem _ List.mem_cons_self, rfl⟩
    · exact ⟨ping.stamp 0, List.mem_cons_self, rfl⟩

/-- So is each of them here. -/
theorem orderly_separateInputs (ping : PendingRequest (Except ResponseError Value)) :
    Orderly 0 (separateInputs ping) where
  uncleared := by simp [separateInputs]
  few := show 2 ≤ period by decide
  once := show [(0 : UInt32), 1].Nodup by decide
  asked n resp hn := by
    rcases n with _ | _ | _ | _ | n <;> cases hn
    · exact ⟨ping.stamp 0, List.mem_cons_self, rfl⟩
    · exact ⟨ping.stamp 1, List.mem_cons_of_mem _ List.mem_cons_self, rfl⟩

omit [Bitcoin] in
/-- Both schedules do the same with both messages. -/
theorem outcomes_perm_separateInputs :
    letI : Bitcoin := bareBitcoin
    ∃ ping : PendingRequest (Except ResponseError Value),
      ((start 0).outcomes (togetherInputs ping)).length = 2 ∧
        ((start 0).outcomes (togetherInputs ping)).Perm
          ((start 0).outcomes (separateInputs ping)) := by
  let _ : Bitcoin := bareBitcoin
  refine ⟨PendingRequest.new ({ method := "server.ping", params := [] } : Request.Custom)
    (some id), rfl, ?_⟩
  obtain ⟨houtcomes, -, -⟩ := outcomes_perm (orderly_togetherInputs _) (orderly_separateInputs _)
    rfl (List.Perm.swap _ _ [])
  exact houtcomes

end Session

end ElectrumStreamingClient
