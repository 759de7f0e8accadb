import ElectrumStreamingClient.Client.Invariant
import ElectrumStreamingClient.Tracker.ExactlyOnce

/-!
# Conservation of requests

Every request that a caller has sent is in one place: in the channel, pending in the tracker,
resolved by a response, or dropped. While the worker of the asynchronous client runs nothing is
dropped, and once it has finished nothing is retained.
-/

namespace ElectrumStreamingClient

open Serde KeyedStore WrappingId TransitionSystem

variable [Bitcoin] {Obs E : Type}

namespace Link

/-- The tickets of the requests in the channel. -/
def channelTickets (l : Link Obs) : Multiset ℕ :=
  ((l.channel.flatMap RawOneOrMany.intoVec).map PendingRequest.ticket : List ℕ)

/-- The tickets of the requests dropped in the channel or with the tracker. -/
def droppedTickets (l : Link Obs) : Multiset ℕ :=
  (l.abandoned.map PendingRequest.ticket : List ℕ) + l.session.clearedTickets

/-- Every accepted request is accounted for once. -/
theorem Consistent.accounted {l : Link Obs} (h : l.Consistent) :
    l.channelTickets + l.session.pendingTickets + l.session.resolvedTickets + l.droppedTickets +
      l.session.replacedTickets = Multiset.range l.accepted.length := by
  have haccepted := congrArg (fun ps => ((ps.map PendingRequest.ticket : List ℕ) : Multiset ℕ))
    h.accepted
  have hassigned : (l.session.assigned.map Assignment.request).map PendingRequest.ticket =
      List.range l.session.count := by
    rw [List.map_map]
    exact h.session.map_ticket
  simp only [h.tickets, List.map_append, hassigned, ← Multiset.coe_add, Multiset.coe_range]
    at haccepted
  rw [haccepted, ← h.session.tickets, channelTickets, droppedTickets]
  abel

/-- The places of a request that was accepted. -/
inductive Place where
  | channel
  /-- It is pending in the tracker. -/
  | tracker
  | resolved
  /-- It was dropped without an answer. -/
  | dropped
  deriving DecidableEq

instance : Fintype Place :=
  ⟨{.channel, .tracker, .resolved, .dropped}, fun place => by cases place <;> decide⟩

/-- The requests in a place. -/
def requestsAt (l : Link Obs) : Place → Multiset (PendingRequest Obs)
  | .channel => (l.channel.flatMap RawOneOrMany.intoVec : List _)
  | .tracker => values l.session.tracker.pending
  | .resolved => (l.session.resolved.map Resolution.request : List _)
  | .dropped => (l.abandoned : List _) + (l.session.cleared : List _)

theorem sum_requestsAt (l : Link Obs) :
    ∑ place, l.requestsAt place = l.requestsAt .channel + (l.requestsAt .tracker +
      (l.requestsAt .resolved + l.requestsAt .dropped)) := by
  have huniv : (Finset.univ : Finset Place) = {.channel, .tracker, .resolved, .dropped} := rfl
  rw [huniv, Finset.sum_insert (by decide), Finset.sum_insert (by decide),
    Finset.sum_insert (by decide), Finset.sum_singleton]

/-- Without overruns the four places hold the accepted requests. -/
theorem Consistent.hold {l : Link Obs} (h : l.Consistent) (hno : l.session.NoOverrun) :
    Places.Hold l.requestsAt l.accepted where
  sum := by
    have haccounted := h.session.accounted
    rw [h.session.replaced_eq_nil_iff.mpr hno, Multiset.coe_nil, add_zero] at haccounted
    rw [sum_requestsAt, h.accepted, ← Multiset.coe_add, ← Multiset.coe_add, ← haccounted]
    simp only [requestsAt]
    abel
  nodup := by
    apply List.Nodup.of_map PendingRequest.ticket
    rw [h.tickets]
    exact List.nodup_range

/-- A request that is sent alone is accepted as it was sent. -/
theorem sendRequest_eq {l : Link Obs} (hopen : l.channelOpen = true) {Req : Type} [RequestExt Req]
    [Deserialize (Request.Response Req)] (req : Req)
    (callback : ResponseResult (Request.Response Req) → Obs) :
    ∃ p, (l.sendRequest req callback).1 = .ok () ∧
      (l.sendRequest req callback).2.accepted = l.accepted ++ [p] ∧
      p.IsFor req (some callback) := by
  refine ⟨(PendingRequest.new req (some callback)).stamp l.accepted.length, ?_, ?_, rfl, rfl⟩ <;>
    simp [sendRequest, sendBatch, BatchRequest.request, BatchRequest.new, BatchRequest.intoInner,
      RawOneOrMany.pushOpt, hopen, accept, RawOneOrMany.stampFrom]

end Link

namespace AsyncClient

/-- The client keeps track of every request it has accepted. -/
structure Conserves (c : AsyncClient Obs E) : Prop where
  /-- The requests in all places are the accepted ones, with the handlers they came with. -/
  hold : Places.Hold c.link.requestsAt c.link.accepted
  /-- Until the worker has finished, each is in the channel, pending or resolved. -/
  running : (∀ exit, c.worker ≠ .finished exit) → ∀ (k : ℕ) (p : PendingRequest Obs),
    c.link.accepted[k]? = some p →
      (∃! place, p ∈ c.link.requestsAt place) ∧ p ∉ c.link.requestsAt .dropped
  /-- Then, each is resolved or was dropped. -/
  finished : ∀ exit, c.worker = .finished exit → ∀ (k : ℕ) (p : PendingRequest Obs),
    c.link.accepted[k]? = some p → (∃! place, p ∈ c.link.requestsAt place) ∧
      p ∉ c.link.requestsAt .channel ∧ p ∉ c.link.requestsAt .tracker
  /-- None is retained. -/
  released : ∀ exit, c.worker = .finished exit →
    c.link.session.tracker.pending = ∅ ∧ c.link.channel = []
  /-- A resolved request was accepted, and one call of `handle_incoming` ran its handler: it did
  with the response what the request asked for. -/
  resolved : (c.link.session.resolved.map Resolution.request).Nodup ∧
    (c.link.session.resolved.map Resolution.handled).Sublist c.link.handled ∧
    ∀ r ∈ c.link.session.resolved, ∃ (k : ℕ) (p : PendingRequest Obs),
      c.link.accepted[k]? = some p ∧ r.request = p ∧
      ∀ (Req : Type) [RequestExt Req] [Deserialize (Request.Response Req)] (req : Req)
        (callback : Option (ResponseResult (Request.Response Req) → Obs)), p.IsFor req callback →
          Answers req callback r.id r.body r.handled
  /-- As long as the channel is open, what callers send is accepted as it is. -/
  accepts : c.link.channelOpen = true → ∀ (batch : BatchRequest Obs)
    (reqs : RawOneOrMany (PendingRequest Obs)), batch.intoInner = some reqs →
      (c.link.sendBatch batch).1 = .ok true ∧ (c.link.sendBatch batch).2.accepted =
        c.link.accepted ++ PendingRequest.stampAll c.link.accepted.length reqs.intoVec
  /-- So is the request of `send_request`, with its callback. -/
  dispatches : c.link.channelOpen = true →
    ∀ (Req : Type) [RequestExt Req] [Deserialize (Request.Response Req)] (req : Req)
      (callback : ResponseResult (Request.Response Req) → Obs),
        ∃ p, (c.link.sendRequest req callback).1 = .ok () ∧
          (c.link.sendRequest req callback).2.accepted = c.link.accepted ++ [p] ∧
          p.IsFor req (some callback)
  /-- After the end no more are accepted. -/
  refused : ∀ exit, c.worker = .finished exit → ∀ batch : BatchRequest Obs,
    batch.intoInner.isSome → c.link.sendBatch batch = (.error .disconnected, c.link)
  /-- `send_request` fails to dispatch. -/
  dispatch : ∀ exit, c.worker = .finished exit →
    ∀ (Req : Type) [RequestExt Req] [Deserialize (Request.Response Req)] (req : Req)
      (callback : ResponseResult (Request.Response Req) → Obs),
        c.link.sendRequest req callback = (.error (.dispatch .disconnected), c.link)
  /-- And it stays so. -/
  final : ∀ exit, c.worker = .finished exit → ∀ a c', Step c a c' → c'.worker = .finished exit

/-- A worker that has finished stays so. -/
theorem finished_of_step {c c' : AsyncClient Obs E} {a : Act E} {exit : Exit E}
    (h : c.worker = .finished exit) (hstep : Step c a c') : c'.worker = .finished exit := by
  cases hstep with
  | send | close | closeEvents => exact h
  | request hworker | requestsClosed hworker | written hworker | writeFailed _ hworker
  | incoming hworker | event hworker | finish hworker => simp [h] at hworker

/-- In every state the client can reach without overruns, it conserves its requests. -/
theorem conserves_of_reachable {c : AsyncClient Obs E} (h : Reachable Step new c)
    (hno : c.link.session.NoOverrun) : c.Conserves := by
  have hordered := ordered_of_reachable h
  have hlink := Link.consistent_of_reachable (reachable_link h)
  have hhold := hlink.hold hno
  have hplace {k : ℕ} {p : PendingRequest Obs} (hp : c.link.accepted[k]? = some p) :
      ∃! place, p ∈ c.link.requestsAt place :=
    hhold.existsUnique (List.mem_of_getElem? hp)
  have hrefused : ∀ exit, c.worker = .finished exit → ∀ batch : BatchRequest Obs,
      batch.intoInner.isSome → c.link.sendBatch batch = (.error .disconnected, c.link) := by
    intro exit hexit batch hbatch
    obtain ⟨reqs, hreqs⟩ := Option.isSome_iff_exists.mp hbatch
    rw [Link.sendBatch, hreqs]
    simp [(hordered.finished exit hexit).2.2]
  have hreleased : ∀ exit, c.worker = .finished exit →
      c.link.session.tracker.pending = ∅ ∧ c.link.channel = [] := by
    intro exit hexit
    obtain ⟨hdropped, hchannel, -⟩ := hordered.finished exit hexit
    exact ⟨hlink.dropped hdropped, hchannel⟩
  refine {
    hold := hhold, running := ?_, finished := ?_, released := hreleased, resolved := ?_
    accepts := ?_, dispatches := ?_, refused := hrefused, dispatch := ?_
    final := fun exit hexit a c' => finished_of_step hexit }
  · intro hrunning k p hp
    refine ⟨hplace hp, ?_⟩
    -- nothing has been dropped: the tracker is alive, and so is the channel
    obtain ⟨htracker, habandoned⟩ := hordered.running hrunning
    rw [Link.requestsAt, habandoned, hlink.cleared htracker]
    exact Multiset.notMem_zero p
  · intro exit hexit k p hp
    obtain ⟨hpending, hchannel⟩ := hreleased exit hexit
    refine ⟨hplace hp, ?_, ?_⟩
    · rw [Link.requestsAt, hchannel]
      exact Multiset.notMem_zero p
    · rw [Link.requestsAt, hpending]
      exact Multiset.notMem_zero p
  · refine ⟨Multiset.coe_nodup.mp (hhold.nodup_place .resolved), hlink.recorded, fun r hr => ?_⟩
    have hmem : r.request ∈ c.link.accepted :=
      hhold.mem_of_mem (i := .resolved) (Multiset.mem_coe.mpr (List.mem_map_of_mem hr))
    obtain ⟨k, hk⟩ := List.mem_iff_getElem?.mp hmem
    refine ⟨k, r.request, hk, rfl, ?_⟩
    intro Req _ _ req callback hfor
    exact (hlink.session.resolved r hr).answers hfor
  · intro hopen batch reqs hreqs
    simp [Link.sendBatch, hreqs, hopen, Link.accept]
  · intro hopen Req _ _ req callback
    exact Link.sendRequest_eq hopen req callback
  · intro exit hexit Req _ _ req callback
    rw [Link.sendRequest, hrefused exit hexit _ rfl]

end AsyncClient

/-- A caller keeps the connection alive, and waits for the answer. -/
def keepAlive : BatchRequest (ResponseResult Value) :=
  BatchRequest.new.request ({ method := "server.ping", params := [] } : Request.Custom) id

/-- The server is alive. -/
def pong : RawResponse := { version := {}, id := 0, result := .ok .null }

omit [Bitcoin] in
/-- One request is answered, and another one is still in the channel when the stream ends. -/
theorem AsyncClient.conserves_of_reachable_keepAlive :
    letI : Bitcoin := bareBitcoin
    ∃ c : AsyncClient (ResponseResult Value) Unit, c.worker = .finished .endOfStream ∧
      c.link.session.resolved.map (fun r => r.handled.called) = [some (.ok .null)] ∧
        c.link.session.resolvedTickets = {0} ∧ c.link.droppedTickets = {1} ∧ c.Conserves := by
  let _ : Bitcoin := bareBitcoin
  have hsent : Reachable AsyncClient.Step
      (AsyncClient.new : AsyncClient (ResponseResult Value) Unit) _ :=
    (Reachable.refl AsyncClient.Step AsyncClient.new).tail (.send keepAlive)
  have hwritten := (hsent.tail (.request rfl rfl)).tail (.written rfl rfl)
  have hanswered := hwritten.tail (.incoming (r := .ok (some (.ok (.response pong)))) rfl)
  have hended := (hanswered.tail (.send keepAlive)).tail (.incoming (r := .ok none) rfl)
  have hfinished := hended.tail (.finish rfl)
  have hconsistent := Link.consistent_of_reachable (AsyncClient.reachable_link hfinished)
  exact ⟨_, rfl, rfl, rfl, rfl, AsyncClient.conserves_of_reachable hfinished
    (hconsistent.session.noOverrun_of_count_le (by decide))⟩

end ElectrumStreamingClient
