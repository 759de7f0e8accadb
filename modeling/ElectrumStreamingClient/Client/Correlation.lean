import ElectrumStreamingClient.Client.Conservation
import ElectrumStreamingClient.Client.Server
import ElectrumStreamingClient.Tracker.ExactlyOnce
import ElectrumStreamingClient.Tracker.UniqueIds

/-!
# End-to-end correlation

Requests are written in the order in which they were accepted, and the answers of a server that
respects the protocol arrive in the order in which they were sent. Without overruns an answer finds
the request it answers in the tracker: it was inserted before its line was written, and nothing but
its answer takes it out.
-/

namespace ElectrumStreamingClient

open Serde KeyedStore WrappingId TransitionSystem

theorem getElem?_of_isPrefix {α : Type} {xs ys : List α} (h : xs <+: ys) {i : ℕ} {x : α}
    (hx : xs[i]? = some x) : ys[i]? = some x := by
  obtain ⟨hi, rfl⟩ := List.getElem?_eq_some_iff.mp hx
  exact List.prefix_iff_getElem?.mp h i hi

variable [Bitcoin] {Obs E : Type}

/-! ## What the operations of the link keep -/

namespace Link

/-- Sending a batch writes nothing. -/
@[simp] theorem outgoing_sendBatch (l : Link Obs) (batch : BatchRequest Obs) :
    (l.sendBatch batch).2.outgoing = l.outgoing := by
  unfold sendBatch
  split
  · split <;> rfl
  · rfl

/-- Sending a batch only adds accepted requests. -/
theorem accepted_sendBatch (l : Link Obs) (batch : BatchRequest Obs) :
    l.accepted <+: (l.sendBatch batch).2.accepted := by
  unfold sendBatch
  split
  · split
    next => exact List.prefix_append _ _
    next => exact List.prefix_refl _
  · exact List.prefix_refl _

/-- What was accepted, tracked and written stays so. -/
structure Grows (l l' : Link Obs) : Prop where
  accepted : l.accepted <+: l'.accepted
  assigned : l.session.assigned <+: l'.session.assigned
  outgoing : l.outgoing <+: l'.outgoing

/-- A step only adds to what is accepted, tracked and to be written. -/
theorem Step.grows {l l' : Link Obs} {a : Act E} (h : Step l a l') : l.Grows l' := by
  cases h with
  | send batch =>
    refine ⟨l.accepted_sendBatch batch, ?_, ?_⟩
    · rw [(l.sendBatch_frame batch).1]
    · rw [outgoing_sendBatch]
  | close | closeEvents | receive | stay =>
    exact ⟨List.prefix_refl _, List.prefix_refl _, List.prefix_refl _⟩
  | track _ hwriting _ =>
    -- the line to be written is the next outgoing one
    refine ⟨List.prefix_refl _, List.prefix_append _ _, ?_⟩
    simp [outgoing, Link.track, hwriting, Writing.lines]
  | wrote hwriting =>
    refine ⟨List.prefix_refl _, List.prefix_refl _, ?_⟩
    simp [outgoing, Link.wrote, hwriting, Writing.lines]
  | writeFailed hwriting =>
    refine ⟨List.prefix_refl _, List.prefix_refl _, ?_⟩
    simp [outgoing, Link.writeFailed, hwriting, Writing.lines]
  | emit =>
    unfold Link.emit
    split <;> exact ⟨List.prefix_refl _, List.prefix_refl _, List.prefix_refl _⟩
  | drop tracker channel =>
    refine ⟨List.prefix_refl _, ?_, List.prefix_refl _⟩
    rcases tracker with _ | _ <;> exact List.prefix_refl _

/-- Only a message resolves requests. -/
theorem Step.resolved_eq {l l' : Link Obs} {a : Act E} (h : Step l a l')
    (ha : ∀ msg, a ≠ .read (.ok (some (.ok msg)))) :
    l'.session.resolved = l.session.resolved ∧ l'.handled = l.handled := by
  cases h with
  | send batch =>
    obtain ⟨hsession, -, -, -, hhandled, -⟩ := l.sendBatch_frame batch
    exact ⟨by rw [hsession], hhandled⟩
  | close | closeEvents | track | wrote | writeFailed | stay => exact ⟨rfl, rfl⟩
  | receive => exact absurd rfl (ha _)
  | emit =>
    unfold Link.emit
    split <;> exact ⟨rfl, rfl⟩
  | drop tracker channel =>
    rcases tracker with _ | _ <;> exact ⟨rfl, rfl⟩

/-- The lines hold the requests that were tracked. -/
theorem Consistent.outgoing_eq {l : Link Obs} (h : l.Consistent) :
    l.outgoing.flatMap RawOneOrMany.intoVec = l.session.sent := by
  rw [← h.written, outgoing, List.flatMap_append]
  rcases l.writing with _ | raws | raws <;> simp [Writing.lines, Writing.unwritten]

/-- No more requests are tracked than were accepted. -/
theorem Consistent.count_le {l : Link Obs} (h : l.Consistent) :
    l.session.count ≤ l.accepted.length := by
  rw [h.accepted, List.length_append, List.length_map, Session.count]
  omega

/-- What has been written is the first of the accepted requests, in order. -/
theorem Consistent.outgoing_eq_mapIdx {l : Link Obs} (h : l.Consistent) :
    l.outgoing.flatMap RawOneOrMany.intoVec =
      (l.accepted.take l.session.count).mapIdx fun i p => p.toRaw (idAt 0 i) := by
  have htracked : l.accepted.take l.session.count = l.session.assigned.map Assignment.request := by
    rw [h.accepted, Session.count, ← List.length_map Assignment.request, List.take_left]
  rw [h.outgoing_eq, h.session.sent, htracked]
  -- place by place: the id of the `i`-th request is the `i`-th id
  apply List.ext_getElem?
  intro i
  rw [List.getElem?_mapIdx, List.getElem?_map, List.getElem?_map]
  rcases ha : l.session.assigned[i]? with _ | a
  · rfl
  · simp [(h.session.assigned i a ha).2.1]

/-- A pending request was accepted, at the place of its ticket. -/
theorem Consistent.accepted_of_lookup {l : Link Obs} (h : l.Consistent) {id : UInt32}
    {p : PendingRequest Obs} (hp : l.session.tracker.pending.lookup id = some p) :
    l.accepted[p.ticket]? = some p := by
  obtain ⟨a, ha, hrequest⟩ := h.session.assigned_of_lookup hp
  have htracked : (l.session.assigned.map Assignment.request)[p.ticket]? = some p := by
    rw [List.getElem?_map, ha, Option.map_some, hrequest]
  rw [h.accepted, List.getElem?_append_left (List.getElem?_eq_some_iff.mp htracked).1, htracked]

end Link

/-! ## Answers -/

/-- The answer that resolved a request, with the index of the request. -/
def Resolution.answer (r : Resolution Obs) : ℕ × RawResponse :=
  (r.request.ticket, { version := {}, id := r.id, result := r.body })

/-- What `handle_incoming` does with the messages of the server. -/
inductive Outcome (accepted : List (PendingRequest Obs)) (answered : List (ℕ × RawResponse)) :
    Handled Obs ProcessError → Prop
  | notification (n : Notification) :
      Outcome accepted answered { called := none, result := .ok (some (.notification n)) }
  /-- It handles the answer to an accepted request as that request asks for. -/
  | answer {index : ℕ} {p : PendingRequest Obs} {resp : RawResponse}
      {h : Handled Obs ProcessError} {ev : Option Event} (haccepted : accepted[index]? = some p)
      (hanswered : (index, resp) ∈ answered) (hresult : h.result = .ok ev)
      (hanswers : ∀ (Req : Type) [RequestExt Req] [Deserialize (Request.Response Req)] (req : Req)
        (callback : Option (ResponseResult (Request.Response Req) → Obs)), p.IsFor req callback →
          Answers req callback resp.id resp.result h) :
      Outcome accepted answered h

/-- An outcome stays one when more is accepted and answered. -/
theorem Outcome.mono {accepted accepted' : List (PendingRequest Obs)}
    {answered answered' : List (ℕ × RawResponse)} {h : Handled Obs ProcessError}
    (houtcome : Outcome accepted answered h) (haccepted : accepted <+: accepted')
    (hanswered : answered <+: answered') : Outcome accepted' answered' h := by
  cases houtcome with
  | notification n => exact .notification n
  | answer haccepted' hanswered' hresult hanswers =>
    exact .answer (getElem?_of_isPrefix haccepted haccepted') (hanswered.subset hanswered') hresult
      hanswers

/-- A callback that was run is that of a request with an answer. -/
theorem Outcome.of_called {accepted : List (PendingRequest Obs)} {answered : List (ℕ × RawResponse)}
    {h : Handled Obs ProcessError} (houtcome : Outcome accepted answered h) {obs : Obs}
    (hcalled : h.called = some obs) :
    ∃ index p resp, accepted[index]? = some p ∧ (index, resp) ∈ answered ∧
      ∀ (Req : Type) [RequestExt Req] [Deserialize (Request.Response Req)] (req : Req)
        (callback : Option (ResponseResult (Request.Response Req) → Obs)), p.IsFor req callback →
          Answers req callback resp.id resp.result h := by
  cases houtcome with
  | notification n => cases hcalled
  | answer haccepted hanswered _ hanswers => exact ⟨_, _, _, haccepted, hanswered, hanswers⟩

namespace World

/-- What holds of a client and its server in every state of a run without overruns. -/
structure Traced (w : World (Link Obs)) : Prop where
  link : w.client.Consistent
  received : w.received <+: w.client.outgoing
  once : (w.answered.map Prod.fst).Nodup
  /-- Answers are to requests that were tracked, under their ids. -/
  answered : ∀ answer ∈ w.answered, answer.1 < w.client.session.count ∧
    answer.2.id = idAt 0 answer.1 ∧
      ∃ p, w.client.accepted[answer.1]? = some p ∧ p.Expects answer.2.result
  notifications : ∀ raw, .notification raw ∈ w.queue ++ w.lines.flatMap RawOneOrMany.intoVec →
    ∃ n, Notification.new raw = .ok n
  /-- The answers have resolved their requests in order, but for those in flight. -/
  resolved : w.client.session.resolved.map Resolution.answer ++ w.inFlight = w.answered
  handled : ∀ h ∈ w.client.handled, Outcome w.client.accepted w.answered h

/-- Nothing has been answered yet. -/
theorem traced_new : (new Link.new : World (Link Obs)).Traced where
  link := Link.consistent_new
  received := List.prefix_refl _
  once := List.nodup_nil
  answered _ h := nomatch h
  notifications _ h := nomatch h
  resolved := rfl
  handled _ h := nomatch h

/-- A step of the client that handles no message. -/
theorem Traced.client {w : World (Link Obs)} (h : w.Traced) {l : Link Obs} {a : Act E}
    (hstep : Link.Step w.client a l) (ha : ∀ msg, a ≠ .read (.ok (some (.ok msg)))) :
    ({ w with client := l } : World (Link Obs)).Traced := by
  -- a step that reads no message resolves nothing
  have hgrows := hstep.grows
  obtain ⟨hresolved, hhandled⟩ := hstep.resolved_eq ha
  refine { h with
    link := h.link.step hstep
    received := h.received.trans hgrows.outgoing
    answered := ?_, resolved := ?_, handled := ?_ }
  · intro answer hanswer
    obtain ⟨hlt, hid, p, hp, hexpects⟩ := h.answered answer hanswer
    exact ⟨hlt.trans_le hgrows.assigned.length_le, hid, p,
      getElem?_of_isPrefix hgrows.accepted hp, hexpects⟩
  · dsimp only
    rw [hresolved]
    exact h.resolved
  · intro handled hmem
    dsimp only at hmem
    rw [hhandled] at hmem
    exact (h.handled handled hmem).mono hgrows.accepted (List.prefix_refl _)

/-- The answer that the client handles next finds its request. -/
theorem Traced.lookup_next {w : World (Link Obs)} (h : w.Traced)
    (hno : w.client.session.NoOverrun) (hdropped : w.client.trackerDropped = false) {index : ℕ}
    {resp : RawResponse} {rest : List Reply} (hqueue : w.queue = .answer index resp :: rest) :
    ∃ p, w.client.session.tracker.pending.lookup resp.id = some p ∧ p.ticket = index ∧
      p.Expects resp.result ∧ (index, resp) ∈ w.answered := by
  have hflight : w.inFlight = (index, resp) ::
      (rest ++ w.lines.flatMap RawOneOrMany.intoVec).filterMap Reply.answer? := by
    rw [inFlight, hqueue]
    rfl
  have hresolved := h.resolved
  rw [hflight] at hresolved
  have hmem : (index, resp) ∈ w.answered := by
    rw [← hresolved]
    exact List.mem_append_right _ List.mem_cons_self
  obtain ⟨hlt, hid, p', hp', hexpects⟩ := h.answered _ hmem
  -- it is answered once, and this is the answer
  have hunresolved : index ∉ w.client.session.resolvedTickets := by
    have honce := h.once
    rw [← hresolved, List.map_append, List.nodup_append] at honce
    intro hticket
    obtain ⟨r, hr, hticket⟩ := List.mem_map.mp (Multiset.mem_coe.mp hticket)
    refine honce.2.2 index ?_ index (by simp) rfl
    rw [List.map_map]
    exact List.mem_map.mpr ⟨r, hr, hticket⟩
  have huncleared : index ∉ w.client.session.clearedTickets := by
    rw [Session.clearedTickets, h.link.cleared hdropped]
    simp
  have hpending := h.link.session.pending_of_unanswered hno hlt ⟨hunresolved, huncleared⟩
  obtain ⟨p, hp, rfl⟩ := Session.mem_pendingTickets.mp hpending
  have hlookup := h.link.session.lookup_of_ticket hp
  -- the request that is pending is the one the server was asked to answer
  have heq := h.link.accepted_of_lookup hlookup
  rw [hp', Option.some.injEq] at heq
  subst heq
  exact ⟨p', by rw [hid, hlookup], rfl, hexpects, hmem⟩

/-- The client handles the next message. -/
theorem Traced.read {w : World (Link Obs)} (h : w.Traced) (hno : w.client.session.NoOverrun)
    (hdropped : w.client.trackerDropped = false) {reply : Reply} {rest : List Reply}
    (hqueue : w.queue = reply :: rest) :
    ({ w with client := (w.client.receive reply.message).2, queue := rest } :
      World (Link Obs)).Traced := by
  have hnotifications : ∀ raw,
      .notification raw ∈ rest ++ w.lines.flatMap RawOneOrMany.intoVec →
        ∃ n, Notification.new raw = .ok n := by
    intro raw hraw
    apply h.notifications raw
    rw [hqueue]
    exact List.mem_cons_of_mem _ hraw
  have hresolved := h.resolved
  rw [inFlight, hqueue] at hresolved
  refine { h with
    link := h.link.receive hdropped _
    notifications := hnotifications
    resolved := ?_, handled := ?_ }
  -- the answer moves from the ones in flight to the ones that have resolved a request
  · rcases reply with raw | ⟨index, resp⟩
    · simp only [Link.receive, Reply.message, Session.incoming_notification_snd]
      exact hresolved
    · obtain ⟨p, hlookup, rfl, -, -⟩ := h.lookup_next hno hdropped hqueue
      simp only [Link.receive, Reply.message, Session.incoming_of_lookup_eq_some hlookup,
        List.map_append, List.append_assoc]
      exact hresolved
  · intro handled hmem
    rcases List.mem_append.mp hmem with hmem | hmem
    · exact h.handled handled hmem
    rw [List.mem_singleton.mp hmem]
    show Outcome w.client.accepted w.answered (w.client.session.incoming reply.message).1
    rcases reply with raw | ⟨index, resp⟩
    · obtain ⟨n, hnew⟩ := h.notifications raw (by simp [hqueue])
      simp only [Reply.message, Session.incoming, RequestTracker.handleIncoming, hnew]
      exact .notification n
    · obtain ⟨p, hlookup, rfl, hexpects, hanswered⟩ := h.lookup_next hno hdropped hqueue
      obtain ⟨ev, hev⟩ := PendingRequest.expects_iff.mp hexpects
      have hresult : (Session.resolve p resp).handled.result = .ok ev := by
        simp only [Session.resolve, hev]
        rfl
      rw [Reply.message, Session.incoming_of_lookup_eq_some hlookup]
      apply Outcome.answer (h.link.accepted_of_lookup hlookup) hanswered hresult
      intro Req _ _ req callback hp
      exact Session.answers_resolve hp resp

/-- The server receives the next line. -/
theorem Traced.receive {w : World (Link Obs)} (h : w.Traced) {line : RawOneOrMany RawRequest}
    (hline : w.client.outgoing[w.received.length]? = some line) :
    ({ w with received := w.received ++ [line] } : World (Link Obs)).Traced := by
  refine { h with received := ?_ }
  obtain ⟨later, hlater⟩ := h.received
  rw [← hlater, List.getElem?_append_right le_rfl, Nat.sub_self] at hline
  obtain ⟨rest, rfl⟩ : ∃ rest, later = line :: rest := by
    rcases later with _ | ⟨line', rest⟩
    · cases hline
    · exact ⟨rest, by rw [Option.some.inj hline]⟩
  rw [← hlater]
  exact ⟨rest, by simp⟩

/-- What the server may answer was tracked, and is answered under its id. -/
theorem Traced.of_fair {w : World (Link Obs)} (h : w.Traced) {index : ℕ} {resp : RawResponse}
    (hfair : (Reply.answer index resp).Fair (w.received.flatMap RawOneOrMany.intoVec)
      w.client.accepted) :
    index < w.client.session.count ∧ resp.id = idAt 0 index ∧
      ∃ p, w.client.accepted[index]? = some p ∧ p.Expects resp.result := by
  cases hfair with
  | @answer _ raw _ hreceived hid hexpects =>
    -- the server has received the first of what was sent, in order
    have hsent : w.client.session.sent[index]? = some raw := by
      rw [← h.link.outgoing_eq]
      exact getElem?_of_isPrefix (h.received.flatMap _) hreceived
    have hlt : index < w.client.session.count := by
      have hlt := (List.getElem?_eq_some_iff.mp hsent).1
      rwa [h.link.session.sent, List.length_map] at hlt
    obtain ⟨p, hp⟩ : ∃ p, w.client.accepted[index]? = some p :=
      ⟨_, List.getElem?_eq_getElem (hlt.trans_le h.link.count_le)⟩
    exact ⟨hlt, hid.trans (h.link.session.sent_getElem? hsent), p, hp, hexpects p hp⟩

/-- The server sends a line. -/
theorem Traced.reply {w : World (Link Obs)} (h : w.Traced) {line : RawOneOrMany Reply}
    (hfair : ∀ reply ∈ line.intoVec,
      reply.Fair (w.received.flatMap RawOneOrMany.intoVec) w.client.accepted)
    (honce : ((w.answered ++ line.intoVec.filterMap Reply.answer?).map Prod.fst).Nodup) :
    ({ w with
      answered := w.answered ++ line.intoVec.filterMap Reply.answer?
      lines := w.lines ++ [line] } : World (Link Obs)).Traced := by
  refine { h with
    once := honce, answered := ?_, notifications := ?_, resolved := ?_, handled := ?_ }
  · intro answer hanswer
    -- an answer of this line, or one given before
    rcases List.mem_append.mp hanswer with hanswer | hanswer
    · exact h.answered answer hanswer
    obtain ⟨reply, hreply, hanswer⟩ := List.mem_filterMap.mp hanswer
    rcases reply with raw | ⟨index, resp⟩
    · cases hanswer
    · rw [← Option.some.inj hanswer]
      exact h.of_fair (hfair _ hreply)
  · intro raw hraw
    simp only [List.flatMap_append, List.flatMap_singleton, ← List.append_assoc] at hraw
    -- so it is with notifications
    rcases List.mem_append.mp hraw with hraw | hraw
    · exact h.notifications raw hraw
    · cases hfair _ hraw with
      | notification hnew => exact ⟨_, hnew⟩
  · dsimp only
    rw [← h.resolved, List.append_assoc]
    simp [inFlight]
  · intro handled hmem
    exact (h.handled handled hmem).mono (List.prefix_refl _) (List.prefix_append _ _)

/-- Every step without an overrun keeps the world traced. -/
theorem Traced.step {w w' : World (Link Obs)} {a : Act E} (h : w.Traced)
    (hno : w.client.session.NoOverrun) (hstep : Step (Link.Step (E := E)) id w a w') :
    w'.Traced := by
  cases hstep with
  | client hstep => exact h.client hstep (by simp)
  | read hqueue hstep =>
    cases hstep with
    | receive hdropped => exact h.read hno hdropped hqueue
    -- a client that reads a message handles it
    | stay hmsg => exact absurd rfl (hmsg _)
  | interrupt hr hstep => exact h.client hstep (by simpa using hr)
  | take hqueue hlines =>
    -- a line moves from the bytes to the queue, in the same order
    refine { h with notifications := ?_, resolved := ?_ }
    · simpa [hqueue, hlines] using h.notifications
    · simpa [inFlight, hqueue, hlines] using h.resolved
  | receive hline => exact h.receive hline
  | reply line hfair honce => exact h.reply hfair honce

/-- Overruns are not undone. -/
theorem noOverrun_of_step {w w' : World (Link Obs)} {a : Act E}
    (hstep : Step (Link.Step (E := E)) id w a w') (hno : w'.client.session.NoOverrun) :
    w.client.session.NoOverrun := by
  cases hstep with
  | client hstep | read _ hstep | interrupt _ hstep => exact hno.mono hstep.grows.assigned
  | take | receive | reply => exact hno

/-- In every state of a link with a server, the answers under way are traced to their requests. -/
theorem traced_of_reachable {w : World (Link Obs)}
    (h : Reachable (Step (Link.Step (E := E)) id) (new Link.new) w)
    (hno : w.client.session.NoOverrun) : w.Traced := by
  -- the state reached has no overrun, so none of the states before it has one
  refine h.invariant (I := fun w => w.client.session.NoOverrun → w.Traced)
    (fun _ => traced_new) ?_ hno
  intro w a w' htraced hstep hno
  have hbefore := noOverrun_of_step hstep hno
  exact (htraced hbefore).step hbefore hstep

/-- Requests and answers correlate, from the callers to the server and back. -/
structure Correlates (w : World (Link Obs)) : Prop where
  /-- Written are the first of the accepted requests, each once, in order, under its id. -/
  written : ∃ n ≤ w.client.accepted.length, w.client.outgoing.flatMap RawOneOrMany.intoVec =
    (w.client.accepted.take n).mapIdx fun i p => p.toRaw (idAt 0 i)
  /-- No response was to a request that is not pending. -/
  noMissing : ∀ h ∈ w.client.handled, ∀ id, h.result ≠ .error (.missingRequest id)
  /-- Every callback that was run, and every event that was returned, carries a notification or
  the answer to its own request. -/
  answers : ∀ h ∈ w.client.handled, Outcome w.client.accepted w.answered h
  /-- No request is resolved twice, and none answered twice. -/
  once : w.client.session.resolvedTickets.Nodup ∧ (w.answered.map Prod.fst).Nodup
  /-- Every event that was emitted was returned. -/
  events : ∀ ev ∈ w.client.events, ∃ h ∈ w.client.handled, h.result = .ok (some ev)

/-- A link whose answers are traced correlates them with its requests. -/
theorem Traced.correlates {w : World (Link Obs)} (h : w.Traced) : w.Correlates where
  written := ⟨w.client.session.count, h.link.count_le, h.link.outgoing_eq_mapIdx⟩
  noMissing handled hmem id := by
    cases h.handled handled hmem with
    | notification n => simp
    | answer _ _ hresult _ => simp [hresult]
  answers := h.handled
  once := by
    have honce := h.once
    rw [← h.resolved, List.map_append, List.map_map] at honce
    exact ⟨honce.of_append_left, h.once⟩
  events := h.link.events

end World

/-- In every run of the asynchronous client with a server, without overruns, requests and answers
correlate. So they do with the blocking client. -/
theorem correlates_of_noOverrun :
    (∀ w : World (AsyncClient Obs E),
      Reachable (World.Step AsyncClient.Step AsyncClient.link) (World.new AsyncClient.new) w →
        w.client.link.session.NoOverrun → (w.map AsyncClient.link).Correlates) ∧
    ∀ w : World (BlockingClient Obs E),
      Reachable (World.Step BlockingClient.Step BlockingClient.link) (World.new BlockingClient.new)
        w → w.client.link.session.NoOverrun → (w.map BlockingClient.link).Correlates := by
  constructor
  · intro w h hno
    have hlink := World.reachable_map (I := AsyncClient.Ordered) AsyncClient.ordered_new
      (fun _ _ _ hordered hstep => hordered.step hstep) h
    exact (World.traced_of_reachable hlink hno).correlates
  · intro w h hno
    have hlink := World.reachable_map (I := BlockingClient.Ordered) BlockingClient.ordered_new
      (fun _ _ _ hordered hstep => hordered.step hstep) h
    exact (World.traced_of_reachable hlink hno).correlates

omit [Bitcoin] in
/-- The server answers while the line is still being written. -/
theorem correlates_of_noOverrun_keepAlive :
    letI : Bitcoin := bareBitcoin
    ∃ w : World (AsyncClient (ResponseResult Value) Unit), w.answered = [(0, pong)] ∧
      w.client.link.session.resolvedTickets = {0} ∧ (w.map AsyncClient.link).Correlates := by
  let _ : Bitcoin := bareBitcoin
  have hsent : Reachable (World.Step AsyncClient.Step AsyncClient.link)
      (World.new (AsyncClient.new : AsyncClient (ResponseResult Value) Unit)) _ :=
    (Reachable.refl _ _).tail (.client (.send keepAlive))
  have hreceived := (hsent.tail (.client (.request rfl rfl))).tail (.receive rfl)
  have hanswered := hreceived.tail (.reply (.single (.answer 0 pong)) ?_ (by decide))
  · have hwritten := (hanswered.tail (.client (.written rfl rfl))).tail (.take rfl rfl)
    have hread := hwritten.tail (.read rfl (.incoming rfl))
    refine ⟨_, rfl, rfl, correlates_of_noOverrun.1 _ hread ?_⟩
    -- nothing was pending when the request was tracked
    intro a ha p hp
    rw [List.mem_singleton.mp ha] at hp
    exact absurd hp (Multiset.notMem_zero p)
  · intro reply hreply
    rw [List.mem_singleton.mp hreply]
    refine .answer rfl rfl fun p hp => ?_
    rw [← Option.some.inj hp]
    exact PendingRequest.expects_iff.mpr ⟨none, rfl⟩

/-! ## Overruns -/

/-- The request that is tracked `2 ^ 32` requests after the first takes its id. -/
theorem Session.lookup_overrun {first : List (PendingRequest Obs)} (hfirst : first.length = period)
    (last : PendingRequest Obs) :
    ((start 0).track ((RawOneOrMany.batch (first ++ [last])).stampFrom 0)).2.tracker.pending.lookup
      0 = some (last.stamp period) := by
  have hconsistent := consistent_foldl_add (PendingRequest.stampAll 0 first)
    (consistent_start 0) (by simp)
  have hnext : ((PendingRequest.stampAll 0 first).foldl add (start 0)).nextId = 0 := by
    rw [hconsistent.nextId, count_foldl_add, count_start, PendingRequest.length_stampAll, hfirst,
      idAt_add_period, idAt_zero]
  have hlast : PendingRequest.stampAll (0 + first.length) [last] = [last.stamp period] := by
    rw [Nat.zero_add, hfirst]
    rfl
  rw [track_snd, RawOneOrMany.intoVec_stampFrom, RawOneOrMany.intoVec_batch,
    PendingRequest.stampAll_append, hlast, List.foldl_append, List.foldl_cons, List.foldl_nil,
    add, RequestTracker.addRequest_pending, hnext, AList.lookup_insert]

/-- An answer to the first is then handled by that request. -/
theorem Session.incoming_overrun {first : List (PendingRequest Obs)}
    (hfirst : first.length = period) (last : PendingRequest Obs) {resp : RawResponse}
    (hid : resp.id = 0) :
    (((start 0).track ((RawOneOrMany.batch (first ++ [last])).stampFrom 0)).2.incoming
      (.response resp)).1 = (resolve (last.stamp period) resp).handled := by
  rcases resp with ⟨version, id, body⟩
  subst hid
  rw [incoming_of_lookup_eq_some (lookup_overrun hfirst last)]

/-- A caller that gets to know that there is an answer, and which of the callers it is. -/
def asks (caller : Bool) : PendingRequest Bool :=
  PendingRequest.new ({ method := "server.ping", params := [] } : Request.Custom)
    (some fun _ => caller)

/-- The answer to the request with id 0. -/
def refusal : RawResponse := { version := {}, id := 0, result := .error .null }

/-- If only the first request was answered, no other callback may be run. -/
theorem World.not_correlates {w : World (Link Bool)} {h : Handled Bool ProcessError}
    (hmem : h ∈ w.client.handled) (hcalled : h.called = some true)
    (hanswered : w.answered = [(0, refusal)])
    (haccepted : w.client.accepted[0]? = some ((asks false).stamp 0)) : ¬w.Correlates := by
  intro hcorrelates
  obtain ⟨index, p, resp, hp, hresp, hanswers⟩ := (hcorrelates.answers h hmem).of_called hcalled
  rw [hanswered] at hresp
  obtain ⟨rfl, rfl⟩ := Prod.mk.inj (List.mem_singleton.mp hresp)
  rw [haccepted, Option.some.injEq] at hp
  subst hp
  have hfalse := (hanswers Request.Custom _ _ ⟨rfl, rfl⟩).callbackError _ _ rfl rfl
  rw [hfalse] at hcalled
  cases hcalled

/-- The request a period after the first gets the answer to the first. -/
theorem exists_not_correlates {first : List (PendingRequest Bool)} (hlength : first.length = period)
    (hfirst : first[0]? = some (asks false)) :
    ∃ w : World (AsyncClient Bool Unit),
      Reachable (World.Step AsyncClient.Step AsyncClient.link) (World.new AsyncClient.new) w ∧
        w.client.link.accepted = PendingRequest.stampAll 0 (first ++ [asks true]) ∧
          ¬(w.map AsyncClient.link).Correlates := by
  -- the last request of the batch gets the id of the first one, and its handler the answer
  have hstamp := PendingRequest.getElem?_stampAll 0 0 (first ++ [asks true])
  rw [List.getElem?_append_left (List.getElem?_eq_some_iff.mp hfirst).1, hfirst] at hstamp
  have hhandled := Session.incoming_overrun hlength (asks true) (show refusal.id = 0 from rfl)
  have hconsistent : Session.Consistent 0
      ((Session.start 0).track ((RawOneOrMany.batch (first ++ [asks true])).stampFrom 0)).2 :=
    (Session.consistent_start 0).track (by simp)
  have hsent : Reachable (World.Step AsyncClient.Step AsyncClient.link)
      (World.new (AsyncClient.new : AsyncClient Bool Unit)) _ :=
    (Reachable.refl _ _).tail
      (.client (.send { inner := some (.batch (first ++ [asks true])) }))
  have hreceived := (hsent.tail (.client (.request rfl rfl))).tail (.receive rfl)
  have hanswered := hreceived.tail
    (.reply (.single (.answer 0 refusal)) ?_ (List.nodup_singleton 0))
  · have hwritten := (hanswered.tail (.client (.written rfl rfl))).tail (.take rfl rfl)
    have hread := hwritten.tail (.read rfl (.incoming rfl))
    refine ⟨_, hread, Link.accepted_onIncoming _ _, World.not_correlates
      (Link.mem_handled_onIncoming _ (.response refusal)) (congrArg Handled.called hhandled) rfl ?_⟩
    exact (congrArg (fun ps => ps[0]?) (Link.accepted_onIncoming _ _)).trans hstamp
  · intro reply hreply
    rw [List.mem_singleton.mp hreply]
    -- the refusal answers the first request
    have hlt : 0 < ((Session.start 0).track
        ((RawOneOrMany.batch (first ++ [asks true])).stampFrom 0)).2.sent.length := by
      rw [hconsistent.sent, List.length_map]
      show 0 < Session.count _
      simp
    have hraw := List.getElem?_eq_getElem hlt
    refine .answer ((congrArg (fun raws => raws[0]?) (List.flatMap_singleton _ _)).trans hraw)
      (hconsistent.sent_getElem? hraw).symm fun p _ => ?_
    intro Req _ _ req callback _ v hv
    cases hv

omit [Bitcoin] in
/-- A batch of `2 ^ 32 + 1` requests. The answer to the first is given to the last. -/
theorem exists_not_correlates_batch :
    letI : Bitcoin := bareBitcoin
    ∃ w : World (AsyncClient Bool Unit),
      Reachable (World.Step AsyncClient.Step AsyncClient.link) (World.new AsyncClient.new) w ∧
        w.client.link.accepted =
          PendingRequest.stampAll 0 (List.replicate (2 ^ 32) (asks false) ++ [asks true]) ∧
          ¬(w.map AsyncClient.link).Correlates := by
  let _ : Bitcoin := bareBitcoin
  exact exists_not_correlates (List.length_replicate.trans rfl)
    (List.getElem?_replicate_of_lt (by decide : 0 < 2 ^ 32))

end ElectrumStreamingClient
