import ElectrumStreamingClient.Client.BlockingClient
import ElectrumStreamingClient.Foundations.TransitionSystem
import ElectrumStreamingClient.Tracker.Run

/-!
# Invariants of the clients

`Link.Consistent` is what holds of the data of either client in any state, and `AsyncClient.Ordered`
and `BlockingClient.Ordered` are what their control adds. With the latter, both clients are refined
to `Link.Step`: their steps are steps of the link.
-/

namespace ElectrumStreamingClient

open Serde KeyedStore WrappingId TransitionSystem

variable [Bitcoin] {Obs E : Type}

/-- Where an outcome of `handle_incoming` comes from. -/
inductive Explained (resolved : List (Resolution Obs)) : Handled Obs ProcessError → Prop
  | notification {raw : RawNotification} {n : Notification} (hnew : Notification.new raw = .ok n) :
      Explained resolved { called := none, result := .ok (some (.notification n)) }
  | undecodable {raw : RawNotification} {err : Error} (hnew : Notification.new raw = .error err) :
      Explained resolved
        { called := none
          result := .error (.cannotDeserializeNotification raw.method raw.params err) }
  | missing {id : UInt32} :
      Explained resolved { called := none, result := .error (.missingRequest id) }
  | resolved {r : Resolution Obs} (hr : r ∈ resolved) : Explained resolved r.handled

/-- More resolutions explain what fewer do. -/
theorem Explained.mono {resolved resolved' : List (Resolution Obs)} {h : Handled Obs ProcessError}
    (hexplained : Explained resolved h) (hsub : resolved ⊆ resolved') : Explained resolved' h := by
  cases hexplained with
  | notification hnew => exact .notification hnew
  | undecodable hnew => exact .undecodable hnew
  | missing => exact .missing
  | resolved hr => exact .resolved (hsub hr)

/-- What holds of the data of a client in every state. -/
structure Link.Consistent (l : Link Obs) : Prop where
  session : l.session.Consistent 0
  /-- What was accepted is what was tracked, then what is in the channel or was dropped in it. -/
  accepted : l.accepted = l.session.assigned.map Assignment.request ++
    (l.abandoned ++ l.channel.flatMap RawOneOrMany.intoVec)
  tickets : l.accepted.map PendingRequest.ticket = List.range l.accepted.length
  /-- Nothing is in the channel after it was dropped. -/
  abandoned : l.abandoned ≠ [] → l.channel = [] ∧ l.channelOpen = false
  written : l.wire.flatMap RawOneOrMany.intoVec ++ l.writing.unwritten = l.session.sent
  cleared : l.trackerDropped = false → l.session.cleared = []
  dropped : l.trackerDropped = true → l.session.tracker.pending = ∅
  handled : ∀ h ∈ l.handled, Explained l.session.resolved h
  events : ∀ ev ∈ l.events, ∃ h ∈ l.handled, h.result = .ok (some ev)
  /-- Each resolution was made by a call of `handle_incoming` of its own. -/
  recorded : (l.session.resolved.map Resolution.handled).Sublist l.handled

namespace Link

/-- A new link is consistent. -/
theorem consistent_new : (new : Link Obs).Consistent where
  session := Session.consistent_start 0
  accepted := rfl
  tickets := rfl
  abandoned h := absurd rfl h
  written := rfl
  cleared _ := rfl
  dropped h := nomatch h
  handled _ h := nomatch h
  events _ h := nomatch h
  recorded := List.Sublist.slnil

/-- Sending a batch keeps a link consistent. -/
theorem Consistent.sendBatch {l : Link Obs} (h : l.Consistent) (batch : BatchRequest Obs) :
    (l.sendBatch batch).2.Consistent := by
  unfold Link.sendBatch
  split
  · split
    next reqs _ hopen =>
      -- the channel is open, so nothing was dropped in it
      have habandoned : l.abandoned = [] := by
        by_contra hne
        rw [(h.abandoned hne).2] at hopen
        cases hopen
      refine { h with accepted := ?_, tickets := ?_, abandoned := ?_ }
      · simp [accept, h.accepted]
      · simp [accept, h.tickets, List.range_add, List.range'_eq_map_range]
      · intro hne
        exact absurd habandoned hne
    next => exact h
  · exact h

/-- The requests at the head of the channel have the next tickets. -/
theorem Consistent.tickets_channel {l : Link Obs} (h : l.Consistent)
    {reqs : RawOneOrMany (PendingRequest Obs)}
    {rest : List (RawOneOrMany (PendingRequest Obs))} (hchannel : l.channel = reqs :: rest) :
    l.abandoned = [] ∧ reqs.intoVec.map PendingRequest.ticket =
      List.range' l.session.count reqs.intoVec.length := by
  have habandoned : l.abandoned = [] := by
    by_contra hne
    rw [(h.abandoned hne).1] at hchannel
    cases hchannel
  refine ⟨habandoned, ?_⟩
  have htickets := h.tickets
  rw [h.accepted, habandoned, hchannel, List.nil_append, List.flatMap_cons] at htickets
  have hassigned : (l.session.assigned.map Assignment.request).map PendingRequest.ticket =
      List.range l.session.count := by
    rw [List.map_map]
    exact h.session.map_ticket
  have hlength : (l.session.assigned.map Assignment.request).length = l.session.count :=
    List.length_map _
  -- the tickets behind those of the tracked requests are the next ones
  rw [List.map_append, hassigned, List.length_append, hlength, List.range_add,
    List.append_cancel_left_eq, List.map_append, List.length_append, List.range_add,
    List.map_append] at htickets
  obtain ⟨hreqs, -⟩ := List.append_inj htickets (by simp)
  rw [hreqs, List.range'_eq_map_range]

/-- Tracking the next requests of the channel keeps a link consistent. -/
theorem Consistent.track {l : Link Obs} (h : l.Consistent) (hdropped : l.trackerDropped = false)
    (hwriting : l.writing = .idle) {reqs : RawOneOrMany (PendingRequest Obs)}
    {rest : List (RawOneOrMany (PendingRequest Obs))} (hchannel : l.channel = reqs :: rest) :
    (l.track reqs rest).Consistent := by
  obtain ⟨habandoned, htickets⟩ := h.tickets_channel hchannel
  have hsession := h.session.track htickets
  have hwritten := h.written
  rw [hwriting] at hwritten
  refine { h with
    session := hsession, accepted := ?_, abandoned := ?_, written := ?_, dropped := ?_ }
  · rw [Link.track, h.accepted, hchannel]
    simp [habandoned, Session.assigned_track]
  · intro hne
    exact absurd habandoned hne
  · simp only [Link.track, Session.sent_track, ← hwritten]
    simp [Writing.unwritten]
  · intro htrue
    rw [Link.track, hdropped] at htrue
    cases htrue

/-- A completed write keeps a link consistent. -/
theorem Consistent.wrote {l : Link Obs} (h : l.Consistent) {raws : RawOneOrMany RawRequest}
    (hwriting : l.writing = .busy raws) : (l.wrote raws).Consistent := by
  have hwritten := h.written
  rw [hwriting] at hwritten
  refine { h with written := ?_ }
  simpa [Link.wrote, Writing.unwritten] using hwritten

/-- A failed write keeps a link consistent. -/
theorem Consistent.writeFailed {l : Link Obs} (h : l.Consistent) {raws : RawOneOrMany RawRequest}
    (hwriting : l.writing = .busy raws) : (l.writeFailed raws).Consistent := by
  have hwritten := h.written
  rw [hwriting] at hwritten
  exact { h with written := hwritten }

/-- What `handle_incoming` does comes from a notification or a response. -/
theorem explained_incoming (s : Session Obs) (msg : RawIncoming) :
    Explained (s.incoming msg).2.resolved (s.incoming msg).1 := by
  rcases msg with raw | resp
  · rcases hnew : Notification.new raw with err | n
    · simpa [Session.incoming, RequestTracker.handleIncoming, hnew] using .undecodable hnew
    · simpa [Session.incoming, RequestTracker.handleIncoming, hnew] using .notification hnew
  · rcases hlookup : s.tracker.pending.lookup resp.id with _ | req
    · rw [Session.incoming_of_lookup_eq_none hlookup]
      exact .missing
    · rw [Session.incoming_of_lookup_eq_some hlookup]
      exact .resolved (List.mem_append_right _ List.mem_cons_self)

/-- Handling a message keeps a link consistent. -/
theorem Consistent.receive {l : Link Obs} (h : l.Consistent) (hdropped : l.trackerDropped = false)
    (msg : RawIncoming) : (l.receive msg).2.Consistent := by
  have hassigned : (l.session.incoming msg).2.assigned = l.session.assigned := rfl
  have hsent : (l.session.incoming msg).2.sent = l.session.sent := rfl
  have hcleared : (l.session.incoming msg).2.cleared = l.session.cleared := rfl
  refine { h with
    session := h.session.incoming msg, accepted := ?_, written := ?_, cleared := ?_
    dropped := ?_, handled := ?_, events := ?_, recorded := ?_ }
  · rw [Link.receive, hassigned]
    exact h.accepted
  · rw [Link.receive, hsent]
    exact h.written
  · rw [Link.receive, hcleared]
    exact h.cleared
  · intro htrue
    rw [Link.receive, hdropped] at htrue
    cases htrue
  · intro handled hmem
    -- the message that is handled now, or one before
    rcases List.mem_append.mp hmem with hmem | hmem
    · exact (h.handled handled hmem).mono (List.subset_append_left _ _)
    · rw [List.mem_singleton.mp hmem]
      exact explained_incoming l.session msg
  · intro ev hev
    obtain ⟨handled, hmem, hresult⟩ := h.events ev hev
    exact ⟨handled, List.mem_append_left _ hmem, hresult⟩
  · show ((l.session.incoming msg).2.resolved.map Resolution.handled).Sublist
      (l.handled ++ [(l.session.incoming msg).1])
    rw [Session.incoming, List.map_append]
    exact h.recorded.append (l.session.sublist_resolution msg)

/-- Sending the event of a handled message keeps a link consistent. -/
theorem Consistent.emit {l : Link Obs} (h : l.Consistent) {ev : Event}
    (hev : ∃ h ∈ l.handled, h.result = .ok (some ev)) : (l.emit ev).Consistent := by
  unfold Link.emit
  split
  · refine { h with events := ?_ }
    intro ev' hev'
    rcases List.mem_append.mp hev' with hev' | hev'
    · exact h.events ev' hev'
    · rwa [List.mem_singleton.mp hev']
  · exact h

/-- Dropping the tracker or the channel keeps a link consistent. -/
theorem Consistent.drop {l : Link Obs} (h : l.Consistent) (tracker channel : Bool) :
    (l.drop tracker channel).Consistent := by
  have hassigned : l.session.clear.assigned = l.session.assigned := rfl
  have hsent : l.session.clear.sent = l.session.sent := rfl
  have hresolved : l.session.clear.resolved = l.session.resolved := rfl
  -- the tracker is cleared as it is dropped, and the channel emptied
  refine { h with
    session := ?_, accepted := ?_, abandoned := ?_, written := ?_, cleared := ?_, dropped := ?_
    handled := ?_, recorded := ?_ }
  · rcases tracker with _ | _
    · exact h.session
    · exact h.session.clear
  · rcases tracker with _ | _ <;> rcases channel with _ | _ <;>
      simp [Link.drop, h.accepted, hassigned]
  · rcases channel with _ | _
    · simpa [Link.drop] using h.abandoned
    · exact fun _ => ⟨rfl, by simp [Link.drop]⟩
  · rcases tracker with _ | _
    · exact h.written
    · exact h.written
  · rcases tracker with _ | _
    · simpa [Link.drop] using h.cleared
    · simp [Link.drop]
  · rcases tracker with _ | _
    · simpa [Link.drop] using h.dropped
    · exact fun _ => rfl
  · rcases tracker with _ | _
    · exact h.handled
    · exact h.handled
  · rcases tracker with _ | _
    · exact h.recorded
    · exact h.recorded

/-- Every operation keeps the data consistent. -/
theorem Consistent.step {l l' : Link Obs} {a : Act E} (h : l.Consistent) (hstep : Step l a l') :
    l'.Consistent := by
  cases hstep with
  | send batch => exact h.sendBatch batch
  | close => exact { h with abandoned := fun hne => ⟨(h.abandoned hne).1, rfl⟩ }
  | closeEvents => exact { h with }
  | track hdropped hwriting hchannel => exact h.track hdropped hwriting hchannel
  | wrote hwriting => exact h.wrote hwriting
  | writeFailed hwriting => exact h.writeFailed hwriting
  | receive hdropped => exact h.receive hdropped _
  | emit hev => exact h.emit hev
  | drop tracker channel => exact h.drop tracker channel
  | stay => exact h

/-! ## What the operations leave alone -/

/-- Sending does nothing to the tracker, the writer and the events, and nothing at all once the
channel is closed. -/
theorem sendBatch_frame (l : Link Obs) (batch : BatchRequest Obs) :
    (l.sendBatch batch).2.session = l.session ∧
      (l.sendBatch batch).2.trackerDropped = l.trackerDropped ∧
      (l.sendBatch batch).2.abandoned = l.abandoned ∧
      (l.sendBatch batch).2.writing = l.writing ∧ (l.sendBatch batch).2.handled = l.handled ∧
      (l.channelOpen = false → (l.sendBatch batch).2 = l) := by
  unfold sendBatch
  split
  · split
    next hopen => exact ⟨rfl, rfl, rfl, rfl, rfl, fun hclosed => by simp [hopen] at hclosed⟩
    next => exact ⟨rfl, rfl, rfl, rfl, rfl, fun _ => rfl⟩
  · exact ⟨rfl, rfl, rfl, rfl, rfl, fun _ => rfl⟩

/-- A message is received. -/
@[simp] theorem onIncoming_message (l : Link Obs) (msg : RawIncoming) :
    (l.onIncoming (.ok (some (.ok msg)) : NextResult E)).2 = (l.receive msg).2 := by
  simp only [onIncoming]
  split <;> rfl

/-- Reading accepts no requests. -/
@[simp] theorem accepted_onIncoming (l : Link Obs) (r : NextResult E) :
    (l.onIncoming r).2.accepted = l.accepted := by
  rcases r with _ | _ | err | msg
  · rfl
  · rfl
  · rfl
  · rw [onIncoming_message]
    rfl

/-- A message that is read is recorded as handled. -/
theorem mem_handled_onIncoming (l : Link Obs) (msg : RawIncoming) :
    (l.session.incoming msg).1 ∈
      (l.onIncoming (.ok (some (.ok msg)) : NextResult E)).2.handled := by
  rw [onIncoming_message]
  exact List.mem_append_right _ List.mem_cons_self

/-- Handling an item does nothing to the channel and the writer. -/
theorem onIncoming_frame (l : Link Obs) (r : NextResult E) :
    (l.onIncoming r).2.trackerDropped = l.trackerDropped ∧
      (l.onIncoming r).2.abandoned = l.abandoned ∧
      (l.onIncoming r).2.channel = l.channel ∧
      (l.onIncoming r).2.channelOpen = l.channelOpen ∧
      (l.onIncoming r).2.writing = l.writing := by
  rcases r with _ | _ | err | msg
  · exact ⟨rfl, rfl, rfl, rfl, rfl⟩
  · exact ⟨rfl, rfl, rfl, rfl, rfl⟩
  · exact ⟨rfl, rfl, rfl, rfl, rfl⟩
  · rw [onIncoming_message]
    exact ⟨rfl, rfl, rfl, rfl, rfl⟩

/-- An event to be sent comes from the message that was handled. -/
theorem onIncoming_event {l : Link Obs} {r : NextResult E} {ev : Event}
    (h : (l.onIncoming r).1 = .event ev) :
    ∃ handled ∈ (l.onIncoming r).2.handled, handled.result = .ok (some ev) := by
  rcases r with _ | _ | err | msg
  · cases h
  · cases h
  · cases h
  · simp only [onIncoming] at h ⊢
    split at h
    next => cases h
    next => cases h
    next ev' hresult =>
      cases h
      exact ⟨(l.receive msg).1, List.mem_append_right _ List.mem_cons_self, hresult⟩

/-- Reading is a step of a link whose tracker is alive. -/
theorem onIncoming_step {l : Link Obs} (hdropped : l.trackerDropped = false) (r : NextResult E) :
    Step l (.read r) (l.onIncoming r).2 := by
  rcases r with _ | _ | err | msg
  · exact .stay (by simp)
  · exact .stay (by simp)
  · exact .stay (by simp)
  · rw [onIncoming_message]
    exact .receive hdropped

/-- Sending an event changes nothing but the events. -/
theorem emit_frame (l : Link Obs) (ev : Event) :
    (l.emit ev).trackerDropped = l.trackerDropped ∧ (l.emit ev).abandoned = l.abandoned ∧
      (l.emit ev).channel = l.channel ∧ (l.emit ev).channelOpen = l.channelOpen ∧
      (l.emit ev).writing = l.writing := by
  unfold emit
  split <;> exact ⟨rfl, rfl, rfl, rfl, rfl⟩

end Link

/-! ## The asynchronous client -/

namespace AsyncClient

/-- What the control of the worker adds to the data. -/
structure Ordered (c : AsyncClient Obs E) : Prop where
  running : (∀ exit, c.worker ≠ .finished exit) →
    c.link.trackerDropped = false ∧ c.link.abandoned = []
  finished : ∀ exit, c.worker = .finished exit →
    c.link.trackerDropped = true ∧ c.link.channel = [] ∧ c.link.channelOpen = false
  selecting : c.worker = .selecting → c.link.writing = .idle
  emitting : ∀ ev, c.worker = .emitting ev → c.link.writing = .idle ∧
    ∃ h ∈ c.link.handled, h.result = .ok (some ev)

/-- A new asynchronous client is in order. -/
theorem ordered_new : (new : AsyncClient Obs E).Ordered where
  running _ := ⟨rfl, rfl⟩
  finished _ h := nomatch h
  selecting _ := rfl
  emitting _ h := nomatch h

/-- Each step keeps the order, and is one of the link. -/
theorem Ordered.step {c c' : AsyncClient Obs E} {a : Act E} (h : c.Ordered) (hstep : Step c a c') :
    c'.Ordered ∧ Link.Step c.link a c'.link := by
  cases hstep with
  | send batch =>
    obtain ⟨-, hdropped, habandoned, hwriting, hhandled, hclosed⟩ := c.link.sendBatch_frame batch
    refine ⟨⟨?_, ?_, ?_, ?_⟩, .send batch⟩
    · intro hworker
      dsimp only
      rw [hdropped, habandoned]
      exact h.running hworker
    · intro exit hworker
      have hfinished := h.finished exit hworker
      dsimp only
      rwa [hclosed hfinished.2.2]
    · exact fun hworker => hwriting.trans (h.selecting hworker)
    · intro ev hworker
      dsimp only
      rw [hwriting, hhandled]
      exact h.emitting ev hworker
  | close =>
    refine ⟨{ h with finished := ?_ }, .close⟩
    intro exit hworker
    exact ⟨(h.finished exit hworker).1, (h.finished exit hworker).2.1, rfl⟩
  | closeEvents => exact ⟨{ h with }, .closeEvents⟩
  | request hworker hchannel =>
    have hdropped := h.running fun exit => by simp [hworker]
    refine ⟨⟨fun _ => hdropped, ?_, ?_, ?_⟩, .track hdropped.1 (h.selecting hworker) hchannel⟩ <;>
      simp
  | requestsClosed hworker hchannel hopen =>
    have hdropped := h.running fun exit => by simp [hworker]
    exact ⟨⟨fun _ => hdropped, by simp, by simp, by simp⟩, .stay (by simp)⟩
  | written hworker hwriting =>
    have hdropped := h.running fun exit => by simp [hworker]
    exact ⟨⟨fun _ => hdropped, by simp, fun _ => rfl, by simp⟩, .wrote hwriting⟩
  | writeFailed err hworker hwriting =>
    have hdropped := h.running fun exit => by simp [hworker]
    exact ⟨⟨fun _ => hdropped, by simp, by simp, by simp⟩, .writeFailed hwriting⟩
  | @incoming r hworker =>
    -- the worker reads between two turns only, so no line is being written
    have hdropped := h.running fun exit => by simp [hworker]
    obtain ⟨hframe, habandoned, -, -, hwriting⟩ := c.link.onIncoming_frame r
    have hidle := hwriting.trans (h.selecting hworker)
    refine ⟨⟨fun _ => ⟨hframe.trans hdropped.1, habandoned.trans hdropped.2⟩, ?_, fun _ => hidle,
      ?_⟩, Link.onIncoming_step hdropped.1 r⟩
    · intro exit hafter
      dsimp only at hafter
      rcases hr : (c.link.onIncoming r).1 with _ | ev | exit' <;>
        rw [hr] at hafter <;> cases hafter
    · intro ev hafter
      dsimp only at hafter
      rcases hr : (c.link.onIncoming r).1 with _ | ev' | exit' <;>
        rw [hr] at hafter <;> cases hafter
      exact ⟨hidle, Link.onIncoming_event hr⟩
  | @event ev hworker =>
    have hdropped := h.running fun exit => by simp [hworker]
    obtain ⟨hidle, hev⟩ := h.emitting ev hworker
    obtain ⟨hframe, habandoned, -, -, hwriting⟩ := c.link.emit_frame ev
    refine ⟨⟨fun _ => ⟨hframe.trans hdropped.1, habandoned.trans hdropped.2⟩, ?_,
      fun _ => hwriting.trans hidle, ?_⟩, .emit hev⟩
    · intro exit hafter
      dsimp only at hafter
      split at hafter <;> cases hafter
    · intro ev' hafter
      dsimp only at hafter
      split at hafter <;> cases hafter
  | finish hworker =>
    -- the captured state goes all at once
    refine ⟨⟨?_, ?_, by simp, by simp⟩, .drop true true⟩
    · intro hrunning
      exact absurd rfl (hrunning _)
    · intro exit _
      exact ⟨by simp [Link.drop], rfl, by simp [Link.drop]⟩

/-- The client refines the link. -/
theorem reachable_link {c : AsyncClient Obs E} (h : Reachable Step new c) :
    Reachable (Link.Step (E := E)) Link.new c.link :=
  h.simulated (I := Ordered) ordered_new fun _ a _ hordered hstep =>
    ⟨(hordered.step hstep).1, a, (hordered.step hstep).2⟩

/-- Every state of the asynchronous client is in order. -/
theorem ordered_of_reachable {c : AsyncClient Obs E} (h : Reachable Step new c) : c.Ordered :=
  h.invariant ordered_new fun _ _ _ hordered hstep => (hordered.step hstep).1

end AsyncClient

/-! ## The blocking client -/

namespace BlockingClient

/-- What the control of the two threads adds to the data. -/
structure Ordered (c : BlockingClient Obs E) : Prop where
  dropped : c.link.trackerDropped = (c.reader.isFinished && c.writer.isFinished)
  running : c.writer.isFinished = false → c.link.abandoned = []
  finished : c.writer.isFinished = true → c.link.channel = [] ∧ c.link.channelOpen = false
  waiting : c.writer = .waiting → c.link.writing = .idle
  emitting : ∀ ev, c.reader = .emitting ev → ∃ h ∈ c.link.handled, h.result = .ok (some ev)

/-- A new blocking client is in order. -/
theorem ordered_new : (new : BlockingClient Obs E).Ordered where
  dropped := rfl
  running _ := rfl
  finished h := nomatch h
  waiting _ := rfl
  emitting _ h := nomatch h

/-- The tracker is alive while the read thread runs. -/
theorem Ordered.dropped_of_reader {c : BlockingClient Obs E} (h : c.Ordered)
    (hreader : c.reader.isFinished = false) : c.link.trackerDropped = false := by
  rw [h.dropped, hreader, Bool.false_and]

/-- The tracker is alive while the write thread runs. -/
theorem Ordered.dropped_of_writer {c : BlockingClient Obs E} (h : c.Ordered)
    (hwriter : c.writer.isFinished = false) : c.link.trackerDropped = false := by
  rw [h.dropped, hwriter, Bool.and_false]

/-- Each step keeps the order, and is one of the link. -/
theorem Ordered.step {c c' : BlockingClient Obs E} {a : Act E} (h : c.Ordered)
    (hstep : Step c a c') : c'.Ordered ∧ Link.Step c.link a c'.link := by
  cases hstep with
  | send batch =>
    obtain ⟨-, hdropped, habandoned, hwriting, hhandled, hclosed⟩ := c.link.sendBatch_frame batch
    refine ⟨{ h with
      dropped := hdropped.trans h.dropped, running := ?_, finished := ?_, waiting := ?_
      emitting := ?_ }, .send batch⟩
    · exact fun hwriter => habandoned.trans (h.running hwriter)
    · intro hwriter
      have hfinished := h.finished hwriter
      dsimp only
      rwa [hclosed hfinished.2]
    · exact fun hwriter => hwriting.trans (h.waiting hwriter)
    · intro ev hreader
      dsimp only
      rw [hhandled]
      exact h.emitting ev hreader
  | close =>
    exact ⟨{ h with finished := fun hwriter => ⟨(h.finished hwriter).1, rfl⟩ }, .close⟩
  | closeEvents => exact ⟨{ h with }, .closeEvents⟩
  | request hwriter hchannel =>
    have hdropped := h.dropped_of_writer (by simp [hwriter])
    have habandoned := h.running (by simp [hwriter])
    refine ⟨⟨?_, fun _ => habandoned, by simp, by simp, h.emitting⟩,
      .track hdropped (h.waiting hwriter) hchannel⟩
    simp [Link.track, hdropped]
  | requestsClosed hwriter hchannel hopen =>
    have hdropped := h.dropped_of_writer (by simp [hwriter])
    have habandoned := h.running (by simp [hwriter])
    exact ⟨⟨by simp [hdropped], fun _ => habandoned, by simp, by simp, h.emitting⟩,
      .stay (by simp)⟩
  | written hwriter hwriting =>
    have hdropped := h.dropped_of_writer (by simp [hwriter])
    have habandoned := h.running (by simp [hwriter])
    exact ⟨⟨by simp [Link.wrote, hdropped], fun _ => habandoned, by simp, fun _ => rfl,
      h.emitting⟩, .wrote hwriting⟩
  | writeFailed err hwriter hwriting =>
    have hdropped := h.dropped_of_writer (by simp [hwriter])
    have habandoned := h.running (by simp [hwriter])
    exact ⟨⟨by simp [Link.writeFailed, hdropped], fun _ => habandoned, by simp, by simp,
      h.emitting⟩, .writeFailed hwriting⟩
  | finishWriter hwriter =>
    -- the tracker goes with its last handle: now, if the read thread has terminated before
    have hdropped := h.dropped_of_writer (by simp [hwriter])
    refine ⟨{ h with
      dropped := ?_
      running := by simp
      finished := fun _ => ⟨rfl, by simp [Link.drop]⟩
      waiting := by simp }, .drop _ _⟩
    simp [Link.drop, hdropped]
  | @incoming r hreader =>
    have hdropped := h.dropped_of_reader (by simp [hreader])
    obtain ⟨hframe, habandoned, hchannel, hopen, hwriting⟩ := c.link.onIncoming_frame r
    refine ⟨{ h with
      dropped := ?_
      running := fun hwriter => habandoned.trans (h.running hwriter)
      finished := ?_
      waiting := fun hwriter => hwriting.trans (h.waiting hwriter)
      emitting := ?_ }, Link.onIncoming_step hdropped r⟩
    · rcases hr : (c.link.onIncoming r).1 with _ | ev' | exit' <;>
        simp [hframe, hdropped, afterRead]
    · intro hwriter
      rw [hchannel, hopen]
      exact h.finished hwriter
    · intro ev hafter
      dsimp only at hafter
      rcases hr : (c.link.onIncoming r).1 with _ | ev' | exit' <;>
        rw [hr] at hafter <;> cases hafter
      exact Link.onIncoming_event hr
  | @event ev hreader =>
    have hdropped := h.dropped_of_reader (by simp [hreader])
    obtain ⟨hframe, habandoned, hchannel, hopen, hwriting⟩ := c.link.emit_frame ev
    refine ⟨{ h with
      dropped := ?_
      running := fun hwriter => habandoned.trans (h.running hwriter)
      finished := ?_
      waiting := fun hwriter => hwriting.trans (h.waiting hwriter)
      emitting := ?_ }, .emit (h.emitting ev hreader)⟩
    · dsimp only
      split <;> simp [hframe, hdropped]
    · intro hwriter
      rw [hchannel, hopen]
      exact h.finished hwriter
    · intro ev' hafter
      dsimp only at hafter
      split at hafter <;> cases hafter
  | finishReader hreader =>
    have hdropped := h.dropped_of_reader (by simp [hreader])
    refine ⟨{ h with dropped := ?_, running := ?_, finished := ?_, emitting := by simp },
      .drop _ _⟩
    · simp [Link.drop, hdropped]
    · intro hwriter
      simpa [Link.drop] using h.running hwriter
    · intro hwriter
      exact ⟨(h.finished hwriter).1, by simp [Link.drop, (h.finished hwriter).2]⟩

/-- The client refines the link. -/
theorem reachable_link {c : BlockingClient Obs E} (h : Reachable Step new c) :
    Reachable (Link.Step (E := E)) Link.new c.link :=
  h.simulated (I := Ordered) ordered_new fun _ a _ hordered hstep =>
    ⟨(hordered.step hstep).1, a, (hordered.step hstep).2⟩

/-- Every state of the blocking client is in order. -/
theorem ordered_of_reachable {c : BlockingClient Obs E} (h : Reachable Step new c) : c.Ordered :=
  h.invariant ordered_new fun _ _ _ hordered hstep => (hordered.step hstep).1

end BlockingClient

/-- The data of a client is consistent in every reachable state. -/
theorem Link.consistent_of_reachable {l : Link Obs}
    (h : Reachable (Link.Step (E := E)) Link.new l) : l.Consistent :=
  h.invariant Link.consistent_new fun _ _ _ hconsistent hstep => hconsistent.step hstep

end ElectrumStreamingClient
