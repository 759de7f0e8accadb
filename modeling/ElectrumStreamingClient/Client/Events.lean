import ElectrumStreamingClient.Client.Conservation

/-!
# What the receiver of events gets

A client handles the messages it reads one after another. Those of them that lead to an event are
sent to the receiver of events in the same order, each before the next message is handled; the loop
stops at the first message that cannot be handled, and at the first event that is refused.
-/

namespace ElectrumStreamingClient

open TransitionSystem

variable [Bitcoin] {Obs E : Type}

/-- The event that handling a message led to. -/
def Handled.event? (h : Handled Obs ProcessError) : Option Event :=
  match h.result with
  | .ok ev => ev
  | .error _ => none

/-- The message was handled without an error. -/
def Handled.Succeeded (h : Handled Obs ProcessError) : Prop :=
  ∃ ev, h.result = .ok ev

/-- The events of the messages handled so far, in order. -/
def Link.due (l : Link Obs) : List Event :=
  l.handled.filterMap Handled.event?

/-- Handling a message makes its event due, if it has one. -/
theorem Link.due_receive (l : Link Obs) (msg : RawIncoming) :
    (l.receive msg).2.due = l.due ++ (l.receive msg).1.event?.toList := by
  have hhandled : (l.receive msg).2.handled = l.handled ++ [(l.receive msg).1] := rfl
  rw [due, due, hhandled, List.filterMap_append, List.filterMap_cons]
  rcases (l.receive msg).1.event? with _ | ev <;> rfl

/-- Where the loop over the incoming messages is. -/
inductive Position (E : Type) where
  /-- Between two messages. -/
  | between
  /-- About to send an event. -/
  | emitting (ev : Event)
  | stopped (exit : Exit E)

/-- The position after an item from the read streamer. -/
def AfterRead.position : AfterRead E → Position E
  | .again => .between
  | .event ev => .emitting ev
  | .exit e => .stopped e

/-- What has become of the events that are due, by the position of the loop. -/
inductive Link.Delivers (l : Link Obs) : Position E → Prop
  /-- All of them have been sent. -/
  | between (hsucceeded : ∀ h ∈ l.handled, h.Succeeded) (hevents : l.events = l.due) :
      l.Delivers .between
  | emitting {ev : Event} (hsucceeded : ∀ h ∈ l.handled, h.Succeeded)
      (hdue : l.due = l.events ++ [ev]) : l.Delivers (.emitting ev)
  /-- The last one was refused. -/
  | refused {ev : Event} (hsucceeded : ∀ h ∈ l.handled, h.Succeeded)
      (hdue : l.due = l.events ++ [ev]) (hclosed : l.eventsOpen = false) :
      l.Delivers (.stopped .eventsClosed)
  /-- The last message could not be handled. -/
  | failed {done : List (Handled Obs ProcessError)} {h : Handled Obs ProcessError}
      {err : ProcessError} (hhandled : l.handled = done ++ [h])
      (hsucceeded : ∀ h ∈ done, h.Succeeded) (herr : h.result = .error err)
      (hevents : l.events = l.due) : l.Delivers (.stopped (.processError err))
  | stopped {exit : Exit E} (hexit : exit ≠ .eventsClosed)
      (hprocess : ∀ err, exit ≠ .processError err) (hsucceeded : ∀ h ∈ l.handled, h.Succeeded)
      (hevents : l.events = l.due) : l.Delivers (.stopped exit)

namespace Link.Delivers

/-- A new link has sent no event, and owes none. -/
theorem new : (Link.new : Link Obs).Delivers (.between : Position E) :=
  .between (fun _ h => nomatch h) rfl

/-- Other operations do nothing to the events. -/
theorem of_eq {l l' : Link Obs} {p : Position E} (h : l.Delivers p)
    (hhandled : l'.handled = l.handled) (hevents : l'.events = l.events)
    (hopen : l.eventsOpen = false → l'.eventsOpen = false) : l'.Delivers p := by
  have hdue : l'.due = l.due := congrArg (List.filterMap Handled.event?) hhandled
  cases h with
  | between hsucceeded hsent =>
    exact .between (hhandled ▸ hsucceeded) (by rw [hevents, hdue, hsent])
  | emitting hsucceeded hsent =>
    exact .emitting (hhandled ▸ hsucceeded) (by rw [hevents, hdue, hsent])
  | refused hsucceeded hsent hclosed =>
    exact .refused (hhandled ▸ hsucceeded) (by rw [hevents, hdue, hsent]) (hopen hclosed)
  | failed hlast hsucceeded herr hsent =>
    exact .failed (hhandled.trans hlast) hsucceeded herr (by rw [hevents, hdue, hsent])
  | stopped hexit hprocess hsucceeded hsent =>
    exact .stopped hexit hprocess (hhandled ▸ hsucceeded) (by rw [hevents, hdue, hsent])

/-- Between two messages the loop can stop for another reason. -/
theorem stop {l : Link Obs} (h : l.Delivers (.between : Position E)) {exit : Exit E}
    (hexit : exit ≠ .eventsClosed) (hprocess : ∀ err, exit ≠ .processError err) :
    l.Delivers (.stopped exit) := by
  cases h with
  | between hsucceeded hsent => exact .stopped hexit hprocess hsucceeded hsent

/-- One more item is taken from the read streamer. -/
theorem onIncoming {l : Link Obs} (h : l.Delivers (.between : Position E)) (r : NextResult E) :
    (l.onIncoming r).2.Delivers (l.onIncoming r).1.position := by
  rcases r with _ | _ | err | msg
  · exact h.stop (by simp) (by simp)
  · exact h.stop (by simp) (by simp)
  · exact h.stop (by simp) (by simp)
  cases h with
  | between hsucceeded hsent =>
    have hdue := l.due_receive msg
    have hhandled : (l.receive msg).2.handled = l.handled ++ [(l.receive msg).1] := rfl
    have hevents : (l.receive msg).2.events = l.events := rfl
    simp only [Link.onIncoming]
    rcases hresult : (l.receive msg).1.result with err | _ | ev
    -- the message is the last one handled if it failed
    · have hnone : (l.receive msg).1.event? = none := by simp [Handled.event?, hresult]
      rw [hnone, Option.toList_none, List.append_nil] at hdue
      exact .failed hhandled hsucceeded hresult (by rw [hevents, hdue, hsent])
    · have hnone : (l.receive msg).1.event? = none := by simp [Handled.event?, hresult]
      rw [hnone, Option.toList_none, List.append_nil] at hdue
      refine .between ?_ (by rw [hevents, hdue, hsent])
      rw [hhandled]
      exact List.forall_mem_append.mpr ⟨hsucceeded, List.forall_mem_singleton.mpr ⟨_, hresult⟩⟩
    · have hsome : (l.receive msg).1.event? = some ev := by simp [Handled.event?, hresult]
      rw [hsome, Option.toList_some] at hdue
      refine .emitting ?_ (by rw [hevents, hdue, hsent])
      rw [hhandled]
      exact List.forall_mem_append.mpr ⟨hsucceeded, List.forall_mem_singleton.mpr ⟨_, hresult⟩⟩

/-- The event is sent, or refused. -/
theorem emit {l : Link Obs} {ev : Event} (h : l.Delivers (.emitting ev : Position E)) :
    (l.emit ev).Delivers
      (if l.eventsOpen then .between else .stopped .eventsClosed : Position E) := by
  cases h with
  | emitting hsucceeded hdue =>
    rcases hopen : l.eventsOpen with _ | _
    · rw [Link.emit, hopen, if_neg Bool.false_ne_true, if_neg Bool.false_ne_true]
      exact .refused hsucceeded hdue hopen
    · rw [Link.emit, hopen, if_pos rfl, if_pos rfl]
      exact .between hsucceeded hdue.symm

end Link.Delivers

/-- Sending a batch does not touch the event channel. -/
theorem Link.sendBatch_events (l : Link Obs) (batch : BatchRequest Obs) :
    (l.sendBatch batch).2.events = l.events ∧
      (l.sendBatch batch).2.eventsOpen = l.eventsOpen := by
  unfold sendBatch
  split
  · split <;> exact ⟨rfl, rfl⟩
  · exact ⟨rfl, rfl⟩

/-- Sending a batch does not change what has been delivered. -/
theorem Link.Delivers.sendBatch {l : Link Obs} {p : Position E} (h : l.Delivers p)
    (batch : BatchRequest Obs) : (l.sendBatch batch).2.Delivers p := by
  obtain ⟨-, -, -, -, hhandled, -⟩ := l.sendBatch_frame batch
  obtain ⟨hevents, hopen⟩ := l.sendBatch_events batch
  exact h.of_eq hhandled hevents hopen.trans

/-- Where the worker is with the incoming messages. -/
def Worker.position : Worker E → Position E
  | .selecting => .between
  | .writing => .between
  | .emitting ev => .emitting ev
  | .exiting e => .stopped e
  | .finished e => .stopped e

/-- Every step of the asynchronous client keeps its events in order. -/
theorem AsyncClient.Step.delivers {c c' : AsyncClient Obs E} {a : Act E}
    (h : c.link.Delivers c.worker.position) (hstep : Step c a c') :
    c'.link.Delivers c'.worker.position := by
  cases hstep with
  | send batch => exact h.sendBatch batch
  | close => exact h.of_eq rfl rfl id
  | closeEvents => exact h.of_eq rfl rfl fun _ => rfl
  -- tracking and writing do not touch the events
  | request hworker | written hworker =>
    rw [hworker] at h
    exact h.of_eq rfl rfl id
  | requestsClosed hworker =>
    rw [hworker] at h
    exact h.stop (by simp) (by simp)
  | @writeFailed raws err hworker =>
    rw [hworker] at h
    have hfailed : (c.link.writeFailed raws).Delivers (.between : Position E) :=
      h.of_eq rfl rfl id
    exact hfailed.stop (by simp) (by simp)
  | @incoming r hworker =>
    rw [hworker] at h
    have hafter := h.onIncoming r
    -- the worker is where the handled message leaves it
    rcases hr : (c.link.onIncoming r).1 with _ | ev | exit <;>
    · rw [hr] at hafter
      exact hafter
  | @event ev hworker =>
    rw [hworker] at h
    have hemit := h.emit
    -- the event is sent, or refused when its receiver is gone
    rcases hopen : c.link.eventsOpen with _ | _ <;>
    · rw [hopen] at hemit
      exact hemit
  | finish hworker =>
    rw [hworker] at h
    exact h.of_eq rfl rfl id

/-- Where the read thread is with the incoming messages. -/
def Reader.position : Reader E → Position E
  | .waiting => .between
  | .emitting ev => .emitting ev
  | .exiting e => .stopped e
  | .finished e => .stopped e

/-- Every step of the blocking client keeps its events in order. -/
theorem BlockingClient.Step.delivers {c c' : BlockingClient Obs E} {a : Act E}
    (h : c.link.Delivers c.reader.position) (hstep : Step c a c') :
    c'.link.Delivers c'.reader.position := by
  cases hstep with
  | send batch => exact h.sendBatch batch
  | closeEvents => exact h.of_eq rfl rfl fun _ => rfl
  -- the write thread does not touch the events
  | close | request | requestsClosed | written | writeFailed | finishWriter =>
    exact h.of_eq rfl rfl id
  | @incoming r hreader =>
    rw [hreader] at h
    have hafter := h.onIncoming r
    rcases hr : (c.link.onIncoming r).1 with _ | ev | exit <;>
    · rw [hr] at hafter
      exact hafter
  | @event ev hreader =>
    rw [hreader] at h
    have hemit := h.emit
    rcases hopen : c.link.eventsOpen with _ | _ <;>
    · rw [hopen] at hemit
      exact hemit
  | finishReader hreader =>
    rw [hreader] at h
    exact h.of_eq rfl rfl id

/-- In every run of either client the receiver of events has been sent the events of the messages
handled so far, each once and in their order, up to one that is about to be sent or was refused; no
message is handled after one that could not be. -/
theorem delivers_of_reachable :
    (∀ c : AsyncClient Obs E, Reachable AsyncClient.Step AsyncClient.new c →
      c.link.Delivers c.worker.position) ∧
    ∀ c : BlockingClient Obs E, Reachable BlockingClient.Step BlockingClient.new c →
      c.link.Delivers c.reader.position := by
  constructor
  · intro c h
    exact h.invariant (I := fun c => c.link.Delivers c.worker.position) Link.Delivers.new
      fun _ _ _ => AsyncClient.Step.delivers
  · intro c h
    exact h.invariant (I := fun c => c.link.Delivers c.reader.position) Link.Delivers.new
      fun _ _ _ => BlockingClient.Step.delivers

omit [Bitcoin] in
/-- The event of a request is refused, because the receiver is gone. -/
theorem delivers_of_reachable_refused :
    letI : Bitcoin := bareBitcoin
    ∃ c : AsyncClient (ResponseResult Value) Unit, c.worker = .exiting .eventsClosed ∧
      c.link.events = [] ∧ c.link.due ≠ [] ∧ c.link.Delivers c.worker.position := by
  let _ : Bitcoin := bareBitcoin
  have hclosed : Reachable AsyncClient.Step
      (AsyncClient.new : AsyncClient (ResponseResult Value) Unit) _ :=
    (Reachable.refl AsyncClient.Step AsyncClient.new).tail .closeEvents
  have hsent := hclosed.tail (.send (BatchRequest.new.eventRequest
    ({ method := "server.ping", params := [] } : Request.Custom)))
  have hwritten := (hsent.tail (.request rfl rfl)).tail (.written rfl rfl)
  have hanswered := hwritten.tail (.incoming (r := .ok (some (.ok (.response pong)))) rfl)
  have hrefused := hanswered.tail (.event rfl)
  refine ⟨_, rfl, rfl, ?_, delivers_of_reachable.1 _ hrefused⟩
  exact List.cons_ne_nil _ _

end ElectrumStreamingClient
