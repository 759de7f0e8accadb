import ElectrumStreamingClient.Client.Correlation
import ElectrumStreamingClient.Client.Disconnect

/-!
# Shutting a client down

When the request channel is closed, what is in it is still written. A client that stops because the
channel is closed and empty has written all requests it accepted, and it does stop: no request can
be sent any more, and each of its moves leaves less to do.
-/

namespace ElectrumStreamingClient

open Serde WrappingId TransitionSystem

variable [Bitcoin] {Obs E : Type}

/-! ## What has been written -/

namespace Link

/-- The lines written are those of all accepted requests, in order and under their ids. -/
def AllWritten (l : Link Obs) : Prop :=
  l.wire.flatMap RawOneOrMany.intoVec = l.accepted.mapIdx fun i p => p.toRaw (idAt 0 i)

/-- Nothing is left to be written, and nothing can be sent. -/
structure Drained (l : Link Obs) : Prop where
  channel : l.channel = []
  closed : l.channelOpen = false
  idle : l.writing = .idle
  abandoned : l.abandoned = []

/-- A drained link has written all that it accepted. -/
theorem Drained.allWritten {l : Link Obs} (h : l.Drained) (hconsistent : l.Consistent) :
    l.AllWritten := by
  -- nothing was dropped in the channel or is left in it, so all was tracked
  have hcount : l.session.count = l.accepted.length := by
    rw [hconsistent.accepted, h.abandoned, h.channel]
    simp [Session.count]
  have hwritten := hconsistent.outgoing_eq_mapIdx
  rw [outgoing, h.idle, hcount, List.take_length] at hwritten
  simpa [AllWritten, Writing.lines] using hwritten

/-- A drained link takes no batch. -/
theorem Drained.sendBatch {l : Link Obs} (h : l.Drained) (batch : BatchRequest Obs) :
    (l.sendBatch batch).2.Drained := by
  obtain ⟨-, -, -, -, -, hclosed⟩ := l.sendBatch_frame batch
  rw [hclosed h.closed]
  exact h

/-- Closing a drained link changes nothing. -/
theorem Drained.close {l : Link Obs} (h : l.Drained) : l.close.Drained :=
  { h with closed := rfl }

/-- A drained link stays so when its events are refused. -/
theorem Drained.closeEvents {l : Link Obs} (h : l.Drained) : l.closeEvents.Drained :=
  { h with }

/-- A drained link stays so when a message is read. -/
theorem Drained.onIncoming {l : Link Obs} (h : l.Drained) (r : NextResult E) :
    (l.onIncoming r).2.Drained := by
  obtain ⟨-, habandoned, hchannel, hopen, hwriting⟩ := l.onIncoming_frame r
  exact ⟨hchannel.trans h.channel, hopen.trans h.closed, hwriting.trans h.idle,
    habandoned.trans h.abandoned⟩

/-- A drained link stays so when an event is sent. -/
theorem Drained.emit {l : Link Obs} (h : l.Drained) (ev : Event) : (l.emit ev).Drained := by
  obtain ⟨-, habandoned, hchannel, hopen, hwriting⟩ := l.emit_frame ev
  exact ⟨hchannel.trans h.channel, hopen.trans h.closed, hwriting.trans h.idle,
    habandoned.trans h.abandoned⟩

/-- A drained link stays so when its parts are dropped. -/
theorem Drained.drop {l : Link Obs} (h : l.Drained) (tracker channel : Bool) :
    (l.drop tracker channel).Drained := by
  obtain ⟨hchannel, hclosed, hidle, habandoned⟩ := h
  -- there is nothing in the channel to be dropped with it
  refine ⟨?_, ?_, hidle, ?_⟩ <;> simp [Link.drop, hchannel, hclosed, habandoned]

/-- Reading does not make a client stop for lack of requests. -/
theorem onIncoming_ne_requestsClosed (l : Link Obs) (r : NextResult E) :
    (l.onIncoming r).1 ≠ .exit .requestsClosed := by
  rcases r with _ | _ | err | msg
  · simp [Link.onIncoming]
  · simp [Link.onIncoming]
  · simp [Link.onIncoming]
  · simp only [Link.onIncoming]
    split <;> simp

end Link

/-- Why the worker has left its loop, if it has. -/
def Worker.exit? : Worker E → Option (Exit E)
  | .exiting e => some e
  | .finished e => some e
  | _ => none

/-- The asynchronous client leaves its loop because of a closed channel only when it is drained. -/
theorem AsyncClient.Step.drained {c c' : AsyncClient Obs E} {a : Act E} (hordered : c.Ordered)
    (h : c.worker.exit? = some .requestsClosed → c.link.Drained) (hstep : Step c a c')
    (hexit : c'.worker.exit? = some .requestsClosed) : c'.link.Drained := by
  cases hstep with
  | send batch => exact (h hexit).sendBatch batch
  | close => exact (h hexit).close
  | closeEvents => exact (h hexit).closeEvents
  | request | written | writeFailed => simp [Worker.exit?] at hexit
  | requestsClosed hworker hchannel hopen =>
    -- a worker that selects writes nothing, and nothing is dropped before it finishes
    exact ⟨hchannel, hopen, hordered.selecting hworker,
      (hordered.running fun exit => by simp [hworker]).2⟩
  | @incoming r =>
    -- it leaves its loop for another reason, if at all
    dsimp only at hexit
    rcases hr : (c.link.onIncoming r).1 with _ | ev | exit
    · simp [hr, afterRead, Worker.exit?] at hexit
    · simp [hr, afterRead, Worker.exit?] at hexit
    · rw [hr] at hexit
      exact absurd (hr.trans (congrArg _ (Option.some.inj hexit)))
        (c.link.onIncoming_ne_requestsClosed r)
  | event =>
    dsimp only at hexit
    split at hexit <;> simp [Worker.exit?] at hexit
  | finish hworker =>
    have hexit' : c.worker.exit? = some .requestsClosed := by
      rw [hworker]
      exact hexit
    exact (h hexit').drop true true

/-- Why the write thread has left its loop, if it has. -/
def Writer.exit? : Writer E → Option (Exit E)
  | .exiting e => some e
  | .finished e => some e
  | _ => none

/-- The write thread leaves its loop because of a closed channel only when it is drained. -/
theorem BlockingClient.Step.drained {c c' : BlockingClient Obs E} {a : Act E}
    (hordered : c.Ordered) (h : c.writer.exit? = some .requestsClosed → c.link.Drained)
    (hstep : Step c a c') (hexit : c'.writer.exit? = some .requestsClosed) : c'.link.Drained := by
  cases hstep with
  | send batch => exact (h hexit).sendBatch batch
  | close => exact (h hexit).close
  | closeEvents => exact (h hexit).closeEvents
  | request | written | writeFailed => simp [Writer.exit?] at hexit
  | requestsClosed hwriter hchannel hopen =>
    -- the writer waits, so no line is unfinished
    exact ⟨hchannel, hopen, hordered.waiting hwriter, hordered.running (by simp [hwriter])⟩
  | finishWriter hwriter =>
    have hexit' : c.writer.exit? = some .requestsClosed := by
      rw [hwriter]
      exact hexit
    exact (h hexit').drop _ true
  | @incoming r => exact (h hexit).onIncoming r
  | @event ev => exact (h hexit).emit ev
  | finishReader => exact (h hexit).drop _ false

/-- A client whose writing side has stopped because the channel is closed and empty has written
every request that it accepted, completely. -/
theorem drained_of_reachable :
    (∀ c : AsyncClient Obs E, Reachable AsyncClient.Step AsyncClient.new c →
      c.worker.exit? = some .requestsClosed → c.link.Drained ∧ c.link.AllWritten) ∧
    ∀ c : BlockingClient Obs E, Reachable BlockingClient.Step BlockingClient.new c →
      c.writer.exit? = some .requestsClosed → c.link.Drained ∧ c.link.AllWritten := by
  constructor
  · intro c h hexit
    -- the order of the client and the drained link are one invariant
    have hboth : c.Ordered ∧ (c.worker.exit? = some .requestsClosed → c.link.Drained) :=
      h.invariant (I := fun c => c.Ordered ∧ (c.worker.exit? = some .requestsClosed →
        c.link.Drained)) ⟨AsyncClient.ordered_new, by simp [AsyncClient.new, Worker.exit?]⟩
        fun _ _ _ hc hstep => ⟨(hc.1.step hstep).1, hstep.drained hc.1 hc.2⟩
    have hdrained := hboth.2 hexit
    have hconsistent := Link.consistent_of_reachable (AsyncClient.reachable_link h)
    exact ⟨hdrained, hdrained.allWritten hconsistent⟩
  · intro c h hexit
    have hboth : c.Ordered ∧ (c.writer.exit? = some .requestsClosed → c.link.Drained) :=
      h.invariant (I := fun c => c.Ordered ∧ (c.writer.exit? = some .requestsClosed →
        c.link.Drained)) ⟨BlockingClient.ordered_new, by simp [BlockingClient.new, Writer.exit?]⟩
        fun _ _ _ hc hstep => ⟨(hc.1.step hstep).1, hstep.drained hc.1 hc.2⟩
    have hdrained := hboth.2 hexit
    exact ⟨hdrained,
      hdrained.allWritten (Link.consistent_of_reachable (BlockingClient.reachable_link h))⟩

omit [Bitcoin] in
/-- A client is closed while a request is in its channel. -/
theorem drained_of_reachable_keepAlive :
    letI : Bitcoin := bareBitcoin
    ∃ c : AsyncClient (ResponseResult Value) Unit,
      c.link.accepted.length = 1 ∧ c.link.AllWritten := by
  let _ : Bitcoin := bareBitcoin
  have hclosed : Reachable AsyncClient.Step
      (AsyncClient.new : AsyncClient (ResponseResult Value) Unit) _ :=
    ((Reachable.refl AsyncClient.Step AsyncClient.new).tail (.send keepAlive)).tail .close
  have hwritten := (hclosed.tail (.request rfl rfl)).tail (.written rfl rfl)
  have hstopped := hwritten.tail (.requestsClosed rfl rfl rfl)
  exact ⟨_, rfl, (drained_of_reachable.1 _ hstopped rfl).2⟩

/-! ## Coming to an end -/

/-- The moves the worker has still to make from where it is, apart from the channel. -/
def Worker.rank : Worker E → ℕ
  | .selecting => 2
  | .writing => 3
  | .emitting _ => 3
  | .exiting _ => 1
  | .finished _ => 0

namespace AsyncClient

/-- A bound on the moves the worker has still to make. Each batch in the channel takes two. -/
def toDo (c : AsyncClient Obs E) : ℕ :=
  2 * c.link.channel.length + c.worker.rank

/-- A client that is writing has a line to write. -/
theorem busy_of_reachable {c : AsyncClient Obs E} (h : Reachable Step new c)
    (hworker : c.worker = .writing) : ∃ raws, c.link.writing = .busy raws := by
  -- only a request that is received begins a line
  refine h.invariant (I := fun c => c.worker = .writing → ∃ raws, c.link.writing = .busy raws)
    (fun h => nomatch h) ?_ hworker
  intro c a c' hbusy hstep hworker'
  cases hstep with
  | send batch =>
    obtain ⟨-, -, -, hwriting, -, -⟩ := c.link.sendBatch_frame batch
    obtain ⟨raws, hraws⟩ := hbusy hworker'
    exact ⟨raws, hwriting.trans hraws⟩
  | close | closeEvents => exact hbusy hworker'
  | request => exact ⟨_, rfl⟩
  | requestsClosed | written | writeFailed | finish => cases hworker'
  | @incoming r =>
    dsimp only at hworker'
    rcases hr : (c.link.onIncoming r).1 with _ | ev | exit <;> rw [hr] at hworker' <;>
      cases hworker'
  | event =>
    dsimp only at hworker'
    split at hworker' <;> cases hworker'

/-- The channel of the asynchronous client stays closed. -/
theorem Step.closed {c c' : AsyncClient Obs E} {a : Act E} (hstep : Step c a c')
    (h : c.link.channelOpen = false) : c'.link.channelOpen = false := by
  cases hstep with
  | send batch =>
    obtain ⟨-, -, -, -, -, hclosed⟩ := c.link.sendBatch_frame batch
    dsimp only
    rw [hclosed h, h]
  | close => rfl
  | closeEvents | request | requestsClosed | written | writeFailed => exact h
  | @incoming r => exact (c.link.onIncoming_frame r).2.2.2.1.trans h
  | @event ev => exact (c.link.emit_frame ev).2.2.2.1.trans h
  | finish => simp [Link.drop]

/-- A step other than a read moves the worker on, or does nothing to it and to the channel. -/
theorem Step.toDo_lt {c c' : AsyncClient Obs E} (hstep : Step c .internal c')
    (h : c.link.channelOpen = false) :
    c'.toDo < c.toDo ∨ c'.worker = c.worker ∧ c'.toDo = c.toDo := by
  cases hstep with
  | send batch =>
    -- the channel is closed, so it gets no longer
    obtain ⟨-, -, -, -, -, hclosed⟩ := c.link.sendBatch_frame batch
    rw [hclosed h]
    exact .inr ⟨rfl, rfl⟩
  | close | closeEvents => exact .inr ⟨rfl, rfl⟩
  | request hworker hchannel =>
    refine .inl ?_
    simp only [toDo, Link.track, hworker, hchannel, List.length_cons, Worker.rank]
    omega
  | requestsClosed hworker | written hworker | writeFailed err hworker =>
    refine .inl ?_
    simp [toDo, Link.wrote, Link.writeFailed, hworker, Worker.rank]
  | @event ev hworker =>
    obtain ⟨-, -, hchannel, -, -⟩ := c.link.emit_frame ev
    refine .inl ?_
    simp only [toDo, hchannel, hworker]
    split <;> simp [Worker.rank]
  | finish hworker =>
    refine .inl ?_
    simp only [toDo, Link.drop, hworker, if_true, List.length_nil, Worker.rank]
    omega

/-- Until it has finished, the worker of a closed client can move without reading. -/
theorem finished_or_move {c : AsyncClient Obs E} (hclosed : c.link.channelOpen = false)
    (hbusy : c.worker = .writing → ∃ raws, c.link.writing = .busy raws) :
    (∃ exit, c.worker = .finished exit) ∨ ∃ c', Step c .internal c' ∧ c'.worker ≠ c.worker := by
  rcases hworker : c.worker with _ | _ | ev | exit | exit
  · -- a batch of the channel, or its end
    refine .inr ?_
    rcases hchannel : c.link.channel with _ | ⟨reqs, rest⟩
    · exact ⟨_, .requestsClosed hworker hchannel hclosed, by simp⟩
    · exact ⟨_, .request hworker hchannel, by simp⟩
  · obtain ⟨raws, hraws⟩ := hbusy hworker
    exact .inr ⟨_, .written hworker hraws, by simp⟩
  · refine .inr ⟨_, .event hworker, ?_⟩
    dsimp only
    split <;> simp
  · exact .inr ⟨_, .finish hworker, by simp⟩
  · exact .inl ⟨exit, rfl⟩

end AsyncClient

/-- The moves the write thread has still to make from where it is, apart from the channel. -/
def Writer.rank : Writer E → ℕ
  | .waiting => 2
  | .writing => 3
  | .exiting _ => 1
  | .finished _ => 0

namespace BlockingClient

/-- A bound on the moves the write thread has still to make. -/
def toDo (c : BlockingClient Obs E) : ℕ :=
  2 * c.link.channel.length + c.writer.rank

/-- A write thread that writes has a line to write. -/
theorem busy_of_reachable {c : BlockingClient Obs E} (h : Reachable Step new c)
    (hwriter : c.writer = .writing) : ∃ raws, c.link.writing = .busy raws := by
  refine h.invariant (I := fun c => c.writer = .writing → ∃ raws, c.link.writing = .busy raws)
    (fun h => nomatch h) ?_ hwriter
  intro c a c' hbusy hstep hwriter'
  cases hstep with
  | send batch =>
    obtain ⟨-, -, -, hwriting, -, -⟩ := c.link.sendBatch_frame batch
    obtain ⟨raws, hraws⟩ := hbusy hwriter'
    exact ⟨raws, hwriting.trans hraws⟩
  | close | closeEvents | finishReader => exact hbusy hwriter'
  | request => exact ⟨_, rfl⟩
  | requestsClosed | written | writeFailed | finishWriter => cases hwriter'
  | @incoming r =>
    -- the read thread leaves the writer alone
    obtain ⟨raws, hraws⟩ := hbusy hwriter'
    exact ⟨raws, (c.link.onIncoming_frame r).2.2.2.2.trans hraws⟩
  | @event ev =>
    obtain ⟨raws, hraws⟩ := hbusy hwriter'
    exact ⟨raws, (c.link.emit_frame ev).2.2.2.2.trans hraws⟩

/-- The channel of the blocking client stays closed. -/
theorem Step.closed {c c' : BlockingClient Obs E} {a : Act E} (hstep : Step c a c')
    (h : c.link.channelOpen = false) : c'.link.channelOpen = false := by
  cases hstep with
  | send batch =>
    obtain ⟨-, -, -, -, -, hclosed⟩ := c.link.sendBatch_frame batch
    dsimp only
    rw [hclosed h, h]
  | close => rfl
  | closeEvents | request | requestsClosed | written | writeFailed => exact h
  | @incoming r => exact (c.link.onIncoming_frame r).2.2.2.1.trans h
  | @event ev => exact (c.link.emit_frame ev).2.2.2.1.trans h
  | finishWriter | finishReader => simp [Link.drop, h]

/-- A step moves the write thread on, or does nothing to it and to the channel. -/
theorem Step.toDo_lt {c c' : BlockingClient Obs E} {a : Act E} (hstep : Step c a c')
    (h : c.link.channelOpen = false) :
    c'.toDo < c.toDo ∨ c'.writer = c.writer ∧ c'.toDo = c.toDo := by
  cases hstep with
  | send batch =>
    obtain ⟨-, -, -, -, -, hclosed⟩ := c.link.sendBatch_frame batch
    rw [hclosed h]
    exact .inr ⟨rfl, rfl⟩
  | close | closeEvents | finishReader => exact .inr ⟨rfl, rfl⟩
  | request hwriter hchannel =>
    refine .inl ?_
    simp only [toDo, Link.track, hwriter, hchannel, List.length_cons, Writer.rank]
    omega
  | requestsClosed hwriter | written hwriter | writeFailed err hwriter =>
    refine .inl ?_
    simp [toDo, Link.wrote, Link.writeFailed, hwriter, Writer.rank]
  | finishWriter hwriter =>
    -- the channel is dropped, whatever was in it
    refine .inl ?_
    simp only [toDo, Link.drop, hwriter, if_true, List.length_nil, Writer.rank]
    omega
  | @incoming r =>
    refine .inr ⟨rfl, ?_⟩
    simp [toDo, (c.link.onIncoming_frame r).2.2.1]
  | @event ev =>
    refine .inr ⟨rfl, ?_⟩
    simp [toDo, (c.link.emit_frame ev).2.2.1]

/-- A write thread with a closed channel has finished or can move. -/
theorem finished_or_move {c : BlockingClient Obs E} (hclosed : c.link.channelOpen = false)
    (hbusy : c.writer = .writing → ∃ raws, c.link.writing = .busy raws) :
    (∃ exit, c.writer = .finished exit) ∨ ∃ c', Step c .internal c' ∧ c'.writer ≠ c.writer := by
  rcases hwriter : c.writer with _ | _ | exit | exit
  · refine .inr ?_
    rcases hchannel : c.link.channel with _ | ⟨reqs, rest⟩
    · exact ⟨_, .requestsClosed hwriter hchannel hclosed, by simp⟩
    · exact ⟨_, .request hwriter hchannel, by simp⟩
  · obtain ⟨raws, hraws⟩ := hbusy hwriter
    exact .inr ⟨_, .written hwriter hraws, by simp⟩
  · exact .inr ⟨_, .finishWriter hwriter, by simp⟩
  · exact .inl ⟨exit, rfl⟩

end BlockingClient

/-- A write thread that has finished stays so. -/
theorem BlockingClient.Step.finished {c c' : BlockingClient Obs E} {a : Act E}
    (hstep : Step c a c') (h : c.writer.isFinished = true) : c'.writer.isFinished = true := by
  cases hstep with
  | send | close | closeEvents | incoming | event | finishReader => exact h
  | request hwriter | requestsClosed hwriter | written hwriter | writeFailed _ hwriter =>
    simp [hwriter] at h
  | finishWriter => rfl

/-- Once its channel is closed and nothing is read any more, a worker that does not stand still
where it could always move comes to its end, and then no request is retained. A write thread does so
whatever is read; no request is retained when the read thread has terminated as well. -/
theorem finishes_of_closed :
    (∀ (r : Run AsyncClient.Step (AsyncClient.new : AsyncClient Obs E)) (n₀ : ℕ),
      (r.state n₀).link.channelOpen = false → (∀ n ≥ n₀, r.act n = .internal) →
        r.FairTo .internal AsyncClient.worker →
          ∃ n₁, ∀ n ≥ n₁, (∃ exit, (r.state n).worker = .finished exit) ∧
            ∀ p, ¬(r.state n).link.Retains p) ∧
    ∀ (r : Run BlockingClient.Step (BlockingClient.new : BlockingClient Obs E)) (n₀ : ℕ),
      (r.state n₀).link.channelOpen = false → r.FairTo .internal BlockingClient.writer →
        ∃ n₁, ∀ n ≥ n₁, (r.state n).writer.isFinished = true ∧
          ((r.state n).reader.isFinished = true → ∀ p, ¬(r.state n).link.Retains p) := by
  constructor
  · intro r n₀ hclosed hreads hfair
    have hclosed' := r.stable (fun _ _ _ hc hstep => AsyncClient.Step.closed hstep hc) hclosed
    have hstep : ∀ n ≥ n₀, AsyncClient.Step (r.state n) .internal (r.state (n + 1)) :=
      fun n hn => hreads n hn ▸ r.step n
    obtain ⟨n₁, -, exit, hexit⟩ := r.eventually hfair (fun c => ∃ exit, c.worker = .finished exit)
      AsyncClient.toDo (fun n hn => (hstep n hn).toDo_lt (hclosed' n hn))
      (fun n hn => AsyncClient.finished_or_move (hclosed' n hn)
        (AsyncClient.busy_of_reachable (r.reachable n)))
    have hfinished := r.stable (fun _ _ _ hc hstep => AsyncClient.finished_of_step hc hstep) hexit
    refine ⟨n₁, fun n hn => ⟨⟨exit, hfinished n hn⟩, fun p hp => ?_⟩⟩
    -- the tracker and the channel are gone
    have hordered := AsyncClient.ordered_of_reachable (r.reachable n)
    have hconsistent := Link.consistent_of_reachable (AsyncClient.reachable_link (r.reachable n))
    obtain ⟨hdropped, hchannel, -⟩ := hordered.finished exit (hfinished n hn)
    rw [Link.Retains, hconsistent.dropped hdropped, hchannel] at hp
    simp at hp
  · intro r n₀ hclosed hfair
    have hclosed' := r.stable (fun _ _ _ hc hstep => BlockingClient.Step.closed hstep hc) hclosed
    obtain ⟨n₁, -, exit, hexit⟩ := r.eventually hfair (fun c => ∃ exit, c.writer = .finished exit)
      BlockingClient.toDo (fun n hn => (r.step n).toDo_lt (hclosed' n hn))
      (fun n hn => BlockingClient.finished_or_move (hclosed' n hn)
        (BlockingClient.busy_of_reachable (r.reachable n)))
    have hfinished := r.stable (fun _ _ _ hc hstep => BlockingClient.Step.finished hstep hc)
      (show (r.state n₁).writer.isFinished = true by simp [hexit])
    refine ⟨n₁, fun n hn => ⟨hfinished n hn, fun hreader p hp => ?_⟩⟩
    have hordered := BlockingClient.ordered_of_reachable (r.reachable n)
    have hconsistent := Link.consistent_of_reachable (BlockingClient.reachable_link (r.reachable n))
    -- the tracker is shared, and goes with the second thread
    have hdropped : (r.state n).link.trackerDropped = true := by
      rw [hordered.dropped, hreader, hfinished n hn, Bool.and_self]
    rw [Link.Retains, hconsistent.dropped hdropped, (hordered.finished (hfinished n hn)).1] at hp
    simp at hp

omit [Bitcoin] in
/-- A client that is closed while a request is in its channel writes it, and lets go of it. -/
theorem finishes_of_closed_keepAlive :
    letI : Bitcoin := bareBitcoin
    ∃ c : AsyncClient (ResponseResult Value) Unit,
      c.link.wire.length = 1 ∧ ∀ p, ¬c.link.Retains p := by
  let _ : Bitcoin := bareBitcoin
  have hclosed : Reachable AsyncClient.Step
      (AsyncClient.new : AsyncClient (ResponseResult Value) Unit) _ :=
    ((Reachable.refl AsyncClient.Step AsyncClient.new).tail (.send keepAlive)).tail .close
  have hwritten := (hclosed.tail (.request rfl rfl)).tail (.written rfl rfl)
  have hfinished := (hwritten.tail (.requestsClosed rfl rfl rfl)).tail (.finish rfl)
  obtain ⟨r, n₀, hend⟩ := Run.exists_of_reachable hfinished .close
  have hworker : (r.state n₀).worker = .finished .requestsClosed := by
    rw [(hend n₀ (le_refl n₀)).1]
  have hfair : r.FairTo .internal AsyncClient.worker :=
    Run.fairTo_of_stuck hworker fun _ _ _ hc hstep => AsyncClient.finished_of_step hc hstep
  obtain ⟨n₁, hreleased⟩ := finishes_of_closed.1 r n₀ (by rw [(hend n₀ (le_refl n₀)).1]; rfl)
    (fun n hn => (hend n hn).2) hfair
  obtain ⟨-, hretains⟩ := hreleased (max n₀ n₁) (le_max_right n₀ n₁)
  -- from `n₀` on, the run stays in the state that was reached
  refine ⟨r.state (max n₀ n₁), ?_, hretains⟩
  rw [(hend _ (le_max_left n₀ n₁)).1]
  rfl

end ElectrumStreamingClient
