import ElectrumStreamingClient.Client.Invariant

/-!
# A client and its server

A client together with the server it is connected to and the lines on their way between them. The
server receives lines as they are written. It sends lines of notifications and of answers to
requests it has received, and answers each of them at most once, in any order. A client that refines
the link refines it in the company of a server too.
-/

namespace ElectrumStreamingClient

open Serde TransitionSystem

variable [Bitcoin] {Obs E : Type}

/-- The body of a response to `p` is an error, or a result of the type that `p` asks for. -/
def PendingRequest.Expects (p : PendingRequest Obs) (body : Except Value Value) : Prop :=
  ∀ (Req : Type) [RequestExt Req] [Deserialize (Request.Response Req)] (req : Req)
    (callback : Option (ResponseResult (Request.Response Req) → Obs)), p.IsFor req callback →
      ∀ v, body = .ok v → ∃ resp : Request.Response Req, Deserialize.deserialize v = .ok resp

/-- The responses that a request expects are those that it handles without an error. -/
theorem PendingRequest.expects_iff {p : PendingRequest Obs} {body : Except Value Value} :
    p.Expects body ↔ ∃ ev, (p.handle body).result = .ok ev := by
  constructor
  · intro h
    obtain ⟨Req, ext, de, req, callback, hp⟩ := p.exists_isFor
    rw [handle, hp.2]
    rcases body with err | v
    · rcases callback with _ | cb <;> exact ⟨_, rfl⟩
    · obtain ⟨resp, hdecode⟩ := h Req req callback hp v rfl
      rcases callback with _ | cb <;>
      · simp only [ElectrumStreamingClient.handler, hdecode]
        exact ⟨_, rfl⟩
  · rintro ⟨ev, hev⟩ Req _ _ req callback hp v rfl
    rw [handle, hp.2] at hev
    -- a result that did not decode would be an error of the handler
    rcases hdecode : Deserialize.deserialize (T := Request.Response Req) v with err | resp
    · rcases callback with _ | cb <;> simp [ElectrumStreamingClient.handler, hdecode] at hev
    · exact ⟨resp, rfl⟩

/-- What the server sends. An answer comes with the index of its request among those that the
server has received. -/
inductive Reply where
  | notification (raw : RawNotification)
  | answer (index : ℕ) (resp : RawResponse)

namespace Reply

/-- The message that the client receives. -/
def message : Reply → RawIncoming
  | .notification raw => .notification raw
  | .answer _ resp => .response resp

/-- The answer, if it is one. -/
def answer? : Reply → Option (ℕ × RawResponse)
  | .notification _ => none
  | .answer index resp => some (index, resp)

/-- What the server may send when it has received these requests and callers have sent those. -/
inductive Fair (received : List RawRequest) (accepted : List (PendingRequest Obs)) : Reply → Prop
  | notification {raw : RawNotification} {n : Notification} (hnew : Notification.new raw = .ok n) :
      Fair received accepted (.notification raw)
  | answer {index : ℕ} {raw : RawRequest} {resp : RawResponse}
      (hreceived : received[index]? = some raw) (hid : resp.id = raw.id)
      (hexpects : ∀ p, accepted[index]? = some p → p.Expects resp.result) :
      Fair received accepted (.answer index resp)

end Reply

/-- A client and its server. -/
structure World (σ : Type) where
  client : σ
  /-- The lines that the server has received. -/
  received : List (RawOneOrMany RawRequest)
  /-- The answers that the server has sent. -/
  answered : List (ℕ × RawResponse)
  /-- The lines that the server has sent and the read streamer has not taken. -/
  lines : List (RawOneOrMany Reply)
  /-- The messages of a line that the read streamer has not given out. -/
  queue : List Reply

namespace World

variable {σ : Type}

/-- Nothing has been sent to or by the server. -/
def new (client : σ) : World σ :=
  { client, received := [], answered := [], lines := [], queue := [] }

/-- The same world around a part of the client. -/
def map {τ : Type} (f : σ → τ) (w : World σ) : World τ :=
  { client := f w.client, received := w.received, answered := w.answered, lines := w.lines
    queue := w.queue }

/-- The answers that the client has not handled. -/
def inFlight (w : World σ) : List (ℕ × RawResponse) :=
  (w.queue ++ w.lines.flatMap RawOneOrMany.intoVec).filterMap Reply.answer?

/-- The steps of the client and of the server. -/
inductive Step (ClientStep : σ → Act E → σ → Prop) (link : σ → Link Obs) :
    World σ → Act E → World σ → Prop
  | client {w : World σ} {c : σ} (hstep : ClientStep w.client .internal c) :
      Step ClientStep link w .internal { w with client := c }
  /-- The client handles a message. -/
  | read {w : World σ} {c : σ} {reply : Reply} {rest : List Reply}
      (hqueue : w.queue = reply :: rest)
      (hstep : ClientStep w.client (.read (.ok (some (.ok reply.message)))) c) :
      Step ClientStep link w (.read (.ok (some (.ok reply.message))))
        { w with client := c, queue := rest }
  /-- The stream ends, or fails. -/
  | interrupt {w : World σ} {c : σ} {r : NextResult E} (hr : ∀ msg, r ≠ .ok (some (.ok msg)))
      (hstep : ClientStep w.client (.read r) c) :
      Step ClientStep link w (.read r) { w with client := c }
  /-- The read streamer takes a line. -/
  | take {w : World σ} {line : RawOneOrMany Reply} {rest : List (RawOneOrMany Reply)}
      (hqueue : w.queue = []) (hlines : w.lines = line :: rest) :
      Step ClientStep link w .internal { w with queue := line.intoVec, lines := rest }
  /-- The server receives the next line, maybe before the client knows that it is written. -/
  | receive {w : World σ} {line : RawOneOrMany RawRequest}
      (hline : (link w.client).outgoing[w.received.length]? = some line) :
      Step ClientStep link w .internal { w with received := w.received ++ [line] }
  /-- The server sends a line. It does not answer a request again. -/
  | reply {w : World σ} (line : RawOneOrMany Reply)
      (hfair : ∀ reply ∈ line.intoVec,
        reply.Fair (w.received.flatMap RawOneOrMany.intoVec) (link w.client).accepted)
      (honce : ((w.answered ++ line.intoVec.filterMap Reply.answer?).map Prod.fst).Nodup) :
      Step ClientStep link w .internal
        { w with
          answered := w.answered ++ line.intoVec.filterMap Reply.answer?
          lines := w.lines ++ [line] }

/-- A refinement of clients is one of clients with servers. -/
theorem reachable_map {ClientStep : σ → Act E → σ → Prop} {link : σ → Link Obs} {I : σ → Prop}
    {c : σ} (hinit : I c)
    (hsim : ∀ c a c', I c → ClientStep c a c' → I c' ∧ Link.Step (link c) a (link c'))
    {w : World σ} (h : Reachable (Step ClientStep link) (new c) w) :
    Reachable (Step (Link.Step (E := E)) id) (new (link c)) (w.map link) := by
  refine h.simulated (I := fun w => I w.client) (f := map link) hinit fun w a w' hw hstep => ?_
  cases hstep with
  | client hstep =>
    obtain ⟨hw', hlink⟩ := hsim _ _ _ hw hstep
    exact ⟨hw', .internal, .client hlink⟩
  | read hqueue hstep =>
    obtain ⟨hw', hlink⟩ := hsim _ _ _ hw hstep
    exact ⟨hw', _, .read hqueue hlink⟩
  | interrupt hr hstep =>
    obtain ⟨hw', hlink⟩ := hsim _ _ _ hw hstep
    exact ⟨hw', _, .interrupt hr hlink⟩
  | take hqueue hlines => exact ⟨hw, .internal, .take hqueue hlines⟩
  | receive hline => exact ⟨hw, .internal, .receive hline⟩
  | reply line hfair honce => exact ⟨hw, .internal, .reply line hfair honce⟩

end World

end ElectrumStreamingClient
