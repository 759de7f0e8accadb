import ElectrumStreamingClient.Io.ReadStreamer
import ElectrumStreamingClient.Tracker.Session

/-!
# What both clients are made of

The data that `AsyncClient` and `BlockingClient` (`client.rs`) share, and the operations their
worker and threads perform on it: the request channel, the tracker with its counter, the writer, and
the event channel. `Link.Step` is the step relation of these operations without the control that
orders them; each client adds its own control to it.

The history is part of the state: the requests accepted from callers, those dropped in the channel,
and what each call of `handle_incoming` did.
-/

namespace ElectrumStreamingClient

open Serde

variable [Bitcoin] {Obs E : Type}

/-- What the writer is doing. -/
inductive Writing where
  | idle
  /-- It is writing a line. -/
  | busy (raws : RawOneOrMany RawRequest)
  /-- Writing the line has failed, maybe after some of its bytes. -/
  | failed (raws : RawOneOrMany RawRequest)

/-- The raw requests of a line that is not written completely. -/
def Writing.unwritten : Writing → List RawRequest
  | .idle => []
  | .busy raws => raws.intoVec
  | .failed raws => raws.intoVec

/-- The line that is not written completely. The server may have received it. -/
def Writing.lines : Writing → List (RawOneOrMany RawRequest)
  | .idle => []
  | .busy raws => [raws]
  | .failed raws => [raws]

/-- The error of sending to a channel whose receiver is gone, or which was closed. -/
inductive SendError where
  | disconnected

/-- Why a call of `send_request` failed. -/
inductive RequestError where
  /-- The request could not be sent. -/
  | dispatch (err : SendError)
  /-- The callback was dropped. -/
  | canceled
  /-- The server answered with an error. -/
  | response (err : ResponseError)

/-- The data of a client. -/
structure Link (Obs : Type) where
  /-- The tracker and its counter. -/
  session : Session Obs
  /-- The tracker has been dropped. -/
  trackerDropped : Bool
  /-- The requests sent by callers and not yet received by the client. -/
  channel : List (RawOneOrMany (PendingRequest Obs))
  /-- Callers can send: the receiver is alive, and the channel was not closed by them. -/
  channelOpen : Bool
  writing : Writing
  /-- The lines written so far. -/
  wire : List (RawOneOrMany RawRequest)
  /-- The receiver of events is alive. -/
  eventsOpen : Bool
  /-- The events emitted so far. -/
  events : List Event
  /-- All requests that were sent successfully, in order. -/
  accepted : List (PendingRequest Obs)
  /-- The requests that were dropped in the channel. -/
  abandoned : List (PendingRequest Obs)
  /-- What the calls of `handle_incoming` did, in order. -/
  handled : List (Handled Obs ProcessError)

namespace Link

/-- The data of a new client. -/
def new : Link Obs :=
  { session := Session.start 0, trackerDropped := false, channel := [], channelOpen := true
    writing := .idle, wire := [], eventsOpen := true, events := [], accepted := []
    abandoned := [], handled := [] }

/-- Put requests into the channel. They get the next tickets. -/
def accept (l : Link Obs) (reqs : RawOneOrMany (PendingRequest Obs)) : Link Obs :=
  { l with
    channel := l.channel ++ [reqs.stampFrom l.accepted.length]
    accepted := l.accepted ++ (reqs.stampFrom l.accepted.length).intoVec }

/-- `send_batch`. An empty batch is not sent. -/
def sendBatch (l : Link Obs) (batch : BatchRequest Obs) : Except SendError Bool × Link Obs :=
  match batch.intoInner with
  | some reqs => if l.channelOpen then (.ok true, l.accept reqs) else (.error .disconnected, l)
  | none => (.ok false, l)

section SendRequest

variable {Req : Type} [RequestExt Req] [Deserialize (Request.Response Req)]

/-- `send_request`, up to where it waits for its callback to be run or dropped. -/
def sendRequest (l : Link Obs) (req : Req)
    (callback : ResponseResult (Request.Response Req) → Obs) :
    Except RequestError Unit × Link Obs :=
  let batch := BatchRequest.new.request req callback
  match l.sendBatch batch with
  | (.error err, l) => (.error (.dispatch err), l)
  | (.ok _, l) => (.ok (), l)

end SendRequest

/-- The channel is closed, or its last sender dropped. What is in it can still be received. -/
def close (l : Link Obs) : Link Obs := { l with channelOpen := false }

/-- The receiver of events is dropped. -/
def closeEvents (l : Link Obs) : Link Obs := { l with eventsOpen := false }

/-- Receive requests from the channel and track them, to be written next. -/
def track (l : Link Obs) (reqs : RawOneOrMany (PendingRequest Obs))
    (rest : List (RawOneOrMany (PendingRequest Obs))) : Link Obs :=
  let (raws, session) := l.session.track reqs
  { l with session, channel := rest, writing := .busy raws }

/-- The line is written. -/
def wrote (l : Link Obs) (raws : RawOneOrMany RawRequest) : Link Obs :=
  { l with writing := .idle, wire := l.wire ++ [raws] }

/-- Writing the line fails. -/
def writeFailed (l : Link Obs) (raws : RawOneOrMany RawRequest) : Link Obs :=
  { l with writing := .failed raws }

/-- Handle an incoming message. -/
def receive (l : Link Obs) (msg : RawIncoming) : Handled Obs ProcessError × Link Obs :=
  let (handled, session) := l.session.incoming msg
  (handled, { l with session, handled := l.handled ++ [handled] })

/-- Send an event to the receiver of events, if it is alive. -/
def emit (l : Link Obs) (ev : Event) : Link Obs :=
  if l.eventsOpen then { l with events := l.events ++ [ev] } else l

/-- Drop the tracker and the receiver of the channel, or one of them. Requests in either are
dropped with it. -/
def drop (l : Link Obs) (tracker channel : Bool) : Link Obs :=
  { l with
    session := if tracker then l.session.clear else l.session
    trackerDropped := l.trackerDropped || tracker
    channel := if channel then [] else l.channel
    channelOpen := l.channelOpen && !channel
    abandoned := if channel then l.abandoned ++ l.channel.flatMap RawOneOrMany.intoVec
      else l.abandoned }

/-- The lines written so far, the last one maybe not completely. -/
def outgoing (l : Link Obs) : List (RawOneOrMany RawRequest) :=
  l.wire ++ l.writing.lines

end Link

/-- The labels of steps: a result taken from the read streamer, or anything else. -/
inductive Act (E : Type) where
  | internal
  | read (r : NextResult E)

/-- The operations on the data of a client, in any order that respects the data. -/
inductive Link.Step : Link Obs → Act E → Link Obs → Prop
  | send {l : Link Obs} (batch : BatchRequest Obs) : Link.Step l .internal (l.sendBatch batch).2
  | close {l : Link Obs} : Link.Step l .internal l.close
  | closeEvents {l : Link Obs} : Link.Step l .internal l.closeEvents
  | track {l : Link Obs} {reqs : RawOneOrMany (PendingRequest Obs)}
      {rest : List (RawOneOrMany (PendingRequest Obs))} (hdropped : l.trackerDropped = false)
      (hwriting : l.writing = .idle) (hchannel : l.channel = reqs :: rest) :
      Link.Step l .internal (l.track reqs rest)
  | wrote {l : Link Obs} {raws : RawOneOrMany RawRequest} (hwriting : l.writing = .busy raws) :
      Link.Step l .internal (l.wrote raws)
  | writeFailed {l : Link Obs} {raws : RawOneOrMany RawRequest}
      (hwriting : l.writing = .busy raws) : Link.Step l .internal (l.writeFailed raws)
  | receive {l : Link Obs} {msg : RawIncoming} (hdropped : l.trackerDropped = false) :
      Link.Step l (.read (.ok (some (.ok msg)))) (l.receive msg).2
  | emit {l : Link Obs} {ev : Event} (hev : ∃ h ∈ l.handled, h.result = .ok (some ev)) :
      Link.Step l .internal (l.emit ev)
  | drop {l : Link Obs} (tracker channel : Bool) : Link.Step l .internal (l.drop tracker channel)
  /-- The control of the client moves on. -/
  | stay {l : Link Obs} {a : Act E} (ha : ∀ msg, a ≠ .read (.ok (some (.ok msg)))) :
      Link.Step l a l

end ElectrumStreamingClient
