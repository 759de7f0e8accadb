import ElectrumStreamingClient.Client.Link

/-!
# The asynchronous client

`AsyncClient` (`client.rs`): callers send requests to the worker, a future that selects between the
request channel and the read streamer. Each turn of its loop is cut where it awaits or where other
threads can come in between. When the worker finishes, its captured state is dropped.
-/

namespace ElectrumStreamingClient

open Serde

variable [Bitcoin] {Obs E : Type}

/-- Why a client has left one of its loops. -/
inductive Exit (E : Type) where
  /-- The request channel is closed and empty. -/
  | requestsClosed
  | writeError (err : E)
  /-- The stream of incoming messages has ended. -/
  | endOfStream
  /-- The read streamer gave an error: of the transport, or an undecodable line. -/
  | readError (err : IoError E)
  | processError (err : ProcessError)
  /-- The receiver of events was dropped. -/
  | eventsClosed
  /-- The read streamer panicked. -/
  | panicked

/-- What handling an item from the read streamer leads to. -/
inductive AfterRead (E : Type) where
  /-- Go round the loop again. -/
  | again
  /-- An event is to be sent. -/
  | event (ev : Event)
  | exit (e : Exit E)

/-- Handle what the read streamer gave: the part of a turn of the loop that the worker and the read
thread have in common. -/
def Link.onIncoming (l : Link Obs) : NextResult E → AfterRead E × Link Obs
  | .error _ => (.exit .panicked, l)
  | .ok none => (.exit .endOfStream, l)
  | .ok (some (.error err)) => (.exit (.readError err), l)
  | .ok (some (.ok msg)) =>
    let (handled, l) := l.receive msg
    match handled.result with
    | .error err => (.exit (.processError err), l)
    | .ok none => (.again, l)
    | .ok (some ev) => (.event ev, l)

/-- Where the worker is. -/
inductive Worker (E : Type) where
  /-- At the `select!`. -/
  | selecting
  /-- Awaiting the write of a line. -/
  | writing
  /-- About to send an event. -/
  | emitting (ev : Event)
  /-- Out of the loop, its state not yet dropped. -/
  | exiting (exit : Exit E)
  | finished (exit : Exit E)

/-- The asynchronous client. -/
structure AsyncClient (Obs E : Type) where
  link : Link Obs
  worker : Worker E

namespace AsyncClient

/-- A new client. -/
def new : AsyncClient Obs E := { link := Link.new, worker := .selecting }

/-- Where the worker goes after an item from the read streamer. -/
def afterRead : AfterRead E → Worker E
  | .again => .selecting
  | .event ev => .emitting ev
  | .exit exit => .exiting exit

/-- The steps of the client, of its callers and of the receiver of its events. -/
inductive Step : AsyncClient Obs E → Act E → AsyncClient Obs E → Prop
  /-- Any clone of the client sends a batch, at any time. -/
  | send {c : AsyncClient Obs E} (batch : BatchRequest Obs) :
      Step c .internal { c with link := (c.link.sendBatch batch).2 }
  | close {c : AsyncClient Obs E} : Step c .internal { c with link := c.link.close }
  | closeEvents {c : AsyncClient Obs E} : Step c .internal { c with link := c.link.closeEvents }
  /-- The branch of the request channel. -/
  | request {c : AsyncClient Obs E} {reqs : RawOneOrMany (PendingRequest Obs)}
      {rest : List (RawOneOrMany (PendingRequest Obs))} (hworker : c.worker = .selecting)
      (hchannel : c.link.channel = reqs :: rest) :
      Step c .internal { link := c.link.track reqs rest, worker := .writing }
  | requestsClosed {c : AsyncClient Obs E} (hworker : c.worker = .selecting)
      (hchannel : c.link.channel = []) (hopen : c.link.channelOpen = false) :
      Step c .internal { c with worker := .exiting .requestsClosed }
  | written {c : AsyncClient Obs E} {raws : RawOneOrMany RawRequest}
      (hworker : c.worker = .writing) (hwriting : c.link.writing = .busy raws) :
      Step c .internal { link := c.link.wrote raws, worker := .selecting }
  | writeFailed {c : AsyncClient Obs E} {raws : RawOneOrMany RawRequest} (err : E)
      (hworker : c.worker = .writing) (hwriting : c.link.writing = .busy raws) :
      Step c .internal { link := c.link.writeFailed raws, worker := .exiting (.writeError err) }
  /-- The branch of the incoming stream. -/
  | incoming {c : AsyncClient Obs E} {r : NextResult E} (hworker : c.worker = .selecting) :
      Step c (.read r)
        { link := (c.link.onIncoming r).2, worker := afterRead (c.link.onIncoming r).1 }
  | event {c : AsyncClient Obs E} {ev : Event} (hworker : c.worker = .emitting ev) :
      Step c .internal
        { link := c.link.emit ev
          worker := if c.link.eventsOpen then .selecting else .exiting .eventsClosed }
  /-- The future completes and drops the tracker and the receiver of requests. -/
  | finish {c : AsyncClient Obs E} {exit : Exit E} (hworker : c.worker = .exiting exit) :
      Step c .internal { link := c.link.drop true true, worker := .finished exit }

end AsyncClient

end ElectrumStreamingClient
