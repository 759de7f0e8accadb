import ElectrumStreamingClient.Client.AsyncClient

/-!
# The blocking client

`BlockingClient` (`client.rs`): a read thread and a write thread that share the tracker. Each holds
a handle of it, and the tracker is dropped with the last one. Handling a message and tracking
requests are one step each, under the lock.
-/

namespace ElectrumStreamingClient

open Serde

variable {Obs E : Type}

/-- Where the write thread is. -/
inductive Writer (E : Type) where
  /-- At the request channel. -/
  | waiting
  /-- Writing a line. -/
  | writing
  /-- Out of the loop, its state not yet dropped. -/
  | exiting (exit : Exit E)
  | finished (exit : Exit E)

namespace Writer

/-- The thread has terminated. -/
def isFinished : Writer E → Bool
  | .finished _ => true
  | _ => false

@[simp] theorem isFinished_waiting : (waiting : Writer E).isFinished = false := rfl

@[simp] theorem isFinished_writing : (writing : Writer E).isFinished = false := rfl

@[simp] theorem isFinished_exiting (exit : Exit E) : (exiting exit).isFinished = false := rfl

@[simp] theorem isFinished_finished (exit : Exit E) : (finished exit).isFinished = true := rfl

end Writer

variable [Bitcoin]

/-- Where the read thread is. -/
inductive Reader (E : Type) where
  /-- At the read streamer. -/
  | waiting
  /-- About to send an event. -/
  | emitting (ev : Event)
  /-- Out of the loop, its state not yet dropped. -/
  | exiting (exit : Exit E)
  | finished (exit : Exit E)

namespace Reader

/-- The thread has terminated. -/
def isFinished : Reader E → Bool
  | .finished _ => true
  | _ => false

@[simp] theorem isFinished_waiting : (waiting : Reader E).isFinished = false := rfl

@[simp] theorem isFinished_emitting (ev : Event) : (emitting ev : Reader E).isFinished = false :=
  rfl

@[simp] theorem isFinished_exiting (exit : Exit E) : (exiting exit).isFinished = false := rfl

@[simp] theorem isFinished_finished (exit : Exit E) : (finished exit).isFinished = true := rfl

end Reader

/-- The blocking client. -/
structure BlockingClient (Obs E : Type) where
  link : Link Obs
  reader : Reader E
  writer : Writer E

namespace BlockingClient

/-- A new client. -/
def new : BlockingClient Obs E := { link := Link.new, reader := .waiting, writer := .waiting }

/-- Where the read thread goes after an item from the read streamer. -/
def afterRead : AfterRead E → Reader E
  | .again => .waiting
  | .event ev => .emitting ev
  | .exit exit => .exiting exit

/-- The steps of both threads, of the callers and of the receiver of events. -/
inductive Step : BlockingClient Obs E → Act E → BlockingClient Obs E → Prop
  /-- Any clone of the client sends a batch, at any time. -/
  | send {c : BlockingClient Obs E} (batch : BatchRequest Obs) :
      Step c .internal { c with link := (c.link.sendBatch batch).2 }
  /-- The last clone of the client is dropped. -/
  | close {c : BlockingClient Obs E} : Step c .internal { c with link := c.link.close }
  | closeEvents {c : BlockingClient Obs E} :
      Step c .internal { c with link := c.link.closeEvents }
  | request {c : BlockingClient Obs E} {reqs : RawOneOrMany (PendingRequest Obs)}
      {rest : List (RawOneOrMany (PendingRequest Obs))} (hwriter : c.writer = .waiting)
      (hchannel : c.link.channel = reqs :: rest) :
      Step c .internal { c with link := c.link.track reqs rest, writer := .writing }
  | requestsClosed {c : BlockingClient Obs E} (hwriter : c.writer = .waiting)
      (hchannel : c.link.channel = []) (hopen : c.link.channelOpen = false) :
      Step c .internal { c with writer := .exiting .requestsClosed }
  | written {c : BlockingClient Obs E} {raws : RawOneOrMany RawRequest}
      (hwriter : c.writer = .writing) (hwriting : c.link.writing = .busy raws) :
      Step c .internal { c with link := c.link.wrote raws, writer := .waiting }
  | writeFailed {c : BlockingClient Obs E} {raws : RawOneOrMany RawRequest} (err : E)
      (hwriter : c.writer = .writing) (hwriting : c.link.writing = .busy raws) :
      Step c .internal
        { c with link := c.link.writeFailed raws, writer := .exiting (.writeError err) }
  /-- The write thread drops its handle of the tracker and the receiver of requests. -/
  | finishWriter {c : BlockingClient Obs E} {exit : Exit E} (hwriter : c.writer = .exiting exit) :
      Step c .internal
        { c with link := c.link.drop c.reader.isFinished true, writer := .finished exit }
  | incoming {c : BlockingClient Obs E} {r : NextResult E} (hreader : c.reader = .waiting) :
      Step c (.read r)
        { c with
          link := (c.link.onIncoming r).2
          reader := afterRead (c.link.onIncoming r).1 }
  | event {c : BlockingClient Obs E} {ev : Event} (hreader : c.reader = .emitting ev) :
      Step c .internal
        { c with
          link := c.link.emit ev
          reader := if c.link.eventsOpen then .waiting else .exiting .eventsClosed }
  /-- The read thread drops its handle of the tracker. -/
  | finishReader {c : BlockingClient Obs E} {exit : Exit E} (hreader : c.reader = .exiting exit) :
      Step c .internal
        { c with link := c.link.drop c.writer.isFinished false, reader := .finished exit }

end BlockingClient

end ElectrumStreamingClient
