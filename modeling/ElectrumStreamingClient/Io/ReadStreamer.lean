import ElectrumStreamingClient.Foundations.LineFraming
import ElectrumStreamingClient.Foundations.Loop
import ElectrumStreamingClient.Protocol.Decode

/-!
# The read streamer

`ReadStreamer` (`io.rs`) with its two loops: `next` over a blocking reader and `pollNext` over an
asynchronous one. The text parser of `serde_json` is a parameter `parse`; what it parses is
decoded as in `Protocol.Decode`.

A failing assertion unwinds: the call gives a `Panic` and leaves the streamer as it is at that
point.
-/

namespace ElectrumStreamingClient

open Serde LineFraming

variable {R E : Type}

/-- The line delimiter `b'\n'`. -/
def newline : UInt8 := 10

/-- An I/O error: one of the transport, or a decoding error converted into one. -/
inductive IoError (E : Type) where
  | os (err : E)
  | json (err : Serde.Error)

/-- A failed assertion. -/
structure Panic where

/-- A call of `next`: an item, the end of the stream, or a panic. -/
abbrev NextResult (E : Type) := Except Panic (Option (Except (IoError E) RawIncoming))

/-- A streaming parser of incoming messages. -/
structure ReadStreamer (R E : Type) where
  /-- The reader, until it is dropped. -/
  reader : Option R
  /-- The bytes read of the current line. -/
  buf : List UInt8
  /-- Decoded messages not yet handed out. -/
  queue : List RawIncoming
  /-- The error to hand out once the queue is empty. -/
  err : Option (IoError E)

/-- A reader as far as loops over it need to know: the bytes it has still to deliver, and how it
ends after them. -/
class ByteSource (R : Type) (E : outParam Type) where
  content : R → List UInt8
  ending : R → Ending E

instance : ByteSource (BufReader UInt8 E) E where
  content := BufReader.content
  ending := BufReader.ending

instance : ByteSource (AsyncBufReader UInt8 E) E where
  content := AsyncBufReader.content
  ending := AsyncBufReader.ending

/-- `serde_json::from_slice::<RawOneOrMany<RawIncoming>>`. -/
def fromSlice (parse : List UInt8 → Except Serde.Error Value) (bytes : List UInt8) :
    Except Serde.Error (RawOneOrMany RawIncoming) := do
  let v ← parse bytes
  deserializeLine v

namespace ReadStreamer

/-- A streamer over the given reader. -/
def new (reader : R) : ReadStreamer R E :=
  { reader := some reader, buf := [], queue := [], err := none }

variable (parse : List UInt8 → Except Serde.Error Value)

/-- Decode the line in the buffer and queue its messages. Reports whether to read on. -/
def enqueueFromBuf (s : ReadStreamer R E) : Except Panic Bool × ReadStreamer R E :=
  match s.buf.getLast? with
  | none => (.ok false, s)
  | some b =>
    -- the byte is popped before it is compared
    let s := { s with buf := s.buf.dropLast }
    if b ≠ newline then (.error {}, s)
    else
      match fromSlice parse s.buf with
      | .ok msgs => (.ok true, { s with queue := s.queue ++ msgs.intoVec, buf := [] })
      | .error err => (.ok false, { s with err := some (.json err) })

/-- The end of a round whose `read_until` has completed with `res`, in either loop. The reader
has been taken out of the streamer and goes back only after a decoded line. -/
def settle (reader : R) (res : Except E Unit) (s : ReadStreamer R E) :
    LoopStep (NextResult E) (ReadStreamer R E) :=
  match res with
  | .error err => .again { s with err := some (.os err) }
  | .ok () =>
    match enqueueFromBuf parse s with
    | (.ok true, s) => .again { s with reader := some reader }
    | (.ok false, s) => .again s
    | (.error panic, s) => .stop (.error panic) s

/-- A round of `Iterator::next`. -/
def nextBody (s : ReadStreamer (BufReader UInt8 E) E) :
    LoopStep (NextResult E) (ReadStreamer (BufReader UInt8 E) E) :=
  match s.queue with
  | item :: queue => .stop (.ok (some (.ok item))) { s with queue }
  | [] =>
    match s.err with
    | some err => .stop (.ok (some (.error err))) { s with err := none }
    | none =>
      match s.reader with
      | none => .stop (.ok none) s
      | some reader =>
        let (res, buf, reader) := reader.readUntil newline s.buf
        settle parse reader res { s with reader := none, buf }

/-- A round of `Stream::poll_next`. -/
def pollNextBody (s : ReadStreamer (AsyncBufReader UInt8 E) E) :
    LoopStep (Poll (NextResult E)) (ReadStreamer (AsyncBufReader UInt8 E) E) :=
  match s.queue with
  | item :: queue => .stop (.ready (.ok (some (.ok item)))) { s with queue }
  | [] =>
    match s.err with
    | some err => .stop (.ready (.ok (some (.error err)))) { s with err := none }
    | none =>
      match s.reader with
      | none => .stop (.ready (.ok none)) s
      | some reader =>
        match reader.pollReadUntil newline s.buf with
        | (.pending, buf, reader) => .stop .pending { s with reader := some reader, buf }
        | (.ready res, buf, reader) =>
          match settle parse reader res { s with reader := none, buf } with
          | .stop result s => .stop (.ready result) s
          | .again s => .again s

/-- The measure of both loops: what a streamer that still has its reader can read. -/
def unread [ByteSource R E] (s : ReadStreamer R E) : ℕ :=
  match s.reader with
  | none => 0
  | some reader => s.buf.length + (ByteSource.content reader).length + 1

variable {parse}

/-! ## Termination -/

/-- Nothing is queued from an empty buffer. -/
theorem enqueueFromBuf_nil (reader : Option R) (queue : List RawIncoming)
    (err : Option (IoError E)) :
    enqueueFromBuf parse { reader, buf := [], queue, err } =
      (.ok false, { reader, buf := [], queue, err }) := rfl

/-- A whole line queues its messages, or leaves its error. -/
theorem enqueueFromBuf_line (reader : Option R) (line : List UInt8) (queue : List RawIncoming)
    (err : Option (IoError E)) :
    enqueueFromBuf parse { reader, buf := line ++ [newline], queue, err } =
      match fromSlice parse line with
      | .ok msgs => (.ok true, { reader, buf := [], queue := queue ++ msgs.intoVec, err })
      | .error err => (.ok false, { reader, buf := line, queue, err := some (.json err) }) := by
  simp [enqueueFromBuf]

/-- A buffer that does not end in a newline panics. -/
theorem enqueueFromBuf_cut (reader : Option R) (bytes : List UInt8) {b : UInt8}
    (hb : b ≠ newline) (queue : List RawIncoming) (err : Option (IoError E)) :
    enqueueFromBuf parse { reader, buf := bytes ++ [b], queue, err } =
      (.error {}, { reader, buf := bytes, queue, err }) := by
  simp [enqueueFromBuf, hb]

/-- A round that goes on has dropped the reader, or has taken a whole line out of the buffer. -/
theorem reader_of_settle_again {reader : R} {res : Except E Unit} {s s' : ReadStreamer R E}
    (hreader : s.reader = none) (h : settle parse reader res s = .again s') :
    s'.reader = none ∨ s'.reader = some reader ∧ s'.buf = [] ∧ s.buf ≠ [] := by
  obtain ⟨_, buf, queue, err⟩ := s
  subst hreader
  rcases res with err | _
  · cases h
    exact .inl rfl
  -- the cases of `_enqueue_from_buf`: nothing to pop, a delimiter, another byte
  rcases List.eq_nil_or_concat' buf with rfl | ⟨line, b, rfl⟩
  · simp only [settle, enqueueFromBuf_nil] at h
    cases h
    exact .inl rfl
  by_cases hb : b = newline
  · subst hb
    simp only [settle, enqueueFromBuf_line] at h
    rcases hline : fromSlice parse line with err | msgs
    · rw [hline] at h
      cases h
      exact .inl rfl
    · rw [hline] at h
      cases h
      exact .inr ⟨rfl, rfl, by simp⟩
  · simp only [settle, enqueueFromBuf_cut _ _ hb] at h
    cases h

/-- A completed `read_until` leaves less to read once its line is taken out of the buffer. -/
theorem unread_lt [ByteSource R E] {reader reader' : R} {res res' : Except E Unit}
    {ending : Ending E} {s s' : ReadStreamer R E} {buf : List UInt8}
    (hs : s.reader = some reader)
    (hreads : ReadsUntil newline ending s.buf (ByteSource.content reader) res' buf
      (ByteSource.content reader'))
    (h : settle parse reader' res { s with reader := none, buf } = .again s') :
    unread s' < unread s := by
  have hlength := congrArg List.length hreads.conserves
  rw [List.length_append, List.length_append] at hlength
  -- what was read moved from the reader to the buffer; a line that is taken out was not empty
  rcases reader_of_settle_again rfl h with hnone | ⟨hsome, hnil, hne⟩
  · simp only [unread, hnone, hs]
    omega
  · have hpos : 0 < buf.length := List.length_pos_iff.mpr hne
    simp only [unread, hsome, hnil, hs, List.length_nil]
    omega

/-- Each further round of the blocking loop has read something. -/
theorem unread_nextBody (s s' : ReadStreamer (BufReader UInt8 E) E)
    (h : nextBody parse s = .again s') : unread s' < unread s := by
  unfold nextBody at h
  split at h
  next => cases h
  next =>
    split at h
    next => cases h
    next =>
      split at h
      next => cases h
      next reader hreader => exact unread_lt hreader (reader.readUntil_spec newline s.buf).1 h

/-- Each further round of the asynchronous loop has read something. -/
theorem unread_pollNextBody (s s' : ReadStreamer (AsyncBufReader UInt8 E) E)
    (h : pollNextBody parse s = .again s') : unread s' < unread s := by
  unfold pollNextBody at h
  split at h
  next => cases h
  next =>
    split at h
    next => cases h
    next =>
      split at h
      next => cases h
      next reader hreader =>
        split at h
        next => cases h
        next res buf reader' hpoll =>
          split at h
          next => cases h
          next s₁ hsettle =>
            cases h
            -- only a read that has completed is followed by a further round
            exact unread_lt hreader (AsyncBufReader.pollReadUntil_ready hpoll).1 hsettle

variable (parse)

/-- `Iterator::next`: an item if there is one. -/
def next (s : ReadStreamer (BufReader UInt8 E) E) :
    NextResult E × ReadStreamer (BufReader UInt8 E) E :=
  runLoop (nextBody parse) unread unread_nextBody s

/-- `Stream::poll_next`: an item if the reader does not have to be waited for. -/
def pollNext (s : ReadStreamer (AsyncBufReader UInt8 E) E) :
    Poll (NextResult E) × ReadStreamer (AsyncBufReader UInt8 E) E :=
  runLoop (pollNextBody parse) unread unread_pollNextBody s

end ReadStreamer

end ElectrumStreamingClient
