import ElectrumStreamingClient.Foundations.DelimitedText
import ElectrumStreamingClient.Io.ReadStreamer

/-!
# Line framing

What a `ReadStreamer` hands out, as a function of the bytes and the ending of its reader: the
messages of each complete line up to the first one that does not decode, then an error or the end.
Every state of the streamer has such an output left, each round of `next` and of `poll_next`
leaves it as it is or takes its head, and so the blocking iterator gives exactly that output.
-/

namespace ElectrumStreamingClient

open Serde LineFraming DelimitedText

variable {R E : Type} (parse : List UInt8 → Except Serde.Error Value)

/-- The items for the given complete lines, on a connection with the given ending. -/
def framed (ending : Ending E) : List (List UInt8) → List (Except (IoError E) RawIncoming)
  | [] =>
    match ending with
    | .eof => []
    | .failed err => [.error (.os err)]
  | line :: lines =>
    match fromSlice parse line with
    | .ok (.single msg) => .ok msg :: framed ending lines
    | .ok (.batch msgs) => msgs.map Except.ok ++ framed ending lines
    | .error err => [.error (.json err)]

/-- The results for the given complete lines, with `tail` behind the last one. A partial line at
the end of file makes the streamer panic. -/
def results (ending : Ending E) (tail : List UInt8) : List (List UInt8) → List (NextResult E)
  | [] =>
    match ending with
    | .eof => if tail = [] then [] else [.error {}]
    | .failed err => [.ok (some (.error (.os err)))]
  | line :: lines =>
    match fromSlice parse line with
    | .ok (.single msg) => .ok (some (.ok msg)) :: results ending tail lines
    | .ok (.batch msgs) => msgs.map (fun msg => .ok (some (.ok msg))) ++ results ending tail lines
    | .error err => [.ok (some (.error (.json err)))]

/-- The results for the given bytes. -/
def delivered (ending : Ending E) (bytes : List UInt8) : List (NextResult E) :=
  results parse ending (partialLine newline bytes) (completeLines newline bytes)

/-- The messages of a line that decodes come first. -/
theorem results_cons (ending : Ending E) (tail line : List UInt8) (lines : List (List UInt8)) :
    results parse ending tail (line :: lines) =
      match fromSlice parse line with
      | .ok msgs =>
        msgs.intoVec.map (fun msg => .ok (some (.ok msg))) ++ results parse ending tail lines
      | .error err => [.ok (some (.error (.json err)))] := by
  rw [results]
  rcases fromSlice parse line with err | msg | msgs <;> rfl

/-- Unless a partial line comes to the end of file, the results are the items. -/
theorem results_eq_map_framed {ending : Ending E} {tail : List UInt8}
    (h : ending = .eof → tail = []) (lines : List (List UInt8)) :
    results parse ending tail lines =
      (framed parse ending lines).map fun item => .ok (some item) := by
  induction lines with
  | nil =>
    rcases ending with _ | err
    · simp [results, framed, h rfl]
    · rfl
  | cons line lines ih =>
    simp only [results, framed]
    -- a line that does not decode ends both lists
    rcases fromSlice parse line with err | msg | msgs
    · rfl
    · rw [ih]
      rfl
    · simp only [ih, List.map_append, List.map_map]
      rfl

/-- Bytes without a newline are one partial line. -/
theorem delivered_of_notMem {ending : Ending E} {bytes : List UInt8} (h : newline ∉ bytes) :
    delivered parse ending bytes = results parse ending bytes [] := by
  rw [delivered, partialLine_of_notMem h, completeLines_of_notMem h]

/-- The messages of the first line come first. -/
theorem delivered_append_cons {ending : Ending E} {line : List UInt8} (rest : List UInt8)
    (h : newline ∉ line) :
    delivered parse ending (line ++ newline :: rest) =
      match fromSlice parse line with
      | .ok msgs =>
        msgs.intoVec.map (fun msg => .ok (some (.ok msg))) ++ delivered parse ending rest
      | .error err => [.ok (some (.error (.json err)))] := by
  simp only [delivered, partialLine_append_cons rest h, completeLines_append_cons rest h,
    results_cons]

namespace ReadStreamer

variable [ByteSource R E]

/-- What a streamer still has to hand out: its queue, its error, and what is in the bytes of the
current line and those the reader has still to deliver. -/
def output (s : ReadStreamer R E) : List (NextResult E) :=
  s.queue.map (fun msg => .ok (some (.ok msg))) ++
    s.err.toList.map (fun err => .ok (some (.error err))) ++
      match s.reader with
      | none => []
      | some reader =>
        delivered parse (ByteSource.ending reader) (s.buf ++ ByteSource.content reader)

/-- While a streamer has its reader, its buffer holds the beginning of a line only. -/
def MidLine (s : ReadStreamer R E) : Prop :=
  ∀ reader, s.reader = some reader → newline ∉ s.buf

omit [ByteSource R E] in
/-- A new streamer has an empty buffer. -/
theorem midLine_new (reader : R) : (new reader : ReadStreamer R E).MidLine :=
  fun _ _ => List.not_mem_nil

/-! ## One round -/

variable {parse}

/-- All a round does once its `read_until` has completed: `bytes` is the buffer before the read
with what the reader had to deliver before its `ending`, `reader` is the reader after it. -/
inductive Settled (parse : List UInt8 → Except Serde.Error Value) (ending : Ending E) (reader : R) :
    List UInt8 → LoopStep (NextResult E) (ReadStreamer R E) → Prop
  /-- A line is decoded: its messages are queued and the reader is put back. -/
  | line {line : List UInt8} {msgs : RawOneOrMany RawIncoming} (hline : newline ∉ line)
      (hdecode : fromSlice parse line = .ok msgs) :
      Settled parse ending reader (line ++ newline :: ByteSource.content reader)
        (.again { reader := some reader, buf := [], queue := msgs.intoVec, err := none })
  /-- A line does not decode: the reader is dropped, whatever else it had to deliver. -/
  | undecodable {line rest : List UInt8} {err : Serde.Error} (hline : newline ∉ line)
      (hdecode : fromSlice parse line = .error err) :
      Settled parse ending reader (line ++ newline :: rest)
        (.again { reader := none, buf := line, queue := [], err := some (.json err) })
  /-- The read fails. -/
  | failed {bytes : List UInt8} {err : E} (hbytes : newline ∉ bytes)
      (hending : ending = .failed err) :
      Settled parse ending reader bytes
        (.again { reader := none, buf := bytes, queue := [], err := some (.os err) })
  /-- The end of file, at the beginning of a line. -/
  | eof (hending : ending = .eof) :
      Settled parse ending reader []
        (.again { reader := none, buf := [], queue := [], err := none })
  /-- The end of file in the middle of a line: the assertion fails. -/
  | cut {bytes : List UInt8} {b : UInt8} (hbytes : newline ∉ bytes ++ [b])
      (hending : ending = .eof) :
      Settled parse ending reader (bytes ++ [b])
        (.stop (.error {}) { reader := none, buf := bytes, queue := [], err := none })

/-- A read up to a newline or to the end of the stream settles the line. -/
theorem settled_settle {reader' : R} {ending : Ending E} {res : Except E Unit}
    {buf buf' content : List UInt8} (hbuf : newline ∉ buf)
    (hreads : ReadsUntil newline ending buf content res buf' (ByteSource.content reader')) :
    Settled parse ending reader' (buf ++ content)
      (settle parse reader' res { reader := none, buf := buf', queue := [], err := none }) := by
  generalize hrest : ByteSource.content reader' = rest at hreads
  -- the buffer holds the beginning of the line, from earlier polls
  cases hreads with
  | @line line _ hnotin =>
    subst hrest
    have hline : newline ∉ buf ++ line := by simp [hbuf, hnotin]
    rw [← List.append_assoc]
    simp only [settle, enqueueFromBuf_line]
    rcases hdecode : fromSlice parse (buf ++ line) with err | msgs
    · exact Settled.undecodable hline hdecode
    · exact Settled.line hline hdecode
  | ended hnotin =>
    have hbytes : newline ∉ buf ++ content := by simp [hbuf, hnotin]
    rcases ending with _ | err
    -- at the end of file an empty buffer ends the stream, and a partial line fails the assertion
    · rcases List.eq_nil_or_concat' (buf ++ content) with hnil | ⟨bytes, b, hcut⟩
      · simp only [Ending.result, settle, hnil, enqueueFromBuf_nil]
        exact Settled.eof rfl
      · rw [hcut] at hbytes ⊢
        have hb : b ≠ newline := by
          rintro rfl
          simp at hbytes
        simp only [Ending.result, settle, enqueueFromBuf_cut _ _ hb]
        exact Settled.cut hbytes rfl
    · exact Settled.failed hbytes rfl

/-- A round keeps or emits the output of the streamer. -/
inductive RoundEmits (parse : List UInt8 → Except Serde.Error Value) (out : List (NextResult E)) :
    LoopStep (NextResult E) (ReadStreamer R E) → Prop
  | again {s : ReadStreamer R E} (hmid : s.MidLine) (hout : s.output parse = out) :
      RoundEmits parse out (.again s)
  | stop {s : ReadStreamer R E} {r : NextResult E} (hmid : s.MidLine)
      (hout : Emits (.ok none) out r (s.output parse)) : RoundEmits parse out (.stop r s)

/-- Reading on keeps the output; a cut line emits the panic, its only result. -/
theorem Settled.roundEmits {reader : R} {ending : Ending E} {bytes : List UInt8}
    {step : LoopStep (NextResult E) (ReadStreamer R E)}
    (hreader : ByteSource.ending reader = ending)
    (h : Settled parse ending reader bytes step) :
    RoundEmits parse (delivered parse ending bytes) step := by
  cases h with
  | line hline hdecode =>
    -- the messages of the line have moved from the bytes to the queue
    refine .again (fun _ _ => List.not_mem_nil) ?_
    rw [delivered_append_cons parse _ hline, hdecode]
    simp [output, hreader]
  | undecodable hline hdecode =>
    refine .again (fun _ h => nomatch h) ?_
    rw [delivered_append_cons parse _ hline, hdecode]
    rfl
  | failed hbytes hending =>
    refine .again (fun _ h => nomatch h) ?_
    rw [delivered_of_notMem parse hbytes, hending]
    rfl
  | eof hending =>
    refine .again (fun _ h => nomatch h) ?_
    rw [delivered_of_notMem parse List.not_mem_nil, hending]
    rfl
  | cut hbytes hending =>
    refine .stop (fun _ h => nomatch h) ?_
    rw [delivered_of_notMem parse hbytes, hending]
    exact ⟨by simp [results], by simp [results, output]⟩

end ReadStreamer

/-! ## The blocking iterator -/

namespace ReadStreamer

variable {parse}

/-- A round of the blocking loop emits the next results. -/
theorem nextBody_roundEmits {s : ReadStreamer (BufReader UInt8 E) E} (hmid : s.MidLine) :
    RoundEmits parse (s.output parse) (nextBody parse s) := by
  obtain ⟨reader, buf, queue, err⟩ := s
  -- the checks are in the order of the round: queue, stored error, reader
  rcases queue with _ | ⟨msg, queue⟩
  swap
  · exact .stop hmid ⟨rfl, rfl⟩
  rcases err with _ | err
  swap
  · exact .stop hmid ⟨rfl, rfl⟩
  rcases reader with _ | reader
  · exact .stop hmid ⟨rfl, rfl⟩
  · obtain ⟨hreads, hending⟩ := reader.readUntil_spec newline buf
    exact (settled_settle (hmid reader rfl) hreads).roundEmits hending

/-- Each call of `next` takes the head of the output. -/
theorem next_emits {s : ReadStreamer (BufReader UInt8 E) E} (hmid : s.MidLine) :
    (next parse s).2.MidLine ∧
      Emits (.ok none) (s.output parse) (next parse s).1 ((next parse s).2.output parse) := by
  refine runLoop_rule (nextBody parse) unread unread_nextBody
    (I := MidLine)
    (Q := fun s r s' => s'.MidLine ∧ Emits (.ok none) (s.output parse) r (s'.output parse))
    ?_ ?_ hmid
  · intro s r s' hmid hstep
    have hround := hstep ▸ nextBody_roundEmits hmid
    cases hround with
    | stop hmid' hout => exact ⟨hmid', hout⟩
  -- a further round starts from the same output
  · intro s s' hmid hstep
    have hround := hstep ▸ nextBody_roundEmits hmid
    cases hround with
    | again hmid' hout => exact ⟨hmid', fun r t hQ => hout ▸ hQ⟩

/-- The blocking iterator gives the output of its bytes. -/
theorem firstResults_next (reader : BufReader UInt8 E) (n : ℕ) :
    (firstResults (next parse) n (new reader)).1 =
      padded (.ok none) (delivered parse reader.ending reader.content) n :=
  firstResults_eq_padded (I := MidLine) (fun _ hmid => next_emits hmid) n (midLine_new reader)

end ReadStreamer

/-- The blocking iterator frames its bytes, unless the end of file cuts a line. Its results are
the items of the complete lines, and then the end of the stream for ever. -/
theorem firstResults_next_framed (reader : BufReader UInt8 E)
    (hcut : reader.ending = .eof → partialLine newline reader.content = []) (n : ℕ) :
    (firstResults (ReadStreamer.next parse) n (ReadStreamer.new reader)).1 =
      (List.range n).map fun i =>
        .ok (framed parse reader.ending (completeLines newline reader.content))[i]? := by
  rw [ReadStreamer.firstResults_next, delivered, results_eq_map_framed parse hcut, padded]
  -- behind the last item both sides are the end of the stream
  apply List.map_congr_left
  intro i _
  rw [List.getD_eq_getElem?_getD, List.getElem?_map]
  rcases (framed parse reader.ending (completeLines newline reader.content))[i]? with _ | item
  · rfl
  · rfl

/-- A notification without parameters. -/
def notice (method : String) : RawNotification :=
  { version := {}, method, params := .array [] }

/-- The text of a notification. -/
def noticeText (method : String) : List UInt8 :=
  utf8 ("\x7b\"jsonrpc\":\"2.0\",\"method\":\"" ++ method ++ "\",\"params\":[]\x7d")

/-- The JSON value of a notification. -/
def noticeValue (method : String) : Value :=
  .object [("jsonrpc", .string "2.0"), ("method", .string method), ("params", .array [])]

/-- The text of a batch of two notifications. -/
def noticesText : List UInt8 :=
  utf8 "[" ++ noticeText "b" ++ utf8 "," ++ noticeText "c" ++ utf8 "]"

/-- A parser for one notification and for the batch of two. -/
def parseNotices (bytes : List UInt8) : Except Serde.Error Value :=
  if bytes = noticeText "a" then .ok (noticeValue "a")
  else if bytes = noticesText then .ok (.array [noticeValue "b", noticeValue "c"])
  else .error (.custom "expected value")

/-- A notification, a batch, a line that is no JSON and a notification behind it, in chunks that end
in the middle of a message. -/
def noticesReader : BufReader UInt8 Unit where
  chunks := [⟨123, (noticeText "a").tail.take 20⟩,
    ⟨104, (noticeText "a").drop 22 ++ [newline, 91]⟩,
    ⟨123, noticesText.drop 2 ++ [newline, 91, newline] ++ noticeText "a" ++ [newline]⟩]
  ending := .eof

/-- The messages of the two lines come one by one, then an error, and then the end. -/
theorem firstResults_next_framed_notices :
    (firstResults (ReadStreamer.next parseNotices) 6 (ReadStreamer.new noticesReader)).1 =
      [.ok (some (.ok (.notification (notice "a")))), .ok (some (.ok (.notification (notice "b")))),
        .ok (some (.ok (.notification (notice "c")))),
        .ok (some (.error (.json (.custom "expected value")))), .ok none, .ok none] :=
  (firstResults_next_framed parseNotices noticesReader (fun _ => by decide) 6).trans rfl

end ElectrumStreamingClient
