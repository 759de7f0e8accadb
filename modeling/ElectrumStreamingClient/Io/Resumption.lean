import ElectrumStreamingClient.Io.Framing

/-!
# Resuming the asynchronous streamer

Polling an asynchronous `ReadStreamer`, with futures dropped and recreated at will, against the
blocking iterator over the same bytes. A pending poll leaves the output of the streamer as it is:
what it consumed is in the buffer, and the `read_until` of the next poll goes on from there. So
the ready results of any schedule are the results of the blocking iterator.
-/

namespace ElectrumStreamingClient

open Serde LineFraming

variable {E : Type}

/-- One act of the consumer of the streamer. -/
inductive ConsumerAct where
  /-- Poll a `next()` future: the one kept from the last poll, or a new one. -/
  | poll
  /-- Drop the `next()` future. It only borrows the streamer, and the `read_until` future of its
  last poll was dropped when that poll returned. -/
  | abandon
deriving DecidableEq

/-- The result of a ready poll. -/
def ready? {ρ : Type} : Poll ρ → Option ρ
  | .pending => none
  | .ready r => some r

/-- The results of the ready polls. -/
def readyResults {ρ : Type} (ps : List (Poll ρ)) : List ρ :=
  ps.filterMap ready?

@[simp] theorem readyResults_ready {ρ : Type} (r : ρ) (ps : List (Poll ρ)) :
    readyResults (.ready r :: ps) = r :: readyResults ps := rfl

@[simp] theorem readyResults_pending {ρ : Type} (ps : List (Poll ρ)) :
    readyResults (.pending :: ps) = readyResults ps := rfl

namespace ReadStreamer

variable (parse : List UInt8 → Except Serde.Error Value)

/-- The polls of a schedule. -/
def polls : List ConsumerAct → ReadStreamer (AsyncBufReader UInt8 E) E →
    List (Poll (NextResult E)) × ReadStreamer (AsyncBufReader UInt8 E) E
  | [], s => ([], s)
  | .poll :: acts, s =>
    let (p, s) := pollNext parse s
    let (ps, s) := polls acts s
    (p :: ps, s)
  | .abandon :: acts, s => polls acts s

/-- The pending results the reader has still to give. -/
def pendings (s : ReadStreamer (AsyncBufReader UInt8 E) E) : ℕ :=
  match s.reader with
  | none => 0
  | some reader => reader.pendings

/-- A poll from `s` is suspended in `s'`: it has used up one pending result of the reader, and the
bytes it consumed are lines without messages, whose decoding it completed, and bytes it added to
the buffer. -/
inductive Suspends (s s' : ReadStreamer (AsyncBufReader UInt8 E) E) : Prop
  | intro (reader reader' : AsyncBufReader UInt8 E) (lines : List (List UInt8))
      (hreader : s.reader = some reader) (hreader' : s'.reader = some reader')
      (hqueue : s.queue = [] ∧ s'.queue = []) (herr : s.err = none ∧ s'.err = none)
      (hpendings : reader.pendings = reader'.pendings + 1)
      (hending : reader'.ending = reader.ending)
      (hbytes : s.buf ++ reader.content =
        lines.flatMap (· ++ [newline]) ++ (s'.buf ++ reader'.content))
      (hlines : ∀ line ∈ lines, newline ∉ line ∧ fromSlice parse line = .ok (.batch []))
      (hmid : newline ∉ s'.buf)

variable {parse}

/-- Lines without messages add nothing to the output. -/
theorem delivered_emptyBatches {ending : Ending E} {lines : List (List UInt8)}
    (hlines : ∀ line ∈ lines, newline ∉ line ∧ fromSlice parse line = .ok (.batch []))
    (bytes : List UInt8) :
    delivered parse ending (lines.flatMap (· ++ [newline]) ++ bytes) =
      delivered parse ending bytes := by
  induction lines with
  | nil => rfl
  | cons line lines ih =>
    obtain ⟨hline, hdecode⟩ := hlines line List.mem_cons_self
    have hrest := ih fun l hl => hlines l (List.mem_cons_of_mem _ hl)
    have hshape : (line :: lines).flatMap (· ++ [newline]) ++ bytes =
        line ++ newline :: (lines.flatMap (· ++ [newline]) ++ bytes) := by simp
    rw [hshape, delivered_append_cons parse _ hline, hdecode, hrest]
    rfl

/-- A suspended poll keeps the output. -/
theorem Suspends.output_eq {s s' : ReadStreamer (AsyncBufReader UInt8 E) E}
    (h : Suspends parse s s') : s.output parse = s'.output parse := by
  obtain ⟨reader, reader', lines, hreader, hreader', hqueue, herr, -, hending, hbytes, hlines, -⟩ :=
    h
  simp only [output, hreader, hreader', hqueue, herr, ByteSource.content, ByteSource.ending, hbytes,
    hending, delivered_emptyBatches hlines]

/-- A pending poll leaves no whole line in the buffer. -/
theorem Suspends.midLine {s s' : ReadStreamer (AsyncBufReader UInt8 E) E}
    (h : Suspends parse s s') : s'.MidLine := by
  obtain ⟨-, -, -, -, -, -, -, -, -, -, -, hmid⟩ := h
  exact fun _ _ => hmid

/-- A pending poll uses up one pending result of the reader. -/
theorem Suspends.pendings_eq {s s' : ReadStreamer (AsyncBufReader UInt8 E) E}
    (h : Suspends parse s s') : s.pendings = s'.pendings + 1 := by
  obtain ⟨reader, reader', -, hreader, hreader', -, -, hpendings, -, -, -, -⟩ := h
  simp only [pendings, hreader, hreader', hpendings]

/-! ## One poll -/

/-- A round that reads on to a line without messages, and is then suspended, is suspended. -/
theorem Settled.suspends {reader reader' : AsyncBufReader UInt8 E} {buf : List UInt8}
    {s' t : ReadStreamer (AsyncBufReader UInt8 E) E}
    (hsettled : Settled parse reader.ending reader' (buf ++ reader.content) (.again s'))
    (hpendings : reader'.pendings = reader.pendings) (hending : reader'.ending = reader.ending)
    (h : Suspends parse s' t) :
    Suspends parse { reader := some reader, buf, queue := [], err := none } t := by
  obtain ⟨r, r', lines, hr, hr', hqueue, herr, hp, he, hbytes, hlines, hmid⟩ := h
  generalize hall : buf ++ reader.content = bytes at hsettled
  -- every other way to go round again has dropped the reader
  cases hsettled with
  | undecodable => cases hr
  | failed => cases hr
  | eof => cases hr
  | @line line msgs hline hdecode =>
    cases hr
    have hempty : msgs = .batch [] := by
      rcases msgs with msg | msgs
      · exact absurd hqueue.1 (List.cons_ne_nil _ _)
      · exact congrArg _ hqueue.1
    subst hempty
    refine .intro reader r' (line :: lines) rfl hr' ⟨rfl, hqueue.2⟩ ⟨rfl, herr.2⟩
      (hpendings ▸ hp) (he.trans hending) ?_ ?_ hmid
    · rw [hall, show ByteSource.content reader' = [] ++ reader'.content from rfl, hbytes]
      simp
    · intro l hl
      rcases List.mem_cons.mp hl with rfl | hl
      · exact ⟨hline, hdecode⟩
      · exact hlines l hl

/-- What a poll from `s` does: it emits the head of the output, or is suspended. -/
inductive PollEmits (parse : List UInt8 → Except Serde.Error Value)
    (s : ReadStreamer (AsyncBufReader UInt8 E) E) :
    Poll (NextResult E) → ReadStreamer (AsyncBufReader UInt8 E) E → Prop
  | ready {r : NextResult E} {s' : ReadStreamer (AsyncBufReader UInt8 E) E} (hmid : s'.MidLine)
      (hpendings : s'.pendings ≤ s.pendings)
      (hout : Emits (.ok none) (s.output parse) r (s'.output parse)) :
      PollEmits parse s (.ready r) s'
  | pending {s' : ReadStreamer (AsyncBufReader UInt8 E) E} (hsuspends : Suspends parse s s') :
      PollEmits parse s .pending s'

/-- What a round of `poll_next` does. Going round again, it keeps the output, and it is suspended
when the rest of the poll is. -/
inductive PollRound (parse : List UInt8 → Except Serde.Error Value)
    (s : ReadStreamer (AsyncBufReader UInt8 E) E) :
    LoopStep (Poll (NextResult E)) (ReadStreamer (AsyncBufReader UInt8 E) E) → Prop
  | stop {p : Poll (NextResult E)} {s' : ReadStreamer (AsyncBufReader UInt8 E) E}
      (hpoll : PollEmits parse s p s') : PollRound parse s (.stop p s')
  | again {s' : ReadStreamer (AsyncBufReader UInt8 E) E} (hmid : s'.MidLine)
      (hpendings : s'.pendings ≤ s.pendings) (hout : s'.output parse = s.output parse)
      (hsuspends : ∀ t, Suspends parse s' t → Suspends parse s t) :
      PollRound parse s (.again s')

/-- Settling a line does not add pending results. -/
theorem Settled.pendings_le {reader : AsyncBufReader UInt8 E} {ending : Ending E}
    {bytes : List UInt8} {step : LoopStep (NextResult E) (ReadStreamer (AsyncBufReader UInt8 E) E)}
    (h : Settled parse ending reader bytes step) : step.state.pendings ≤ reader.pendings := by
  cases h with
  | line => exact le_refl _
  | undecodable => exact Nat.zero_le _
  | failed => exact Nat.zero_le _
  | eof => exact Nat.zero_le _
  | cut => exact Nat.zero_le _

/-- A round of the asynchronous loop emits the next results or suspends. -/
theorem pollNextBody_pollRound {s : ReadStreamer (AsyncBufReader UInt8 E) E} (hmid : s.MidLine) :
    PollRound parse s (pollNextBody parse s) := by
  obtain ⟨reader, buf, queue, err⟩ := s
  -- the checks are in the order of the round: queue, stored error, reader
  rcases queue with _ | ⟨msg, queue⟩
  swap
  · exact .stop (.ready hmid (le_refl _) ⟨rfl, rfl⟩)
  rcases err with _ | err
  swap
  · exact .stop (.ready hmid (le_refl _) ⟨rfl, rfl⟩)
  rcases reader with _ | reader
  · exact .stop (.ready hmid (le_refl _) ⟨rfl, rfl⟩)
  have hbuf : newline ∉ buf := hmid reader rfl
  rcases hpoll : reader.pollReadUntil newline buf with ⟨_ | res, buf', reader'⟩
  -- pending: what the read consumed is behind the buffer, and the reader is put back
  · obtain ⟨⟨consumed, hnotin, hcontent, rfl⟩, hpendings, hending⟩ :=
      AsyncBufReader.pollReadUntil_pending hpoll
    simp only [pollNextBody, hpoll]
    refine .stop (.pending (.intro reader reader' [] rfl rfl ⟨rfl, rfl⟩ ⟨rfl, rfl⟩ hpendings hending
      ?_ (fun _ h => nomatch h) (by simp [hbuf, hnotin])))
    simp [hcontent]
  -- ready: the round ends as a round of the blocking loop does
  · obtain ⟨hreads, hpendings, hending⟩ := AsyncBufReader.pollReadUntil_ready hpoll
    have hsettled : Settled parse reader.ending reader' (buf ++ reader.content)
        (settle parse reader' res { reader := none, buf := buf', queue := [], err := none }) :=
      settled_settle hbuf hreads
    have hemits := hsettled.roundEmits hending
    have hle := hpendings ▸ hsettled.pendings_le
    simp only [pollNextBody, hpoll]
    rcases hstep :
      settle parse reader' res { reader := none, buf := buf', queue := [], err := none }
      with ⟨r, s'⟩ | s'
    · rw [hstep] at hle hemits
      cases hemits with
      | stop hmid' hout => exact .stop (.ready hmid' hle hout)
    · rw [hstep] at hle hsettled hemits
      cases hemits with
      | again hmid' hout =>
        exact .again hmid' hle hout fun t => hsettled.suspends hpendings hending

/-- Each poll takes the head of the output or is suspended. -/
theorem pollNext_pollEmits {s : ReadStreamer (AsyncBufReader UInt8 E) E} (hmid : s.MidLine) :
    PollEmits parse s (pollNext parse s).1 (pollNext parse s).2 := by
  refine runLoop_rule (pollNextBody parse) unread unread_pollNextBody
    (I := MidLine) (Q := PollEmits parse) ?_ ?_ hmid
  · intro s p s' hmid hstep
    have hround := hstep ▸ pollNextBody_pollRound hmid
    cases hround with
    | stop hpoll => exact hpoll
  · intro s s' hmid hstep
    have hround := hstep ▸ pollNextBody_pollRound hmid
    cases hround with
    | again hmid' hle hout hsuspends =>
      -- what the rest of the poll does from `s'`, the whole poll does from `s`
      refine ⟨hmid', fun p t hpoll => ?_⟩
      cases hpoll with
      | ready hmid'' hle' hout' => exact .ready hmid'' (hle'.trans hle) (hout ▸ hout')
      | pending ht => exact .pending (hsuspends t ht)

/-! ## A schedule of polls -/

/-- What the polls of a schedule from `s` give together. -/
structure PollsEmit (parse : List UInt8 → Except Serde.Error Value)
    (s : ReadStreamer (AsyncBufReader UInt8 E) E) (ps : List (Poll (NextResult E)))
    (s' : ReadStreamer (AsyncBufReader UInt8 E) E) : Prop where
  midLine : s'.MidLine
  /-- The ready results are the first of the output. -/
  results : readyResults ps = padded (.ok none) (s.output parse) (readyResults ps).length
  /-- Every other poll used up a pending result of the reader. -/
  pendings : ps.length + s'.pendings ≤ (readyResults ps).length + s.pendings

/-- The polls of a schedule emit the results of the streamer in order. -/
theorem polls_emit (acts : List ConsumerAct) {s : ReadStreamer (AsyncBufReader UInt8 E) E}
    (hmid : s.MidLine) : PollsEmit parse s (polls parse acts s).1 (polls parse acts s).2 := by
  induction acts generalizing s with
  | nil => exact ⟨hmid, rfl, le_refl _⟩
  | cons act acts ih =>
    rcases act with _ | _
    swap
    -- dropping the future does nothing to the streamer
    · exact ih hmid
    simp only [polls]
    have hpoll : PollEmits parse s _ _ := pollNext_pollEmits hmid
    generalize pollNext parse s = out at hpoll
    obtain ⟨p, s₁⟩ := out
    cases hpoll with
    | ready hmid₁ hle hout =>
      obtain ⟨hmid', hresults, hpendings⟩ := ih hmid₁
      refine ⟨hmid', ?_, ?_⟩
      · rw [readyResults_ready, List.length_cons, padded_succ, ← hout.result, ← hout.rest,
          ← hresults]
      · rw [readyResults_ready, List.length_cons, List.length_cons]
        omega
    | pending hsuspends =>
      obtain ⟨hmid', hresults, hpendings⟩ := ih hsuspends.midLine
      have hused := hsuspends.pendings_eq
      refine ⟨hmid', ?_, ?_⟩
      · rw [readyResults_pending, hsuspends.output_eq]
        exact hresults
      · rw [readyResults_pending, List.length_cons]
        omega

/-- Each poll has a result. -/
theorem length_polls (acts : List ConsumerAct) (s : ReadStreamer (AsyncBufReader UInt8 E) E) :
    (polls parse acts s).1.length = acts.count .poll := by
  induction acts generalizing s with
  | nil => rfl
  | cons act acts ih =>
    rcases act with _ | _
    · simp [polls, ih]
    · simpa [polls] using ih s

end ReadStreamer

open ReadStreamer

/-- Whatever the script of the reader and the schedule of the consumer, the ready results of
`poll_next` are those of the blocking iterator over the same bytes with the same ending, at most
one poll for each pending result of the reader gives none, and such a poll is suspended: the bytes
it consumed are in the buffer, behind complete lines without messages. -/
theorem readyResults_polls (reader : AsyncBufReader UInt8 E) (blocking : BufReader UInt8 E)
    (hcontent : blocking.content = reader.content) (hending : blocking.ending = reader.ending)
    (acts : List ConsumerAct) :
    readyResults (polls parse acts (new reader)).1 =
        (firstResults (next parse) (readyResults (polls parse acts (new reader)).1).length
          (new blocking)).1 ∧
      acts.count .poll ≤
        (readyResults (polls parse acts (new reader)).1).length + reader.pendings ∧
      ∀ s', pollNext parse (polls parse acts (new reader)).2 = (.pending, s') →
        Suspends parse (polls parse acts (new reader)).2 s' := by
  obtain ⟨hmid, hresults, hpendings⟩ :
      PollsEmit parse (new reader) _ (polls parse acts (new reader)).2 :=
    polls_emit acts (midLine_new reader)
  refine ⟨?_, ?_, ?_⟩
  -- both streamers give the results of the same bytes
  · rw [firstResults_next, hcontent, hending]
    exact hresults
  · rw [length_polls] at hpendings
    exact (Nat.le_add_right _ _).trans hpendings
  · intro s' hpoll
    have hemits : PollEmits parse (polls parse acts (new reader)).2 _ _ := pollNext_pollEmits hmid
    rw [hpoll] at hemits
    cases hemits with
    | pending hsuspends => exact hsuspends

/-- The same bytes with pending results in the middle of the messages. -/
def cutNoticesReader : AsyncBufReader UInt8 Unit where
  script := [.ready ⟨123, (noticeText "a").tail.take 20⟩, .pending,
    .ready ⟨104, (noticeText "a").drop 22 ++ [newline, 91]⟩, .pending,
    .ready ⟨123, noticesText.drop 2 ++ [newline, 91, newline] ++ noticeText "a" ++ [newline]⟩]
  ending := .eof

/-- Polled with a future that is dropped after the first pending result, the streamer gives the
messages and the error. -/
theorem readyResults_polls_notices :
    (readyResults (polls parseNotices [.poll, .abandon, .poll, .poll, .poll, .poll, .poll]
        (new cutNoticesReader)).1).take 4 =
      [.ok (some (.ok (.notification (notice "a")))), .ok (some (.ok (.notification (notice "b")))),
        .ok (some (.ok (.notification (notice "c")))),
        .ok (some (.error (.json (.custom "expected value"))))] := by
  obtain ⟨hresults, hcount, -⟩ := @readyResults_polls _ parseNotices cutNoticesReader
    noticesReader rfl rfl [.poll, .abandon, .poll, .poll, .poll, .poll, .poll]
  generalize readyResults (polls parseNotices _ (new cutNoticesReader)).1 = rs at hresults hcount ⊢
  -- two of the six polls found nothing
  have hpolls : 6 ≤ rs.length + 2 := hcount
  have hlength : 4 ≤ rs.length := by omega
  rw [hresults, firstResults_next, padded, ← List.map_take, List.take_range, min_eq_left hlength]
  rfl

end ElectrumStreamingClient
