import ElectrumStreamingClient.Io.Resumption

/-!
# The bytes that a call takes

What one call of a `ReadStreamer` of either kind takes of the bytes of its reader: complete lines,
of which only the last one may hold messages, and, if it is pending, bytes that it leaves in the
buffer. What comes after these bytes does not matter to the call, so they may not even have been
sent when it is made.
-/

namespace ElectrumStreamingClient

open Serde LineFraming

variable {R E : Type} [ByteSource R E]

namespace ReadStreamer

/-- A call from `s` gives `p` and leaves `s'`. -/
inductive Takes (parse : List UInt8 → Except Serde.Error Value) :
    ReadStreamer R E → Poll (NextResult E) → ReadStreamer R E → Prop
  /-- It gives a message of the queue, and takes nothing. -/
  | give {s : ReadStreamer R E} {msg : RawIncoming} {queue : List RawIncoming}
      (hqueue : s.queue = msg :: queue) :
      Takes parse s (.ready (.ok (some (.ok msg)))) { s with queue }
  /-- It takes a line that decodes, and goes on from there. -/
  | line {reader reader' : R} {buf line : List UInt8} {msgs : RawOneOrMany RawIncoming}
      {p : Poll (NextResult E)} {s' : ReadStreamer R E} (hline : newline ∉ line)
      (hdecode : fromSlice parse line = .ok msgs)
      (hbytes : buf ++ ByteSource.content reader = line ++ newline :: ByteSource.content reader')
      (hrest : Takes parse { reader := some reader', buf := [], queue := msgs.intoVec, err := none }
        p s') :
      Takes parse { reader := some reader, buf, queue := [], err := none } p s'
  /-- It takes the beginning of a line, and is suspended. -/
  | suspend {reader reader' : R} {buf taken : List UInt8} (htaken : newline ∉ taken)
      (hbytes : ByteSource.content reader = taken ++ ByteSource.content reader') :
      Takes parse { reader := some reader, buf, queue := [], err := none } .pending
        { reader := some reader', buf := buf ++ taken, queue := [], err := none }
  /-- It gives an error, the end or a panic. If it has taken anything, it has dropped the reader. -/
  | stop {s s' : ReadStreamer R E} {r : NextResult E} (hqueue : s.queue = [])
      (hqueue' : s'.queue = []) (hr : ∀ msg, r ≠ .ok (some (.ok msg)))
      (hreader : ∀ reader, s'.reader = some reader → s.reader = some reader ∧ s'.buf = s.buf) :
      Takes parse s (.ready r) s'

variable {parse : List UInt8 → Except Serde.Error Value}

namespace Takes

/-- A call leaves no whole line in the buffer. -/
theorem midLine {s s' : ReadStreamer R E} {p : Poll (NextResult E)} (h : Takes parse s p s')
    (hmid : s.MidLine) : s'.MidLine := by
  induction h with
  | give => exact hmid
  | line _ _ _ _ ih => exact ih fun _ _ => List.not_mem_nil
  | suspend htaken =>
    intro _ _ hmem
    rcases List.mem_append.mp hmem with hbuf | htaken'
    · exact hmid _ rfl hbuf
    · exact htaken htaken'
  | stop _ _ _ hreader =>
    intro reader hsome
    obtain ⟨hreader, hbuf⟩ := hreader reader hsome
    rw [hbuf]
    exact hmid reader hreader

/-- What is left of the reader is the end of what it had. -/
theorem content {s s' : ReadStreamer R E} {p : Poll (NextResult E)} (h : Takes parse s p s')
    {reader reader' : R} (hreader : s.reader = some reader) (hreader' : s'.reader = some reader') :
    ∃ taken, s.buf ++ ByteSource.content reader =
      taken ++ (s'.buf ++ ByteSource.content reader') := by
  induction h generalizing reader with
  | give =>
    cases hreader.symm.trans hreader'
    exact ⟨[], rfl⟩
  | @line _ _ _ line _ _ _ _ _ hbytes _ ih =>
    cases hreader
    -- the line is consumed, and then what the rest of the call consumes
    obtain ⟨taken, htaken⟩ := ih rfl hreader'
    refine ⟨line ++ newline :: taken, ?_⟩
    rw [hbytes, ← List.nil_append (ByteSource.content _), htaken]
    simp
  | suspend _ hbytes =>
    cases hreader
    cases hreader'
    exact ⟨[], by simp [hbytes]⟩
  | stop _ _ _ hstays =>
    obtain ⟨hsame, hbuf⟩ := hstays reader' hreader'
    cases hreader.symm.trans hsame
    exact ⟨[], by rw [hbuf]; rfl⟩

/-- A call that drops the reader gives no message. -/
theorem dropped {s s' : ReadStreamer R E} {p : Poll (NextResult E)} (h : Takes parse s p s')
    (hreader : s.reader ≠ none) (hreader' : s'.reader = none) :
    s.queue = [] ∧ s'.queue = [] ∧ ∃ r, p = .ready r ∧ ∀ msg, r ≠ .ok (some (.ok msg)) := by
  induction h with
  | give => exact absurd hreader' hreader
  | line _ _ _ _ ih =>
    obtain ⟨-, hqueue', hp⟩ := ih (by simp) hreader'
    exact ⟨rfl, hqueue', hp⟩
  | suspend => cases hreader'
  | stop hqueue hqueue' hr => exact ⟨hqueue, hqueue', _, rfl, hr⟩

/-- Without a reader, nothing is left to take. -/
theorem of_reader_eq_none {s s' : ReadStreamer R E} {p : Poll (NextResult E)}
    (h : Takes parse s p s') (hreader : s.reader = none) (hqueue : s.queue = []) :
    s'.reader = none ∧ s'.queue = [] ∧ ∃ r, p = .ready r ∧ ∀ msg, r ≠ .ok (some (.ok msg)) := by
  cases h with
  | give hgive =>
    rw [hqueue] at hgive
    cases hgive
  | line => cases hreader
  | suspend => cases hreader
  | stop _ hqueue' hr hstays =>
    refine ⟨?_, hqueue', _, rfl, hr⟩
    rcases hs' : ReadStreamer.reader _ with _ | reader
    · rfl
    · cases hreader.symm.trans (hstays reader hs').1

end Takes

/-! ## Both loops -/

/-- What a round takes. Going round again, the call takes what the rest of it takes. -/
inductive RoundTakes (parse : List UInt8 → Except Serde.Error Value) (s : ReadStreamer R E) :
    LoopStep (Poll (NextResult E)) (ReadStreamer R E) → Prop
  | stop {p : Poll (NextResult E)} {s' : ReadStreamer R E} (htakes : Takes parse s p s') :
      RoundTakes parse s (.stop p s')
  | again {s₁ : ReadStreamer R E} (hrest : ∀ p s', Takes parse s₁ p s' → Takes parse s p s') :
      RoundTakes parse s (.again s₁)

/-- The result of a round, as that of a poll that is ready. -/
def readyStep : LoopStep (NextResult E) (ReadStreamer R E) →
    LoopStep (Poll (NextResult E)) (ReadStreamer R E)
  | .stop r s => .stop (.ready r) s
  | .again s => .again s

/-- A round that settles has consumed the lines it emits. -/
theorem Settled.roundTakes {reader reader' : R} {ending : Ending E} {buf : List UInt8}
    {step : LoopStep (NextResult E) (ReadStreamer R E)}
    (h : Settled parse ending reader' (buf ++ ByteSource.content reader) step) :
    RoundTakes parse { reader := some reader, buf, queue := [], err := none } (readyStep step) := by
  generalize hbytes : buf ++ ByteSource.content reader = bytes at h
  cases h with
  | line hline hdecode => exact .again fun _ _ hrest => .line hline hdecode hbytes hrest
  | undecodable | failed | eof =>
    -- the reader is dropped, and nothing is queued
    refine .again fun p s' hrest => ?_
    obtain ⟨hreader', hqueue', r, rfl, hr⟩ := hrest.of_reader_eq_none rfl rfl
    exact .stop rfl hqueue' hr (by simp [hreader'])
  | cut => exact .stop (.stop rfl rfl (by simp) (by simp))

/-- A round of the blocking loop consumes the lines it emits. -/
theorem nextBody_roundTakes {s : ReadStreamer (BufReader UInt8 E) E} (hmid : s.MidLine) :
    RoundTakes parse s (readyStep (nextBody parse s)) := by
  obtain ⟨reader, buf, queue, err⟩ := s
  rcases queue with _ | ⟨msg, queue⟩
  swap
  · exact .stop (.give rfl)
  rcases err with _ | err
  swap
  · exact .stop (.stop rfl rfl (by simp) fun _ hreader => ⟨hreader, rfl⟩)
  rcases reader with _ | reader
  · exact .stop (.stop rfl rfl (by simp) fun _ hreader => ⟨hreader, rfl⟩)
  · obtain ⟨hreads, -⟩ := reader.readUntil_spec newline buf
    exact (settled_settle (hmid reader rfl) hreads).roundTakes

/-- A round of the asynchronous loop consumes the lines it emits. -/
theorem pollNextBody_roundTakes {s : ReadStreamer (AsyncBufReader UInt8 E) E} (hmid : s.MidLine) :
    RoundTakes parse s (pollNextBody parse s) := by
  obtain ⟨reader, buf, queue, err⟩ := s
  -- the cases are those of the round: queue, error, reader, and what the read gives
  rcases queue with _ | ⟨msg, queue⟩
  swap
  · exact .stop (.give rfl)
  rcases err with _ | err
  swap
  · exact .stop (.stop rfl rfl (by simp) fun _ hreader => ⟨hreader, rfl⟩)
  rcases reader with _ | reader
  · exact .stop (.stop rfl rfl (by simp) fun _ hreader => ⟨hreader, rfl⟩)
  rcases hpoll : reader.pollReadUntil newline buf with ⟨_ | res, buf', reader'⟩
  -- a pending read leaves what it has read so far in the buffer
  · obtain ⟨⟨taken, htaken, hcontent, rfl⟩, -, -⟩ := AsyncBufReader.pollReadUntil_pending hpoll
    simp only [pollNextBody, hpoll]
    exact .stop (.suspend htaken hcontent)
  · obtain ⟨hreads, -, -⟩ := AsyncBufReader.pollReadUntil_ready hpoll
    have hround : RoundTakes parse { reader := some reader, buf, queue := [], err := none } _ :=
      (settled_settle (hmid reader rfl) hreads).roundTakes
    simp only [pollNextBody, hpoll]
    rcases hstep :
      settle parse reader' res { reader := none, buf := buf', queue := [], err := none }
      with ⟨r, s'⟩ | s'
    · rw [hstep] at hround
      exact hround
    · rw [hstep] at hround
      exact hround

/-- A call of `next`. -/
theorem next_takes {s : ReadStreamer (BufReader UInt8 E) E} (hmid : s.MidLine) :
    Takes parse s (.ready (next parse s).1) (next parse s).2 := by
  -- what the rounds take together is one call, which the loop rule follows from its last round
  refine runLoop_rule (nextBody parse) unread unread_nextBody (I := MidLine)
    (Q := fun s r s' => Takes parse s (.ready r) s') ?_ ?_ hmid
  · intro s r s' hmid hstep
    have hround : RoundTakes parse s _ := nextBody_roundTakes hmid
    rw [hstep] at hround
    cases hround with
    | stop htakes => exact htakes
  · intro s s' hmid hstep
    have hround : RoundTakes parse s _ := nextBody_roundTakes hmid
    have hemits : RoundEmits parse (s.output parse) _ := nextBody_roundEmits hmid
    rw [hstep] at hround hemits
    cases hround with
    | again hrest =>
      cases hemits with
      | again hmid' => exact ⟨hmid', fun _ _ => hrest _ _⟩

/-- A poll. -/
theorem pollNext_takes {s : ReadStreamer (AsyncBufReader UInt8 E) E} (hmid : s.MidLine) :
    Takes parse s (pollNext parse s).1 (pollNext parse s).2 := by
  refine runLoop_rule (pollNextBody parse) unread unread_pollNextBody (I := MidLine)
    (Q := Takes parse) ?_ ?_ hmid
  · intro s p s' hmid hstep
    have hround : RoundTakes parse s _ := pollNextBody_roundTakes hmid
    rw [hstep] at hround
    cases hround with
    | stop htakes => exact htakes
  · intro s s' hmid hstep
    have hround : RoundTakes parse s _ := pollNextBody_roundTakes hmid
    have hpoll : PollRound parse s _ := pollNextBody_pollRound hmid
    rw [hstep] at hround hpoll
    cases hround with
    | again hrest =>
      cases hpoll with
      | again hmid' => exact ⟨hmid', hrest⟩

end ReadStreamer

end ElectrumStreamingClient
