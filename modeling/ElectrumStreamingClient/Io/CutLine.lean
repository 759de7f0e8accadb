import ElectrumStreamingClient.Io.Resumption

/-!
# Connections cut in the middle of a line

At the end of file `read_until` leaves a partial line in the buffer, and the assertion of
`_enqueue_from_buf` fails on its last byte. This happens exactly when the streamer gets there:
when every complete line before it decodes.
-/

namespace ElectrumStreamingClient

open Serde LineFraming ReadStreamer

variable {E : Type} (parse : List UInt8 → Except Serde.Error Value)

/-- The sequences of results of the blocking iterator, for any number of calls. -/
def NextTrace (reader : BufReader UInt8 E) (rs : List (NextResult E)) : Prop :=
  ∃ n, rs = (firstResults (next parse) n (new reader)).1

/-- The sequences of ready results of the asynchronous streamer, for any schedule. -/
def PollTrace (reader : AsyncBufReader UInt8 E) (rs : List (NextResult E)) : Prop :=
  ∃ acts, rs = readyResults (polls parse acts (new reader)).1

/-- A blocking connection that delivers the chunks and then ends at the end of file. -/
def closing (E : Type) (chunks : List (Chunk UInt8)) : BufReader UInt8 E :=
  { chunks, ending := .eof }

/-- An asynchronous connection that gives the poll results and then ends at the end of file. -/
def closingAsync (E : Type) (script : List (Fill UInt8)) : AsyncBufReader UInt8 E :=
  { script, ending := .eof }

/-- No call panics, a truncated tail gives an error or its decoded messages, and then the stream
ends. -/
structure EndsCleanly (tail : List UInt8) (Trace : List (NextResult E) → Prop) : Prop where
  noPanic : ∀ rs : List (NextResult E), Trace rs → ∀ panic, .error panic ∉ rs
  tailReported : tail ≠ [] → ∃ rs : List (NextResult E), Trace rs ∧
    ((∃ err, .ok (some (.error err)) ∈ rs) ∨
      ∃ msgs, fromSlice parse tail = .ok msgs ∧
        ∀ msg ∈ msgs.intoVec, .ok (some (.ok msg)) ∈ rs)
  ends : ∃ n : ℕ, ∀ rs : List (NextResult E), Trace rs →
    ∀ i, n ≤ i → ∀ r : NextResult E, rs[i]? = some r → r = .ok none

/-- The end of file is not reached in the middle of a line: there is no partial line, or a line
before it does not decode and ends the stream. -/
def NotCut (bytes : List UInt8) : Prop :=
  partialLine newline bytes = [] ∨
    ∃ line ∈ completeLines newline bytes, ∃ err, fromSlice parse line = .error err

variable {parse}

/-- The partial line makes the streamer panic exactly if no line before it ends the stream. -/
theorem panic_mem_results_iff {tail : List UInt8} (htail : tail ≠ []) (panic : Panic)
    (lines : List (List UInt8)) :
    .error panic ∈ results (E := E) parse .eof tail lines ↔
      ¬∃ line ∈ lines, ∃ err, fromSlice parse line = .error err := by
  induction lines with
  | nil => simp [results, htail]
  | cons line lines ih =>
    rw [results_cons]
    -- a line that does not decode ends the results before the partial line
    rcases hline : fromSlice parse line with err | msgs
    · simp [hline]
    · simpa [hline] using ih

/-- A line that does not decode is reported. -/
theorem exists_error_mem_results {tail : List UInt8} {lines : List (List UInt8)}
    (h : ∃ line ∈ lines, ∃ err, fromSlice parse line = .error err) :
    ∃ err, .ok (some (.error err)) ∈ results (E := E) parse .eof tail lines := by
  induction lines with
  | nil => simp at h
  | cons line lines ih =>
    rcases hline : fromSlice parse line with err | msgs
    · exact ⟨.json err, by simp [results_cons, hline]⟩
    · have hrest : ∃ line ∈ lines, ∃ err, fromSlice parse line = .error err := by
        simpa [hline] using h
      obtain ⟨err, hmem⟩ := ih hrest
      exact ⟨err, by simp [results_cons, hline, hmem]⟩

/-- A padded list has no other elements than the list and the last one. -/
theorem mem_padded {ρ : Type} {last r : ρ} {out : List ρ} {n : ℕ} (h : r ∈ padded last out n) :
    r ∈ out ∨ r = last := by
  obtain ⟨i, -, rfl⟩ := List.mem_map.mp h
  rw [List.getD_eq_getElem?_getD]
  rcases hi : out[i]? with _ | r
  · exact .inr rfl
  · exact .inl (List.mem_of_getElem? hi)

theorem padded_length {ρ : Type} (last : ρ) (out : List ρ) : padded last out out.length = out := by
  apply List.ext_getElem
  · simp [padded]
  · intro i h₁ h₂
    simp [padded, List.getD_eq_getElem?_getD, h₂]

/-- Results in the order of the output, any number of them, end cleanly exactly when no line is
cut. -/
theorem endsCleanly_iff_notCut {bytes : List UInt8} {Trace : List (NextResult E) → Prop}
    (hTrace : ∀ rs, Trace rs ↔ ∃ n, rs = padded (.ok none) (delivered parse .eof bytes) n) :
    EndsCleanly parse (partialLine newline bytes) Trace ↔ NotCut parse bytes := by
  have hall : Trace (delivered parse .eof bytes) :=
    (hTrace _).mpr ⟨_, (padded_length _ _).symm⟩
  constructor
  · intro h
    by_cases htail : partialLine newline bytes = []
    · exact .inl htail
    · have hno := h.noPanic _ hall {}
      rw [delivered, panic_mem_results_iff htail, not_not] at hno
      exact .inr hno
  · intro h
    refine { noPanic := ?_, tailReported := ?_, ends := ?_ }
    · intro rs hrs panic hmem
      obtain ⟨n, rfl⟩ := (hTrace rs).mp hrs
      rcases mem_padded hmem with hmem | hlast
      -- without a partial line the results are items
      · by_cases htail : partialLine newline bytes = []
        · rw [delivered, results_eq_map_framed parse fun _ => htail] at hmem
          simp at hmem
        · exact (panic_mem_results_iff htail panic _).mp hmem (h.resolve_left htail)
      · cases hlast
    · intro htail
      exact ⟨_, hall, .inl (exists_error_mem_results (h.resolve_left htail))⟩
    -- behind the output there is only the end of the stream
    · refine ⟨(delivered (E := E) parse .eof bytes).length, fun rs hrs i hi r hr => ?_⟩
      obtain ⟨n, rfl⟩ := (hTrace rs).mp hrs
      simp only [padded, List.getElem?_map, List.getD_eq_getElem?_getD,
        Option.map_eq_some_iff] at hr
      obtain ⟨j, hj, rfl⟩ := hr
      obtain ⟨-, rfl⟩ := List.getElem?_eq_some_iff.mp hj
      rw [List.getElem_range]
      rw [List.getElem?_eq_none hi]
      rfl

/-- The blocking streamer gives the delivered results, and then the end over and over. -/
theorem nextTrace_iff (reader : BufReader UInt8 E) (rs : List (NextResult E)) :
    NextTrace parse reader rs ↔
      ∃ n, rs = padded (.ok none) (delivered parse reader.ending reader.content) n := by
  simp only [NextTrace, firstResults_next]

/-- Polling often enough gives any number of ready results. -/
theorem exists_readyResults_length (n : ℕ) {s : ReadStreamer (AsyncBufReader UInt8 E) E}
    (hmid : s.MidLine) : ∃ acts, (readyResults (polls parse acts s).1).length = n := by
  induction n generalizing s with
  | zero => exact ⟨[], rfl⟩
  | succ n ih =>
    -- the inner induction is on the pending results that the reader has still to give
    induction hk : s.pendings using Nat.strongRecOn generalizing s with
    | ind k ihk =>
      have hpoll : PollEmits parse s _ _ := pollNext_pollEmits hmid
      rcases hout : pollNext parse s with ⟨p, s₁⟩
      rw [hout] at hpoll
      cases hpoll with
      | ready hmid₁ _ _ =>
        obtain ⟨acts, hacts⟩ := ih hmid₁
        exact ⟨.poll :: acts, by simp [polls, hout, hacts]⟩
      | pending hsuspends =>
        have hlt : s₁.pendings < k := by
          have hused : s.pendings = s₁.pendings + 1 := hsuspends.pendings_eq
          omega
        obtain ⟨acts, hacts⟩ := ihk s₁.pendings hlt hsuspends.midLine rfl
        exact ⟨.poll :: acts, by simp [polls, hout, hacts]⟩

/-- The asynchronous streamer gives the delivered results, and then the end over and over. -/
theorem pollTrace_iff (reader : AsyncBufReader UInt8 E) (rs : List (NextResult E)) :
    PollTrace parse reader rs ↔
      ∃ n, rs = padded (.ok none) (delivered parse reader.ending reader.content) n := by
  constructor
  · rintro ⟨acts, rfl⟩
    exact ⟨_, (polls_emit acts (midLine_new reader)).results⟩
  · rintro ⟨n, rfl⟩
    obtain ⟨acts, rfl⟩ : ∃ acts, (readyResults (polls parse acts (new reader)).1).length = n :=
      exists_readyResults_length n (midLine_new reader)
    exact ⟨acts, (polls_emit acts (midLine_new reader)).results.symm⟩

/-- On a connection that ends at the end of file, the blocking iterator and the asynchronous
streamer end cleanly exactly when no line is cut. -/
theorem endsCleanly_iff (chunks : List (Chunk UInt8)) (script : List (Fill UInt8)) :
    (EndsCleanly parse (partialLine newline (closing E chunks).content)
        (NextTrace parse (closing E chunks)) ↔ NotCut parse (closing E chunks).content) ∧
      (EndsCleanly parse (partialLine newline (closingAsync E script).content)
        (PollTrace parse (closingAsync E script)) ↔
          NotCut parse (closingAsync E script).content) :=
  ⟨endsCleanly_iff_notCut (nextTrace_iff _), endsCleanly_iff_notCut (pollTrace_iff _)⟩

/-- A parser for the two documents `[]` and `{}`. -/
def parseBrackets : List UInt8 → Except Serde.Error Value
  | [91, 93] => .ok (.array [])
  | [123, 125] => .ok (.object [])
  | _ => .error (.custom "expected value")

/-- The connection is cut after the first byte of a message: both streamers panic. -/
theorem not_endsCleanly_cut :
    ¬EndsCleanly parseBrackets [123] (NextTrace parseBrackets (closing Unit [⟨123, []⟩])) ∧
      ¬EndsCleanly parseBrackets [123]
        (PollTrace parseBrackets (closingAsync Unit [.ready ⟨123, []⟩, .pending])) := by
  have hcut : ¬NotCut parseBrackets [123] := by
    rintro (htail | ⟨line, hline, -⟩)
    · cases htail
    · cases hline
  exact ⟨fun h => hcut ((endsCleanly_iff_notCut (nextTrace_iff _)).mp h),
    fun h => hcut ((endsCleanly_iff_notCut (pollTrace_iff _)).mp h)⟩

end ElectrumStreamingClient
