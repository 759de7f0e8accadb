import Mathlib.Data.List.TakeWhile
import Mathlib.Data.Nat.Notation

/-!
# Delimited reading

Buffered readers and `read_until`, over any alphabet and delimiter. A reader hands over its
content in non-empty chunks, a polled one with pending results in between, and ends at an end of
file or with an error. What it will still deliver is its `content`; `ReadsUntil` says what one
`read_until` does to it, whatever the chunks.

The second half splits a content into its complete lines and the partial line after the last
delimiter.
-/

namespace LineFraming

variable {α ε : Type*}

/-- A non-empty run of symbols. -/
structure Chunk (α : Type*) where
  head : α
  tail : List α

/-- The symbols of a chunk. -/
def Chunk.toList (c : Chunk α) : List α := c.head :: c.tail

/-- How a reader ends. -/
inductive Ending (ε : Type*) where
  | eof
  | failed (err : ε)

/-- What a read at the end of a reader reports: success at the end of file, else the error. -/
def Ending.result : Ending ε → Except ε Unit
  | .eof => .ok ()
  | .failed err => .error err

/-- A blocking buffered reader, as the chunks it will hand over. -/
structure BufReader (α ε : Type*) where
  chunks : List (Chunk α)
  ending : Ending ε

/-- The outcome of polling. -/
inductive Poll (β : Type*) where
  | pending
  | ready (b : β)

/-- One result of polling an asynchronous reader for its buffer. -/
inductive Fill (α : Type*) where
  | pending
  | ready (c : Chunk α)

/-- An asynchronous buffered reader, as the poll results it will give before its ending. -/
structure AsyncBufReader (α ε : Type*) where
  script : List (Fill α)
  ending : Ending ε

/-- The symbols a blocking reader has still to deliver. -/
def BufReader.content (r : BufReader α ε) : List α :=
  r.chunks.flatMap Chunk.toList

/-- The symbols handed over by one poll result. -/
def Fill.symbols : Fill α → List α
  | .pending => []
  | .ready c => c.toList

/-- The symbols an asynchronous reader has still to deliver. -/
def AsyncBufReader.content (r : AsyncBufReader α ε) : List α :=
  r.script.flatMap Fill.symbols

/-- The poll gave no buffer. -/
def Fill.isPending : Fill α → Bool
  | .pending => true
  | .ready _ => false

/-- How many pending results an asynchronous reader has still to give. -/
def AsyncBufReader.pendings (r : AsyncBufReader α ε) : ℕ :=
  r.script.countP Fill.isPending

variable [DecidableEq α] (delim : α)

/-- Cut a list after the first delimiter, if there is one. -/
def cutAfter (l : List α) : Option (List α × List α) :=
  match l.dropWhile (· ≠ delim) with
  | [] => none
  | d :: rest => some (l.takeWhile (· ≠ delim) ++ [d], rest)

/-- Put the unconsumed rest of a chunk back. -/
def unconsumed : List α → Option (Chunk α)
  | [] => none
  | a :: as => some ⟨a, as⟩

/-- The loop of `read_until` over the chunks of a blocking reader: append to `buf` up to the
first delimiter, the end of file or an error. -/
def readUntilChunks (ending : Ending ε) :
    List (Chunk α) → List α → Except ε Unit × List α × List (Chunk α)
  | [], buf => (ending.result, buf, [])
  | c :: cs, buf =>
    match cutAfter delim c.toList with
    | some (line, rest) => (.ok (), buf ++ line, (unconsumed rest).toList ++ cs)
    | none => readUntilChunks ending cs (buf ++ c.toList)

/-- `std::io::BufRead::read_until`. -/
def BufReader.readUntil (r : BufReader α ε) (buf : List α) :
    Except ε Unit × List α × BufReader α ε :=
  let (res, buf, chunks) := readUntilChunks delim r.ending r.chunks buf
  (res, buf, { r with chunks })

/-- The loop of the polled `read_until`: as the blocking one, but a pending reader suspends it. -/
def pollReadUntilScript (ending : Ending ε) :
    List (Fill α) → List α → Poll (Except ε Unit) × List α × List (Fill α)
  | [], buf => (.ready ending.result, buf, [])
  | .pending :: fs, buf => (.pending, buf, fs)
  | .ready c :: fs, buf =>
    match cutAfter delim c.toList with
    | some (line, rest) =>
      (.ready (.ok ()), buf ++ line, (unconsumed rest).toList.map Fill.ready ++ fs)
    | none => pollReadUntilScript ending fs (buf ++ c.toList)

/-- One poll of `futures::AsyncBufReadExt::read_until`. -/
def AsyncBufReader.pollReadUntil (r : AsyncBufReader α ε) (buf : List α) :
    Poll (Except ε Unit) × List α × AsyncBufReader α ε :=
  let (res, buf, script) := pollReadUntilScript delim r.ending r.script buf
  (res, buf, { r with script })

/-! ## What `read_until` does to the content -/

/-- A completed `read_until` on a reader with the given ending and content, into `buf`: its
outcome, the buffer after it and the content left. -/
inductive ReadsUntil (ending : Ending ε) (buf : List α) :
    List α → Except ε Unit → List α → List α → Prop
  /-- It stops right after the delimiter. -/
  | line {line rest : List α} (hline : delim ∉ line) :
      ReadsUntil ending buf (line ++ delim :: rest) (.ok ()) (buf ++ line ++ [delim]) rest
  /-- Without a delimiter, it takes all there is and stops at the end of the reader. -/
  | ended {content : List α} (hcontent : delim ∉ content) :
      ReadsUntil ending buf content ending.result (buf ++ content) []

variable {delim}

/-- A list that cannot be cut has no delimiter. -/
theorem cutAfter_eq_none {l : List α} (h : cutAfter delim l = none) : delim ∉ l := by
  unfold cutAfter at h
  split at h
  next hdrop =>
    -- nothing is left in front of the delimiter, so every symbol differs from it
    intro hmem
    have hall := List.dropWhile_eq_nil_iff.mp hdrop delim hmem
    simp at hall
  next => cases h

/-- A list is cut behind its first delimiter. -/
theorem cutAfter_eq_some {l first rest : List α} (h : cutAfter delim l = some (first, rest)) :
    ∃ line, delim ∉ line ∧ first = line ++ [delim] ∧ l = line ++ delim :: rest := by
  unfold cutAfter at h
  split at h
  next => cases h
  next d rest' hdrop =>
    cases h
    -- `dropWhile` stops at the first symbol that is the delimiter
    have hd : d = delim := by
      have hhead := List.head?_dropWhile_not (· ≠ delim) l
      rw [hdrop] at hhead
      simpa using hhead
    subst hd
    refine ⟨l.takeWhile (· ≠ d), ?_, rfl, ?_⟩
    · intro hmem
      have hne := List.mem_takeWhile_imp hmem
      simp at hne
    · rw [← hdrop, List.takeWhile_append_dropWhile]

omit [DecidableEq α] in
/-- Reading on after symbols without a delimiter is reading all of them. -/
theorem ReadsUntil.prepend {ending : Ending ε} {buf before content buf' content' : List α}
    {res : Except ε Unit} (hbefore : delim ∉ before)
    (h : ReadsUntil delim ending (buf ++ before) content res buf' content') :
    ReadsUntil delim ending buf (before ++ content) res buf' content' := by
  cases h with
  | line hline =>
    rename_i line
    have hnotin : delim ∉ before ++ line := by simp [hbefore, hline]
    rw [← List.append_assoc, List.append_assoc buf]
    exact ReadsUntil.line hnotin
  | ended hcontent =>
    rw [List.append_assoc]
    exact ReadsUntil.ended (by simp [hbefore, hcontent])

omit [DecidableEq α] in
/-- At the end of the content, the result is that of the ending. -/
theorem ReadsUntil.nil (ending : Ending ε) (buf : List α) :
    ReadsUntil delim ending buf [] ending.result buf [] := by
  have h : ReadsUntil delim ending buf [] ending.result (buf ++ []) [] :=
    ReadsUntil.ended List.not_mem_nil
  rwa [List.append_nil] at h

omit [DecidableEq α] in
/-- The rest of a chunk is not lost. -/
theorem flatMap_unconsumed (rest : List α) :
    (unconsumed rest).toList.flatMap Chunk.toList = rest := by
  cases rest <;> simp [unconsumed, Chunk.toList]

omit [DecidableEq α] in
/-- What is read moves from the content to the buffer. -/
theorem ReadsUntil.conserves {ending : Ending ε} {buf content buf' content' : List α}
    {res : Except ε Unit} (h : ReadsUntil delim ending buf content res buf' content') :
    buf' ++ content' = buf ++ content := by
  cases h with
  | line hline => simp
  | ended hcontent => simp

/-- Whatever the chunks, the blocking `read_until` reads the content. -/
theorem BufReader.readUntil_spec (delim : α) (r : BufReader α ε) (buf : List α) :
    ReadsUntil delim r.ending buf r.content (r.readUntil delim buf).1
        (r.readUntil delim buf).2.1 (r.readUntil delim buf).2.2.content ∧
      (r.readUntil delim buf).2.2.ending = r.ending := by
  refine ⟨?_, rfl⟩
  obtain ⟨chunks, ending⟩ := r
  simp only [BufReader.readUntil, BufReader.content]
  -- chunks without a delimiter move to the buffer; the first one with a delimiter ends the read
  induction chunks generalizing buf with
  | nil => exact ReadsUntil.nil ending buf
  | cons c cs ih =>
    rw [List.flatMap_cons]
    cases hcut : cutAfter delim c.toList with
    | none =>
      simp only [readUntilChunks, hcut]
      exact (ih (buf ++ c.toList)).prepend (cutAfter_eq_none hcut)
    | some cut =>
      obtain ⟨first, rest⟩ := cut
      obtain ⟨line, hline, rfl, hchunk⟩ := cutAfter_eq_some hcut
      simp only [readUntilChunks, hcut, List.flatMap_append, flatMap_unconsumed]
      rw [hchunk, List.append_assoc, List.cons_append, ← List.append_assoc buf]
      exact ReadsUntil.line hline

/-- A pending poll of `read_until`: it appended what it consumed to the buffer, found no delimiter
in it, and used up one pending result of the reader. -/
structure Suspended (delim : α) (r : AsyncBufReader α ε) (buf buf' : List α)
    (r' : AsyncBufReader α ε) : Prop where
  consumed : ∃ consumed, delim ∉ consumed ∧ r.content = consumed ++ r'.content ∧
    buf' = buf ++ consumed
  pendings : r.pendings = r'.pendings + 1
  ending : r'.ending = r.ending

omit [DecidableEq α] in
/-- Putting the rest of a chunk back in front of a script adds its symbols and no pending result. -/
theorem script_unconsumed (rest : List α) (fs : List (Fill α)) :
    ((unconsumed rest).toList.map Fill.ready ++ fs).flatMap Fill.symbols =
        rest ++ fs.flatMap Fill.symbols ∧
      ((unconsumed rest).toList.map Fill.ready ++ fs).countP Fill.isPending =
        fs.countP Fill.isPending := by
  cases rest <;> simp [unconsumed, Fill.symbols, Chunk.toList, Fill.isPending]

/-- Whatever the script, a polled `read_until` that completes reads the content. -/
theorem AsyncBufReader.pollReadUntil_ready {r r' : AsyncBufReader α ε} {buf buf' : List α}
    {res : Except ε Unit} (h : r.pollReadUntil delim buf = (.ready res, buf', r')) :
    ReadsUntil delim r.ending buf r.content res buf' r'.content ∧
      r'.pendings = r.pendings ∧ r'.ending = r.ending := by
  obtain ⟨script, ending⟩ := r
  simp only [AsyncBufReader.pollReadUntil, Prod.mk.injEq] at h
  obtain ⟨hres, rfl, rfl⟩ := h
  simp only [AsyncBufReader.content, AsyncBufReader.pendings, and_true]
  -- as for the chunks of a blocking reader; a pending result contradicts the completion
  induction script generalizing buf with
  | nil =>
    cases hres
    exact ⟨ReadsUntil.nil ending buf, rfl⟩
  | cons f fs ih =>
    cases f with
    | pending => cases hres
    | ready c =>
      rw [List.flatMap_cons, Fill.symbols]
      cases hcut : cutAfter delim c.toList with
      | none =>
        simp only [pollReadUntilScript, hcut] at hres ⊢
        obtain ⟨hreads, hpendings⟩ := ih hres
        exact ⟨hreads.prepend (cutAfter_eq_none hcut), by simpa [Fill.isPending] using hpendings⟩
      | some cut =>
        obtain ⟨first, rest⟩ := cut
        obtain ⟨line, hline, rfl, hchunk⟩ := cutAfter_eq_some hcut
        simp only [pollReadUntilScript, hcut, Poll.ready.injEq, script_unconsumed] at hres ⊢
        refine ⟨?_, by simp [Fill.isPending]⟩
        rw [hchunk, List.append_assoc, List.cons_append, ← List.append_assoc buf, ← hres]
        exact ReadsUntil.line hline

/-- A pending read has put what it consumed into the buffer, and used up one pending fill. -/
theorem pollReadUntilScript_pending {ending : Ending ε} {fs : List (Fill α)} {buf : List α}
    (h : (pollReadUntilScript delim ending fs buf).1 = .pending) :
    (∃ consumed, delim ∉ consumed ∧
        fs.flatMap Fill.symbols =
          consumed ++ (pollReadUntilScript delim ending fs buf).2.2.flatMap Fill.symbols ∧
        (pollReadUntilScript delim ending fs buf).2.1 = buf ++ consumed) ∧
      fs.countP Fill.isPending =
        (pollReadUntilScript delim ending fs buf).2.2.countP Fill.isPending + 1 := by
  induction fs generalizing buf with
  | nil => cases h
  | cons f fs ih =>
    cases f with
    | pending =>
      -- the poll stops here, having consumed nothing of the rest
      refine ⟨⟨[], List.not_mem_nil, rfl, (List.append_nil buf).symm⟩, ?_⟩
      rw [List.countP_cons_of_pos rfl]
      rfl
    | ready c =>
      cases hcut : cutAfter delim c.toList with
      | some cut => simp [pollReadUntilScript, hcut] at h
      | none =>
        simp only [pollReadUntilScript, hcut] at h ⊢
        obtain ⟨⟨consumed, hconsumed, hcontent, hbuf⟩, hpendings⟩ := ih h
        have hchunk := cutAfter_eq_none hcut
        refine ⟨⟨c.toList ++ consumed, by simp [hchunk, hconsumed], ?_, ?_⟩, ?_⟩
        · rw [List.flatMap_cons, hcontent, List.append_assoc]
          rfl
        · rw [hbuf, List.append_assoc]
        · rw [List.countP_cons_of_neg (by simp [Fill.isPending]), hpendings]

/-- Whatever the script, a polled `read_until` that does not complete is suspended. -/
theorem AsyncBufReader.pollReadUntil_pending {r r' : AsyncBufReader α ε} {buf buf' : List α}
    (h : r.pollReadUntil delim buf = (.pending, buf', r')) : Suspended delim r buf buf' r' := by
  simp only [AsyncBufReader.pollReadUntil, Prod.mk.injEq] at h
  obtain ⟨hres, rfl, rfl⟩ := h
  obtain ⟨hconsumed, hpendings⟩ := pollReadUntilScript_pending hres
  exact ⟨hconsumed, hpendings, rfl⟩

/-! ## Lines -/

/-- The complete lines of a content, without their delimiters. -/
def completeLines (delim : α) (content : List α) : List (List α) :=
  (content.splitOn delim).dropLast

/-- What follows the last delimiter of a content. -/
def partialLine (delim : α) (content : List α) : List α :=
  (content.splitOn delim).getLast (List.splitOn_ne_nil delim content)

/-- Content without a delimiter is one piece. -/
theorem splitOn_of_notMem {content : List α} (h : delim ∉ content) :
    content.splitOn delim = [content] := by
  rw [List.splitOn_eq_splitOnP]
  apply List.splitOnP_eq_singleton
  intro a ha
  simpa using fun hdelim : a = delim => h (hdelim ▸ ha)

/-- Content is split at its first delimiter, and then the rest. -/
theorem splitOn_append_cons {line : List α} (rest : List α) (h : delim ∉ line) :
    (line ++ delim :: rest).splitOn delim = line :: rest.splitOn delim := by
  rw [List.splitOn_eq_splitOnP, List.splitOn_eq_splitOnP]
  refine List.splitOnP_append_cons_of_forall_mem (fun a ha => ?_) delim (by simp) rest
  simpa using fun hdelim : a = delim => h (hdelim ▸ ha)

/-- Without a delimiter there is only a partial line. -/
theorem completeLines_of_notMem {content : List α} (h : delim ∉ content) :
    completeLines delim content = [] := by
  rw [completeLines, splitOn_of_notMem h]
  rfl

/-- Content without a delimiter is a partial line. -/
theorem partialLine_of_notMem {content : List α} (h : delim ∉ content) :
    partialLine delim content = content := by
  simp only [partialLine, splitOn_of_notMem h, List.getLast_singleton]

/-- The first complete line ends at the first delimiter. -/
theorem completeLines_append_cons {line : List α} (rest : List α) (h : delim ∉ line) :
    completeLines delim (line ++ delim :: rest) = line :: completeLines delim rest := by
  rw [completeLines, splitOn_append_cons rest h,
    List.dropLast_cons_of_ne_nil (List.splitOn_ne_nil delim rest), completeLines]

/-- The partial line of content is that of what is behind its first line. -/
theorem partialLine_append_cons {line : List α} (rest : List α) (h : delim ∉ line) :
    partialLine delim (line ++ delim :: rest) = partialLine delim rest := by
  simp only [partialLine, splitOn_append_cons rest h,
    List.getLast_cons (List.splitOn_ne_nil delim rest)]

/-- The last line, here without its delimiter, is not complete. -/
example : completeLines 10 [91, 93, 10, 10, 123] = [[91, 93], []] ∧
    partialLine 10 [91, 93, 10, 10, 123] = [123] := by decide

end LineFraming
