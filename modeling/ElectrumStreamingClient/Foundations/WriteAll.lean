import ElectrumStreamingClient.Foundations.LineFraming

/-!
# Writing a buffer whole

`write_all` over a writer that takes a buffer in pieces, of whatever sizes. A blocking writer may be
interrupted in between, and a polled one may have to be waited for; both then go on with the rest
of the buffer. What was taken is always a prefix of the buffer, and the write succeeds exactly if
that is all of it (`writeAll_ok_iff`).

The future of a library is known by what one poll of it does (`WriteFuture`). Polled until it is
ready, it does what the blocking write does (`polls_eq`); the loop over the writer is such a future
(`looping`).
-/

namespace WriteAll

open LineFraming

variable {α ε : Type*}

/-- What one call of `write`, or one poll of it, does to a buffer that is not empty. -/
inductive Call (ε : Type*) where
  /-- Nothing yet: a blocking writer was interrupted, a polled one is pending. -/
  | later
  /-- It takes so many of the first symbols. -/
  | took (n : ℕ)
  | failed (err : ε)

/-- Why a buffer was not written whole. -/
inductive WriteError (ε : Type*) where
  /-- The writer took nothing. -/
  | writeZero
  | os (err : ε)

/-- What was taken of the buffer by one call, and the rest of it. -/
def attempt (buf : List α) : Call ε → Except (WriteError ε) (List α × List α)
  | .later => .ok ([], buf)
  | .took 0 => .error .writeZero
  | .took (n + 1) => .ok (buf.take (n + 1), buf.drop (n + 1))
  | .failed err => .error (.os err)

/-- A writer, as what its next calls do. Later calls take all of their buffer. -/
abbrev Script (ε : Type*) := List (Call ε)

/-- `std::io::Write::write_all`: the result, the symbols taken and the writer after it. -/
def writeAll : Script ε → List α → Except (WriteError ε) Unit × List α × Script ε
  | script, [] => (.ok (), [], script)
  | [], buf => (.ok (), buf, [])
  | call :: script, a :: buf =>
    match attempt (a :: buf) call with
    | .error err => (.error err, [], script)
    | .ok (taken, rest) =>
      let (res, taken', script) := writeAll script rest
      (res, taken ++ taken', script)

/-! ## Progress -/

/-- What is taken and what is left is the buffer. -/
theorem attempt_eq_ok {buf taken rest : List α} {call : Call ε}
    (h : attempt buf call = .ok (taken, rest)) : taken ++ rest = buf := by
  cases call with
  | later =>
    cases h
    rfl
  | took n =>
    cases n with
    | zero => cases h
    | succ n =>
      cases h
      exact List.take_append_drop _ _
  | failed err => cases h

/-- A write takes a prefix of the buffer, and all of it exactly if it succeeds. -/
theorem writeAll_spec (script : Script ε) (buf : List α) :
    (writeAll script buf).2.1 <+: buf ∧
      ((writeAll script buf).1 = .ok () ↔ (writeAll script buf).2.1 = buf) := by
  induction script generalizing buf with
  | nil => cases buf <;> simp [writeAll]
  | cons call script ih =>
    cases buf with
    | nil => simp [writeAll]
    | cons a buf =>
      cases hattempt : attempt (a :: buf) call with
      | error err => simp [writeAll, hattempt]
      | ok p =>
        obtain ⟨taken, rest⟩ := p
        -- the bytes taken by this call are in front of those taken by the later ones
        obtain ⟨hpre, hok⟩ := ih rest
        have hbuf := attempt_eq_ok hattempt
        simp only [writeAll, hattempt]
        refine ⟨?_, ?_⟩
        · rw [← hbuf]
          exact (List.prefix_append_right_inj taken).mpr hpre
        · rw [hok, ← hbuf, List.append_cancel_left_eq]

/-- A write succeeds exactly if all bytes are taken. -/
theorem writeAll_ok_iff {script : Script ε} {buf : List α} :
    (writeAll script buf).1 = .ok () ↔ (writeAll script buf).2.1 = buf :=
  (writeAll_spec script buf).2

/-- The bytes taken are the first ones. -/
theorem writeAll_isPrefix (script : Script ε) (buf : List α) :
    (writeAll script buf).2.1 <+: buf :=
  (writeAll_spec script buf).1

/-! ## Polling -/

/-- The call took nothing, and did not fail. -/
def Call.isLater : Call ε → Bool
  | .later => true
  | _ => false

/-- How often the writer has still to be waited for. -/
def pendings (script : Script ε) : ℕ :=
  script.countP Call.isLater

/-- What a poll does, next to a blocking write with the same script: its result, the symbols taken,
the rest of the buffer, which the future keeps, and the writer after it. -/
structure Polled (script : Script ε) (buf : List α) (res : Poll (Except (WriteError ε) Unit))
    (taken rest : List α) (script' : Script ε) : Prop where
  conserves : taken ++ rest = buf
  ready : ∀ r, res = .ready r → writeAll script buf = (r, taken, script')
  /-- A pending poll leaves the rest of the write to the next one. -/
  pending : res = .pending → pendings script = pendings script' + 1 ∧
    writeAll script buf =
      ((writeAll script' rest).1, taken ++ (writeAll script' rest).2.1,
        (writeAll script' rest).2.2)
  /-- It is not pending when nothing is left. -/
  unfinished : res = .pending → rest ≠ []

/-- A future of `write_all`: what one poll of it does with the rest of the buffer. -/
structure WriteFuture (α ε : Type*) where
  poll : Script ε → List α → Poll (Except (WriteError ε) Unit) × List α × List α × Script ε
  polled : ∀ script buf, Polled script buf (poll script buf).1 (poll script buf).2.1
    (poll script buf).2.2.1 (poll script buf).2.2.2

namespace WriteFuture

/-- Poll the future at most `n` times, until it is ready. -/
def polls (future : WriteFuture α ε) : ℕ → Script ε → List α →
    Poll (Except (WriteError ε) Unit) × List α × List α × Script ε
  | 0, script, buf => (.pending, [], buf, script)
  | n + 1, script, buf =>
    match future.poll script buf with
    | (.ready res, taken, rest, script) => (.ready res, taken, rest, script)
    | (.pending, taken, rest, script) =>
      let (res, taken', rest', script) := future.polls n script rest
      (res, taken ++ taken', rest', script)

variable (future : WriteFuture α ε)

/-- Polled often enough, the future does what the blocking write does. -/
theorem polls_eq {n : ℕ} {script : Script ε} {buf : List α} (hn : pendings script < n) :
    (future.polls n script buf).1 = .ready (writeAll script buf).1 ∧
      (future.polls n script buf).2.1 = (writeAll script buf).2.1 ∧
      (future.polls n script buf).2.2.2 = (writeAll script buf).2.2 := by
  induction n generalizing script buf with
  | zero => exact absurd hn (Nat.not_lt_zero _)
  | succ n ih =>
    have hpolled := future.polled script buf
    generalize hpoll : future.poll script buf = out at hpolled
    obtain ⟨_ | res, taken, rest, script'⟩ := out
    -- each pending poll uses one of the times the writer has to be waited for
    · obtain ⟨hcount, hwrite⟩ := hpolled.pending rfl
      have hlt : pendings script' < n := by
        dsimp only at hcount
        omega
      obtain ⟨hres, htaken, hscript⟩ := @ih script' rest hlt
      simp only [polls, hpoll, hwrite, hres, htaken, hscript, and_self]
    · simp only [polls, hpoll, hpolled.ready res rfl, and_self]

/-- However often it is polled, a prefix of the buffer is taken, and the future keeps the rest. -/
theorem polls_conserves (n : ℕ) (script : Script ε) (buf : List α) :
    (future.polls n script buf).2.1 ++ (future.polls n script buf).2.2.1 = buf := by
  induction n generalizing script buf with
  | zero => rfl
  | succ n ih =>
    have hpolled := future.polled script buf
    generalize hpoll : future.poll script buf = out at hpolled
    obtain ⟨_ | res, taken, rest, script'⟩ := out
    · simp only [polls, hpoll, List.append_assoc, ih]
      exact hpolled.conserves
    · simp only [polls, hpoll]
      exact hpolled.conserves

/-- While the future is pending, something is left of a buffer that was not empty. -/
theorem polls_rest_ne_nil {n : ℕ} {script : Script ε} {buf : List α} (hbuf : buf ≠ [])
    (h : (future.polls n script buf).1 = .pending) : (future.polls n script buf).2.2.1 ≠ [] := by
  induction n generalizing script buf with
  | zero => exact hbuf
  | succ n ih =>
    have hpolled := future.polled script buf
    generalize hpoll : future.poll script buf = out at hpolled
    obtain ⟨_ | res, taken, rest, script'⟩ := out
    · simp only [polls, hpoll] at h ⊢
      exact ih (hpolled.unfinished rfl) h
    · simp only [polls, hpoll] at h
      cases h

end WriteFuture

/-! ## The loop -/

/-- One poll of a loop that calls the writer until nothing is left of the buffer. -/
def pollWriteAll : Script ε → List α →
    Poll (Except (WriteError ε) Unit) × List α × List α × Script ε
  | script, [] => (.ready (.ok ()), [], [], script)
  | [], buf => (.ready (.ok ()), buf, [], [])
  | .later :: script, buf => (.pending, [], buf, script)
  | call :: script, a :: buf =>
    match attempt (a :: buf) call with
    | .error err => (.ready (.error err), [], a :: buf, script)
    | .ok (taken, rest) =>
      let (res, taken', rest', script) := pollWriteAll script rest
      (res, taken ++ taken', rest', script)

/-- The loop goes on where it was when it had to wait. -/
theorem polled_pollWriteAll (script : Script ε) (buf : List α) :
    Polled script buf (pollWriteAll script buf).1 (pollWriteAll script buf).2.1
      (pollWriteAll script buf).2.2.1 (pollWriteAll script buf).2.2.2 := by
  induction script generalizing buf with
  | nil => cases buf <;> constructor <;> simp [pollWriteAll, writeAll]
  | cons call script ih =>
    cases buf with
    | nil => constructor <;> simp [pollWriteAll, writeAll]
    | cons a buf =>
      cases call with
      | later =>
        -- a call that has to wait ends the poll, with this call used up
        constructor
        · rfl
        · intro r hr
          cases hr
        · intro _
          refine ⟨List.countP_cons_of_pos rfl, ?_⟩
          simp [writeAll, attempt, pollWriteAll]
        · exact fun _ => List.cons_ne_nil _ _
      | failed err => constructor <;> simp [pollWriteAll, writeAll, attempt]
      | took n =>
        cases hattempt : attempt (a :: buf) (.took n : Call ε) with
        | error err => constructor <;> simp [pollWriteAll, writeAll, hattempt]
        | ok p =>
          obtain ⟨taken, rest⟩ := p
          -- the loop goes on with the rest of the buffer and of the script
          obtain ⟨hconserves, hready, hpending, hunfinished⟩ := ih rest
          have hbuf := attempt_eq_ok hattempt
          have hlater : pendings (.took n :: script) = pendings script :=
            List.countP_cons_of_neg (by simp [Call.isLater])
          simp only [pollWriteAll, hattempt]
          constructor
          · rw [List.append_assoc, hconserves, hbuf]
          · intro r hr
            simp only [writeAll, hattempt, hready r hr]
          · intro hres
            obtain ⟨hcount, hwrite⟩ := hpending hres
            refine ⟨hlater.trans hcount, ?_⟩
            simp only [writeAll, hattempt, hwrite, List.append_assoc]
          · exact hunfinished

/-- The loop as a future. -/
def looping : WriteFuture α ε :=
  { poll := pollWriteAll, polled := polled_pollWriteAll }

end WriteAll
