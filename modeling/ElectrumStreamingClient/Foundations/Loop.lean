import Mathlib.Data.List.Basic
import Mathlib.Data.Nat.Notation

/-!
# Loops

A `loop` whose body either breaks with a result or goes round again, run to its end. Termination
is a measure that every further round decreases. `runLoop_rule` is the rule for reasoning about
such a loop: a property of the result that holds when the body breaks, and that one further round
transports, holds of the whole loop.

The last section is about an iterator as the list of results it still has to give, after which it
repeats one last result for ever.
-/

/-- The outcome of one round of a loop body. -/
inductive LoopStep (ρ σ : Type*) where
  /-- Leave the loop with a result. -/
  | stop (result : ρ) (state : σ)
  /-- Go round again. -/
  | again (state : σ)

variable {ρ σ : Type*}

/-- The state after a round. -/
def LoopStep.state : LoopStep ρ σ → σ
  | .stop _ s => s
  | .again s => s

/-- Run a loop to its end. -/
def runLoop (body : σ → LoopStep ρ σ) (size : σ → ℕ)
    (hdec : ∀ s s', body s = .again s' → size s' < size s) (s : σ) : ρ × σ :=
  match _h : body s with
  | .stop r s' => (r, s')
  | .again s' => runLoop body size hdec s'
termination_by size s
decreasing_by exact hdec s s' _h

variable (body : σ → LoopStep ρ σ) (size : σ → ℕ)
  (hdec : ∀ s s', body s = .again s' → size s' < size s)

/-- A loop whose body stops has its result. -/
theorem runLoop_of_stop {s s' : σ} {r : ρ} (h : body s = .stop r s') :
    runLoop body size hdec s = (r, s') := by
  rw [runLoop]
  split
  next r₁ s₁ h₁ =>
    rw [h] at h₁
    cases h₁
    rfl
  next s₁ h₁ =>
    rw [h] at h₁
    cases h₁

/-- A loop whose body asks for another round goes on from there. -/
theorem runLoop_of_again {s s' : σ} (h : body s = .again s') :
    runLoop body size hdec s = runLoop body size hdec s' := by
  rw [runLoop]
  split
  next r₁ s₁ h₁ =>
    rw [h] at h₁
    cases h₁
  next s₁ h₁ =>
    rw [h] at h₁
    cases h₁
    rfl

/-- The loop rule. Under an invariant `I`, a relation `Q` between the first state, the result and
the last state holds of the loop if it holds of a round that breaks, and if it holds of the loop
from `s` whenever it holds of the loop from the state one round later. -/
theorem runLoop_rule {I : σ → Prop} {Q : σ → ρ → σ → Prop}
    (hstop : ∀ s r s', I s → body s = .stop r s' → Q s r s')
    (hagain : ∀ s s', I s → body s = .again s' → I s' ∧ ∀ r t, Q s' r t → Q s r t)
    {s : σ} (hI : I s) :
    Q s (runLoop body size hdec s).1 (runLoop body size hdec s).2 := by
  -- on the measure: a further round starts from a smaller state
  induction hn : size s using Nat.strongRecOn generalizing s with
  | ind n ih =>
    cases hbody : body s with
    | stop r s' =>
      rw [runLoop_of_stop body size hdec hbody]
      exact hstop s r s' hI hbody
    | again s' =>
      obtain ⟨hI', hQ⟩ := hagain s s' hI hbody
      rw [runLoop_of_again body size hdec hbody]
      exact hQ _ _ (ih (size s') (hn ▸ hdec s s' hbody) hI' rfl)

/-! ## Iterators -/

/-- The results of the first `n` calls of an iterator, and the state after them. -/
def firstResults (next : σ → ρ × σ) : ℕ → σ → List ρ × σ
  | 0, s => ([], s)
  | n + 1, s =>
    let (r, s) := next s
    let (rs, s) := firstResults next n s
    (r :: rs, s)

/-- An iterator with `out` still to give has given `r` and has `out'` left. At the end of its
output it gives `last`. -/
structure Emits (last : ρ) (out : List ρ) (r : ρ) (out' : List ρ) : Prop where
  result : r = out.headD last
  rest : out' = out.tail

/-- The first `n` results of an output that ends with `last` for ever. -/
def padded (last : ρ) (out : List ρ) (n : ℕ) : List ρ :=
  (List.range n).map fun i => out.getD i last

/-- The first of the padded results is the first one, or the last result again. -/
theorem padded_succ (last : ρ) (out : List ρ) (n : ℕ) :
    padded last out (n + 1) = out.headD last :: padded last out.tail n := by
  rw [padded, List.range_succ_eq_map, List.map_cons, List.map_map, padded]
  cases out <;> rfl

/-- One more result is the next one, or the last result again. -/
theorem padded_concat (last : ρ) (out : List ρ) (n : ℕ) :
    padded last out (n + 1) = padded last out n ++ [(out.drop n).headD last] := by
  rw [padded, List.range_succ, List.map_append, padded]
  simp [List.headD_eq_head?_getD, List.getD_eq_getElem?_getD]

/-- The results are the first of the output, and behind all of them the last result. -/
theorem padded_eq_take_append (last : ρ) (out : List ρ) (n : ℕ) :
    padded last out n = out.take n ++ List.replicate (n - out.length) last := by
  induction n generalizing out with
  | zero => simp [padded]
  | succ n ih =>
    rw [padded_succ, ih]
    rcases out with _ | ⟨r, out⟩
    · simp [List.replicate_succ]
    · rw [List.headD_cons, List.tail_cons, List.take_succ_cons, List.cons_append, List.length_cons,
        Nat.succ_sub_succ]

/-- An iterator each of whose calls emits the head of its output gives that output. -/
theorem firstResults_eq_padded {next : σ → ρ × σ} {I : σ → Prop} {out : σ → List ρ} {last : ρ}
    (hstep : ∀ s, I s → I (next s).2 ∧ Emits last (out s) (next s).1 (out (next s).2))
    (n : ℕ) {s : σ} (hI : I s) : (firstResults next n s).1 = padded last (out s) n := by
  induction n generalizing s with
  | zero => rfl
  | succ n ih =>
    obtain ⟨hI', hemits⟩ := hstep s hI
    rw [padded_succ, ← hemits.result, ← hemits.rest, ← ih hI']
    rfl

/-- Past its output, an iterator repeats the last result. -/
example : padded none [some 1, some 2] 4 = [some 1, some 2, none, none] := by decide
