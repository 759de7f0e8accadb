import Mathlib.Data.Nat.Init
import Mathlib.Logic.Relation
import Mathlib.Order.Basic
import Mathlib.Order.Nat

/-!
# Labelled transition systems

A transition system is its labelled step relation. `Reachable.invariant` is the rule for
properties of all reachable states, and `Reachable.simulated` carries reachability along a function
that maps steps to steps. `Run.eventually` is the rule for progress: along a fair run a goal is
reached if a measure shrinks with every move of the part of the state that is responsible for it.
-/

namespace TransitionSystem

variable {σ τ Act : Type*}

/-- `s` is reached from `s₀` by steps with any labels. -/
def Reachable (Step : σ → Act → σ → Prop) (s₀ s : σ) : Prop :=
  Relation.ReflTransGen (fun s s' => ∃ a, Step s a s') s₀ s

variable {Step : σ → Act → σ → Prop} {s₀ s s' : σ}

@[refl] theorem Reachable.refl (Step : σ → Act → σ → Prop) (s : σ) : Reachable Step s s :=
  Relation.ReflTransGen.refl

/-- One more step reaches the next state. -/
theorem Reachable.tail {a : Act} (h : Reachable Step s₀ s) (hstep : Step s a s') :
    Reachable Step s₀ s' :=
  Relation.ReflTransGen.tail h ⟨a, hstep⟩

/-- A property that holds at first and that every step keeps holds of every reachable state. -/
theorem Reachable.invariant {I : σ → Prop} (h : Reachable Step s₀ s) (hinit : I s₀)
    (hstep : ∀ s a s', I s → Step s a s' → I s') : I s := by
  induction h with
  | refl => exact hinit
  | tail _ hlast ih =>
    obtain ⟨a, ha⟩ := hlast
    exact hstep _ a _ ih ha

/-- A function that maps the steps of one system, from the states of an invariant, to steps of
another maps reachable states to reachable states. -/
theorem Reachable.simulated {Act' : Type*} {Step' : τ → Act' → τ → Prop} {I : σ → Prop}
    {f : σ → τ} (h : Reachable Step s₀ s) (hinit : I s₀)
    (hstep : ∀ s a s', I s → Step s a s' → I s' ∧ ∃ a', Step' (f s) a' (f s')) :
    Reachable Step' (f s₀) (f s) := by
  have hboth : I s ∧ Reachable Step' (f s₀) (f s) := by
    refine h.invariant (I := fun s => I s ∧ Reachable Step' (f s₀) (f s))
      ⟨hinit, Reachable.refl _ _⟩ ?_
    intro s a s' ⟨hI, hreach⟩ ha
    obtain ⟨hI', a', ha'⟩ := hstep s a s' hI ha
    exact ⟨hI', hreach.tail ha'⟩
  exact hboth.2

/-! ## Runs without an end -/

/-- An infinite run. -/
structure Run (Step : σ → Act → σ → Prop) (s₀ : σ) where
  state : ℕ → σ
  act : ℕ → Act
  init : state 0 = s₀
  step : ∀ n, Step (state n) (act n) (state (n + 1))

namespace Run

/-- Every state of a run is reachable. -/
theorem reachable (r : Run Step s₀) (n : ℕ) : Reachable Step s₀ (r.state n) := by
  induction n with
  | zero =>
    rw [r.init]
  | succ n ih => exact ih.tail (r.step n)

/-- What every step keeps holds from the first state on in which it holds. -/
theorem stable (r : Run Step s₀) {I : σ → Prop} (hstep : ∀ s a s', I s → Step s a s' → I s')
    {n₀ : ℕ} (hI : I (r.state n₀)) : ∀ n ≥ n₀, I (r.state n) := by
  intro n hn
  induction n, hn using Nat.le_induction with
  | base => exact hI
  | succ n _ ih => exact hstep _ _ _ ih (r.step n)

/-- If from some point on a step with the given label could always move a part of the state, the
part moves in the end. -/
def FairTo (r : Run Step s₀) (a : Act) (part : σ → τ) : Prop :=
  ∀ n, (∀ m ≥ n, ∃ s, Step (r.state m) a s ∧ part s ≠ part (r.state m)) →
    ∃ m ≥ n, part (r.state (m + 1)) ≠ part (r.state m)

/-- The rule for progress. From some point on, a step moves the part and makes the measure smaller,
or does neither; and until the goal is reached the part can move. -/
theorem eventually {r : Run Step s₀} {a : Act} {part : σ → τ} (hfair : r.FairTo a part)
    (goal : σ → Prop) (size : σ → ℕ) {n₀ : ℕ}
    (hstep : ∀ n ≥ n₀, size (r.state (n + 1)) < size (r.state n) ∨
      part (r.state (n + 1)) = part (r.state n) ∧ size (r.state (n + 1)) = size (r.state n))
    (hmove : ∀ n ≥ n₀, goal (r.state n) ∨
      ∃ s, Step (r.state n) a s ∧ part s ≠ part (r.state n)) :
    ∃ n ≥ n₀, goal (r.state n) := by
  have hle {n m : ℕ} (hn : n₀ ≤ n) (hm : n ≤ m) : size (r.state m) ≤ size (r.state n) := by
    induction m, hm using Nat.le_induction with
    | base => exact le_refl _
    | succ m hm ih =>
      rcases hstep m (hn.trans hm) with hlt | ⟨-, heq⟩
      · exact hlt.le.trans ih
      · exact heq.le.trans ih
  suffices hgoal : ∀ k, ∀ n ≥ n₀, size (r.state n) = k → ∃ n ≥ n₀, goal (r.state n) from
    hgoal _ n₀ (le_refl n₀) rfl
  intro k
  induction k using Nat.strongRecOn with
  | ind k ih =>
    intro n hn hk
    by_cases hreached : ∃ m ≥ n, goal (r.state m)
    · obtain ⟨m, hm, hgoal⟩ := hreached
      exact ⟨m, hn.trans hm, hgoal⟩
    -- otherwise the part can move all the time
    have hcan : ∀ m ≥ n, ∃ s, Step (r.state m) a s ∧ part s ≠ part (r.state m) := by
      intro m hm
      exact (hmove m (hn.trans hm)).resolve_left fun hgoal => hreached ⟨m, hm, hgoal⟩
    obtain ⟨m, hm, hmoved⟩ := hfair n hcan
    rcases hstep m (hn.trans hm) with hlt | ⟨hsame, -⟩
    -- a move starts again with a smaller measure
    · exact ih _ (hk ▸ hlt.trans_le (hle hn hm)) (m + 1) ((hn.trans hm).trans (Nat.le_succ m)) rfl
    · exact absurd hsame hmoved

/-- A reachable state that a step leaves as it is lies at the end of a run. -/
theorem exists_of_reachable {a : Act} (h : Reachable Step s₀ s) (hloop : Step s a s) :
    ∃ (r : Run Step s₀) (n₀ : ℕ), ∀ n ≥ n₀, r.state n = s ∧ r.act n = a := by
  induction h using Relation.ReflTransGen.head_induction_on with
  | refl => exact ⟨⟨fun _ => s, fun _ => a, rfl, fun _ => hloop⟩, 0, fun _ _ => ⟨rfl, rfl⟩⟩
  | @head s₁ s₂ hfirst _ ih =>
    obtain ⟨b, hfirst⟩ := hfirst
    obtain ⟨r, n₀, hend⟩ := ih
    refine ⟨⟨fun n => n.casesOn s₁ r.state, fun n => n.casesOn b r.act, rfl, ?_⟩, n₀ + 1, ?_⟩
    · rintro (_ | n)
      · have hinit : r.state 0 = s₂ := r.init
        rw [← hinit] at hfirst
        exact hfirst
      · exact r.step n
    · rintro (_ | n) hn
      · exact absurd hn (Nat.not_succ_le_zero n₀)
      · exact hend n (Nat.le_of_succ_le_succ hn)

/-- A run is fair to a part of the state that comes to a value from which no step moves it. -/
theorem fairTo_of_stuck {r : Run Step s₀} {a : Act} {part : σ → τ} {t : τ} {n₀ : ℕ}
    (hend : part (r.state n₀) = t) (hstuck : ∀ s a s', part s = t → Step s a s' → part s' = t) :
    r.FairTo a part := by
  intro n hcan
  -- it cannot move any more when it has come to its last value
  have hlast : part (r.state (max n n₀)) = t :=
    r.stable (I := fun s => part s = t) hstuck hend _ (le_max_right n n₀)
  obtain ⟨s', hs', hmoves⟩ := hcan (max n n₀) (le_max_left n n₀)
  exact absurd ((hstuck _ _ _ hlast hs').trans hlast.symm) hmoves

end Run

end TransitionSystem
