import Mathlib.Data.List.Basic

/-!
# Keyed logs

A log of items that are added, removed by their key, and cleared all together. `remaining` is what
is left of the items added: those whose key is not removed later, and that are not cleared later.
The entries of a log can be followed one by one: `remaining_concat_added`,
`remaining_concat_removed` and `remaining_concat_cleared` say what the next one does.
-/

namespace KeyedLog

variable {κ α : Type*}

/-- An entry of a log. -/
inductive Entry (κ α : Type*) where
  | added (items : List α)
  | removed (key : κ)
  | cleared

variable [DecidableEq κ] (key : α → κ)

/-- The entry leaves an item alone that was added before it. -/
def spares (a : α) : Entry κ α → Bool
  | .added _ => true
  | .removed k => key a ≠ k
  | .cleared => false

/-- The items that all later entries spare, in the order in which they were added. -/
def remaining : List (Entry κ α) → List α
  | [] => []
  | .added items :: later => (items.filter fun a => later.all (spares key a)) ++ remaining later
  | .removed _ :: later => remaining later
  | .cleared :: later => remaining later

/-- One more entry leaves what it spares, and what it adds. -/
theorem remaining_concat (log : List (Entry κ α)) (e : Entry κ α) :
    remaining key (log ++ [e]) =
      ((remaining key log).filter fun a => spares key a e) ++ remaining key [e] := by
  induction log with
  | nil => rfl
  | cons first log ih =>
    -- only an addition looks at the later entries, of which there is one more
    cases first with
    | added items =>
      have hall (a : α) : (log ++ [e]).all (spares key a) =
          (spares key a e && log.all (spares key a)) := by
        rw [List.all_append, List.all_cons, List.all_nil, Bool.and_true, Bool.and_comm]
      rw [List.cons_append, remaining, remaining, ih, List.filter_append, List.filter_filter,
        List.append_assoc]
      simp only [hall]
    | removed k => exact ih
    | cleared => exact ih

/-- Items that are added last remain. -/
theorem remaining_concat_added (log : List (Entry κ α)) (items : List α) :
    remaining key (log ++ [.added items]) = remaining key log ++ items := by
  rw [remaining_concat]
  simp [remaining, spares]

/-- Items under a key that is removed last do not remain, and all others do. -/
theorem remaining_concat_removed (log : List (Entry κ α)) (k : κ) :
    remaining key (log ++ [.removed k]) = (remaining key log).filter fun a => key a ≠ k := by
  rw [remaining_concat]
  exact List.append_nil _

/-- Nothing remains after the log is cleared. -/
theorem remaining_concat_cleared (log : List (Entry κ α)) :
    remaining key (log ++ [.cleared]) = [] := by
  rw [remaining_concat]
  simp [remaining, spares]

/-- An item that is added again after its key was removed remains. -/
example : remaining id [.added [1, 2], .removed 1, .added [1], .removed 2] = [1] := by decide

end KeyedLog
