import Mathlib.Data.Nat.Notation
import Mathlib.Data.UInt

/-!
# Wrapping identifiers

Identifiers handed out one after the other by a counter of 32 bits that wraps around.
-/

namespace WrappingId

/-- The number of identifiers. -/
def period : ℕ := 2 ^ 32

/-- The `n`-th identifier of a counter that starts at `start`. -/
def idAt (start : UInt32) (n : ℕ) : UInt32 := start + UInt32.ofNat n

@[simp] theorem idAt_zero (start : UInt32) : idAt start 0 = start := by
  simp [idAt]

/-- Counting on by one. -/
theorem idAt_succ (start : UInt32) (n : ℕ) : idAt start (n + 1) = idAt start n + 1 := by
  rw [idAt, idAt, UInt32.ofNat_add, ← UInt32.add_assoc]
  rfl

/-- Two positions have the same identifier exactly when they differ by whole periods. -/
theorem idAt_eq_idAt_iff (start : UInt32) (m n : ℕ) :
    idAt start m = idAt start n ↔ m % period = n % period := by
  rw [idAt, idAt, UInt32.add_right_inj, ← UInt32.toNat_inj, UInt32.toNat_ofNat',
    UInt32.toNat_ofNat']
  rfl

/-- Within a period the identifiers differ. -/
theorem eq_of_idAt_eq {start : UInt32} {m n : ℕ} (hid : idAt start m = idAt start n)
    (hm : m < period) (hn : n < period) : m = n := by
  rwa [idAt_eq_idAt_iff, Nat.mod_eq_of_lt hm, Nat.mod_eq_of_lt hn] at hid

/-- A position at most a period back with the same identifier is a period back. -/
theorem add_period_of_idAt_eq {start : UInt32} {m n : ℕ} (hid : idAt start m = idAt start n)
    (hlt : m < n) (hle : n ≤ m + period) : m + period = n := by
  rw [idAt_eq_idAt_iff] at hid
  -- a positive multiple of the period that is at most a period
  unfold period at *
  omega

/-- A period on, the identifiers repeat. -/
theorem idAt_add_period (start : UInt32) (n : ℕ) : idAt start (n + period) = idAt start n := by
  rw [idAt_eq_idAt_iff]
  simp

/-- The counter wraps around after the largest identifier. -/
example : idAt 4294967295 1 = 0 := by decide

end WrappingId
