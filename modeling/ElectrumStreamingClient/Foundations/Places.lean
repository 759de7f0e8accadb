import Mathlib.Algebra.BigOperators.Group.Finset.Basic
import Mathlib.Algebra.Order.BigOperators.Group.Finset

/-!
# Items in places

Items that are moved between places, each place being a multiset of items. `Places.Hold` says that
nothing is lost and nothing is there twice; then each item is in exactly one place
(`Hold.existsUnique`), and in no place there is anything else (`Hold.mem_of_mem`).
-/

namespace Places

variable {ι α : Type*} [Fintype ι]

/-- The places hold these items, which are different from each other. -/
structure Hold (place : ι → Multiset α) (items : List α) : Prop where
  sum : ∑ i, place i = (items : Multiset α)
  nodup : items.Nodup

variable {place : ι → Multiset α} {items : List α}

/-- What is in a place is one of the items. -/
theorem Hold.mem_of_mem (h : Hold place items) {i : ι} {x : α} (hx : x ∈ place i) : x ∈ items := by
  rw [← Multiset.mem_coe, ← h.sum]
  exact Multiset.mem_sum.mpr ⟨i, Finset.mem_univ i, hx⟩

/-- An item is in one place. -/
theorem Hold.existsUnique (h : Hold place items) {x : α} (hx : x ∈ items) :
    ∃! i, x ∈ place i := by
  classical
  rw [← Multiset.mem_coe, ← h.sum] at hx
  obtain ⟨i, -, hi⟩ := Multiset.mem_sum.mp hx
  refine ⟨i, hi, fun j hj => ?_⟩
  by_contra hne
  -- in two places, it would be there twice
  have hcount : (∑ i, place i).count x ≤ 1 := by
    rw [h.sum]
    exact Multiset.nodup_iff_count_le_one.mp (Multiset.coe_nodup.mpr h.nodup) x
  have hpair : ∑ k ∈ {i, j}, (place k).count x ≤ ∑ k, (place k).count x :=
    Finset.sum_le_sum_of_subset (Finset.subset_univ _)
  rw [Multiset.count_sum'] at hcount
  rw [Finset.sum_pair (Ne.symm hne)] at hpair
  have hposi := Multiset.count_pos.mpr hi
  have hposj := Multiset.count_pos.mpr hj
  omega

/-- An item is once in the place where it is. -/
theorem Hold.nodup_place (h : Hold place items) (i : ι) : (place i).Nodup := by
  have hsum : (∑ i, place i).Nodup := by
    rw [h.sum]
    exact Multiset.coe_nodup.mpr h.nodup
  exact Multiset.nodup_of_le (Finset.single_le_sum (fun _ _ => zero_le) (Finset.mem_univ i)) hsum

end Places
