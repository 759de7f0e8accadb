import Mathlib.Algebra.Order.Group.Multiset
import Mathlib.Data.List.AList
import Mathlib.Data.Multiset.Count

/-!
# Keyed stores

The values of an association list as a multiset, and what inserting and erasing a key do to it:
`values_insert` and `values_of_lookup` split the value at a key off the others.
-/

namespace KeyedStore

variable {K V : Type*}

/-- The values of a store. -/
def values (s : AList fun _ : K => V) : Multiset V :=
  (s.entries.map Sigma.snd : List V)

@[simp] theorem values_empty : values (∅ : AList fun _ : K => V) = 0 := rfl

variable [DecidableEq K]

/-- The value at a key and the values at the others. -/
theorem values_of_lookup {s : AList fun _ : K => V} {k : K} {v : V} (h : s.lookup k = some v) :
    values s = v ::ₘ values (s.erase k) := by
  -- the entry of `k` stands between the entries that erasing keeps
  have hmem : k ∈ s.entries.keys := AList.lookup_isSome.mp (h ▸ rfl)
  obtain ⟨w, l₁, l₂, hnotin, hentries, herase⟩ := List.exists_of_kerase hmem
  have hw : w = v := by
    have hlookup : s.entries.dlookup k = some w := by
      rw [hentries, List.dlookup_append, List.dlookup_eq_none.mpr hnotin, Option.none_or,
        List.dlookup_cons_eq]
    exact Option.some.inj (hlookup.symm.trans h)
  subst hw
  have hperm : (l₁ ++ ⟨k, w⟩ :: l₂).Perm (⟨k, w⟩ :: (l₁ ++ l₂)) := List.perm_middle
  show ((s.entries.map Sigma.snd : List V) : Multiset V) =
    w ::ₘ ((s.entries.kerase k).map Sigma.snd : List V)
  rw [herase, hentries]
  exact Multiset.coe_eq_coe.mpr (hperm.map Sigma.snd)

/-- A key that is not there has nothing to erase. -/
theorem erase_of_lookup_eq_none {s : AList fun _ : K => V} {k : K} (h : s.lookup k = none) :
    s.erase k = s :=
  AList.ext (List.kerase_of_notMem_keys (AList.lookup_eq_none.mp h))

/-- Erasing a key keeps the entries of the others, in order. -/
theorem entries_erase (s : AList fun _ : K => V) (k : K) :
    (s.erase k).entries = s.entries.filter fun e => e.1 ≠ k := by
  obtain ⟨entries, hnodup⟩ := s
  show entries.kerase k = entries.filter fun e => e.1 ≠ k
  induction entries with
  | nil => rfl
  | cons e entries ih =>
    rw [List.nodupKeys_cons] at hnodup
    by_cases hk : k = e.1
    -- the keys are distinct, so no later entry is erased
    · have hothers : ∀ e' ∈ entries, decide (e'.1 ≠ k) = true := by
        intro e' he'
        rw [decide_eq_true_eq, hk]
        rintro heq
        exact hnodup.1 (heq ▸ List.mem_keys_of_mem he')
      rw [List.kerase_cons_eq hk, List.filter_cons_of_neg (by simp [hk]),
        List.filter_eq_self.mpr hothers]
    · rw [List.kerase_cons_ne hk, List.filter_cons_of_pos (by simpa using Ne.symm hk),
        ih hnodup.2]

/-- Inserting at a key forgets the value that was there. -/
theorem values_insert (s : AList fun _ : K => V) (k : K) (v : V) :
    values (s.insert k v) = v ::ₘ values (s.erase k) := by
  rw [values, AList.entries_insert]
  rfl

/-- Erasing a key takes its value, if it has one, out of the values. -/
theorem values_eq_add_erase (s : AList fun _ : K => V) (k : K) :
    values s = ((s.lookup k).toList : Multiset V) + values (s.erase k) := by
  rcases h : s.lookup k with _ | v
  · rw [erase_of_lookup_eq_none h]
    simp
  · rw [values_of_lookup h]
    rfl

/-- The values are what lookups find. -/
theorem mem_values {s : AList fun _ : K => V} {v : V} :
    v ∈ values s ↔ ∃ k, s.lookup k = some v := by
  simp only [values, Multiset.mem_coe, List.mem_map]
  constructor
  · rintro ⟨⟨k, w⟩, hmem, rfl⟩
    exact ⟨k, AList.mem_lookup_iff.mpr hmem⟩
  · rintro ⟨k, hk⟩
    exact ⟨⟨k, v⟩, AList.mem_lookup_iff.mp hk, rfl⟩

omit [DecidableEq K] in
/-- A store has no more values than there are keys. -/
theorem card_values_le {n : ℕ} {f : K → ℕ} (hf : Function.Injective f) (hlt : ∀ k, f k < n)
    (s : AList fun _ : K => V) : Multiset.card (values s) ≤ n := by
  -- distinct keys are distinct numbers below `n`
  have hnodup : (s.keys.map f).Nodup := s.keys_nodup.map hf
  have hsub : s.keys.map f ⊆ List.range n := by
    intro i hi
    obtain ⟨k, -, rfl⟩ := List.mem_map.mp hi
    exact List.mem_range.mpr (hlt k)
  have hle := (hnodup.subperm hsub).length_le
  simpa [values, AList.keys, List.keys] using hle

end KeyedStore
