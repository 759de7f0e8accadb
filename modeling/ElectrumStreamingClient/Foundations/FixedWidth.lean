import Mathlib.Data.List.Forall2
import Mathlib.Data.Nat.Notation

/-!
# Records of a fixed width

Records written one behind the other, each in `width` symbols. `blocks` cuts a text into pieces of
that width. If every piece of the width is a record, a text is made of records exactly if its length
is a multiple of the width (`exists_flatMap_iff`), and its pieces are the texts of its records
(`blocks_flatMap`).
-/

namespace FixedWidth

variable {α β : Type*} {width : ℕ}

/-- The pieces of a text; the last one may be shorter. -/
def blocks (width : ℕ) (text : List α) : List (List α) :=
  if _h : 0 < width ∧ text ≠ [] then
    text.take width :: blocks width (text.drop width)
  else
    []
termination_by text.length
decreasing_by
  have hlength := List.length_pos_iff.mpr _h.2
  rw [List.length_drop]
  omega

theorem blocks_nil : blocks width ([] : List α) = [] := by
  rw [blocks, dif_neg (fun h => h.2 rfl)]

/-- The first block of a text is what it starts with. -/
theorem blocks_of_ne_nil (hwidth : 0 < width) {text : List α} (h : text ≠ []) :
    blocks width text = text.take width :: blocks width (text.drop width) := by
  rw [blocks, dif_pos ⟨hwidth, h⟩]

/-- A block in front of a text is its first one. -/
theorem blocks_append (hwidth : 0 < width) {block : List α} (hblock : block.length = width)
    (text : List α) : blocks width (block ++ text) = block :: blocks width text := by
  have hne : block ++ text ≠ [] := by
    apply List.append_ne_nil_of_left_ne_nil
    apply List.length_pos_iff.mp
    omega
  rw [blocks_of_ne_nil hwidth hne, List.take_left' hblock, List.drop_left' hblock]

/-- A text is made of its blocks. -/
theorem flatten_blocks (hwidth : 0 < width) (text : List α) :
    (blocks width text).flatten = text := by
  -- by the length, since a piece takes more than one symbol off
  induction hn : text.length using Nat.strongRecOn generalizing text with
  | ind n ih =>
    by_cases htext : text = []
    · rw [htext, blocks_nil, List.flatten_nil]
    · have hpos := List.length_pos_iff.mpr htext
      have hrest : (blocks width (text.drop width)).flatten = text.drop width := by
        apply ih _ _ _ rfl
        rw [List.length_drop]
        omega
      rw [blocks_of_ne_nil hwidth htext, List.flatten_cons, hrest, List.take_append_drop]

/-! ## Records -/

variable {encode : β → List α}

/-- The pieces of a text of records are the texts of the records. -/
theorem blocks_flatMap (hwidth : 0 < width) (hencode : ∀ b, (encode b).length = width)
    (bs : List β) : blocks width (bs.flatMap encode) = bs.map encode := by
  induction bs with
  | nil => exact blocks_nil
  | cons b bs ih => rw [List.flatMap_cons, blocks_append hwidth (hencode b), ih, List.map_cons]

/-- The length of a concatenation is the width times the number of values. -/
theorem length_flatMap (hencode : ∀ b, (encode b).length = width) (bs : List β) :
    (bs.flatMap encode).length = width * bs.length := by
  induction bs with
  | nil => rfl
  | cons b bs ih =>
    rw [List.flatMap_cons, List.length_append, hencode, ih, List.length_cons, Nat.mul_succ,
      Nat.add_comm]

/-- A text is made of records exactly if its length is a multiple of their width. -/
theorem exists_flatMap_iff (hencode : ∀ b, (encode b).length = width)
    (hsurj : ∀ block : List α, block.length = width → ∃ b, encode b = block) {text : List α} :
    (∃ bs : List β, text = bs.flatMap encode) ↔ width ∣ text.length := by
  constructor
  · rintro ⟨bs, rfl⟩
    rw [length_flatMap hencode]
    exact Nat.dvd_mul_right _ _
  · rintro ⟨n, hn⟩
    -- one record for each multiple of the width
    induction n generalizing text with
    | zero => exact ⟨[], List.length_eq_zero_iff.mp hn⟩
    | succ n ih =>
      rw [Nat.mul_succ] at hn
      obtain ⟨b, hb⟩ := hsurj (text.take width) (by rw [List.length_take]; omega)
      obtain ⟨bs, hbs⟩ := @ih (text.drop width) (by rw [List.length_drop]; omega)
      refine ⟨b :: bs, ?_⟩
      rw [List.flatMap_cons, hb, ← hbs, List.take_append_drop]

/-- The last piece of a text may be too short for a record. -/
example : blocks 2 [1, 2, 3] = [[1, 2], [3]] := by
  simp [blocks]

end FixedWidth
