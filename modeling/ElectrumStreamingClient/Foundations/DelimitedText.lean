import ElectrumStreamingClient.Foundations.LineFraming
import Mathlib.Logic.Function.Basic
import Mathlib.Tactic.SplitIfs

/-!
# Delimited text

Fields one behind the other, each ended by a delimiter. Fields without delimiters are read back as
lines are, so the text determines them, however many there are (`terminated_inj`). Texts are
compared as characters or as the bytes of their UTF-8 encoding (`utf8_injective`).
-/

namespace DelimitedText

open LineFraming

/-! ## Fields -/

variable {α : Type*} {delim : α}

/-- Write fields, each ended by the delimiter. -/
def terminated (delim : α) (fields : List (List α)) : List α :=
  fields.flatMap (· ++ [delim])

/-- The fields are the complete lines of what was written. -/
theorem completeLines_terminated [DecidableEq α] {fields : List (List α)}
    (h : ∀ f ∈ fields, delim ∉ f) : completeLines delim (terminated delim fields) = fields := by
  induction fields with
  | nil => exact completeLines_of_notMem List.not_mem_nil
  | cons f fields ih =>
    obtain ⟨hf, hfields⟩ := List.forall_mem_cons.mp h
    -- the first delimiter of the text is the one that ends the first field
    have hcons : terminated delim (f :: fields) = f ++ delim :: terminated delim fields := by
      rw [terminated, List.flatMap_cons, List.append_assoc]
      rfl
    rw [hcons, completeLines_append_cons _ hf, ih hfields]

/-- Fields without the delimiter can be read off their text. -/
theorem terminated_inj [DecidableEq α] {fields fields' : List (List α)}
    (h : ∀ f ∈ fields, delim ∉ f) (h' : ∀ f ∈ fields', delim ∉ f) :
    terminated delim fields = terminated delim fields' ↔ fields = fields' := by
  constructor
  · intro heq
    rw [← completeLines_terminated h, heq, completeLines_terminated h']
  · intro heq
    rw [heq]

/-- Records of two fields are told apart by their fields. -/
theorem flatMap_pair_inj {β γ : Type*} {f : β → List α} {g : γ → List α}
    (hf : Function.Injective f) (hg : Function.Injective g) {rs rs' : List (β × γ)} :
    (rs.flatMap fun r => [f r.1, g r.2]) = (rs'.flatMap fun r => [f r.1, g r.2]) ↔ rs = rs' := by
  constructor
  · intro heq
    induction rs generalizing rs' with
    | nil =>
      cases rs' with
      | nil => rfl
      | cons r' rs' => simp at heq
    | cons r rs ih =>
      cases rs' with
      | nil => simp at heq
      | cons r' rs' =>
        -- two fields for each entry, so the first entries have the same fields
        simp only [List.flatMap_cons, List.cons_append, List.nil_append, List.cons.injEq] at heq
        obtain ⟨hfst, hsnd, hrest⟩ := heq
        rw [ih hrest, Prod.ext (hf hfst) (hg hsnd)]
  · intro heq
    rw [heq]

/-! ## Text -/

/-- The bytes of a string. -/
def utf8 (s : String) : List UInt8 :=
  s.toUTF8.data.toList

/-- Texts are encoded one after the other. -/
theorem utf8_append (s t : String) : utf8 (s ++ t) = utf8 s ++ utf8 t := by
  simp [utf8, String.toUTF8]

/-- The bytes of a text determine it. -/
theorem utf8_injective : Function.Injective utf8 := by
  intro s t h
  apply String.toByteArray_inj.mp
  apply ByteArray.ext
  exact Array.toList_inj.mp h

theorem utf8_ofList (cs : List Char) :
    utf8 (String.ofList cs) = cs.flatMap String.utf8EncodeChar := by
  simp [utf8, String.toUTF8, List.utf8Encode]

/-- A byte below 128 is the whole encoding of a character. -/
theorem toNat_eq_of_mem_utf8EncodeChar {c : Char} {b : UInt8}
    (hb : b ∈ String.utf8EncodeChar c) (hlt : b.toNat < 0x80) : c.toNat = b.toNat := by
  have hval : c.val.toNat = c.toNat := rfl
  simp only [String.utf8EncodeChar, hval] at hb
  split_ifs at hb
  · rw [List.mem_singleton.mp hb, UInt8.toNat_ofNat']
    omega
  -- the bytes of a longer encoding have their highest bit set
  all_goals
    simp only [List.mem_cons, List.not_mem_nil, or_false] at hb
    rcases hb with rfl | rfl | rfl | rfl <;> rw [UInt8.toNat_ofNat'] at hlt <;> omega

/-- A byte below 128 occurs only where its character does. -/
theorem mem_toList_of_mem_utf8 {s : String} {c : Char} (hc : c.toNat < 0x80)
    (hmem : UInt8.ofNat c.toNat ∈ utf8 s) : c ∈ s.toList := by
  have hbyte : (UInt8.ofNat c.toNat).toNat = c.toNat := by
    rw [UInt8.toNat_ofNat']
    omega
  rw [← String.ofList_toList (s := s), utf8_ofList, List.mem_flatMap] at hmem
  obtain ⟨d, hd, hmem⟩ := hmem
  have hcode := toNat_eq_of_mem_utf8EncodeChar hmem (by omega)
  rw [hbyte] at hcode
  rwa [← Char.toNat_inj.mp hcode]

/-- The string a list of bytes encodes, if it is valid. -/
def fromUtf8 (bs : List UInt8) : Option String :=
  String.fromUTF8? ⟨⟨bs⟩⟩

/-- The bytes of a text are decoded to it. -/
@[simp]
theorem fromUtf8_utf8 (s : String) : fromUtf8 (utf8 s) = some s := by
  have hvalid : ByteArray.IsValidUTF8 ⟨⟨utf8 s⟩⟩ := s.isValidUTF8
  rw [fromUtf8, String.fromUTF8?, dif_pos hvalid]
  rfl

/-- The decimal text of an integer has no other characters than digits and a sign. -/
theorem notMem_toList_repr {c : Char} (hdigit : c.isDigit = false) (hsign : c ≠ '-') (i : ℤ) :
    c ∉ i.repr.toList := by
  have hnat (n : ℕ) : c ∉ n.repr.toList := by
    intro hc
    rw [Nat.toList_repr] at hc
    rw [Nat.isDigit_of_mem_toDigits (by decide) (by decide) hc] at hdigit
    cases hdigit
  rw [Int.repr_eq_if]
  -- a negative number has a sign before its digits
  split
  · exact hnat _
  · rw [String.toList_append, List.mem_append, not_or]
    refine ⟨?_, hnat _⟩
    simpa using hsign

/-- A field may be empty, but the last one has to be ended too. -/
example : terminated ':' [['a'], []] = ['a', ':', ':'] ∧
    completeLines ':' ['a', ':', ':', 'b'] = [['a'], []] := by decide

end DelimitedText
