import ElectrumStreamingClient.Foundations.FixedWidth

/-!
# Hexadecimal text

Bytes written as two hexadecimal digits each. `decode` accepts digits in either case, `encode`
writes lower case: reading what was written gives the bytes back (`decode_encode`), and writing what
was read gives the text in lower case (`encode_of_decode`).
-/

namespace Hex

open FixedWidth

/-- The value of a digit, in either case. -/
def digit? : Char → Option ℕ
  | '0' => some 0
  | '1' => some 1
  | '2' => some 2
  | '3' => some 3
  | '4' => some 4
  | '5' => some 5
  | '6' => some 6
  | '7' => some 7
  | '8' => some 8
  | '9' => some 9
  | 'a' | 'A' => some 10
  | 'b' | 'B' => some 11
  | 'c' | 'C' => some 12
  | 'd' | 'D' => some 13
  | 'e' | 'E' => some 14
  | 'f' | 'F' => some 15
  | _ => none

/-- The bytes of a text, if it is made of whole pairs of digits. -/
def decode : List Char → Option (List UInt8)
  | [] => some []
  | [_] => none
  | high :: low :: text => do
    let h ← digit? high
    let l ← digit? low
    let bytes ← decode text
    return UInt8.ofNat (16 * h + l) :: bytes

/-- The digits of a byte, in lower case. -/
def encodeByte (b : UInt8) : List Char :=
  [Nat.digitChar (b.toNat / 16), Nat.digitChar (b.toNat % 16)]

/-- The text of some bytes, in lower case. -/
def encode (bytes : List UInt8) : List Char :=
  bytes.flatMap encodeByte

/-! ## Digits -/

/-- The character of a digit is read as that digit. -/
theorem digit?_digitChar : ∀ n < 16, digit? (Nat.digitChar n) = some n := by
  decide

/-- A digit is below 16, and is written as the same digit in lower case. -/
theorem digit?_eq_some {c : Char} {n : ℕ} (h : digit? c = some n) :
    n < 16 ∧ Nat.digitChar n = c.toLower := by
  unfold digit? at h
  split at h <;> cases h <;> decide

/-- A byte is written as its two digits. -/
theorem digitChar_div_mod {h l : ℕ} (hh : h < 16) (hl : l < 16) :
    encodeByte (UInt8.ofNat (16 * h + l)) = [Nat.digitChar h, Nat.digitChar l] := by
  have hbyte : (UInt8.ofNat (16 * h + l)).toNat = 16 * h + l := by
    rw [UInt8.toNat_ofNat']
    omega
  have hhigh : (16 * h + l) / 16 = h := by omega
  have hlow : (16 * h + l) % 16 = l := by omega
  rw [encodeByte, hbyte, hhigh, hlow]

/-! ## Reading -/

/-- Two characters are decoded to a byte if both are digits and the rest is decoded. -/
theorem decode_cons_cons {high low : Char} {text : List Char} {bytes : List UInt8} :
    decode (high :: low :: text) = some bytes ↔
      ∃ h l rest, digit? high = some h ∧ digit? low = some l ∧ decode text = some rest ∧
        bytes = UInt8.ofNat (16 * h + l) :: rest := by
  simp only [decode, Option.bind_eq_bind, Option.bind_eq_some_iff, Option.pure_def,
    Option.some.injEq]
  constructor
  · rintro ⟨h, hh, l, hl, rest, hrest, rfl⟩
    exact ⟨h, l, rest, hh, hl, hrest, rfl⟩
  · rintro ⟨h, l, rest, hh, hl, hrest, rfl⟩
    exact ⟨h, hh, l, hl, rest, hrest, rfl⟩

/-- A byte takes two digits. -/
theorem length_of_decode {text : List Char} {bytes : List UInt8} (h : decode text = some bytes) :
    text.length = 2 * bytes.length := by
  induction text using decode.induct generalizing bytes with
  | case1 =>
    cases h
    rfl
  | case2 c => cases h
  | case3 high low text ih =>
    obtain ⟨-, -, rest, -, -, hrest, rfl⟩ := decode_cons_cons.mp h
    simp only [List.length_cons, ih hrest]
    omega

/-- Text behind decoded text is decoded by itself. -/
theorem decode_append {text : List Char} {bytes : List UInt8} (h : decode text = some bytes)
    (text' : List Char) : decode (text ++ text') = (decode text').map (bytes ++ ·) := by
  induction text using decode.induct generalizing bytes with
  | case1 =>
    cases h
    simp
  | case2 c => cases h
  | case3 high low text ih =>
    obtain ⟨h, l, rest, hh, hl, hrest, rfl⟩ := decode_cons_cons.mp h
    simp only [List.cons_append, decode, hh, hl, ih hrest]
    rcases decode text' with _ | bytes' <;> rfl

/-- The text of the first `n` bytes is their `2 * n` digits. -/
theorem decode_take {text : List Char} {bytes : List UInt8} (h : decode text = some bytes)
    (n : ℕ) : decode (text.take (2 * n)) = some (bytes.take n) := by
  induction n generalizing text bytes with
  | zero => rfl
  | succ n ih =>
    match text with
    | [] =>
      cases h
      rfl
    | [c] => cases h
    | high :: low :: text =>
      obtain ⟨hi, lo, rest, hhi, hlo, hrest, rfl⟩ := decode_cons_cons.mp h
      -- two characters make a byte
      have htwo : 2 * (n + 1) = 2 * n + 1 + 1 := by omega
      rw [htwo, List.take_succ_cons, List.take_succ_cons, List.take_succ_cons]
      exact decode_cons_cons.mpr ⟨hi, lo, _, hhi, hlo, ih hrest, rfl⟩

/-- The other digits are the text of the other bytes. -/
theorem decode_drop {text : List Char} {bytes : List UInt8} (h : decode text = some bytes)
    (n : ℕ) : decode (text.drop (2 * n)) = some (bytes.drop n) := by
  -- both parts together decode, and the first one is known
  have happend := decode_append (decode_take h n) (text.drop (2 * n))
  rw [List.take_append_drop, h] at happend
  obtain ⟨rest, hrest, hbytes⟩ := Option.map_eq_some_iff.mp happend.symm
  have hdrop : bytes.take n ++ rest = bytes.take n ++ bytes.drop n := by
    rw [hbytes, List.take_append_drop]
  rw [hrest, List.append_cancel_left hdrop]

/-- Texts that are read one by one are read behind each other as well. -/
theorem decode_flatten {texts : List (List Char)} {bytess : List (List UInt8)}
    (h : List.Forall₂ (fun text bytes => decode text = some bytes) texts bytess) :
    decode texts.flatten = some bytess.flatten := by
  induction h with
  | nil => rfl
  | cons h _ ih => rw [List.flatten_cons, List.flatten_cons, decode_append h, ih, Option.map_some]

/-- Pieces of the text are read as the pieces of the bytes. -/
theorem decode_blocks {width : ℕ} (hwidth : 0 < width) {text : List Char} {bytes : List UInt8}
    (h : decode text = some bytes) :
    List.Forall₂ (fun piece block => decode piece = some block)
      (blocks (2 * width) text) (blocks width bytes) := by
  -- by the length, since a piece takes more than one byte off
  induction hn : bytes.length using Nat.strongRecOn generalizing text bytes with
  | ind n ih =>
    have hlength := length_of_decode h
    by_cases hbytes : bytes = []
    · rw [hbytes, List.length_nil, Nat.mul_zero, List.length_eq_zero_iff] at hlength
      rw [hbytes, hlength, blocks_nil, blocks_nil]
      exact .nil
    · have hpos := List.length_pos_iff.mpr hbytes
      have htext : text ≠ [] := by
        apply List.length_pos_iff.mp
        omega
      rw [blocks_of_ne_nil (by omega) htext, blocks_of_ne_nil hwidth hbytes]
      refine .cons (decode_take h width) ?_
      apply ih _ _ (decode_drop h width) rfl
      rw [List.length_drop]
      omega

/-! ## Round trips -/

/-- What was written is read back. -/
theorem decode_encode (bytes : List UInt8) : decode (encode bytes) = some bytes := by
  induction bytes with
  | nil => rfl
  | cons b bytes ih =>
    have hlt := b.toNat_lt
    have hhigh := digit?_digitChar (b.toNat / 16) (by omega)
    have hlow := digit?_digitChar (b.toNat % 16) (by omega)
    refine decode_cons_cons.mpr ⟨_, _, bytes, hhigh, hlow, ih, ?_⟩
    rw [Nat.div_add_mod, UInt8.ofNat_toNat]

/-- The text of bytes determines them. -/
theorem encode_injective : Function.Injective encode := by
  intro bytes bytes' h
  have hdecode := decode_encode bytes
  rw [h, decode_encode, Option.some.injEq] at hdecode
  exact hdecode.symm

/-- What is written is made of digits. -/
theorem digit?_of_mem_encode {bytes : List UInt8} {c : Char} (hc : c ∈ encode bytes) :
    digit? c ≠ none := by
  rw [encode, List.mem_flatMap] at hc
  obtain ⟨b, -, hc⟩ := hc
  have hlt := b.toNat_lt
  have hhigh := digit?_digitChar (b.toNat / 16) (by omega)
  have hlow := digit?_digitChar (b.toNat % 16) (by omega)
  simp only [encodeByte, List.mem_cons, List.not_mem_nil, or_false] at hc
  rcases hc with rfl | rfl
  · simp [hhigh]
  · simp [hlow]

/-- What was read is written in lower case. -/
theorem encode_of_decode {text : List Char} {bytes : List UInt8} (h : decode text = some bytes) :
    encode bytes = text.map Char.toLower := by
  induction text using decode.induct generalizing bytes with
  | case1 =>
    cases h
    rfl
  | case2 c => cases h
  | case3 high low text ih =>
    obtain ⟨h, l, rest, hh, hl, hrest, rfl⟩ := decode_cons_cons.mp h
    obtain ⟨hlt, hhigh⟩ := digit?_eq_some hh
    obtain ⟨hlt', hlow⟩ := digit?_eq_some hl
    rw [encode, List.flatMap_cons, digitChar_div_mod hlt hlt', hhigh, hlow, ← encode, ih hrest]
    rfl

/-- The case of the digits does not matter, but every byte needs two. -/
example : decode ['f', 'F'] = some [255] ∧ decode ['f', 'F', '0'] = none ∧
    encode [255] = ['f', 'f'] := by decide

end Hex
