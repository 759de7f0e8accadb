import ElectrumStreamingClient.Foundations.Serde
import ElectrumStreamingClient.Foundations.DelimitedText
import Mathlib.Algebra.Group.Nat.Defs

/-!
# JSON text

Compact JSON text of the values of `Serde`: what a serializer writes with no white space between
tokens, and a reader of JSON that allows white space and every escape.

* `writeValue` and `read` form a round trip on the values that can be written (`read_writeValue`),
  and so do `encode` and `decode` on their bytes (`decode_encode`).
* The text has no control characters (`notMem_encode`), so it fits on a line whatever its strings
  contain.
* Both are what is relied on of a JSON library (`JsonFormat`, `LawfulJsonFormat`), and compact text
  is a model of it.

The digits of doubles come from a parameter (`FloatText`), as they do from a library of their own.
-/

namespace JsonText

open Serde

/-! ## Characters -/

/-- The white space between tokens. -/
def isSpace (c : Char) : Bool :=
  c = ' ' || c = '\t' || c = '\n' || c = '\r'

/-- The characters a string must not contain as they are. -/
def isControl (c : Char) : Bool :=
  c.toNat < 0x20

/-- The characters of which numbers are written. -/
def isNumberChar (c : Char) : Bool :=
  c.isDigit || ['-', '+', '.', 'e', 'E'].contains c

/-- Skip white space. -/
def skipSpace (cs : List Char) : List Char :=
  cs.dropWhile isSpace

/-- Nothing is skipped in front of another character. -/
theorem skipSpace_cons {c : Char} (hc : isSpace c = false) (cs : List Char) :
    skipSpace (c :: cs) = c :: cs := by
  simp [skipSpace, hc]

theorem isNumberChar_of_isDigit {c : Char} (hc : c.isDigit = true) : isNumberChar c = true := by
  simp [isNumberChar, hc]

theorem isControl_of_isNumberChar {c : Char} (hc : isNumberChar c = true) :
    isControl c = false := by
  simp only [isNumberChar, Bool.or_eq_true, List.contains_iff_mem, List.mem_cons,
    List.not_mem_nil, or_false] at hc
  rcases hc with hc | rfl | rfl | rfl | rfl | rfl
  · have hle : '0'.toNat ≤ c.toNat := (Char.isDigit_iff_toNat.mp hc).1
    have hzero : '0'.toNat = 48 := rfl
    simp only [isControl, decide_eq_false_iff_not]
    omega
  all_goals rfl

theorem isSpace_of_isNumberChar {c : Char} (hc : isNumberChar c = true) : isSpace c = false := by
  by_contra hspace
  simp only [isSpace, Bool.not_eq_false, Bool.or_eq_true, decide_eq_true_eq] at hspace
  rcases hspace with ((rfl | rfl) | rfl) | rfl <;> exact absurd hc (by decide)

/-! ## Integers -/

/-- The natural number that is written with these digits and no leading zeros. -/
def readNat (ds : List Char) : Option ℕ :=
  if Nat.toDigits 10 (Nat.ofDigitChars 10 ds 0) = ds then some (Nat.ofDigitChars 10 ds 0) else none

/-- A decimal number is read back. -/
@[simp]
theorem readNat_toDigits (n : ℕ) : readNat (Nat.toDigits 10 n) = some n := by
  simp [readNat]

/-- Only digits are read as a natural number. -/
theorem readNat_eq_none {ds : List Char} {c : Char} (hmem : c ∈ ds) (hc : c.isDigit = false) :
    readNat ds = none := by
  rw [readNat, if_neg]
  intro hds
  rw [← hds] at hmem
  rw [Nat.isDigit_of_mem_toDigits (by decide) (by decide) hmem] at hc
  cases hc

theorem isNumberChar_of_mem_toDigits {n : ℕ} {c : Char} (hc : c ∈ Nat.toDigits 10 n) :
    isNumberChar c = true :=
  isNumberChar_of_isDigit (Nat.isDigit_of_mem_toDigits (by decide) (by decide) hc)

/-- The integer a text without white space denotes, if it is in range. Minus zero is none. -/
def integerOf : List Char → Option Number
  | '-' :: ds =>
    (readNat ds).bind fun n =>
      if 0 < n ∧ n ≤ 2 ^ 63 then some (.negInt (Int64.ofInt (-n))) else none
  | ds => (readNat ds).bind fun n => if n < 2 ^ 64 then some (.posInt (UInt64.ofNat n)) else none

/-- The digits of an integer of 64 bits denote it. -/
theorem integerOf_toDigits {n : ℕ} (hn : n < 2 ^ 64) :
    integerOf (Nat.toDigits 10 n) = some (.posInt (UInt64.ofNat n)) := by
  rw [integerOf]
  · rw [readNat_toDigits, Option.bind_some, if_pos hn]
  -- no digit is a sign
  · intro ds hds
    have hsign : '-' ∈ Nat.toDigits 10 n := hds ▸ List.mem_cons_self
    exact absurd (Nat.isDigit_of_mem_toDigits (by decide) (by decide) hsign) (by decide)

/-- So do those of a negative one behind its sign. -/
theorem integerOf_neg_toDigits {n : ℕ} (hpos : 0 < n) (hn : n ≤ 2 ^ 63) :
    integerOf ('-' :: Nat.toDigits 10 n) = some (.negInt (Int64.ofInt (-n))) := by
  rw [integerOf, readNat_toDigits, Option.bind_some, if_pos ⟨hpos, hn⟩]

/-- A text with a decimal point or an exponent is no integer. -/
theorem integerOf_eq_none {cs : List Char} {c : Char} (hmem : c ∈ cs) (hc : c = '.' ∨ c = 'e') :
    integerOf cs = none := by
  have hdigit : c.isDigit = false := by
    rcases hc with rfl | rfl <;> rfl
  have hsign : c ≠ '-' := by
    rcases hc with rfl | rfl <;> decide
  unfold integerOf
  split
  next ds =>
    have hds : c ∈ ds := (List.mem_cons.mp hmem).resolve_left hsign
    rw [readNat_eq_none hds hdigit, Option.bind_none]
  next => rw [readNat_eq_none hmem hdigit, Option.bind_none]

/-! ## Strings -/

/-- A hexadecimal digit, in lower case. -/
def hexDigit (n : ℕ) : Char :=
  Nat.digitChar n

/-- The value of a hexadecimal digit of either case. -/
def hexValue (c : Char) : Option ℕ :=
  if c.isDigit then some (c.toNat - 0x30)
  else if 'a' ≤ c ∧ c ≤ 'f' then some (c.toNat - 0x57)
  else if 'A' ≤ c ∧ c ≤ 'F' then some (c.toNat - 0x37)
  else none

/-- Read the four hexadecimal digits of a code unit. -/
def readUnit : List Char → Option (ℕ × List Char)
  | a :: b :: c :: d :: cs => do
    let a ← hexValue a
    let b ← hexValue b
    let c ← hexValue c
    let d ← hexValue d
    pure (0x1000 * a + 0x100 * b + 0x10 * c + d, cs)
  | _ => none

/-- Read a code point that is written as code units: two of them if the first is a leading
surrogate. Other surrogates denote no character. -/
def readUnits (cs : List Char) : Option (Char × List Char) :=
  match readUnit cs with
  | none => none
  | some (hi, cs) =>
    if 0xd800 ≤ hi ∧ hi < 0xdc00 then
      match cs with
      | '\\' :: 'u' :: cs =>
        match readUnit cs with
        | none => none
        | some (lo, cs) =>
          if 0xdc00 ≤ lo ∧ lo < 0xe000 then
            some (Char.ofNat (0x10000 + 0x400 * (hi - 0xd800) + (lo - 0xdc00)), cs)
          else none
      | _ => none
    else if 0xdc00 ≤ hi ∧ hi < 0xe000 then none
    else some (Char.ofNat hi, cs)

/-- Read what follows the backslash of an escape. -/
def readEscape : List Char → Option (Char × List Char)
  | '"' :: cs => some ('"', cs)
  | '\\' :: cs => some ('\\', cs)
  | '/' :: cs => some ('/', cs)
  | 'b' :: cs => some ('\x08', cs)
  | 'f' :: cs => some ('\x0c', cs)
  | 'n' :: cs => some ('\n', cs)
  | 'r' :: cs => some ('\r', cs)
  | 't' :: cs => some ('\t', cs)
  | 'u' :: cs => readUnits cs
  | _ => none

/-- Write a character of a string, escaped if it has to be. -/
def escape (c : Char) : List Char :=
  if c = '"' then ['\\', '"']
  else if c = '\\' then ['\\', '\\']
  else if c = '\x08' then ['\\', 'b']
  else if c = '\x0c' then ['\\', 'f']
  else if c = '\n' then ['\\', 'n']
  else if c = '\r' then ['\\', 'r']
  else if c = '\t' then ['\\', 't']
  else if isControl c then ['\\', 'u', '0', '0', hexDigit (c.toNat / 16), hexDigit (c.toNat % 16)]
  else [c]

/-- Read one character of a string; none for the quote that closes it. -/
def readChar : List Char → Option (Option Char × List Char)
  | [] => none
  | '"' :: cs => some (none, cs)
  | '\\' :: cs => (readEscape cs).map fun p => (some p.1, p.2)
  | c :: cs => if isControl c then none else some (some c, cs)

/-- A digit of an escape is read back. -/
theorem hexValue_hexDigit : ∀ n < 16, hexValue (hexDigit n) = some n := by
  decide

/-- A code point below 256 is read from its last two digits. -/
theorem readUnits_hexDigit {n : ℕ} (hn : n < 0x100) (cs : List Char) :
    readUnits ('0' :: '0' :: hexDigit (n / 16) :: hexDigit (n % 16) :: cs) =
      some (Char.ofNat n, cs) := by
  have hunit : readUnit ('0' :: '0' :: hexDigit (n / 16) :: hexDigit (n % 16) :: cs) =
      some (n, cs) := by
    have hzero : hexValue '0' = some 0 := rfl
    have hsum : 0x1000 * 0 + 0x100 * 0 + 0x10 * (n / 16) + n % 16 = n := by omega
    simp only [readUnit, hzero, hexValue_hexDigit (n / 16) (by omega),
      hexValue_hexDigit (n % 16) (by omega), Option.bind_eq_bind, Option.bind_some, hsum]
    rfl
  simp only [readUnits, hunit]
  rw [if_neg (by omega), if_neg (by omega)]

/-- An escaped character is read back, whatever follows. -/
theorem readChar_escape (c : Char) (cs : List Char) :
    readChar (escape c ++ cs) = some (some c, cs) := by
  unfold escape
  split_ifs with hquote hback _ _ _ _ _ hcontrol
  -- the escapes of one letter
  iterate 7
    subst_vars
    rfl
  · have hlt : c.toNat < 0x20 := by simpa [isControl] using hcontrol
    have hunits := readUnits_hexDigit (n := c.toNat) (by omega) cs
    rw [Char.ofNat_toNat] at hunits
    simp only [List.cons_append, List.nil_append, readChar, readEscape, hunits, Option.map_some]
  · rw [List.cons_append, List.nil_append, readChar]
    · rw [if_neg hcontrol]
    · exact hquote
    · exact hback

theorem isControl_hexDigit : ∀ n < 16, isControl (hexDigit n) = false := by
  decide

/-- Escaping leaves no control character. -/
theorem all_escape (c : Char) : (escape c).all (fun d => !isControl d) = true := by
  unfold escape
  split_ifs with _ _ _ _ _ _ _ hcontrol
  iterate 7
    rfl
  · have hlt : c.toNat < 0x20 := by simpa [isControl] using hcontrol
    have hhi := isControl_hexDigit (c.toNat / 16) (by omega)
    have hlo := isControl_hexDigit (c.toNat % 16) (by omega)
    simp only [List.all_cons, hhi, hlo, List.all_nil]
    rfl
  · simpa using hcontrol

/-- Escaping does not make text shorter. -/
theorem length_le_length_flatMap_escape (cs : List Char) :
    cs.length ≤ (cs.flatMap escape).length := by
  induction cs with
  | nil => exact Nat.le_refl 0
  | cons c cs ih =>
    have hpos : 0 < (escape c).length := by
      unfold escape
      split_ifs <;> exact Nat.succ_pos _
    rw [List.flatMap_cons, List.length_append, List.length_cons]
    omega

/-- Write a string between quotes. -/
def writeString (s : String) : List Char :=
  '"' :: (s.toList.flatMap escape ++ ['"'])

/-- Read characters up to the closing quote. -/
def readChars : ℕ → List Char → Option (List Char × List Char)
  | 0, _ => none
  | n + 1, cs =>
    match readChar cs with
    | none => none
    | some (none, cs) => some ([], cs)
    | some (some c, cs) => (readChars n cs).map fun p => (c :: p.1, p.2)

/-- Read a string whose opening quote has been read. -/
def readString (cs : List Char) : Option (String × List Char) :=
  (readChars cs.length cs).map fun p => (String.ofList p.1, p.2)

/-- Escaped characters are read back up to the closing quote. -/
theorem readChars_flatMap_escape {cs : List Char} {n : ℕ} (hn : cs.length < n)
    (rest : List Char) : readChars n (cs.flatMap escape ++ '"' :: rest) = some (cs, rest) := by
  induction cs generalizing n with
  | nil =>
    obtain ⟨n, rfl⟩ := Nat.exists_eq_succ_of_ne_zero (by omega : n ≠ 0)
    rfl
  | cons c cs ih =>
    obtain ⟨n, rfl⟩ := Nat.exists_eq_succ_of_ne_zero (by omega : n ≠ 0)
    have hrest := ih (n := n) (by rw [List.length_cons] at hn; omega)
    rw [List.flatMap_cons, List.append_assoc, readChars, readChar_escape]
    simp only [hrest, Option.map_some]

/-- A string is read back. -/
theorem readString_writeString (s : String) (rest : List Char) :
    readString (s.toList.flatMap escape ++ '"' :: rest) = some (s, rest) := by
  have hlen := length_le_length_flatMap_escape s.toList
  have hn : s.toList.length < (s.toList.flatMap escape ++ '"' :: rest).length := by
    rw [List.length_append, List.length_cons]
    omega
  rw [readString, readChars_flatMap_escape hn, Option.map_some, String.ofList_toList]

/-- No control character is written in a string. -/
theorem all_writeString (s : String) : (writeString s).all (fun c => !isControl c) = true := by
  have hall : (s.toList.flatMap escape).all (fun c => !isControl c) = true := by
    rw [List.all_flatMap]
    exact List.all_eq_true.mpr fun c _ => all_escape c
  rw [writeString, List.all_cons, List.all_append, hall]
  rfl

/-- Read the name of a member and the colon after it. -/
def readName (cs : List Char) : Option (String × List Char) :=
  match skipSpace cs with
  | '"' :: cs => do
    let (name, cs) ← readString cs
    match skipSpace cs with
    | ':' :: cs => pure (name, cs)
    | _ => none
  | _ => none

/-- The name of a member is read back. -/
theorem readName_writeString (name : String) (rest : List Char) :
    readName (writeString name ++ ':' :: rest) = some (name, rest) := by
  have htext : writeString name ++ ':' :: rest =
      '"' :: (name.toList.flatMap escape ++ '"' :: ':' :: rest) := by
    simp [writeString]
  rw [htext, readName, skipSpace_cons rfl]
  simp [readString_writeString, skipSpace_cons, isSpace]

/-! ## Numbers -/

/-- The double is neither infinite nor a NaN: its exponent bits are not all ones. -/
def isFinite (bits : UInt64) : Bool :=
  (bits >>> 52) &&& 0x7ff ≠ 0x7ff

/-- The text of finite doubles, given by their bits, and its reading. -/
class FloatText where
  write : UInt64 → List Char
  read : List Char → Option UInt64

/-- Doubles are written as numbers that no integer is written as, and read back. -/
class LawfulFloatText [FloatText] : Prop where
  read_write : ∀ bits, isFinite bits = true → FloatText.read (FloatText.write bits) = some bits
  isNumberChar_of_mem : ∀ bits, isFinite bits = true →
    ∀ c ∈ FloatText.write bits, isNumberChar c = true
  exists_mark : ∀ bits, isFinite bits = true → ∃ c ∈ FloatText.write bits, c = '.' ∨ c = 'e'

/-- The numbers that are stored in the form in which they are read. -/
def IsCanonical : Number → Prop
  | .posInt _ => True
  | .negInt n => n.toInt < 0
  | .float bits => isFinite bits = true

variable [FloatText]

/-- Write a number. -/
def writeNumber : Number → List Char
  | .posInt n => Nat.toDigits 10 n.toNat
  | .negInt n => '-' :: Nat.toDigits 10 n.toInt.natAbs
  | .float bits => FloatText.write bits

/-- The number a text without white space denotes. -/
def numberOf (cs : List Char) : Option Number :=
  match integerOf cs with
  | some n => some n
  | none => (FloatText.read cs).map .float

/-- Read a number, up to the first character that cannot belong to it. -/
def readNumber (cs : List Char) : Option (Number × List Char) :=
  (numberOf (cs.takeWhile isNumberChar)).map fun n => (n, cs.dropWhile isNumberChar)

/-- A number is written with characters of numbers. -/
theorem isNumberChar_of_mem_writeNumber [LawfulFloatText] {n : Number} (hn : IsCanonical n)
    {c : Char} (hc : c ∈ writeNumber n) : isNumberChar c = true := by
  cases n with
  | posInt n => exact isNumberChar_of_mem_toDigits hc
  | negInt n =>
    rcases List.mem_cons.mp hc with rfl | hc
    · rfl
    · exact isNumberChar_of_mem_toDigits hc
  | float bits => exact LawfulFloatText.isNumberChar_of_mem bits hn c hc

/-- A number is written with at least one character. -/
theorem writeNumber_ne_nil [LawfulFloatText] {n : Number} (hn : IsCanonical n) :
    writeNumber n ≠ [] := by
  cases n with
  | posInt n => exact Nat.toDigits_ne_nil
  | negInt n => exact List.cons_ne_nil _ _
  | float bits =>
    obtain ⟨c, hc, -⟩ := LawfulFloatText.exists_mark bits hn
    exact List.ne_nil_of_mem hc

/-- A number is read back from its text. -/
theorem numberOf_writeNumber [LawfulFloatText] {n : Number} (hn : IsCanonical n) :
    numberOf (writeNumber n) = some n := by
  cases n with
  | posInt n =>
    rw [numberOf, writeNumber, integerOf_toDigits n.toNat_lt, UInt64.ofNat_toNat]
  | negInt n =>
    have hneg : n.toInt < 0 := hn
    have hle := n.le_toInt
    have habs : (-(n.toInt.natAbs : ℤ)) = n.toInt := by omega
    rw [numberOf, writeNumber, integerOf_neg_toDigits (by omega) (by omega), habs,
      Int64.ofInt_toInt]
  | float bits =>
    obtain ⟨c, hmem, hc⟩ := LawfulFloatText.exists_mark bits hn
    rw [numberOf, writeNumber, integerOf_eq_none hmem hc, LawfulFloatText.read_write bits hn,
      Option.map_some]

/-- What follows a number starts with no character that could continue it. -/
def NoNumberHead (cs : List Char) : Prop :=
  ∀ c ∈ cs.head?, isNumberChar c = false

/-- A number is read back up to a character that does not continue it. -/
theorem readNumber_writeNumber [LawfulFloatText] {n : Number} (hn : IsCanonical n)
    {rest : List Char} (hrest : NoNumberHead rest) :
    readNumber (writeNumber n ++ rest) = some (n, rest) := by
  have hstop : rest.takeWhile isNumberChar = [] ∧ rest.dropWhile isNumberChar = rest := by
    cases rest with
    | nil => exact ⟨rfl, rfl⟩
    | cons c cs => simp [hrest c rfl]
  have hall : ∀ c ∈ writeNumber n, isNumberChar c = true :=
    fun c hc => isNumberChar_of_mem_writeNumber hn hc
  rw [readNumber, List.takeWhile_append_of_pos hall, List.dropWhile_append_of_pos hall, hstop.1,
    hstop.2, List.append_nil, numberOf_writeNumber hn, Option.map_some]

/-! ## Values -/

mutual

/-- Write a value. -/
def writeValue : Value → List Char
  | .null => ['n', 'u', 'l', 'l']
  | .bool true => ['t', 'r', 'u', 'e']
  | .bool false => ['f', 'a', 'l', 's', 'e']
  | .number n => writeNumber n
  | .string s => writeString s
  | .array elems => '[' :: writeElems true elems
  | .object members => '{' :: writeMembers true members

/-- Write the elements of an array and its closing bracket. -/
def writeElems (first : Bool) : List Value → List Char
  | [] => [']']
  | v :: vs => (if first then [] else [',']) ++ (writeValue v ++ writeElems false vs)

/-- Write the members of an object and its closing brace. -/
def writeMembers (first : Bool) : Members → List Char
  | [] => ['}']
  | (name, v) :: ms =>
    (if first then [] else [',']) ++
      (writeString name ++ ':' :: (writeValue v ++ writeMembers false ms))

end

/-- Read the comma before an element or a member that is not the first one. -/
def readSeparator (first : Bool) (cs : List Char) : Option (List Char) :=
  if first then some cs
  else match skipSpace cs with
    | ',' :: cs => some cs
    | _ => none

mutual

/-- Read a value. -/
def readValue : ℕ → List Char → Option (Value × List Char)
  | 0, _ => none
  | n + 1, cs =>
    match skipSpace cs with
    | 'n' :: 'u' :: 'l' :: 'l' :: cs => some (.null, cs)
    | 't' :: 'r' :: 'u' :: 'e' :: cs => some (.bool true, cs)
    | 'f' :: 'a' :: 'l' :: 's' :: 'e' :: cs => some (.bool false, cs)
    | '"' :: cs => (readString cs).map fun p => (.string p.1, p.2)
    | '[' :: cs => (readElems n true cs).map fun p => (.array p.1, p.2)
    | '{' :: cs => (readMembers n true cs).map fun p => (.object p.1, p.2)
    | cs => (readNumber cs).map fun p => (.number p.1, p.2)

/-- Read elements up to the closing bracket. -/
def readElems : ℕ → Bool → List Char → Option (List Value × List Char)
  | 0, _, _ => none
  | n + 1, first, cs =>
    match skipSpace cs with
    | ']' :: cs => some ([], cs)
    | cs => do
      let cs ← readSeparator first cs
      let (v, cs) ← readValue n cs
      let (vs, cs) ← readElems n false cs
      pure (v :: vs, cs)

/-- Read members up to the closing brace. -/
def readMembers : ℕ → Bool → List Char → Option (Members × List Char)
  | 0, _, _ => none
  | n + 1, first, cs =>
    match skipSpace cs with
    | '}' :: cs => some ([], cs)
    | cs => do
      let cs ← readSeparator first cs
      let (name, cs) ← readName cs
      let (v, cs) ← readValue n cs
      let (ms, cs) ← readMembers n false cs
      pure ((name, v) :: ms, cs)

end

/-- Read a text of one value. -/
def read (cs : List Char) : Option Value :=
  match readValue cs.length cs with
  | some (v, rest) => if (skipSpace rest).isEmpty then some v else none
  | none => none

/-! ## Round trip -/

mutual

/-- Every number in the value is canonical, so the value can be written and read back. -/
def CanWrite : Value → Prop
  | .null => True
  | .bool _ => True
  | .number n => IsCanonical n
  | .string _ => True
  | .array elems => ElemsCanWrite elems
  | .object members => MembersCanWrite members

/-- Every element can be written. -/
def ElemsCanWrite : List Value → Prop
  | [] => True
  | v :: vs => CanWrite v ∧ ElemsCanWrite vs

/-- The value of every member can be written. -/
def MembersCanWrite : Members → Prop
  | [] => True
  | (_, v) :: ms => CanWrite v ∧ MembersCanWrite ms

end

omit [FloatText] in
/-- An array can be written if its elements can. -/
theorem elemsCanWrite_iff {vs : List Value} : ElemsCanWrite vs ↔ ∀ v ∈ vs, CanWrite v := by
  induction vs with
  | nil => simp [ElemsCanWrite]
  | cons v vs ih => rw [ElemsCanWrite, ih, List.forall_mem_cons]

/-- A number is read where a number starts. -/
theorem readValue_of_isNumberChar {c : Char} (hc : isNumberChar c = true) (n : ℕ)
    (cs : List Char) : readValue (n + 1) (c :: cs) =
      (readNumber (c :: cs)).map fun p => (.number p.1, p.2) := by
  rw [readValue, skipSpace_cons (isSpace_of_isNumberChar hc)]
  split
  case h_7 => rfl
  -- none of the other tokens starts like a number
  all_goals
    next hcs =>
      rw [(List.cons.inj hcs).1] at hc
      exact absurd hc (by decide)

/-- The text of an array is not empty. -/
theorem writeElems_pos (first : Bool) (vs : List Value) : 0 < (writeElems first vs).length := by
  induction vs generalizing first with
  | nil => exact Nat.succ_pos 0
  | cons v vs ih =>
    have htail := ih false
    rw [writeElems, List.length_append, List.length_append]
    omega

theorem writeMembers_pos (first : Bool) (ms : Members) :
    0 < (writeMembers first ms).length := by
  obtain _ | ⟨⟨name, v⟩, ms⟩ := ms
  · exact Nat.succ_pos 0
  · rw [writeMembers, List.length_append, List.length_append, List.length_cons]
    omega

/-- What follows a value in an array or an object does not continue a number. -/
theorem noNumberHead_writeElems (vs : List Value) (rest : List Char) :
    NoNumberHead (writeElems false vs ++ rest) := by
  cases vs <;> simp [writeElems, NoNumberHead] <;> decide

/-- No number continues into the members behind it. -/
theorem noNumberHead_writeMembers (ms : Members) (rest : List Char) :
    NoNumberHead (writeMembers false ms ++ rest) := by
  cases ms <;> simp [writeMembers, NoNumberHead] <;> decide

/-- One more member: what is left to read is its name, its value and then the others. -/
theorem readMembers_of_readValue {n : ℕ} {first : Bool} {name : String} {v : Value}
    {ms : Members} {rest rest' : List Char}
    (hvalue : readValue n (writeValue v ++ rest) = some (v, rest))
    (hrest : readMembers n false rest = some (ms, rest')) :
    readMembers (n + 1) first
        ((if first then [] else [',']) ++ (writeString name ++ ':' :: (writeValue v ++ rest))) =
      some ((name, v) :: ms, rest') := by
  have hname := readName_writeString name (writeValue v ++ rest)
  obtain ⟨cs, hcs⟩ : ∃ cs, writeString name ++ ':' :: (writeValue v ++ rest) = '"' :: cs :=
    ⟨_, rfl⟩
  rw [hcs] at hname ⊢
  cases first with
  | true =>
    rw [if_pos rfl, List.nil_append, readMembers, skipSpace_cons rfl]
    simp [readSeparator, hname, hvalue, hrest]
  | false =>
    rw [if_neg Bool.false_ne_true, List.cons_append, List.nil_append, readMembers,
      skipSpace_cons rfl]
    simp [readSeparator, skipSpace_cons, isSpace, hname, hvalue, hrest]

/-- The first character of a value starts neither white space nor the end of an array. -/
theorem writeValue_eq_cons [LawfulFloatText] {v : Value} (hv : CanWrite v) :
    ∃ c cs, writeValue v = c :: cs ∧ isSpace c = false ∧ c ≠ ']' := by
  cases v with
  | null => exact ⟨_, _, rfl, rfl, by decide⟩
  | bool b => cases b <;> exact ⟨_, _, rfl, rfl, by decide⟩
  | number n =>
    rw [writeValue]
    obtain ⟨c, cs, hcs⟩ := List.exists_cons_of_ne_nil (writeNumber_ne_nil hv)
    have hmem : c ∈ writeNumber n := hcs ▸ List.mem_cons_self
    have hc := isNumberChar_of_mem_writeNumber hv hmem
    refine ⟨c, cs, hcs, isSpace_of_isNumberChar hc, ?_⟩
    rintro rfl
    exact absurd hc (by decide)
  | string s => exact ⟨_, _, rfl, rfl, by decide⟩
  | array elems => exact ⟨_, _, by rw [writeValue], rfl, by decide⟩
  | object members => exact ⟨_, _, by rw [writeValue], rfl, by decide⟩

theorem writeValue_pos [LawfulFloatText] {v : Value} (hv : CanWrite v) :
    0 < (writeValue v).length := by
  obtain ⟨c, cs, hcs, -, -⟩ := writeValue_eq_cons hv
  rw [hcs]
  exact Nat.succ_pos _

/-- One more element: what is left to read is the element and then the others. -/
theorem readElems_of_readValue [LawfulFloatText] {n : ℕ} {first : Bool} {v : Value}
    {vs : List Value} {rest rest' : List Char} (hv : CanWrite v)
    (hvalue : readValue n (writeValue v ++ rest) = some (v, rest))
    (hrest : readElems n false rest = some (vs, rest')) :
    readElems (n + 1) first ((if first then [] else [',']) ++ (writeValue v ++ rest)) =
      some (v :: vs, rest') := by
  obtain ⟨c, cs, hcs, hspace, hclose⟩ := writeValue_eq_cons hv
  rw [hcs, List.cons_append] at hvalue ⊢
  cases first with
  | true =>
    rw [if_pos rfl, List.nil_append, readElems, skipSpace_cons hspace]
    split
    next hcons => exact absurd (List.cons.inj hcons).1 hclose
    next => simp [readSeparator, hvalue, hrest]
  | false =>
    rw [if_neg Bool.false_ne_true, List.cons_append, List.nil_append, readElems,
      skipSpace_cons rfl]
    simp [readSeparator, skipSpace_cons, isSpace, hvalue, hrest]

mutual

/-- A value is read back from its text, whatever follows it. -/
theorem readValue_writeValue_append [LawfulFloatText] : ∀ (v : Value) (n : ℕ)
    (rest : List Char), CanWrite v → (writeValue v).length ≤ n → NoNumberHead rest →
    readValue n (writeValue v ++ rest) = some (v, rest)
  | v, 0, rest, hv, hn, _ => by
    have := writeValue_pos hv
    omega
  | .null, n + 1, rest, _, _, _ => rfl
  | .bool true, n + 1, rest, _, _, _ => rfl
  | .bool false, n + 1, rest, _, _, _ => rfl
  | .number m, n + 1, rest, hv, _, hrest => by
    -- a value that starts with a character of numbers is a number
    obtain ⟨c, cs, hcs⟩ := List.exists_cons_of_ne_nil (writeNumber_ne_nil hv)
    have hmem : c ∈ writeNumber m := hcs ▸ List.mem_cons_self
    have hc := isNumberChar_of_mem_writeNumber hv hmem
    have hread := readNumber_writeNumber hv hrest
    rw [hcs, List.cons_append] at hread
    rw [writeValue, hcs, List.cons_append, readValue_of_isNumberChar hc, hread, Option.map_some]
  | .string s, n + 1, rest, _, _, _ => by
    have htext : writeString s ++ rest = '"' :: (s.toList.flatMap escape ++ '"' :: rest) := by
      simp [writeString]
    rw [writeValue, htext, readValue, skipSpace_cons rfl]
    simp only [readString_writeString, Option.map_some]
  | .array elems, n + 1, rest, hv, hn, _ => by
    -- the bracket takes one of the steps, the elements have the others
    rw [writeValue, List.length_cons] at hn
    rw [writeValue, List.cons_append, readValue, skipSpace_cons rfl]
    simp only [readElems_writeElems_append elems n true rest hv (by omega), Option.map_some]
  | .object members, n + 1, rest, hv, hn, _ => by
    rw [writeValue, List.length_cons] at hn
    rw [writeValue, List.cons_append, readValue, skipSpace_cons rfl]
    simp only [readMembers_writeMembers_append members n true rest hv (by omega), Option.map_some]

/-- The elements of an array are read back. -/
theorem readElems_writeElems_append [LawfulFloatText] : ∀ (vs : List Value) (n : ℕ) (first : Bool)
    (rest : List Char), ElemsCanWrite vs → (writeElems first vs).length ≤ n →
    readElems n first (writeElems first vs ++ rest) = some (vs, rest)
  | [], 0, first, rest, _, hn => by simp [writeElems] at hn
  | [], n + 1, first, rest, _, _ => rfl
  | v :: vs, n, first, rest, hvs, hn => by
    -- the text of each part is shorter than the whole, which the fuel bounds
    have hpos := writeValue_pos hvs.1
    have hlen := writeElems_pos false vs
    rw [writeElems, List.length_append, List.length_append] at hn
    obtain ⟨n, rfl⟩ := Nat.exists_eq_succ_of_ne_zero (by omega : n ≠ 0)
    have hvalue := readValue_writeValue_append v n (writeElems false vs ++ rest) hvs.1 (by omega)
      (noNumberHead_writeElems vs rest)
    have hrest := readElems_writeElems_append vs n false rest hvs.2 (by omega)
    rw [writeElems, List.append_assoc, List.append_assoc]
    exact readElems_of_readValue hvs.1 hvalue hrest

/-- The members of an object are read back. -/
theorem readMembers_writeMembers_append [LawfulFloatText] : ∀ (ms : Members) (n : ℕ) (first : Bool)
    (rest : List Char), MembersCanWrite ms → (writeMembers first ms).length ≤ n →
    readMembers n first (writeMembers first ms ++ rest) = some (ms, rest)
  | [], 0, first, rest, _, hn => by simp [writeMembers] at hn
  | [], n + 1, first, rest, _, _ => rfl
  | (name, v) :: ms, n, first, rest, hms, hn => by
    have hpos := writeValue_pos hms.1
    have hlen := writeMembers_pos false ms
    rw [writeMembers, List.length_append, List.length_append, List.length_cons,
      List.length_append] at hn
    obtain ⟨n, rfl⟩ := Nat.exists_eq_succ_of_ne_zero (by omega : n ≠ 0)
    have hvalue := readValue_writeValue_append v n (writeMembers false ms ++ rest) hms.1 (by omega)
      (noNumberHead_writeMembers ms rest)
    have hrest := readMembers_writeMembers_append ms n false rest hms.2 (by omega)
    rw [writeMembers, List.append_assoc, List.append_assoc, List.cons_append, List.append_assoc]
    exact readMembers_of_readValue hvalue hrest

end

/-- What is written is read back. -/
theorem read_writeValue [LawfulFloatText] {v : Value} (hv : CanWrite v) :
    read (writeValue v) = some v := by
  have hread := readValue_writeValue_append v (writeValue v).length [] hv (Nat.le_refl _)
    (by simp [NoNumberHead])
  rw [List.append_nil] at hread
  simp [read, hread, skipSpace]

/-! ## Bytes -/

mutual

/-- No control character is written in a value. -/
theorem all_writeValue [LawfulFloatText] : ∀ v : Value, CanWrite v →
    (writeValue v).all (fun c => !isControl c) = true
  | .null, _ => rfl
  | .bool true, _ => rfl
  | .bool false, _ => rfl
  | .number n, hv => by
    rw [writeValue, List.all_eq_true]
    intro c hc
    rw [isControl_of_isNumberChar (isNumberChar_of_mem_writeNumber hv hc)]
    rfl
  | .string s, _ => all_writeString s
  | .array elems, hv => by
    rw [writeValue, List.all_cons, all_writeElems true elems hv]
    rfl
  | .object members, hv => by
    rw [writeValue, List.all_cons, all_writeMembers true members hv]
    rfl

/-- Nor in the elements of an array. -/
theorem all_writeElems [LawfulFloatText] : ∀ (first : Bool) (vs : List Value), ElemsCanWrite vs →
    (writeElems first vs).all (fun c => !isControl c) = true
  | _, [], _ => rfl
  | first, v :: vs, hvs => by
    rw [writeElems, List.all_append, List.all_append, all_writeValue v hvs.1,
      all_writeElems false vs hvs.2]
    cases first <;> rfl

/-- Nor in the members of an object. -/
theorem all_writeMembers [LawfulFloatText] : ∀ (first : Bool) (ms : Members), MembersCanWrite ms →
    (writeMembers first ms).all (fun c => !isControl c) = true
  | _, [], _ => rfl
  | first, (name, v) :: ms, hms => by
    rw [writeMembers, List.all_append, List.all_append, List.all_cons, List.all_append,
      all_writeString, all_writeValue v hms.1, all_writeMembers false ms hms.2]
    cases first <;> rfl

end

/-- The bytes of a value's text. -/
def encode (v : Value) : List UInt8 :=
  DelimitedText.utf8 (String.ofList (writeValue v))

/-- Read the bytes of a text. -/
def decode (bs : List UInt8) : Option Value := do
  let s ← DelimitedText.fromUtf8 bs
  read s.toList

/-- What is written for a value is read as that value. -/
theorem decode_encode [LawfulFloatText] {v : Value} (hv : CanWrite v) :
    decode (encode v) = some v := by
  simp [decode, encode, read_writeValue hv]

/-- No control character is written, so a text fits on one line. -/
theorem notMem_encode [LawfulFloatText] {v : Value} (hv : CanWrite v) {c : Char}
    (hc : isControl c = true) : UInt8.ofNat c.toNat ∉ encode v := by
  intro hmem
  have hlt : c.toNat < 0x20 := by simpa [isControl] using hc
  have htext := DelimitedText.mem_toList_of_mem_utf8 (by omega) hmem
  rw [String.toList_ofList] at htext
  have hcontrol := List.all_eq_true.mp (all_writeValue v hv) c htext
  rw [hc] at hcontrol
  cases hcontrol

/-! ## Formats -/

/-- A serializer of JSON, and the reader at the other end of a connection. -/
class JsonFormat where
  toVec : Value → List UInt8
  read : List UInt8 → Option Value

/-- What is relied on of them: a text is read back, and has no control characters. -/
class LawfulJsonFormat [JsonFormat] : Prop where
  read_toVec : ∀ v, CanWrite v → JsonFormat.read (JsonFormat.toVec v) = some v
  notMem_toVec : ∀ v, CanWrite v → ∀ c, isControl c = true →
    UInt8.ofNat c.toNat ∉ JsonFormat.toVec v

/-- Compact text as a format. -/
@[reducible] def compactFormat : JsonFormat where
  toVec := encode
  read := decode

/-- Compact text is read back and fits on a line. -/
theorem lawful_compactFormat [LawfulFloatText] : @LawfulJsonFormat compactFormat :=
  let _ : JsonFormat := compactFormat
  { read_toVec := fun _ hv => decode_encode hv
    notMem_toVec := fun _ hv _ hc => notMem_encode hv hc }

end JsonText
