import ElectrumStreamingClient.Foundations.Loop
import ElectrumStreamingClient.Protocol.Hashes

/-!
# Lists of headers

`custom_serde::headers_from_hex_or_list` at `block::Header`: headers come as one string of hex
digits or as an array of such strings. The string is read by a loop over offsets, which is run here
with its slices, where a start past the end would panic. The loop finds a header in every 80 bytes
(`readHeaders_spec`), so both forms decode the same lists of headers.
-/

namespace ElectrumStreamingClient

open Serde FixedWidth

/-- Why an evaluation panics that does not check an assertion of its own. -/
inductive RuntimePanic where
  /-- A slice starts past the end. -/
  | sliceStart (start len : ℕ)
  | addOverflow
deriving DecidableEq

variable [Bitcoin]

/-- What the `bitcoin` crate does with the bytes of a header. -/
class HeaderCodec where
  /-- `consensus::serialize`. -/
  encodeHeader : Bitcoin.Header → List UInt8
  /-- `consensus::deserialize_partial`: a header and the number of bytes it was read from. -/
  deserializePartial : List UInt8 → Except String (Bitcoin.Header × ℕ)
  readCount_pos {data : List UInt8} {header : Bitcoin.Header} {readCount : ℕ}
    (h : deserializePartial data = .ok (header, readCount)) : 0 < readCount
  /-- `Vec::<u8>::from_hex`. -/
  fromHex : String → Except String (List UInt8)

open HeaderCodec

/-- A header is any 80 bytes, and hex digits may be in either case. -/
class LawfulHeaderCodec [HeaderCodec] : Prop where
  length_encodeHeader (header : Bitcoin.Header) : (encodeHeader header).length = 80
  exists_encodeHeader (block : List UInt8) (h : block.length = 80) :
    ∃ header : Bitcoin.Header, encodeHeader header = block
  deserializePartial_append (header : Bitcoin.Header) (rest : List UInt8) :
    deserializePartial (encodeHeader header ++ rest) = .ok (header, 80)
  deserializePartial_short {data : List UInt8} (h : data.length < 80) :
    ∃ e, deserializePartial data = .error e
  fromHex_eq_ok_iff {s : String} {data : List UInt8} :
    fromHex s = .ok data ↔ Hex.decode s.toList = some data
  deserializeHexHeader_eq_ok_iff {s : String} {header : Bitcoin.Header} :
    Bitcoin.deserializeHexHeader s = .ok header ↔
      ∃ data, Hex.decode s.toList = some data ∧
        deserializePartial data = .ok (header, data.length)

/-- `&data[start..]`. -/
def sliceFrom (data : List UInt8) (start : ℕ) : Except RuntimePanic (List UInt8) :=
  if start ≤ data.length then
    .ok (data.drop start)
  else
    .error (.sliceStart start data.length)

/-- What decoding a list of headers ends with. -/
abbrev ReadResult := Except RuntimePanic (Except Error (List Bitcoin.Header))

/-- The variables of the loop over the bytes of the headers. -/
structure ReadState where
  readStart : ℕ
  items : List Bitcoin.Header

variable [HeaderCodec]

/-- A round of the loop. -/
def readBody (data : List UInt8) (s : ReadState) : LoopStep ReadResult ReadState :=
  if s.readStart < data.length then
    match sliceFrom data s.readStart with
    | .error panic => .stop (.error panic) s
    | .ok slice =>
      match deserializePartial slice with
      -- the items that were read before are lost with the error
      | .error e => .stop (.ok (.error (.custom e))) s
      | .ok (item, readCount) =>
        .again { readStart := s.readStart + readCount, items := s.items ++ [item] }
  else
    .stop (.ok (.ok s.items)) s

/-- What a further round was preceded by. -/
theorem readBody_eq_again {data : List UInt8} {s s' : ReadState}
    (h : readBody data s = .again s') :
    s.readStart < data.length ∧ ∃ item readCount,
      deserializePartial (data.drop s.readStart) = .ok (item, readCount) ∧
        s' = { readStart := s.readStart + readCount, items := s.items ++ [item] } := by
  rw [readBody] at h
  split at h
  next hlt =>
    -- the condition of the loop is stronger than what the slice needs
    rw [sliceFrom, if_pos (Nat.le_of_lt hlt)] at h
    refine ⟨hlt, ?_⟩
    simp only at h
    split at h
    next => cases h
    next item readCount hitem =>
      cases h
      exact ⟨item, readCount, hitem, rfl⟩
  next => cases h

/-- What the loop is left with. -/
theorem readBody_eq_stop {data : List UInt8} {s s' : ReadState} {r : ReadResult}
    (h : readBody data s = .stop r s') :
    (data.length ≤ s.readStart ∧ r = .ok (.ok s.items)) ∨
      s.readStart < data.length ∧ ∃ e, deserializePartial (data.drop s.readStart) = .error e ∧
        r = .ok (.error (.custom e)) := by
  rw [readBody] at h
  split at h
  next hlt =>
    rw [sliceFrom, if_pos (Nat.le_of_lt hlt)] at h
    -- bytes are left, but no header can be read from them
    right
    refine ⟨hlt, ?_⟩
    simp only at h
    split at h
    next e he =>
      cases h
      exact ⟨e, he, rfl⟩
    next => cases h
  next hend =>
    cases h
    exact Or.inl ⟨Nat.le_of_not_lt hend, rfl⟩

/-- A further round starts nearer to the end. -/
theorem unread_readBody (data : List UInt8) (s s' : ReadState) (h : readBody data s = .again s') :
    data.length - s'.readStart < data.length - s.readStart := by
  obtain ⟨hlt, item, readCount, hitem, rfl⟩ := readBody_eq_again h
  have hpos := readCount_pos hitem
  show data.length - (s.readStart + readCount) < data.length - s.readStart
  omega

/-- Read headers from bytes. -/
def readHeaders (data : List UInt8) : ReadResult :=
  (runLoop (readBody data) (fun s => data.length - s.readStart) (unread_readBody data)
    { readStart := 0, items := [] }).1

/-- An element of the array form. -/
def headerOfElem : Value → Except Error Bitcoin.Header
  | .string hexStr => (Bitcoin.deserializeHexHeader hexStr).mapError Error.custom
  | _ => .error (.custom "expected hex string in headers array")

/-- `custom_serde::headers_from_hex_or_list`. -/
def headersFromHexOrList (v : Value) : ReadResult :=
  match v.owned with
  | .string hexStr =>
    match fromHex hexStr with
    | .error e => .ok (.error (.custom e))
    | .ok data => readHeaders data
  | .array arr => .ok (arr.mapM headerOfElem)
  | _ => .ok (.error (.custom "expected a hex string or array of hex strings for headers"))

/-! ## The loop -/

/-- The loop over the bytes of headers does not panic. -/
theorem readHeaders_returns (data : List UInt8) : ∃ result, readHeaders data = .ok result :=
  runLoop_rule (readBody data) (fun s => data.length - s.readStart) (unread_readBody data)
    (I := fun _ => True) (Q := fun _ r _ => ∃ result, r = .ok result)
    (fun s s' r _ hstop => by
      rcases readBody_eq_stop hstop with ⟨-, rfl⟩ | ⟨-, e, -, rfl⟩
      · exact ⟨_, rfl⟩
      · exact ⟨_, rfl⟩)
    (fun _ _ _ _ => ⟨trivial, fun _ _ hresult => hresult⟩) trivial

/-- Decoding headers always returns. -/
theorem headersFromHexOrList_returns (v : Value) :
    ∃ result, headersFromHexOrList v = .ok result := by
  unfold headersFromHexOrList
  split
  · split
    · exact ⟨_, rfl⟩
    next data _ => exact readHeaders_returns data
  · exact ⟨_, rfl⟩
  · exact ⟨_, rfl⟩

variable [LawfulHeaderCodec]

open LawfulHeaderCodec

omit [LawfulHeaderCodec] in
theorem flatMap_encodeHeader_cons (header : Bitcoin.Header) (headers : List Bitcoin.Header) :
    (header :: headers).flatMap encodeHeader =
      encodeHeader header ++ headers.flatMap encodeHeader := rfl

/-- A header is read exactly from its 80 bytes. -/
theorem deserializePartial_eq_ok_iff {data : List UInt8} {header : Bitcoin.Header}
    {readCount : ℕ} :
    deserializePartial data = .ok (header, readCount) ↔
      readCount = 80 ∧ data = encodeHeader header ++ data.drop 80 := by
  constructor
  · intro h
    -- what is shorter than a header does not decode, so its 80 bytes are there
    have hlength : 80 ≤ data.length := by
      by_contra hshort
      obtain ⟨e, he⟩ := deserializePartial_short (Nat.lt_of_not_le hshort)
      rw [he] at h
      cases h
    obtain ⟨header', hheader'⟩ := exists_encodeHeader (data.take 80) (by
      rw [List.length_take]
      omega)
    have hdata : data = encodeHeader header' ++ data.drop 80 := by
      rw [hheader', List.take_append_drop]
    rw [hdata, deserializePartial_append] at h
    cases h
    exact ⟨rfl, hdata⟩
  · rintro ⟨rfl, hdata⟩
    rw [hdata]
    exact deserializePartial_append header _

/-- The bytes of a header determine it. -/
theorem encodeHeader_injective :
    Function.Injective (encodeHeader : Bitcoin.Header → List UInt8) := by
  intro header header' h
  have hread := deserializePartial_append header []
  rw [h, deserializePartial_append] at hread
  cases hread
  rfl

/-- A header is the first of a list exactly if it is the first in its bytes. -/
theorem append_eq_flatMap_iff {header : Bitcoin.Header} {rest : List UInt8}
    {headers : List Bitcoin.Header} :
    encodeHeader header ++ rest = headers.flatMap encodeHeader ↔
      ∃ headers', headers = header :: headers' ∧ rest = headers'.flatMap encodeHeader := by
  have hlength := length_encodeHeader header
  constructor
  · intro h
    cases headers with
    | nil =>
      -- no headers have no bytes
      have hnil := congrArg List.length h
      rw [List.flatMap_nil, List.length_append, List.length_nil] at hnil
      omega
    | cons header' headers' =>
      rw [flatMap_encodeHeader_cons] at h
      obtain ⟨hheader, hrest⟩ := List.append_inj h (hlength.trans (length_encodeHeader _).symm)
      rw [encodeHeader_injective hheader]
      exact ⟨headers', rfl, hrest⟩
  · rintro ⟨headers', rfl, rfl⟩
    rfl

/-- Only no headers have no bytes. -/
theorem eq_nil_of_flatMap_eq_nil {headers : List Bitcoin.Header}
    (h : headers.flatMap encodeHeader = []) : headers = [] := by
  have hlength := length_flatMap length_encodeHeader headers
  rw [h, List.length_nil] at hlength
  apply List.length_eq_zero_iff.mp
  omega

omit [LawfulHeaderCodec] in
/-- The loop from a state gives its items, followed by the headers that the rest of the bytes is
made of, and an error if there are none such. -/
def ReadsRest (data : List UInt8) (s : ReadState) (r : ReadResult) : Prop :=
  ∃ result, r = .ok result ∧ ∀ headers, result = .ok headers ↔
    ∃ rest, headers = s.items ++ rest ∧ data.drop s.readStart = rest.flatMap encodeHeader

/-- A round that leaves the loop. -/
theorem readsRest_of_stop {data : List UInt8} {s s' : ReadState} {r : ReadResult}
    (h : readBody data s = .stop r s') : ReadsRest data s r := by
  rcases readBody_eq_stop h with ⟨hend, rfl⟩ | ⟨hlt, e, he, rfl⟩
  · refine ⟨.ok s.items, rfl, ?_⟩
    intro headers
    rw [List.drop_of_length_le hend]
    constructor
    · intro hitems
      cases hitems
      exact ⟨[], (List.append_nil _).symm, rfl⟩
    · rintro ⟨rest, rfl, hrest⟩
      rw [eq_nil_of_flatMap_eq_nil hrest.symm, List.append_nil]
  · refine ⟨.error (.custom e), rfl, ?_⟩
    intro headers
    constructor
    · intro herror
      cases herror
    · rintro ⟨rest, -, hrest⟩
      cases rest with
      | nil =>
        rw [List.flatMap_nil, List.drop_eq_nil_iff] at hrest
        omega
      | cons header rest =>
        -- the bytes that are left start with a header, which would have been read
        rw [hrest, flatMap_encodeHeader_cons, deserializePartial_append] at he
        cases he

/-- A round that is followed by another one. -/
theorem readsRest_of_again {data : List UInt8} {s s' : ReadState} {r : ReadResult}
    (h : readBody data s = .again s') (hrest : ReadsRest data s' r) : ReadsRest data s r := by
  obtain ⟨-, item, readCount, hitem, rfl⟩ := readBody_eq_again h
  obtain ⟨rfl, hdata⟩ := deserializePartial_eq_ok_iff.mp hitem
  obtain ⟨result, rfl, hresult⟩ := hrest
  refine ⟨result, rfl, ?_⟩
  intro headers
  rw [hresult, hdata, List.drop_drop]
  -- the header that was read is the first of those whose bytes are left
  constructor
  · rintro ⟨rest, rfl, hdrop⟩
    refine ⟨item :: rest, List.append_assoc _ _ _, ?_⟩
    rw [hdrop]
    rfl
  · rintro ⟨rest, rfl, hdrop⟩
    obtain ⟨rest', rfl, hrest'⟩ := append_eq_flatMap_iff.mp hdrop
    refine ⟨rest', ?_, hrest'⟩
    rw [List.append_assoc]
    rfl

/-- The loop does not panic, and reads exactly the headers that the bytes are made of. -/
theorem readHeaders_spec (data : List UInt8) :
    ∃ result, readHeaders data = .ok result ∧
      ∀ headers, result = .ok headers ↔ data = headers.flatMap encodeHeader := by
  -- nothing has to hold of the state: what a round adds to the result is known from its end
  have hloop : ReadsRest data { readStart := 0, items := [] } (readHeaders data) :=
    runLoop_rule (readBody data) (fun s => data.length - s.readStart) (unread_readBody data)
      (I := fun _ => True) (Q := fun s r _ => ReadsRest data s r)
      (fun _ _ _ _ => readsRest_of_stop)
      (fun _ _ _ hbody => ⟨trivial, fun _ _ => readsRest_of_again hbody⟩) trivial
  simpa [ReadsRest] using hloop

/-! ## The two forms -/

/-- The string form decodes exactly the headers that its bytes are made of. -/
theorem headersFromHexOrList_string_iff {s : String} {headers : List Bitcoin.Header} :
    headersFromHexOrList (.string s) = .ok (.ok headers) ↔
      Hex.decode s.toList = some (headers.flatMap encodeHeader) := by
  rw [← fromHex_eq_ok_iff]
  cases hhex : fromHex s with
  | error e => simp [headersFromHexOrList, Value.owned, hhex]
  | ok data =>
    obtain ⟨result, hresult, hspec⟩ := readHeaders_spec data
    simp only [headersFromHexOrList, Value.owned, hhex, hresult, Except.ok.injEq]
    exact hspec headers

/-- An element of the array form decodes exactly if it is the text of a header. -/
theorem headerOfElem_owned_iff {v : Value} {header : Bitcoin.Header} :
    headerOfElem v.owned = .ok header ↔
      ∃ s, v = .string s ∧ Hex.decode s.toList = some (encodeHeader header) := by
  cases v with
  | string s =>
    have hmap : headerOfElem (Value.string s).owned = .ok header ↔
        Bitcoin.deserializeHexHeader s = .ok header := by
      show (Bitcoin.deserializeHexHeader s).mapError Error.custom = .ok header ↔ _
      cases Bitcoin.deserializeHexHeader s <;> simp [Except.mapError]
    rw [hmap, deserializeHexHeader_eq_ok_iff]
    constructor
    · rintro ⟨data, hdata, hread⟩
      -- all of the data was read, so it is one header and no more
      obtain ⟨hlength, happend⟩ := deserializePartial_eq_ok_iff.mp hread
      rw [List.drop_of_length_le (Nat.le_of_eq hlength), List.append_nil] at happend
      exact ⟨s, rfl, by rw [hdata, happend]⟩
    · rintro ⟨_, hs, hdata⟩
      cases hs
      refine ⟨encodeHeader header, hdata, ?_⟩
      have hread := deserializePartial_append header []
      rwa [List.append_nil, ← length_encodeHeader header] at hread
  | _ => simp [Value.owned, headerOfElem]

omit [Bitcoin] [HeaderCodec] [LawfulHeaderCodec] in
/-- The elements of an owned array are owned one by one. -/
theorem ownedElems_eq_map (vs : List Value) : ownedElems vs = vs.map Value.owned := by
  induction vs with
  | nil => rfl
  | cons v vs ih => rw [ownedElems, ih, List.map_cons]

/-- The array form decodes exactly the headers whose texts its elements are. -/
theorem headersFromHexOrList_array_iff {vs : List Value} {headers : List Bitcoin.Header} :
    headersFromHexOrList (.array vs) = .ok (.ok headers) ↔
      List.Forall₂ (fun v header =>
        ∃ s, v = .string s ∧ Hex.decode s.toList = some (encodeHeader header)) vs headers := by
  show Except.ok ((ownedElems vs).mapM headerOfElem) = Except.ok (Except.ok headers) ↔ _
  rw [Except.ok.injEq, mapM_eq_ok_iff, ownedElems_eq_map, List.forall₂_map_left_iff]
  simp only [headerOfElem_owned_iff]

/-- The pieces of 80 bytes of a hex string. -/
def hexPieces (s : String) : List Value :=
  (blocks 160 s.toList).map fun piece => .string (String.ofList piece)

/-- The array form of the pieces of a string decodes as the string does. -/
theorem headersFromHexOrList_hexPieces_iff {s : String} {headers : List Bitcoin.Header} :
    headersFromHexOrList (.array (hexPieces s)) = .ok (.ok headers) ↔
      headersFromHexOrList (.string s) = .ok (.ok headers) := by
  rw [headersFromHexOrList_array_iff, headersFromHexOrList_string_iff, hexPieces,
    List.forall₂_map_left_iff]
  simp only [Value.string.injEq, exists_eq_left', String.toList_ofList]
  -- pieces of 160 digits are the pieces of 80 bytes, in both directions
  rw [← List.forall₂_map_right_iff (f := encodeHeader)
    (R := fun piece block => Hex.decode piece = some block)]
  constructor
  · intro h
    have hflatten := Hex.decode_flatten h
    rwa [flatten_blocks (by decide), ← List.flatMap_def] at hflatten
  · intro h
    have hblocks := Hex.decode_blocks (by decide : 0 < 80) h
    rwa [blocks_flatMap (by decide) length_encodeHeader] at hblocks

omit [LawfulHeaderCodec] in
/-- The two forms of a list of headers agree. -/
structure FormsAgree : Prop where
  /-- No evaluation panics. -/
  returns (v : Value) : ∃ result, headersFromHexOrList v = .ok result
  /-- The headers behind each other, with digits in either case, decode. -/
  string_ok (headers : List Bitcoin.Header) (s : String)
    (h : Hex.decode s.toList = some (headers.flatMap encodeHeader)) :
    headersFromHexOrList (.string s) = .ok (.ok headers)
  /-- The headers one by one decode. -/
  array_ok (headers : List Bitcoin.Header) (texts : List String)
    (h : List.Forall₂ (fun s header => Hex.decode s.toList = some (encodeHeader header))
      texts headers) :
    headersFromHexOrList (.array (texts.map .string)) = .ok (.ok headers)
  /-- A string decodes exactly if it is hex of a whole number of headers. -/
  string_iff (s : String) :
    (∃ headers, headersFromHexOrList (.string s) = .ok (.ok headers)) ↔
      ∃ data, Hex.decode s.toList = some data ∧ 80 ∣ data.length
  /-- A string decodes as the array of its pieces does. -/
  pieces_iff (s : String) (headers : List Bitcoin.Header) :
    headersFromHexOrList (.string s) = .ok (.ok headers) ↔
      headersFromHexOrList (.array (hexPieces s)) = .ok (.ok headers)
  /-- An array decodes exactly if each element is a string that is hex of one header. -/
  array_iff (vs : List Value) :
    (∃ headers, headersFromHexOrList (.array vs) = .ok (.ok headers)) ↔
      ∀ v ∈ vs, ∃ s data, v = .string s ∧ Hex.decode s.toList = some data ∧ data.length = 80
  /-- No part of a string is left unread. -/
  length_eq (s : String) (headers : List Bitcoin.Header)
    (h : headersFromHexOrList (.string s) = .ok (.ok headers)) : s.length = 160 * headers.length

/-- Lists of headers decode alike from both forms. -/
theorem headersFromHexOrList_formsAgree : FormsAgree where
  returns := headersFromHexOrList_returns
  string_ok headers s h := headersFromHexOrList_string_iff.mpr h
  array_ok headers texts h := by
    rw [headersFromHexOrList_array_iff, List.forall₂_map_left_iff]
    exact h.imp fun s header hs => ⟨s, rfl, hs⟩
  string_iff s := by
    simp only [headersFromHexOrList_string_iff]
    constructor
    · rintro ⟨headers, h⟩
      exact ⟨_, h, (exists_flatMap_iff length_encodeHeader exists_encodeHeader).mp ⟨headers, rfl⟩⟩
    · rintro ⟨data, hdata, hdvd⟩
      obtain ⟨headers, rfl⟩ :=
        (exists_flatMap_iff length_encodeHeader exists_encodeHeader).mpr hdvd
      exact ⟨headers, hdata⟩
  pieces_iff s headers := headersFromHexOrList_hexPieces_iff.symm
  array_iff vs := by
    simp only [headersFromHexOrList_array_iff, exists_forall₂_iff]
    -- each element decodes on its own
    apply forall₂_congr
    intro v _
    constructor
    · rintro ⟨header, s, hs, hdata⟩
      exact ⟨s, _, hs, hdata, length_encodeHeader header⟩
    · rintro ⟨s, data, hs, hdata, hlength⟩
      obtain ⟨header, rfl⟩ := exists_encodeHeader data hlength
      exact ⟨header, s, hs, hdata⟩
  length_eq s headers h := by
    have hlength := Hex.length_of_decode (headersFromHexOrList_string_iff.mp h)
    rw [length_flatMap length_encodeHeader, String.length_toList] at hlength
    omega

/-! ## Headers as bytes -/

omit [Bitcoin] [HeaderCodec] [LawfulHeaderCodec]

/-- A header that is its 80 bytes. -/
@[reducible] def byteHeaderCodec : @HeaderCodec byteBitcoin :=
  letI : Bitcoin := byteBitcoin
  { encodeHeader := Subtype.val
    deserializePartial := fun data =>
      if h : 80 ≤ data.length then
        .ok (⟨data.take 80, by rw [List.length_take]; omega⟩, 80)
      else
        .error "unexpected end of file"
    readCount_pos := by
      intro data header readCount h
      split at h
      · cases h
        decide
      · cases h
    fromHex := fun s =>
      match Hex.decode s.toList with
      | some data => .ok data
      | none => .error "invalid hex string" }

/-- Headers that are their bytes are read from them. -/
theorem lawfulHeaderCodec_byteHeaderCodec : @LawfulHeaderCodec byteBitcoin byteHeaderCodec :=
  letI : Bitcoin := byteBitcoin
  letI : HeaderCodec := byteHeaderCodec
  { length_encodeHeader := fun header => header.2
    exists_encodeHeader := fun block h => ⟨⟨block, h⟩, rfl⟩
    deserializePartial_append := by
      intro header rest
      have hlength : 80 ≤ (header.1 ++ rest).length := by
        rw [List.length_append, header.2]
        omega
      show (if h : 80 ≤ (header.1 ++ rest).length then _ else _) = _
      rw [dif_pos hlength]
      congr 2
      apply Subtype.ext
      exact List.take_left' header.2
    deserializePartial_short := by
      intro data h
      exact ⟨_, dif_neg (Nat.not_le_of_lt h)⟩
    fromHex_eq_ok_iff := by
      intro s data
      simp only [HeaderCodec.fromHex]
      cases Hex.decode s.toList <;> simp
    deserializeHexHeader_eq_ok_iff := by
      intro s header
      have hhex : Bitcoin.deserializeHexHeader s = .ok header ↔
          Hex.decode s.toList = some header.1 := deserializeHexHeader_byteBitcoin_iff
      rw [hhex]
      constructor
      · intro hdata
        refine ⟨header.1, hdata, ?_⟩
        have hlength : 80 ≤ header.1.length := Nat.le_of_eq header.2.symm
        show (if h : 80 ≤ header.1.length then _ else _) = _
        rw [dif_pos hlength]
        -- the header that is read and the count of its bytes
        congr 2
        · apply Subtype.ext
          exact List.take_of_length_le (Nat.le_of_eq header.2)
        · exact header.2.symm
      · rintro ⟨data, hdata, hread⟩
        change (if h : 80 ≤ data.length then _ else _) = _ at hread
        split at hread
        · obtain ⟨hheader, hlength⟩ := Prod.ext_iff.mp (Except.ok.inj hread)
          have htake := congrArg Subtype.val hheader
          change data.take 80 = header.1 at htake
          rw [hdata, ← htake, List.take_of_length_le (Nat.le_of_eq hlength.symm)]
        · cases hread }

/-- Two headers, of which one has all bits clear and one has all bits set. -/
def twoHeaders : List (Bytes 80) :=
  [Bytes.zeros 80, ⟨List.replicate 80 255, rfl⟩]

/-- They decode from either form. -/
theorem headersFromHexOrList_formsAgree_two :
    letI : Bitcoin := byteBitcoin
    letI : HeaderCodec := byteHeaderCodec
    headersFromHexOrList (.string (String.ofList (Hex.encode (twoHeaders.flatMap Subtype.val)))) =
        .ok (.ok twoHeaders) ∧
      headersFromHexOrList (.array ((twoHeaders.map Bytes.toHex).map .string)) =
        .ok (.ok twoHeaders) := by
  let _ : Bitcoin := byteBitcoin
  let _ : HeaderCodec := byteHeaderCodec
  have _ : LawfulHeaderCodec := lawfulHeaderCodec_byteHeaderCodec
  constructor
  · apply headersFromHexOrList_formsAgree.string_ok
    rw [String.toList_ofList, Hex.decode_encode]
    rfl
  · apply headersFromHexOrList_formsAgree.array_ok
    rw [List.forall₂_map_left_iff, List.forall₂_same]
    intro header _
    rw [Bytes.toHex, String.toList_ofList, Hex.decode_encode]
    rfl

end ElectrumStreamingClient
