import ElectrumStreamingClient.Protocol.ResponseDecoders

/-!
# Two formats of header lists

The responses of `blockchain.block.headers` come in two formats: up to version 1.5 of the protocol
the headers are one string under `hex`, from 1.6 on an array of strings under `headers`. The
response types take either format under either name, but not two of them, and the caller cannot
tell which one the server used.
-/

namespace ElectrumStreamingClient

open Serde HeaderCodec

/-! ## Decoding to the same -/

/-- Both succeed, with the same value, or both fail. -/
def SameOk {α : Type} (x y : Except Error α) : Prop :=
  ∀ a, x = .ok a ↔ y = .ok a

theorem SameOk.of_eq {α : Type} {x y : Except Error α} (h : x = y) : SameOk x y :=
  fun _ => by rw [h]

/-- Structs decode to the same if their fields do. -/
theorem SameOk.field {α β : Type} {r : Record (α → β)} {f : StructField α} {ms ms' : Members}
    (hr : SameOk (r.ofMembers ms) (r.ofMembers ms'))
    (hf : SameOk (f.ofMembers ms) (f.ofMembers ms')) :
    SameOk ((r.field f).ofMembers ms) ((r.field f).ofMembers ms') := by
  intro b
  simp only [Record.ofMembers_field, bind_eq_ok_iff, hr _, hf _]

/-! ## The field -/

/-- Either name of the field. -/
def IsHeadersName (name : String) : Prop :=
  name = "headers" ∨ name = "hex"

instance : DecidablePred IsHeadersName :=
  fun _ => inferInstanceAs (Decidable (_ ∨ _))

/-- The other fields do not notice that the headers are given in another way. -/
theorem SameOk.otherField {α : Type} {known name name' : String} (d : Decoder α)
    (hknown : ¬IsHeadersName known) (hname : IsHeadersName name) (hname' : IsHeadersName name')
    (v v' : Value) (before after : Members) :
    SameOk
      ((StructField.required known d).ofMembers (ownedMembers (before ++ (name, v) :: after) []))
      ((StructField.required known d).ofMembers
        (ownedMembers (before ++ (name', v') :: after) [])) := by
  have hnotMem {name : String} (h : IsHeadersName name) :
      name ∉ (StructField.required known d).names := by
    intro hmem
    cases List.mem_singleton.mp hmem
    exact hknown h
  -- the list of headers is under neither of the names that the field looks at
  apply SameOk.of_eq
  apply StructField.ofMembers_owned
  apply StructField.alikeMembers_of_agreeOn
  intro other hother
  rw [AgreeOn.of_notMem (hnotMem hname) v before after other hother,
    AgreeOn.of_notMem (hnotMem hname') v' before after other hother]

variable [Bitcoin] [HeaderCodec]

/-- The headers are the last member of the one name that occurs. -/
theorem ofMembers_headersField (ms : Members) :
    headersField.ofMembers (ownedMembers ms []) =
      match lastNamed "headers" ms, lastNamed "hex" ms with
      | none, none => .error (.missingField "headers")
      | some v, none => decodeHeaders v.owned
      | none, some v => decodeHeaders v.owned
      | some _, some _ => .error (.duplicateField "headers") := by
  simp only [StructField.ofMembers, headersField, StructField.withAliases, StructField.required,
    StructField.names, List.nil_append, List.flatMap_cons, List.flatMap_nil,
    membersNamed_ownedMembers]
  rcases lastNamed "headers" ms with _ | v <;> rcases lastNamed "hex" ms with _ | w <;> rfl

/-- An object with one list of headers. -/
theorem ofMembers_headersField_middle {name : String} (hname : IsHeadersName name) (v : Value)
    {before after : Members} (hbefore : ∀ name, IsHeadersName name → ¬HasMember name before)
    (hafter : ∀ name, IsHeadersName name → ¬HasMember name after) :
    headersField.ofMembers (ownedMembers (before ++ (name, v) :: after) []) =
      decodeHeaders v.owned := by
  have hlast {known : String} (hknown : IsHeadersName known) :
      lastNamed known (before ++ (name, v) :: after) = if name = known then some v else none := by
    rw [lastNamed_append, lastNamed_cons, lastNamed_eq_none_iff.mpr (hbefore _ hknown),
      lastNamed_eq_none_iff.mpr (hafter _ hknown), Option.or_none, Option.none_or]
  rw [ofMembers_headersField, hlast (.inl rfl), hlast (.inr rfl)]
  rcases hname with rfl | rfl <;> rfl

omit [Bitcoin] [HeaderCodec] in
/-- The pieces of a string are owned already. -/
theorem owned_hexPieces (s : String) :
    (Value.array (hexPieces s)).owned = .array (hexPieces s) := by
  rw [Value.owned, ownedElems_eq_map, hexPieces, List.map_map]
  rfl

/-- Under either name, the two formats of a list decode to the same headers. -/
theorem SameOk.headersField [LawfulHeaderCodec] {name name' : String}
    (hname : IsHeadersName name) (hname' : IsHeadersName name') (s : String)
    {before after : Members} (hbefore : ∀ name, IsHeadersName name → ¬HasMember name before)
    (hafter : ∀ name, IsHeadersName name → ¬HasMember name after) :
    SameOk
      (headersField.ofMembers (ownedMembers (before ++ (name, .string s) :: after) []))
      (headersField.ofMembers
        (ownedMembers (before ++ (name', .array (hexPieces s)) :: after) [])) := by
  rw [ofMembers_headersField_middle hname _ hbefore hafter,
    ofMembers_headersField_middle hname' _ hbefore hafter, owned_hexPieces]
  intro headers
  rw [decodeHeaders_eq_iff, decodeHeaders_eq_iff, Value.owned]
  exact headersFromHexOrList_hexPieces_iff.symm

/-! ## The responses -/

/-- A response decodes alike from both formats of its headers. -/
structure FormatsAgree {α : Type} (decode : Value → Except Error α)
    (headers : α → List Bitcoin.Header) : Prop where
  /-- In an object with one list of headers, its format and its name do not matter. -/
  same {name name' : String} (hname : IsHeadersName name) (hname' : IsHeadersName name')
    (s : String) {before after : Members}
    (hbefore : ∀ name, IsHeadersName name → ¬HasMember name before)
    (hafter : ∀ name, IsHeadersName name → ¬HasMember name after) :
    SameOk (decode (Value.object (before ++ (name, .string s) :: after)).owned)
      (decode (Value.object (before ++ (name', .array (hexPieces s)) :: after)).owned)
  /-- The headers are all that the string has. -/
  headers_eq {name : String} (hname : IsHeadersName name) (s : String) {before after : Members}
    (hbefore : ∀ name, IsHeadersName name → ¬HasMember name before)
    (hafter : ∀ name, IsHeadersName name → ¬HasMember name after) {resp : α}
    (h : decode (Value.object (before ++ (name, .string s) :: after)).owned = .ok resp) :
    Hex.decode s.toList = some ((headers resp).flatMap encodeHeader)
  /-- An object with two lists of headers does not decode, and one without does not either. -/
  hasMember_iff {ms : Members} {resp : α} (h : decode (Value.object ms).owned = .ok resp) :
    HasMember "headers" ms ↔ ¬HasMember "hex" ms

/-- A decoded list is under one of its names. -/
theorem hasMember_iff_of_headersField {ms : Members} {headers : List Bitcoin.Header}
    (h : headersField.ofMembers (ownedMembers ms []) = .ok headers) :
    HasMember "headers" ms ↔ ¬HasMember "hex" ms := by
  rw [ofMembers_headersField] at h
  rw [← lastNamed_eq_none_iff, ← not_iff_not, ← lastNamed_eq_none_iff]
  generalize lastNamed "headers" ms = inHeaders at h ⊢
  generalize lastNamed "hex" ms = inHex at h ⊢
  cases inHeaders <;> cases inHex <;> simp at h ⊢

/-- The headers of a response are those of its field. -/
theorem HeadersResp.headers_of_decode {ms : Members} {resp : HeadersResp}
    (h : HeadersResp.decoder.decode (.object ms) = .ok resp) :
    headersField.ofMembers ms = .ok resp.headers := by
  simp only [decoder, Record.decode_object, Record.ofMembers_field, Record.ofMembers_of,
    bind_eq_ok_iff, pure_eq_ok_iff] at h
  obtain ⟨_, ⟨_, ⟨_, rfl, count, -, rfl⟩, headers, hheaders, rfl⟩, max, -, rfl⟩ := h
  exact hheaders

/-- So it is with a checkpoint. -/
theorem HeadersWithCheckpointResp.headers_of_decode [ResponseConversions] {ms : Members}
    {resp : HeadersWithCheckpointResp}
    (h : HeadersWithCheckpointResp.decoder.decode (.object ms) = .ok resp) :
    headersField.ofMembers ms = .ok resp.headers := by
  simp only [decoder, Record.decode_object, Record.ofMembers_field, Record.ofMembers_of,
    bind_eq_ok_iff, pure_eq_ok_iff] at h
  obtain ⟨_, ⟨_, ⟨_, ⟨_, ⟨_, rfl, count, -, rfl⟩, headers, hheaders, rfl⟩, max, -, rfl⟩, root, -,
    rfl⟩, branch, -, rfl⟩ := h
  exact hheaders

variable [LawfulHeaderCodec]

/-- The headers of a field in the older format are those that its string spells. -/
theorem decode_of_headersField {name : String} (hname : IsHeadersName name) (s : String)
    {before after : Members} (hbefore : ∀ name, IsHeadersName name → ¬HasMember name before)
    (hafter : ∀ name, IsHeadersName name → ¬HasMember name after) {headers : List Bitcoin.Header}
    (h : headersField.ofMembers (ownedMembers (before ++ (name, .string s) :: after) []) =
      .ok headers) :
    Hex.decode s.toList = some (headers.flatMap encodeHeader) := by
  rw [ofMembers_headersField_middle hname _ hbefore hafter, decodeHeaders_eq_iff, Value.owned] at h
  exact headersFromHexOrList_string_iff.mp h

/-- Headers without a checkpoint decode alike from both formats. -/
theorem HeadersResp.formatsAgree :
    FormatsAgree HeadersResp.decoder.decode HeadersResp.headers where
  same hname hname' s _ _ hbefore hafter :=
    .field (.field (.field (.of_eq rfl) (.otherField _ (by decide) hname hname' _ _ _ _))
      (.headersField hname hname' s hbefore hafter))
      (.otherField _ (by decide) hname hname' _ _ _ _)
  headers_eq hname s _ _ hbefore hafter resp h :=
    decode_of_headersField hname s hbefore hafter (headers_of_decode h)
  hasMember_iff h := hasMember_iff_of_headersField (headers_of_decode h)

/-- Headers with a checkpoint decode alike from both formats. -/
theorem HeadersWithCheckpointResp.formatsAgree [ResponseConversions] :
    FormatsAgree HeadersWithCheckpointResp.decoder.decode HeadersWithCheckpointResp.headers where
  same hname hname' s _ _ hbefore hafter :=
    .field (.field (.field (.field (.field (.of_eq rfl)
      (.otherField _ (by decide) hname hname' _ _ _ _))
      (.headersField hname hname' s hbefore hafter))
      (.otherField _ (by decide) hname hname' _ _ _ _))
      (.otherField _ (by decide) hname hname' _ _ _ _))
      (.otherField _ (by decide) hname hname' _ _ _ _)
  headers_eq hname s _ _ hbefore hafter resp h :=
    decode_of_headersField hname s hbefore hafter (headers_of_decode h)
  hasMember_iff h := hasMember_iff_of_headersField (headers_of_decode h)

/-- Both responses with lists of headers decode alike from both formats. -/
theorem formatsAgree_headers [ResponseConversions] :
    FormatsAgree (Deserialize.deserialize (T := Request.Response Request.Headers))
        HeadersResp.headers ∧
      FormatsAgree (Deserialize.deserialize (T := Request.Response Request.HeadersWithCheckpoint))
        HeadersWithCheckpointResp.headers :=
  ⟨HeadersResp.formatsAgree, HeadersWithCheckpointResp.formatsAgree⟩

/-- Two headers as the older format writes them. -/
def twoHeadersText : String :=
  String.ofList (Hex.encode (twoHeaders.flatMap Subtype.val))

/-- The headers under a name, between the other members of the response. -/
def headersMembers (name : String) (v : Value) : Members :=
  [("count", .number (.posInt 2))] ++ (name, v) :: [("max", .number (.posInt 2016))]

omit [Bitcoin] [HeaderCodec] [LawfulHeaderCodec] in
/-- Two headers decode alike as a string and as an array. -/
theorem formatsAgree_headers_two :
    letI : Bitcoin := byteBitcoin
    letI : HeaderCodec := byteHeaderCodec
    SameOk
      (HeadersResp.decoder.decode
        (Value.object (headersMembers "hex" (.string twoHeadersText))).owned)
      (HeadersResp.decoder.decode
        (Value.object (headersMembers "headers" (.array (hexPieces twoHeadersText)))).owned) := by
  let _ : Bitcoin := byteBitcoin
  let _ : HeaderCodec := byteHeaderCodec
  have _ : LawfulHeaderCodec := lawfulHeaderCodec_byteHeaderCodec
  let _ : ResponseConversions := byteConversions
  have hnone {known : String} {v : Value} (hknown : ¬IsHeadersName known) (name : String)
      (hname : IsHeadersName name) : ¬HasMember name [(known, v)] := by
    rintro ⟨w, hw⟩
    cases List.mem_singleton.mp hw
    exact hknown hname
  exact formatsAgree_headers.1.same (.inr rfl) (.inl rfl) twoHeadersText
    (hnone (by decide)) (hnone (by decide))

end ElectrumStreamingClient
