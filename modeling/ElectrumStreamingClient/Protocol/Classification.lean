import ElectrumStreamingClient.Protocol.Decode

/-!
# Classification of incoming lines

Which JSON values decode as an incoming line, and as what. The decoders are described by the
members they look at (`NotificationShape`, `ResponseShape`), first for objects, then for single
messages (`RawIncoming.deserialize_eq_notification_iff` and its companions), then for lines.

JSON-RPC tells a notification from a response by its missing `id`. The decoders do not: a
notification may carry an `id`, and it may be written as a positional array (`Misread`). The main
result `classifiedByShape_iff` says that lines are classified as the protocol does exactly when no
message of theirs is misread.
-/

namespace ElectrumStreamingClient

open Serde

/-! ## Objects -/

/-- The object declares protocol version `"2.0"`. -/
def HasVersion20 (ms : Members) : Prop :=
  onlyMember "jsonrpc" ms = some (.string jsonrpcVersion20)

/-- The object has the members of a notification: version, a string method and parameters. -/
structure NotificationShape (ms : Members) : Prop where
  version : HasVersion20 ms
  method : ∃ m, onlyMember "method" ms = some (.string m)
  params : ∃ p, onlyMember "params" ms = some p

/-- The object has the members of a response: version, an id in range and a result or an error. -/
structure ResponseShape (ms : Members) : Prop where
  version : HasVersion20 ms
  id : ∃ v, onlyMember "id" ms = some v ∧ IsU32 v
  side : HasMember "result" ms ∨ HasMember "error" ms

/-- The version decodes exactly from the string `"2.0"`. -/
theorem CustomSerde.version_eq_ok_iff {v : Value} {w : Version} :
    CustomSerde.version v = .ok w ↔ v = .string jsonrpcVersion20 := by
  cases v with
  | string s =>
    simp only [CustomSerde.version, Value.asString, Value.string.injEq]
    by_cases h : s = jsonrpcVersion20 <;> simp [h, bind, Except.bind, pure, Except.pure]
  | _ => simp [CustomSerde.version, Value.asString, bind, Except.bind]

/-- An object decodes as a notification exactly by its `jsonrpc`, `method` and `params`. -/
theorem RawNotification.visitMap_eq_ok_iff {ms : Members} {raw : RawNotification} :
    RawNotification.visitMap ms = .ok raw ↔
      HasVersion20 ms ∧ onlyMember "method" ms = some (.string raw.method) ∧
        ∃ p, onlyMember "params" ms = some p ∧ p.owned = raw.params := by
  simp only [RawNotification.visitMap, bind_eq_ok_iff, pure_eq_ok_iff, field_eq_ok_iff,
    CustomSerde.version_eq_ok_iff, asString_eq_ok_iff, Value.asValue, Except.ok.injEq,
    exists_eq_right]
  constructor
  · rintro ⟨w, hversion, m, hmethod, p, hparams, rfl⟩
    exact ⟨hversion, hmethod, hparams⟩
  · rintro ⟨hversion, hmethod, hparams⟩
    exact ⟨raw.version, hversion, raw.method, hmethod, raw.params, hparams, rfl⟩

/-- An object decodes as a notification if it has the shape of one. -/
theorem RawNotification.exists_visitMap_iff {ms : Members} :
    (∃ raw, RawNotification.visitMap ms = .ok raw) ↔ NotificationShape ms := by
  constructor
  · rintro ⟨raw, h⟩
    obtain ⟨hversion, hmethod, p, hparams, -⟩ := RawNotification.visitMap_eq_ok_iff.mp h
    exact ⟨hversion, ⟨_, hmethod⟩, ⟨p, hparams⟩⟩
  · rintro ⟨hversion, ⟨m, hmethod⟩, ⟨p, hparams⟩⟩
    exact ⟨⟨{}, m, p.owned⟩, RawNotification.visitMap_eq_ok_iff.mpr
      ⟨hversion, hmethod, p, hparams, rfl⟩⟩

/-- The sides an object offers, `result` and `error` members alike, in text order. -/
def sides (ms : Members) : List (Except Value Value) :=
  ms.filterMap fun m =>
    if m.1 = "result" then some (.ok m.2.owned)
    else if m.1 = "error" then some (.error m.2.owned)
    else none

/-- A result or an error is a side of the response, and other members are none. -/
theorem sides_cons (m : String × Value) (ms : Members) :
    sides (m :: ms) =
      if m.1 = "result" then .ok m.2.owned :: sides ms
      else if m.1 = "error" then .error m.2.owned :: sides ms
      else sides ms := by
  unfold sides
  split_ifs with hresult herror <;> simp [*]

/-- The flattened result is the first side in text order. -/
theorem CustomSerde.result_eq_ok_iff {ms : Members} {r : Except Value Value} :
    CustomSerde.result ms = .ok r ↔ (sides ms).head? = some r := by
  induction ms with
  | nil => simp [CustomSerde.result, flattenedEnum, sides, Except.map]
  | cons m ms ih =>
    obtain ⟨name, v⟩ := m
    rw [sides_cons]
    by_cases hresult : name = "result"
    · subst hresult
      simp [CustomSerde.result, flattenedEnum, CustomSerde.T.variants, Value.asValue, Except.map]
    by_cases herror : name = "error"
    -- `"error"` is the second variant, so the lookup passes the first one
    · subst herror
      have hlookup : CustomSerde.T.variants.lookup "error" =
          some fun v => CustomSerde.T.error <$> v.asValue := rfl
      rw [CustomSerde.result, flattenedEnum, hlookup]
      simp [Value.asValue, Except.map]
    · have hlookup : CustomSerde.T.variants.lookup name = none := by
        simp [CustomSerde.T.variants, hresult, herror]
      rw [if_neg hresult, if_neg herror, ← ih, CustomSerde.result, flattenedEnum, hlookup]
      rfl

/-- There is no side without a result and an error. -/
theorem sides_eq_nil_iff {ms : Members} :
    sides ms = [] ↔ ¬HasMember "result" ms ∧ ¬HasMember "error" ms := by
  induction ms with
  | nil => simp [sides, HasMember]
  | cons m ms ih =>
    obtain ⟨name, v⟩ := m
    rw [sides_cons]
    by_cases hresult : name = "result"
    · simp [HasMember, hresult]
    by_cases herror : name = "error"
    · simp [HasMember, herror]
    · rw [if_neg hresult, if_neg herror, ih]
      simp [HasMember, Ne.symm hresult, Ne.symm herror]

/-- Collecting drops no side. -/
theorem sides_collect (ms : Members) : sides (RawResponse.collect ms) = sides ms := by
  induction ms with
  | nil => rfl
  | cons m ms ih =>
    by_cases hm : m.1 ∈ ["jsonrpc", "id"]
    -- a member that is dropped is no side
    · have hside : m.1 ≠ "result" ∧ m.1 ≠ "error" := by
        rcases List.mem_cons.mp hm with h | h
        · simp [h]
        · simp [List.mem_singleton.mp h]
      rw [sides_cons, if_neg hside.1, if_neg hside.2, ← ih, RawResponse.collect,
        RawResponse.collect, List.filter_cons_of_neg (by simp only [hm, not_true_eq_false,
          decide_false, Bool.false_eq_true, not_false_eq_true])]
    · rw [RawResponse.collect, List.filter_cons_of_pos (by simp only [hm, not_false_eq_true,
          decide_true]), sides_cons, sides_cons, ← ih, RawResponse.collect]

/-- An object decodes as a response exactly by its `jsonrpc`, its `id` and its first side. -/
theorem RawResponse.visitMap_eq_ok_iff {ms : Members} {resp : RawResponse} :
    RawResponse.visitMap ms = .ok resp ↔
      HasVersion20 ms ∧ (∃ v, onlyMember "id" ms = some v ∧ v.asU32 = .ok resp.id) ∧
        (sides ms).head? = some resp.result := by
  simp only [RawResponse.visitMap, bind_eq_ok_iff, pure_eq_ok_iff, field_eq_ok_iff,
    CustomSerde.version_eq_ok_iff, CustomSerde.result_eq_ok_iff, sides_collect, exists_eq_right]
  constructor
  · rintro ⟨w, hversion, id, hid, r, hside, rfl⟩
    exact ⟨hversion, hid, hside⟩
  · rintro ⟨hversion, hid, hside⟩
    exact ⟨resp.version, hversion, resp.id, hid, resp.result, hside, rfl⟩

/-- An object decodes as a response if it has the shape of one. -/
theorem RawResponse.exists_visitMap_iff {ms : Members} :
    (∃ resp, RawResponse.visitMap ms = .ok resp) ↔ ResponseShape ms := by
  have hside : (∃ r, (sides ms).head? = some r) ↔ HasMember "result" ms ∨ HasMember "error" ms := by
    rw [← Option.isSome_iff_exists, List.isSome_head?, ne_eq, sides_eq_nil_iff]
    tauto
  constructor
  · rintro ⟨resp, h⟩
    obtain ⟨hversion, ⟨v, hv, hid⟩, hfirst⟩ := RawResponse.visitMap_eq_ok_iff.mp h
    exact ⟨hversion, ⟨v, hv, isU32_iff.mpr ⟨_, hid⟩⟩, hside.mp ⟨_, hfirst⟩⟩
  · rintro ⟨hversion, ⟨v, hv, hu32⟩, hsides⟩
    obtain ⟨id, hid⟩ := isU32_iff.mp hu32
    obtain ⟨r, hfirst⟩ := hside.mpr hsides
    exact ⟨⟨{}, id, r⟩, RawResponse.visitMap_eq_ok_iff.mpr ⟨hversion, ⟨v, hv, hid⟩, hfirst⟩⟩

/-! ## Single messages -/

/-- `v` is an array holding the fields of a notification in declaration order. -/
def IsPositional (v : Value) : Prop :=
  ∃ m p, v = .array [.string jsonrpcVersion20, .string m, p]

/-- The values that decode as a single message. -/
def Accepted (v : Value) : Prop :=
  (∃ ms, v = .object ms ∧ (NotificationShape ms ∨ ResponseShape ms)) ∨ IsPositional v

/-- An array decodes as a notification if it is positional. -/
theorem RawNotification.exists_visitSeq_iff {vs : List Value} :
    (∃ raw, RawNotification.visitSeq vs = .ok raw) ↔ IsPositional (.array vs) := by
  constructor
  · rintro ⟨raw, h⟩
    -- only an array of three elements is read
    match vs with
    | [v₀, v₁, v₂] =>
      simp only [RawNotification.visitSeq, bind_eq_ok_iff, CustomSerde.version_eq_ok_iff,
        asString_eq_ok_iff] at h
      obtain ⟨w, rfl, m, rfl, -⟩ := h
      exact ⟨m, v₂, rfl⟩
    | [] | [_] | [_, _] | _ :: _ :: _ :: _ :: _ => simp [RawNotification.visitSeq] at h
  · rintro ⟨m, p, h⟩
    cases h
    exact ⟨⟨{}, m, p.owned⟩, rfl⟩

/-- What decodes as a notification. -/
theorem RawNotification.exists_deserialize_iff {v : Value} :
    (∃ raw, RawNotification.deserialize v = .ok raw) ↔
      (∃ ms, v = .object ms ∧ NotificationShape ms) ∨ IsPositional v := by
  cases v with
  | object ms =>
    rw [RawNotification.deserialize, RawNotification.exists_visitMap_iff]
    simp [IsPositional]
  | array vs =>
    rw [RawNotification.deserialize, RawNotification.exists_visitSeq_iff]
    simp
  | _ => simp [RawNotification.deserialize, IsPositional]

/-- What decodes as a response. -/
theorem RawResponse.exists_deserialize_iff {v : Value} :
    (∃ resp, RawResponse.deserialize v = .ok resp) ↔ ∃ ms, v = .object ms ∧ ResponseShape ms := by
  cases v with
  | object ms =>
    rw [RawResponse.deserialize, RawResponse.exists_visitMap_iff]
    simp
  | _ => simp [RawResponse.deserialize]

/-- Whatever decodes as a notification is read as one. -/
theorem RawIncoming.deserialize_eq_notification_iff {v : Value} {raw : RawNotification} :
    RawIncoming.deserialize v = .ok (.notification raw) ↔
      RawNotification.deserialize v = .ok raw := by
  simp [RawIncoming.deserialize, untagged_eq_ok_iff, map_eq_ok_iff]

/-- Only what does not decode as a notification is read as a response. -/
theorem RawIncoming.deserialize_eq_response_iff {v : Value} {resp : RawResponse} :
    RawIncoming.deserialize v = .ok (.response resp) ↔
      (¬∃ raw, RawNotification.deserialize v = .ok raw) ∧ RawResponse.deserialize v = .ok resp := by
  cases h : RawNotification.deserialize v <;>
    simp [RawIncoming.deserialize, untagged_eq_ok_iff, map_eq_ok_iff, h]

/-- What decodes as a message. -/
theorem RawIncoming.exists_deserialize_iff {v : Value} :
    (∃ m, RawIncoming.deserialize v = .ok m) ↔ Accepted v := by
  have hnotification := RawNotification.exists_deserialize_iff (v := v)
  have hresponse := RawResponse.exists_deserialize_iff (v := v)
  constructor
  · rintro ⟨raw | resp, h⟩
    · rw [RawIncoming.deserialize_eq_notification_iff] at h
      rcases hnotification.mp ⟨raw, h⟩ with ⟨ms, rfl, hms⟩ | hpos
      · exact Or.inl ⟨ms, rfl, Or.inl hms⟩
      · exact Or.inr hpos
    · rw [RawIncoming.deserialize_eq_response_iff] at h
      obtain ⟨ms, rfl, hms⟩ := hresponse.mp ⟨resp, h.2⟩
      exact Or.inl ⟨ms, rfl, Or.inr hms⟩
  · intro hv
    -- the variants in the order of the enum: a notification if there is one
    by_cases hn : ∃ raw, RawNotification.deserialize v = .ok raw
    · obtain ⟨raw, hraw⟩ := hn
      exact ⟨.notification raw, RawIncoming.deserialize_eq_notification_iff.mpr hraw⟩
    · rcases hv with ⟨ms, rfl, hms | hms⟩ | hpos
      · exact absurd (hnotification.mpr (Or.inl ⟨ms, rfl, hms⟩)) hn
      · obtain ⟨resp, hresp⟩ := hresponse.mpr ⟨ms, rfl, hms⟩
        exact ⟨.response resp, RawIncoming.deserialize_eq_response_iff.mpr ⟨hn, hresp⟩⟩
      · exact absurd (hnotification.mpr (Or.inr hpos)) hn

/-! ## Lines -/

/-- A line is a single message exactly when it decodes as one. -/
theorem deserializeLine_eq_single_iff {v : Value} {m : RawIncoming} :
    deserializeLine v = .ok (.single m) ↔ RawIncoming.deserialize v = .ok m := by
  simp [deserializeLine, RawOneOrMany.deserialize, untagged_eq_ok_iff, map_eq_ok_iff]

/-- A line is a batch exactly when it is an array that is no message but whose elements are. -/
theorem deserializeLine_eq_batch_iff {v : Value} {items : List RawIncoming} :
    deserializeLine v = .ok (.batch items) ↔
      ¬Accepted v ∧ ∃ vs, v = .array vs ∧
        List.Forall₂ (fun e item => RawIncoming.deserialize e = .ok item) vs items := by
  have hvec : deserializeVec RawIncoming.deserialize v = .ok items ↔ ∃ vs, v = .array vs ∧
      List.Forall₂ (fun e item => RawIncoming.deserialize e = .ok item) vs items := by
    cases v <;> simp [deserializeVec, mapM_eq_ok_iff]
  rw [← RawIncoming.exists_deserialize_iff, ← hvec]
  cases h : RawIncoming.deserialize v <;>
    simp [deserializeLine, RawOneOrMany.deserialize, untagged_eq_ok_iff, map_eq_ok_iff, h]

/-! ## Classification by shape -/

/-- `v` is a notification of the protocol: an object of its shape without an `id`. -/
def IsNotification (v : Value) : Prop :=
  ∃ ms, v = .object ms ∧ NotificationShape ms ∧ ¬HasMember "id" ms

/-- `v` is a response of the protocol. -/
def IsResponse (v : Value) : Prop :=
  ∃ ms, v = .object ms ∧ ResponseShape ms

/-- The decoded message is of the kind its value is. -/
def OfKind (v : Value) : RawIncoming → Prop
  | .notification _ => IsNotification v
  | .response _ => IsResponse v

/-- The line `v` is classified by its JSON-RPC shape: objects decode to single messages of their
kind, arrays of such objects decode to batches of them in order, and nothing else decodes. -/
structure ClassifiedByShape (v : Value) : Prop where
  notification : ∀ ms, v = .object ms →
    ((∃ raw, deserializeLine v = .ok (.single (.notification raw))) ↔ IsNotification v)
  response : ∀ ms, v = .object ms →
    ((∃ resp, deserializeLine v = .ok (.single (.response resp))) ↔ IsResponse v)
  array : ∀ vs, v = .array vs →
    ((∃ line, deserializeLine v = .ok line) ↔ ∀ e ∈ vs, IsNotification e ∨ IsResponse e)
  batch : ∀ vs line, v = .array vs → deserializeLine v = .ok line → ∃ items, line = .batch items ∧
    List.Forall₂ (fun e item => RawIncoming.deserialize e = .ok item ∧ OfKind e item) vs items
  rejected : (∀ vs, v ≠ .array vs) → ¬IsNotification v → ¬IsResponse v →
    ∀ line, deserializeLine v ≠ .ok line

/-- `v` decodes as a notification although the protocol does not have it as one: it carries an
`id`, or it is positional. -/
def Misread (v : Value) : Prop :=
  (∃ ms, v = .object ms ∧ NotificationShape ms ∧ HasMember "id" ms) ∨ IsPositional v

/-- What is misread decodes as a notification. -/
theorem Misread.exists_deserialize {v : Value} (h : Misread v) :
    ∃ raw, RawIncoming.deserialize v = .ok (.notification raw) := by
  simp only [RawIncoming.deserialize_eq_notification_iff, RawNotification.exists_deserialize_iff]
  rcases h with ⟨ms, rfl, hms, -⟩ | hpos
  · exact Or.inl ⟨ms, rfl, hms⟩
  · exact Or.inr hpos

/-- What is misread is no notification. -/
theorem Misread.not_isNotification {v : Value} (h : Misread v) : ¬IsNotification v := by
  rintro ⟨ms, rfl, -, hid⟩
  rcases h with ⟨ms', hms', -, hid'⟩ | ⟨m, p, hpos⟩
  · cases hms'
    exact hid hid'
  · cases hpos

/-- The only member of a name is a member. -/
theorem hasMember_of_onlyMember {name : String} {ms : Members} {v : Value}
    (h : onlyMember name ms = some v) : HasMember name ms := by
  unfold onlyMember at h
  split at h
  next w hw =>
    exact ⟨w, mem_membersNamed.mp (by rw [hw]; exact List.mem_singleton_self w)⟩
  next => cases h

/-- What is not misread decodes as the protocol has it. -/
theorem accepted_iff_of_not_misread {v : Value} (h : ¬Misread v) :
    Accepted v ↔ IsNotification v ∨ IsResponse v := by
  constructor
  · rintro (⟨ms, rfl, hms | hms⟩ | hpos)
    · by_cases hid : HasMember "id" ms
      · exact absurd (Or.inl ⟨ms, rfl, hms, hid⟩) h
      · exact Or.inl ⟨ms, rfl, hms, hid⟩
    · exact Or.inr ⟨ms, rfl, hms⟩
    · exact absurd (Or.inr hpos) h
  · rintro (⟨ms, rfl, hms, -⟩ | ⟨ms, rfl, hms⟩)
    · exact Or.inl ⟨ms, rfl, Or.inl hms⟩
    · exact Or.inl ⟨ms, rfl, Or.inr hms⟩

/-- What is not misread decodes to a message of its kind. -/
theorem ofKind_of_not_misread {v : Value} {m : RawIncoming} (h : ¬Misread v)
    (hm : RawIncoming.deserialize v = .ok m) : OfKind v m := by
  cases m with
  | notification raw =>
    rw [RawIncoming.deserialize_eq_notification_iff] at hm
    rcases RawNotification.exists_deserialize_iff.mp ⟨raw, hm⟩ with ⟨ms, rfl, hms⟩ | hpos
    · exact ⟨ms, rfl, hms, fun hid => h (Or.inl ⟨ms, rfl, hms, hid⟩)⟩
    · exact absurd (Or.inr hpos) h
  | response resp =>
    rw [RawIncoming.deserialize_eq_response_iff] at hm
    exact RawResponse.exists_deserialize_iff.mp ⟨resp, hm.2⟩

/-- No value is both a notification and a response. -/
theorem IsNotification.not_isResponse {v : Value} (h : IsNotification v) : ¬IsResponse v := by
  obtain ⟨ms, rfl, -, hid⟩ := h
  rintro ⟨ms', hms', hresponse⟩
  cases hms'
  obtain ⟨w, hw, -⟩ := hresponse.id
  exact hid (hasMember_of_onlyMember hw)

/-- No other array is accepted. -/
theorem not_accepted_array {vs : List Value} (hpos : ¬IsPositional (.array vs)) :
    ¬Accepted (.array vs) := by
  rintro (⟨ms, h, -⟩ | h)
  · cases h
  · exact hpos h

/-- An array that is not positional decodes, to a batch, exactly when all its elements do. -/
theorem exists_deserializeLine_array_iff {vs : List Value} (hpos : ¬IsPositional (.array vs)) :
    (∃ line, deserializeLine (.array vs) = .ok line) ↔ ∀ e ∈ vs, Accepted e := by
  simp only [← RawIncoming.exists_deserialize_iff, ← exists_forall₂_iff]
  constructor
  · rintro ⟨m | items, h⟩
    · rw [deserializeLine_eq_single_iff] at h
      exact absurd (RawIncoming.exists_deserialize_iff.mp ⟨m, h⟩) (not_accepted_array hpos)
    · obtain ⟨-, vs', hvs', hitems⟩ := deserializeLine_eq_batch_iff.mp h
      cases hvs'
      exact ⟨items, hitems⟩
  · rintro ⟨items, hitems⟩
    exact ⟨.batch items,
      deserializeLine_eq_batch_iff.mpr ⟨not_accepted_array hpos, vs, rfl, hitems⟩⟩

/-- A line in which the decoder takes no message for what it is not: it is not misread itself,
and, if it decodes elementwise, neither is any element. -/
structure NothingMisread (v : Value) : Prop where
  line : ¬Misread v
  elems : ∀ vs, v = .array vs → (∀ e ∈ vs, Accepted e) → ∀ e ∈ vs, ¬Misread e

/-- Where all is classified by shape, nothing is misread. -/
theorem ClassifiedByShape.nothingMisread {v : Value} (h : ClassifiedByShape v) :
    NothingMisread v := by
  have hline : ¬Misread v := by
    intro hv
    obtain ⟨raw, hraw⟩ := hv.exists_deserialize
    have hsingle := deserializeLine_eq_single_iff.mpr hraw
    cases v with
    | object ms => exact hv.not_isNotification ((h.notification ms rfl).mp ⟨raw, hsingle⟩)
    | array vs =>
      obtain ⟨items, hitems, -⟩ := h.batch vs _ rfl hsingle
      cases hitems
    | _ => rcases hv with ⟨ms, hms, -⟩ | ⟨m, p, hpos⟩ <;> contradiction
  refine ⟨hline, ?_⟩
  rintro vs rfl hall e he hmisread
  have hpos : ¬IsPositional (.array vs) := fun hpos => hline (Or.inr hpos)
  obtain ⟨line, hdecodes⟩ := (exists_deserializeLine_array_iff hpos).mpr hall
  obtain ⟨items, -, hitems⟩ := h.batch vs line rfl hdecodes
  -- `e` is decoded to a notification, so by `batch` it would have to be one
  obtain ⟨item, hitem, hkind⟩ := exists_forall₂_iff.mp ⟨items, hitems⟩ e he
  obtain ⟨raw, hraw⟩ := hmisread.exists_deserialize
  rw [hraw] at hitem
  cases hitem
  exact hmisread.not_isNotification hkind

/-- Where nothing is misread, all is classified by shape. -/
theorem NothingMisread.classifiedByShape {v : Value} (h : NothingMisread v) :
    ClassifiedByShape v := by
  have haccepted := accepted_iff_of_not_misread h.line
  refine { notification := ?_, response := ?_, array := ?_, batch := ?_, rejected := ?_ }
  · rintro ms rfl
    constructor
    · rintro ⟨raw, hraw⟩
      exact ofKind_of_not_misread h.line (deserializeLine_eq_single_iff.mp hraw)
    · intro hkind
      -- it decodes, and not as a response, which it is not
      obtain ⟨raw | resp, hm⟩ :=
        RawIncoming.exists_deserialize_iff.mpr (haccepted.mpr (Or.inl hkind))
      · exact ⟨raw, deserializeLine_eq_single_iff.mpr hm⟩
      · exact absurd (ofKind_of_not_misread h.line hm) hkind.not_isResponse
  · rintro ms rfl
    constructor
    · rintro ⟨resp, hresp⟩
      exact ofKind_of_not_misread h.line (deserializeLine_eq_single_iff.mp hresp)
    · intro hkind
      obtain ⟨raw | resp, hm⟩ :=
        RawIncoming.exists_deserialize_iff.mpr (haccepted.mpr (Or.inr hkind))
      · have hnotification : IsNotification (.object ms) := ofKind_of_not_misread h.line hm
        exact absurd hkind hnotification.not_isResponse
      · exact ⟨resp, deserializeLine_eq_single_iff.mpr hm⟩
  · rintro vs rfl
    rw [exists_deserializeLine_array_iff fun hpos => h.line (Or.inr hpos)]
    constructor
    · intro hall e he
      exact (accepted_iff_of_not_misread (h.elems vs rfl hall e he)).mp (hall e he)
    · intro hall e he
      rcases hall e he with ⟨ms, rfl, hms, -⟩ | ⟨ms, rfl, hms⟩
      · exact Or.inl ⟨ms, rfl, Or.inl hms⟩
      · exact Or.inl ⟨ms, rfl, Or.inr hms⟩
  · rintro vs line rfl hdecodes
    have hpos : ¬IsPositional (.array vs) := fun hpos => h.line (Or.inr hpos)
    have hall := (exists_deserializeLine_array_iff hpos).mp ⟨line, hdecodes⟩
    cases line with
    | single m =>
      -- an array that is not positional is no single message
      rw [deserializeLine_eq_single_iff] at hdecodes
      exact absurd (RawIncoming.exists_deserialize_iff.mp ⟨m, hdecodes⟩) (not_accepted_array hpos)
    | batch items =>
      obtain ⟨-, vs', hvs', hitems⟩ := deserializeLine_eq_batch_iff.mp hdecodes
      cases hvs'
      refine ⟨items, rfl, ?_⟩
      rw [List.forall₂_iff_zip] at hitems ⊢
      refine ⟨hitems.1, fun {e item} hmem => ⟨hitems.2 hmem, ?_⟩⟩
      exact ofKind_of_not_misread (h.elems vs rfl hall e (List.of_mem_zip hmem).1) (hitems.2 hmem)
  · rintro harray hnotification hresponse (m | items) hdecodes
    · rw [deserializeLine_eq_single_iff] at hdecodes
      rcases haccepted.mp (RawIncoming.exists_deserialize_iff.mp ⟨m, hdecodes⟩) with hv | hv
      · exact hnotification hv
      · exact hresponse hv
    · obtain ⟨-, vs, hvs, -⟩ := deserializeLine_eq_batch_iff.mp hdecodes
      exact harray vs hvs

/-- Lines are classified by their JSON-RPC shape exactly when nothing in them is misread. -/
theorem classifiedByShape_iff (v : Value) : ClassifiedByShape v ↔ NothingMisread v :=
  ⟨ClassifiedByShape.nothingMisread, NothingMisread.classifiedByShape⟩

/-- An answer with an `id`, a `method` and `params` is taken for a notification, and an array of
the three fields of one for a single message. -/
theorem not_classifiedByShape_extra_members :
    ¬ClassifiedByShape (.object [("jsonrpc", .string "2.0"), ("id", .number (.posInt 1)),
        ("method", .string "server.ping"), ("params", .array []), ("result", .null)]) ∧
      ¬ClassifiedByShape (.array [.string "2.0", .string "server.ping", .array []]) := by
  constructor
  · intro h
    refine h.nothingMisread.line (Or.inl ⟨_, rfl, ⟨rfl, ⟨_, rfl⟩, ⟨_, rfl⟩⟩, ?_⟩)
    exact ⟨.number (.posInt 1), by simp⟩
  · intro h
    exact h.nothingMisread.line (Or.inr ⟨_, _, rfl⟩)

end ElectrumStreamingClient
