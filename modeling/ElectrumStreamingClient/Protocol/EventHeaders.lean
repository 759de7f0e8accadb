import ElectrumStreamingClient.Protocol.Event
import ElectrumStreamingClient.Protocol.Headers
import Mathlib.Algebra.Group.Nat.Defs

/-!
# Headers of events

`Event::try_to_headers` (`request_tracker.rs`). The headers of a list are numbered by an open range
of heights, which is advanced before the list is asked for a header: the height behind the last one
has to exist as well. `carried` says which headers an event has, with their heights as natural
numbers.
-/

namespace ElectrumStreamingClient

/-- How a program is built: with checks for arithmetic overflow or without. -/
inductive Build where
  | checked
  | unchecked

/-- `Step::forward` by one, which advances an open range. -/
def stepForward : Build → UInt32 → Except RuntimePanic UInt32
  | .checked, n => if n.toNat + 1 < 2 ^ 32 then .ok (n + 1) else .error .addOverflow
  | .unchecked, n => .ok (n + 1)

/-- `(start..).zip(headers).collect()`. Each round advances the range and then takes from the list.
It is up to the standard library whether there is a last round that finds the list empty, which is
`exhaust`. -/
def zipFrom {α : Type} (build : Build) (exhaust : Bool) (start : UInt32) :
    List α → Except RuntimePanic (List (UInt32 × α))
  | [] =>
    if exhaust then do
      let _ ← stepForward build start
      return []
    else
      return []
  | header :: headers => do
    -- the range is advanced as soon as it is asked for `start`
    let next ← stepForward build start
    let pairs ← zipFrom build exhaust next headers
    return (start, header) :: pairs

variable [Bitcoin]

/-- `Event::try_to_headers`. -/
def Event.tryToHeaders (build : Build) (exhaust : Bool) :
    Event → Except RuntimePanic (Option (List (UInt32 × Bitcoin.Header)))
  | .response (.header req resp) => .ok (some [(req.height, HeaderResp.header resp)])
  | .response (.headers req resp) =>
    some <$> zipFrom build exhaust req.startHeight (HeadersResp.headers resp)
  | .response (.headersWithCheckpoint req resp) =>
    some <$> zipFrom build exhaust req.startHeight (HeadersWithCheckpointResp.headers resp)
  | .notification (.header n) => .ok (some [(n.param0.height, n.param0.header)])
  -- among these are two kinds of responses with a header
  | _ => .ok none

/-! ## What an event has -/

/-- Heights from `start` on, one for each header. -/
def numbered {α : Type} (start : ℕ) (headers : List α) : List (ℕ × α) :=
  (headers.zipIdx start).map Prod.swap

/-- The heights as the code stores them. -/
def toU32 {α : Type} (pairs : List (ℕ × α)) : List (UInt32 × α) :=
  pairs.map (Prod.map UInt32.ofNat id)

namespace Event

/-- The first height and the headers, where an event has a list of them. -/
def headerRange : Event → Option (UInt32 × List Bitcoin.Header)
  | response (.headers req resp) => some (req.startHeight, HeadersResp.headers resp)
  | response (.headersWithCheckpoint req resp) =>
    some (req.startHeight, HeadersWithCheckpointResp.headers resp)
  | _ => none

/-- The headers an event has together with their heights, if it is of a kind that has any. -/
def carried : Event → Option (List (ℕ × Bitcoin.Header))
  | response completed =>
    match completed with
    | .header req resp => some [(req.height.toNat, HeaderResp.header resp)]
    | .headerWithProof req resp => some [(req.height.toNat, HeaderWithProofResp.header resp)]
    | .headers req resp => some (numbered req.startHeight.toNat (HeadersResp.headers resp))
    | .headersWithCheckpoint req resp =>
      some (numbered req.startHeight.toNat (HeadersWithCheckpointResp.headers resp))
    | .headersSubscribe _ resp =>
      some [((HeadersSubscribeResp.height resp).toNat, HeadersSubscribeResp.header resp)]
    | .estimateFee .. | .relayFee .. | .getBalance .. | .getHistory .. | .getMempool ..
    | .listUnspent .. | .scriptHashSubscribe .. | .scriptHashUnsubscribe .. | .broadcastTx ..
    | .broadcastPackage .. | .broadcastPackageVerbose .. | .getTx .. | .getTxMerkle ..
    | .getTxidFromPos .. | .getFeeHistogram .. | .getMempoolInfo .. | .serverVersion ..
    | .banner .. | .features .. | .ping .. | .custom .. | .spSubscribe .. | .spUnsubscribe .. =>
      none
  | responseError _ => none
  | notification n =>
    match n with
    | .header n => some [(n.param0.height.toNat, n.param0.header)]
    | .scriptHash _ | .spSubscribe _ | .unknown _ => none

/-- The two kinds of events whose header is overlooked. -/
def Overlooked : Event → Prop
  | response (.headerWithProof ..) => True
  | response (.headersSubscribe ..) => True
  | _ => False

end Event

/-! ## Numbering -/

section Numbering

variable {α : Type}

omit [Bitcoin] in
theorem toU32_numbered_cons (start : UInt32) (header : α) (headers : List α) :
    toU32 (numbered start.toNat (header :: headers)) =
      (start, header) :: toU32 (numbered (start.toNat + 1) headers) := by
  simp [toU32, numbered]

omit [Bitcoin] in
/-- Numbers that are stored as the same `u32` number a list alike. -/
theorem toU32_numbered_congr {start start' : ℕ} (h : UInt32.ofNat start = UInt32.ofNat start')
    (headers : List α) : toU32 (numbered start headers) = toU32 (numbered start' headers) := by
  induction headers generalizing start start' with
  | nil => rfl
  | cons header headers ih =>
    have hnext : UInt32.ofNat (start + 1) = UInt32.ofNat (start' + 1) := by
      rw [UInt32.ofNat_add, UInt32.ofNat_add, h]
    have hrest := ih hnext
    -- the next numbers are stored alike again
    simp only [toU32, numbered, List.zipIdx_cons, List.map_cons, Prod.swap_prod_mk, Prod.map,
      h] at hrest ⊢
    rw [hrest]

omit [Bitcoin] in
/-- Without checks the range never fails: it gives the heights as they are stored. -/
theorem zipFrom_unchecked (exhaust : Bool) (start : UInt32) (headers : List α) :
    zipFrom .unchecked exhaust start headers = .ok (toU32 (numbered start.toNat headers)) := by
  induction headers generalizing start with
  | nil => cases exhaust <;> rfl
  | cons header headers ih =>
    have hnext : UInt32.ofNat (start + 1).toNat = UInt32.ofNat (start.toNat + 1) := by
      rw [UInt32.ofNat_toNat, UInt32.ofNat_add, UInt32.ofNat_toNat]
      rfl
    rw [toU32_numbered_cons, ← toU32_numbered_congr hnext]
    simp only [zipFrom, stepForward, ih]
    rfl

omit [Bitcoin] in
/-- With checks the range fails exactly if it has to count past the largest height. -/
theorem zipFrom_checked (exhaust : Bool) (start : UInt32) (headers : List α) :
    zipFrom .checked exhaust start headers =
      if start.toNat + headers.length + exhaust.toNat < 2 ^ 32 then
        .ok (toU32 (numbered start.toNat headers))
      else
        .error .addOverflow := by
  induction headers generalizing start with
  | nil =>
    have hlt := start.toNat_lt
    cases exhaust with
    | false =>
      rw [if_pos (by simpa using hlt)]
      rfl
    | true =>
      simp only [zipFrom, stepForward, if_true, List.length_nil, Nat.add_zero, Bool.toNat_true]
      split <;> rfl
  | cons header headers ih =>
    -- if the first step is possible, what is left starts one higher and is one shorter
    by_cases hstep : start.toNat + 1 < 2 ^ 32
    · have hnext : (start + 1).toNat = start.toNat + 1 := by
        rw [UInt32.toNat_add]
        exact Nat.mod_eq_of_lt hstep
      have hsum : start.toNat + 1 + headers.length + exhaust.toNat =
          start.toNat + (header :: headers).length + exhaust.toNat := by
        rw [List.length_cons]
        omega
      have hrest := ih (start + 1)
      rw [hnext, hsum] at hrest
      rw [zipFrom, stepForward, if_pos hstep, toU32_numbered_cons]
      show (zipFrom .checked exhaust (start + 1) headers >>= fun pairs =>
        pure ((start, header) :: pairs)) = _
      rw [hrest]
      split <;> rfl
    · have hsum : ¬ start.toNat + (header :: headers).length + exhaust.toNat < 2 ^ 32 := by
        rw [List.length_cons]
        omega
      simp only [zipFrom, stepForward, if_neg hstep, if_neg hsum]
      rfl

end Numbering

omit [Bitcoin] in
/-- The range fails exactly if it has to count past the largest height in a checked build. -/
theorem zipFrom_eq_ok_iff {α : Type} {build : Build} {exhaust : Bool} {start : UInt32}
    {headers : List α} {pairs : List (UInt32 × α)} :
    zipFrom build exhaust start headers = .ok pairs ↔
      (build = .checked → start.toNat + headers.length + exhaust.toNat < 2 ^ 32) ∧
        toU32 (numbered start.toNat headers) = pairs := by
  cases build with
  | unchecked => simp [zipFrom_unchecked]
  | checked =>
    -- only the checked build panics, when a height does not fit
    rw [zipFrom_checked]
    split
    next hfits =>
      rw [Except.ok.injEq]
      exact (and_iff_right fun _ => hfits).symm
    next hfits =>
      apply iff_of_false
      · intro herror
        cases herror
      · intro hok
        exact hfits (hok.1 rfl)

omit [Bitcoin] in
/-- There is a height for each header. -/
theorem length_toU32_numbered {α : Type} (start : ℕ) (headers : List α) :
    (toU32 (numbered start headers)).length = headers.length := by
  simp [toU32, numbered]

omit [Bitcoin] in
/-- The heights of the headers are consecutive. -/
theorem getElem?_toU32_numbered {α : Type} (start : ℕ) (headers : List α) (i : ℕ) :
    (toU32 (numbered start headers))[i]? =
      headers[i]?.map fun header => (UInt32.ofNat (start + i), header) := by
  simp [toU32, numbered, Function.comp_def]

/-! ## Exact heights -/

namespace Event

/-- Two kinds of events have a list of headers. -/
theorem headerRange_eq_some {e : Event} {start : UInt32} {headers : List Bitcoin.Header}
    (h : e.headerRange = some (start, headers)) :
    (∃ req resp, e = response (.headers req resp) ∧ req.startHeight = start ∧
        HeadersResp.headers resp = headers) ∨
      ∃ req resp, e = response (.headersWithCheckpoint req resp) ∧ req.startHeight = start ∧
        HeadersWithCheckpointResp.headers resp = headers := by
  unfold headerRange at h
  split at h
  next req resp =>
    cases h
    exact Or.inl ⟨req, resp, rfl, rfl, rfl⟩
  next req resp =>
    cases h
    exact Or.inr ⟨req, resp, rfl, rfl, rfl⟩
  next => cases h

/-- An event with headers pairs them with their heights. -/
theorem tryToHeaders_of_headerRange {e : Event} {start : UInt32} {headers : List Bitcoin.Header}
    (h : e.headerRange = some (start, headers)) (build : Build) (exhaust : Bool) :
    e.tryToHeaders build exhaust = some <$> zipFrom build exhaust start headers := by
  obtain ⟨req, resp, rfl, rfl, rfl⟩ | ⟨req, resp, rfl, rfl, rfl⟩ := headerRange_eq_some h
  · rfl
  · rfl

/-- The headers of a list are given their exact heights. -/
structure HeightsExact (exhaust : Bool) (e : Event) (start : UInt32)
    (headers : List Bitcoin.Header) : Prop where
  /-- No addition overflows, so that even a checked build does not panic. -/
  no_overflow : ∃ result, e.tryToHeaders .checked exhaust = .ok result
  /-- If every height is a `u32`, each header is listed with its own. -/
  exact (h : ∀ i < headers.length, start.toNat + i < 2 ^ 32) (build : Build) :
    ∃ pairs, e.tryToHeaders build exhaust = .ok (some pairs) ∧ pairs.length = headers.length ∧
      ∀ (i : ℕ) (header : Bitcoin.Header), headers[i]? = some header →
        ∃ height, pairs[i]? = some (height, header) ∧ height.toNat = start.toNat + i
  /-- No header is listed with a wrapped height. -/
  not_wrapped (build : Build) (pairs : List (UInt32 × Bitcoin.Header))
    (h : e.tryToHeaders build exhaust = .ok (some pairs)) (i : ℕ) (height : UInt32)
    (header : Bitcoin.Header) (hi : pairs[i]? = some (height, header)) :
    height.toNat = start.toNat + i

/-- The heights are exact exactly if the range does not have to count past the largest `u32`. -/
theorem heightsExact_iff {e : Event} {start : UInt32} {headers : List Bitcoin.Header}
    (h : e.headerRange = some (start, headers)) (exhaust : Bool) :
    HeightsExact exhaust e start headers ↔
      start.toNat + headers.length + exhaust.toNat < 2 ^ 32 := by
  have htry := tryToHeaders_of_headerRange h
  constructor
  · intro hexact
    -- a checked build that does not panic has counted far enough
    obtain ⟨result, hresult⟩ := hexact.no_overflow
    rw [htry, Serde.map_eq_ok_iff] at hresult
    obtain ⟨pairs, hpairs, -⟩ := hresult
    exact (zipFrom_eq_ok_iff.mp hpairs).1 rfl
  · intro hfits
    have hzip (build : Build) : e.tryToHeaders build exhaust =
        .ok (some (toU32 (numbered start.toNat headers))) := by
      rw [htry, Serde.map_eq_ok_iff]
      exact ⟨_, zipFrom_eq_ok_iff.mpr ⟨fun _ => hfits, rfl⟩, rfl⟩
    -- in either build the heights are below the number up to which the range counts
    have hheight {i : ℕ} (hi : i < headers.length) :
        (UInt32.ofNat (start.toNat + i)).toNat = start.toNat + i := by
      apply UInt32.toNat_ofNat_of_lt'
      show start.toNat + i < 2 ^ 32
      omega
    refine { no_overflow := ⟨_, hzip .checked⟩, exact := ?_, not_wrapped := ?_ }
    · intro _ build
      refine ⟨_, hzip build, length_toU32_numbered _ _, ?_⟩
      intro i header hi
      obtain ⟨hlt, -⟩ := List.getElem?_eq_some_iff.mp hi
      refine ⟨_, ?_, hheight hlt⟩
      rw [getElem?_toU32_numbered, hi]
      rfl
    · intro build pairs hpairs i height header hi
      rw [hzip build] at hpairs
      cases hpairs
      rw [getElem?_toU32_numbered, Option.map_eq_some_iff] at hi
      obtain ⟨header', hheader', hpair⟩ := hi
      obtain ⟨hlt, -⟩ := List.getElem?_eq_some_iff.mp hheader'
      cases hpair
      exact hheight hlt

/-- A response with one header. -/
def oneHeader : @HeadersResp byteBitcoin :=
  letI : Bitcoin := byteBitcoin
  { count := 1, headers := [Bytes.zeros 80], max := 2016 }

omit [Bitcoin] in
/-- Below the largest height its height is exact. -/
theorem heightsExact_iff_one :
    letI : Bitcoin := byteBitcoin
    HeightsExact false (response (.headers { startHeight := 4294967294, count := 1 } oneHeader))
      4294967294 oneHeader.headers := by
  let _ : Bitcoin := byteBitcoin
  apply (heightsExact_iff rfl false).mpr
  decide

omit [Bitcoin] in
/-- At the largest height a checked build panics, although that height is a `u32`. -/
theorem not_heightsExact_max :
    letI : Bitcoin := byteBitcoin
    letI e := response (.headers { startHeight := 4294967295, count := 1 } oneHeader)
    e.tryToHeaders .checked false = .error .addOverflow ∧
      e.tryToHeaders .checked true = .error .addOverflow ∧
      ¬ HeightsExact false e 4294967295 oneHeader.headers := by
  let _ : Bitcoin := byteBitcoin
  refine ⟨rfl, rfl, ?_⟩
  intro hexact
  obtain ⟨result, hresult⟩ := hexact.no_overflow
  cases hresult

/-! ## All headers -/

/-- The headers that an event has are listed, in order, and nothing is if it has none. -/
def ListsHeaders (build : Build) (exhaust : Bool) (e : Event) : Prop :=
  e.tryToHeaders build exhaust = .ok (e.carried.map toU32)

/-- A list of headers is listed exactly if the range that numbers it does not overflow. -/
theorem listsHeaders_iff_of_headerRange {e : Event} {start : UInt32}
    {headers : List Bitcoin.Header} (h : e.headerRange = some (start, headers)) (build : Build)
    (exhaust : Bool) :
    ListsHeaders build exhaust e ↔
      (build = .checked → start.toNat + headers.length + exhaust.toNat < 2 ^ 32) := by
  have hcarried : e.carried = some (numbered start.toNat headers) := by
    obtain ⟨req, resp, rfl, rfl, rfl⟩ | ⟨req, resp, rfl, rfl, rfl⟩ := headerRange_eq_some h
    · rfl
    · rfl
  rw [ListsHeaders, tryToHeaders_of_headerRange h, hcarried, Serde.map_eq_ok_iff]
  simp [zipFrom_eq_ok_iff]

/-- A header that comes alone keeps its height. -/
theorem toU32_singleton (height : UInt32) (header : Bitcoin.Header) :
    toU32 [(height.toNat, header)] = [(height, header)] := by
  simp [toU32]

/-- An event without a list of headers has its header listed unless it is overlooked. -/
theorem listsHeaders_iff_of_headerRange_eq_none {e : Event} (h : e.headerRange = none)
    (build : Build) (exhaust : Bool) : ListsHeaders build exhaust e ↔ ¬ e.Overlooked := by
  -- one case for each kind of response, since the last arm of the match hides them
  cases e with
  | response completed =>
    cases completed with
    | headers => cases h
    | headersWithCheckpoint => cases h
    | header req resp =>
      apply iff_of_true _ not_false
      rw [ListsHeaders, carried, Option.map_some, toU32_singleton]
      rfl
    | headerWithProof | headersSubscribe =>
      -- there is no arm for these two, so the last one gives nothing
      apply iff_of_false
      · intro hlists
        cases hlists
      · exact not_not_intro trivial
    | _ => exact iff_of_true rfl not_false
  | responseError failed => exact iff_of_true rfl not_false
  | notification n =>
    cases n with
    | header n =>
      apply iff_of_true _ not_false
      rw [ListsHeaders, carried, Option.map_some, toU32_singleton]
      rfl
    | _ => exact iff_of_true rfl not_false

/-- The headers of an event are listed exactly if it is not of an overlooked kind, and the range
that numbers a list does not overflow. -/
theorem listsHeaders_iff (build : Build) (exhaust : Bool) (e : Event) :
    ListsHeaders build exhaust e ↔
      ¬ e.Overlooked ∧ (build = .checked → ∀ start headers,
        e.headerRange = some (start, headers) →
          start.toNat + headers.length + exhaust.toNat < 2 ^ 32) := by
  cases hrange : e.headerRange with
  | some range =>
    obtain ⟨start, headers⟩ := range
    have hnot : ¬ e.Overlooked := by
      obtain ⟨_, _, rfl, -⟩ | ⟨_, _, rfl, -⟩ := headerRange_eq_some hrange
      · exact not_false
      · exact not_false
    rw [listsHeaders_iff_of_headerRange hrange, and_iff_right hnot]
    simp
  | none =>
    rw [listsHeaders_iff_of_headerRange_eq_none hrange]
    simp

/-- The payload of a subscription to headers, in a response or in a notification. -/
def bestHeader : @HeadersSubscribeResp byteBitcoin :=
  letI : Bitcoin := byteBitcoin
  { header := Bytes.zeros 80, height := 0 }

omit [Bitcoin] in
/-- The header of the initial response to the subscription is overlooked, and that of a
notification with the same payload is listed. -/
theorem not_listsHeaders_headersSubscribe :
    letI : Bitcoin := byteBitcoin
    (response (.headersSubscribe {} bestHeader)).tryToHeaders .checked true = .ok none ∧
      (notification (.header { param0 := bestHeader })).tryToHeaders .checked true =
        .ok (some [(0, bestHeader.header)]) ∧
      ¬ ListsHeaders .checked true (response (.headersSubscribe {} bestHeader)) := by
  let _ : Bitcoin := byteBitcoin
  refine ⟨rfl, rfl, ?_⟩
  intro hlists
  cases hlists

end Event

end ElectrumStreamingClient
