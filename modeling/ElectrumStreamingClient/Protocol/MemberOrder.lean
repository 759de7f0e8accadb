import ElectrumStreamingClient.Protocol.Classification

/-!
# Member order

Whether the decoding of an incoming object depends on the order of its members. A notification
never does: all it reads are fields. A response reads its side from the first `result` or `error`
member, so it does exactly when it carries both (`deserialize_perm_iff`).
-/

namespace ElectrumStreamingClient

open Serde

/-- The only member of a name does not depend on the order. -/
theorem onlyMember_perm {name : String} {ms ms' : Members} (hnodup : (ms.map Prod.fst).Nodup)
    (hperm : ms.Perm ms') : onlyMember name ms' = onlyMember name ms := by
  rw [onlyMember, membersNamed_perm hnodup hperm, onlyMember]

/-- Nor does a decoded notification. -/
theorem RawNotification.visitMap_perm {ms ms' : Members} (hnodup : (ms.map Prod.fst).Nodup)
    (hperm : ms.Perm ms') : RawNotification.visitMap ms' = RawNotification.visitMap ms := by
  simp only [RawNotification.visitMap, field_perm hnodup hperm]

/-- Nor does the shape of a response. -/
theorem ResponseShape.perm {ms ms' : Members} (h : ResponseShape ms)
    (hnodup : (ms.map Prod.fst).Nodup) (hperm : ms.Perm ms') : ResponseShape ms' := by
  obtain ⟨hversion, hid, hside⟩ := h
  rw [HasVersion20, ← onlyMember_perm hnodup hperm] at hversion
  rw [← onlyMember_perm hnodup hperm] at hid
  rw [hasMember_perm hperm, hasMember_perm hperm] at hside
  exact ⟨hversion, hid, hside⟩

/-! ## Sides -/

/-- With distinct names, an object without a `result` or without an `error` offers at most one
side. -/
theorem length_sides_le_one {ms : Members} (hnodup : (ms.map Prod.fst).Nodup)
    (hone : ¬HasMember "result" ms ∨ ¬HasMember "error" ms) : (sides ms).length ≤ 1 := by
  induction ms with
  | nil => simp [sides]
  | cons m ms ih =>
    obtain ⟨name, v⟩ := m
    rw [List.map_cons, List.nodup_cons] at hnodup
    have habsent (w : Value) : (name, w) ∉ ms := fun hw =>
      hnodup.1 (List.mem_map.mpr ⟨_, hw, rfl⟩)
    have htail : ¬HasMember "result" ms ∨ ¬HasMember "error" ms :=
      hone.imp (fun h hm => h (hm.imp fun _ => List.mem_cons_of_mem _))
        (fun h hm => h (hm.imp fun _ => List.mem_cons_of_mem _))
    rw [sides_cons]
    -- a side at the head is the only one: its name is taken, and the other one is absent
    by_cases hresult : name = "result"
    · subst hresult
      have hnil : sides ms = [] := by
        refine sides_eq_nil_iff.mpr ⟨not_exists.mpr habsent, ?_⟩
        rintro ⟨w, hw⟩
        refine hone.elim (fun h => h ⟨v, List.mem_cons_self⟩) fun h => ?_
        exact h ⟨w, List.mem_cons_of_mem _ hw⟩
      simp [hnil]
    by_cases herror : name = "error"
    · subst herror
      have hnil : sides ms = [] := by
        refine sides_eq_nil_iff.mpr ⟨?_, not_exists.mpr habsent⟩
        rintro ⟨w, hw⟩
        refine hone.elim (fun h => ?_) fun h => h ⟨v, List.mem_cons_self⟩
        exact h ⟨w, List.mem_cons_of_mem _ hw⟩
      simp [hnil]
    · rw [if_neg hresult, if_neg herror]
      exact ih hnodup.2 htail

/-- An object with at most one side offers the same one in any order of its members. -/
theorem sides_perm {ms ms' : Members} (hperm : ms.Perm ms') (hle : (sides ms).length ≤ 1) :
    sides ms' = sides ms := by
  have hsides : (sides ms).Perm (sides ms') := hperm.filterMap _
  match hms : sides ms with
  | [] => rw [hms] at hsides; exact hsides.nil_eq.symm
  | [r] => rw [hms] at hsides; exact List.perm_singleton.mp hsides.symm
  | _ :: _ :: _ => rw [hms] at hle; simp at hle

/-- A response with one side does not depend on the order of its members. -/
theorem RawResponse.visitMap_perm_iff {ms ms' : Members} {resp : RawResponse}
    (hnodup : (ms.map Prod.fst).Nodup) (hperm : ms.Perm ms')
    (hone : ¬HasMember "result" ms ∨ ¬HasMember "error" ms) :
    RawResponse.visitMap ms' = .ok resp ↔ RawResponse.visitMap ms = .ok resp := by
  rw [RawResponse.visitMap_eq_ok_iff, RawResponse.visitMap_eq_ok_iff, HasVersion20, HasVersion20,
    onlyMember_perm hnodup hperm, onlyMember_perm hnodup hperm,
    sides_perm hperm (length_sides_le_one hnodup hone)]

/-! ## Messages -/

/-- An object that decodes as a notification is one. -/
theorem RawIncoming.deserialize_object_of_notification {ms : Members} {raw : RawNotification}
    (h : RawNotification.visitMap ms = .ok raw) :
    RawIncoming.deserialize (.object ms) = .ok (.notification raw) :=
  RawIncoming.deserialize_eq_notification_iff.mpr h

/-- Two objects that read as the same notification, or as none and then as the same response,
have the same outcome. -/
theorem RawIncoming.deserialize_object_congr {ms ms' : Members}
    (hnotification : RawNotification.visitMap ms' = RawNotification.visitMap ms)
    (hresponse : (∃ raw, RawNotification.visitMap ms = .ok raw) ∨
      ∀ resp, RawResponse.visitMap ms' = .ok resp ↔ RawResponse.visitMap ms = .ok resp) :
    RawIncoming.deserialize (.object ms') = RawIncoming.deserialize (.object ms) := by
  rcases hresponse with ⟨raw, hraw⟩ | hresponse
  · rw [deserialize_object_of_notification hraw,
      deserialize_object_of_notification (hnotification.trans hraw)]
  -- the untagged decoder forgets how the second one failed
  · simp only [RawIncoming.deserialize, untagged, RawNotification.deserialize, hnotification,
      RawResponse.deserialize]
    cases h : RawResponse.visitMap ms with
    | ok resp => rw [(hresponse resp).mpr h]
    | error e =>
      cases h' : RawResponse.visitMap ms' with
      | ok resp => rw [(hresponse resp).mp h'] at h; cases h
      | error e' => rfl

/-- The object is no notification, and a response with both a `result` and an `error`. -/
structure TwoSided (ms : Members) : Prop where
  notNotification : ¬NotificationShape ms
  response : ResponseShape ms
  result : HasMember "result" ms
  error : HasMember "error" ms

theorem sides_result (v : Value) : sides [("result", v)] = [.ok v.owned] := by
  simp [sides]

theorem sides_error (e : Value) : sides [("error", e)] = [.error e.owned] := by
  simp [sides]

/-- Written with the member of one side first, a response is read as that side. -/
theorem TwoSided.exists_perm {ms : Members} (h : TwoSided ms) (hnodup : (ms.map Prod.fst).Nodup)
    {name : String} {v : Value} {side : Except Value Value} (hmem : (name, v) ∈ ms)
    (hside : sides [(name, v)] = [side]) :
    ∃ ms' id, ms.Perm ms' ∧
      RawIncoming.deserialize (.object ms') = .ok (.response ⟨{}, id, side⟩) := by
  obtain ⟨before, after, rfl⟩ := List.append_of_mem hmem
  have hperm : (before ++ (name, v) :: after).Perm ((name, v) :: (before ++ after)) :=
    List.perm_middle
  have hshape := h.response.perm hnodup hperm
  obtain ⟨w, hw, hu32⟩ := hshape.id
  obtain ⟨id, hid⟩ := isU32_iff.mp hu32
  -- the order matters neither for being no notification nor for the fields of the response
  refine ⟨_, id, hperm, RawIncoming.deserialize_eq_response_iff.mpr ⟨?_, ?_⟩⟩
  · rw [RawNotification.deserialize, RawNotification.visitMap_perm hnodup hperm,
      RawNotification.exists_visitMap_iff]
    exact h.notNotification
  · refine RawResponse.visitMap_eq_ok_iff.mpr ⟨hshape.version, ⟨w, hw, hid⟩, ?_⟩
    have hcons : sides ((name, v) :: (before ++ after)) = side :: sides (before ++ after) := by
      rw [← List.singleton_append, sides, List.filterMap_append, ← sides, hside]
      rfl
    rw [hcons]
    rfl

/-- With distinct names, the outcome of decoding an object as an incoming message is the same in
every order of its members exactly when it is not a response with two sides. -/
theorem deserialize_perm_iff (ms : Members) (hnodup : (ms.map Prod.fst).Nodup) :
    (∀ ms', ms.Perm ms' →
        RawIncoming.deserialize (.object ms') = RawIncoming.deserialize (.object ms)) ↔
      ¬TwoSided ms := by
  constructor
  · intro hsame htwo
    obtain ⟨v, hv⟩ := htwo.result
    obtain ⟨e, he⟩ := htwo.error
    -- one order gives the result, another one the error
    obtain ⟨ms₁, id₁, hperm₁, h₁⟩ := htwo.exists_perm hnodup hv (sides_result v)
    obtain ⟨ms₂, id₂, hperm₂, h₂⟩ := htwo.exists_perm hnodup he (sides_error e)
    rw [hsame ms₁ hperm₁, ← hsame ms₂ hperm₂, h₂] at h₁
    simp at h₁
  · intro hnot ms' hperm
    apply RawIncoming.deserialize_object_congr (RawNotification.visitMap_perm hnodup hperm)
    by_cases hnotification : NotificationShape ms
    · exact Or.inl (RawNotification.exists_visitMap_iff.mpr hnotification)
    right
    intro resp
    by_cases hboth : HasMember "result" ms ∧ HasMember "error" ms
    · -- with both sides present, it is the shape of a response that is missing
      have hshape : ¬ResponseShape ms := fun hshape =>
        hnot ⟨hnotification, hshape, hboth.1, hboth.2⟩
      constructor
      · intro h
        have hshape' := RawResponse.exists_visitMap_iff.mp ⟨resp, h⟩
        have hnodup' : (ms'.map Prod.fst).Nodup := (hperm.map Prod.fst).nodup_iff.mp hnodup
        exact absurd (hshape'.perm hnodup' hperm.symm) hshape
      · intro h
        exact absurd (RawResponse.exists_visitMap_iff.mp ⟨resp, h⟩) hshape
    · exact RawResponse.visitMap_perm_iff hnodup hperm (by tauto)

/-- A failed response in the style of JSON-RPC 1.0, with a null `result` beside its `error`. -/
def failedWithNullResult : Members :=
  [("jsonrpc", .string "2.0"), ("id", .number (.posInt 1)), ("result", .null),
    ("error", .string "excessive resource usage")]

/-- The order of the members of this response matters. -/
theorem deserialize_perm_iff_failedWithNullResult :
    (∀ ms', failedWithNullResult.Perm ms' → RawIncoming.deserialize (.object ms') =
        RawIncoming.deserialize (.object failedWithNullResult)) ↔
      ¬TwoSided failedWithNullResult :=
  deserialize_perm_iff failedWithNullResult (by decide)

/-- `failedWithNullResult` is a success as it stands, and a failure with its last two members
exchanged. -/
theorem failedWithNullResult_order :
    ¬∀ ms', failedWithNullResult.Perm ms' → RawIncoming.deserialize (.object ms') =
      RawIncoming.deserialize (.object failedWithNullResult) := by
  intro hsame
  have hswap : failedWithNullResult.Perm
      [("jsonrpc", .string "2.0"), ("id", .number (.posInt 1)),
        ("error", .string "excessive resource usage"), ("result", .null)] :=
    ((List.Perm.swap _ _ _).cons _).cons _
  -- the first of the two sides decides
  have hsuccess : RawIncoming.deserialize (.object failedWithNullResult) =
      .ok (.response ⟨{}, 1, .ok .null⟩) := rfl
  have hfailure : RawIncoming.deserialize (.object [("jsonrpc", .string "2.0"),
      ("id", .number (.posInt 1)), ("error", .string "excessive resource usage"),
      ("result", .null)]) =
      .ok (.response ⟨{}, 1, .error (.string "excessive resource usage")⟩) := rfl
  have h := hsame _ hswap
  rw [hsuccess, hfailure] at h
  simp at h

end ElectrumStreamingClient
