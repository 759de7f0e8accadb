import ElectrumStreamingClient.Tracker.Run

/-!
# Unique ids

The ids of a tracker come from a counter that wraps around, and nothing checks that the next one is
free. They stay unique exactly as long as no request is still pending when the `2 ^ 32`-th later
one is tracked; that one is then inserted under the same id and drops the handler of the first.
-/

namespace ElectrumStreamingClient

open Serde KeyedStore WrappingId

namespace Session

variable [Bitcoin] {Obs : Type}

/-- A request that was neither answered nor cleared. -/
def Unanswered (s : Session Obs) (ticket : ℕ) : Prop :=
  ticket ∉ s.resolvedTickets ∧ ticket ∉ s.clearedTickets

/-- Ids are unique among the requests that await a response. -/
structure UniqueIds (s : Session Obs) : Prop where
  /-- No id is assigned while a request is pending under it. -/
  fresh : ∀ a ∈ s.assigned, a.id ∉ a.before.pending
  /-- No request is dropped because another one is inserted under its id. -/
  noneReplaced : s.replaced = []
  /-- Unanswered requests were sent under different ids. -/
  distinct : ∀ i j rawᵢ rawⱼ, s.Unanswered i → s.Unanswered j → s.sent[i]? = some rawᵢ →
    s.sent[j]? = some rawⱼ → rawᵢ.id = rawⱼ.id → i = j

/-- Without overruns an unanswered request is pending. -/
theorem Consistent.pending_of_unanswered {id : UInt32} {s : Session Obs} (h : Consistent id s)
    (hno : s.NoOverrun) {i : ℕ} (hi : i < s.count) (hunanswered : s.Unanswered i) :
    i ∈ s.pendingTickets := by
  -- its ticket is in one of the four places, and three are excluded
  have hcount := h.count_tickets hi
  rw [Multiset.count_eq_zero_of_notMem hunanswered.1,
    Multiset.count_eq_zero_of_notMem hunanswered.2] at hcount
  have hreplaced : s.replacedTickets = 0 := by
    rw [replacedTickets, h.replaced_eq_nil_iff.mpr hno]
    rfl
  rw [hreplaced, Multiset.count_zero] at hcount
  exact Multiset.count_pos.mp (by omega)

/-- Without overruns, unanswered requests have different ids. -/
theorem Consistent.distinct_of_noOverrun {id : UInt32} {s : Session Obs} (h : Consistent id s)
    (hno : s.NoOverrun) {i j : ℕ} {rawᵢ rawⱼ : RawRequest} (hi : s.Unanswered i)
    (hj : s.Unanswered j) (hrawᵢ : s.sent[i]? = some rawᵢ) (hrawⱼ : s.sent[j]? = some rawⱼ)
    (hid : rawᵢ.id = rawⱼ.id) : i = j := by
  have hlength : s.sent.length = s.count := by rw [h.sent, List.length_map, count]
  have hlt : ∀ {k raw}, s.sent[k]? = some raw → k < s.count := by
    intro k raw hk
    rw [← hlength]
    exact (List.getElem?_eq_some_iff.mp hk).1
  obtain ⟨p, hp, rfl⟩ := mem_pendingTickets.mp (h.pending_of_unanswered hno (hlt hrawᵢ) hi)
  obtain ⟨q, hq, rfl⟩ := mem_pendingTickets.mp (h.pending_of_unanswered hno (hlt hrawⱼ) hj)
  -- both are filed under the id they share
  rw [h.sent_getElem? hrawᵢ, h.sent_getElem? hrawⱼ] at hid
  have hlookup := h.lookup_of_ticket hp
  rw [hid, h.lookup_of_ticket hq] at hlookup
  exact congrArg PendingRequest.ticket (Option.some.inj hlookup).symm

/-- In every run, ids are unique exactly when no request is still pending when the `2 ^ 32`-th
later one is tracked. -/
theorem uniqueIds_iff_noOverrun (id : UInt32) (inputs : List (Input Obs)) :
    (run id inputs).UniqueIds ↔ (run id inputs).NoOverrun := by
  have h := consistent_run id inputs
  constructor
  · intro hunique
    exact h.replaced_eq_nil_iff.mp hunique.noneReplaced
  · intro hno
    refine { fresh := ?_, noneReplaced := h.replaced_eq_nil_iff.mpr hno, distinct := ?_ }
    · intro a ha
      exact AList.lookup_eq_none.mp ((h.fresh_iff ha).mpr (hno a ha))
    · intro i j rawᵢ rawⱼ hi hj hrawᵢ hrawⱼ hid
      exact h.distinct_of_noOverrun hno hi hj hrawᵢ hrawⱼ hid

/-- If nothing was answered or cleared, more than `2 ^ 32` requests do not fit. -/
theorem Consistent.not_uniqueIds {id : UInt32} {s : Session Obs} (h : Consistent id s)
    (hcount : period < s.count) (hresolved : s.resolved = []) (hcleared : s.cleared = []) :
    ¬s.UniqueIds := by
  intro hunique
  -- all requests would be pending, under as many ids
  have hcard := congrArg Multiset.card h.accounted
  rw [hresolved, hcleared, hunique.noneReplaced] at hcard
  have hfit := card_values_le (fun _ _ => UInt32.toNat_inj.mp) UInt32.toNat_lt s.tracker.pending
  simp only [List.map_nil, Multiset.coe_nil, add_zero, Multiset.coe_card, List.length_map] at hcard
  rw [count, period] at hcount
  omega

/-- A new tracker does not take more than `2 ^ 32` requests in one batch. -/
theorem not_uniqueIds_run_track (id : UInt32) {reqs : List (PendingRequest Obs)}
    (hreqs : period < reqs.length) : ¬(run id [.track (.batch reqs)]).UniqueIds := by
  refine (consistent_run id [.track (.batch reqs)]).not_uniqueIds ?_ ?_ ?_
  · simpa [run, step] using hreqs
  · simp [run, step, track_snd, foldl_add, start]
  · simp [run, step, track_snd, foldl_add, start]

end Session

/-- A request for notifications of new headers, answered by events. -/
def subscription [Bitcoin] : PendingRequest Unit :=
  PendingRequest.event
    ({ method := "blockchain.headers.subscribe", params := [] } : Request.Custom)

/-- A batch of `2 ^ 32 + 1` requests on a new tracker. -/
theorem not_uniqueIds_batch :
    letI : Bitcoin := bareBitcoin
    ¬(Session.run 0 [.track (.batch (List.replicate (2 ^ 32 + 1) subscription))]).UniqueIds := by
  let _ : Bitcoin := bareBitcoin
  exact Session.not_uniqueIds_run_track 0 (by rw [List.length_replicate, period]; omega)

end ElectrumStreamingClient
