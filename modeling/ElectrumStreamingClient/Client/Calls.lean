import ElectrumStreamingClient.Client.Correlation
import ElectrumStreamingClient.Client.Disconnect

/-!
# Calls of `send_request`

A call waits on a channel whose other end is in the callback of its request. It returns what the
callback was given, or that it was canceled once the callback has been dropped. The callback goes
with its request: with the channel of requests, with the tracker, with a request that takes its id,
or with a response that does not decode.
-/

namespace ElectrumStreamingClient

open Serde KeyedStore TransitionSystem

variable [Bitcoin] {Obs E : Type}

/-- What has become of a callback. -/
inductive CallState (Obs : Type) where
  /-- It was neither run nor dropped. -/
  | waiting
  | called (obs : Obs)
  | canceled

namespace Link

/-- The state of the callback of the `k`-th request that was accepted. -/
def callState (l : Link Obs) (k : ℕ) : CallState Obs :=
  match l.session.resolved.find? fun r => r.request.ticket = k with
  | some r =>
    match r.handled.called with
    | some obs => .called obs
    | none => .canceled
  | none => if k ∈ l.channelTickets + l.session.pendingTickets then .waiting else .canceled

/-! ## History -/

/-- The history of a state is the beginning of that of the other. -/
structure History (l l' : Link Obs) : Prop where
  accepted : l.accepted <+: l'.accepted
  assigned : l.session.assigned <+: l'.session.assigned
  resolved : l.session.resolved <+: l'.session.resolved
  cleared : l.session.cleared <+: l'.session.cleared
  abandoned : l.abandoned <+: l'.abandoned

theorem History.refl (l : Link Obs) : History l l :=
  ⟨List.prefix_refl _, List.prefix_refl _, List.prefix_refl _, List.prefix_refl _,
    List.prefix_refl _⟩

/-- What happened before and after is the history of both together. -/
theorem History.trans {l l' l'' : Link Obs} (h : History l l') (h' : History l' l'') :
    History l l'' where
  accepted := h.accepted.trans h'.accepted
  assigned := h.assigned.trans h'.assigned
  resolved := h.resolved.trans h'.resolved
  cleared := h.cleared.trans h'.cleared
  abandoned := h.abandoned.trans h'.abandoned

/-- A step only adds to the history of a link. -/
theorem Step.history {l l' : Link Obs} {a : Act E} (h : Step l a l') : History l l' := by
  have hgrows := h.grows
  cases h with
  | send batch =>
    obtain ⟨hsession, -, habandoned, -, -, -⟩ := l.sendBatch_frame batch
    refine ⟨hgrows.accepted, hgrows.assigned, ?_, ?_, ?_⟩
    · rw [hsession]
    · rw [hsession]
    · rw [habandoned]
  -- nothing is resolved or dropped in these steps
  | close | closeEvents | track | wrote | writeFailed | stay =>
    exact ⟨hgrows.accepted, hgrows.assigned, List.prefix_refl _, List.prefix_refl _,
      List.prefix_refl _⟩
  | receive =>
    exact ⟨hgrows.accepted, hgrows.assigned, List.prefix_append _ _, List.prefix_refl _,
      List.prefix_refl _⟩
  | emit =>
    unfold Link.emit
    split <;> exact ⟨List.prefix_refl _, List.prefix_refl _, List.prefix_refl _,
      List.prefix_refl _, List.prefix_refl _⟩
  | drop tracker channel =>
    -- what is dropped is recorded behind what was dropped before
    refine ⟨hgrows.accepted, hgrows.assigned, ?_, ?_, ?_⟩
    · rcases tracker with _ | _ <;> exact List.prefix_refl _
    · rcases tracker with _ | _
      · exact List.prefix_refl _
      · exact List.prefix_append _ _
    · rcases channel with _ | _
      · exact List.prefix_refl _
      · exact List.prefix_append _ _

/-- A run only adds to the history of a link. -/
theorem history_of_reachable {l l' : Link Obs} (h : Reachable (Step (E := E)) l l') :
    History l l' :=
  h.invariant (History.refl l) fun _ _ _ hhistory hstep => hhistory.trans hstep.history

/-! ## Where a callback is -/

/-- Every accepted request is in one place. -/
theorem Consistent.count_place {l : Link Obs} (h : l.Consistent) {k : ℕ}
    (hk : k < l.accepted.length) :
    (l.channelTickets + l.session.pendingTickets).count k + l.session.resolvedTickets.count k +
      (l.droppedTickets + l.session.replacedTickets).count k = 1 := by
  have hcount := congrArg (Multiset.count k) h.accounted
  rw [Multiset.count_eq_one_of_mem (Multiset.nodup_range _) (Multiset.mem_range.mpr hk)] at hcount
  -- the five places, in another order
  simp only [Multiset.count_add] at hcount ⊢
  omega

/-- The resolved tickets are those of the recorded resolutions. -/
theorem mem_resolvedTickets {l : Link Obs} {k : ℕ} :
    k ∈ l.session.resolvedTickets ↔ ∃ r ∈ l.session.resolved, r.request.ticket = k := by
  rw [Session.resolvedTickets, Multiset.mem_coe, List.mem_map]

/-- Requests that were dropped or replaced stay so. -/
theorem History.gone_le {l l' : Link Obs} (h : History l l') (k : ℕ) :
    (l.droppedTickets + l.session.replacedTickets).count k ≤
      (l'.droppedTickets + l'.session.replacedTickets).count k := by
  have habandoned := (h.abandoned.map PendingRequest.ticket).sublist.count_le k
  have hcleared := (h.cleared.map PendingRequest.ticket).sublist.count_le k
  have hreplaced : l.session.replaced <+: l'.session.replaced := h.assigned.filterMap _
  have hreplaced := (hreplaced.map PendingRequest.ticket).sublist.count_le k
  simp only [droppedTickets, Session.clearedTickets, Session.replacedTickets, Multiset.count_add,
    Multiset.coe_count]
  omega

/-- The first resolution under a ticket decides the state of the call. -/
theorem callState_of_find? {l : Link Obs} {k : ℕ} {r : Resolution Obs}
    (h : l.session.resolved.find? (fun r => r.request.ticket = k) = some r) :
    l.callState k = match r.handled.called with
      | some obs => .called obs
      | none => .canceled := by
  rw [callState, h]

/-- A call without a resolution waits while its request is retained, and is canceled otherwise. -/
theorem callState_of_notMem {l : Link Obs} {k : ℕ} (h : k ∉ l.session.resolvedTickets) :
    l.callState k =
      if k ∈ l.channelTickets + l.session.pendingTickets then .waiting else .canceled := by
  have hnone : l.session.resolved.find? (fun r => r.request.ticket = k) = none := by
    rw [List.find?_eq_none]
    intro r hr hticket
    exact h (mem_resolvedTickets.mpr ⟨r, hr, of_decide_eq_true hticket⟩)
  rw [callState, hnone]

/-- A callback that is not waiting any more stays as it is. -/
theorem History.callState_eq {l l' : Link Obs} (h : History l l') (hl : l.Consistent)
    (hl' : l'.Consistent) {k : ℕ} (hk : k < l.accepted.length) (hstate : l.callState k ≠ .waiting) :
    l'.callState k = l.callState k := by
  have hplace := hl.count_place hk
  have hplace' := hl'.count_place (hk.trans_le h.accepted.length_le)
  by_cases hresolved : k ∈ l.session.resolvedTickets
  · -- the first resolution of the request is the same
    obtain ⟨r, hr, hticket⟩ := mem_resolvedTickets.mp hresolved
    obtain ⟨r, hfind⟩ : ∃ r, l.session.resolved.find? (fun r => r.request.ticket = k) = some r := by
      rw [← Option.isSome_iff_exists, List.find?_isSome]
      exact ⟨r, hr, decide_eq_true hticket⟩
    have hfind' : l'.session.resolved.find? (fun r => r.request.ticket = k) = some r := by
      obtain ⟨later, hlater⟩ := h.resolved
      rw [← hlater, List.find?_append, hfind, Option.some_or]
    rw [callState_of_find? hfind, callState_of_find? hfind']
  · -- the request is gone, and so it is later
    rw [callState_of_notMem hresolved] at hstate ⊢
    have hretained : k ∉ l.channelTickets + l.session.pendingTickets := by
      intro hmem
      exact hstate (if_pos hmem)
    rw [← Multiset.count_eq_zero] at hresolved hretained
    have hgone := h.gone_le k
    have hresolved' : k ∉ l'.session.resolvedTickets := by
      rw [← Multiset.count_eq_zero]
      omega
    have hretained' : k ∉ l'.channelTickets + l'.session.pendingTickets := by
      rw [← Multiset.count_eq_zero]
      omega
    rw [callState_of_notMem hresolved', if_neg hretained',
      if_neg (Multiset.count_eq_zero.mp hretained)]

/-! ## Requests by their tickets -/

/-- The `k`-th request is the only one with the ticket `k`. -/
theorem Consistent.ticket_eq_iff {l : Link Obs} (h : l.Consistent) {k : ℕ}
    {p q : PendingRequest Obs} (hp : l.accepted[k]? = some p) (hq : q ∈ l.accepted) :
    q.ticket = k ↔ q = p := by
  -- tickets count the requests from zero on
  have hticket {i : ℕ} {p : PendingRequest Obs} (hp : l.accepted[i]? = some p) : p.ticket = i := by
    obtain ⟨hlt, rfl⟩ := List.getElem?_eq_some_iff.mp hp
    simpa [hlt] using congrArg (·[i]?) h.tickets
  constructor
  · rintro rfl
    obtain ⟨i, hi⟩ := List.mem_iff_getElem?.mp hq
    rw [hticket hi, hi] at hp
    exact Option.some.inj hp
  · rintro rfl
    exact hticket hp

/-- The requests of all places were accepted. -/
theorem Consistent.mem_accepted {l : Link Obs} (h : l.Consistent) {q : PendingRequest Obs}
    (hq : l.Retains q ∨ q ∈ l.session.resolved.map Resolution.request ∨
      q ∈ l.abandoned ∨ q ∈ l.session.cleared ∨ q ∈ l.session.replaced) : q ∈ l.accepted := by
  -- a request that was tracked is pending, or was resolved, cleared or replaced
  have htracked : q ∈ l.session.assigned.map Assignment.request ↔
      q ∈ values l.session.tracker.pending ∨ q ∈ l.session.resolved.map Resolution.request ∨
        q ∈ l.session.cleared ∨ q ∈ l.session.replaced := by
    rw [← Multiset.mem_coe, ← h.session.accounted]
    simp [or_assoc]
  rw [h.accepted, List.mem_append, List.mem_append, htracked]
  rw [Retains] at hq
  tauto

/-- What the caller of the `k`-th request can rely on, from one state of a run to a later one. -/
structure Settles (l l' : Link Obs) (k : ℕ) (p : PendingRequest Obs) : Prop where
  /-- It gets no other result later. -/
  stays : l.callState k ≠ .waiting → l'.callState k = l.callState k
  waiting_iff : l'.callState k = .waiting ↔ l'.Retains p
  /-- The callback was run on the one response to the request. -/
  called_iff (obs : Obs) : l'.callState k = .called obs ↔
    ∃ r ∈ l'.session.resolved, r.request = p ∧ r.handled.called = some obs
  /-- The response ran no callback, or there was none before the request was dropped. -/
  canceled_iff : l'.callState k = .canceled ↔
    (∃ r ∈ l'.session.resolved, r.request = p ∧ r.handled.called = none) ∨
      p ∈ l'.abandoned ∨ p ∈ l'.session.cleared ∨ p ∈ l'.session.replaced
  /-- The response did what the request asked for: it gave its error, or its result if that decodes
  to the type of the request, to the callback. -/
  answered : ∀ r ∈ l'.session.resolved, r.request = p →
    ∀ (Req : Type) [RequestExt Req] [Deserialize (Request.Response Req)] (req : Req)
      (callback : Option (ResponseResult (Request.Response Req) → Obs)), p.IsFor req callback →
        Answers req callback r.id r.body r.handled

section Places

variable {l : Link Obs} {k : ℕ} {p : PendingRequest Obs}

/-- The ticket of an accepted request is among the retained ones if the request is. -/
theorem Consistent.mem_retained_iff (h : l.Consistent) (hp : l.accepted[k]? = some p) :
    k ∈ l.channelTickets + l.session.pendingTickets ↔ l.Retains p := by
  -- no other request that is retained has the ticket
  have hmem {q : PendingRequest Obs} (hq : l.Retains q) : q.ticket = k ↔ q = p :=
    h.ticket_eq_iff hp (h.mem_accepted (.inl hq))
  rw [Multiset.mem_add, channelTickets, Multiset.mem_coe, List.mem_map,
    Session.mem_pendingTickets]
  constructor
  · rintro (⟨q, hq, hticket⟩ | ⟨q, hq, hticket⟩)
    · rw [← (hmem (.inl hq)).mp hticket]
      exact .inl hq
    · rw [← (hmem (.inr hq)).mp hticket]
      exact .inr hq
  · intro hretains
    have hticket := (hmem hretains).mpr rfl
    exact hretains.imp (fun hq => ⟨p, hq, hticket⟩) fun hq => ⟨p, hq, hticket⟩

/-- A resolution under the ticket of an accepted request is of that request. -/
theorem Consistent.mem_resolved_iff (h : l.Consistent) (hp : l.accepted[k]? = some p)
    {r : Resolution Obs} (hr : r ∈ l.session.resolved) : r.request.ticket = k ↔ r.request = p :=
  h.ticket_eq_iff hp (h.mem_accepted (.inr (.inl (List.mem_map_of_mem hr))))

/-- The ticket of an accepted request is among those gone if the request was dropped, cleared or
replaced. -/
theorem Consistent.mem_gone_iff (h : l.Consistent) (hp : l.accepted[k]? = some p) :
    k ∈ l.droppedTickets + l.session.replacedTickets ↔
      p ∈ l.abandoned ∨ p ∈ l.session.cleared ∨ p ∈ l.session.replaced := by
  have hmem {q : PendingRequest Obs}
      (hq : q ∈ l.abandoned ∨ q ∈ l.session.cleared ∨ q ∈ l.session.replaced) :
      q.ticket = k ↔ q = p :=
    h.ticket_eq_iff hp (h.mem_accepted (.inr (.inr hq)))
  have hplaces : k ∈ l.droppedTickets + l.session.replacedTickets ↔
      ∃ q, (q ∈ l.abandoned ∨ q ∈ l.session.cleared ∨ q ∈ l.session.replaced) ∧ q.ticket = k := by
    simp only [droppedTickets, Session.clearedTickets, Session.replacedTickets, Multiset.mem_add,
      Multiset.mem_coe, List.mem_map, or_and_right, exists_or, or_assoc]
  rw [hplaces]
  constructor
  · rintro ⟨q, hq, hticket⟩
    rwa [← (hmem hq).mp hticket]
  · intro hgone
    exact ⟨p, hgone, (hmem hgone).mpr rfl⟩

/-- A request is resolved once. -/
theorem Consistent.eq_of_resolved (h : l.Consistent) (hk : k < l.accepted.length)
    {r r' : Resolution Obs} (hr : r ∈ l.session.resolved) (hr' : r' ∈ l.session.resolved)
    (hticket : r.request.ticket = k) (hticket' : r'.request.ticket = k) : r = r' := by
  have hplace := h.count_place hk
  -- at most one resolution has this ticket
  have hfilter : (l.session.resolved.filter fun r => r.request.ticket = k).length ≤ 1 := by
    have hcount : l.session.resolvedTickets.count k =
        (l.session.resolved.filter fun r => r.request.ticket = k).length := by
      rw [Session.resolvedTickets, Multiset.coe_count, List.count, List.countP_map,
        List.countP_eq_length_filter]
      rfl
    omega
  have hmem : r ∈ l.session.resolved.filter fun r => r.request.ticket = k :=
    List.mem_filter.mpr ⟨hr, decide_eq_true hticket⟩
  have hmem' : r' ∈ l.session.resolved.filter fun r => r.request.ticket = k :=
    List.mem_filter.mpr ⟨hr', decide_eq_true hticket'⟩
  generalize (l.session.resolved.filter fun r => r.request.ticket = k) = rs at hfilter hmem hmem'
  match rs with
  | [r₀] => rw [List.mem_singleton.mp hmem, List.mem_singleton.mp hmem']
  | _ :: _ :: _ => simp at hfilter

/-- The state of a callback whose request was resolved. -/
theorem Consistent.callState_of_resolved (h : l.Consistent) (hp : l.accepted[k]? = some p)
    {r : Resolution Obs} (hr : r ∈ l.session.resolved) (hrequest : r.request = p) :
    l.callState k = match r.handled.called with
      | some obs => .called obs
      | none => .canceled := by
  have hticket := (h.mem_resolved_iff hp hr).mpr hrequest
  obtain ⟨r', hfind⟩ :
      ∃ r', l.session.resolved.find? (fun r => r.request.ticket = k) = some r' := by
    rw [← Option.isSome_iff_exists, List.find?_isSome]
    exact ⟨r, hr, decide_eq_true hticket⟩
  have hticket' : r'.request.ticket = k := by simpa using List.find?_some hfind
  -- the first resolution with the ticket is the only one
  have hsame : r' = r :=
    h.eq_of_resolved (List.getElem?_eq_some_iff.mp hp).1 (List.mem_of_find?_eq_some hfind) hr
      hticket' hticket
  rw [callState_of_find? hfind, hsame]

/-- The state of a callback whose request was not resolved. -/
theorem Consistent.callState_of_unresolved (h : l.Consistent) (hp : l.accepted[k]? = some p)
    (hunresolved : ∀ r ∈ l.session.resolved, r.request ≠ p) :
    (l.callState k = .waiting ∧ l.Retains p ∧
        ¬(p ∈ l.abandoned ∨ p ∈ l.session.cleared ∨ p ∈ l.session.replaced)) ∨
      l.callState k = .canceled ∧ ¬l.Retains p ∧
        (p ∈ l.abandoned ∨ p ∈ l.session.cleared ∨ p ∈ l.session.replaced) := by
  have hplace := h.count_place (List.getElem?_eq_some_iff.mp hp).1
  have hresolved : k ∉ l.session.resolvedTickets := by
    intro hmem
    obtain ⟨r, hr, hticket⟩ := mem_resolvedTickets.mp hmem
    exact hunresolved r hr ((h.mem_resolved_iff hp hr).mp hticket)
  rw [Multiset.count_eq_zero.mpr hresolved] at hplace
  rw [callState_of_notMem hresolved, ← h.mem_retained_iff hp, ← h.mem_gone_iff hp]
  -- the request is in one of the other two places
  by_cases hretained : k ∈ l.channelTickets + l.session.pendingTickets
  · left
    have hpos := Multiset.count_pos.mpr hretained
    refine ⟨if_pos hretained, hretained, ?_⟩
    rw [← Multiset.count_eq_zero]
    omega
  · right
    have hzero := Multiset.count_eq_zero.mpr hretained
    refine ⟨if_neg hretained, hretained, ?_⟩
    rw [← Multiset.count_pos]
    omega

/-- A request that was resolved is in no other place. -/
theorem Consistent.not_of_resolved (h : l.Consistent) (hp : l.accepted[k]? = some p)
    {r : Resolution Obs} (hr : r ∈ l.session.resolved) (hrequest : r.request = p) :
    ¬l.Retains p ∧ ¬(p ∈ l.abandoned ∨ p ∈ l.session.cleared ∨ p ∈ l.session.replaced) := by
  have hplace := h.count_place (List.getElem?_eq_some_iff.mp hp).1
  have hpos := Multiset.count_pos.mpr
    (mem_resolvedTickets.mpr ⟨r, hr, (h.mem_resolved_iff hp hr).mpr hrequest⟩)
  rw [← h.mem_retained_iff hp, ← h.mem_gone_iff hp, ← Multiset.count_eq_zero,
    ← Multiset.count_eq_zero]
  omega

end Places

/-- What becomes of a callback is settled once, by the place its request has come to. -/
theorem History.settles {l l' : Link Obs} (h : History l l') (hl : l.Consistent)
    (hl' : l'.Consistent) {k : ℕ} {p : PendingRequest Obs} (hp : l.accepted[k]? = some p) :
    Settles l l' k p := by
  have hp' := getElem?_of_isPrefix h.accepted hp
  have hstays := h.callState_eq hl hl' (List.getElem?_eq_some_iff.mp hp).1
  have hanswered : ∀ r ∈ l'.session.resolved, r.request = p →
      ∀ (Req : Type) [RequestExt Req] [Deserialize (Request.Response Req)] (req : Req)
        (callback : Option (ResponseResult (Request.Response Req) → Obs)), p.IsFor req callback →
          Answers req callback r.id r.body r.handled := by
    rintro r hr rfl Req _ _ req callback hfor
    exact (hl'.session.resolved r hr).answers hfor
  by_cases hresolved : ∃ r ∈ l'.session.resolved, r.request = p
  · obtain ⟨r, hr, hrequest⟩ := hresolved
    have hstate := hl'.callState_of_resolved hp' hr hrequest
    obtain ⟨hretains, hgone⟩ := hl'.not_of_resolved hp' hr hrequest
    -- the request has one resolution
    have honly {r' : Resolution Obs} (hr' : r' ∈ l'.session.resolved) (hrequest' : r'.request = p) :
        r' = r :=
      hl'.eq_of_resolved (List.getElem?_eq_some_iff.mp hp').1 hr' hr
        ((hl'.mem_resolved_iff hp' hr').mpr hrequest') ((hl'.mem_resolved_iff hp' hr).mpr hrequest)
    have hiff (called : Option Obs) : r.handled.called = called ↔
        ∃ r ∈ l'.session.resolved, r.request = p ∧ r.handled.called = called := by
      constructor
      · intro hcalled
        exact ⟨r, hr, hrequest, hcalled⟩
      · rintro ⟨r', hr', hrequest', hcalled⟩
        rwa [← honly hr' hrequest']
    refine ⟨hstays, ?_, fun obs => ?_, ?_, hanswered⟩
    · rw [hstate]
      cases r.handled.called <;> simp [hretains]
    · rw [← hiff, hstate]
      cases r.handled.called <;> simp
    · rw [← hiff, hstate]
      cases r.handled.called <;> simp [hgone]
  · have hunresolved : ∀ r ∈ l'.session.resolved, r.request ≠ p := by
      intro r hr hrequest
      exact hresolved ⟨r, hr, hrequest⟩
    have hno (called : Option Obs) :
        ¬∃ r ∈ l'.session.resolved, r.request = p ∧ r.handled.called = called := by
      rintro ⟨r, hr, hrequest, -⟩
      exact hunresolved r hr hrequest
    -- it still waits, or it is gone
    rcases hl'.callState_of_unresolved hp' hunresolved with
      ⟨hstate, hretains, hgone⟩ | ⟨hstate, hretains, hgone⟩
    · exact ⟨hstays, by simp [hstate, hretains], fun obs => by simp [hstate, hno],
        by simp [hstate, hno, hgone], hanswered⟩
    · exact ⟨hstays, by simp [hstate, hretains], fun obs => by simp [hstate, hno],
        by simp [hstate, hno, hgone], hanswered⟩

end Link

/-! ## Both clients -/

/-- In every run, what a call of `send_request` comes to is settled once, by the one response to its
request or by the place in which the request was dropped; and it is settled when the client has
finished. -/
theorem settles_of_reachable :
    (∀ c c' : AsyncClient Obs E, Reachable AsyncClient.Step AsyncClient.new c →
      Reachable AsyncClient.Step c c' → ∀ k p, c.link.accepted[k]? = some p →
        Link.Settles c.link c'.link k p ∧
          ∀ exit, c'.worker = .finished exit → c'.link.callState k ≠ .waiting) ∧
    ∀ c c' : BlockingClient Obs E, Reachable BlockingClient.Step BlockingClient.new c →
      Reachable BlockingClient.Step c c' → ∀ k p, c.link.accepted[k]? = some p →
        Link.Settles c.link c'.link k p ∧
          (c'.reader.isFinished = true → c'.writer.isFinished = true →
            c'.link.callState k ≠ .waiting) := by
  constructor
  · intro c c' h hlater k p hp
    have hall := Relation.ReflTransGen.trans h hlater
    have hlink : Reachable (Link.Step (E := E)) c.link c'.link :=
      hlater.simulated (I := AsyncClient.Ordered) (AsyncClient.ordered_of_reachable h)
        fun _ a _ hordered hstep => ⟨(hordered.step hstep).1, a, (hordered.step hstep).2⟩
    have hconsistent := Link.consistent_of_reachable (AsyncClient.reachable_link hall)
    have hsettles := (Link.history_of_reachable hlink).settles
      (Link.consistent_of_reachable (AsyncClient.reachable_link h)) hconsistent hp
    refine ⟨hsettles, fun exit hexit hwaiting => ?_⟩
    -- nothing is retained
    obtain ⟨hdropped, hchannel, -⟩ := (AsyncClient.ordered_of_reachable hall).finished exit hexit
    have hretains := hsettles.waiting_iff.mp hwaiting
    rw [Link.Retains, hchannel, hconsistent.dropped hdropped] at hretains
    simp at hretains
  · intro c c' h hlater k p hp
    have hall := Relation.ReflTransGen.trans h hlater
    have hlink : Reachable (Link.Step (E := E)) c.link c'.link :=
      hlater.simulated (I := BlockingClient.Ordered) (BlockingClient.ordered_of_reachable h)
        fun _ a _ hordered hstep => ⟨(hordered.step hstep).1, a, (hordered.step hstep).2⟩
    have hconsistent := Link.consistent_of_reachable (BlockingClient.reachable_link hall)
    have hsettles := (Link.history_of_reachable hlink).settles
      (Link.consistent_of_reachable (BlockingClient.reachable_link h)) hconsistent hp
    refine ⟨hsettles, fun hreader hwriter hwaiting => ?_⟩
    have hordered := BlockingClient.ordered_of_reachable hall
    have hdropped : c'.link.trackerDropped = true := by
      rw [hordered.dropped, hreader, hwriter, Bool.and_self]
    have hretains := hsettles.waiting_iff.mp hwaiting
    rw [Link.Retains, (hordered.finished hwriter).1, hconsistent.dropped hdropped] at hretains
    simp at hretains

omit [Bitcoin] in
/-- A call is answered, and keeps its answer when another one is canceled. -/
theorem settles_of_reachable_keepAlive :
    letI : Bitcoin := bareBitcoin
    ∃ c c' : AsyncClient (ResponseResult Value) Unit, ∃ p,
      c.link.callState 0 = .called (.ok .null) ∧ c'.worker = .finished .endOfStream ∧
        c'.link.callState 1 = .canceled ∧ Link.Settles c.link c'.link 0 p := by
  let _ : Bitcoin := bareBitcoin
  have hsent : Reachable AsyncClient.Step
      (AsyncClient.new : AsyncClient (ResponseResult Value) Unit) _ :=
    (Reachable.refl AsyncClient.Step AsyncClient.new).tail (.send keepAlive)
  have hwritten := (hsent.tail (.request rfl rfl)).tail (.written rfl rfl)
  have hanswered := hwritten.tail (.incoming (r := .ok (some (.ok (.response pong)))) rfl)
  -- a second call, which the end of the stream cancels
  have hlater {c : AsyncClient (ResponseResult Value) Unit} (hworker : c.worker = .selecting) :=
    (((Reachable.refl AsyncClient.Step c).tail (.send keepAlive)).tail
      (.incoming (r := .ok none) hworker)).tail (.finish rfl)
  have hsettles := settles_of_reachable.1 _ _ hanswered (hlater rfl) 0 _ rfl
  exact ⟨_, _, _, rfl, rfl, rfl, hsettles.1⟩

end ElectrumStreamingClient
