import ElectrumStreamingClient.Tracker.Session

/-!
# Tracker runs

Runs of `track_request`, `handle_incoming` and `clear` on a new tracker, in any order, with one
counter that starts anywhere. Every state of a run is consistent, so at any time each request that
was tracked is in exactly one place.
-/

namespace ElectrumStreamingClient

open Serde KeyedStore WrappingId

variable [Bitcoin] {Obs : Type}

/-- A call of an operation of the tracker. -/
inductive Input (Obs : Type) where
  | track (reqs : RawOneOrMany (PendingRequest Obs))
  | incoming (msg : RawIncoming)
  | clear

/-- The requests of a call. -/
def Input.requests : Input Obs → List (PendingRequest Obs)
  | .track reqs => reqs.intoVec
  | _ => []

/-- The requests handed to the tracker, in order. -/
def tracked (inputs : List (Input Obs)) : List (PendingRequest Obs) :=
  inputs.flatMap Input.requests

namespace Session

/-- One call. Requests get their tickets in the order in which they are tracked. -/
def step (s : Session Obs) : Input Obs → Session Obs
  | .track reqs => (s.track (reqs.stampFrom s.count)).2
  | .incoming msg => (s.incoming msg).2
  | .clear => s.clear

/-- A run from a new tracker whose counter starts at `id`. -/
def run (id : UInt32) (inputs : List (Input Obs)) : Session Obs :=
  inputs.foldl step (start id)

theorem run_concat (id : UInt32) (inputs : List (Input Obs)) (input : Input Obs) :
    run id (inputs ++ [input]) = (run id inputs).step input := by
  rw [run, List.foldl_append]
  rfl

/-- Every call keeps a session consistent. -/
theorem Consistent.step {id : UInt32} {s : Session Obs} (h : Consistent id s)
    (input : Input Obs) : Consistent id (s.step input) := by
  rcases input with reqs | msg | _
  · exact h.track (by simp)
  · exact h.incoming msg
  · exact h.clear

/-- Every state of a run is consistent. -/
theorem consistent_run (id : UInt32) (inputs : List (Input Obs)) :
    Consistent id (run id inputs) := by
  induction inputs using List.reverseRecOn with
  | nil => exact consistent_start id
  | append_singleton inputs input ih =>
    rw [run_concat]
    exact ih.step input

@[simp] theorem count_start (id : UInt32) : (start id : Session Obs).count = 0 := rfl

/-- Each request that is added is counted. -/
@[simp] theorem count_foldl_add (reqs : List (PendingRequest Obs)) (s : Session Obs) :
    (reqs.foldl add s).count = s.count + reqs.length := by
  have hlength := congrArg List.length (map_request_assignments s.tracker s.nextId reqs)
  rw [List.length_map] at hlength
  rw [foldl_add, count, List.length_append, hlength, count]

@[simp] theorem count_track (s : Session Obs) (reqs : RawOneOrMany (PendingRequest Obs)) :
    (s.track reqs).2.count = s.count + reqs.intoVec.length := by
  rw [track_snd, count_foldl_add]

/-- The requests get their tickets in the order in which they are handed to the tracker. -/
theorem assigned_run (id : UInt32) (inputs : List (Input Obs)) :
    (run id inputs).assigned.map Assignment.request =
      PendingRequest.stampAll 0 (tracked inputs) := by
  induction inputs using List.reverseRecOn with
  | nil => rfl
  | append_singleton inputs input ih =>
    have hcount : (tracked inputs).length = (run id inputs).count := by
      have hlength := congrArg List.length ih
      rw [List.length_map, PendingRequest.length_stampAll] at hlength
      exact hlength.symm
    rw [run_concat, tracked, List.flatMap_append, ← tracked, PendingRequest.stampAll_append]
    cases input with
    | track reqs =>
      -- the tickets go on where those of the earlier requests end
      rw [step, assigned_track, ih, RawOneOrMany.intoVec_stampFrom, ← hcount, Nat.zero_add]
      simp [Input.requests]
    | incoming msg =>
      rw [← ih]
      exact (List.append_nil _).symm
    | clear =>
      rw [← ih]
      exact (List.append_nil _).symm

/-- Each request is sent under the id of its ticket. -/
theorem sent_run (id : UInt32) (inputs : List (Input Obs)) :
    (run id inputs).sent = (PendingRequest.stampAll 0 (tracked inputs)).map fun p =>
      p.toRaw (idAt id p.ticket) := by
  have h := consistent_run id inputs
  rw [h.sent, ← assigned_run id inputs, List.map_map]
  refine List.map_congr_left fun a ha => ?_
  obtain ⟨i, hi⟩ := List.mem_iff_getElem?.mp ha
  obtain ⟨hticket, hid, -⟩ := h.assigned i a hi
  rw [Function.comp_apply, hid, hticket]

/-- The `i`-th request that is handed to the tracker is sent under the `i`-th id. -/
theorem getElem?_sent_run {id : UInt32} {inputs : List (Input Obs)} {i : ℕ} {p : PendingRequest Obs}
    (hp : (tracked inputs)[i]? = some p) :
    (run id inputs).sent[i]? = some (p.toRaw (idAt id i)) := by
  rw [sent_run, List.getElem?_map, PendingRequest.getElem?_stampAll, hp, Nat.zero_add]
  rfl

/-! ## Each request in one place -/

/-- The tickets of the pending requests. -/
def pendingTickets (s : Session Obs) : Multiset ℕ :=
  (values s.tracker.pending).map PendingRequest.ticket

/-- The tickets of the requests resolved by a response. -/
def resolvedTickets (s : Session Obs) : Multiset ℕ :=
  (s.resolved.map fun r => r.request.ticket : List ℕ)

/-- The tickets of the cleared requests. -/
def clearedTickets (s : Session Obs) : Multiset ℕ :=
  (s.cleared.map PendingRequest.ticket : List ℕ)

/-- The tickets of the replaced requests. -/
def replacedTickets (s : Session Obs) : Multiset ℕ :=
  (s.replaced.map PendingRequest.ticket : List ℕ)

/-- The tickets of the tracked requests are consecutive. -/
theorem Consistent.map_ticket {id : UInt32} {s : Session Obs} (h : Consistent id s) :
    s.assigned.map (fun a => a.request.ticket) = List.range s.count := by
  apply List.ext_getElem
  · simp [count]
  · intro i hi _
    rw [List.length_map] at hi
    simpa using (h.assigned i s.assigned[i] (List.getElem?_eq_getElem hi)).1

/-- Every ticket given out so far is accounted for once. -/
theorem Consistent.tickets {id : UInt32} {s : Session Obs} (h : Consistent id s) :
    s.pendingTickets + s.resolvedTickets + s.clearedTickets + s.replacedTickets =
      Multiset.range s.count := by
  have haccounted := congrArg (Multiset.map PendingRequest.ticket) h.accounted
  simp only [Multiset.map_add, Multiset.map_coe, List.map_map] at haccounted
  have hassigned : s.assigned.map (PendingRequest.ticket ∘ Assignment.request) =
      List.range s.count := h.map_ticket
  rw [hassigned] at haccounted
  exact haccounted

/-- Each ticket is in exactly one place. -/
theorem Consistent.count_tickets {id : UInt32} {s : Session Obs} (h : Consistent id s) {i : ℕ}
    (hi : i < s.count) :
    s.pendingTickets.count i + s.resolvedTickets.count i + s.clearedTickets.count i +
      s.replacedTickets.count i = 1 := by
  have hcount := congrArg (Multiset.count i) h.tickets
  simp only [Multiset.count_add] at hcount
  rw [hcount]
  exact Multiset.count_eq_one_of_mem (Multiset.nodup_range _) (Multiset.mem_range.mpr hi)

/-- A pending request is filed under the id of its ticket. -/
theorem Consistent.lookup_of_ticket {id : UInt32} {s : Session Obs} (h : Consistent id s)
    {p : PendingRequest Obs} (hp : p ∈ values s.tracker.pending) :
    s.tracker.pending.lookup (idAt id p.ticket) = some p := by
  obtain ⟨id', hlookup⟩ := mem_values.mp hp
  obtain ⟨-, rfl, -⟩ := h.filed _ _ hlookup
  exact hlookup

/-- The pending tickets are those of the pending requests. -/
theorem mem_pendingTickets {s : Session Obs} {i : ℕ} :
    i ∈ s.pendingTickets ↔ ∃ p ∈ values s.tracker.pending, p.ticket = i :=
  Multiset.mem_map

/-- The requests are sent under the ids of their tickets. -/
theorem Consistent.sent_getElem? {id : UInt32} {s : Session Obs} (h : Consistent id s) {i : ℕ}
    {raw : RawRequest} (hraw : s.sent[i]? = some raw) : raw.id = idAt id i := by
  rw [h.sent, List.getElem?_map, Option.map_eq_some_iff] at hraw
  obtain ⟨a, ha, rfl⟩ := hraw
  exact (h.assigned i a ha).2.1

/-- A pending request was tracked, at the place of its ticket. -/
theorem Consistent.assigned_of_lookup {id : UInt32} {s : Session Obs} (h : Consistent id s)
    {id' : UInt32} {p : PendingRequest Obs} (hp : s.tracker.pending.lookup id' = some p) :
    ∃ a, s.assigned[p.ticket]? = some a ∧ a.request = p := by
  -- every pending request was tracked
  have hmem : p ∈ s.assigned.map Assignment.request := by
    rw [← Multiset.mem_coe, ← h.accounted]
    simp [mem_values.mpr ⟨_, hp⟩]
  obtain ⟨a, ha, rfl⟩ := List.mem_map.mp hmem
  obtain ⟨i, hi⟩ := List.mem_iff_getElem?.mp ha
  obtain ⟨rfl, -, -⟩ := h.assigned i a hi
  exact ⟨a, hi, rfl⟩

/-- A pending request was sent under the id it is filed under. -/
theorem Consistent.sent_of_lookup {id : UInt32} {s : Session Obs} (h : Consistent id s)
    {id' : UInt32} {p : PendingRequest Obs} (hp : s.tracker.pending.lookup id' = some p) :
    s.sent[p.ticket]? = some (p.toRaw id') := by
  obtain ⟨-, rfl, -⟩ := h.filed _ _ hp
  obtain ⟨a, ha, hrequest⟩ := h.assigned_of_lookup hp
  rw [h.sent, List.getElem?_map, ha, Option.map_some, hrequest, (h.assigned _ a ha).2.1]

/-! ## Overruns -/

/-- Inserting a request replaces another one exactly when that one is overrun. -/
theorem Consistent.fresh_iff {id : UInt32} {s : Session Obs} (h : Consistent id s)
    {a : Assignment Obs} (ha : a ∈ s.assigned) :
    a.before.pending.lookup a.id = none ↔
      ∀ p ∈ values a.before.pending, p.ticket + period ≠ a.request.ticket := by
  obtain ⟨i, hi⟩ := List.mem_iff_getElem?.mp ha
  obtain ⟨hticket, hid, hfiled⟩ := h.assigned i a hi
  rw [hid, hticket, Option.eq_none_iff_forall_ne_some]
  constructor
  · intro hnone p hp hoverrun
    exact hnone p ((hfiled.lookup_next_iff p).mpr ⟨hp, hoverrun⟩)
  · intro hno p hp
    obtain ⟨hmem, hoverrun⟩ := (hfiled.lookup_next_iff p).mp hp
    exact hno p hmem hoverrun

/-- Without overruns, and only then, no request is ever replaced. -/
theorem Consistent.replaced_eq_nil_iff {id : UInt32} {s : Session Obs} (h : Consistent id s) :
    s.replaced = [] ↔ s.NoOverrun := by
  rw [replaced, List.filterMap_eq_nil_iff]
  exact forall₂_congr fun a ha => h.fresh_iff ha

/-- The first `2 ^ 32` requests overrun nothing. -/
theorem Consistent.noOverrun_of_count_le {id : UInt32} {s : Session Obs} (h : Consistent id s)
    (hcount : s.count ≤ period) : s.NoOverrun := by
  intro a ha p hp hoverrun
  obtain ⟨i, hi⟩ := List.mem_iff_getElem?.mp ha
  have hlt : i < s.count := (List.getElem?_eq_some_iff.mp hi).1
  -- the request it would overrun is more than `2 ^ 32` tickets back
  have hticket := (h.assigned i a hi).1
  omega

/-- A call only adds to what was tracked. -/
theorem assigned_step (s : Session Obs) (input : Input Obs) :
    s.assigned <+: (s.step input).assigned := by
  rcases input with reqs | msg | _
  · rw [step, track_snd, foldl_add]
    exact List.prefix_append _ _
  · exact List.prefix_refl _
  · exact List.prefix_refl _

/-- The history of assignments only grows. -/
theorem assigned_foldl (s : Session Obs) (inputs : List (Input Obs)) :
    s.assigned <+: (inputs.foldl step s).assigned := by
  induction inputs generalizing s with
  | nil => exact List.prefix_refl _
  | cons input inputs ih => exact (assigned_step s input).trans (ih (s.step input))

/-- Without overruns later, there were none before. -/
theorem NoOverrun.mono {s t : Session Obs} (h : t.NoOverrun)
    (hgrow : s.assigned <+: t.assigned) : s.NoOverrun :=
  fun a ha => h a (hgrow.subset ha)

/-- Without overruns the next request finds its id free. -/
theorem Consistent.lookup_nextId_eq_none {id : UInt32} {s : Session Obs} (h : Consistent id s)
    {req : PendingRequest Obs} {reqs : List (PendingRequest Obs)} (hreq : req.ticket = s.count)
    (hno : ((req :: reqs).foldl Session.add s).NoOverrun) :
    s.tracker.pending.lookup s.nextId = none := by
  have hfirst : (s.add req).NoOverrun := by
    rw [List.foldl_cons, foldl_add] at hno
    exact hno.mono (List.prefix_append _ _)
  have hmem : (⟨req, s.nextId, s.tracker⟩ : Assignment Obs) ∈ (s.add req).assigned :=
    List.mem_append_right _ List.mem_cons_self
  exact ((h.add hreq).fresh_iff hmem).mpr (hfirst _ hmem)

/-- A run without overruns has none in any of its states. -/
theorem NoOverrun.of_append {id : UInt32} {inputs later : List (Input Obs)}
    (h : (run id (inputs ++ later)).NoOverrun) : (run id inputs).NoOverrun := by
  rw [run, List.foldl_append] at h
  exact h.mono (assigned_foldl _ later)

end Session

end ElectrumStreamingClient
