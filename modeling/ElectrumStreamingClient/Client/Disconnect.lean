import ElectrumStreamingClient.Client.Conservation

/-!
# Callers on a dead connection

When the read thread of the blocking client stops, requests without an answer stay in the tracker,
which the write thread keeps alive. It waits for requests as long as any clone of the client exists,
and a caller blocked in `send_request` holds one. So such a caller is released only if the write
thread terminates as well.
-/

namespace ElectrumStreamingClient

open Serde KeyedStore TransitionSystem

variable [Bitcoin] {Obs E : Type}

/-- The request is in the channel or in the tracker: its callback was neither run nor dropped. -/
def Link.Retains (l : Link Obs) (p : PendingRequest Obs) : Prop :=
  p ∈ l.channel.flatMap RawOneOrMany.intoVec ∨ p ∈ values l.session.tracker.pending

namespace BlockingClient

/-- The write thread is blocked on the empty channel. -/
def Blocked (c : BlockingClient Obs E) : Prop :=
  c.writer = .waiting ∧ c.link.channel = [] ∧ c.link.channelOpen = true

/-- The read thread has terminated, and the write thread has too, or it is blocked. -/
def Disconnected (c : BlockingClient Obs E) : Prop :=
  c.reader.isFinished = true ∧ (c.Blocked ∨ c.writer.isFinished = true)

/-- No caller waits for its callback to be run or dropped. -/
def ReleasesCallers (c : BlockingClient Obs E) : Prop :=
  ∀ p, c.link.Retains p → ¬p.HasCallback

/-- Every request with a callback was answered, or replaced by one with the same id. -/
def CallersAnswered (c : BlockingClient Obs E) : Prop :=
  ∀ p ∈ c.link.accepted, p.HasCallback →
    p.ticket ∈ c.link.session.resolvedTickets ∨ p.ticket ∈ c.link.session.replacedTickets

/-- Once both threads have terminated nothing is retained: the last handle of the tracker is gone,
and so is the receiver of requests. -/
theorem releasesCallers_of_finished {c : BlockingClient Obs E} (hconsistent : c.link.Consistent)
    (hordered : c.Ordered) (hreader : c.reader.isFinished = true)
    (hwriter : c.writer.isFinished = true) : c.ReleasesCallers := by
  have hdropped : c.link.trackerDropped = true := by
    rw [hordered.dropped, hreader, hwriter, Bool.and_self]
  intro p hp
  rw [Link.Retains, hconsistent.dropped hdropped, (hordered.finished hwriter).1] at hp
  simp at hp

/-- While the write thread is blocked, an accepted request is pending, resolved or replaced. -/
theorem Blocked.mem_accepted_iff {c : BlockingClient Obs E} (hblocked : c.Blocked)
    (hconsistent : c.link.Consistent) (hordered : c.Ordered) {p : PendingRequest Obs} :
    p ∈ c.link.accepted ↔ p ∈ values c.link.session.tracker.pending ∨
      p ∈ c.link.session.resolved.map Resolution.request ∨ p ∈ c.link.session.replaced := by
  obtain ⟨hwriter, hchannel, -⟩ := hblocked
  have hunfinished : c.writer.isFinished = false := by simp [hwriter]
  have hcleared := hconsistent.cleared (hordered.dropped_of_writer hunfinished)
  have haccepted := hconsistent.accepted
  rw [hordered.running hunfinished, hchannel, List.flatMap_nil, List.append_nil, List.append_nil]
    at haccepted
  rw [haccepted, ← Multiset.mem_coe, ← hconsistent.session.accounted, hcleared]
  simp [or_assoc]

/-- While the write thread is blocked, a caller is released only by its answer. -/
theorem Blocked.releasesCallers_iff {c : BlockingClient Obs E} (hblocked : c.Blocked)
    (hconsistent : c.link.Consistent) (hordered : c.Ordered) :
    c.ReleasesCallers ↔ c.CallersAnswered := by
  have hmem {p} := hblocked.mem_accepted_iff hconsistent hordered (p := p)
  constructor
  · intro hreleases p hp hcallback
    -- a pending request would be retained
    have hpending : p ∉ values c.link.session.tracker.pending :=
      fun hpending => hreleases p (.inr hpending) hcallback
    rcases (hmem.mp hp).resolve_left hpending with hresolved | hreplaced
    · obtain ⟨r, hr, rfl⟩ := List.mem_map.mp hresolved
      exact .inl (Multiset.mem_coe.mpr (List.mem_map_of_mem hr))
    · exact .inr (Multiset.mem_coe.mpr (List.mem_map_of_mem hreplaced))
  · intro hanswered p hretains hcallback
    have hpending : p ∈ values c.link.session.tracker.pending := by
      rw [Link.Retains, hblocked.2.1] at hretains
      simpa using hretains
    have haccepted := hmem.mpr (.inl hpending)
    -- a ticket is in one place
    have hlt : p.ticket < c.link.session.count := by
      obtain ⟨id, hlookup⟩ := mem_values.mp hpending
      exact (hconsistent.session.filed id p hlookup).1
    have hcount := hconsistent.session.count_tickets hlt
    have hticket : 0 < c.link.session.pendingTickets.count p.ticket :=
      Multiset.count_pos.mpr (Session.mem_pendingTickets.mpr ⟨p, hpending, rfl⟩)
    rcases hanswered p haccepted hcallback with h | h <;>
    · have hpos := Multiset.count_pos.mpr h
      omega

/-- When the client is disconnected its callers are released exactly if the write thread has
terminated too, or none of them was without an answer. -/
theorem releasesCallers_iff_of_disconnected {c : BlockingClient Obs E}
    (h : Reachable Step new c) (hdisconnected : c.Disconnected) :
    c.ReleasesCallers ↔ c.writer.isFinished = true ∨ c.CallersAnswered := by
  have hordered := ordered_of_reachable h
  have hconsistent := Link.consistent_of_reachable (reachable_link h)
  -- the read thread has dropped its handle of the tracker; what about the other one?
  obtain ⟨hreader, hblocked | hwriter⟩ := hdisconnected
  · rw [hblocked.releasesCallers_iff hconsistent hordered]
    simp [hblocked.1]
  · simp [releasesCallers_of_finished hconsistent hordered hreader hwriter, hwriter]

omit [Bitcoin] in
/-- The answer comes before the stream ends: the caller has it. -/
theorem releasesCallers_iff_of_disconnected_answered :
    letI : Bitcoin := bareBitcoin
    ∃ c : BlockingClient (ResponseResult Value) Unit, c.writer = .waiting ∧
      c.link.session.resolvedTickets = {0} ∧ c.ReleasesCallers := by
  let _ : Bitcoin := bareBitcoin
  have hsent : Reachable Step (new : BlockingClient (ResponseResult Value) Unit) _ :=
    (Reachable.refl Step new).tail (.send keepAlive)
  have hwritten := (hsent.tail (.request rfl rfl)).tail (.written rfl rfl)
  have hanswered := hwritten.tail (.incoming (r := .ok (some (.ok (.response pong)))) rfl)
  have hended := (hanswered.tail (.incoming (r := .ok none) rfl)).tail (.finishReader rfl)
  refine ⟨_, rfl, rfl, (releasesCallers_iff_of_disconnected hended ?_).mpr (.inr ?_)⟩
  · exact ⟨rfl, .inl ⟨rfl, rfl, rfl⟩⟩
  · intro p hp _
    rw [List.mem_singleton.mp hp]
    exact .inl (Multiset.mem_singleton_self 0)

omit [Bitcoin] in
/-- The stream ends before the answer: the caller keeps waiting, and with it the write thread. -/
theorem not_releasesCallers_endOfStream :
    letI : Bitcoin := bareBitcoin
    ∃ c : BlockingClient (ResponseResult Value) Unit, Reachable Step new c ∧
      c.reader = .finished .endOfStream ∧ c.Disconnected ∧ ¬c.ReleasesCallers := by
  let _ : Bitcoin := bareBitcoin
  have hsent : Reachable Step (new : BlockingClient (ResponseResult Value) Unit) _ :=
    (Reachable.refl Step new).tail (.send keepAlive)
  have hwritten := (hsent.tail (.request rfl rfl)).tail (.written rfl rfl)
  have hended := (hwritten.tail (.incoming (r := .ok none) rfl)).tail (.finishReader rfl)
  refine ⟨_, hended, rfl, ⟨rfl, .inl ⟨rfl, rfl, rfl⟩⟩, fun hreleases => ?_⟩
  exact hreleases _ (.inr (mem_values.mpr ⟨0, rfl⟩)) rfl

end BlockingClient

end ElectrumStreamingClient
