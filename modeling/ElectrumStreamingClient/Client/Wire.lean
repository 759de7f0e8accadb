import ElectrumStreamingClient.Client.Correlation
import ElectrumStreamingClient.Io.TypedRequests
import Mathlib.Data.Set.List

/-!
# A client and the transport it writes to

A client together with the bytes that its transport has taken. The transport takes a line in pieces
of any size, and any step of the client that does not concern the writer may come in between. What
a server can read of the bytes at any moment are the first of the accepted requests, and a line
whose write failed is not among them.
-/

namespace ElectrumStreamingClient

open Serde LineFraming JsonText WriteAll WrappingId TransitionSystem

variable [Bitcoin] {Obs E : Type}

/-- The parameters of the request are values that can be written. -/
def PendingRequest.CanWrite (p : PendingRequest Obs) : Prop :=
  ElemsCanWrite p.methodAndParams.2

/-! ## What steps do to the writer -/

namespace Link

/-- What a step does to the writer and to what has been written. -/
inductive WriterMove (l l' : Link Obs) : Prop
  | stays (hwriting : l'.writing = l.writing) (hwire : l'.wire = l.wire)
  | starts (raws : RawOneOrMany RawRequest) (hwriting : l.writing = .idle)
      (hwriting' : l'.writing = .busy raws) (hwire : l'.wire = l.wire)
  | ends (raws : RawOneOrMany RawRequest) (hwriting : l.writing = .busy raws)
      (hwriting' : l'.writing = .idle) (hwire : l'.wire = l.wire ++ [raws])
  | fails (raws : RawOneOrMany RawRequest) (hwriting : l.writing = .busy raws)
      (hwriting' : l'.writing = .failed raws) (hwire : l'.wire = l.wire)

/-- What a step of a link does to its writer. -/
theorem Step.writerMove {l l' : Link Obs} {a : Act E} (h : Step l a l') : WriterMove l l' := by
  cases h with
  | send batch =>
    unfold sendBatch
    split
    · split <;> exact .stays rfl rfl
    · exact .stays rfl rfl
  | close | closeEvents | receive | drop | stay => exact .stays rfl rfl
  | track _ hwriting _ => exact .starts _ hwriting rfl rfl
  | wrote hwriting => exact .ends _ hwriting rfl rfl
  | writeFailed hwriting => exact .fails _ hwriting rfl rfl
  | emit =>
    unfold Link.emit
    split <;> exact .stays rfl rfl

/-- A writer that neither begins nor ends a line stays as it is. -/
theorem WriterMove.writing_eq {l l' : Link Obs} (h : WriterMove l l')
    (hsame : ∀ raws, l'.writing = .busy raws ↔ l.writing = .busy raws) :
    l'.writing = l.writing := by
  cases h with
  | stays hwriting _ => exact hwriting
  | starts raws hidle hbusy _ => exact hbusy.trans ((hsame raws).mp hbusy).symm
  | ends raws hbusy hidle _ => exact ((hsame raws).mpr hbusy).trans hbusy.symm
  | fails raws hbusy hfailed _ => exact ((hsame raws).mpr hbusy).trans hbusy.symm

/-- A line is begun by an idle writer only: not during another line, and not after a failure. -/
theorem WriterMove.idle_of_begins {l l' : Link Obs} (h : WriterMove l l')
    {raws : RawOneOrMany RawRequest} (hbusy : l'.writing = .busy raws)
    (hbefore : l.writing ≠ .busy raws) : l.writing = .idle := by
  cases h with
  | stays hwriting _ => exact absurd (hwriting ▸ hbusy) hbefore
  | starts _ hidle _ _ => exact hidle
  | ends _ _ hidle _ =>
    rw [hidle] at hbusy
    cases hbusy
  | fails _ _ hfailed _ =>
    rw [hfailed] at hbusy
    cases hbusy

/-- A failed write is the end of writing. -/
theorem WriterMove.of_failed {l l' : Link Obs} (h : WriterMove l l')
    {raws : RawOneOrMany RawRequest} (hfailed : l.writing = .failed raws) :
    l'.writing = .failed raws ∧ l'.wire = l.wire := by
  cases h with
  | stays hwriting hwire => exact ⟨hwriting.trans hfailed, hwire⟩
  | starts _ hidle _ _ =>
    rw [hfailed] at hidle
    cases hidle
  | ends _ hbusy _ _ | fails _ hbusy _ _ =>
    rw [hfailed] at hbusy
    cases hbusy

/-- After a failed write no more requests are tracked. -/
theorem Step.sent_eq {l l' : Link Obs} {a : Act E} (h : Step l a l')
    {raws : RawOneOrMany RawRequest} (hfailed : l.writing = .failed raws) :
    l'.session.sent = l.session.sent := by
  cases h with
  | send batch => rw [(l.sendBatch_frame batch).1]
  | close | closeEvents | wrote | writeFailed | receive | stay => rfl
  | track _ hidle _ =>
    rw [hfailed] at hidle
    cases hidle
  | emit =>
    unfold Link.emit
    split <;> rfl
  | drop tracker channel => rcases tracker with _ | _ <;> rfl

/-- What has been written changes only when the write of a line ends. -/
theorem WriterMove.wire_eq {l l' : Link Obs} (h : WriterMove l l')
    (hne : ∀ raws, l.writing = .busy raws → l'.writing ≠ .idle) : l'.wire = l.wire := by
  cases h with
  | stays _ hwire | starts _ _ _ hwire | fails _ _ _ hwire => exact hwire
  | ends raws hbusy hidle _ => exact absurd hidle (hne raws hbusy)

/-- A writer that comes to rest has written its line. -/
theorem WriterMove.wire_eq_append {l l' : Link Obs} (h : WriterMove l l')
    {raws : RawOneOrMany RawRequest} (hbusy : l.writing = .busy raws)
    (hidle : l'.writing = .idle) : l'.wire = l.wire ++ [raws] := by
  -- of the moves of a writer only the end of a line leads from busy to idle
  cases h with
  | stays hwriting _ =>
    rw [hbusy, hidle] at hwriting
    cases hwriting
  | starts _ hwriting _ _ =>
    rw [hbusy] at hwriting
    cases hwriting
  | ends raws' hwriting _ hwire =>
    rw [hbusy] at hwriting
    cases hwriting
    exact hwire
  | fails _ _ hwriting _ =>
    rw [hidle] at hwriting
    cases hwriting

end Link

/-! ## The transport -/

/-- A client and what its transport has taken. -/
structure Wired (σ : Type) where
  client : σ
  /-- The bytes taken so far. -/
  taken : List UInt8
  /-- What is left of the buffer that is being written. -/
  rest : List UInt8

namespace Wired

variable {σ : Type} [JsonFormat]

/-- Nothing has been written. -/
def new (client : σ) : Wired σ := { client, taken := [], rest := [] }

/-- The same bytes next to a part of the client. -/
def map {τ : Type} (f : σ → τ) (w : Wired σ) : Wired τ :=
  { client := f w.client, taken := w.taken, rest := w.rest }

/-- The steps of the client and of its transport: whenever the client's writer gets busy with
another line, that line is to be written; the transport is called on what is left of it, and the
write ends when nothing is left or when a call fails. -/
inductive Step (ClientStep : σ → Act E → σ → Prop) (link : σ → Link Obs) :
    Wired σ → Act E → Wired σ → Prop
  | other {w : Wired σ} {a : Act E} {c : σ} (hstep : ClientStep w.client a c)
      (hsame : ∀ raws, (link c).writing = .busy raws ↔ (link w.client).writing = .busy raws) :
      Step ClientStep link w a { w with client := c }
  | start {w : Wired σ} {a : Act E} {c : σ} {raws : RawOneOrMany RawRequest}
      (hstep : ClientStep w.client a c) (hbefore : (link w.client).writing ≠ .busy raws)
      (hbusy : (link c).writing = .busy raws) :
      Step ClientStep link w a { w with client := c, rest := line raws }
  | attempt {w : Wired σ} {raws : RawOneOrMany RawRequest} {call : Call E}
      {taken rest : List UInt8} (hbusy : (link w.client).writing = .busy raws)
      (hrest : w.rest ≠ []) (hattempt : attempt w.rest call = .ok (taken, rest)) :
      Step ClientStep link w .internal { w with taken := w.taken ++ taken, rest }
  | written {w : Wired σ} {a : Act E} {c : σ} {raws : RawOneOrMany RawRequest}
      (hstep : ClientStep w.client a c) (hbusy : (link w.client).writing = .busy raws)
      (hidle : (link c).writing = .idle) (hrest : w.rest = []) :
      Step ClientStep link w a { w with client := c }
  | failed {w : Wired σ} {a : Act E} {c : σ} {raws : RawOneOrMany RawRequest}
      {call : Call E} {err : WriteError E} (hstep : ClientStep w.client a c)
      (hbusy : (link w.client).writing = .busy raws) (hfailed : (link c).writing = .failed raws)
      (hrest : w.rest ≠ []) (hattempt : attempt w.rest call = .error err) :
      Step ClientStep link w a { w with client := c }

/-- Beside a step of the transport, the client stays as it is. -/
theorem Step.client {ClientStep : σ → Act E → σ → Prop} {link : σ → Link Obs} {w w' : Wired σ}
    {a : Act E} (h : Step ClientStep link w a w') :
    w'.client = w.client ∨ ClientStep w.client a w'.client := by
  cases h with
  | other hstep | start hstep | written hstep | failed hstep => exact .inr hstep
  | attempt => exact .inl rfl

/-- What holds of a client in every state holds of it next to its transport. -/
theorem invariant_client {ClientStep : σ → Act E → σ → Prop} {link : σ → Link Obs}
    {I : σ → Prop} {w₀ w : Wired σ} (hinit : I w₀.client)
    (hkeep : ∀ c a c', I c → ClientStep c a c' → I c')
    (h : Reachable (Step ClientStep link) w₀ w) : I w.client := by
  refine h.invariant (I := fun w => I w.client) hinit fun w a w' hw hstep => ?_
  rcases hstep.client with hsame | hclient
  · rw [hsame]
    exact hw
  · exact hkeep _ _ _ hw hclient

/-- A refinement of clients is one of clients with their transports. -/
theorem reachable_map {ClientStep : σ → Act E → σ → Prop} {link : σ → Link Obs} {I : σ → Prop}
    {w₀ w : Wired σ} (hinit : I w₀.client)
    (hsim : ∀ c a c', I c → ClientStep c a c' → I c' ∧ Link.Step (link c) a (link c'))
    (h : Reachable (Step ClientStep link) w₀ w) :
    Reachable (Step (Link.Step (E := E)) id) (w₀.map link) (w.map link) := by
  -- the transport makes the same moves next to the data of the client
  refine h.simulated (I := fun w => I w.client) (f := map link) hinit fun w a w' hw hstep => ?_
  cases hstep with
  | other hstep hsame =>
    obtain ⟨hw', hlink⟩ := hsim _ _ _ hw hstep
    exact ⟨hw', _, .other hlink hsame⟩
  | start hstep hbefore hbusy =>
    obtain ⟨hw', hlink⟩ := hsim _ _ _ hw hstep
    exact ⟨hw', _, .start hlink hbefore hbusy⟩
  | attempt hbusy hrest hattempt => exact ⟨hw, _, .attempt hbusy hrest hattempt⟩
  | written hstep hbusy hidle hrest =>
    obtain ⟨hw', hlink⟩ := hsim _ _ _ hw hstep
    exact ⟨hw', _, .written hlink hbusy hidle hrest⟩
  | failed hstep hbusy hfailed hrest hattempt =>
    obtain ⟨hw', hlink⟩ := hsim _ _ _ hw hstep
    exact ⟨hw', _, .failed hlink hbusy hfailed hrest hattempt⟩

/-- The transport has taken `part` of what is being written, and `rest` is left. -/
def Partly (part rest : List UInt8) : Writing → Prop
  | .idle => part = [] ∧ rest = []
  | .busy raws => part ++ rest = line raws
  | .failed raws => part ++ rest = line raws ∧ rest ≠ []

/-- What holds of the bytes in every state. -/
structure Flows (w : Wired (Link Obs)) : Prop where
  link : w.client.Consistent
  taken : ∃ part, w.taken = w.client.wire.flatMap line ++ part ∧
    Partly part w.rest w.client.writing

/-- Nothing has been taken of nothing. -/
theorem flows_new : (new Link.new : Wired (Link Obs)).Flows where
  link := Link.consistent_new
  taken := ⟨[], rfl, rfl, rfl⟩

/-- Every step keeps the bytes taken those of the lines. -/
theorem Flows.step {w w' : Wired (Link Obs)} {a : Act E} (h : w.Flows)
    (hstep : Step (Link.Step (E := E)) id w a w') : w'.Flows := by
  obtain ⟨hlink, part, htaken, hpart⟩ := h
  cases hstep with
  | @other _ c hstep hsame =>
    -- the writer neither begins nor ends a line, so it does not move
    have hsame : c.writing = w.client.writing := hstep.writerMove.writing_eq hsame
    have hwire : c.wire = w.client.wire := by
      refine hstep.writerMove.wire_eq fun raws hbusy => ?_
      rw [hsame, hbusy]
      exact Writing.noConfusion
    refine ⟨hlink.step hstep, part, ?_, ?_⟩
    · rw [htaken, hwire]
    · rw [hsame]
      exact hpart
  | @start _ c raws hstep hbefore hbusy =>
    -- only an idle writer begins a line, of which nothing has been taken yet
    have hbefore : w.client.writing = .idle := hstep.writerMove.idle_of_begins hbusy hbefore
    have hafter : c.writing = .busy raws := hbusy
    have hwire : c.wire = w.client.wire := by
      refine hstep.writerMove.wire_eq fun raws' hraws => ?_
      rw [hbefore] at hraws
      cases hraws
    rw [hbefore] at hpart
    refine ⟨hlink.step hstep, [], ?_, ?_⟩
    · rw [htaken, hwire, hpart.1]
    · rw [hafter]
      rfl
  | @attempt raws call taken rest hbusy hrest hattempt =>
    have hwriting : w.client.writing = .busy raws := hbusy
    rw [hwriting] at hpart
    refine ⟨hlink, part ++ taken, ?_, ?_⟩
    · rw [htaken, List.append_assoc]
    · rw [hwriting]
      show part ++ taken ++ rest = line raws
      -- what is taken now was the beginning of the rest
      rw [List.append_assoc, attempt_eq_ok hattempt]
      exact hpart
  | @written _ c raws hstep hbusy hidle hrest =>
    have hwriting : w.client.writing = .busy raws := hbusy
    have hafter : c.writing = .idle := hidle
    have hwire := hstep.writerMove.wire_eq_append hwriting hafter
    -- nothing is left of the line, so all of it has been taken
    rw [hwriting, hrest] at hpart
    have hwhole : part = line raws := by simpa [Partly] using hpart
    refine ⟨hlink.step hstep, [], ?_, ?_⟩
    · rw [htaken, hwire, hwhole]
      simp
    · rw [hafter, hrest]
      exact ⟨rfl, rfl⟩
  | @failed _ c raws call err hstep hbusy hfailed hrest hattempt =>
    have hwriting : w.client.writing = .busy raws := hbusy
    have hafter : c.writing = .failed raws := hfailed
    have hwire : c.wire = w.client.wire := by
      refine hstep.writerMove.wire_eq fun raws' _ => ?_
      rw [hafter]
      exact Writing.noConfusion
    rw [hwriting] at hpart
    refine ⟨hlink.step hstep, part, ?_, ?_⟩
    · rw [htaken, hwire]
    · rw [hafter]
      exact ⟨hpart, hrest⟩

/-- In every run, the bytes taken are those of the lines. -/
theorem flows_of_reachable {w : Wired (Link Obs)}
    (h : Reachable (Step (Link.Step (E := E)) id) (new Link.new) w) : w.Flows :=
  h.invariant flows_new fun _ _ _ hflows hstep => hflows.step hstep

/-- Nothing is written any more: what was taken, which lines were written, and which requests were
given ids for it, is final. -/
structure Ended (raws : RawOneOrMany RawRequest) (w w' : Wired (Link Obs)) : Prop where
  taken : w'.taken = w.taken
  writing : w'.client.writing = .failed raws
  wire : w'.client.wire = w.client.wire
  sent : w'.client.session.sent = w.client.session.sent

/-- What a step takes is behind what was taken before, and after a failed write it is nothing. -/
theorem taken_of_step {w w' : Wired (Link Obs)} {a : Act E}
    (hstep : Step (Link.Step (E := E)) id w a w') :
    w.taken <+: w'.taken ∧ ∀ raws, w.client.writing = .failed raws → Ended raws w w' := by
  cases hstep with
  | @other _ c hstep _ =>
    refine ⟨List.prefix_refl _, fun raws hraws => ?_⟩
    obtain ⟨hfailed, hwire⟩ := hstep.writerMove.of_failed hraws
    exact ⟨rfl, hfailed, hwire, hstep.sent_eq hraws⟩
  | @start _ c raws' hstep _ hbusy =>
    refine ⟨List.prefix_refl _, fun raws hraws => ?_⟩
    -- the client does not write again
    obtain ⟨hfailed, -⟩ := hstep.writerMove.of_failed hraws
    exact absurd (hfailed.symm.trans hbusy) Writing.noConfusion
  | attempt hbusy hrest hattempt =>
    refine ⟨List.prefix_append _ _, fun raws hraws => ?_⟩
    exact absurd (hraws.symm.trans hbusy) Writing.noConfusion
  | written hstep hbusy hidle hrest =>
    refine ⟨List.prefix_refl _, fun raws hraws => ?_⟩
    exact absurd (hraws.symm.trans hbusy) Writing.noConfusion
  | failed hstep hbusy hfailed hrest hattempt =>
    refine ⟨List.prefix_refl _, fun raws hraws => ?_⟩
    exact absurd (hraws.symm.trans hbusy) Writing.noConfusion

/-- So it is with the steps of a run. -/
theorem taken_of_reachable {w w' : Wired (Link Obs)}
    (h : Reachable (Step (Link.Step (E := E)) id) w w') :
    w.taken <+: w'.taken ∧ ∀ raws, w.client.writing = .failed raws → Ended raws w w' := by
  refine h.invariant (I := fun v => w.taken <+: v.taken ∧ ∀ raws,
    w.client.writing = .failed raws → Ended raws w v)
    ⟨List.prefix_refl _, fun raws hraws => ⟨rfl, hraws, rfl, rfl⟩⟩ ?_
  rintro v a v' ⟨hpre, hended⟩ hstep
  obtain ⟨hpre', hended'⟩ := taken_of_step hstep
  refine ⟨hpre.trans hpre', fun raws hraws => ?_⟩
  have hbefore := hended raws hraws
  have hafter := hended' raws hbefore.writing
  exact ⟨hafter.taken.trans hbefore.taken, hafter.writing, hafter.wire.trans hbefore.wire,
    hafter.sent.trans hbefore.sent⟩

/-! ## What a server can read -/

/-- The server can read these lines of the bytes that were taken. -/
structure Reads (w : Wired (Link Obs)) (lines : List (RawOneOrMany RawRequest)) : Prop where
  read : readLines w.taken = lines.map fun msg => some msg.serialize
  /-- The lines whose write has ended, and no others than those begun. -/
  written : w.client.wire <+: lines
  begun : lines <+: w.client.outgoing
  /-- Their requests are the first that were accepted, in order, under their ids. -/
  requests : ∃ n ≤ w.client.accepted.length, lines.flatMap RawOneOrMany.intoVec =
    (w.client.accepted.take n).mapIdx fun i p => p.toRaw (idAt 0 i)
  /-- A line whose write has failed is not among them. -/
  failed : ∀ raws, w.client.writing = .failed raws → lines = w.client.wire

/-- The lines written so far can be written if the accepted requests can. -/
theorem Flows.canWrite {w : Wired (Link Obs)} (h : w.Flows)
    (haccepted : ∀ p ∈ w.client.accepted, p.CanWrite) :
    ∀ msg ∈ w.client.outgoing, msg.CanWrite := by
  intro msg hmsg raw hraw
  have hmem : raw ∈ w.client.outgoing.flatMap RawOneOrMany.intoVec :=
    List.mem_flatMap.mpr ⟨msg, hmsg, hraw⟩
  rw [h.link.outgoing_eq_mapIdx] at hmem
  obtain ⟨i, hi, rfl⟩ := List.mem_mapIdx.mp hmem
  exact haccepted _ (List.mem_of_mem_take (List.getElem_mem _))

/-- The first of the lines carry the first of the requests. -/
theorem Flows.requests {w : Wired (Link Obs)} (h : w.Flows)
    {lines : List (RawOneOrMany RawRequest)} (hlines : lines <+: w.client.outgoing) :
    ∃ n ≤ w.client.accepted.length, lines.flatMap RawOneOrMany.intoVec =
      (w.client.accepted.take n).mapIdx fun i p => p.toRaw (idAt 0 i) := by
  have hpre := hlines.flatMap RawOneOrMany.intoVec
  rw [h.link.outgoing_eq_mapIdx, List.prefix_iff_eq_take] at hpre
  generalize (lines.flatMap RawOneOrMany.intoVec).length = k at hpre
  refine ⟨min k w.client.session.count, (min_le_right _ _).trans h.link.count_le, ?_⟩
  rw [hpre, ← List.take_take]
  apply List.ext_getElem?
  intro i
  rw [List.getElem?_take, List.getElem?_mapIdx, List.getElem?_mapIdx, List.getElem?_take (i := k)]
  split <;> rfl

/-- A server can read the whole lines of what was taken. -/
theorem Flows.reads [LawfulJsonFormat] {w : Wired (Link Obs)} (h : w.Flows)
    (haccepted : ∀ p ∈ w.client.accepted, p.CanWrite) : ∃ lines, w.Reads lines := by
  have hcan := h.canWrite haccepted
  obtain ⟨part, htaken, hpart⟩ := h.taken
  have hread := readLines_flatMap_line_append
    (fun msg hmsg => hcan msg (List.mem_append_left _ hmsg)) part
  rw [← htaken] at hread
  have hwire : w.client.wire <+: w.client.outgoing := List.prefix_append _ _
  -- unless the line being written has been taken whole, nothing can be read of it
  have hunfinished (hpart : readLines part = []) : w.Reads w.client.wire := by
    rw [hpart, List.append_nil] at hread
    exact ⟨hread, List.prefix_refl _, hwire, h.requests hwire, fun _ _ => rfl⟩
  cases hwriting : w.client.writing with
  | idle =>
    rw [hwriting] at hpart
    exact ⟨_, hunfinished (by rw [hpart.1, readLines_nil])⟩
  | busy raws =>
    have houtgoing : w.client.outgoing = w.client.wire ++ [raws] := by
      rw [Link.outgoing, hwriting]
      rfl
    have hraws := hcan raws (houtgoing ▸ List.mem_append_right _ List.mem_cons_self)
    have hline : part ++ w.rest = line raws := by
      rw [hwriting] at hpart
      exact hpart
    by_cases hwhole : part = line raws
    · have hlast := readLines_line_append hraws []
      rw [List.append_nil, readLines_nil] at hlast
      refine ⟨w.client.wire ++ [raws], ?_, List.prefix_append _ _, ?_, ?_, ?_⟩
      · rw [hread, hwhole, hlast, List.map_append, List.map_singleton]
      · rw [houtgoing]
      · exact h.requests (houtgoing ▸ List.prefix_refl _)
      · intro raws' hfailed
        rw [hwriting] at hfailed
        cases hfailed
    · exact ⟨_, hunfinished (readLines_of_isPrefix hraws ⟨_, hline⟩ hwhole)⟩
  | failed raws =>
    have houtgoing : w.client.outgoing = w.client.wire ++ [raws] := by
      rw [Link.outgoing, hwriting]
      rfl
    have hraws := hcan raws (houtgoing ▸ List.mem_append_right _ List.mem_cons_self)
    rw [hwriting] at hpart
    obtain ⟨hline, hrest⟩ := hpart
    refine ⟨_, hunfinished (readLines_of_isPrefix hraws ⟨_, hline⟩ fun hwhole => ?_)⟩
    rw [hwhole] at hline
    exact hrest (by simpa using hline)

omit [JsonFormat] in
/-- A message is made of typed requests if all of its requests are. -/
theorem exists_map_toRaw {line : RawOneOrMany RawRequest}
    (h : ∀ raw ∈ line.intoVec, raw ∈ Set.range BuiltinRequest.toRaw) :
    line ∈ Set.range (RawOneOrMany.map BuiltinRequest.toRaw) := by
  cases line with
  | single raw =>
    obtain ⟨call, rfl⟩ := h raw List.mem_cons_self
    exact ⟨.single call, rfl⟩
  | batch raws =>
    have hraws : raws ∈ Set.range (List.map BuiltinRequest.toRaw) := by
      rw [Set.range_list_map]
      exact h
    obtain ⟨calls, rfl⟩ := hraws
    exact ⟨.batch calls, rfl⟩

/-- The server reads the first of the given requests, in order and under their ids, and all of those
whose lines are written. -/
def ReadsTyped (w : Wired (Link Obs)) (reqs : List BuiltinRequest) : Prop :=
  ∃ msgs : List (RawOneOrMany (UInt32 × BuiltinRequest)), ∃ n ≤ reqs.length,
    (readLines w.taken).map (fun v => v.bind readMessage) = msgs.map some ∧
      msgs.flatMap RawOneOrMany.intoVec = ((reqs.take n).mapIdx fun i req => (idAt 0 i, req)) ∧
        w.client.wire.length ≤ msgs.length

omit [JsonFormat] in
/-- Built-in requests can be written. -/
theorem canWrite_of_typed [StringKeys] {ps : List (PendingRequest Obs)}
    {reqs : List BuiltinRequest}
    (hreqs : ps.map PendingRequest.toMethodAndParams =
      reqs.map BuiltinRequest.toMethodAndParams) : ∀ p ∈ ps, p.CanWrite := by
  intro p hp
  have hmem := List.mem_map_of_mem (f := PendingRequest.toMethodAndParams) hp
  rw [hreqs] at hmem
  obtain ⟨req, -, hreq⟩ := List.mem_map.mp hmem
  have hcan := req.canWrite
  rwa [hreq] at hcan

/-- If callers have sent typed requests, the server reads these. -/
theorem Reads.typed [LawfulEncodings] {w : Wired (Link Obs)}
    {lines : List (RawOneOrMany RawRequest)} (h : w.Reads lines) {reqs : List BuiltinRequest}
    (hreqs : w.client.accepted.map PendingRequest.toMethodAndParams =
      reqs.map BuiltinRequest.toMethodAndParams) : w.ReadsTyped reqs := by
  obtain ⟨n, hn, hrequests⟩ := h.requests
  have hlength : w.client.accepted.length = reqs.length := by
    simpa using congrArg List.length hreqs
  -- the requests of the lines are those that were sent
  have hraws : lines.flatMap RawOneOrMany.intoVec =
      ((reqs.take n).mapIdx fun i req => (idAt 0 i, req)).map BuiltinRequest.toRaw := by
    rw [hrequests]
    apply List.ext_getElem?
    intro i
    have hat := congrArg (fun ms => ms[i]?) hreqs
    simp only [List.getElem?_map] at hat
    rw [List.getElem?_map, List.getElem?_mapIdx, List.getElem?_mapIdx, List.getElem?_take,
      List.getElem?_take]
    split
    · cases hp : w.client.accepted[i]? <;> cases hreq : reqs[i]? <;> rw [hp, hreq] at hat
      · rfl
      · cases hat
      · cases hat
      · have hmethod := Option.some.inj hat
        simp only [Option.map_some, BuiltinRequest.toRaw, PendingRequest.toRaw, hmethod]
    · rfl
  have hlines : lines ∈ Set.range (List.map (RawOneOrMany.map BuiltinRequest.toRaw)) := by
    rw [Set.range_list_map]
    intro line hline
    apply exists_map_toRaw
    intro raw hraw
    have hmem : raw ∈ lines.flatMap RawOneOrMany.intoVec := List.mem_flatMap.mpr ⟨line, hline, hraw⟩
    rw [hraws] at hmem
    obtain ⟨call, -, rfl⟩ := List.mem_map.mp hmem
    exact ⟨call, rfl⟩
  obtain ⟨msgs, rfl⟩ := hlines
  have hwritten := h.written.length_le
  rw [List.length_map] at hwritten
  refine ⟨msgs, n, hlength ▸ hn, ?_, ?_, hwritten⟩
  · rw [h.read, List.map_map, List.map_map]
    apply List.map_congr_left
    intro msg _
    exact readMessage_serialize msg
  · apply BuiltinRequest.toRaw_injective.list_map
    rw [← hraws, List.flatMap_map, List.map_flatMap]
    simp

/-! ## No run is excluded -/

omit [Bitcoin] in
/-- A transport that takes a whole line. -/
theorem attempt_line (raws : RawOneOrMany RawRequest) :
    attempt (line raws) (.took (line raws).length : Call E) = .ok (line raws, []) := by
  obtain ⟨n, hn⟩ := Nat.exists_eq_succ_of_ne_zero
    (List.length_pos_iff.mpr (line_ne_nil raws)).ne'
  rw [hn]
  simp [attempt, hn.le]

/-- Every run of a client is one with some transport. -/
theorem exists_of_reachable {ClientStep : σ → Act E → σ → Prop} {link : σ → Link Obs}
    {I : σ → Prop} {c₀ c : σ} (hinit : I c₀) (hidle : (link c₀).writing = .idle)
    (hsim : ∀ c a c', I c → ClientStep c a c' → I c' ∧ Link.Step (link c) a (link c'))
    (h : Reachable ClientStep c₀ c) :
    ∃ w, Reachable (Step ClientStep link) (new c₀) w ∧ w.client = c := by
  -- no part of a line is taken before all of it is
  have hall : I c ∧ ∃ w, Reachable (Step ClientStep link) (new c₀) w ∧ w.client = c ∧
      ∀ raws, (link c).writing = .busy raws → w.rest = line raws := by
    refine h.invariant (I := fun c => I c ∧ ∃ w, Reachable (Step ClientStep link) (new c₀) w ∧
      w.client = c ∧ ∀ raws, (link c).writing = .busy raws → w.rest = line raws) ?_ ?_
    · refine ⟨hinit, new c₀, Reachable.refl _ _, rfl, fun raws hraws => ?_⟩
      rw [hidle] at hraws
      cases hraws
    · rintro c a c' ⟨hI, w, hreach, rfl, hrest⟩ hstep
      obtain ⟨hI', hlink⟩ := hsim _ _ _ hI hstep
      refine ⟨hI', ?_⟩
      cases hlink.writerMove with
      | stays hwriting _ =>
        refine ⟨_, hreach.tail (.other hstep (by simp [hwriting])), rfl, fun raws hraws => ?_⟩
        exact hrest raws (hwriting ▸ hraws)
      | starts raws hidle hbusy _ =>
        refine ⟨_, hreach.tail (.start hstep (by simp [hidle]) hbusy), rfl,
          fun raws' hraws => ?_⟩
        rw [hbusy] at hraws
        cases hraws
        rfl
      | ends raws hbusy hidle _ =>
        have hline := hrest raws hbusy
        have htaken := hreach.tail (.attempt hbusy (by rw [hline]; exact line_ne_nil raws)
          (by rw [hline]; exact attempt_line raws))
        refine ⟨_, htaken.tail (.written hstep hbusy hidle rfl), rfl, fun raws' hraws => ?_⟩
        rw [hidle] at hraws
        cases hraws
      | fails raws hbusy hfailed _ =>
        have hne : w.rest ≠ [] := by
          rw [hrest raws hbusy]
          exact line_ne_nil raws
        have hzero : attempt w.rest (.took 0 : Call E) = .error .writeZero := rfl
        refine ⟨_, hreach.tail (.failed hstep hbusy hfailed hne hzero), rfl, fun raws' hraws => ?_⟩
        rw [hfailed] at hraws
        cases hraws
  obtain ⟨-, w, hreach, hclient, -⟩ := hall
  exact ⟨w, hreach, hclient⟩

end Wired

/-! ## Both clients -/

section Clients

variable [JsonFormat]

/-- A run of the asynchronous client next to its transport is one of the data of the client. -/
theorem AsyncClient.reachable_wired {w w' : Wired (AsyncClient Obs E)} (hordered : w.client.Ordered)
    (h : Reachable (Wired.Step AsyncClient.Step AsyncClient.link) w w') :
    Reachable (Wired.Step (Link.Step (E := E)) id) (w.map AsyncClient.link)
      (w'.map AsyncClient.link) :=
  Wired.reachable_map hordered (fun _ _ _ hordered hstep => hordered.step hstep) h

/-- A run of the blocking client next to its transport is one of the data of the client. -/
theorem BlockingClient.reachable_wired {w w' : Wired (BlockingClient Obs E)}
    (hordered : w.client.Ordered)
    (h : Reachable (Wired.Step BlockingClient.Step BlockingClient.link) w w') :
    Reachable (Wired.Step (Link.Step (E := E)) id) (w.map BlockingClient.link)
      (w'.map BlockingClient.link) :=
  Wired.reachable_map hordered (fun _ _ _ hordered hstep => hordered.step hstep) h

/-- In every run of the asynchronous client, what a server can read of the bytes that the transport
has taken are the first of the accepted requests, in order. So it is with the blocking client. -/
theorem reads_of_reachable [LawfulJsonFormat] :
    (∀ w : Wired (AsyncClient Obs E),
      Reachable (Wired.Step AsyncClient.Step AsyncClient.link) (Wired.new AsyncClient.new) w →
        (∀ p ∈ w.client.link.accepted, p.CanWrite) →
          ∃ lines, (w.map AsyncClient.link).Reads lines) ∧
    ∀ w : Wired (BlockingClient Obs E),
      Reachable (Wired.Step BlockingClient.Step BlockingClient.link) (Wired.new BlockingClient.new)
        w → (∀ p ∈ w.client.link.accepted, p.CanWrite) →
          ∃ lines, (w.map BlockingClient.link).Reads lines := by
  constructor
  · intro w h haccepted
    have hlink := AsyncClient.reachable_wired AsyncClient.ordered_new h
    exact (Wired.flows_of_reachable hlink).reads haccepted
  · intro w h haccepted
    have hlink := BlockingClient.reachable_wired BlockingClient.ordered_new h
    exact (Wired.flows_of_reachable hlink).reads haccepted

omit [Bitcoin] [JsonFormat] in
/-- A line of which ten bytes were taken. -/
theorem reads_of_reachable_keepAlive :
    letI : Bitcoin := bareBitcoin
    letI : JsonFormat := bitsFormat
    ∃ (w : Wired (AsyncClient (ResponseResult Value) Unit))
      (lines : List (RawOneOrMany RawRequest)), w.taken.length = 10 ∧
        (w.map AsyncClient.link).Reads lines := by
  let _ : Bitcoin := bareBitcoin
  let _ : JsonFormat := bitsFormat
  have _ : LawfulJsonFormat := lawful_bitsFormat
  have hsent : Reachable (Wired.Step AsyncClient.Step AsyncClient.link)
      (Wired.new (AsyncClient.new : AsyncClient (ResponseResult Value) Unit)) _ :=
    (Reachable.refl _ _).tail (.other (.send keepAlive) fun _ => .rfl)
  have hbegun := hsent.tail (.start (.request rfl rfl) Writing.noConfusion rfl)
  have htaken := hbegun.tail (.attempt rfl (line_ne_nil _) (rfl : attempt _ (.took 10) = _))
  obtain ⟨lines, hlines⟩ := reads_of_reachable.1 _ htaken fun p hp => by
    rw [List.mem_singleton.mp hp]
    trivial
  exact ⟨_, lines, by decide, hlines⟩

/-- If callers have sent built-in requests, a server reads the first of these of the bytes that the
transport has taken: the requests themselves, in order and under their ids. -/
theorem typedReads_of_reachable [LawfulJsonFormat] [LawfulEncodings] [StringKeys] :
    (∀ (w : Wired (AsyncClient Obs E)) (reqs : List BuiltinRequest),
      Reachable (Wired.Step AsyncClient.Step AsyncClient.link) (Wired.new AsyncClient.new) w →
        w.client.link.accepted.map PendingRequest.toMethodAndParams =
            reqs.map BuiltinRequest.toMethodAndParams →
          (w.map AsyncClient.link).ReadsTyped reqs) ∧
    ∀ (w : Wired (BlockingClient Obs E)) (reqs : List BuiltinRequest),
      Reachable (Wired.Step BlockingClient.Step BlockingClient.link) (Wired.new BlockingClient.new)
        w → w.client.link.accepted.map PendingRequest.toMethodAndParams =
            reqs.map BuiltinRequest.toMethodAndParams →
          (w.map BlockingClient.link).ReadsTyped reqs := by
  constructor
  -- typed requests can be written, so the server can read their lines
  · intro w reqs h hreqs
    have hlink := AsyncClient.reachable_wired AsyncClient.ordered_new h
    obtain ⟨lines, hlines⟩ := (Wired.flows_of_reachable hlink).reads (Wired.canWrite_of_typed hreqs)
    exact hlines.typed hreqs
  · intro w reqs h hreqs
    have hlink := BlockingClient.reachable_wired BlockingClient.ordered_new h
    obtain ⟨lines, hlines⟩ := (Wired.flows_of_reachable hlink).reads (Wired.canWrite_of_typed hreqs)
    exact hlines.typed hreqs

omit [Bitcoin] [JsonFormat] in
/-- The transport has taken the whole line of a ping. -/
theorem typedReads_of_reachable_ping :
    letI : Bitcoin := byteBitcoin
    letI : JsonFormat := bitsFormat
    ∃ w : Wired (AsyncClient (ResponseResult Value) Unit), w.rest = [] ∧ w.taken ≠ [] ∧
      (w.map AsyncClient.link).ReadsTyped [.ping {}] := by
  let _ : Bitcoin := byteBitcoin
  let _ : JsonFormat := bitsFormat
  have _ : LawfulJsonFormat := lawful_bitsFormat
  have _ : LawfulEncodings := lawfulEncodings_byteBitcoin
  have _ : StringKeys := stringKeys_byteBitcoin
  have hsent : Reachable (Wired.Step AsyncClient.Step AsyncClient.link)
      (Wired.new (AsyncClient.new : AsyncClient (ResponseResult Value) Unit)) _ :=
    (Reachable.refl _ _).tail (.other (.send keepAlive) fun _ => .rfl)
  have hbegun := hsent.tail (.start (.request rfl rfl) Writing.noConfusion rfl)
  have htaken := hbegun.tail (.attempt rfl (line_ne_nil _) (Wired.attempt_line _))
  exact ⟨_, rfl, line_ne_nil _, typedReads_of_reachable.1 _ [.ping {}] htaken rfl⟩

/-- Whatever either client does later, the bytes that its transport has taken stay taken. After a
failed write no more are taken, no other line is begun, and no request gets an id any more. No state
of a client is left out: each is reached next to some transport. -/
theorem taken_of_later :
    ((∀ w w' : Wired (AsyncClient Obs E),
      Reachable (Wired.Step AsyncClient.Step AsyncClient.link) (Wired.new AsyncClient.new) w →
        Reachable (Wired.Step AsyncClient.Step AsyncClient.link) w w' →
          w.taken <+: w'.taken ∧ ∀ raws, w.client.link.writing = .failed raws →
            (w.map AsyncClient.link).Ended raws (w'.map AsyncClient.link)) ∧
      ∀ c : AsyncClient Obs E, Reachable AsyncClient.Step AsyncClient.new c →
        ∃ w, Reachable (Wired.Step AsyncClient.Step AsyncClient.link)
          (Wired.new AsyncClient.new) w ∧ w.client = c) ∧
    (∀ w w' : Wired (BlockingClient Obs E),
      Reachable (Wired.Step BlockingClient.Step BlockingClient.link) (Wired.new BlockingClient.new)
        w → Reachable (Wired.Step BlockingClient.Step BlockingClient.link) w w' →
          w.taken <+: w'.taken ∧ ∀ raws, w.client.link.writing = .failed raws →
            (w.map BlockingClient.link).Ended raws (w'.map BlockingClient.link)) ∧
      ∀ c : BlockingClient Obs E, Reachable BlockingClient.Step BlockingClient.new c →
        ∃ w, Reachable (Wired.Step BlockingClient.Step BlockingClient.link)
          (Wired.new BlockingClient.new) w ∧ w.client = c := by
  -- the run of a client is one of its data once the client is in order
  refine ⟨⟨fun w w' h h' => ?_, fun c h => ?_⟩, fun w w' h h' => ?_, fun c h => ?_⟩
  · have hordered := Wired.invariant_client (I := AsyncClient.Ordered) AsyncClient.ordered_new
      (fun _ _ _ hordered hstep => (hordered.step hstep).1) h
    exact Wired.taken_of_reachable (AsyncClient.reachable_wired hordered h')
  · exact Wired.exists_of_reachable (I := AsyncClient.Ordered) AsyncClient.ordered_new rfl
      (fun _ _ _ hordered hstep => hordered.step hstep) h
  · have hordered := Wired.invariant_client (I := BlockingClient.Ordered)
      BlockingClient.ordered_new (fun _ _ _ hordered hstep => (hordered.step hstep).1) h
    exact Wired.taken_of_reachable (BlockingClient.reachable_wired hordered h')
  · exact Wired.exists_of_reachable (I := BlockingClient.Ordered) BlockingClient.ordered_new rfl
      (fun _ _ _ hordered hstep => hordered.step hstep) h

omit [Bitcoin] [JsonFormat] in
/-- The transport fails after ten bytes, while another request is in the channel. The worker
finishes, and the other request gets no id. -/
theorem taken_of_later_keepAlive :
    letI : Bitcoin := bareBitcoin
    letI : JsonFormat := bitsFormat
    ∃ w w' : Wired (AsyncClient (ResponseResult Value) Unit), w.taken.length = 10 ∧
      w'.client.worker = .finished (.writeError ()) ∧ w'.client.link.accepted.length = 2 ∧
        w'.taken = w.taken ∧ w'.client.link.session.sent.length = 1 := by
  let _ : Bitcoin := bareBitcoin
  let _ : JsonFormat := bitsFormat
  have hsent : Reachable (Wired.Step AsyncClient.Step AsyncClient.link)
      (Wired.new (AsyncClient.new : AsyncClient (ResponseResult Value) Unit)) _ :=
    ((Reachable.refl _ _).tail (.other (.send keepAlive) fun _ => .rfl)).tail
      (.other (.send keepAlive) fun _ => .rfl)
  -- the first request is begun, ten of its bytes are taken, and then the transport fails
  have hbegun := hsent.tail (.start (.request rfl rfl) Writing.noConfusion rfl)
  have htaken := hbegun.tail (.attempt rfl (line_ne_nil _) (rfl : attempt _ (.took 10) = _))
  have hfailed := htaken.tail (.failed (.writeFailed () rfl rfl) rfl rfl (by decide)
    (rfl : attempt _ (.failed ()) = _))
  have hended {w w' : Wired (AsyncClient (ResponseResult Value) Unit)}
      (h : Reachable (Wired.Step AsyncClient.Step AsyncClient.link) (Wired.new AsyncClient.new) w)
      (h' : Reachable (Wired.Step AsyncClient.Step AsyncClient.link) w w')
      {raws : RawOneOrMany RawRequest} (hraws : w.client.link.writing = .failed raws) :
      w'.taken = w.taken ∧ w'.client.link.session.sent = w.client.link.session.sent := by
    have hended := (taken_of_later.1.1 _ _ h h').2 _ hraws
    exact ⟨hended.taken, hended.sent⟩
  obtain ⟨hsame, hids⟩ := hended hfailed
    ((Reachable.refl _ _).tail (.other (.finish rfl) fun _ => .rfl)) rfl
  exact ⟨_, _, by decide, rfl, rfl, hsame, congrArg List.length hids⟩

end Clients

end ElectrumStreamingClient
