import ElectrumStreamingClient.Client.Correlation
import ElectrumStreamingClient.Foundations.DelimitedText
import ElectrumStreamingClient.Io.Resumption

/-!
# A client and the stream it reads

A client together with its read streamer over a reader, blocking or polled, that hands its bytes
over in chunks of any size. Whatever else the client and its callers do between two reads, the
messages it handles are those of the lines of the bytes, each once and in their order, and when it
stops at the end of the stream it has handled all of them.
-/

namespace ElectrumStreamingClient

open Serde LineFraming WrappingId TransitionSystem DelimitedText

variable [Bitcoin] {Obs E : Type}

/-! ## Messages and what handling them did -/

/-- What handling a message did, next to the message. -/
inductive HandledAs (accepted : List (PendingRequest Obs)) :
    RawIncoming → Handled Obs ProcessError → Prop
  | notification {raw : RawNotification} {n : Notification} (hnew : Notification.new raw = .ok n) :
      HandledAs accepted (.notification raw)
        { called := none, result := .ok (some (.notification n)) }
  | undecodable {raw : RawNotification} {err : Error} (hnew : Notification.new raw = .error err) :
      HandledAs accepted (.notification raw)
        { called := none
          result := .error (.cannotDeserializeNotification raw.method raw.params err) }
  | missing {resp : RawResponse} :
      HandledAs accepted (.response resp)
        { called := none, result := .error (.missingRequest resp.id) }
  /-- The handler was that of an accepted request that was sent under the id of the response. -/
  | resolved {p : PendingRequest Obs} {resp : RawResponse} (hp : accepted[p.ticket]? = some p)
      (hid : resp.id = idAt 0 p.ticket) :
      HandledAs accepted (.response resp) (Session.resolve p resp).handled

/-- A message stays handled as it was when more requests are accepted. -/
theorem HandledAs.mono {accepted accepted' : List (PendingRequest Obs)} {msg : RawIncoming}
    {h : Handled Obs ProcessError} (hhandled : HandledAs accepted msg h)
    (hpre : accepted <+: accepted') : HandledAs accepted' msg h := by
  cases hhandled with
  | notification hnew => exact .notification hnew
  | undecodable hnew => exact .undecodable hnew
  | missing => exact .missing
  | resolved hp hid => exact .resolved (getElem?_of_isPrefix hpre hp) hid

/-- The next message is handled so. -/
theorem Link.Consistent.handledAs {l : Link Obs} (h : l.Consistent) (msg : RawIncoming) :
    HandledAs l.accepted msg (l.session.incoming msg).1 := by
  rcases msg with raw | resp
  · rcases hnew : Notification.new raw with err | n
    · simpa [Session.incoming, RequestTracker.handleIncoming, hnew] using .undecodable hnew
    · simpa [Session.incoming, RequestTracker.handleIncoming, hnew] using .notification hnew
  · rcases hlookup : l.session.tracker.pending.lookup resp.id with _ | p
    · rw [Session.incoming_of_lookup_eq_none hlookup]
      exact .missing
    · rw [Session.incoming_of_lookup_eq_some hlookup]
      exact .resolved (h.accepted_of_lookup hlookup) (h.session.filed _ p hlookup).2.1

/-- The message, if the streamer gave one. -/
def message? : NextResult E → Option RawIncoming
  | .ok (some (.ok msg)) => some msg
  | _ => none

omit [Bitcoin] in
theorem message?_eq_some {r : NextResult E} {msg : RawIncoming} :
    message? r = some msg ↔ r = .ok (some (.ok msg)) := by
  rcases r with _ | _ | _ | _ <;> simp [message?]

/-- The messages among results, in order. -/
def messages (results : List (NextResult E)) : List RawIncoming :=
  results.filterMap message?

/-! ## Streamers -/

/-- One poll of a streamer of either kind gives the head of what it has left, or nothing yet. -/
structure Pulls {S : Type} (poll : S → Poll (NextResult E) × S) (I : S → Prop)
    (output : S → List (NextResult E)) : Prop where
  ready : ∀ s r s', I s → poll s = (.ready r, s') → I s' ∧ Emits (.ok none) (output s) r (output s')
  pending : ∀ s s', I s → poll s = (.pending, s') → I s' ∧ output s' = output s

namespace ReadStreamer

variable (parse : List UInt8 → Except Serde.Error Value)

/-- `next` is always ready. -/
def pullNext (s : ReadStreamer (BufReader UInt8 E) E) :
    Poll (NextResult E) × ReadStreamer (BufReader UInt8 E) E :=
  (.ready (next parse s).1, (next parse s).2)

variable {parse}

omit [Bitcoin]

/-- The blocking streamer hands out its results one by one. -/
theorem pulls_pullNext : Pulls (pullNext parse) MidLine
    (fun s : ReadStreamer (BufReader UInt8 E) E => s.output parse) where
  ready s r s' hmid hpoll := by
    obtain ⟨hr, rfl⟩ := Prod.mk.inj hpoll
    rw [← Poll.ready.inj hr]
    exact next_emits hmid
  pending s s' _ hpoll := by cases hpoll

/-- The asynchronous streamer hands out its results one by one, between pending polls. -/
theorem pulls_pollNext : Pulls (pollNext parse) MidLine
    (fun s : ReadStreamer (AsyncBufReader UInt8 E) E => s.output parse) where
  ready s r s' hmid hpoll := by
    have hemits : PollEmits parse s _ _ := pollNext_pollEmits hmid
    rw [hpoll] at hemits
    cases hemits with
    | ready hmid' _ hout => exact ⟨hmid', hout⟩
  pending s s' hmid hpoll := by
    have hemits : PollEmits parse s _ _ := pollNext_pollEmits hmid
    rw [hpoll] at hemits
    cases hemits with
    | pending hsuspends => exact ⟨hsuspends.midLine, hsuspends.output_eq.symm⟩

end ReadStreamer

/-! ## The client and its streamer -/

/-- A client with its read streamer, and the results that it has taken from it. -/
structure Fed (σ S E : Type) where
  client : σ
  streamer : S
  results : List (NextResult E)

namespace Fed

variable {σ S : Type}

/-- Nothing has been read. -/
def new (client : σ) (streamer : S) : Fed σ S E := { client, streamer, results := [] }

/-- The same streamer next to a part of the client. -/
def map {τ : Type} (f : σ → τ) (w : Fed σ S E) : Fed τ S E :=
  { client := f w.client, streamer := w.streamer, results := w.results }

/-- The steps of the client, and polls of its streamer. A result goes to the client at once. -/
inductive Step (poll : S → Poll (NextResult E) × S) (ClientStep : σ → Act E → σ → Prop) :
    Fed σ S E → Act E → Fed σ S E → Prop
  | internal {w : Fed σ S E} {c : σ} (hstep : ClientStep w.client .internal c) :
      Step poll ClientStep w .internal { w with client := c }
  | pending {w : Fed σ S E} {s : S} (hpoll : poll w.streamer = (.pending, s)) :
      Step poll ClientStep w .internal { w with streamer := s }
  | read {w : Fed σ S E} {r : NextResult E} {s : S} {c : σ}
      (hpoll : poll w.streamer = (.ready r, s)) (hstep : ClientStep w.client (.read r) c) :
      Step poll ClientStep w (.read r)
        { client := c, streamer := s, results := w.results ++ [r] }

variable {poll : S → Poll (NextResult E) × S} {ClientStep : σ → Act E → σ → Prop}

/-- A refinement of clients is one of clients with their streamers. -/
theorem reachable_map {link : σ → Link Obs} {I : σ → Prop} {c : σ} {s : S} (hinit : I c)
    (hsim : ∀ c a c', I c → ClientStep c a c' → I c' ∧ Link.Step (link c) a (link c'))
    {w : Fed σ S E} (h : Reachable (Step poll ClientStep) (new c s) w) :
    Reachable (Step poll (Link.Step (E := E))) (new (link c) s) (w.map link) := by
  refine h.simulated (I := fun w => I w.client) (f := map link) hinit fun w a w' hw hstep => ?_
  cases hstep with
  | internal hstep =>
    obtain ⟨hw', hlink⟩ := hsim _ _ _ hw hstep
    exact ⟨hw', _, .internal hlink⟩
  | pending hpoll => exact ⟨hw, _, .pending hpoll⟩
  | read hpoll hstep =>
    obtain ⟨hw', hlink⟩ := hsim _ _ _ hw hstep
    exact ⟨hw', _, .read hpoll hlink⟩

/-- What has been read of the output of the first streamer, and what is left of it. -/
structure Reading (I : S → Prop) (output : S → List (NextResult E)) (out : List (NextResult E))
    (w : Fed σ S E) : Prop where
  streamer : I w.streamer
  results : w.results = padded (.ok none) out w.results.length
  rest : output w.streamer = out.drop w.results.length

omit [Bitcoin] in
/-- Every step keeps what was read the beginning of the results. -/
theorem Reading.step {I : S → Prop} {output : S → List (NextResult E)}
    (hpulls : Pulls poll I output) {out : List (NextResult E)} {w w' : Fed σ S E} {a : Act E}
    (h : w.Reading I output out) (hstep : Step poll ClientStep w a w') :
    w'.Reading I output out := by
  obtain ⟨hstreamer, hresults, hrest⟩ := h
  cases hstep with
  | internal => exact ⟨hstreamer, hresults, hrest⟩
  | pending hpoll =>
    -- a pending poll takes nothing from the output
    obtain ⟨hstreamer', hout⟩ := hpulls.pending _ _ hstreamer hpoll
    exact ⟨hstreamer', hresults, hout.trans hrest⟩
  | read hpoll =>
    -- the result is the next one of the output
    obtain ⟨hstreamer', hemits⟩ := hpulls.ready _ _ _ hstreamer hpoll
    refine ⟨hstreamer', ?_, ?_⟩
    · rw [List.length_append, List.length_singleton, padded_concat, ← hresults, hemits.result,
        hrest]
    · rw [hemits.rest, hrest, List.tail_drop]
      simp

omit [Bitcoin] in
/-- In every run, what was read is the beginning of the results. -/
theorem reading_of_reachable {I : S → Prop} {output : S → List (NextResult E)}
    (hpulls : Pulls poll I output) {c : σ} {s : S} (hs : I s) {w : Fed σ S E}
    (h : Reachable (Step poll ClientStep) (new c s) w) : w.Reading I output (output s) :=
  h.invariant ⟨hs, rfl, rfl⟩ fun _ _ _ hreading hstep => hreading.step hpulls hstep

/-- The calls of `handle_incoming` were for the messages taken from the streamer. -/
structure Handles (w : Fed (Link Obs) S E) : Prop where
  link : w.client.Consistent
  handled : List.Forall₂ (HandledAs w.client.accepted) (messages w.results) w.client.handled

/-- Every step handles what it reads. -/
theorem Handles.step {w w' : Fed (Link Obs) S E} {a : Act E} (h : w.Handles)
    (hstep : Step poll (Link.Step (E := E)) w a w') : w'.Handles := by
  obtain ⟨hlink, hhandled⟩ := h
  cases hstep with
  | @internal c hstep =>
    obtain ⟨-, hsame⟩ := hstep.resolved_eq (by simp)
    refine ⟨hlink.step hstep, ?_⟩
    dsimp only
    rw [hsame]
    exact hhandled.imp fun _ _ hmsg => hmsg.mono hstep.grows.accepted
  | pending => exact ⟨hlink, hhandled⟩
  | @read r s c hpoll hstep =>
    refine ⟨hlink.step hstep, ?_⟩
    rcases hmsg : message? r with _ | msg
    · -- an error, the end or a panic: nothing is handled
      obtain ⟨-, hsame⟩ := hstep.resolved_eq fun msg hread => by
        cases hread
        cases hmsg
      have hmessages : messages (w.results ++ [r]) = messages w.results := by
        simp [messages, hmsg]
      dsimp only
      rw [hmessages, hsame]
      exact hhandled.imp fun _ _ hmsg => hmsg.mono hstep.grows.accepted
    · have hr := message?_eq_some.mp hmsg
      subst hr
      cases hstep with
      | receive hdropped =>
        -- the message is the last one taken, and the last one handled
        have hmessages : messages (w.results ++ [.ok (some (.ok msg))]) =
            messages w.results ++ [msg] := by
          simp [messages, message?]
        dsimp only
        rw [hmessages]
        exact List.rel_append hhandled (.cons (hlink.handledAs msg) .nil)
      | stay ha => exact absurd rfl (ha msg)

/-- In every run, what was handled is what was read. -/
theorem handles_of_reachable {s : S} {w : Fed (Link Obs) S E}
    (h : Reachable (Step poll (Link.Step (E := E))) (new Link.new s) w) : w.Handles :=
  h.invariant ⟨Link.consistent_new, .nil⟩ fun _ _ _ hhandles hstep => hhandles.step hstep

/-! ## The end of the stream -/

omit [Bitcoin] in
/-- A client that stops at the end of the stream has read it. -/
theorem ended_of_reachable {Ended : σ → Prop} {c : σ} {s : S} (hinit : ¬Ended c)
    (hended : ∀ c a c', ClientStep c a c' → Ended c' → Ended c ∨ a = .read (.ok none))
    {w : Fed σ S E} (h : Reachable (Step poll ClientStep) (new c s) w) (hw : Ended w.client) :
    .ok none ∈ w.results := by
  refine h.invariant (I := fun w => Ended w.client → .ok none ∈ w.results)
    (fun hinit' => absurd hinit' hinit) ?_ hw
  intro w a w' hw hstep hended'
  cases hstep with
  | internal hstep =>
    -- a client ends only when it reads the end, which is then a result
    rcases hended _ _ _ hstep hended' with hbefore | hread
    · exact hw hbefore
    · cases hread
  | pending => exact hw hended'
  | read _ hstep =>
    rcases hended _ _ _ hstep hended' with hbefore | hread
    · exact List.mem_append_left _ (hw hbefore)
    · cases hread
      exact List.mem_append_right _ List.mem_cons_self

end Fed

omit [Bitcoin] in
/-- The end of the stream is not among the results of its bytes. -/
theorem ok_none_notMem_delivered (parse : List UInt8 → Except Serde.Error Value)
    (ending : Ending E) (bytes : List UInt8) : .ok none ∉ delivered parse ending bytes := by
  rw [delivered]
  induction completeLines newline bytes with
  | nil =>
    simp only [results]
    split
    · split <;> simp
    · simp
  | cons line lines ih =>
    rw [results_cons]
    split
    · simp [ih]
    · simp

omit [Bitcoin] in
/-- The end of the stream is no message. -/
theorem messages_padded (out : List (NextResult E)) (n : ℕ) :
    messages (padded (.ok none) out n) = messages (out.take n) := by
  rw [padded_eq_take_append, messages, List.filterMap_append, List.filterMap_replicate_of_none]
  · exact List.append_nil _
  · rfl

omit [Bitcoin] in
/-- Results that include the end of the stream include all that was to come before it. -/
theorem messages_padded_of_mem {out : List (NextResult E)} {n : ℕ} (hout : .ok none ∉ out)
    (hmem : .ok none ∈ padded (.ok none) out n) :
    messages (padded (.ok none) out n) = messages out := by
  obtain ⟨i, hi, hlast⟩ := List.mem_map.mp hmem
  -- a result before the end of the output is one of its own
  have hlength : out.length ≤ i := by
    by_contra hlt
    rw [List.getD_eq_getElem?_getD, List.getElem?_eq_getElem (not_le.mp hlt),
      Option.getD_some] at hlast
    exact hout (hlast ▸ List.getElem_mem _)
  have hle : out.length ≤ n := hlength.trans (List.mem_range.mp hi).le
  rw [messages_padded, List.take_of_length_le hle]

/-- The messages that a client handled are those of the output, each once and in its order: up to
where it has read, and all of them if it stopped at the end of the stream. -/
structure Fed.Follows {σ S : Type} (link : σ → Link Obs) (AtEnd : σ → Prop)
    (out : List (NextResult E)) (w : Fed σ S E) : Prop where
  results : w.results = padded (.ok none) out w.results.length
  handled : List.Forall₂ (HandledAs (link w.client).accepted) (messages w.results)
    (link w.client).handled
  atEnd : AtEnd w.client → messages w.results = messages out

/-- A new client that refines the link, and is at its end only after it has read the end. -/
structure ReadsToEnd {σ : Type} (ClientStep : σ → Act E → σ → Prop) (link : σ → Link Obs)
    (I AtEnd : σ → Prop) (c : σ) : Prop where
  new : link c = Link.new
  init : I c
  step : ∀ c a c', I c → ClientStep c a c' → I c' ∧ Link.Step (link c) a (link c')
  running : ¬AtEnd c
  atEnd : ∀ c a c', ClientStep c a c' → AtEnd c' → AtEnd c ∨ a = .read (.ok none)

/-- A client that reads to the end, fed by a streamer, follows its results. -/
theorem Fed.follows_of_reachable {σ S : Type} {poll : S → Poll (NextResult E) × S}
    {ClientStep : σ → Act E → σ → Prop} {link : σ → Link Obs} {I AtEnd : σ → Prop} {J : S → Prop}
    {output : S → List (NextResult E)} {c : σ} {s : S}
    (hclient : ReadsToEnd ClientStep link I AtEnd c) (hpulls : Pulls poll J output) (hs : J s)
    (hout : .ok none ∉ output s) {w : Fed σ S E}
    (h : Reachable (Step poll ClientStep) (new c s) w) : w.Follows link AtEnd (output s) := by
  have hreading : w.Reading J output (output s) := reading_of_reachable hpulls hs h
  have hlink := reachable_map hclient.init hclient.step h
  rw [hclient.new] at hlink
  refine ⟨hreading.results, (handles_of_reachable hlink).handled, fun hw => ?_⟩
  -- the end of the stream was read, so all that comes before it was
  have hended : .ok none ∈ w.results := ended_of_reachable hclient.running hclient.atEnd h hw
  rw [hreading.results] at hended ⊢
  exact messages_padded_of_mem hout hended

namespace AsyncClient

/-- The worker has left its loop at the end of the stream. -/
def AtEnd (c : AsyncClient Obs E) : Prop :=
  c.worker = .exiting .endOfStream ∨ c.worker = .finished .endOfStream

/-- A worker comes to the end of the stream by reading it. -/
theorem Step.atEnd {c c' : AsyncClient Obs E} {a : Act E} (h : Step c a c') (hc' : c'.AtEnd) :
    c.AtEnd ∨ a = .read (.ok none) := by
  cases h with
  | send | close | closeEvents => exact .inl hc'
  | request | requestsClosed | written | writeFailed => simp [AtEnd] at hc'
  | @incoming r hworker =>
    refine .inr (congrArg _ ?_)
    rcases r with _ | _ | err | msg
    · simp [AtEnd, Link.onIncoming, afterRead] at hc'
    · rfl
    · simp [AtEnd, Link.onIncoming, afterRead] at hc'
    · simp only [AtEnd, Link.onIncoming] at hc'
      split at hc' <;> simp [afterRead] at hc'
  | event =>
    dsimp only [AtEnd] at hc'
    split at hc' <;> simp at hc'
  | finish hworker =>
    -- it was on its way out already
    have hexit := hc'.resolve_left (by simp)
    exact .inl (.inl (hworker.trans (congrArg _ (Worker.finished.inj hexit))))

/-- The asynchronous client reads to the end. -/
theorem readsToEnd : ReadsToEnd Step link Ordered AtEnd (new : AsyncClient Obs E) where
  new := rfl
  init := ordered_new
  step _ _ _ := Ordered.step
  running := by simp [AtEnd, new]
  atEnd _ _ _ := Step.atEnd

/-- The asynchronous client follows the results of the bytes that are delivered to it. -/
theorem follows_stream {parse : List UInt8 → Except Serde.Error Value}
    {reader : AsyncBufReader UInt8 E}
    {w : Fed (AsyncClient Obs E) (ReadStreamer (AsyncBufReader UInt8 E) E) E}
    (h : Reachable (Fed.Step (ReadStreamer.pollNext parse) Step)
      (Fed.new new (ReadStreamer.new reader)) w) :
    w.Follows link AtEnd (delivered parse reader.ending reader.content) := by
  have hout : (ReadStreamer.new reader).output parse =
      delivered parse reader.ending reader.content := rfl
  rw [← hout]
  exact Fed.follows_of_reachable readsToEnd ReadStreamer.pulls_pollNext
    (ReadStreamer.midLine_new reader) (ok_none_notMem_delivered parse _ _) h

end AsyncClient

namespace BlockingClient

/-- The read thread has left its loop at the end of the stream. -/
def AtEnd (c : BlockingClient Obs E) : Prop :=
  c.reader = .exiting .endOfStream ∨ c.reader = .finished .endOfStream

/-- A read thread comes to the end of the stream by reading it. -/
theorem Step.atEnd {c c' : BlockingClient Obs E} {a : Act E} (h : Step c a c') (hc' : c'.AtEnd) :
    c.AtEnd ∨ a = .read (.ok none) := by
  cases h with
  | send | close | closeEvents | request | requestsClosed | written | writeFailed
  | finishWriter => exact .inl hc'
  | @incoming r hreader =>
    refine .inr (congrArg _ ?_)
    rcases r with _ | _ | err | msg
    · simp [AtEnd, Link.onIncoming, afterRead] at hc'
    · rfl
    · simp [AtEnd, Link.onIncoming, afterRead] at hc'
    · simp only [AtEnd, Link.onIncoming] at hc'
      split at hc' <;> simp [afterRead] at hc'
  | event =>
    dsimp only [AtEnd] at hc'
    split at hc' <;> simp at hc'
  | finishReader hreader =>
    -- it was on its way out already
    have hexit := hc'.resolve_left (by simp)
    exact .inl (.inl (hreader.trans (congrArg _ (Reader.finished.inj hexit))))

/-- The blocking client reads to the end. -/
theorem readsToEnd : ReadsToEnd Step link Ordered AtEnd (new : BlockingClient Obs E) where
  new := rfl
  init := ordered_new
  step _ _ _ := Ordered.step
  running := by simp [AtEnd, new]
  atEnd _ _ _ := Step.atEnd

/-- The blocking client follows the results of the bytes that are delivered to it. -/
theorem follows_stream {parse : List UInt8 → Except Serde.Error Value}
    {reader : BufReader UInt8 E}
    {w : Fed (BlockingClient Obs E) (ReadStreamer (BufReader UInt8 E) E) E}
    (h : Reachable (Fed.Step (ReadStreamer.pullNext parse) Step)
      (Fed.new new (ReadStreamer.new reader)) w) :
    w.Follows link AtEnd (delivered parse reader.ending reader.content) := by
  have hout : (ReadStreamer.new reader).output parse =
      delivered parse reader.ending reader.content := rfl
  rw [← hout]
  exact Fed.follows_of_reachable readsToEnd ReadStreamer.pulls_pullNext
    (ReadStreamer.midLine_new reader) (ok_none_notMem_delivered parse _ _) h

end BlockingClient

/-- In every run, either client follows the stream of its reader: whatever the chunks and the polls
in which the bytes come, and whatever else happens between two reads. -/
theorem followsStream_of_reachable (parse : List UInt8 → Except Serde.Error Value) :
    (∀ (reader : AsyncBufReader UInt8 E)
        (w : Fed (AsyncClient Obs E) (ReadStreamer (AsyncBufReader UInt8 E) E) E),
      Reachable (Fed.Step (ReadStreamer.pollNext parse) AsyncClient.Step)
        (Fed.new AsyncClient.new (ReadStreamer.new reader)) w →
          w.Follows AsyncClient.link AsyncClient.AtEnd
            (delivered parse reader.ending reader.content)) ∧
    ∀ (reader : BufReader UInt8 E)
        (w : Fed (BlockingClient Obs E) (ReadStreamer (BufReader UInt8 E) E) E),
      Reachable (Fed.Step (ReadStreamer.pullNext parse) BlockingClient.Step)
        (Fed.new BlockingClient.new (ReadStreamer.new reader)) w →
          w.Follows BlockingClient.link BlockingClient.AtEnd
            (delivered parse reader.ending reader.content) :=
  ⟨fun _ _ h => AsyncClient.follows_stream h, fun _ _ h => BlockingClient.follows_stream h⟩

/-- The line of a `pong`, without its delimiter. -/
def pongText : List UInt8 := utf8 "\x7b\"id\":0,\"jsonrpc\":\"2.0\",\"result\":null\x7d"

/-- A parser for the line. -/
def parsePong (bytes : List UInt8) : Except Serde.Error Value :=
  if bytes = pongText then
    .ok (.object [("id", .number (.posInt 0)), ("jsonrpc", .string "2.0"), ("result", .null)])
  else .error (.custom "expected value")

/-- The line comes in two pieces, and then the stream ends. -/
def pongReader : AsyncBufReader UInt8 Unit where
  script := [.ready ⟨123, (pongText.drop 1).take 6⟩, .pending,
    .ready ⟨44, pongText.drop 8 ++ [newline]⟩]
  ending := .eof

/-- The request that is answered, as it is accepted. -/
def answeredPing : PendingRequest (ResponseResult Value) :=
  PendingRequest.new ({ method := "server.ping", params := [] } : Request.Custom) (some id)

/-- The streamer that has read the first piece. -/
def pongHalf : ReadStreamer (AsyncBufReader UInt8 Unit) Unit where
  reader := some { script := [.ready ⟨44, pongText.drop 8 ++ [newline]⟩], ending := .eof }
  buf := pongText.take 7
  queue := []
  err := none

/-- The streamer behind the line. -/
def pongRead : ReadStreamer (AsyncBufReader UInt8 Unit) Unit :=
  ReadStreamer.new { script := [], ending := .eof }

omit [Bitcoin] in
/-- The first poll is pending in the middle of the line. -/
theorem pollNext_pongReader :
    ReadStreamer.pollNext parsePong (ReadStreamer.new pongReader) = (.pending, pongHalf) :=
  runLoop_of_stop _ _ _ rfl

omit [Bitcoin] in
/-- The second one has the rest of the line. -/
theorem pollNext_pongHalf : ReadStreamer.pollNext parsePong pongHalf =
    (.ready (.ok (some (.ok (.response pong)))), pongRead) := by
  have hline : ReadStreamer.pollNextBody parsePong pongHalf =
      .again { pongRead with queue := [.response pong] } := rfl
  exact (runLoop_of_again _ _ _ hline).trans (runLoop_of_stop _ _ _ rfl)

omit [Bitcoin] in
/-- The answer to a request is read with a pending poll in between, and then the stream ends. -/
theorem reachable_pong :
    letI : Bitcoin := bareBitcoin
    ∃ w : Fed (AsyncClient (ResponseResult Value) Unit)
        (ReadStreamer (AsyncBufReader UInt8 Unit) Unit) Unit,
      Reachable (Fed.Step (ReadStreamer.pollNext parsePong) AsyncClient.Step)
        (Fed.new AsyncClient.new (ReadStreamer.new pongReader)) w ∧
        w.client.AtEnd ∧ w.client.link.accepted = [answeredPing] ∧
        w.client.link.session.resolvedTickets = {0} := by
  let _ : Bitcoin := bareBitcoin
  let done : ReadStreamer (AsyncBufReader UInt8 Unit) Unit :=
    { reader := none, buf := [], queue := [], err := none }
  have hend : ReadStreamer.pollNextBody parsePong pongRead = .again done := rfl
  have hdone : ReadStreamer.pollNext parsePong pongRead = (.ready (.ok none), done) :=
    (runLoop_of_again _ _ _ hend).trans (runLoop_of_stop _ _ _ rfl)
  have hsent : Reachable (Fed.Step (ReadStreamer.pollNext parsePong) AsyncClient.Step)
      (Fed.new (AsyncClient.new : AsyncClient (ResponseResult Value) Unit)
        (ReadStreamer.new pongReader)) _ :=
    (Reachable.refl _ _).tail (.internal (.send keepAlive))
  have hwritten := (hsent.tail (.internal (.request rfl rfl))).tail (.internal (.written rfl rfl))
  have hanswered := (hwritten.tail (.pending pollNext_pongReader)).tail
    (.read pollNext_pongHalf (.incoming rfl))
  exact ⟨_, hanswered.tail (.read hdone (.incoming rfl)), .inl rfl, rfl, rfl⟩

omit [Bitcoin] in
/-- A message that comes in two halves is handled. -/
theorem followsStream_of_reachable_pong :
    letI : Bitcoin := bareBitcoin
    ∃ w : Fed (AsyncClient (ResponseResult Value) Unit)
        (ReadStreamer (AsyncBufReader UInt8 Unit) Unit) Unit,
      w.client.link.session.resolvedTickets = {0} ∧ w.client.AtEnd ∧
        messages w.results =
          messages (delivered parsePong pongReader.ending pongReader.content) := by
  let _ : Bitcoin := bareBitcoin
  obtain ⟨w, hreach, hatEnd, -, hresolved⟩ := reachable_pong
  have hfollows := (followsStream_of_reachable parsePong).1 pongReader w hreach
  exact ⟨w, hresolved, hatEnd, hfollows.atEnd hatEnd⟩

end ElectrumStreamingClient
