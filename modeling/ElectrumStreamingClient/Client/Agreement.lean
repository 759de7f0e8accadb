import ElectrumStreamingClient.Client.Events
import ElectrumStreamingClient.Client.Stream

/-!
# Two clients on one stream

What a client does with the messages of its stream depends on the messages and on the requests that
were accepted: not on the pieces in which the bytes come, not on when the requests are written, and
not on whether the client is asynchronous or blocking.
-/

namespace ElectrumStreamingClient

open Serde LineFraming WrappingId TransitionSystem

/-- Related lists, the second of which is given by the first. -/
theorem isPrefix_of_forall₂ {α β : Type} {R : α → β → Prop} {xs xs' : List α} {ys ys' : List β}
    (h : List.Forall₂ R xs ys) (h' : List.Forall₂ R xs' ys') (hpre : xs <+: xs')
    (hdet : ∀ a, ∀ b ∈ ys, ∀ b' ∈ ys', R a b → R a b' → b = b') : ys <+: ys' := by
  induction h generalizing xs' ys' with
  | nil => exact List.nil_prefix
  | @cons a b xs ys hab _ ih =>
    obtain ⟨rest, rfl⟩ := hpre
    cases h' with
    | @cons _ b' _ ys' hab' hrest =>
      have hb : b = b' := hdet a b List.mem_cons_self b' List.mem_cons_self hab hab'
      have hpre := ih hrest (List.prefix_append _ _) fun a b hb b' hb' =>
        hdet a b (List.mem_cons_of_mem _ hb) b' (List.mem_cons_of_mem _ hb')
      rw [hb]
      exact List.prefix_cons_inj b' |>.mpr hpre

variable [Bitcoin] {Obs E : Type}

/-- The message was not a response under an unknown id. -/
def Handled.Known (h : Handled Obs ProcessError) : Prop :=
  ∀ id, h.result ≠ .error (.missingRequest id)

/-- A message that was handled without an error was no response under an unknown id. -/
theorem Handled.Succeeded.known {h : Handled Obs ProcessError} (hsucceeded : h.Succeeded) :
    h.Known := by
  obtain ⟨ev, hresult⟩ := hsucceeded
  intro id hid
  cases hid.symm.trans hresult

/-- The message and the accepted requests tell what handling the message does. -/
theorem HandledAs.unique {accepted : List (PendingRequest Obs)} (hlength : accepted.length ≤ period)
    {msg : RawIncoming} {h h' : Handled Obs ProcessError} (hh : HandledAs accepted msg h)
    (hh' : HandledAs accepted msg h') (hknown : h.Known) (hknown' : h'.Known) : h = h' := by
  cases hh with
  | notification hnew =>
    cases hh' with
    | notification hnew' =>
      cases hnew.symm.trans hnew'
      rfl
    | undecodable hnew' => cases hnew.symm.trans hnew'
  | undecodable hnew =>
    cases hh' with
    | notification hnew' => cases hnew.symm.trans hnew'
    | undecodable hnew' =>
      cases hnew.symm.trans hnew'
      rfl
  | missing => exact absurd rfl (hknown _)
  | resolved hp hid =>
    cases hh' with
    | missing => exact absurd rfl (hknown' _)
    | resolved hp' hid' =>
      -- fewer requests than ids: the id tells the ticket
      have hlt := (List.getElem?_eq_some_iff.mp hp).1
      have hlt' := (List.getElem?_eq_some_iff.mp hp').1
      have hticket := eq_of_idAt_eq (hid.symm.trans hid') (hlt.trans_le hlength)
        (hlt'.trans_le hlength)
      rw [hticket, hp'] at hp
      cases hp
      rfl

namespace Fed

variable {σ S τ T : Type}

omit [Bitcoin] in
/-- What holds of a client in every state holds of it next to its streamer. -/
theorem invariant_client {poll : S → Poll (NextResult E) × S} {ClientStep : σ → Act E → σ → Prop}
    {I : σ → Prop} {c : σ} {s : S} (hinit : I c)
    (hstep : ∀ c a c', I c → ClientStep c a c' → I c') {w : Fed σ S E}
    (h : Reachable (Step poll ClientStep) (new c s) w) : I w.client := by
  refine h.invariant (I := fun w => I w.client) hinit fun w a w' hw hwstep => ?_
  cases hwstep with
  | internal hclient => exact hstep _ _ _ hw hclient
  | pending => exact hw
  | read _ hclient => exact hstep _ _ _ hw hclient

variable {link : σ → Link Obs} {AtEnd : σ → Prop} {link' : τ → Link Obs} {AtEnd' : τ → Prop}
  {out : List (NextResult E)} {w : Fed σ S E} {v : Fed τ T E}

/-- Of two clients that follow one stream, the one that has read less has handled the first of what
the other one has handled. -/
theorem Follows.handled_isPrefix (hw : w.Follows link AtEnd out) (hv : v.Follows link' AtEnd' out)
    {reqs : List (PendingRequest Obs)} (hreqs : (link w.client).accepted <+: reqs)
    (hreqs' : (link' v.client).accepted <+: reqs) (hlength : reqs.length ≤ period)
    (hknown : ∀ h ∈ (link w.client).handled, h.Known)
    (hknown' : ∀ h ∈ (link' v.client).handled, h.Known)
    (hpre : messages w.results <+: messages v.results) :
    (link w.client).handled <+: (link' v.client).handled := by
  have hhandled := hw.handled.imp fun _ _ hmsg => hmsg.mono hreqs
  have hhandled' := hv.handled.imp fun _ _ hmsg => hmsg.mono hreqs'
  exact isPrefix_of_forall₂ hhandled hhandled' hpre fun _ b hb b' hb' hmsg hmsg' =>
    hmsg.unique hlength hmsg' (hknown b hb) (hknown' b' hb')

/-- One of them has read less. -/
theorem Follows.messages_isPrefix (hw : w.Follows link AtEnd out)
    (hv : v.Follows link' AtEnd' out) :
    messages w.results <+: messages v.results ∨ messages v.results <+: messages w.results := by
  rw [hw.results, hv.results, messages_padded, messages_padded]
  rcases le_total w.results.length v.results.length with hle | hle
  · exact .inl ((List.take_prefix_take_left hle).filterMap message?)
  · exact .inr ((List.take_prefix_take_left hle).filterMap message?)

end Fed

/-- One of two lists goes on where the other one stops. -/
def Comparable {α : Type} (xs ys : List α) : Prop :=
  xs <+: ys ∨ ys <+: xs

omit [Bitcoin] in
/-- Beginnings of comparable lists are comparable. -/
theorem Comparable.of_isPrefix {α : Type} {xs ys xs' ys' : List α} (h : Comparable xs ys)
    (hxs : xs' <+: xs) (hys : ys' <+: ys) : Comparable xs' ys' := by
  rcases h with hle | hle
  · exact List.prefix_or_prefix_of_prefix (hxs.trans hle) hys
  · exact List.prefix_or_prefix_of_prefix hxs (hys.trans hle)

/-- The events that were sent are the first ones due. -/
theorem Link.Delivers.events_isPrefix {l : Link Obs} {p : Position E} (h : l.Delivers p) :
    l.events <+: l.due := by
  cases h with
  | between _ hevents | failed _ _ _ hevents | stopped _ _ _ hevents =>
    rw [hevents]
  | emitting _ hdue | refused _ hdue _ =>
    rw [hdue]
    exact List.prefix_append _ _

/-- At the end of the stream all events that were due have been sent, and every message was
handled. -/
theorem Link.Delivers.of_endOfStream {l : Link Obs}
    (h : l.Delivers (.stopped .endOfStream : Position E)) :
    l.events = l.due ∧ ∀ h ∈ l.handled, h.Succeeded := by
  cases h with
  | stopped _ _ hsucceeded hevents => exact ⟨hevents, hsucceeded⟩

/-- Two clients have handled the messages of one stream alike. -/
structure Link.Agrees (l l' : Link Obs) : Prop where
  handled : Comparable l.handled l'.handled
  events : Comparable l.events l'.events

/-- Clients agree if what they handled does, since their events follow from it. -/
theorem Link.Agrees.of_handled {l l' : Link Obs} {p p' : Position E} (h : l.Delivers p)
    (h' : l'.Delivers p') (hhandled : Comparable l.handled l'.handled) : l.Agrees l' := by
  have hdue : Comparable l.due l'.due := by
    rcases hhandled with hle | hle
    · exact .inl (hle.filterMap Handled.event?)
    · exact .inr (hle.filterMap Handled.event?)
  exact ⟨hhandled, hdue.of_isPrefix h.events_isPrefix h'.events_isPrefix⟩

namespace Fed.Follows

variable {σ S τ T : Type} {link : σ → Link Obs} {AtEnd : σ → Prop} {link' : τ → Link Obs}
  {AtEnd' : τ → Prop} {out : List (NextResult E)} {w : Fed σ S E} {v : Fed τ T E}

/-- Two clients that follow the same results, with requests from one list, agree. -/
theorem agrees (hw : w.Follows link AtEnd out) (hv : v.Follows link' AtEnd' out)
    {p p' : Position E} (hdelivers : (link w.client).Delivers p)
    (hdelivers' : (link' v.client).Delivers p') {reqs : List (PendingRequest Obs)}
    (hreqs : (link w.client).accepted <+: reqs) (hreqs' : (link' v.client).accepted <+: reqs)
    (hlength : reqs.length ≤ period) (hknown : ∀ h ∈ (link w.client).handled, h.Known)
    (hknown' : ∀ h ∈ (link' v.client).handled, h.Known) :
    (link w.client).Agrees (link' v.client) := by
  refine .of_handled hdelivers hdelivers' ?_
  rcases hw.messages_isPrefix hv with hpre | hpre
  · exact .inl (hw.handled_isPrefix hv hreqs hreqs' hlength hknown hknown' hpre)
  · exact .inr (hv.handled_isPrefix hw hreqs' hreqs hlength hknown' hknown hpre)

/-- At the end of the stream both have handled all of it. -/
theorem eq_of_atEnd (hw : w.Follows link AtEnd out) (hv : v.Follows link' AtEnd' out)
    (hdelivers : (link w.client).Delivers (.stopped .endOfStream : Position E))
    (hdelivers' : (link' v.client).Delivers (.stopped .endOfStream : Position E))
    (hatEnd : AtEnd w.client) (hatEnd' : AtEnd' v.client) {reqs : List (PendingRequest Obs)}
    (hreqs : (link w.client).accepted <+: reqs) (hreqs' : (link' v.client).accepted <+: reqs)
    (hlength : reqs.length ≤ period) :
    (link w.client).handled = (link' v.client).handled ∧
      (link w.client).events = (link' v.client).events := by
  obtain ⟨hevents, hsucceeded⟩ := hdelivers.of_endOfStream
  obtain ⟨hevents', hsucceeded'⟩ := hdelivers'.of_endOfStream
  -- both have read all messages, so neither has handled fewer
  have hmessages : messages w.results = messages v.results :=
    (hw.atEnd hatEnd).trans (hv.atEnd hatEnd').symm
  have hpre : (link w.client).handled <+: (link' v.client).handled :=
    hw.handled_isPrefix hv hreqs hreqs' hlength (fun h hh => (hsucceeded h hh).known)
      (fun h hh => (hsucceeded' h hh).known) (hmessages ▸ List.prefix_refl _)
  have hlengths : (link w.client).handled.length = (link' v.client).handled.length := by
    rw [← hw.handled.length_eq, ← hv.handled.length_eq, hmessages]
  have hhandled := hpre.eq_of_length hlengths
  refine ⟨hhandled, ?_⟩
  rw [hevents, hevents', Link.due, Link.due, hhandled]

end Fed.Follows

/-- A worker at the end of the stream has no event left to send. -/
theorem AsyncClient.AtEnd.position {c : AsyncClient Obs E} (h : c.AtEnd) :
    c.worker.position = .stopped .endOfStream := by
  rcases h with h | h <;>
  · rw [h]
    rfl

/-- A read thread at the end of the stream has no event left to send. -/
theorem BlockingClient.AtEnd.position {c : BlockingClient Obs E} (h : c.AtEnd) :
    c.reader.position = .stopped .endOfStream := by
  rcases h with h | h <;>
  · rw [h]
    rfl

/-- An asynchronous and a blocking client over the same bytes, which accepted requests from one list
of at most as many as there are ids, agree as long as no response comes under an unknown id: the
callbacks that were run, the values they were given, and the events. At the end of the stream they
have done the same. -/
theorem agree_of_reachable (parse : List UInt8 → Except Serde.Error Value)
    {reader : AsyncBufReader UInt8 E} {reader' : BufReader UInt8 E}
    (hcontent : reader'.content = reader.content) (hending : reader'.ending = reader.ending)
    {w : Fed (AsyncClient Obs E) (ReadStreamer (AsyncBufReader UInt8 E) E) E}
    (hw : Reachable (Fed.Step (ReadStreamer.pollNext parse) AsyncClient.Step)
      (Fed.new AsyncClient.new (ReadStreamer.new reader)) w)
    {v : Fed (BlockingClient Obs E) (ReadStreamer (BufReader UInt8 E) E) E}
    (hv : Reachable (Fed.Step (ReadStreamer.pullNext parse) BlockingClient.Step)
      (Fed.new BlockingClient.new (ReadStreamer.new reader')) v)
    {reqs : List (PendingRequest Obs)} (hreqs : w.client.link.accepted <+: reqs)
    (hreqs' : v.client.link.accepted <+: reqs) (hlength : reqs.length ≤ period) :
    ((∀ h ∈ w.client.link.handled, h.Known) → (∀ h ∈ v.client.link.handled, h.Known) →
      w.client.link.Agrees v.client.link) ∧
    (w.client.AtEnd → v.client.AtEnd → w.client.link.handled = v.client.link.handled ∧
      w.client.link.events = v.client.link.events) := by
  -- both follow the results of the same bytes
  have hfollows := AsyncClient.follows_stream hw
  have hfollows' := BlockingClient.follows_stream hv
  rw [hcontent, hending] at hfollows'
  have hdelivers : w.client.link.Delivers w.client.worker.position :=
    Fed.invariant_client (I := fun c => c.link.Delivers c.worker.position) Link.Delivers.new
      (fun _ _ _ => AsyncClient.Step.delivers) hw
  have hdelivers' : v.client.link.Delivers v.client.reader.position :=
    Fed.invariant_client (I := fun c => c.link.Delivers c.reader.position) Link.Delivers.new
      (fun _ _ _ => BlockingClient.Step.delivers) hv
  constructor
  · intro hknown hknown'
    exact hfollows.agrees hfollows' hdelivers hdelivers' hreqs hreqs' hlength hknown hknown'
  · intro hatEnd hatEnd'
    -- at the end of the stream no event is left to send
    rw [hatEnd.position] at hdelivers
    rw [hatEnd'.position] at hdelivers'
    exact hfollows.eq_of_atEnd hfollows' hdelivers hdelivers' hatEnd hatEnd' hreqs hreqs' hlength

/-- The answer in one piece, for a blocking client. -/
def blockingPongReader : BufReader UInt8 Unit where
  chunks := [⟨123, pongText.drop 1 ++ [newline]⟩]
  ending := .eof

omit [Bitcoin] in
/-- An answered request, whose answer came in two pieces and in one. -/
theorem agree_of_reachable_pong :
    letI : Bitcoin := bareBitcoin
    ∃ (w : Fed (AsyncClient (ResponseResult Value) Unit)
        (ReadStreamer (AsyncBufReader UInt8 Unit) Unit) Unit)
      (v : Fed (BlockingClient (ResponseResult Value) Unit)
        (ReadStreamer (BufReader UInt8 Unit) Unit) Unit),
      w.client.link.session.resolvedTickets = {0} ∧
        w.client.link.handled = v.client.link.handled := by
  let _ : Bitcoin := bareBitcoin
  obtain ⟨w, hw, hatEnd, haccepted, hresolved⟩ := reachable_pong
  let between : ReadStreamer (BufReader UInt8 Unit) Unit :=
    ReadStreamer.new { chunks := [], ending := .eof }
  let done : ReadStreamer (BufReader UInt8 Unit) Unit :=
    { reader := none, buf := [], queue := [], err := none }
  have hline : ReadStreamer.nextBody parsePong (ReadStreamer.new blockingPongReader) =
      .again { between with queue := [.response pong] } := rfl
  have hfirst : ReadStreamer.next parsePong (ReadStreamer.new blockingPongReader) =
      (.ok (some (.ok (.response pong))), between) :=
    (runLoop_of_again _ _ _ hline).trans (runLoop_of_stop _ _ _ rfl)
  have hbetween : ReadStreamer.pullNext parsePong (ReadStreamer.new blockingPongReader) =
      (.ready (.ok (some (.ok (.response pong)))), between) := by
    rw [ReadStreamer.pullNext, hfirst]
  have hend : ReadStreamer.nextBody parsePong between = .again done := rfl
  have hlast : ReadStreamer.next parsePong between = (.ok none, done) :=
    (runLoop_of_again _ _ _ hend).trans (runLoop_of_stop _ _ _ rfl)
  have hdone : ReadStreamer.pullNext parsePong between = (.ready (.ok none), done) := by
    rw [ReadStreamer.pullNext, hlast]
  have hsent : Reachable (Fed.Step (ReadStreamer.pullNext parsePong) BlockingClient.Step)
      (Fed.new (BlockingClient.new : BlockingClient (ResponseResult Value) Unit)
        (ReadStreamer.new blockingPongReader)) _ :=
    (Reachable.refl _ _).tail (.internal (.send keepAlive))
  have hrequested := hsent.tail (.internal (.request rfl rfl))
  have hended := (hrequested.tail (.read hbetween (.incoming rfl))).tail
    (.read hdone (.incoming rfl))
  have hreqs : w.client.link.accepted <+: [answeredPing] := haccepted ▸ List.prefix_refl _
  obtain ⟨-, hsame⟩ := agree_of_reachable parsePong rfl rfl hw hended hreqs (List.prefix_refl _)
    (by decide)
  exact ⟨w, _, hresolved, (hsame hatEnd (.inl rfl)).1⟩

end ElectrumStreamingClient
