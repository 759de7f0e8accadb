import ElectrumStreamingClient.Client.Wire
import ElectrumStreamingClient.Client.Stream
import ElectrumStreamingClient.Io.Consumption
import ElectrumStreamingClient.Protocol.Classification

/-!
# A client and its server, by bytes

A client, the transports of both directions and the server, with nothing between them but bytes. The
server reads the lines of what the transport has taken from the client. It sends lines of JSON text,
whose members may come in any order and among others, and the client reads them in pieces of any
size. Each step of this system is a run of the client and its server with messages between them, so
that requests and answers correlate in the same way.
-/

namespace ElectrumStreamingClient

open Serde LineFraming JsonText WrappingId TransitionSystem

variable [Bitcoin] {Obs E : Type}

/-! ## The lines of the server -/

namespace Reply

/-- The JSON value is the message. It may have further members, but a notification has no `id` and
an answer no `method`. -/
def IsWrittenAs : Reply → Value → Prop
  | .notification raw, .object ms =>
    HasVersion20 ms ∧ onlyMember "method" ms = some (.string raw.method) ∧
      (∃ p, onlyMember "params" ms = some p ∧ p.owned = raw.params) ∧ ¬HasMember "id" ms
  | .answer _ resp, .object ms =>
    HasVersion20 ms ∧ (∃ v, onlyMember "id" ms = some v ∧ v.asU32 = .ok resp.id) ∧
      sides ms = [resp.result] ∧ ¬HasMember "method" ms
  | _, _ => False

omit [Bitcoin] in
/-- A reply is written as an object. -/
theorem IsWrittenAs.exists_object {reply : Reply} {v : Value} (h : reply.IsWrittenAs v) :
    ∃ ms, v = .object ms := by
  cases v with
  | object ms => exact ⟨ms, rfl⟩
  | _ => cases reply <;> exact h.elim

omit [Bitcoin] in
/-- What a reply is written as is decoded to its message. -/
theorem IsWrittenAs.deserialize {reply : Reply} {v : Value} (h : reply.IsWrittenAs v) :
    RawIncoming.deserialize v = .ok reply.message := by
  obtain ⟨ms, rfl⟩ := h.exists_object
  cases reply with
  | notification raw =>
    obtain ⟨hversion, hmethod, hparams, -⟩ := h
    exact RawIncoming.deserialize_eq_notification_iff.mpr
      (RawNotification.visitMap_eq_ok_iff.mpr ⟨hversion, hmethod, hparams⟩)
  | answer index resp =>
    obtain ⟨hversion, hid, hsides, hmethod⟩ := h
    refine RawIncoming.deserialize_eq_response_iff.mpr ⟨?_, ?_⟩
    · -- without a method it is no notification
      rw [RawNotification.exists_deserialize_iff]
      rintro (⟨ms', hms', hshape⟩ | ⟨m, p, hpos⟩)
      · cases hms'
        obtain ⟨m, hm⟩ := hshape.method
        exact hmethod (hasMember_of_onlyMember hm)
      · cases hpos
    · exact RawResponse.visitMap_eq_ok_iff.mpr ⟨hversion, hid, by rw [hsides]; rfl⟩

end Reply

/-- The JSON value is the line: a message, or an array of messages. -/
def LineIsWrittenAs : RawOneOrMany Reply → Value → Prop
  | .single reply, v => reply.IsWrittenAs v
  | .batch replies, .array vs => List.Forall₂ Reply.IsWrittenAs replies vs
  | .batch _, _ => False

omit [Bitcoin] in
/-- What a line of replies is written as is decoded to their messages. -/
theorem LineIsWrittenAs.deserialize {line : RawOneOrMany Reply} {v : Value}
    (h : LineIsWrittenAs line v) : deserializeLine v = .ok (line.map Reply.message) := by
  cases line with
  | single reply => exact deserializeLine_eq_single_iff.mpr (Reply.IsWrittenAs.deserialize h)
  | batch replies =>
    cases v with
    | array vs =>
      refine deserializeLine_eq_batch_iff.mpr ⟨not_accepted_array ?_, vs, rfl, ?_⟩
      · -- a notification that is an array begins with a string
        rintro ⟨m, p, hpos⟩
        cases hpos
        cases h with
        | cons hreply _ =>
          obtain ⟨ms, hms⟩ := hreply.exists_object
          cases hms
      · rw [List.forall₂_map_right_iff]
        exact h.flip.imp fun _ _ hreply => Reply.IsWrittenAs.deserialize hreply
    | _ => exact h.elim

/-- The text is that of the line, for the given parser. -/
structure IsTextOf (parse : List UInt8 → Except Serde.Error Value) (text : List UInt8)
    (line : RawOneOrMany Reply) : Prop where
  newline : newline ∉ text
  parses : ∃ v, parse text = .ok v ∧ LineIsWrittenAs line v

/-- The client reads the messages of the line from the text. -/
structure ReadAs (parse : List UInt8 → Except Serde.Error Value) (text : List UInt8)
    (line : RawOneOrMany Reply) : Prop where
  newline : newline ∉ text
  decodes : fromSlice parse text = .ok (line.map Reply.message)

omit [Bitcoin] in
/-- A text of a line of replies is read as their messages. -/
theorem IsTextOf.readAs {parse : List UInt8 → Except Serde.Error Value} {text : List UInt8}
    {line : RawOneOrMany Reply} (h : IsTextOf parse text line) : ReadAs parse text line := by
  obtain ⟨v, hv, hline⟩ := h.parses
  refine ⟨h.newline, ?_⟩
  rw [fromSlice, hv]
  exact hline.deserialize

/-! ## The connection -/

/-- A client, the transports of both directions, and its server. -/
structure Connection (σ R E : Type) where
  /-- The client with its read streamer, and what its transport has taken. -/
  wired : Wired (Fed σ (ReadStreamer R E) E)
  /-- The lines that the server has received. -/
  received : List (RawOneOrMany RawRequest)
  /-- The answers that the server has sent. -/
  answered : List (ℕ × RawResponse)
  /-- The bytes that the server has sent and the read streamer has not taken. -/
  inbound : List UInt8

namespace Connection

variable {σ R : Type}

/-- Nothing has been sent. The reader is given with all it will hand over. -/
def new (client : σ) (reader : R) : Connection σ R E :=
  { wired := Wired.new (Fed.new client (ReadStreamer.new reader)), received := [], answered := []
    inbound := [] }

def client (v : Connection σ R E) : σ := v.wired.client.client

def streamer (v : Connection σ R E) : ReadStreamer R E := v.wired.client.streamer

variable [ByteSource R E]

/-- What is taken from the reader are the first of the bytes on their way. -/
def Arrives (s s' : ReadStreamer R E) (inbound inbound' : List UInt8) : Prop :=
  ∃ taken, inbound = taken ++ inbound' ∧ ∀ reader reader', s.reader = some reader →
    s'.reader = some reader' → ByteSource.content reader = taken ++ ByteSource.content reader'

omit [Bitcoin] in
theorem Arrives.refl (s : ReadStreamer R E) (inbound : List UInt8) :
    Arrives s s inbound inbound := by
  refine ⟨[], rfl, fun reader reader' hreader hreader' => ?_⟩
  cases hreader.symm.trans hreader'
  rfl

variable [JsonFormat]

/-- The steps of the client, its transports and the server. -/
inductive Step (parse : List UInt8 → Except Serde.Error Value)
    (poll : ReadStreamer R E → Poll (NextResult E) × ReadStreamer R E)
    (ClientStep : σ → Act E → σ → Prop) (link : σ → Link Obs) :
    Connection σ R E → Act E → Connection σ R E → Prop
  | client {v : Connection σ R E} {a : Act E} {wired : Wired (Fed σ (ReadStreamer R E) E)}
      {inbound : List UInt8}
      (hstep : Wired.Step (Fed.Step poll ClientStep) (fun w => link w.client) v.wired a wired)
      (harrives : Arrives v.wired.client.streamer wired.client.streamer v.inbound inbound) :
      Step parse poll ClientStep link v a { v with wired, inbound }
  /-- The server reads the next complete line. -/
  | receive {v : Connection σ R E} {line : RawOneOrMany RawRequest}
      (hline : (readLines v.wired.taken)[v.received.length]? = some (some line.serialize)) :
      Step parse poll ClientStep link v .internal { v with received := v.received ++ [line] }
  /-- The server sends a line, as it does with messages. -/
  | reply {v : Connection σ R E} (line : RawOneOrMany Reply) (text : List UInt8)
      (htext : IsTextOf parse text line)
      (hfair : ∀ reply ∈ line.intoVec,
        reply.Fair (v.received.flatMap RawOneOrMany.intoVec) (link v.client).accepted)
      (honce : ((v.answered ++ line.intoVec.filterMap Reply.answer?).map Prod.fst).Nodup) :
      Step parse poll ClientStep link v .internal
        { v with
          answered := v.answered ++ line.intoVec.filterMap Reply.answer?
          inbound := v.inbound ++ (text ++ [newline]) }

/-! ## Bytes on their way -/

/-- The messages of the queue and the bytes of the lines are what the streamer has still to take,
as long as it has its reader. -/
structure InFlight (parse : List UInt8 → Except Serde.Error Value) (s : ReadStreamer R E)
    (inbound : List UInt8) (queue : List Reply) (lines : List (RawOneOrMany Reply)) : Prop where
  queue : s.queue = queue.map Reply.message
  midLine : s.MidLine
  bytes : s.reader ≠ none → ∃ texts, List.Forall₂ (ReadAs parse) texts lines ∧
    s.buf ++ inbound = texts.flatMap (· ++ [newline])

namespace InFlight

variable {parse : List UInt8 → Except Serde.Error Value}

omit [Bitcoin] [JsonFormat] in
/-- Nothing is taken from a reader that has the same left. -/
theorem same {s s' : ReadStreamer R E} {inbound inbound' : List UInt8} {queue queue' : List Reply}
    {lines : List (RawOneOrMany Reply)} (h : InFlight parse s inbound queue lines)
    (harrives : Arrives s s' inbound inbound') (hmid : s'.MidLine)
    (hqueue : s'.queue = queue'.map Reply.message)
    (hsame : ∀ reader, s'.reader = some reader → s.reader = some reader ∧ s'.buf = s.buf) :
    InFlight parse s' inbound' queue' lines := by
  refine ⟨hqueue, hmid, fun hreader => ?_⟩
  obtain ⟨reader, hreader⟩ := Option.ne_none_iff_exists'.mp hreader
  obtain ⟨hreader₀, hbuf⟩ := hsame reader hreader
  obtain ⟨taken, rfl, htaken⟩ := harrives
  have hnil : taken = [] := List.append_left_eq_self.mp (htaken reader reader hreader₀ hreader).symm
  subst hnil
  rw [hbuf]
  exact h.bytes (by simp [hreader₀])

/-- What a call gives is the first message in flight, and the rest is left. -/
inductive Gives (parse : List UInt8 → Except Serde.Error Value) (s' : ReadStreamer R E)
    (inbound' : List UInt8) :
    Poll (NextResult E) → List Reply → List (RawOneOrMany Reply) → Prop
  | message {reply : Reply} {rest : List Reply} {lines : List (RawOneOrMany Reply)}
      (h : InFlight parse s' inbound' rest lines) :
      Gives parse s' inbound' (.ready (.ok (some (.ok reply.message)))) (reply :: rest) lines
  | other {p : Poll (NextResult E)} {queue : List Reply} {lines : List (RawOneOrMany Reply)}
      (hp : ∀ msg, p ≠ .ready (.ok (some (.ok msg)))) (h : InFlight parse s' inbound' queue lines) :
      Gives parse s' inbound' p queue lines

omit [Bitcoin] [JsonFormat] [ByteSource R E] in
/-- The line that a streamer takes is the first of those in flight. -/
theorem first {reader : R} {buf inbound inbound₁ line : List UInt8}
    {msgs : RawOneOrMany RawIncoming} {queue : List Reply} {lines : List (RawOneOrMany Reply)}
    (h : InFlight parse ({ reader := some reader, buf, queue := [], err := none } :
      ReadStreamer R E) inbound queue lines)
    (hline : newline ∉ line) (hdecode : fromSlice parse line = .ok msgs)
    (hbytes : buf ++ inbound = line ++ newline :: inbound₁) :
    ∃ first rest, queue = [] ∧ lines = first :: rest ∧ msgs = first.map Reply.message ∧
      ∃ texts, List.Forall₂ (ReadAs parse) texts rest ∧
        inbound₁ = texts.flatMap (· ++ [newline]) := by
  obtain ⟨texts, htexts, hflat⟩ := h.bytes (by simp)
  rw [hbytes] at hflat
  cases htexts with
  | nil => simp at hflat
  | @cons text first texts rest hfirst hrest =>
    have hshape : (text :: texts).flatMap (· ++ [newline]) =
        text ++ newline :: texts.flatMap (· ++ [newline]) := by simp
    rw [hshape] at hflat
    -- both lines end at the first delimiter
    have hlines := congrArg (completeLines newline) hflat
    rw [completeLines_append_cons _ hline, completeLines_append_cons _ hfirst.newline] at hlines
    obtain rfl : line = text := (List.cons.inj hlines).1
    have hmsgs := hdecode.symm.trans hfirst.decodes
    refine ⟨first, rest, List.map_eq_nil_iff.mp h.queue.symm, rfl, Except.ok.inj hmsgs, texts,
      hrest, ?_⟩
    exact (List.cons.inj (List.append_cancel_left hflat)).2

end InFlight

variable {parse : List UInt8 → Except Serde.Error Value}
  {poll : ReadStreamer R E → Poll (NextResult E) × ReadStreamer R E}
  {ClientStep : σ → Act E → σ → Prop} {link : σ → Link Obs}

omit [JsonFormat] in
/-- What a call of the streamer takes, the streamer of messages takes line by line. -/
theorem InFlight.takes (ClientStep : σ → Act E → σ → Prop) (link : σ → Link Obs)
    {s s' : ReadStreamer R E} {p : Poll (NextResult E)}
    (htakes : ReadStreamer.Takes parse s p s') {w : World σ} {inbound inbound' : List UInt8}
    (h : InFlight parse s inbound w.queue w.lines) (harrives : Arrives s s' inbound inbound') :
    ∃ queue lines, Reachable (World.Step ClientStep link) w { w with queue, lines } ∧
      Gives parse s' inbound' p queue lines := by
  have hmid := htakes.midLine h.midLine
  induction htakes generalizing w inbound with
  | @give s msg queue hqueue =>
    -- a message that was queued before
    have hmap := h.queue
    rw [hqueue] at hmap
    obtain ⟨reply, rest, hw, rfl, rfl⟩ := List.map_eq_cons_iff.mp hmap.symm
    refine ⟨reply :: rest, w.lines, ?_, .message ?_⟩
    · rw [← hw]
    · exact h.same harrives hmid rfl fun _ hreader => ⟨hreader, rfl⟩
  | @line reader reader₁ buf line msgs p s' hline hdecode hbytes hrest ih =>
    rcases hreader' : s'.reader with _ | reader'
    · -- the reader has been dropped, and what it would have delivered is lost
      obtain ⟨hqueue, hqueue', r, rfl, hr⟩ := hrest.dropped (by simp) hreader'
      have hw : w.queue = [] := List.map_eq_nil_iff.mp h.queue.symm
      refine ⟨w.queue, w.lines, Reachable.refl _ _, .other (by simpa using hr) ?_⟩
      exact ⟨by rw [hw]; exact hqueue', hmid, fun hne => absurd hreader' hne⟩
    -- otherwise the line has arrived, and the messages of the first line in flight are taken
    · obtain ⟨taken, rfl, htaken⟩ := harrives
      obtain ⟨left, hleft⟩ := hrest.content rfl hreader'
      rw [List.nil_append] at hleft
      rw [htaken reader reader' rfl hreader', hleft] at hbytes
      have hsplit : buf ++ taken = line ++ newline :: (left ++ s'.buf) :=
        List.append_cancel_right (by simpa using hbytes)
      have hinbound : buf ++ (taken ++ inbound') =
          line ++ newline :: (left ++ s'.buf ++ inbound') := by
        rw [← List.append_assoc, hsplit]
        simp
      obtain ⟨first, rest, hw, hlines, rfl, texts, htexts, hflat⟩ := h.first hline hdecode hinbound
      have hnext : InFlight parse
          ({ reader := some reader₁, buf := [], queue := (first.map Reply.message).intoVec,
             err := none } : ReadStreamer R E) (left ++ s'.buf ++ inbound') first.intoVec rest :=
        ⟨RawOneOrMany.intoVec_map _ _, fun _ _ => List.not_mem_nil, fun _ => ⟨texts, htexts, hflat⟩⟩
      obtain ⟨queue, lines, hreach, hgives⟩ :=
        ih (w := { w with queue := first.intoVec, lines := rest }) hnext
          ⟨left ++ s'.buf, rfl, fun _ _ hreader₁ hreader => by
            cases hreader₁
            cases hreader'.symm.trans hreader
            rw [hleft, List.append_assoc]⟩ hmid
      have htake : World.Step ClientStep link w .internal
          { w with queue := first.intoVec, lines := rest } := .take hw hlines
      exact ⟨queue, lines, ((Reachable.refl _ _).tail htake).trans hreach, hgives⟩
  | @suspend reader reader' buf taken' htaken' hbytes =>
    -- what has arrived so far is the beginning of a line, and stays in flight
    obtain ⟨taken, rfl, htaken⟩ := harrives
    have hsame : taken' = taken :=
      List.append_cancel_right (hbytes.symm.trans (htaken reader reader' rfl rfl))
    subst hsame
    refine ⟨w.queue, w.lines, Reachable.refl _ _, .other (by simp) ⟨h.queue, hmid, fun _ => ?_⟩⟩
    obtain ⟨texts, htexts, hflat⟩ := h.bytes (by simp)
    exact ⟨texts, htexts, by rw [List.append_assoc]; exact hflat⟩
  | @stop s s' r hqueue hqueue' hr hreader =>
    refine ⟨w.queue, w.lines, Reachable.refl _ _, .other (by simpa using hr) ?_⟩
    refine h.same harrives hmid ?_ hreader
    rw [hqueue', ← h.queue, hqueue]

/-! ## The same with messages -/

/-- The system with messages that is in the same state. -/
structure Mirrors (parse : List UInt8 → Except Serde.Error Value) (v : Connection σ R E)
    (w : World σ) : Prop where
  client : w.client = v.client
  received : w.received = v.received
  answered : w.answered = v.answered
  inFlight : InFlight parse v.streamer v.inbound w.queue w.lines

/-- A step of the client with its transports is a run of the client with messages. -/
theorem Mirrors.client_step (hpoll : ∀ s : ReadStreamer R E, s.MidLine →
      ReadStreamer.Takes parse s (poll s).1 (poll s).2)
    {v : Connection σ R E} {w : World σ} (h : v.Mirrors parse w) {a : Act E}
    {wired : Wired (Fed σ (ReadStreamer R E) E)} {inbound : List UInt8}
    (hstep : Wired.Step (Fed.Step poll ClientStep) (fun w => link w.client) v.wired a wired)
    (harrives : Arrives v.wired.client.streamer wired.client.streamer v.inbound inbound) :
    ∃ w', Reachable (World.Step ClientStep link) w w' ∧
      ({ v with wired, inbound } : Connection σ R E).Mirrors parse w' := by
  obtain ⟨hclient, hreceived, hanswered, hflight⟩ := h
  obtain ⟨fed, taken, rest⟩ := wired
  -- what the transport to the server does is not seen
  rcases hstep.client with hsame | hfed
  · obtain rfl : fed = v.wired.client := hsame
    refine ⟨w, Reachable.refl _ _, hclient, hreceived, hanswered, ?_⟩
    exact hflight.same harrives hflight.midLine hflight.queue fun _ hreader => ⟨hreader, rfl⟩
  cases hfed with
  | @internal c hmoves =>
    have hstep' : ClientStep w.client .internal c := hclient ▸ hmoves
    refine ⟨_, (Reachable.refl _ _).tail (.client hstep'), rfl, hreceived, hanswered, ?_⟩
    exact hflight.same harrives hflight.midLine hflight.queue fun _ hreader => ⟨hreader, rfl⟩
  | @pending s hpending =>
    have htakes := hpoll _ hflight.midLine
    rw [streamer, hpending] at htakes
    obtain ⟨queue, lines, hreach, hgives⟩ := hflight.takes ClientStep link htakes harrives
    cases hgives with
    | other _ hflight' => exact ⟨_, hreach, hclient, hreceived, hanswered, hflight'⟩
  | @read r s c hready hmoves =>
    have htakes := hpoll _ hflight.midLine
    rw [streamer, hready] at htakes
    obtain ⟨queue, lines, hreach, hgives⟩ := hflight.takes ClientStep link htakes harrives
    have hstep' : ClientStep w.client (.read r) c := hclient ▸ hmoves
    cases hgives with
    | message hflight' =>
      exact ⟨_, hreach.tail (.read rfl hstep'), rfl, hreceived, hanswered, hflight'⟩
    | other hr hflight' =>
      exact ⟨_, hreach.tail (.interrupt (by simpa using hr) hstep'), rfl, hreceived, hanswered,
        hflight'⟩

/-- A step of the server is one of the server with messages. -/
theorem Mirrors.step [LawfulJsonFormat] (hpoll : ∀ s : ReadStreamer R E, s.MidLine →
      ReadStreamer.Takes parse s (poll s).1 (poll s).2)
    {v v' : Connection σ R E} {w : World σ} (h : v.Mirrors parse w) {a : Act E}
    (hstep : Step parse poll ClientStep link v a v')
    (hflows : (v.wired.map fun f => link f.client).Flows)
    (hcan : ∀ p ∈ (link v.client).accepted, p.CanWrite) :
    ∃ w', Reachable (World.Step ClientStep link) w w' ∧ v'.Mirrors parse w' := by
  cases hstep with
  | client hstep harrives => exact h.client_step hpoll hstep harrives
  | @receive line hline =>
    -- the next line that the server can read is the next one of the client
    obtain ⟨hclient, hreceived, hanswered, hflight⟩ := h
    obtain ⟨lines, hreads⟩ := hflows.reads hcan
    have hread : readLines v.wired.taken = lines.map fun msg => some msg.serialize := hreads.read
    rw [hread, List.getElem?_map, Option.map_eq_some_iff] at hline
    obtain ⟨line', hline', hsame⟩ := hline
    obtain rfl := RawOneOrMany.serialize_injective (Option.some.inj hsame)
    have houtgoing : (link w.client).outgoing[w.received.length]? = some line' := by
      rw [hclient, hreceived]
      exact getElem?_of_isPrefix hreads.begun hline'
    refine ⟨_, (Reachable.refl _ _).tail (.receive houtgoing), hclient, ?_, hanswered, hflight⟩
    dsimp only
    rw [hreceived]
  | reply line text htext hfair honce =>
    obtain ⟨hclient, hreceived, hanswered, hflight⟩ := h
    -- the text of the line goes behind what is in flight
    rw [← hreceived, ← hclient] at hfair
    rw [← hanswered] at honce
    refine ⟨_, (Reachable.refl _ _).tail (.reply line hfair honce), hclient, hreceived, ?_,
      hflight.queue, hflight.midLine, fun hreader => ?_⟩
    · dsimp only
      rw [hanswered]
    · obtain ⟨texts, htexts, hflat⟩ := hflight.bytes hreader
      refine ⟨texts ++ [text], ?_, ?_⟩
      · exact List.rel_append htexts (.cons htext.readAs .nil)
      · dsimp only
        rw [← List.append_assoc, List.flatMap_append, ← hflat]
        simp [streamer]

omit [ByteSource R E] [JsonFormat] in
/-- A step of a client with its streamer is one of its data. -/
theorem link_step {I : σ → Prop}
    (hsim : ∀ c a c', I c → ClientStep c a c' → I c' ∧ Link.Step (link c) a (link c'))
    {f f' : Fed σ (ReadStreamer R E) E} {a : Act E} (hI : I f.client)
    (h : Fed.Step poll ClientStep f a f') :
    I f'.client ∧ Link.Step (link f.client) a (link f'.client) := by
  cases h with
  | internal hstep => exact hsim _ _ _ hI hstep
  | pending => exact ⟨hI, .stay (by simp)⟩
  | read _ hstep => exact hsim _ _ _ hI hstep

/-- Requests and answers correlate, from the callers to the server and back. -/
structure Correlated (l : Link Obs) (v : Connection σ R E) : Prop where
  /-- The server has read the first of the accepted requests, each once, in order, under its id. -/
  received : ∃ n ≤ l.accepted.length, v.received.flatMap RawOneOrMany.intoVec =
    (l.accepted.take n).mapIdx fun i p => p.toRaw (idAt 0 i)
  /-- No response was to a request that is not pending. -/
  noMissing : ∀ h ∈ l.handled, ∀ id, h.result ≠ .error (.missingRequest id)
  /-- Every callback that was run, and every event that was returned, carries a notification or
  the answer to its own request. -/
  answers : ∀ h ∈ l.handled, Outcome l.accepted v.answered h
  /-- No request is answered twice. -/
  once : (v.answered.map Prod.fst).Nodup
  /-- The answers have resolved their requests in the order in which they were sent. -/
  resolved : l.session.resolved.map Resolution.answer <+: v.answered
  /-- All of them have once their bytes have been read and their messages taken. -/
  arrived : v.streamer.reader ≠ none → v.streamer.queue = [] → v.streamer.buf = [] →
    v.inbound = [] → l.session.resolved.map Resolution.answer = v.answered

omit [ByteSource R E] [JsonFormat] in
/-- If no bytes are on their way, no answers are. -/
theorem InFlight.inFlight_eq_nil {s : ReadStreamer R E} {w : World (Link Obs)}
    (h : InFlight parse s [] w.queue w.lines) (hreader : s.reader ≠ none) (hqueue : s.queue = [])
    (hbuf : s.buf = []) : w.inFlight = [] := by
  have hw : w.queue = [] := by
    have hmap := h.queue
    rw [hqueue] at hmap
    exact List.map_eq_nil_iff.mp hmap.symm
  obtain ⟨texts, htexts, hflat⟩ := h.bytes hreader
  rw [hbuf] at hflat
  -- a text in flight has at least its newline
  have hlines : w.lines = [] := by
    generalize w.lines = lines at htexts ⊢
    cases htexts with
    | nil => rfl
    | cons => simp at hflat
  rw [World.inFlight, hw, hlines]
  rfl

omit [ByteSource R E] in
/-- What holds of the messages between a client and a server holds of the bytes that mirror them. -/
theorem Mirrors.correlated {v : Connection σ R E} {w : World σ} (h : v.Mirrors parse w)
    (hflows : (v.wired.map fun f => link f.client).Flows) (htraced : (w.map link).Traced) :
    v.Correlated (link v.client) := by
  obtain ⟨hclient, hreceived, hanswered, hflight⟩ := h
  have hresolved := htraced.resolved
  have hhandled := htraced.handled
  have hprefix := htraced.received
  have honce := htraced.once
  have hnoMissing := htraced.correlates.noMissing
  simp only [World.map, hclient, hreceived, hanswered]
    at hresolved hhandled hprefix honce hnoMissing
  refine ⟨hflows.requests hprefix, hnoMissing, hhandled, honce, ⟨_, hresolved⟩, ?_⟩
  -- with no byte on its way nothing is in flight, so all answers have resolved their requests
  intro hreader hqueue hbuf hinbound
  rw [hinbound] at hflight
  have hnone : (w.map link).inFlight = [] := InFlight.inFlight_eq_nil hflight hreader hqueue hbuf
  have hall := htraced.resolved
  rw [hnone, List.append_nil] at hall
  simpa only [World.map, hclient, hanswered] using hall

section Runs

variable {I : σ → Prop} {c : σ} {reader : R} (hinit : I c) (hnew : link c = Link.new)
  (hsim : ∀ c a c', I c → ClientStep c a c' → I c' ∧ Link.Step (link c) a (link c'))

include hinit hnew hsim

omit [ByteSource R E] in
/-- In every state of a connection, the bytes taken from the client are those of its lines. -/
theorem flows_of_reachable {wired : Wired (Fed σ (ReadStreamer R E) E)}
    (h : Reachable (Wired.Step (Fed.Step poll ClientStep) fun f => link f.client)
      (Wired.new (Fed.new c (ReadStreamer.new reader))) wired) :
    I wired.client.client ∧ (wired.map fun f => link f.client).Flows := by
  have hlink := Wired.reachable_map (I := fun f : Fed σ (ReadStreamer R E) E => I f.client) hinit
    (fun _ _ _ => link_step hsim) h
  have hstart : (Wired.new (Fed.new c (ReadStreamer.new reader)) :
      Wired (Fed σ (ReadStreamer R E) E)).map (fun f => link f.client) = Wired.new Link.new :=
    congrArg Wired.new hnew
  rw [hstart] at hlink
  refine ⟨?_, Wired.flows_of_reachable hlink⟩
  exact Wired.invariant_client (I := fun f => I f.client) hinit
    (fun _ _ _ hI hstep => (link_step hsim hI hstep).1) h

/-- Every run of the system is one of the system with messages. -/
theorem exists_mirrors [LawfulJsonFormat] (hpoll : ∀ s : ReadStreamer R E, s.MidLine →
      ReadStreamer.Takes parse s (poll s).1 (poll s).2)
    {v : Connection σ R E} (h : Reachable (Step parse poll ClientStep link) (new c reader) v)
    (hcan : ∀ p ∈ (link v.client).accepted, p.CanWrite) :
    (v.wired.map fun f => link f.client).Flows ∧
      ∃ w, Reachable (World.Step ClientStep link) (World.new c) w ∧ v.Mirrors parse w := by
  -- the mirror needs the bytes taken to be lines, which the wired client alone shows
  have hboth : Reachable (Wired.Step (Fed.Step poll ClientStep) fun f => link f.client)
      (Wired.new (Fed.new c (ReadStreamer.new reader))) v.wired ∧
        ((∀ p ∈ (link v.client).accepted, p.CanWrite) →
          ∃ w, Reachable (World.Step ClientStep link) (World.new c) w ∧ v.Mirrors parse w) := by
    refine h.invariant (I := fun v => Reachable (Wired.Step (Fed.Step poll ClientStep)
      fun f => link f.client) (Wired.new (Fed.new c (ReadStreamer.new reader))) v.wired ∧
        ((∀ p ∈ (link v.client).accepted, p.CanWrite) →
          ∃ w, Reachable (World.Step ClientStep link) (World.new c) w ∧ v.Mirrors parse w))
      ⟨Reachable.refl _ _, fun _ => ⟨World.new c, Reachable.refl _ _, ?_⟩⟩ ?_
    · exact ⟨rfl, rfl, rfl, rfl, ReadStreamer.midLine_new reader, fun _ => ⟨[], .nil, rfl⟩⟩
    · rintro v a v' ⟨hwired, hmirrors⟩ hstep
      obtain ⟨hI, hflows⟩ := flows_of_reachable hinit hnew hsim hwired
      -- requests accepted before can be written if those accepted after can
      have hgrows : (link v.client).accepted <+: (link v'.client).accepted := by
        cases hstep with
        | client hstep =>
          rcases hstep.client with hsame | hfed
          · rw [client, client, hsame]
          · exact (link_step hsim hI hfed).2.grows.accepted
        | receive | reply => exact List.prefix_refl _
      refine ⟨?_, fun hcan => ?_⟩
      · cases hstep with
        | client hstep => exact hwired.tail hstep
        | receive | reply => exact hwired
      · have hbefore : ∀ p ∈ (link v.client).accepted, p.CanWrite :=
          fun p hp => hcan p (hgrows.subset hp)
        obtain ⟨w, hreach, hw⟩ := hmirrors hbefore
        obtain ⟨w', hreach', hw'⟩ := hw.step hpoll hstep hflows hbefore
        exact ⟨w', hreach.trans hreach', hw'⟩
  exact ⟨(flows_of_reachable hinit hnew hsim hboth.1).2, hboth.2 hcan⟩

/-- So requests and answers correlate as they do there. -/
theorem correlated [LawfulJsonFormat] (hpoll : ∀ s : ReadStreamer R E, s.MidLine →
      ReadStreamer.Takes parse s (poll s).1 (poll s).2)
    {v : Connection σ R E} (h : Reachable (Step parse poll ClientStep link) (new c reader) v)
    (hcan : ∀ p ∈ (link v.client).accepted, p.CanWrite)
    (hno : (link v.client).session.NoOverrun) : v.Correlated (link v.client) := by
  obtain ⟨hflows, w, hreach, hmirrors⟩ := exists_mirrors hinit hnew hsim hpoll h hcan
  have hlink := World.reachable_map hinit hsim hreach
  rw [hnew] at hlink
  have hno' : (w.map link).client.session.NoOverrun := by
    show (link w.client).session.NoOverrun
    rw [hmirrors.client]
    exact hno
  exact hmirrors.correlated hflows (World.traced_of_reachable hlink hno')

end Runs

end Connection

/-! ## Both clients -/

variable [JsonFormat]

/-- In every run of the asynchronous client and its server that exchange bytes, without overruns,
requests and answers correlate. So they do with the blocking client. -/
theorem correlated_of_reachable [LawfulJsonFormat]
    (parse : List UInt8 → Except Serde.Error Value) :
    (∀ (reader : AsyncBufReader UInt8 E)
        (v : Connection (AsyncClient Obs E) (AsyncBufReader UInt8 E) E),
      Reachable
        (Connection.Step parse (ReadStreamer.pollNext parse) AsyncClient.Step AsyncClient.link)
        (Connection.new AsyncClient.new reader) v →
          (∀ p ∈ v.client.link.accepted, p.CanWrite) → v.client.link.session.NoOverrun →
            v.Correlated v.client.link) ∧
    ∀ (reader : BufReader UInt8 E)
        (v : Connection (BlockingClient Obs E) (BufReader UInt8 E) E),
      Reachable
        (Connection.Step parse (ReadStreamer.pullNext parse) BlockingClient.Step
          BlockingClient.link) (Connection.new BlockingClient.new reader) v →
          (∀ p ∈ v.client.link.accepted, p.CanWrite) → v.client.link.session.NoOverrun →
            v.Correlated v.client.link := by
  constructor
  · intro reader v
    exact Connection.correlated (I := AsyncClient.Ordered) AsyncClient.ordered_new rfl
      (fun _ _ _ hordered hstep => hordered.step hstep) fun _ => ReadStreamer.pollNext_takes
  · intro reader v
    exact Connection.correlated (I := BlockingClient.Ordered) BlockingClient.ordered_new rfl
      (fun _ _ _ hordered hstep => hordered.step hstep) fun _ => ReadStreamer.next_takes

omit [Bitcoin] [JsonFormat] in
/-- The text of the answer to a ping. -/
theorem isTextOf_pongText : IsTextOf parsePong pongText (.single (.answer 0 pong)) where
  newline := by decide
  parses := by
    have hparse : parsePong pongText = .ok (.object [("id", .number (.posInt 0)),
        ("jsonrpc", .string "2.0"), ("result", .null)]) := by
      unfold parsePong
      exact if_pos rfl
    have hid : Value.asU32 (.number (.posInt 0)) = .ok pong.id := asU32_eq_ok_iff.mpr ⟨_, rfl, rfl⟩
    refine ⟨_, hparse, rfl, ⟨_, rfl, hid⟩, rfl, ?_⟩
    rintro ⟨v, hv⟩
    simp at hv

omit [Bitcoin] [JsonFormat] in
/-- What a server reads of a ping. -/
theorem readLines_ping :
    letI : JsonFormat := bitsFormat
    (readLines ([] ++ line (.single (RawRequest.new 0 "server.ping" []))))[0]? =
      some (some (RawOneOrMany.serialize (.single (RawRequest.new 0 "server.ping" [])))) := by
  let _ : JsonFormat := bitsFormat
  have _ : LawfulJsonFormat := lawful_bitsFormat
  have hcan : (RawOneOrMany.single (RawRequest.new 0 "server.ping" [])).CanWrite := by
    intro raw hraw
    rw [List.mem_singleton.mp hraw]
    trivial
  have hread := readLines_line_append hcan []
  rw [List.append_nil] at hread
  rw [List.nil_append, hread]
  rfl

omit [Bitcoin] [JsonFormat] in
/-- A ping is written and read by the server, whose answer comes in two pieces. -/
theorem correlated_of_reachable_pong :
    letI : Bitcoin := bareBitcoin
    letI : JsonFormat := bitsFormat
    ∃ v : Connection (AsyncClient (ResponseResult Value) Unit) (AsyncBufReader UInt8 Unit) Unit,
      v.answered = [(0, pong)] ∧ v.inbound = [] ∧
        v.client.link.session.resolvedTickets = {0} ∧ v.Correlated v.client.link := by
  let _ : Bitcoin := bareBitcoin
  let _ : JsonFormat := bitsFormat
  have _ : LawfulJsonFormat := lawful_bitsFormat
  have hsent : Reachable (Connection.Step parsePong (ReadStreamer.pollNext parsePong)
      AsyncClient.Step AsyncClient.link)
      (Connection.new (AsyncClient.new : AsyncClient (ResponseResult Value) Unit) pongReader) _ :=
    (Reachable.refl _ _).tail
      (.client (.other (.internal (.send keepAlive)) fun _ => .rfl) (.refl _ _))
  have hbegun := hsent.tail (.client
    (.start (.internal (.request rfl rfl)) Writing.noConfusion rfl) (.refl _ _))
  have htaken := hbegun.tail
    (.client (.attempt rfl (line_ne_nil _) (Wired.attempt_line _)) (.refl _ _))
  have hreceived := htaken.tail (.receive readLines_ping)
  have hwritten := hreceived.tail
    (.client (.written (.internal (.written rfl rfl)) rfl rfl rfl) (.refl _ _))
  have hfair : ∀ reply ∈ (RawOneOrMany.single (Reply.answer 0 pong)).intoVec,
      reply.Fair [RawRequest.new 0 "server.ping" []] [answeredPing] := by
    intro reply hreply
    rw [List.mem_singleton.mp hreply]
    refine .answer rfl rfl fun p hp => ?_
    rw [← Option.some.inj hp]
    exact PendingRequest.expects_iff.mpr ⟨none, rfl⟩
  have hanswered := hwritten.tail
    (.reply (.single (.answer 0 pong)) pongText isTextOf_pongText hfair (by decide))
  have hfirst : [] ++ (pongText ++ [newline]) =
      pongText.take 7 ++ (pongText.drop 7 ++ [newline]) := by
    rw [List.nil_append, ← List.append_assoc, List.take_append_drop]
  have hhalf := hanswered.tail (.client (.other (.pending pollNext_pongReader) fun _ => .rfl)
    ⟨_, hfirst, fun _ _ hreader hreader' => by
      cases hreader
      cases hreader'
      rfl⟩)
  have hread := hhalf.tail (.client (.other (.read pollNext_pongHalf (.incoming rfl)) fun _ => .rfl)
    ⟨_, (List.append_nil _).symm, fun _ _ hreader hreader' => by
      cases hreader
      cases hreader'
      rfl⟩)
  refine ⟨_, rfl, rfl, rfl, (correlated_of_reachable parsePong).1 pongReader _ hread ?_ ?_⟩
  · intro p hp
    rw [List.mem_singleton.mp hp]
    trivial
  · -- nothing was pending when the request was tracked
    intro a ha p hp
    rw [List.mem_singleton.mp ha] at hp
    exact absurd hp (Multiset.notMem_zero p)

end ElectrumStreamingClient
