import ElectrumStreamingClient.Foundations.JsonText
import ElectrumStreamingClient.Foundations.WriteAll
import ElectrumStreamingClient.Io.ReadStreamer

/-!
# Writing requests

The serializers of requests (`protocol.rs`) and the functions that write them (`io.rs`): a request
or a batch is one line of JSON. The lines behind each other are read back as the messages they were
written from, and a message that was not written whole is no line.
-/

namespace ElectrumStreamingClient

open Serde LineFraming JsonText WriteAll

/-! ## Serializers -/

/-- The derived serializer of a request. -/
def RawRequest.serialize (req : RawRequest) : Value :=
  .object [("jsonrpc", .string req.jsonrpc), ("id", .number (.posInt req.id.toUInt64)),
    ("method", .string req.method), ("params", .array req.params)]

/-- The derived serializer of the untagged enum, for requests. -/
def RawOneOrMany.serialize : RawOneOrMany RawRequest → Value
  | single req => req.serialize
  | batch reqs => .array (reqs.map RawRequest.serialize)

/-- The parameters are values that can be written. -/
def RawRequest.CanWrite (req : RawRequest) : Prop :=
  ElemsCanWrite req.params

/-- All requests of a message can be written. -/
def RawOneOrMany.CanWrite (msg : RawOneOrMany RawRequest) : Prop :=
  ∀ req ∈ msg.intoVec, req.CanWrite

/-- What is written for a request determines it. -/
theorem RawRequest.serialize_injective : Function.Injective RawRequest.serialize := by
  rintro ⟨jsonrpc, id, method, params⟩ ⟨jsonrpc', id', method', params'⟩ h
  simp only [serialize, Value.object.injEq, List.cons.injEq, Prod.mk.injEq, Value.string.injEq,
    Value.number.injEq, Number.posInt.injEq, UInt32.toUInt64_inj, Value.array.injEq, true_and,
    and_true] at h
  obtain ⟨rfl, rfl, rfl, rfl⟩ := h
  rfl

/-- The value of a message determines it: a batch is an array, however many requests it has. -/
theorem RawOneOrMany.serialize_injective : Function.Injective RawOneOrMany.serialize := by
  rintro (req | reqs) (req' | reqs') h
  · exact congrArg single (RawRequest.serialize_injective h)
  · cases h
  · cases h
  · exact congrArg batch
      (RawRequest.serialize_injective.list_map (Value.array.inj h))

/-- A request can be written if its parameters can. -/
theorem RawRequest.canWrite_serialize {req : RawRequest} (h : req.CanWrite) :
    JsonText.CanWrite req.serialize :=
  ⟨trivial, trivial, trivial, h, trivial⟩

/-- A message can be written if its requests can. -/
theorem RawOneOrMany.canWrite_serialize {msg : RawOneOrMany RawRequest} (h : msg.CanWrite) :
    JsonText.CanWrite msg.serialize := by
  cases msg with
  | single req => exact RawRequest.canWrite_serialize (h req List.mem_cons_self)
  | batch reqs =>
    apply elemsCanWrite_iff.mpr
    intro v hv
    obtain ⟨req, hreq, rfl⟩ := List.mem_map.mp hv
    exact RawRequest.canWrite_serialize (h req hreq)

/-! ## Lines -/

variable [JsonFormat]

/-- The bytes that are written for a message: its text and a newline. -/
def line (msg : RawOneOrMany RawRequest) : List UInt8 :=
  JsonFormat.toVec msg.serialize ++ [newline]

/-- The messages that the complete lines of what was written are read as. -/
def readLines (bytes : List UInt8) : List (Option Value) :=
  (completeLines newline bytes).map JsonFormat.read

@[simp]
theorem readLines_nil : readLines [] = [] := by
  rw [readLines, completeLines_of_notMem List.not_mem_nil, List.map_nil]

/-- A message is on one line. -/
theorem newline_notMem_toVec [LawfulJsonFormat] {msg : RawOneOrMany RawRequest}
    (h : msg.CanWrite) : newline ∉ JsonFormat.toVec msg.serialize :=
  LawfulJsonFormat.notMem_toVec _ (RawOneOrMany.canWrite_serialize h) '\n' rfl

/-- The first line of what was written is read back, and then what follows it. -/
theorem readLines_line_append [LawfulJsonFormat] {msg : RawOneOrMany RawRequest}
    (h : msg.CanWrite) (bytes : List UInt8) :
    readLines (line msg ++ bytes) = some msg.serialize :: readLines bytes := by
  have hline : line msg ++ bytes = JsonFormat.toVec msg.serialize ++ newline :: bytes := by
    simp [line]
  rw [hline, readLines, completeLines_append_cons _ (newline_notMem_toVec h), List.map_cons,
    LawfulJsonFormat.read_toVec _ (RawOneOrMany.canWrite_serialize h), readLines]

/-- Part of a line is no line. -/
theorem readLines_of_isPrefix [LawfulJsonFormat] {msg : RawOneOrMany RawRequest}
    (h : msg.CanWrite) {bytes : List UInt8} (hpre : bytes <+: line msg)
    (hne : bytes ≠ line msg) : readLines bytes = [] := by
  have hbytes : bytes <+: JsonFormat.toVec msg.serialize := by
    rcases List.prefix_concat_iff.mp hpre with heq | hbytes
    · exact absurd heq hne
    · exact hbytes
  have hnotin : newline ∉ bytes := fun hmem => newline_notMem_toVec h (hbytes.subset hmem)
  rw [readLines, completeLines_of_notMem hnotin, List.map_nil]

/-- Messages behind each other are read back one by one, up to what follows them. -/
theorem readLines_flatMap_line_append [LawfulJsonFormat] {msgs : List (RawOneOrMany RawRequest)}
    (h : ∀ msg ∈ msgs, msg.CanWrite) (bytes : List UInt8) :
    readLines (msgs.flatMap line ++ bytes) =
      msgs.map (fun msg => some msg.serialize) ++ readLines bytes := by
  induction msgs with
  | nil => rfl
  | cons msg msgs ih =>
    obtain ⟨hmsg, hmsgs⟩ := List.forall_mem_cons.mp h
    rw [List.flatMap_cons, List.append_assoc, readLines_line_append hmsg, ih hmsgs, List.map_cons,
      List.cons_append]

omit [JsonFormat] in
/-- What is read of messages determines them. -/
theorem map_some_serialize_injective :
    Function.Injective (List.map fun msg : RawOneOrMany RawRequest => some msg.serialize) :=
  Function.Injective.list_map fun _ _ h => RawOneOrMany.serialize_injective (Option.some.inj h)

/-- The lines of messages are read back one by one. -/
theorem readLines_flatMap_line [LawfulJsonFormat] {msgs : List (RawOneOrMany RawRequest)}
    (h : ∀ msg ∈ msgs, msg.CanWrite) :
    readLines (msgs.flatMap line) = msgs.map fun msg => some msg.serialize := by
  have happend := readLines_flatMap_line_append h []
  rwa [List.append_nil, readLines_nil, List.append_nil] at happend

/-- What is written for messages is read back as these messages, and for no others the same is
written. -/
theorem messages_of_lines [LawfulJsonFormat] {msgs : List (RawOneOrMany RawRequest)}
    (h : ∀ msg ∈ msgs, msg.CanWrite) :
    readLines (msgs.flatMap line) = msgs.map (fun msg => some msg.serialize) ∧
      ∀ msgs' : List (RawOneOrMany RawRequest), (∀ msg ∈ msgs', msg.CanWrite) →
        (msgs'.flatMap line = msgs.flatMap line ↔ msgs' = msgs) := by
  refine ⟨readLines_flatMap_line h, fun msgs' h' => ⟨fun heq => ?_, fun heq => by rw [heq]⟩⟩
  apply map_some_serialize_injective
  rw [← readLines_flatMap_line h', heq, readLines_flatMap_line h]

/-- Doubles written as their bits, with a decimal point behind them. -/
@[reducible] def bitsText : FloatText where
  write bits := Nat.toDigits 10 bits.toNat ++ ['.', '0']
  read cs := (readNat (cs.takeWhile (· ≠ '.'))).map UInt64.ofNat

omit [JsonFormat] in
/-- Numbers written by their bits are read back. -/
theorem lawful_bitsText : @LawfulFloatText bitsText := by
  let _ : FloatText := bitsText
  have hdigit {n : ℕ} {c : Char} (hc : c ∈ Nat.toDigits 10 n) : c.isDigit = true :=
    Nat.isDigit_of_mem_toDigits (by decide) (by decide) hc
  refine ⟨fun bits _ => ?_, fun bits _ c hc => ?_, fun bits _ => ⟨'.', ?_, .inl rfl⟩⟩
  · have hstop : ∀ c ∈ Nat.toDigits 10 bits.toNat, decide (c ≠ '.') = true := by
      intro c hc
      rw [decide_eq_true_iff]
      rintro rfl
      cases hdigit hc
    show (readNat ((Nat.toDigits 10 bits.toNat ++ ['.', '0']).takeWhile (· ≠ '.'))).map
      UInt64.ofNat = some bits
    rw [List.takeWhile_append_of_pos hstop]
    simp
  · rcases List.mem_append.mp hc with hc | hc
    · exact isNumberChar_of_isDigit (hdigit hc)
    · rcases List.mem_pair.mp hc with rfl | rfl <;> rfl
  · exact List.mem_append_right _ List.mem_cons_self

/-- Compact text with doubles written so. -/
@[reducible] def bitsFormat : JsonFormat := @compactFormat bitsText

omit [JsonFormat] in
/-- So is everything that is written with them. -/
theorem lawful_bitsFormat : @LawfulJsonFormat bitsFormat :=
  @lawful_compactFormat bitsText lawful_bitsText

/-- A request of the first client, and a batch of none. -/
def pingLines : List (RawOneOrMany RawRequest) :=
  [.single (RawRequest.new 0 "server.ping" []), .batch []]

omit [JsonFormat] in
/-- Both lines can be written. -/
theorem canWrite_pingLines : ∀ msg ∈ pingLines, msg.CanWrite := by
  intro msg hmsg req hreq
  rcases List.mem_pair.mp hmsg with rfl | rfl
  · rw [List.mem_singleton.mp hreq]
    trivial
  · cases hreq

omit [JsonFormat] in
/-- The two messages are all that their bytes hold. -/
theorem messages_of_lines_pingLines :
    letI : JsonFormat := bitsFormat
    readLines (pingLines.flatMap line) =
      [some (RawRequest.new 0 "server.ping" []).serialize, some (.array [])] := by
  let _ : JsonFormat := bitsFormat
  have _ : LawfulJsonFormat := lawful_bitsFormat
  exact (messages_of_lines canWrite_pingLines).1

/-! ## Writing -/

section Writing

variable {E : Type}

/-- `blocking_write`: the result, the bytes taken by the transport and the writer after it. -/
def blockingWrite (writer : Script E) (msg : RawOneOrMany RawRequest) :
    Except (WriteError E) Unit × List UInt8 × Script E :=
  writeAll writer (line msg)

/-- `async_write`, polled at most `polls` times: its result, the bytes taken, those the future has
left, and the writer. The future is that of the library's `write_all`; `tokio_write` does the same
with that of another library. -/
def asyncWrite (future : WriteFuture UInt8 E) (polls : ℕ) (writer : Script E)
    (msg : RawOneOrMany RawRequest) :
    Poll (Except (WriteError E) Unit) × List UInt8 × List UInt8 × Script E :=
  future.polls polls writer (line msg)

/-- A line is not empty. -/
theorem line_ne_nil (msg : RawOneOrMany RawRequest) : line msg ≠ [] := by
  simp [line]

/-- However a transport takes the bytes, the message can be read exactly if writing it has
succeeded, and otherwise nothing can. So it is with a future that is dropped after any number of
polls, and one that is polled until it is ready does what the blocking write does. -/
theorem readLines_write [LawfulJsonFormat] {msg : RawOneOrMany RawRequest} (h : msg.CanWrite)
    (writer : Script E) :
    ((blockingWrite writer msg).1 = .ok () ∧
        readLines (blockingWrite writer msg).2.1 = [some msg.serialize] ∨
      (blockingWrite writer msg).1 ≠ .ok () ∧ readLines (blockingWrite writer msg).2.1 = []) ∧
    ∀ (future : WriteFuture UInt8 E) (polls : ℕ),
      ((asyncWrite future polls writer msg).1 = .pending →
        readLines (asyncWrite future polls writer msg).2.1 = []) ∧
      (pendings writer < polls →
        (asyncWrite future polls writer msg).1 = .ready (blockingWrite writer msg).1 ∧
          (asyncWrite future polls writer msg).2.1 = (blockingWrite writer msg).2.1 ∧
          (asyncWrite future polls writer msg).2.2.2 = (blockingWrite writer msg).2.2) := by
  refine ⟨?_, fun future polls => ⟨fun hpending => ?_, future.polls_eq⟩⟩
  · by_cases hok : (blockingWrite writer msg).1 = .ok ()
    · have htaken : (blockingWrite writer msg).2.1 = line msg := writeAll_ok_iff.mp hok
      have hread := readLines_line_append h []
      rw [List.append_nil, readLines_nil] at hread
      exact .inl ⟨hok, by rw [htaken, hread]⟩
    · have hne : (blockingWrite writer msg).2.1 ≠ line msg := fun heq =>
        hok (writeAll_ok_iff.mpr heq)
      exact .inr ⟨hok, readLines_of_isPrefix h (writeAll_isPrefix writer (line msg)) hne⟩
  · have hconserves := future.polls_conserves polls writer (line msg)
    have hrest := future.polls_rest_ne_nil (line_ne_nil msg) hpending
    have hpre : (asyncWrite future polls writer msg).2.1 <+: line msg := ⟨_, hconserves⟩
    refine readLines_of_isPrefix h hpre fun heq => ?_
    -- the future has something left
    rw [asyncWrite] at heq
    rw [heq] at hconserves
    exact hrest (by simpa using hconserves)

omit [JsonFormat] in
/-- The transport takes ten bytes, and then fails, or has to be waited for. -/
theorem readLines_write_pingLines :
    letI : JsonFormat := bitsFormat
    ∃ msg ∈ pingLines, readLines (blockingWrite [.took 10, .failed ()] msg).2.1 = [] ∧
      (asyncWrite looping 1 ([.took 10, .later] : Script Unit) msg).1 = .pending ∧
        readLines (asyncWrite looping 1 ([.took 10, .later] : Script Unit) msg).2.1 = [] := by
  let _ : JsonFormat := bitsFormat
  have _ : LawfulJsonFormat := lawful_bitsFormat
  have hping := canWrite_pingLines _ List.mem_cons_self
  refine ⟨_, List.mem_cons_self, ?_, rfl, ?_⟩
  · obtain ⟨hok, -⟩ | ⟨-, hread⟩ := (readLines_write hping [.took 10, .failed ()]).1
    · cases hok
    · exact hread
  · exact ((readLines_write hping ([.took 10, .later] : Script Unit)).2 looping 1).1 rfl

end Writing

end ElectrumStreamingClient
