import ElectrumStreamingClient.Foundations.DelimitedText
import ElectrumStreamingClient.Protocol.History
import Mathlib

/-!
# The status of a script

`ElectrumScriptStatus::from_history` (`hash_types.rs`): the hash of one line of text for each
transaction of a history, in order. The text is made of delimited fields, so it determines the
transaction ids and heights of the history, and the fields are those that the server sent.
-/

namespace ElectrumStreamingClient

open Serde DelimitedText

variable [Bitcoin]

/-- The transaction ids and heights of a history. -/
def entries (history : List Tx) : List (Bitcoin.Txid × Int64) :=
  history.map fun tx => (tx.txid, tx.electrumHeight)

/-- The line of an entry as the server sent it: 64 digits in lower case and the height, each ended
by a colon. -/
def IsLineOf (v : Value) (line : String) : Prop :=
  ∃ txHash n h, rawEntry v = some (.string txHash, .number n) ∧ n.toInt? = some h ∧
    (∃ bytes : Bytes 32, bytes.toHex = txHash.toLower) ∧
    line = txHash.toLower ++ ":" ++ toString h ++ ":"

namespace ElectrumScriptStatus

/-- The line of a transaction. -/
def line (tx : Tx) : String :=
  Bitcoin.txidToString tx.txid ++ ":" ++ toString tx.electrumHeight.toInt ++ ":"

/-- The engine after the loop over the history. -/
def engine (history : List Tx) : HashEngine :=
  history.foldl (fun engine tx => engine.input (utf8 (line tx))) HashEngine.new

/-- `ElectrumScriptStatus::from_history`. -/
def fromHistory [Hashes] (history : List Tx) : Option ElectrumScriptStatus :=
  if history.isEmpty then
    none
  else
    some { hash := Hashes.sha256 (engine history).fed }

/-! ## What is hashed -/

/-- The loop feeds the lines behind what was fed before. -/
theorem fed_foldl (history : List Tx) (start : HashEngine) :
    (history.foldl (fun engine tx => engine.input (utf8 (line tx))) start).fed =
      start.fed ++ (history.map line).flatMap utf8 := by
  induction history generalizing start with
  | nil => simp
  | cons tx history ih => simp [ih]

/-- The lines are hashed in list order. -/
theorem fed_engine (history : List Tx) :
    (engine history).fed = (history.map line).flatMap utf8 :=
  fed_foldl history HashEngine.new

/-- The line of a decoded entry is made of what the server sent. -/
theorem isLineOf_line [LawfulTxid] {v : Value} {tx : Tx}
    (h : Deserialize.deserialize v = .ok tx) : IsLineOf v (line tx) := by
  obtain ⟨txHash, n, hraw, htxid, hheight⟩ := Tx.rawEntry_of_deserialize h
  obtain ⟨s, rfl, hlower⟩ := LawfulTxid.exists_string htxid
  obtain ⟨bytes, hbytes⟩ := LawfulTxid.exists_bytes tx.txid
  refine ⟨s, n, tx.electrumHeight.toInt, hraw, hheight, ⟨bytes, ?_⟩, ?_⟩
  · rw [← hbytes, hlower]
  · rw [line, hlower]

/-! ## The text determines the history -/

/-- The fields of a transaction id and a height. -/
def fields (entry : Bitcoin.Txid × Int64) : List (List Char) :=
  [(Bitcoin.txidToString entry.1).toList, entry.2.toInt.repr.toList]

/-- The line of a transaction has two fields, each ended by a colon. -/
theorem line_eq (tx : Tx) :
    line tx = String.ofList (terminated ':' (fields (tx.txid, tx.electrumHeight))) := by
  apply String.toList_injective
  simp [line, fields, terminated, Int.toString_eq_repr]

/-- Neither field has a colon. -/
theorem notMem_fields [LawfulTxid] {field : List Char} {es : List (Bitcoin.Txid × Int64)}
    (h : field ∈ es.flatMap fields) : ':' ∉ field := by
  obtain ⟨entry, -, hfield⟩ := List.mem_flatMap.mp h
  simp only [fields, List.mem_cons, List.not_mem_nil, or_false] at hfield
  rcases hfield with rfl | rfl
  · -- an id is made of hex digits
    obtain ⟨bytes, hbytes⟩ := LawfulTxid.exists_bytes entry.1
    rw [hbytes, Bytes.toHex, String.toList_ofList]
    intro hcolon
    exact Hex.digit?_of_mem_encode hcolon rfl
  · exact notMem_toList_repr (by decide) (by decide) _

/-- What is hashed is the text of the fields of all entries. -/
theorem flatMap_utf8_eq (history : List Tx) :
    (history.map line).flatMap utf8 =
      utf8 (String.ofList (terminated ':' ((entries history).flatMap fields))) := by
  induction history with
  | nil => rfl
  | cons tx history ih =>
    simp only [entries, List.map_cons, List.flatMap_cons] at ih ⊢
    rw [ih, line_eq, ← utf8_append, ← String.ofList_append]
    simp [terminated]

/-- What is hashed for two histories is the same exactly if their ids and heights are. -/
theorem fed_engine_inj [LawfulTxid] {history history' : List Tx} :
    (engine history).fed = (engine history').fed ↔ entries history = entries history' := by
  -- both fields of a line tell their values apart
  have htxid : Function.Injective
      fun txid : Bitcoin.Txid => (Bitcoin.txidToString txid).toList := by
    intro txid txid' h
    exact LawfulTxid.txidToString_injective (String.toList_injective h)
  have hheight : Function.Injective fun height : Int64 => height.toInt.repr.toList := by
    intro height height' h
    apply Int64.toInt_inj.mp
    exact Int.repr_injective (String.toList_injective h)
  rw [fed_engine, fed_engine, flatMap_utf8_eq, flatMap_utf8_eq, utf8_injective.eq_iff,
    String.ofList_inj, terminated_inj (fun _ => notMem_fields) (fun _ => notMem_fields)]
  exact flatMap_pair_inj htxid hheight

variable [Hashes]

/-- Only the empty history has no status. -/
theorem fromHistory_eq_none_iff {history : List Tx} :
    fromHistory history = none ↔ history = [] := by
  rw [fromHistory]
  cases history <;> simp

/-- Without a collision between them, histories of one status have the same ids and heights. -/
theorem entries_eq_of_fromHistory_eq [LawfulTxid] {history history' : List Tx}
    (hinj : Set.InjOn (Hashes.sha256 : List UInt8 → Bitcoin.Sha256)
      {(engine history).fed, (engine history').fed})
    (h : fromHistory history = fromHistory history') : entries history = entries history' := by
  cases history with
  | nil =>
    have hnil := fromHistory_eq_none_iff.mp h.symm
    rw [hnil]
  | cons tx history =>
    cases history' with
    -- only the empty history has no status
    | nil => cases h
    | cons tx' history' =>
      simp only [fromHistory, List.isEmpty_cons, Bool.false_eq_true, if_false, Option.some.injEq,
        ElectrumScriptStatus.mk.injEq] at h
      apply fed_engine_inj.mp
      exact hinj (Set.mem_insert _ _) (Set.mem_insert_of_mem _ rfl) h

/-- The status of a decoded history is the hash of the lines of what the server sent, if there are
any; what is hashed identifies the history, and so does the status unless `sha256` collides. -/
theorem fromHistory_identifies [LawfulTxid] :
    (∀ (vs : List Value) (history : List Tx),
      Deserialize.deserialize (.array vs) = .ok history →
        (fromHistory history = none ↔ vs = []) ∧
        ∃ lines, List.Forall₂ IsLineOf vs lines ∧
          (vs ≠ [] →
            fromHistory history = some { hash := Hashes.sha256 (lines.flatMap utf8) })) ∧
    (∀ history history' : List Tx,
      (engine history).fed = (engine history').fed ↔ entries history = entries history') ∧
    (∀ history history' : List Tx,
      Set.InjOn (Hashes.sha256 : List UInt8 → Bitcoin.Sha256)
        {(engine history).fed, (engine history').fed} →
        fromHistory history = fromHistory history' → entries history = entries history') := by
  refine ⟨?_, fun _ _ => fed_engine_inj, fun _ _ => entries_eq_of_fromHistory_eq⟩
  intro vs history hdecode
  -- a history is decoded entry by entry, so its lines are those of the entries
  have hforall := mapM_eq_ok_iff.mp hdecode
  have hempty : history = [] ↔ vs = [] := by
    rw [← List.length_eq_zero_iff, ← hforall.length_eq, List.length_eq_zero_iff]
  refine ⟨fromHistory_eq_none_iff.trans hempty, history.map line, ?_, ?_⟩
  · rw [List.forall₂_map_right_iff]
    exact hforall.imp fun _ _ => isLineOf_line
  · intro hne
    rw [fromHistory, if_neg, fed_engine]
    rw [List.isEmpty_iff, hempty]
    exact hne

omit [Bitcoin] [Hashes] in
/-- The line of an entry with the id and the height of that entry. -/
theorem line_eq_of_rawEntry {v : Value} {txid : Bytes 32} {n : Number} {h : ℤ} {line : String}
    (hraw : rawEntry v = some (.string txid.toHex, .number n)) (hn : n.toInt? = some h)
    (hline : IsLineOf v line) : line = txid.toHex ++ ":" ++ toString h ++ ":" := by
  obtain ⟨txHash, n', h', hraw', hn', -, rfl⟩ := hline
  cases hraw.symm.trans hraw'
  cases hn.symm.trans hn'
  -- digits are printed in lower case
  obtain ⟨s, hs, hlower⟩ := Bytes.toHex_of_ofValue (Bytes.ofValue_toHex txid)
  cases hs
  rw [← hlower]

/-- The id of another transaction. -/
def onesTxid : Bytes 32 := ⟨List.replicate 32 1, rfl⟩

/-- A confirmed transaction. -/
def confirmedEntryTx : @Tx byteBitcoin :=
  letI : Bitcoin := byteBitcoin
  .confirmed { txid := onesTxid, height := { consensus := 5, lt_threshold := by decide } }

/-- The entry of the confirmed transaction. -/
def confirmedEntry : Value :=
  .object [("tx_hash", .string onesTxid.toHex), ("height", .number (.posInt 5))]

/-- A transaction that spends unconfirmed outputs. -/
def chainedEntryTx : @Tx byteBitcoin :=
  letI : Bitcoin := byteBitcoin
  .mempool { txid := zeroTxid, fee := { sat := 500 }, confirmedInputs := false }

/-- The entry of that transaction. -/
def chainedEntry : Value :=
  .object [("tx_hash", .string zeroTxid.toHex), ("height", .number (.negInt (-1))),
    ("fee", .number (.posInt 500))]

omit [Bitcoin] [Hashes] in
/-- Both entries are decoded. -/
theorem deserialize_entries :
    letI : Bitcoin := byteBitcoin
    Deserialize.deserialize (.array [confirmedEntry, chainedEntry]) =
      .ok [confirmedEntryTx, chainedEntryTx] := by
  let _ : Bitcoin := byteBitcoin
  have htxid (txid : Bytes 32) : byteBitcoin.asTxid (.string txid.reverse.toHex) = .ok txid := by
    show Bytes.reverse <$> Bytes.ofValue 32 (.string txid.reverse.toHex) = _
    rw [Bytes.ofValue_toHex]
    exact congrArg Except.ok (Bytes.reverse_reverse txid)
  refine mapM_eq_ok_iff.mpr (.cons ?_ (.cons ?_ .nil))
  · refine Tx.deserialize_eq_ok_iff.mpr (.inr ⟨fun mempoolTx hmempool => ?_, _, ?_, rfl⟩)
    · -- without a fee the first decoder fails
      obtain ⟨fee, hfee⟩ := MempoolTx.hasFee hmempool
      cases hfee
    · simp only [ConfirmedTx.deserialize, confirmedEntry, bind_eq_ok_iff, field_eq_ok_iff]
      have hheight : Height.deserialize (.number (.posInt 5)) =
          .ok { consensus := 5, lt_threshold := by decide } :=
        Height.deserialize_eq_ok_iff.mpr ⟨.posInt 5, rfl, rfl⟩
      exact ⟨onesTxid, ⟨_, rfl, htxid onesTxid⟩, _, ⟨_, rfl, hheight⟩, rfl⟩
  · refine Tx.deserialize_eq_ok_iff.mpr (.inl ⟨_, ?_, rfl⟩)
    simp only [MempoolTx.deserialize, chainedEntry, bind_eq_ok_iff, field_eq_ok_iff]
    have hconf : CustomSerde.allInputsConfirmedBoolFromHeight (.number (.negInt (-1))) =
        .ok false :=
      allInputsConfirmed_eq_ok_iff.mpr ⟨.negInt (-1), rfl, rfl⟩
    exact ⟨zeroTxid, ⟨_, rfl, htxid zeroTxid⟩, { sat := 500 }, ⟨_, rfl, rfl⟩, false,
      ⟨_, rfl, hconf⟩, rfl⟩

/-- The status of the history with these two transactions. -/
def entriesStatus : Bytes 32 :=
  ⟨[14, 5, 173, 1, 41, 77, 104, 44, 99, 207, 183, 62, 195, 177, 234, 18, 4, 121, 170, 14, 183, 253,
    166, 172, 160, 84, 42, 143, 157, 230, 149, 117], rfl⟩

/-- The hash, as far as this history needs it. -/
def statusSha256 (input : List UInt8) : Bytes 32 :=
  if input = utf8 (onesTxid.toHex ++ ":5:" ++ zeroTxid.toHex ++ ":-1:") then entriesStatus
  else zeroTxid

omit [Bitcoin] [Hashes] in
/-- The history with these two transactions has that status, and another one than with the two in
the other order. -/
theorem fromHistory_identifies_entries :
    letI : Bitcoin := byteBitcoin
    letI : Hashes := byteHashes statusSha256 statusSha256
    fromHistory [confirmedEntryTx, chainedEntryTx] = some { hash := entriesStatus } ∧
      (engine [confirmedEntryTx, chainedEntryTx]).fed ≠
        (engine [chainedEntryTx, confirmedEntryTx]).fed := by
  let _ : Bitcoin := byteBitcoin
  let _ : Hashes := byteHashes statusSha256 statusSha256
  have _ : LawfulTxid := lawfulTxid_byteBitcoin
  obtain ⟨hstatus, hunique, -⟩ := fromHistory_identifies
  obtain ⟨-, lines, hlines, hsome⟩ := hstatus _ _ deserialize_entries
  constructor
  · obtain ⟨first, _, hfirst, hrest, rfl⟩ := List.forall₂_cons_left_iff.mp hlines
    obtain ⟨second, _, hsecond, hnil, rfl⟩ := List.forall₂_cons_left_iff.mp hrest
    have hconfirmed := @line_eq_of_rawEntry _ onesTxid (.posInt 5) 5 _ rfl rfl hfirst
    have hchained := @line_eq_of_rawEntry _ zeroTxid (.negInt (-1)) (-1) _ rfl rfl hsecond
    rw [List.forall₂_nil_left_iff.mp hnil, hconfirmed, hchained] at hsome
    rw [hsome (List.cons_ne_nil _ _)]
    -- the two lines make the text that `statusSha256` knows
    have htext : [onesTxid.toHex ++ ":" ++ toString (5 : ℤ) ++ ":",
        zeroTxid.toHex ++ ":" ++ toString (-1 : ℤ) ++ ":"].flatMap utf8 =
          utf8 (onesTxid.toHex ++ ":5:" ++ zeroTxid.toHex ++ ":-1:") := by
      simp only [List.flatMap_cons, List.flatMap_nil, List.append_nil, ← utf8_append]
      rfl
    show some (ElectrumScriptStatus.mk (statusSha256 _)) = _
    rw [htext, statusSha256, if_pos rfl]
  · rw [Ne, hunique]
    intro hsame
    have hheights := congrArg Prod.snd (List.cons.inj hsame).1
    exact absurd hheights (by decide)

end ElectrumScriptStatus

end ElectrumStreamingClient
