import ElectrumStreamingClient.Protocol.Hashes
import ElectrumStreamingClient.Protocol.Request

/-!
# History entries

The entries of a script's history (`response.rs`): how they decode, and how their heights are
reported. An entry decodes as an unconfirmed transaction if it can, else as a confirmed one. The
height that the server sent is always reported as the Electrum height (`rawEntry_of_deserialize`),
but an entry of height 0 without a valid fee comes out as confirmed.
-/

namespace ElectrumStreamingClient

open Serde

/-! ## Decoders -/

/-- `absolute::Height`: a `u32` below the threshold of lock times. -/
def Height.deserialize (v : Value) : Except Error Height := do
  let n ← v.asU32
  if h : n.toNat < 500000000 then
    return { consensus := n, lt_threshold := h }
  else
    .error (.custom ("invalid lock time value " ++ toString n.toNat ++
      ", expected lock-by-blockheight (must be < 500000000)"))

/-- `amount::serde::as_sat`. -/
def Amount.asSat (v : Value) : Except Error Amount :=
  Amount.mk <$> v.asU64

/-- `custom_serde::all_inputs_confirmed_bool_from_height`. -/
def CustomSerde.allInputsConfirmedBoolFromHeight (v : Value) : Except Error Bool := do
  let height ← v.asI64
  if height = 0 then
    return true
  else if height = -1 then
    return false
  else
    .error (.custom ("invalid value: integer `" ++ toString height.toInt ++
      "`, expected 0 or -1"))

/-- A height is decoded from an integer in its range. -/
theorem Height.deserialize_eq_ok_iff {v : Value} {height : Height} :
    Height.deserialize v = .ok height ↔
      ∃ n, v = .number n ∧ n.toInt? = some (height.consensus.toNat : ℤ) := by
  simp only [Height.deserialize, bind_eq_ok_iff]
  constructor
  · rintro ⟨u, hu, h⟩
    split at h
    · cases h
      exact asU32_eq_ok_iff.mp hu
    · cases h
  · intro hv
    -- the bound is one that every height has
    refine ⟨height.consensus, asU32_eq_ok_iff.mpr hv, ?_⟩
    rw [dif_pos height.lt_threshold]
    rfl

/-- An amount is decoded from a non-negative integer. -/
theorem Amount.asSat_eq_ok_iff {v : Value} {amount : Amount} :
    Amount.asSat v = .ok amount ↔ v = .number (.posInt amount.sat) := by
  rw [Amount.asSat, map_eq_ok_iff]
  constructor
  · rintro ⟨n, hn, rfl⟩
    exact asU64_eq_ok_iff.mp hn
  · intro hv
    exact ⟨amount.sat, asU64_eq_ok_iff.mpr hv, rfl⟩

/-- The heights 0 and -1 decode, and no others. -/
theorem allInputsConfirmed_eq_ok_iff {v : Value} {b : Bool} :
    CustomSerde.allInputsConfirmedBoolFromHeight v = .ok b ↔
      ∃ n, v = .number n ∧ n.toInt? = some (if b then 0 else -1) := by
  simp only [CustomSerde.allInputsConfirmedBoolFromHeight, bind_eq_ok_iff, asI64_eq_ok_iff]
  constructor
  · rintro ⟨height, ⟨n, rfl, hn⟩, h⟩
    refine ⟨n, rfl, ?_⟩
    -- the heights 0 and -1 are told apart, and no other one is accepted
    split at h
    next hzero =>
      cases h
      rw [hn, hzero]
      rfl
    next =>
      split at h
      next hneg =>
        cases h
        rw [hn, hneg]
        rfl
      next => cases h
  · rintro ⟨n, rfl, hn⟩
    cases b with
    | true => exact ⟨0, ⟨n, rfl, hn⟩, rfl⟩
    | false => exact ⟨-1, ⟨n, rfl, hn⟩, rfl⟩

variable [Bitcoin]

def MempoolTx.deserialize : Value → Except Error MempoolTx
  | .object ms => do
    let txid ← field "tx_hash" Bitcoin.asTxid ms
    let fee ← field "fee" Amount.asSat ms
    let confirmedInputs ← field "height" CustomSerde.allInputsConfirmedBoolFromHeight ms
    return { txid, fee, confirmedInputs }
  -- a derived decoder takes the fields in order as well
  | .array [v₀, v₁, v₂] => do
    let txid ← Bitcoin.asTxid v₀
    let fee ← Amount.asSat v₁
    let confirmedInputs ← CustomSerde.allInputsConfirmedBoolFromHeight v₂
    return { txid, fee, confirmedInputs }
  | .array vs => .error (.invalidLength vs.length)
  | _ => .error (.invalidType "struct MempoolTx")

def ConfirmedTx.deserialize : Value → Except Error ConfirmedTx
  | .object ms => do
    let txid ← field "tx_hash" Bitcoin.asTxid ms
    let height ← field "height" Height.deserialize ms
    return { txid, height }
  | .array [v₀, v₁] => do
    let txid ← Bitcoin.asTxid v₀
    let height ← Height.deserialize v₁
    return { txid, height }
  | .array vs => .error (.invalidLength vs.length)
  | _ => .error (.invalidType "struct ConfirmedTx")

instance : Deserialize MempoolTx where
  deserialize := MempoolTx.deserialize

instance : Deserialize ConfirmedTx where
  deserialize := ConfirmedTx.deserialize

/-- An entry is unconfirmed if it decodes as such, else confirmed. -/
instance : Deserialize Tx where
  deserialize :=
    untagged "Tx"
      (fun v => Tx.mempool <$> MempoolTx.deserialize v)
      (fun v => Tx.confirmed <$> ConfirmedTx.deserialize v)

instance : Deserialize (Request.Response Request.GetHistory) :=
  inferInstanceAs (Deserialize (List Tx))

instance : Deserialize (Request.Response Request.GetMempool) :=
  inferInstanceAs (Deserialize (List MempoolTx))

namespace Tx

def txid : Tx → Bitcoin.Txid
  | mempool tx => tx.txid
  | confirmed tx => tx.txid

def confirmationHeight : Tx → Option Height
  | mempool _ => none
  | confirmed tx => some tx.height

def electrumHeight : Tx → Int64
  | mempool tx => if tx.confirmedInputs then 0 else -1
  | confirmed tx => Int64.ofNat tx.height.consensus.toNat

/-- An unconfirmed transaction is at height 0, or at -1 if it spends unconfirmed outputs. -/
theorem toInt_electrumHeight_mempool (tx : MempoolTx) :
    (mempool tx).electrumHeight.toInt = if tx.confirmedInputs then 0 else -1 := by
  show (if tx.confirmedInputs then (0 : Int64) else -1).toInt = _
  cases tx.confirmedInputs <;> rfl

/-- A confirmed transaction is at the height of its block. -/
theorem toInt_electrumHeight_confirmed (tx : ConfirmedTx) :
    (confirmed tx).electrumHeight.toInt = tx.height.consensus.toNat := by
  have hlt := tx.height.lt_threshold
  -- heights are far below the bound of an `i64`
  apply Int64.toInt_ofNat_of_lt
  omega

end Tx

/-! ## What was sent -/

/-- The hash and the height of an entry as the server sent them. -/
def rawEntry : Value → Option (Value × Value)
  | .object ms => do
    let txHash ← onlyMember "tx_hash" ms
    let height ← onlyMember "height" ms
    return (txHash, height)
  | .array [txHash, height] => some (txHash, height)
  | .array [txHash, _, height] => some (txHash, height)
  | _ => none

omit [Bitcoin] in
/-- The entry of an object has its only id and its only height. -/
theorem rawEntry_object_eq_some_iff {ms : Members} {txHash height : Value} :
    rawEntry (.object ms) = some (txHash, height) ↔
      onlyMember "tx_hash" ms = some txHash ∧ onlyMember "height" ms = some height := by
  simp [rawEntry, Option.bind_eq_some_iff]

/-- The object has one fee, which is a `u64`. -/
def HasFee (ms : Members) : Prop :=
  ∃ n, onlyMember "fee" ms = some (.number (.posInt n))

/-- What an unconfirmed transaction decodes from. -/
theorem MempoolTx.rawEntry_of_deserialize {v : Value} {tx : MempoolTx}
    (h : MempoolTx.deserialize v = .ok tx) :
    ∃ txHash height, rawEntry v = some (txHash, height) ∧ Bitcoin.asTxid txHash = .ok tx.txid ∧
      CustomSerde.allInputsConfirmedBoolFromHeight height = .ok tx.confirmedInputs := by
  unfold MempoolTx.deserialize at h
  split at h
  · simp only [bind_eq_ok_iff, pure_eq_ok_iff, field_eq_ok_iff] at h
    obtain ⟨txid, ⟨txHash, htxHash, htxid⟩, -, -, confirmed, ⟨height, hheight, hconf⟩, rfl⟩ := h
    exact ⟨txHash, height, rawEntry_object_eq_some_iff.mpr ⟨htxHash, hheight⟩, htxid, hconf⟩
  · simp only [bind_eq_ok_iff, pure_eq_ok_iff] at h
    obtain ⟨txid, htxid, -, -, confirmed, hconf, rfl⟩ := h
    exact ⟨_, _, rfl, htxid, hconf⟩
  · cases h
  · cases h

/-- What a confirmed transaction decodes from. -/
theorem ConfirmedTx.rawEntry_of_deserialize {v : Value} {tx : ConfirmedTx}
    (h : ConfirmedTx.deserialize v = .ok tx) :
    ∃ txHash height, rawEntry v = some (txHash, height) ∧ Bitcoin.asTxid txHash = .ok tx.txid ∧
      Height.deserialize height = .ok tx.height := by
  unfold ConfirmedTx.deserialize at h
  split at h
  · simp only [bind_eq_ok_iff, pure_eq_ok_iff, field_eq_ok_iff] at h
    obtain ⟨txid, ⟨txHash, htxHash, htxid⟩, height, ⟨v, hv, hheight⟩, rfl⟩ := h
    exact ⟨txHash, v, rawEntry_object_eq_some_iff.mpr ⟨htxHash, hv⟩, htxid, hheight⟩
  · simp only [bind_eq_ok_iff, pure_eq_ok_iff] at h
    obtain ⟨txid, htxid, height, hheight, rfl⟩ := h
    exact ⟨_, _, rfl, htxid, hheight⟩
  · cases h
  · cases h

/-- An entry is of a confirmed transaction only if it is of no unconfirmed one. -/
theorem Tx.deserialize_eq_ok_iff {v : Value} {tx : Tx} :
    Deserialize.deserialize v = .ok tx ↔
      (∃ mempoolTx, MempoolTx.deserialize v = .ok mempoolTx ∧ mempool mempoolTx = tx) ∨
        (∀ mempoolTx, MempoolTx.deserialize v ≠ .ok mempoolTx) ∧
          ∃ confirmedTx, ConfirmedTx.deserialize v = .ok confirmedTx ∧
            confirmed confirmedTx = tx := by
  show untagged _ _ _ v = .ok tx ↔ _
  rw [untagged_eq_ok_iff, map_eq_ok_iff, map_eq_ok_iff]
  -- the fallback is reached if the first decoder fails, whatever the error is
  apply or_congr_right
  apply and_congr_left
  intro _
  cases MempoolTx.deserialize v <;> simp [Functor.map, Except.map]

/-- A decoded entry has the hash that was sent, and its Electrum height is the one that was
sent. -/
theorem Tx.rawEntry_of_deserialize {v : Value} {tx : Tx}
    (h : Deserialize.deserialize v = .ok tx) :
    ∃ txHash n, rawEntry v = some (txHash, .number n) ∧ Bitcoin.asTxid txHash = .ok tx.txid ∧
      n.toInt? = some tx.electrumHeight.toInt := by
  rcases Tx.deserialize_eq_ok_iff.mp h with ⟨tx, htx, rfl⟩ | ⟨-, tx, htx, rfl⟩
  · obtain ⟨txHash, height, hraw, htxid, hconf⟩ := MempoolTx.rawEntry_of_deserialize htx
    obtain ⟨n, rfl, hn⟩ := allInputsConfirmed_eq_ok_iff.mp hconf
    rw [← toInt_electrumHeight_mempool] at hn
    exact ⟨txHash, n, hraw, htxid, hn⟩
  · obtain ⟨txHash, height, hraw, htxid, hheight⟩ := ConfirmedTx.rawEntry_of_deserialize htx
    obtain ⟨n, rfl, hn⟩ := Height.deserialize_eq_ok_iff.mp hheight
    rw [← toInt_electrumHeight_confirmed] at hn
    exact ⟨txHash, n, hraw, htxid, hn⟩

/-! ## What is reported -/

/-- The transaction is reported with the height `h` that was sent: as confirmed at `h` if that is
positive, as unconfirmed if it is 0 or -1. -/
structure ReportedAsSent (tx : Tx) (h : ℤ) : Prop where
  electrumHeight_eq : tx.electrumHeight.toInt = h
  confirmed_iff :
    (∃ height, tx.confirmationHeight = some height ∧ (height.consensus.toNat : ℤ) = h) ↔ 0 < h
  unconfirmed_iff : tx.confirmationHeight = none ↔ h = 0 ∨ h = -1

/-- An object with a height of 0 or -1, a transaction id and a fee is unconfirmed. -/
theorem MempoolTx.exists_deserialize_object {ms : Members} {txHash : Value} {txid : Bitcoin.Txid}
    {n : Number} {b : Bool} (htxHash : onlyMember "tx_hash" ms = some txHash)
    (htxid : Bitcoin.asTxid txHash = .ok txid) (hfee : HasFee ms)
    (hheight : onlyMember "height" ms = some (.number n))
    (hn : n.toInt? = some (if b then 0 else -1)) :
    ∃ tx, MempoolTx.deserialize (.object ms) = .ok tx := by
  obtain ⟨fee, hfee⟩ := hfee
  refine ⟨{ txid, fee := { sat := fee }, confirmedInputs := b }, ?_⟩
  simp only [MempoolTx.deserialize, bind_eq_ok_iff, field_eq_ok_iff]
  refine ⟨txid, ⟨txHash, htxHash, htxid⟩, { sat := fee }, ⟨_, hfee, ?_⟩, b, ⟨_, hheight, ?_⟩, rfl⟩
  · exact Amount.asSat_eq_ok_iff.mpr rfl
  · exact allInputsConfirmed_eq_ok_iff.mpr ⟨n, rfl, hn⟩

/-- An unconfirmed transaction has a fee. -/
theorem MempoolTx.hasFee {ms : Members} {tx : MempoolTx}
    (h : MempoolTx.deserialize (.object ms) = .ok tx) : HasFee ms := by
  simp only [MempoolTx.deserialize, bind_eq_ok_iff, field_eq_ok_iff] at h
  obtain ⟨-, -, fee, ⟨v, hv, hfee⟩, -⟩ := h
  rw [Amount.asSat_eq_ok_iff] at hfee
  subst hfee
  exact ⟨fee.sat, hv⟩

/-- An unconfirmed transaction is reported as sent. -/
theorem reportedAsSent_mempool {tx : MempoolTx} {h : ℤ}
    (hheight : (Tx.mempool tx).electrumHeight.toInt = h) : ReportedAsSent (.mempool tx) h := by
  -- no other heights decode as unconfirmed
  have hcases : h = 0 ∨ h = -1 := by
    rw [Tx.toInt_electrumHeight_mempool] at hheight
    cases hconf : tx.confirmedInputs
    · right
      simpa [hconf] using hheight.symm
    · left
      simpa [hconf] using hheight.symm
  refine { electrumHeight_eq := hheight, confirmed_iff := ?_, unconfirmed_iff := ?_ }
  · constructor
    · rintro ⟨height, hnone, -⟩
      cases hnone
    · intro hpos
      omega
  · exact iff_of_true rfl hcases

/-- A confirmed transaction is reported as sent unless the height that was sent is 0. -/
theorem reportedAsSent_confirmed_iff {tx : ConfirmedTx} {h : ℤ}
    (hheight : (Tx.confirmed tx).electrumHeight.toInt = h) :
    ReportedAsSent (.confirmed tx) h ↔ h ≠ 0 := by
  have hconsensus := hheight
  rw [Tx.toInt_electrumHeight_confirmed] at hconsensus
  constructor
  · intro hreported hzero
    -- it comes with a height, which would have to be positive
    have hpos := hreported.confirmed_iff.mp ⟨tx.height, rfl, hconsensus⟩
    omega
  · intro hne
    refine { electrumHeight_eq := hheight, confirmed_iff := ?_, unconfirmed_iff := ?_ }
    · apply iff_of_true ⟨tx.height, rfl, hconsensus⟩
      omega
    · apply iff_of_false
      · intro hnone
        cases hnone
      · omega

/-- A decoded object is reported with the height that was sent exactly if that height is not 0 or
the object has a fee. -/
theorem reportedAsSent_iff {ms : Members} {tx : Tx} {n : Number} {h : ℤ}
    (hdecode : Deserialize.deserialize (.object ms) = .ok tx)
    (hmember : onlyMember "height" ms = some (.number n)) (hn : n.toInt? = some h) :
    ReportedAsSent tx h ↔ (h = 0 → HasFee ms) := by
  obtain ⟨txHash, n', hraw, htxid, hheight⟩ := Tx.rawEntry_of_deserialize hdecode
  obtain ⟨htxHash, hheightMember⟩ := rawEntry_object_eq_some_iff.mp hraw
  rw [hmember, Option.some.injEq, Value.number.injEq] at hheightMember
  subst hheightMember
  rw [hn, Option.some.injEq] at hheight
  -- as what the object was decoded decides how it is reported
  rcases Tx.deserialize_eq_ok_iff.mp hdecode with ⟨tx, htx, rfl⟩ | ⟨hnotMempool, tx, htx, rfl⟩
  · apply iff_of_true (reportedAsSent_mempool hheight.symm)
    intro _
    exact MempoolTx.hasFee htx
  · rw [reportedAsSent_confirmed_iff hheight.symm]
    constructor
    · intro hne hzero
      exact absurd hzero hne
    · intro hfee hzero
      -- with a fee the entry would have been decoded as unconfirmed
      have hzero' : n.toInt? = some (if true then 0 else -1) := by
        rw [hn, hzero]
        rfl
      obtain ⟨mempoolTx, hmempool⟩ :=
        MempoolTx.exists_deserialize_object htxHash htxid (hfee hzero) hmember hzero'
      exact hnotMempool mempoolTx hmempool

/-- A transaction id. -/
def zeroTxid : Bytes 32 := Bytes.zeros 32

/-- An entry of that transaction with a height of 0 and some more members. -/
def zeroHeightEntry (more : Members) : Members :=
  ("tx_hash", .string zeroTxid.toHex) :: ("height", .number (.posInt 0)) :: more

omit [Bitcoin] in
/-- The id of zeros is decoded. -/
theorem asTxid_zeroTxid : byteBitcoin.asTxid (.string zeroTxid.toHex) = .ok zeroTxid := by
  show Bytes.reverse <$> Bytes.ofValue 32 (.string zeroTxid.toHex) = _
  rw [Bytes.ofValue_toHex]
  rfl

/-- That transaction with a fee, in the mempool. -/
def zeroHeightTx : @Tx byteBitcoin :=
  letI : Bitcoin := byteBitcoin
  .mempool { txid := zeroTxid, fee := { sat := 500 }, confirmedInputs := true }

omit [Bitcoin] in
/-- The entry with a fee is of an unconfirmed transaction. -/
theorem deserialize_zeroHeightEntry :
    letI : Bitcoin := byteBitcoin
    Deserialize.deserialize (.object (zeroHeightEntry [("fee", .number (.posInt 500))])) =
      .ok zeroHeightTx := by
  let _ : Bitcoin := byteBitcoin
  have hconf : CustomSerde.allInputsConfirmedBoolFromHeight (.number (.posInt 0)) = .ok true :=
    allInputsConfirmed_eq_ok_iff.mpr ⟨.posInt 0, rfl, rfl⟩
  rw [Tx.deserialize_eq_ok_iff]
  refine Or.inl ⟨{ txid := zeroTxid, fee := { sat := 500 }, confirmedInputs := true }, ?_, rfl⟩
  simp only [MempoolTx.deserialize, bind_eq_ok_iff, field_eq_ok_iff]
  exact ⟨zeroTxid, ⟨_, rfl, asTxid_zeroTxid⟩, { sat := 500 }, ⟨_, rfl, rfl⟩, true,
    ⟨_, rfl, hconf⟩, rfl⟩

omit [Bitcoin] in
/-- With its fee the transaction is reported as unconfirmed. -/
theorem reportedAsSent_iff_fee :
    letI : Bitcoin := byteBitcoin
    ReportedAsSent zeroHeightTx 0 := by
  let _ : Bitcoin := byteBitcoin
  apply (reportedAsSent_iff deserialize_zeroHeightEntry rfl rfl).mpr
  intro _
  exact ⟨500, rfl⟩

omit [Bitcoin] in
/-- Without a fee it is reported as confirmed at the height 0. -/
theorem not_reportedAsSent_zero :
    letI : Bitcoin := byteBitcoin
    onlyMember "height" (zeroHeightEntry []) = some (.number (.posInt 0)) ∧
      ∃ tx, Deserialize.deserialize (.object (zeroHeightEntry [])) = .ok tx ∧
        tx.confirmationHeight = some { consensus := 0, lt_threshold := by decide } ∧
        ¬ ReportedAsSent tx 0 := by
  let _ : Bitcoin := byteBitcoin
  let tx : ConfirmedTx :=
    { txid := zeroTxid, height := { consensus := 0, lt_threshold := by decide } }
  refine ⟨rfl, .confirmed tx, ?_, rfl, ?_⟩
  · rw [Tx.deserialize_eq_ok_iff]
    refine Or.inr ⟨?_, tx, ?_, rfl⟩
    · -- without a fee the first decoder fails
      intro mempoolTx hmempool
      obtain ⟨fee, hfee⟩ := MempoolTx.hasFee hmempool
      cases hfee
    · simp only [ConfirmedTx.deserialize, bind_eq_ok_iff, field_eq_ok_iff]
      have hheight : Height.deserialize (.number (.posInt 0)) = .ok tx.height :=
        Height.deserialize_eq_ok_iff.mpr ⟨.posInt 0, rfl, rfl⟩
      exact ⟨zeroTxid, ⟨_, rfl, asTxid_zeroTxid⟩, tx.height, ⟨_, rfl, hheight⟩, rfl⟩
  · intro hreported
    have hpos := hreported.confirmed_iff.mp ⟨_, rfl, rfl⟩
    exact absurd hpos (by decide)

end ElectrumStreamingClient
