import ElectrumStreamingClient.Foundations.Hex
import ElectrumStreamingClient.Protocol.Bitcoin

/-!
# Hashes

The hash functions of the `bitcoin` crate and what the client needs to know of its hash types: they
are newtypes of their bytes. `byteBitcoin` is an instance of the parameters in which every type is
its bytes, written as hexadecimal text in JSON; the hash functions remain parameters.
-/

namespace ElectrumStreamingClient

open Serde

/-- A hash engine: the bytes it was fed. -/
structure HashEngine where
  fed : List UInt8

namespace HashEngine

/-- `Hash::engine`. -/
def new : HashEngine := { fed := [] }

/-- `HashEngine::input`. -/
def input (engine : HashEngine) (bytes : List UInt8) : HashEngine :=
  { fed := engine.fed ++ bytes }

@[simp] theorem fed_new : new.fed = [] := rfl

@[simp] theorem fed_input (engine : HashEngine) (bytes : List UInt8) :
    (engine.input bytes).fed = engine.fed ++ bytes := rfl

end HashEngine

/-- The hash functions of the `bitcoin` crate and the conversions between its hash types. -/
class Hashes [Bitcoin] where
  /-- `TxMerkleNode`. -/
  TxMerkleNode : Type
  sha256 : List UInt8 → Bitcoin.Sha256
  sha256d : List UInt8 → Bitcoin.DoubleSHA
  /-- The bytes of a hash, as `AsRef` shows them. -/
  bytes : Bitcoin.DoubleSHA → List UInt8
  /-- `Txid::to_raw_hash`. -/
  toRawHash : Bitcoin.Txid → Bitcoin.DoubleSHA
  /-- `TxMerkleNode::from_raw_hash`. -/
  ofRawHash : Bitcoin.DoubleSHA → TxMerkleNode

/-- A `sha256d::Hash` is its 32 bytes, and the other types are newtypes of it. -/
class LawfulHashes [Bitcoin] [Hashes] : Prop where
  length_bytes (hash : Bitcoin.DoubleSHA) : (Hashes.bytes hash).length = 32
  bytes_injective : Function.Injective (Hashes.bytes : Bitcoin.DoubleSHA → List UInt8)
  toRawHash_injective : Function.Injective (Hashes.toRawHash : Bitcoin.Txid → Bitcoin.DoubleSHA)
  ofRawHash_injective :
    Function.Injective (Hashes.ofRawHash : Bitcoin.DoubleSHA → Hashes.TxMerkleNode)

/-! ## Byte strings -/

/-- Byte strings of one length. -/
def Bytes (n : ℕ) : Type := { bytes : List UInt8 // bytes.length = n }

/-- All bits clear. -/
def Bytes.zeros (n : ℕ) : Bytes n := ⟨List.replicate n 0, List.length_replicate⟩

/-- Byte strings of length `n` from hexadecimal text, in either case. -/
def Bytes.ofHex? (n : ℕ) (text : List Char) : Option (Bytes n) :=
  (Hex.decode text).bind fun bytes => if h : bytes.length = n then some ⟨bytes, h⟩ else none

/-- The bytes in the opposite order. -/
def Bytes.reverse {n : ℕ} (bytes : Bytes n) : Bytes n :=
  ⟨bytes.1.reverse, by rw [List.length_reverse, bytes.2]⟩

/-- Lower-case hexadecimal text. -/
def Bytes.toHex {n : ℕ} (bytes : Bytes n) : String :=
  String.ofList (Hex.encode bytes.1)

/-- Decode a string of hexadecimal text. -/
def Bytes.ofValue (n : ℕ) : Value → Except Error (Bytes n)
  | .string s =>
    match ofHex? n s.toList with
    | some bytes => .ok bytes
    | none => .error (.custom "invalid hex string")
  | _ => .error (.invalidType "a hex string")

/-- Bytes of a fixed number are read from as many pairs of digits. -/
theorem Bytes.ofHex?_eq_some_iff {n : ℕ} {text : List Char} {bytes : Bytes n} :
    ofHex? n text = some bytes ↔ Hex.decode text = some bytes.1 := by
  rw [ofHex?, Option.bind_eq_some_iff]
  constructor
  · rintro ⟨bs, hbs, h⟩
    split at h
    · cases h
      exact hbs
    · cases h
  · intro h
    exact ⟨bytes.1, h, dif_pos bytes.2⟩

/-- Bytes are decoded from a string of their digits. -/
theorem Bytes.ofValue_eq_ok_iff {n : ℕ} {v : Value} {bytes : Bytes n} :
    ofValue n v = .ok bytes ↔ ∃ s, v = .string s ∧ Hex.decode s.toList = some bytes.1 := by
  simp only [← ofHex?_eq_some_iff]
  cases v with
  | string s =>
    simp only [ofValue, Value.string.injEq, exists_eq_left']
    cases ofHex? n s.toList <;> simp
  | _ => simp [ofValue]

/-- The digits of bytes determine them. -/
theorem Bytes.toHex_injective {n : ℕ} : Function.Injective (toHex : Bytes n → String) := by
  intro bytes bytes' h
  apply Subtype.ext
  exact Hex.encode_injective (String.ofList_injective h)

/-- What was read is written in lower case. -/
theorem Bytes.toHex_of_ofValue {n : ℕ} {v : Value} {bytes : Bytes n}
    (h : ofValue n v = .ok bytes) : ∃ s, v = .string s ∧ bytes.toHex = s.toLower := by
  obtain ⟨s, rfl, hs⟩ := ofValue_eq_ok_iff.mp h
  refine ⟨s, rfl, ?_⟩
  apply String.toList_injective
  -- the text that was read may have upper-case digits
  show _ = (s.map Char.toLower).toList
  rw [toHex, String.toList_ofList, Hex.encode_of_decode hs, String.toList_map]

/-- Bytes are read back from their text. -/
theorem Bytes.ofValue_toHex {n : ℕ} (bytes : Bytes n) :
    ofValue n (.string bytes.toHex) = .ok bytes := by
  rw [ofValue_eq_ok_iff]
  refine ⟨_, rfl, ?_⟩
  rw [toHex, String.toList_ofList, Hex.decode_encode]

/-- Bytes reversed twice are as they were. -/
@[simp] theorem Bytes.reverse_reverse {n : ℕ} (bytes : Bytes n) :
    bytes.reverse.reverse = bytes := by
  apply Subtype.ext
  exact List.reverse_reverse bytes.1

/-- Reversed bytes determine the bytes. -/
theorem Bytes.reverse_injective {n : ℕ} : Function.Injective (reverse : Bytes n → Bytes n) := by
  intro bytes bytes' h
  rw [← bytes.reverse_reverse, h, bytes'.reverse_reverse]

/-- A transaction id is read from a string of 64 digits, in either case, and is written as such a
string in lower case. -/
class LawfulTxid [Bitcoin] : Prop where
  exists_string {v : Value} {txid : Bitcoin.Txid} (h : Bitcoin.asTxid v = .ok txid) :
    ∃ s, v = .string s ∧ Bitcoin.txidToString txid = s.toLower
  exists_bytes (txid : Bitcoin.Txid) : ∃ bytes : Bytes 32, Bitcoin.txidToString txid = bytes.toHex
  txidToString_injective : Function.Injective (Bitcoin.txidToString : Bitcoin.Txid → String)

/-! ## Everything as bytes -/

/-- The parameters with every type as its bytes. -/
@[reducible] def byteBitcoin : Bitcoin where
  Header := Bytes 80
  Transaction := List UInt8
  Txid := Bytes 32
  BlockHash := Bytes 32
  Sha256 := Bytes 32
  DoubleSHA := Bytes 32
  SecretKey := Bytes 32
  PublicKey := Bytes 33
  serializeHex tx := String.ofList (Hex.encode tx)
  deserializeHexHeader s :=
    match Bytes.ofHex? 80 s.toList with
    | some header => .ok header
    | none => .error "invalid header"
  txidToString txid := txid.reverse.toHex
  scriptHashToString hash := hash.reverse.toHex
  secretKeyValue key := .string key.toHex
  publicKeyValue key := .string key.toHex
  asScriptHash v := Bytes.reverse <$> Bytes.ofValue 32 v
  asScriptStatus := Bytes.ofValue 32
  asTxid v := Bytes.reverse <$> Bytes.ofValue 32 v
  asPublicKey := Bytes.ofValue 33

/-- A header that is its bytes is decoded from their digits. -/
theorem deserializeHexHeader_byteBitcoin_iff {s : String} {header : Bytes 80} :
    byteBitcoin.deserializeHexHeader s = .ok header ↔ Hex.decode s.toList = some header.1 := by
  rw [← Bytes.ofHex?_eq_some_iff]
  simp only [Bitcoin.deserializeHexHeader]
  cases Bytes.ofHex? 80 s.toList <;> simp

/-- Its hashes, for any hash functions. -/
@[reducible] def byteHashes (sha256 sha256d : List UInt8 → Bytes 32) : @Hashes byteBitcoin :=
  letI : Bitcoin := byteBitcoin
  { TxMerkleNode := Bytes 32
    sha256 := sha256
    sha256d := sha256d
    bytes := Subtype.val
    toRawHash := id
    ofRawHash := id }

/-- Hashes that are their bytes are told apart by them. -/
theorem lawfulHashes_byteHashes (sha256 sha256d : List UInt8 → Bytes 32) :
    @LawfulHashes byteBitcoin (byteHashes sha256 sha256d) :=
  letI : Bitcoin := byteBitcoin
  letI : Hashes := byteHashes sha256 sha256d
  { length_bytes := fun hash => hash.2
    bytes_injective := Subtype.val_injective
    toRawHash_injective := Function.injective_id
    ofRawHash_injective := Function.injective_id }

/-- Ids that are their bytes are read from their digits, and shown as these. -/
theorem lawfulTxid_byteBitcoin : @LawfulTxid byteBitcoin :=
  letI : Bitcoin := byteBitcoin
  { exists_string := by
      intro v txid h
      obtain ⟨bytes, hbytes, rfl⟩ := map_eq_ok_iff.mp h
      obtain ⟨s, hs, hlower⟩ := Bytes.toHex_of_ofValue hbytes
      refine ⟨s, hs, ?_⟩
      -- an id is shown in the opposite order, and read in it
      show bytes.reverse.reverse.toHex = s.toLower
      rw [Bytes.reverse_reverse, hlower]
    exists_bytes := fun txid => ⟨txid.reverse, rfl⟩
    txidToString_injective := by
      intro txid txid' h
      exact Bytes.reverse_injective (Bytes.toHex_injective h) }

end ElectrumStreamingClient
