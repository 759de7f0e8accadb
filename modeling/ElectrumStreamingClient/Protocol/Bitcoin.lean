import ElectrumStreamingClient.Foundations.Serde

/-!
# What the client uses of the `bitcoin` crate

Block headers, transactions, hashes and keys are opaque to the client: it passes them between the
JSON values of the protocol and its callers through the conversions of the `bitcoin` crate, which
are the parameters of this development. The newtypes over its amounts are spelled out.
-/

namespace ElectrumStreamingClient

open Serde

/-- A `usize`, on a platform of 64 bits. -/
abbrev Usize := UInt64

/-- The types of the `bitcoin` crate and the conversions the client calls on them. -/
class Bitcoin where
  /-- `block::Header`. -/
  Header : Type
  Transaction : Type
  Txid : Type
  BlockHash : Type
  /-- `hashes::sha256::Hash`. -/
  Sha256 : Type
  /-- `hashes::sha256d::Hash`, used for Merkle branches and header proofs. -/
  DoubleSHA : Type
  SecretKey : Type
  PublicKey : Type
  /-- `consensus::encode::serialize_hex`. -/
  serializeHex : Transaction → String
  /-- `consensus::encode::deserialize_hex` to a header. -/
  deserializeHexHeader : String → Except String Header
  txidToString : Txid → String
  /-- The text of a script hash, which shows its bytes backward. -/
  scriptHashToString : Sha256 → String
  /-- The JSON value of a secret key. -/
  secretKeyValue : SecretKey → Value
  /-- The JSON value of a public key. -/
  publicKeyValue : PublicKey → Value
  /-- Decode a script hash, which shows its bytes backward. -/
  asScriptHash : Value → Except Error Sha256
  /-- Decode a script status, which shows its bytes forward. -/
  asScriptStatus : Value → Except Error Sha256
  asTxid : Value → Except Error Txid
  asPublicKey : Value → Except Error PublicKey

/-- An instance in which nothing decodes, for runs that call none of the conversions. -/
@[reducible] def bareBitcoin : Bitcoin where
  Header := Unit
  Transaction := Unit
  Txid := Unit
  BlockHash := Unit
  Sha256 := Unit
  DoubleSHA := Unit
  SecretKey := Unit
  PublicKey := Unit
  serializeHex _ := ""
  deserializeHexHeader _ := .error "no header"
  txidToString _ := ""
  scriptHashToString _ := ""
  secretKeyValue _ := .null
  publicKeyValue _ := .null
  asScriptHash _ := .error (.custom "no hash")
  asScriptStatus _ := .error (.custom "no hash")
  asTxid _ := .error (.custom "no hash")
  asPublicKey _ := .error (.custom "no key")

/-- An amount in satoshis. -/
structure Amount where
  sat : UInt64

/-- An amount in satoshis, with a sign. -/
structure SignedAmount where
  sat : Int64

/-- A fee rate in satoshis per 1000 weight units. -/
structure FeeRate where
  satPerKwu : UInt64

/-- A weight in weight units. -/
structure Weight where
  wu : UInt64

/-- A block height that is valid in a lock time. -/
structure Height where
  consensus : UInt32
  lt_threshold : consensus.toNat < 500000000

variable [Bitcoin]

/-- The hash of a script, as the Electrum protocol names scripts. -/
structure ElectrumScriptHash where
  hash : Bitcoin.Sha256

/-- The status of a script: a hash of its history. -/
structure ElectrumScriptStatus where
  hash : Bitcoin.Sha256

end ElectrumStreamingClient
