import ElectrumStreamingClient.Foundations.MerkleTree
import ElectrumStreamingClient.Protocol.Hashes
import ElectrumStreamingClient.Protocol.Response

/-!
# Merkle proofs of transactions

`TxMerkle::expected_merkle_root` (`response.rs`): the root that a Merkle branch leads to from a
transaction id. Its loop climbs the tree of the library with the double hash of two concatenated
nodes, so the branch of a transaction leads to the root of its block, and two proofs of one position
and depth that lead to the same root are of the same transaction.
-/

namespace ElectrumStreamingClient

open Serde MerkleTree

variable [Bitcoin] [Hashes]

namespace TxMerkle

/-- The engine that is fed in a round of the loop: which of the two hashes comes first is decided
by the index. -/
def engine (index : Usize) (cur nextHash : Bitcoin.DoubleSHA) : HashEngine :=
  -- an even place is the left one of its pair
  if index % 2 = 0 then
    (HashEngine.new.input (Hashes.bytes cur)).input (Hashes.bytes nextHash)
  else
    (HashEngine.new.input (Hashes.bytes nextHash)).input (Hashes.bytes cur)

/-- A round of the loop over the branch. -/
def round (state : Usize × Bitcoin.DoubleSHA) (nextHash : Bitcoin.DoubleSHA) :
    Usize × Bitcoin.DoubleSHA :=
  let (index, cur) := state
  (index / 2, Hashes.sha256d (engine index cur nextHash).fed)

/-- `TxMerkle::expected_merkle_root`. -/
def expectedMerkleRoot (proof : TxMerkle) (txid : Bitcoin.Txid) : Hashes.TxMerkleNode :=
  Hashes.ofRawHash (proof.merkle.foldl round (proof.pos, Hashes.toRawHash txid)).2

/-- What is hashed in the rounds of the loop, in order. -/
def hashed (index : Usize) (cur : Bitcoin.DoubleSHA) : List Bitcoin.DoubleSHA → List (List UInt8)
  | [] => []
  | nextHash :: rest =>
    (engine index cur nextHash).fed ::
      hashed (round (index, cur) nextHash).1 (round (index, cur) nextHash).2 rest

/-- The inner node over two nodes. -/
def hashPair (left right : Bitcoin.DoubleSHA) : Bitcoin.DoubleSHA :=
  Hashes.sha256d (Hashes.bytes left ++ Hashes.bytes right)

/-! ## The loop climbs the tree -/

/-- A round hashes the node and its sibling in the order of their places. -/
theorem fed_engine (index : Usize) (cur nextHash : Bitcoin.DoubleSHA) :
    (engine index cur nextHash).fed =
      Hashes.bytes (ordered index.toNat cur nextHash).1 ++
        Hashes.bytes (ordered index.toNat cur nextHash).2 := by
  -- the library counts places by natural numbers
  have hparity : index % 2 = 0 ↔ index.toNat % 2 = 0 := by
    rw [← UInt64.toNat_inj, UInt64.toNat_mod]
    rfl
  unfold engine ordered
  split
  next heven =>
    rw [if_pos (hparity.mp heven)]
    simp
  next hodd =>
    rw [if_neg fun heven => hodd (hparity.mpr heven)]
    simp

/-- The loop climbs the tree. -/
theorem foldl_round (merkle : List Bitcoin.DoubleSHA) (index : Usize) (cur : Bitcoin.DoubleSHA) :
    (merkle.foldl round (index, cur)).2 = climb hashPair index.toNat cur merkle := by
  induction merkle generalizing index cur with
  | nil => rfl
  | cons nextHash rest ih =>
    -- halving the index goes up a level
    have hhalf : (index / 2).toNat = index.toNat / 2 := UInt64.toNat_div index 2
    rw [List.foldl_cons, round, ih, hhalf, fed_engine]
    rfl

/-- What is hashed in the rounds are the pairs on the way up. -/
theorem hashed_eq (merkle : List Bitcoin.DoubleSHA) (index : Usize) (cur : Bitcoin.DoubleSHA) :
    hashed index cur merkle =
      (climbed hashPair index.toNat cur merkle).map fun pair =>
        Hashes.bytes pair.1 ++ Hashes.bytes pair.2 := by
  induction merkle generalizing index cur with
  | nil => rfl
  | cons nextHash rest ih =>
    have hhalf : (index / 2).toNat = index.toNat / 2 := UInt64.toNat_div index 2
    simp only [hashed, round, climbed, List.map_cons, ih, hhalf, fed_engine]
    rfl

/-- The expected root is what the climb from the transaction id leads to. -/
theorem expectedMerkleRoot_eq (proof : TxMerkle) (txid : Bitcoin.Txid) :
    proof.expectedMerkleRoot txid =
      Hashes.ofRawHash (climb hashPair proof.pos.toNat (Hashes.toRawHash txid) proof.merkle) := by
  rw [expectedMerkleRoot, foldl_round]

/-! ## Completeness -/

/-- The branch of a transaction of a block leads to the Merkle root of the block. The root of a
block of one transaction is that transaction, with an empty branch. -/
theorem expectedMerkleRoot_branch (txids : List Bitcoin.Txid) (proof : TxMerkle)
    (txid : Bitcoin.Txid) (htxid : txids[proof.pos.toNat]? = some txid)
    (hmerkle : proof.merkle =
      branch hashPair (txids.map Hashes.toRawHash) proof.pos.toNat) :
    (root hashPair (txids.map Hashes.toRawHash)).map Hashes.ofRawHash =
        some (proof.expectedMerkleRoot txid) ∧
      (txids.length = 1 → proof.merkle = [] ∧
        proof.expectedMerkleRoot txid = Hashes.ofRawHash (Hashes.toRawHash txid)) := by
  have hleaf : (txids.map Hashes.toRawHash)[proof.pos.toNat]? = some (Hashes.toRawHash txid) := by
    rw [List.getElem?_map, htxid, Option.map_some]
  constructor
  · rw [root_eq_climb hashPair hleaf, expectedMerkleRoot_eq, hmerkle]
    rfl
  · intro hlength
    -- a tree of one leaf has no level above it
    obtain ⟨only, rfl⟩ := List.length_eq_one_iff.mp hlength
    have hempty : proof.merkle = [] := by rw [hmerkle, List.map_singleton, branch]
    rw [expectedMerkleRoot_eq, hempty]
    exact ⟨rfl, rfl⟩

/-! ### A block of three transactions -/

/-- The id of a coinbase transaction. -/
def coinbase : Bytes 32 :=
  ⟨[130, 80, 28, 17, 120, 250, 11, 34, 44, 31, 61, 71, 78, 199, 38, 184, 50, 1, 63, 10, 83, 43, 68,
    187, 98, 12, 206, 134, 36, 165, 254, 177], rfl⟩

/-- The id of the payment in the block of that coinbase transaction. -/
def payment : Bytes 32 :=
  ⟨[22, 158, 30, 131, 233, 48, 133, 51, 145, 188, 111, 53, 246, 5, 198, 117, 76, 254, 173, 87, 207,
    131, 135, 99, 157, 59, 64, 150, 197, 79, 24, 244], rfl⟩

/-- The id of a transaction that no other one is next to. -/
def oddPayment : Bytes 32 :=
  ⟨[141, 212, 245, 251, 213, 233, 128, 252, 2, 243, 92, 108, 225, 69, 147, 91, 17, 226, 132, 96, 91,
    245, 153, 161, 60, 109, 65, 93, 181, 93, 7, 161], rfl⟩

/-- The node over the first two transactions, which is the root of a block of these two. -/
def blockRoot : Bytes 32 :=
  ⟨[255, 16, 76, 203, 5, 66, 26, 185, 62, 99, 248, 195, 206, 92, 44, 46, 157, 187, 55, 222, 39, 100,
    179, 163, 23, 92, 129, 102, 86, 44, 172, 125], rfl⟩

/-- The node over the odd transaction twice. -/
def oddNode : Bytes 32 :=
  ⟨[59, 162, 60, 222, 5, 207, 73, 51, 255, 141, 62, 251, 72, 19, 200, 50, 89, 35, 53, 180, 132, 16,
    2, 233, 199, 240, 28, 35, 58, 56, 44, 162], rfl⟩

/-- The Merkle root of the block of three transactions. -/
def oddBlockRoot : Bytes 32 :=
  ⟨[232, 35, 147, 120, 19, 33, 208, 201, 231, 140, 143, 52, 119, 18, 165, 167, 68, 2, 32, 117, 138,
    130, 51, 222, 175, 80, 33, 244, 13, 12, 82, 125], rfl⟩

/-- The double hash, as far as these blocks need it. -/
def blockSha256d (input : List UInt8) : Bytes 32 :=
  if input = coinbase.1 ++ payment.1 then blockRoot
  else if input = oddPayment.1 ++ oddPayment.1 then oddNode
  else if input = blockRoot.1 ++ oddNode.1 then oddBlockRoot
  else coinbase

omit [Bitcoin] [Hashes] in
/-- The first two transactions are hashed to the left node. -/
theorem blockSha256d_first : blockSha256d (coinbase.1 ++ payment.1) = blockRoot := by
  rw [blockSha256d, if_pos rfl]

omit [Bitcoin] [Hashes] in
/-- The odd transaction is hashed with itself. -/
theorem blockSha256d_odd : blockSha256d (oddPayment.1 ++ oddPayment.1) = oddNode := by
  rw [blockSha256d, if_neg (by decide), if_pos rfl]

omit [Bitcoin] [Hashes] in
/-- Both nodes are hashed to the root. -/
theorem blockSha256d_top : blockSha256d (blockRoot.1 ++ oddNode.1) = oddBlockRoot := by
  rw [blockSha256d, if_neg (by decide), if_neg (by decide), if_pos rfl]

/-- The proof of the payment in the block of two transactions. -/
def paymentProof : @TxMerkle byteBitcoin :=
  letI : Bitcoin := byteBitcoin
  { blockHeight := ⟨170, by decide⟩, merkle := [coinbase], pos := 1 }

/-- The proof of the odd transaction: it is its own sibling. -/
def oddPaymentProof : @TxMerkle byteBitcoin :=
  letI : Bitcoin := byteBitcoin
  { blockHeight := ⟨586, by decide⟩, merkle := [oddPayment, blockRoot], pos := 2 }

omit [Bitcoin] [Hashes] in
/-- The branch of the odd transaction leads to the root of its block. -/
theorem expectedMerkleRoot_branch_oddPayment :
    letI : Bitcoin := byteBitcoin
    letI : Hashes := byteHashes blockSha256d blockSha256d
    (root hashPair [coinbase, payment, oddPayment]).map Hashes.ofRawHash = some oddBlockRoot := by
  let _ : Bitcoin := byteBitcoin
  let _ : Hashes := byteHashes blockSha256d blockSha256d
  have hleft : hashPair coinbase payment = blockRoot := blockSha256d_first
  have hright : hashPair oddPayment oddPayment = oddNode := blockSha256d_odd
  have htop : hashPair blockRoot oddNode = oddBlockRoot := blockSha256d_top
  have hmerkle : oddPaymentProof.merkle = branch hashPair [coinbase, payment, oddPayment] 2 := by
    simp [branch, sibling, levelUp, oddPaymentProof, hleft]
  have hroot := (expectedMerkleRoot_branch [coinbase, payment, oddPayment] oddPaymentProof
    oddPayment rfl hmerkle).1
  -- two rounds: the odd transaction with itself, and that node on the right of the other
  have hclimb : climb hashPair 2 oddPayment [oddPayment, blockRoot] = oddBlockRoot := by
    simp [climb, ordered, hright, htop]
  have hpos : oddPaymentProof.pos.toNat = 2 := rfl
  refine hroot.trans ?_
  rw [expectedMerkleRoot_eq, hpos]
  exact congrArg some hclimb

/-! ## Binding -/

/-- The bytes of two hashes tell both apart. -/
theorem append_bytes_inj [LawfulHashes] {pair pair' : Bitcoin.DoubleSHA × Bitcoin.DoubleSHA}
    (h : Hashes.bytes pair.1 ++ Hashes.bytes pair.2 =
      Hashes.bytes pair'.1 ++ Hashes.bytes pair'.2) : pair = pair' := by
  have hlength : (Hashes.bytes pair.1).length = (Hashes.bytes pair'.1).length := by
    rw [LawfulHashes.length_bytes, LawfulHashes.length_bytes]
  obtain ⟨hleft, hright⟩ := List.append_inj h hlength
  apply Prod.ext
  · exact LawfulHashes.bytes_injective hleft
  · exact LawfulHashes.bytes_injective hright

/-- Two proofs of one position and one depth that lead to the same root are of the same transaction
and have the same branch, provided that `sha256d` does not collide on the 64-byte inputs that are
hashed on the way. -/
theorem expectedMerkleRoot_injOn [LawfulHashes] (proof proof' : TxMerkle)
    (txid txid' : Bitcoin.Txid) (hpos : proof.pos = proof'.pos)
    (hlength : proof.merkle.length = proof'.merkle.length)
    (hinj : Set.InjOn (Hashes.sha256d : List UInt8 → Bitcoin.DoubleSHA)
      {input | input ∈ hashed proof.pos (Hashes.toRawHash txid) proof.merkle ∨
        input ∈ hashed proof'.pos (Hashes.toRawHash txid') proof'.merkle})
    (hroot : proof.expectedMerkleRoot txid = proof'.expectedMerkleRoot txid') :
    txid = txid' ∧ proof.merkle = proof'.merkle := by
  -- both proofs climb from the same place
  rw [expectedMerkleRoot_eq, expectedMerkleRoot_eq, ← hpos] at hroot
  have hclimb := LawfulHashes.ofRawHash_injective hroot
  rw [← hpos, hashed_eq, hashed_eq] at hinj
  -- pairs of nodes are as far apart as the inputs they are hashed as
  have hpairs : Set.InjOn (fun pair : Bitcoin.DoubleSHA × Bitcoin.DoubleSHA =>
      hashPair pair.1 pair.2)
      {pair |
        pair ∈ climbed hashPair proof.pos.toNat (Hashes.toRawHash txid) proof.merkle ∨
        pair ∈ climbed hashPair proof.pos.toNat (Hashes.toRawHash txid') proof'.merkle} := by
    intro pair hpair pair' hpair' heq
    apply append_bytes_inj
    apply hinj _ _ heq
    · exact hpair.imp (List.mem_map_of_mem (f := _)) (List.mem_map_of_mem (f := _))
    · exact hpair'.imp (List.mem_map_of_mem (f := _)) (List.mem_map_of_mem (f := _))
  obtain ⟨htxid, hmerkle⟩ := climb_injOn hashPair hlength hpairs hclimb
  exact ⟨LawfulHashes.toRawHash_injective htxid, hmerkle⟩

omit [Bitcoin] [Hashes] in
/-- The proof of the payment is compared with one that claims another height. -/
theorem expectedMerkleRoot_injOn_payment :
    letI : Bitcoin := byteBitcoin
    letI : Hashes := byteHashes blockSha256d blockSha256d
    paymentProof.expectedMerkleRoot payment = blockRoot ∧ payment = payment ∧
      paymentProof.merkle =
        { paymentProof with blockHeight := ⟨171, by decide⟩ : TxMerkle }.merkle := by
  let _ : Bitcoin := byteBitcoin
  let _ : Hashes := byteHashes blockSha256d blockSha256d
  have _ : LawfulHashes := lawfulHashes_byteHashes blockSha256d blockSha256d
  have hroot : paymentProof.expectedMerkleRoot payment = blockRoot := by
    exact blockSha256d_first
  refine ⟨hroot, expectedMerkleRoot_injOn paymentProof
    { paymentProof with blockHeight := ⟨171, by decide⟩ } payment payment rfl rfl ?_ rfl⟩
  -- there is one round, and both hash the same
  rintro input (hinput | hinput) input' (hinput' | hinput') -
  all_goals
    rw [List.mem_singleton.mp hinput, List.mem_singleton.mp hinput']

end TxMerkle

end ElectrumStreamingClient
