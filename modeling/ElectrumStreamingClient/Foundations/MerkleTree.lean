import Mathlib.Data.Set.Function
import Mathlib.Data.Nat.Notation

/-!
# Merkle trees

Merkle trees in which the last node of an odd level is paired with itself, over any operation that
combines two nodes. A tree is given by its leaves: `levelUp` is the level above a level, `root` what
is left at the top, and `branch` the siblings of the nodes on the way from a leaf to the root.

`climb` combines a node with the siblings of a branch. The two results are completeness
(`root_eq_climb`): the branch of a leaf climbs to the root; and binding (`climb_injOn`): two
branches of one length that climb from one place to one node are equal, unless two different pairs
on the way combine to the same node.
-/

namespace MerkleTree

variable {α : Type*} (combine : α → α → α)

/-! ## Trees -/

/-- The level above a level. -/
def levelUp : List α → List α
  | [] => []
  -- the last node of an odd level is paired with itself
  | [a] => [combine a a]
  | a :: b :: level => combine a b :: levelUp level

/-- The level above has a node for each two, and for an odd last one. -/
theorem length_levelUp (level : List α) :
    (levelUp combine level).length = (level.length + 1) / 2 := by
  induction level using levelUp.induct with
  | case1 => simp [levelUp]
  | case2 a => simp [levelUp]
  | case3 a b level ih =>
    simp only [levelUp, List.length_cons, ih]
    omega

/-- The node at the top of the tree over a level. -/
def root : List α → Option α
  | [] => none
  | [a] => some a
  | a :: b :: level => root (levelUp combine (a :: b :: level))
termination_by level => level.length
decreasing_by
  rw [length_levelUp]
  simp only [List.length_cons]
  omega

/-- The node a node is paired with: the last node of an odd level with itself. -/
def sibling (level : List α) (i : ℕ) : Option α :=
  if i % 2 = 0 then level[i + 1]? <|> level[i]? else level[i - 1]?

/-- The siblings of the nodes from place `i` of a level up to the root. -/
def branch : List α → ℕ → List α
  | [], _ => []
  | [_], _ => []
  | a :: b :: level, i =>
    (sibling (a :: b :: level) i).toList ++ branch (levelUp combine (a :: b :: level)) (i / 2)
termination_by level => level.length
decreasing_by
  rw [length_levelUp]
  simp only [List.length_cons]
  omega

/-- Two nodes in the order of their places, for a node at place `i` and its sibling. -/
def ordered (i : ℕ) (a sib : α) : α × α :=
  if i % 2 = 0 then (a, sib) else (sib, a)

/-- Combine a node at place `i` with the siblings of a branch. -/
def climb : ℕ → α → List α → α
  | _, a, [] => a
  | i, a, sib :: sibs =>
    let pair := ordered i a sib
    climb (i / 2) (combine pair.1 pair.2) sibs

/-! ## Completeness -/

/-- The parent of a node combines it with its sibling. -/
theorem getElem?_levelUp {level : List α} {i : ℕ} {a : α} (ha : level[i]? = some a) :
    ∃ sib, sibling level i = some sib ∧
      (levelUp combine level)[i / 2]? =
        some (combine (ordered i a sib).1 (ordered i a sib).2) := by
  induction level using levelUp.induct generalizing i with
  | case1 => simp at ha
  | case2 b =>
    -- the last node of an odd level
    obtain ⟨hi, rfl⟩ := List.getElem?_eq_some_iff.mp ha
    have hzero : i = 0 := by simpa using hi
    subst hzero
    exact ⟨b, rfl, rfl⟩
  | case3 b c level ih =>
    match i with
    | 0 =>
      cases ha
      exact ⟨c, rfl, rfl⟩
    | 1 =>
      cases ha
      exact ⟨b, rfl, rfl⟩
    | i + 2 =>
      obtain ⟨sib, hsib, hparent⟩ := ih (i := i) ha
      have hparity : (i + 2) % 2 = i % 2 := by omega
      have hhalf : (i + 2) / 2 = i / 2 + 1 := by omega
      refine ⟨sib, ?_, ?_⟩
      · rw [← hsib]
        simp only [sibling, hparity]
        -- one to the left of an odd place is still behind the first two nodes
        rcases Nat.mod_two_eq_zero_or_one i with heven | hodd
        · simp [heven]
        · obtain ⟨j, rfl⟩ : ∃ j, i = j + 1 := ⟨i - 1, by omega⟩
          simp [hodd]
      · rw [hhalf, levelUp, List.getElem?_cons_succ, hparent]
        simp only [ordered, hparity]

/-- The branch of a leaf climbs to the root. -/
theorem root_eq_climb {level : List α} {i : ℕ} {a : α} (ha : level[i]? = some a) :
    root combine level = some (climb combine i a (branch combine level i)) := by
  -- over the levels: the parent of a node is a leaf of the tree over the level above
  induction level, i using branch.induct combine generalizing a with
  | case1 i => simp at ha
  | case2 i b =>
    obtain ⟨hi, rfl⟩ := List.getElem?_eq_some_iff.mp ha
    simp [root, branch, climb]
  | case3 b c level i ih =>
    obtain ⟨sib, hsib, hparent⟩ := getElem?_levelUp combine ha
    rw [root, branch, hsib, ih hparent]
    rfl

/-! ## Binding -/

/-- The pairs that are combined while climbing, from the bottom up. -/
def climbed : ℕ → α → List α → List (α × α)
  | _, _, [] => []
  | i, a, sib :: sibs =>
    let pair := ordered i a sib
    pair :: climbed (i / 2) (combine pair.1 pair.2) sibs

theorem ordered_inj {i : ℕ} {a sib a' sib' : α} :
    ordered i a sib = ordered i a' sib' ↔ a = a' ∧ sib = sib' := by
  unfold ordered
  split
  · rw [Prod.mk.injEq]
  · rw [Prod.mk.injEq, and_comm]

/-- Climbing from one place is injective in the node and the branch, as far as combining is
injective on the pairs that are met. -/
theorem climb_injOn {i : ℕ} {a a' : α} {sibs sibs' : List α} (hlength : sibs.length = sibs'.length)
    (hinj : Set.InjOn (fun pair : α × α => combine pair.1 pair.2)
      {pair | pair ∈ climbed combine i a sibs ∨ pair ∈ climbed combine i a' sibs'})
    (hclimb : climb combine i a sibs = climb combine i a' sibs') : a = a' ∧ sibs = sibs' := by
  -- over both branches at once, which have one length
  induction sibs generalizing i a a' sibs' with
  | nil =>
    cases sibs' with
    | nil => exact ⟨hclimb, rfl⟩
    | cons sib' sibs' => cases hlength
  | cons sib sibs ih =>
    cases sibs' with
    | nil => cases hlength
    | cons sib' sibs' =>
      -- from the top down: the parents are equal, so the pairs are
      obtain ⟨hparent, rfl⟩ := ih (by simpa using hlength)
        (hinj.mono fun pair => Or.imp (List.mem_cons_of_mem _) (List.mem_cons_of_mem _)) hclimb
      have hpair := hinj (.inl List.mem_cons_self) (.inr List.mem_cons_self) hparent
      obtain ⟨rfl, rfl⟩ := ordered_inj.mp hpair
      exact ⟨rfl, rfl⟩

end MerkleTree
