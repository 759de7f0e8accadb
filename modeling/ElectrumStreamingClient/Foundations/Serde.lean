import Mathlib.Algebra.Group.Int.Defs
import Mathlib.Data.List.Perm.Basic
import Mathlib.Data.List.Forall2
import Mathlib.Data.List.Nodup
import Mathlib.Data.Int.Notation
import Mathlib.Data.Nat.Notation

/-!
# A self-describing data model and its derived decoders

The part of a serde-style decoder that is independent of what is decoded. A JSON text is buffered
as a `Value`, whose objects keep their members in text order, repeated names included. A decoder
is a function `Value → Except Error α`; the combinators below are the ones derived code is made of:

* `field` reads one member of an object by name, as a derived struct visitor does;
* `flattenedEnum` reads an externally tagged enum from the members a flattening struct left over;
* `untagged` tries two decoders in order and forgets why the first failed.

`bind_eq_ok_iff`, `map_eq_ok_iff` and `mapM_eq_ok_iff` take a decoder written in do-notation apart.

The general facts are about member order. With pairwise distinct names, `field` does not depend on
it (`field_perm`), while `flattenedEnum` takes the first member that names a variant.
-/

namespace Serde

/-- A JSON number, by the three cases in which it is stored. -/
inductive Number where
  /-- A non-negative integer. -/
  | posInt (n : UInt64)
  /-- A negative integer. -/
  | negInt (n : Int64)
  /-- Any other number, as the bits of a double. -/
  | float (bits : UInt64)
deriving DecidableEq

/-- The integer a number denotes, if it was written as one. -/
def Number.toInt? : Number → Option ℤ
  | .posInt n => some n.toNat
  | .negInt n => some n.toInt
  | .float _ => none

/-- A buffered JSON value. Objects keep their members in text order, repeated names included. -/
inductive Value where
  | null
  | bool (b : Bool)
  | number (n : Number)
  | string (s : String)
  | array (elems : List Value)
  | object (members : List (String × Value))

/-- The members of an object, in text order. -/
abbrev Members := List (String × Value)

/-- Why a value does not decode. -/
inductive Error where
  | custom (msg : String)
  | invalidType (expected : String)
  | invalidValue (expected : String)
  | invalidLength (len : ℕ)
  | missingField (name : String)
  | duplicateField (name : String)
deriving DecidableEq

/-! ## Sequencing decoders -/

/-- A sequence of two decoding steps succeeds exactly when both do. -/
theorem bind_eq_ok_iff {ε α β : Type} {x : Except ε α} {f : α → Except ε β} {b : β} :
    (x >>= f) = .ok b ↔ ∃ a, x = .ok a ∧ f a = .ok b := by
  cases x <;> simp [bind, Except.bind]

/-- A mapped decoder succeeds with the image of what it decodes. -/
theorem map_eq_ok_iff {ε α β : Type} {x : Except ε α} {f : α → β} {b : β} :
    f <$> x = .ok b ↔ ∃ a, x = .ok a ∧ f a = b := by
  cases x <;> simp [Functor.map, Except.map]

theorem pure_eq_ok_iff {ε α : Type} {a b : α} : (pure a : Except ε α) = .ok b ↔ a = b := by
  simp [pure, Except.pure]

/-- Decoding a list elementwise succeeds exactly when each element decodes, in order. -/
theorem mapM_eq_ok_iff {ε α β : Type} {f : α → Except ε β} {as : List α} {bs : List β} :
    as.mapM f = .ok bs ↔ List.Forall₂ (fun a b => f a = .ok b) as bs := by
  induction as generalizing bs with
  | nil =>
    rw [List.mapM_nil, pure_eq_ok_iff, List.forall₂_nil_left_iff]
    exact eq_comm
  | cons a as ih =>
    simp only [List.mapM_cons, bind_eq_ok_iff, pure_eq_ok_iff, List.forall₂_cons_left_iff, ih]
    constructor
    · rintro ⟨b, hb, bs', hbs', rfl⟩
      exact ⟨b, bs', hb, hbs', rfl⟩
    · rintro ⟨b, bs', hb, hbs', rfl⟩
      exact ⟨b, hb, bs', hbs', rfl⟩

/-- Every element has a partner exactly when some list pairs all of them. -/
theorem exists_forall₂_iff {α β : Type} {R : α → β → Prop} {as : List α} :
    (∃ bs, List.Forall₂ R as bs) ↔ ∀ a ∈ as, ∃ b, R a b := by
  induction as with
  | nil => simp
  | cons a as ih =>
    simp only [List.forall₂_cons_left_iff, List.forall_mem_cons, ← ih]
    constructor
    · rintro ⟨_, b, bs, hb, hbs, -⟩
      exact ⟨⟨b, hb⟩, bs, hbs⟩
    · rintro ⟨⟨b, hb⟩, bs, hbs⟩
      exact ⟨b :: bs, b, bs, hb, hbs, rfl⟩

/-! ## Owned values

Decoding into an owned value turns each object into an ordered map: sorted by name, the last of
several members of one name replacing the earlier ones. -/

/-- Insert a member into an ordered map, replacing the entry of the same name. -/
def insertMember (m : String × Value) : Members → Members
  | [] => [m]
  | m' :: ms =>
    if m.1 < m'.1 then m :: m' :: ms
    else if m.1 = m'.1 then m :: ms
    else m' :: insertMember m ms

mutual

/-- The owned value decoded from a buffered one. -/
def Value.owned : Value → Value
  | .array elems => .array (ownedElems elems)
  | .object members => .object (ownedMembers members [])
  | .null => .null
  | .bool b => .bool b
  | .number n => .number n
  | .string s => .string s

/-- The elements of an owned array. -/
def ownedElems : List Value → List Value
  | [] => []
  | v :: vs => v.owned :: ownedElems vs

/-- Insert the members of a buffered object into an ordered map, in text order. -/
def ownedMembers : Members → Members → Members
  | [], map => map
  | (name, v) :: ms, map => ownedMembers ms (insertMember (name, v.owned) map)

end

/-! ## Primitive decoders -/

/-- Decode a string. -/
def Value.asString : Value → Except Error String
  | .string s => .ok s
  | _ => .error (.invalidType "a string")

/-- Decode an integer in the range of a `u32`. -/
def Value.asU32 : Value → Except Error UInt32
  | .number n =>
    match n.toInt? with
    | some i =>
      if 0 ≤ i ∧ i < 2 ^ 32 then .ok (UInt32.ofNat i.toNat) else .error (.invalidValue "u32")
    | none => .error (.invalidType "u32")
  | _ => .error (.invalidType "u32")

/-- Decode an integer in the range of a `u64`. -/
def Value.asU64 : Value → Except Error UInt64
  | .number (.posInt n) => .ok n
  | .number (.negInt _) => .error (.invalidValue "u64")
  | _ => .error (.invalidType "u64")

/-- Decode an integer in the range of an `i64`. -/
def Value.asI64 : Value → Except Error Int64
  | .number n =>
    match n.toInt? with
    | some i =>
      if -2 ^ 63 ≤ i ∧ i < 2 ^ 63 then .ok (Int64.ofInt i) else .error (.invalidValue "i64")
    | none => .error (.invalidType "i64")
  | _ => .error (.invalidType "i64")

/-- Any buffered value decodes as an owned value. -/
def Value.asValue (v : Value) : Except Error Value := .ok v.owned

/-- Only a string decodes as a string. -/
theorem asString_eq_ok_iff {v : Value} {s : String} : v.asString = .ok s ↔ v = .string s := by
  cases v <;> simp [Value.asString]

/-- `v` is an integer in the range of a `u32`. -/
def IsU32 (v : Value) : Prop :=
  ∃ n i, v = .number n ∧ n.toInt? = some i ∧ 0 ≤ i ∧ i < 2 ^ 32

/-- Exactly the integers in range decode as a `u32`. -/
theorem isU32_iff {v : Value} : IsU32 v ↔ ∃ id, v.asU32 = .ok id := by
  constructor
  · rintro ⟨n, i, rfl, hn, hi⟩
    refine ⟨UInt32.ofNat i.toNat, ?_⟩
    simp only [Value.asU32, hn]
    exact if_pos hi
  · rintro ⟨id, h⟩
    cases v with
    | number n =>
      simp only [Value.asU32] at h
      split at h
      next i hi =>
        split at h
        next hrange => exact ⟨n, i, rfl, hi, hrange⟩
        next => cases h
      next => cases h
    | _ => cases h

/-- The number that was decoded is the one that was written. -/
theorem asU32_eq_ok_iff {v : Value} {u : UInt32} :
    v.asU32 = .ok u ↔ ∃ n, v = .number n ∧ n.toInt? = some (u.toNat : ℤ) := by
  constructor
  · intro h
    obtain ⟨n, i, rfl, hn, hrange⟩ := isU32_iff.mpr ⟨u, h⟩
    simp only [Value.asU32, hn, if_pos hrange, Except.ok.injEq] at h
    have hlt : i.toNat < 2 ^ 32 := by omega
    refine ⟨n, rfl, ?_⟩
    rw [hn, ← h, UInt32.toNat_ofNat_of_lt' hlt, Int.toNat_of_nonneg hrange.1]
  · rintro ⟨n, rfl, hn⟩
    have hlt := u.toNat_lt
    simp only [Value.asU32, hn]
    rw [if_pos (by omega), Int.toNat_natCast, UInt32.ofNat_toNat]

/-- A `u64` is a non-negative integer. -/
theorem asU64_eq_ok_iff {v : Value} {n : UInt64} :
    v.asU64 = .ok n ↔ v = .number (.posInt n) := by
  rcases v with _ | _ | (_ | _ | _) | _ | _ | _ <;> simp [Value.asU64]

/-- An `i64` is an integer in its range. -/
theorem asI64_eq_ok_iff {v : Value} {x : Int64} :
    v.asI64 = .ok x ↔ ∃ n, v = .number n ∧ n.toInt? = some x.toInt := by
  constructor
  · intro h
    cases v with
    | number n =>
      simp only [Value.asI64] at h
      split at h
      next i hi =>
        split at h
        next hrange =>
          simp only [Except.ok.injEq] at h
          rw [← h, Int64.toInt_ofInt_of_le hrange.1 hrange.2]
          exact ⟨n, rfl, hi⟩
        next => cases h
      next => cases h
    | _ => cases h
  · rintro ⟨n, rfl, hn⟩
    have hle := x.le_toInt
    have hlt := x.toInt_lt
    simp only [Value.asI64, hn]
    rw [if_pos ⟨hle, hlt⟩, Int64.ofInt_toInt]

/-! ## Members by name -/

/-- The values of the members named `name`, in text order. -/
def membersNamed (name : String) (ms : Members) : List Value :=
  ms.filterMap fun m => if m.1 = name then some m.2 else none

/-- The object has a member named `name`. -/
def HasMember (name : String) (ms : Members) : Prop :=
  ∃ v, (name, v) ∈ ms

instance (name : String) (ms : Members) : Decidable (HasMember name ms) :=
  decidable_of_iff (name ∈ ms.map Prod.fst) (by simp [HasMember])

/-- The value of the only member named `name`; `none` if there is none or several. -/
def onlyMember (name : String) (ms : Members) : Option Value :=
  match membersNamed name ms with
  | [v] => some v
  | _ => none

/-- The members of a name are those of the object. -/
theorem mem_membersNamed {name : String} {ms : Members} {v : Value} :
    v ∈ membersNamed name ms ↔ (name, v) ∈ ms := by
  simp only [membersNamed, List.mem_filterMap, Option.ite_none_right_eq_some, Option.some.injEq,
    Prod.exists]
  constructor
  · rintro ⟨n, w, hmem, rfl, rfl⟩
    exact hmem
  · intro hmem
    exact ⟨name, v, hmem, rfl, rfl⟩

/-- With distinct names, at most one member has a given name. -/
theorem length_membersNamed_le_one (name : String) {ms : Members}
    (hnodup : (ms.map Prod.fst).Nodup) : (membersNamed name ms).length ≤ 1 := by
  induction ms with
  | nil => simp [membersNamed]
  | cons m ms ih =>
    rw [List.map_cons, List.nodup_cons] at hnodup
    obtain ⟨hnotin, hnodup⟩ := hnodup
    by_cases hm : m.1 = name
    -- a second member of this name would repeat the name of `m`
    · have hrest : membersNamed name ms = [] := by
        rw [List.eq_nil_iff_forall_not_mem]
        intro v hv
        rw [mem_membersNamed] at hv
        exact hnotin (hm ▸ List.mem_map.mpr ⟨_, hv, rfl⟩)
      have hcons : membersNamed name (m :: ms) = m.2 :: membersNamed name ms := by
        simp [membersNamed, hm]
      rw [hcons, hrest]
      simp
    · have hcons : membersNamed name (m :: ms) = membersNamed name ms := by
        simp [membersNamed, hm]
      rw [hcons]
      exact ih hnodup

/-- With distinct names, looking members up by name does not depend on their order. -/
theorem membersNamed_perm {name : String} {ms ms' : Members}
    (hnodup : (ms.map Prod.fst).Nodup) (hperm : ms.Perm ms') :
    membersNamed name ms' = membersNamed name ms := by
  have hle := length_membersNamed_le_one name hnodup
  have hnamed : (membersNamed name ms).Perm (membersNamed name ms') := hperm.filterMap _
  -- lists with at most one element are equal when they are permutations of each other
  match hms : membersNamed name ms with
  | [] => rw [hms] at hnamed; exact hnamed.nil_eq.symm
  | [v] => rw [hms] at hnamed; exact List.perm_singleton.mp hnamed.symm
  | v :: w :: vs => rw [hms] at hle; simp at hle

/-- Whether there is a member of a name does not depend on the order. -/
theorem hasMember_perm {name : String} {ms ms' : Members} (hperm : ms.Perm ms') :
    HasMember name ms ↔ HasMember name ms' :=
  exists_congr fun _ => hperm.mem_iff

/-! ## Struct fields -/

/-- Read one field of a derived struct: the member of that name, which must occur exactly once. -/
def field {α : Type} (name : String) (dec : Value → Except Error α) (ms : Members) :
    Except Error α :=
  match membersNamed name ms with
  | [] => .error (.missingField name)
  | [v] => dec v
  | _ => .error (.duplicateField name)

/-- A field decodes exactly when its name occurs once and that member's value decodes. -/
theorem field_eq_ok_iff {α : Type} {name : String} {dec : Value → Except Error α} {ms : Members}
    {a : α} : field name dec ms = .ok a ↔ ∃ v, onlyMember name ms = some v ∧ dec v = .ok a := by
  unfold field onlyMember
  split <;> simp_all

/-- With distinct names, reading a field does not depend on the order of the members. -/
theorem field_perm {α : Type} {name : String} {dec : Value → Except Error α} {ms ms' : Members}
    (hnodup : (ms.map Prod.fst).Nodup) (hperm : ms.Perm ms') :
    field name dec ms' = field name dec ms := by
  rw [field, membersNamed_perm hnodup hperm, field]

/-- A repeated member is no field, in whatever order it comes. -/
example : onlyMember "id" [("id", .null), ("method", .null), ("id", .null)] = none := rfl

/-! ## Flattened enums -/

/-- Read an externally tagged enum from the members a flattening struct left over: the first
member whose name is one of the variants decides. -/
def flattenedEnum {α : Type} (name : String) (variants : List (String × (Value → Except Error α))) :
    Members → Except Error α
  | [] => .error (.custom ("no variant of enum " ++ name ++ " found in flattened data"))
  | (tag, v) :: ms =>
    match variants.lookup tag with
    | some dec => dec v
    | none => flattenedEnum name variants ms

/-! ## Untagged enums -/

/-- Try two decoders in order; if both fail, only the failure of the whole enum is reported. -/
def untagged {α : Type} (name : String) (first second : Value → Except Error α) (v : Value) :
    Except Error α :=
  match first v with
  | .ok a => .ok a
  | .error _ =>
    match second v with
    | .ok a => .ok a
    | .error _ => .error (.custom ("data did not match any variant of untagged enum " ++ name))

/-- An untagged enum decodes to the first variant that does. -/
theorem untagged_eq_ok_iff {α : Type} {name : String} {first second : Value → Except Error α}
    {v : Value} {a : α} :
    untagged name first second v = .ok a ↔
      first v = .ok a ∨ (∃ e, first v = .error e) ∧ second v = .ok a := by
  unfold untagged
  cases hfirst : first v with
  | ok b => simp
  | error e => cases hsecond : second v <;> simp

end Serde
