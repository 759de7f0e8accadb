import Mathlib.Data.List.AList
import Mathlib.Data.String.Basic
import ElectrumStreamingClient.Foundations.Serde

/-!
# Derived structs

The decoder that `serde` derives for a struct of named fields, put together field by field. It takes
an object, in which a field may go by aliases as well, or an array of the fields in order.

What such a decoder is given has been read into an owned value, in which the members of an object
are sorted and only the last one of each name is left. So it tells little of what was written: the
order of the members is lost, and so are members that were repeated and members of other names. A
`Decoder` carries the relation of values that are `Alike` to it, with the proof that their owned
values decode to the same.
-/

namespace Serde

/-! ## Members of owned objects -/

/-- The value of the last member of a name. -/
def lastNamed (name : String) (ms : Members) : Option Value :=
  (membersNamed name ms).getLast?

/-- The names ascend, as in an ordered map. -/
def Ascending (map : Members) : Prop :=
  map.Pairwise fun m m' => m.1 < m'.1

/-- Inserting adds no other member. -/
theorem eq_or_mem_of_mem_insertMember {m m' : String × Value} {map : Members}
    (h : m' ∈ insertMember m map) : m' = m ∨ m' ∈ map := by
  induction map with
  | nil => simpa [insertMember] using h
  | cons entry map ih =>
    rw [insertMember] at h
    split at h
    · simpa using h
    · split at h
      · rw [List.mem_cons] at h
        exact h.imp_right (List.mem_cons_of_mem _)
      · rcases List.mem_cons.mp h with rfl | h
        · exact Or.inr List.mem_cons_self
        · exact (ih h).imp_right (List.mem_cons_of_mem _)

/-- Inserting keeps the names in order. -/
theorem Ascending.insertMember {map : Members} (h : Ascending map) (m : String × Value) :
    Ascending (insertMember m map) := by
  induction map with
  | nil => exact List.pairwise_singleton _ m
  | cons entry map ih =>
    obtain ⟨hentry, hmap⟩ := List.pairwise_cons.mp h
    rw [Serde.insertMember]
    split
    next hlt =>
      -- in front of all others
      refine List.pairwise_cons.mpr ⟨?_, h⟩
      intro m' hm'
      rcases List.mem_cons.mp hm' with rfl | hm'
      · exact hlt
      · exact lt_trans hlt (hentry m' hm')
    next hnlt =>
      split
      -- in the place of the one with its name
      next heq => exact List.pairwise_cons.mpr ⟨fun m' hm' => heq ▸ hentry m' hm', hmap⟩
      next hne =>
        -- behind this one
        refine List.pairwise_cons.mpr ⟨?_, ih hmap⟩
        intro m' hm'
        rcases eq_or_mem_of_mem_insertMember hm' with rfl | hm'
        · exact lt_of_le_of_ne (not_lt.mp hnlt) (Ne.symm hne)
        · exact hentry m' hm'

theorem membersNamed_cons (name : String) (m : String × Value) (ms : Members) :
    membersNamed name (m :: ms) =
      if m.1 = name then m.2 :: membersNamed name ms else membersNamed name ms := by
  by_cases hm : m.1 = name <;> simp [membersNamed, hm]

theorem membersNamed_eq_nil {name : String} {ms : Members} (h : ∀ m ∈ ms, m.1 ≠ name) :
    membersNamed name ms = [] := by
  rw [List.eq_nil_iff_forall_not_mem]
  intro v hv
  exact h _ (mem_membersNamed.mp hv) rfl

/-- A member that is inserted replaces the one of its name. -/
theorem membersNamed_insertMember {map : Members} (h : Ascending map) (name : String)
    (m : String × Value) :
    membersNamed name (insertMember m map) =
      if m.1 = name then [m.2] else membersNamed name map := by
  induction map with
  | nil => rw [insertMember, membersNamed_cons]; rfl
  | cons entry map ih =>
    obtain ⟨hentry, hmap⟩ := List.pairwise_cons.mp h
    rw [insertMember]
    split
    next hlt =>
      rw [membersNamed_cons]
      split
      next hm =>
        -- all names behind it are greater
        have hnil : membersNamed name (entry :: map) = [] := by
          apply membersNamed_eq_nil
          intro m' hm'
          rcases List.mem_cons.mp hm' with rfl | hm'
          · exact (hm ▸ hlt).ne'
          · exact (hm ▸ lt_trans hlt (hentry m' hm')).ne'
        rw [hnil]
      next => rfl
    next hnlt =>
      split
      next heq =>
        rw [membersNamed_cons, membersNamed_cons, ← heq]
        split
        next hm =>
          have hnil : membersNamed name map = [] :=
            membersNamed_eq_nil fun m' hm' => (hm ▸ heq ▸ hentry m' hm').ne'
          rw [hnil]
        next => rfl
      next hne =>
        rw [membersNamed_cons, membersNamed_cons, ih hmap]
        by_cases hm : m.1 = name
        · have hentryName : entry.1 ≠ name := fun heq => hne (hm.trans heq.symm)
          rw [if_pos hm, if_pos hm, if_neg hentryName]
        · rw [if_neg hm, if_neg hm]

/-- Of the members of a name, the last one that is inserted is left, or what was there before. -/
theorem membersNamed_ownedMembers_append {map : Members} (h : Ascending map) (name : String)
    (ms : Members) :
    membersNamed name (ownedMembers ms map) =
      match lastNamed name ms with
      | some v => [v.owned]
      | none => membersNamed name map := by
  induction ms generalizing map with
  | nil => rfl
  | cons m ms ih =>
    rw [ownedMembers, ih (h.insertMember _), membersNamed_insertMember h, lastNamed, lastNamed,
      membersNamed_cons]
    by_cases hm : m.1 = name
    · rw [if_pos hm, if_pos hm, List.getLast?_cons]
      cases (membersNamed name ms).getLast? <;> rfl
    · rw [if_neg hm, if_neg hm]

/-- Of the members of a name, an owned object has the last one. -/
theorem membersNamed_ownedMembers (name : String) (ms : Members) :
    membersNamed name (ownedMembers ms []) = ((lastNamed name ms).map Value.owned).toList := by
  rw [membersNamed_ownedMembers_append List.Pairwise.nil]
  cases lastNamed name ms <;> rfl

/-- A name has no last member exactly if it has none. -/
theorem lastNamed_eq_none_iff {name : String} {ms : Members} :
    lastNamed name ms = none ↔ ¬HasMember name ms := by
  rw [lastNamed, List.getLast?_eq_none_iff, List.eq_nil_iff_forall_not_mem, HasMember, not_exists]
  simp only [mem_membersNamed]

/-- The last member is in the second part if there is one. -/
theorem lastNamed_append (name : String) (ms ms' : Members) :
    lastNamed name (ms ++ ms') = (lastNamed name ms').or (lastNamed name ms) := by
  simp only [lastNamed, membersNamed, List.filterMap_append, List.getLast?_append]

/-- The last member is the first one only if there is no other. -/
theorem lastNamed_cons (name : String) (m : String × Value) (ms : Members) :
    lastNamed name (m :: ms) =
      (lastNamed name ms).or (if m.1 = name then some m.2 else none) := by
  rw [← List.singleton_append, lastNamed_append]
  congr 1
  rw [lastNamed, membersNamed_cons]
  split <;> rfl

theorem getElem?_ownedElems (vs : List Value) (i : ℕ) :
    (ownedElems vs)[i]? = vs[i]?.map Value.owned := by
  induction vs generalizing i with
  | nil => rfl
  | cons v vs ih =>
    cases i with
    | zero => rfl
    | succ i => exact ih i

theorem length_ownedElems (vs : List Value) : (ownedElems vs).length = vs.length := by
  induction vs with
  | nil => rfl
  | cons v vs ih => rw [ownedElems, List.length_cons, ih, List.length_cons]

/-- The objects have the same last member of each of the names. -/
def AgreeOn (names : List String) (ms ms' : Members) : Prop :=
  ∀ name ∈ names, lastNamed name ms = lastNamed name ms'

theorem AgreeOn.mono {names names' : List String} {ms ms' : Members} (h : AgreeOn names' ms ms')
    (hsub : names ⊆ names') : AgreeOn names ms ms' :=
  fun name hname => h name (hsub hname)

/-- Nor does a member of another name. -/
theorem AgreeOn.of_notMem {names : List String} {name : String} (hname : name ∉ names) (v : Value)
    (before after : Members) :
    AgreeOn names (before ++ (name, v) :: after) (before ++ after) := by
  intro known hknown
  have hne : name ≠ known := fun heq => hname (heq ▸ hknown)
  rw [lastNamed_append, lastNamed_append, lastNamed_cons, if_neg hne, Option.or_none]

/-- A decoder of owned values. -/
structure Decoder (α : Type) where
  decode : Value → Except Error α
  /-- The values differ at most in what the decoder ignores. -/
  Alike : Value → Value → Prop
  alike_refl (v : Value) : Alike v v
  decode_owned {v v' : Value} (h : Alike v v') : decode v.owned = decode v'.owned

namespace Decoder

variable {α β : Type}

/-- A decoder that is not looked into. -/
def exact (decode : Value → Except Error α) : Decoder α where
  decode
  Alike v v' := v.owned = v'.owned
  alike_refl _ := rfl
  decode_owned h := by rw [h]

/-- Decode further. -/
def map (f : α → β) (d : Decoder α) : Decoder β where
  decode v := f <$> d.decode v
  Alike := d.Alike
  alike_refl := d.alike_refl
  decode_owned h := by rw [d.decode_owned h]

/-- `null`, or what the decoder takes. -/
def nullable (d : Decoder α) : Decoder (Option α) where
  decode
    | .null => .ok none
    | v => some <$> d.decode v
  Alike v v' := v.owned = v'.owned ∨ v.owned ≠ .null ∧ v'.owned ≠ .null ∧ d.Alike v v'
  alike_refl _ := Or.inl rfl
  decode_owned := by
    rintro v v' (h | ⟨hnull, hnull', h⟩)
    · rw [h]
    · simp only [d.decode_owned h]

/-- The first of two decoders that takes the value. -/
def untagged (name : String) (d d' : Decoder α) : Decoder α where
  decode := Serde.untagged name d.decode d'.decode
  Alike v v' := d.Alike v v' ∧ d'.Alike v v'
  alike_refl v := ⟨d.alike_refl v, d'.alike_refl v⟩
  decode_owned h := by simp only [Serde.untagged, d.decode_owned h.1, d'.decode_owned h.2]

def decodeElems (decode : Value → Except Error α) : Value → Except Error (List α)
  | .array vs => vs.mapM decode
  | _ => .error (.invalidType "a sequence")

/-- The elements of both arrays are alike one by one. -/
def AlikeElems (d : Decoder α) : Value → Value → Prop
  | .array vs, .array vs' => List.Forall₂ d.Alike vs vs'
  | v, v' => v.owned = v'.owned

/-- Arrays that are alike one by one are decoded to the same. -/
theorem mapM_ownedElems (d : Decoder α) {vs vs' : List Value} (h : List.Forall₂ d.Alike vs vs') :
    (ownedElems vs).mapM d.decode = (ownedElems vs').mapM d.decode := by
  induction h with
  | nil => rfl
  | cons hv _ ih =>
    rw [ownedElems, ownedElems, List.mapM_cons, List.mapM_cons, d.decode_owned hv, ih]

/-- A sequence. -/
def list (d : Decoder α) : Decoder (List α) where
  decode := decodeElems d.decode
  Alike := d.AlikeElems
  alike_refl v := by
    cases v with
    | array vs => exact List.forall₂_same.mpr fun v _ => d.alike_refl v
    | _ => rfl
  decode_owned := by
    intro v v' h
    unfold AlikeElems at h
    split at h
    · exact d.mapM_ownedElems h
    · rw [h]

/-- The entries that decode, the last one of each name. -/
def decodeEntries (decode : Value → Except Error α) :
    Value → Except Error (AList fun _ : String => α)
  | .object ms => ms.foldlM (fun map m => do return map.insert m.1 (← decode m.2)) ∅
  | _ => .error (.invalidType "a map")

/-- The entries of both objects have the same names and are alike one by one. -/
def AlikeEntries (d : Decoder α) : Value → Value → Prop
  | .object ms, .object ms' => List.Forall₂ (fun m m' => m.1 = m'.1 ∧ d.Alike m.2 m'.2) ms ms'
  | v, v' => v.owned = v'.owned

/-- Entries of an ordered map that decode to the same. -/
def SameEntry (d : Decoder α) (m m' : String × Value) : Prop :=
  m.1 = m'.1 ∧ d.decode m.2 = d.decode m'.2

/-- Inserting entries that decode to the same keeps both maps so. -/
theorem sameEntry_insertMember (d : Decoder α) {m m' : String × Value} {map map' : Members}
    (hm : d.SameEntry m m') (hmap : List.Forall₂ d.SameEntry map map') :
    List.Forall₂ d.SameEntry (insertMember m map) (insertMember m' map') := by
  induction hmap with
  | nil => exact .cons hm .nil
  | @cons entry entry' map map' hentry hmap ih =>
    rw [insertMember, insertMember, ← hm.1, ← hentry.1]
    split
    · exact .cons hm (.cons hentry hmap)
    · split
      · exact .cons hm hmap
      · exact .cons hentry ih

/-- Members that are alike become entries that decode to the same. -/
theorem sameEntry_ownedMembers (d : Decoder α) {ms ms' map map' : Members}
    (h : List.Forall₂ (fun m m' => m.1 = m'.1 ∧ d.Alike m.2 m'.2) ms ms')
    (hmap : List.Forall₂ d.SameEntry map map') :
    List.Forall₂ d.SameEntry (ownedMembers ms map) (ownedMembers ms' map') := by
  induction h generalizing map map' with
  | nil => exact hmap
  | cons hm _ ih =>
    apply ih
    exact d.sameEntry_insertMember ⟨hm.1, d.decode_owned hm.2⟩ hmap

/-- Entries that decode to the same make the same map. -/
theorem foldlM_sameEntry (d : Decoder α) {ms ms' : Members}
    (h : List.Forall₂ d.SameEntry ms ms') (map : AList fun _ : String => α) :
    ms.foldlM (fun map m => do return map.insert m.1 (← d.decode m.2)) map =
      ms'.foldlM (fun map m => do return map.insert m.1 (← d.decode m.2)) map := by
  induction h generalizing map with
  | nil => rfl
  | cons hm _ ih => simp only [List.foldlM_cons, hm.1, hm.2, ih]

/-- A map by names. -/
def hashMap (d : Decoder α) : Decoder (AList fun _ : String => α) where
  decode := decodeEntries d.decode
  Alike := d.AlikeEntries
  alike_refl v := by
    cases v with
    | object ms => exact List.forall₂_same.mpr fun m _ => ⟨rfl, d.alike_refl m.2⟩
    | _ => rfl
  decode_owned := by
    intro v v' h
    unfold AlikeEntries at h
    split at h
    · exact d.foldlM_sameEntry (d.sameEntry_ownedMembers h .nil) ∅
    · rw [h]

end Decoder

/-! ## Fields -/

/-- A field of a struct. -/
structure StructField (α : Type) where
  name : String
  aliases : List String
  decoder : Decoder α
  /-- What a missing field decodes to. -/
  absent : Except Error α

namespace StructField

variable {α : Type}

/-- A field that has to be there. -/
def required (name : String) (decoder : Decoder α) : StructField α :=
  { name, aliases := [], decoder, absent := .error (.missingField name) }

/-- A field of an optional type. -/
def optional (name : String) (decoder : Decoder α) : StructField (Option α) :=
  { name, aliases := [], decoder := decoder.nullable, absent := .ok none }

/-- The field under further names. -/
def withAliases (f : StructField α) (aliases : List String) : StructField α :=
  { f with aliases := f.aliases ++ aliases }

/-- All names of the field. -/
def names (f : StructField α) : List String :=
  f.name :: f.aliases

/-- Read the field from an object, where it must not occur more than once. -/
def ofMembers (f : StructField α) (ms : Members) : Except Error α :=
  match f.names.flatMap fun name => membersNamed name ms with
  | [] => f.absent
  | [v] => f.decoder.decode v
  | _ => .error (.duplicateField f.name)

/-- A field under one name is what `Serde.field` reads. -/
theorem ofMembers_required (name : String) (d : Decoder α) (ms : Members) :
    (required name d).ofMembers ms = Serde.field name d.decode ms := by
  simp only [ofMembers, required, names, List.flatMap_cons, List.flatMap_nil, List.append_nil]
  rfl

/-- Under each name of the field, the last members of the objects are alike. -/
def AlikeMembers (f : StructField α) (ms ms' : Members) : Prop :=
  ∀ name ∈ f.names, Option.Rel f.decoder.Alike (lastNamed name ms) (lastNamed name ms')

/-- A field looks only at the members of its names. -/
theorem alikeMembers_of_agreeOn (f : StructField α) {ms ms' : Members}
    (h : AgreeOn f.names ms ms') : f.AlikeMembers ms ms' := by
  intro name hname
  rw [h name hname]
  cases lastNamed name ms' with
  | none => exact .none
  | some v => exact .some (f.decoder.alike_refl v)

/-- Under some of the names, owned objects have values that decode to the same. -/
theorem sameValues_owned (f : StructField α) {ms ms' : Members} (h : f.AlikeMembers ms ms')
    {names : List String} (hnames : names ⊆ f.names) :
    List.Forall₂ (fun v v' => f.decoder.decode v = f.decoder.decode v')
      (names.flatMap fun name => membersNamed name (ownedMembers ms []))
      (names.flatMap fun name => membersNamed name (ownedMembers ms' [])) := by
  induction names with
  | nil => exact .nil
  | cons name names ih =>
    obtain ⟨hname, hnames⟩ := List.cons_subset.mp hnames
    -- an owned object has at most one member of the name
    have hlast := h name hname
    simp only [List.flatMap_cons, membersNamed_ownedMembers] at ih ⊢
    generalize lastNamed name ms = last at hlast ⊢
    generalize lastNamed name ms' = last' at hlast ⊢
    cases hlast with
    | none => exact ih hnames
    | some hv => exact .cons (f.decoder.decode_owned hv) (ih hnames)

/-- A field is the same in owned objects that are alike to it. -/
theorem ofMembers_owned (f : StructField α) {ms ms' : Members} (h : f.AlikeMembers ms ms') :
    f.ofMembers (ownedMembers ms []) = f.ofMembers (ownedMembers ms' []) := by
  have hsame := f.sameValues_owned h (List.Subset.refl _)
  rw [ofMembers, ofMembers]
  generalize f.names.flatMap (fun name => membersNamed name (ownedMembers ms [])) = values
    at hsame ⊢
  generalize f.names.flatMap (fun name => membersNamed name (ownedMembers ms' [])) = values'
    at hsame ⊢
  -- none, one or several values on both sides
  match hsame with
  | .nil => rfl
  | .cons hv .nil => exact hv
  | .cons _ (.cons _ _) => rfl

end StructField

/-! ## Records -/

/-- The decoder of the fields of a struct. -/
structure Record (α : Type) where
  /-- The number of its fields. -/
  arity : ℕ
  /-- Their names. -/
  names : List String
  ofMembers : Members → Except Error α
  ofElems : List Value → Except Error α
  AlikeMembers : Members → Members → Prop
  AlikeElems : List Value → List Value → Prop
  alikeMembers_of_agreeOn {ms ms' : Members} (h : AgreeOn names ms ms') : AlikeMembers ms ms'
  alikeElems_refl (vs : List Value) : AlikeElems vs vs
  ofMembers_owned {ms ms' : Members} (h : AlikeMembers ms ms') :
    ofMembers (ownedMembers ms []) = ofMembers (ownedMembers ms' [])
  ofElems_owned {vs vs' : List Value} (h : AlikeElems vs vs') :
    ofElems (ownedElems vs) = ofElems (ownedElems vs')

namespace Record

variable {α β : Type}

/-- A struct without fields. -/
def of (a : α) : Record α where
  arity := 0
  names := []
  ofMembers _ := .ok a
  ofElems _ := .ok a
  AlikeMembers _ _ := True
  AlikeElems _ _ := True
  alikeMembers_of_agreeOn _ := trivial
  alikeElems_refl _ := trivial
  ofMembers_owned _ := rfl
  ofElems_owned _ := rfl

/-- The struct with one more field. -/
def field (r : Record (α → β)) (f : StructField α) : Record β where
  arity := r.arity + 1
  names := r.names ++ f.names
  ofMembers ms := do
    let build ← r.ofMembers ms
    let a ← f.ofMembers ms
    return build a
  ofElems vs := do
    let build ← r.ofElems vs
    match vs[r.arity]? with
    | some v =>
      let a ← f.decoder.decode v
      return build a
    | none => .error (.invalidLength r.arity)
  AlikeMembers ms ms' := r.AlikeMembers ms ms' ∧ f.AlikeMembers ms ms'
  AlikeElems vs vs' :=
    r.AlikeElems vs vs' ∧ Option.Rel f.decoder.Alike vs[r.arity]? vs'[r.arity]?
  alikeMembers_of_agreeOn h :=
    ⟨r.alikeMembers_of_agreeOn (h.mono (List.subset_append_left _ _)),
      f.alikeMembers_of_agreeOn (h.mono (List.subset_append_right _ _))⟩
  alikeElems_refl vs := by
    refine ⟨r.alikeElems_refl vs, ?_⟩
    cases vs[r.arity]? with
    | none => exact .none
    | some v => exact .some (f.decoder.alike_refl v)
  ofMembers_owned h := by rw [r.ofMembers_owned h.1, f.ofMembers_owned h.2]
  ofElems_owned := by
    intro vs vs' ⟨helems, hlast⟩
    rw [r.ofElems_owned helems, getElem?_ownedElems, getElem?_ownedElems]
    generalize vs[r.arity]? = last at hlast ⊢
    generalize vs'[r.arity]? = last' at hlast ⊢
    cases hlast with
    | none => rfl
    | some hv => simp only [Option.map_some, f.decoder.decode_owned hv]

/-- Decode a struct of the given name. -/
def deserialize (r : Record α) (struct : String) : Value → Except Error α
  | .object ms => r.ofMembers ms
  | .array vs =>
    if vs.length = r.arity then r.ofElems vs else .error (.invalidLength vs.length)
  | _ => .error (.invalidType ("struct " ++ struct))

/-- The fields of both objects, or of both arrays, are alike one by one. -/
def Alike (r : Record α) : Value → Value → Prop
  | .object ms, .object ms' => r.AlikeMembers ms ms'
  | .array vs, .array vs' => vs.length = vs'.length ∧ r.AlikeElems vs vs'
  | v, v' => v.owned = v'.owned

def decoder (r : Record α) (struct : String) : Decoder α where
  decode := r.deserialize struct
  Alike := r.Alike
  alike_refl v := by
    cases v with
    | object ms => exact r.alikeMembers_of_agreeOn fun _ _ => rfl
    | array vs => exact ⟨rfl, r.alikeElems_refl vs⟩
    | _ => rfl
  decode_owned := by
    intro v v' h
    unfold Alike at h
    split at h
    · exact r.ofMembers_owned h
    · show (if _ then _ else _) = (if _ then _ else _)
      rw [length_ownedElems, length_ownedElems, r.ofElems_owned h.2, h.1]
    · rw [h]

@[simp] theorem decode_object (r : Record α) (struct : String) (ms : Members) :
    (r.decoder struct).decode (.object ms) = r.ofMembers ms := rfl

@[simp] theorem decode_array (r : Record α) (struct : String) (vs : List Value) :
    (r.decoder struct).decode (.array vs) =
      if vs.length = r.arity then r.ofElems vs else .error (.invalidLength vs.length) := rfl

@[simp] theorem arity_of (a : α) : (of a).arity = 0 := rfl

@[simp] theorem arity_field (r : Record (α → β)) (f : StructField α) :
    (r.field f).arity = r.arity + 1 := rfl

@[simp] theorem ofMembers_of (a : α) (ms : Members) : (of a).ofMembers ms = pure a := rfl

@[simp] theorem ofMembers_field (r : Record (α → β)) (f : StructField α) (ms : Members) :
    (r.field f).ofMembers ms = do
      let build ← r.ofMembers ms
      let a ← f.ofMembers ms
      return build a := rfl

@[simp] theorem ofElems_of (a : α) (vs : List Value) : (of a).ofElems vs = pure a := rfl

/-- The next field is the next element of an array. -/
theorem ofElems_field (r : Record (α → β)) (f : StructField α) {vs : List Value} {v : Value}
    (h : vs[r.arity]? = some v) :
    (r.field f).ofElems vs = do
      let build ← r.ofElems vs
      let a ← f.decoder.decode v
      return build a := by
  simp only [field, h]

end Record

end Serde
