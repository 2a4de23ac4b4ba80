/- GID: Sqe/Quack/BackedRows
   generality: G
   digest: What a decoded vector holds for each of its rows, and which rows no byte pays for. -/

import Sqe.Quack.VectorRoundTrip

/-!
The row count of a vector comes from the wire. Every branch of the decoder takes at least one byte
for eight rows, apart from arrays of size zero: their child has no rows, whatever the count is.
-/

set_option autoImplicit false

namespace Sqe.Quack

open Sqe.Library.Reading

mutual

/-- The vector and, below it, every child holds data for each of its rows. -/
def Vector.Backed (rows : Nat) : Vector → Prop
  | .mk type _ data => data.Backed type rows

def VectorData.Backed (type : LogicalType) (rows : Nat) : VectorData → Prop
  | .fixed bytes => ∃ width ∈ type.physicalWidth, rows * width ≤ bytes.length
  | .strings values => rows ≤ values.length
  | .blobs values => rows ≤ values.length
  | .list entries childCount child =>
    rows ≤ entries.length ∧
      (∀ entry ∈ entries, entry.1.toNat + entry.2.toNat ≤ childCount.toNat) ∧
      child.Backed childCount.toNat
  | .struct children => childrenBacked rows children
  | .array arraySize child => child.Backed (arraySize.toNat * rows)

def childrenBacked (rows : Nat) : List Vector → Prop
  | [] => True
  | child :: children => child.Backed rows ∧ childrenBacked rows children

end

section

-- How the children are decoded and how the rows of a child are found empty, one level down.
variable (child : LogicalType → Nat → Decoder Vector) (empty : LogicalType → Decoder Nat)

def emptyArray (type : LogicalType) : Decoder Nat := do
  expectField 103
  let arraySize ← readU64
  expectField 104
  match type.extra with
  | some (.array childType _) =>
    if arraySize = 0 then
      let _ ← closed (child childType 0)
      pure 1
    else
      refuseWhen (i32Max < arraySize) (.countExceedsRemaining arraySize i32Max)
      let factor ← closed (empty childType)
      pure (arraySize * factor)
  | _ => throw (.unsupportedLogicalType .array)

def emptyStruct (type : LogicalType) : Decoder Nat := do
  expectField 103
  let childCount ← readBoundedCount
  match type.extra with
  | some (.struct fields) =>
    refuseWhen (childCount ≠ fields.length)
      (.unexpectedField (fields.length % 2 ^ 16) (childCount % 2 ^ 16))
    refuseWhen (fields.isEmpty = true) (.unsupportedLogicalType type.id)
    let factors ← all (fields.map fun field => closed (empty field.2))
    pure (factors.foldr max 1)
  | _ => throw (.unsupportedLogicalType type.id)

def emptyVector (type : LogicalType) : Decoder Nat := do
  readDefault 90 (do let raw ← readU8; throw (.unsupportedVectorType raw)) ()
  expectField 100
  let masked ← readBool
  refuseWhen (masked = true) (.unsupportedLogicalType type.id)
  match type.id with
  | .array => emptyArray child empty type
  | .struct | .union => emptyStruct empty type
  | other => throw (.unsupportedLogicalType other)

end

/-- Take a vector without a validity mask all of whose rows are arrays of size zero, or arrays or
structs of such rows. The result is what the row count is multiplied by on the way down. -/
def Vector.emptyWithDepth : Nat → LogicalType → Decoder Nat
  | 0 => fun _ => throw (.recursionLimitExceeded maxDecodeDepth)
  | childDepth + 1 =>
    emptyVector (Vector.decodeWithDepth childDepth) (Vector.emptyWithDepth childDepth)

def Vector.emptyRows : LogicalType → Decoder Nat :=
  Vector.emptyWithDepth maxDecodeDepth

theorem yields_u16 : Yields readU16Le fun _ used => used = 2 := by
  intro input a rest read
  match input, read with
  | low :: high :: input, read =>
    cases read
    exact ⟨2, by simp only [List.length_cons]; omega, rfl⟩

theorem yields_field (fieldId : Nat) : Yields (expectField fieldId) fun _ used => used = 2 := by
  refine yields_u16.bind fun actual used taken => ?_
  split
  · exact .throw
  · exact .pure taken

theorem yields_refuse {bad : Prop} [Decidable bad] {error : WireError} :
    Yields (refuseWhen bad error) fun _ used => ¬ bad ∧ used = 0 := by
  unfold refuseWhen
  split
  · exact .throw
  next fine => exact .pure ⟨fine, rfl⟩

theorem yields_bool : Yields readBool fun _ used => used = 1 := by
  intro input a rest read
  match input, read with
  | byte :: input, read =>
    cases read
    exact ⟨1, by simp only [List.length_cons]; omega, rfl⟩

theorem yields_u64 : Yields readU64 fun v used => v < 2 ^ 64 ∧ 1 ≤ used := by
  intro input v rest read
  obtain ⟨seq, rfl, done, -, rfl⟩ := (decodeUnsignedFrom_eq_ok (by decide)).mp read
  have long := List.length_pos_iff.mpr done.ne_nil
  exact ⟨seq.length, List.length_append, Nat.mod_lt _ (by decide), long⟩

theorem yields_remaining (count : Nat) : Yields (checkRemaining count) fun _ used => used = 0 := by
  intro input a rest checked
  have checked : checkRemaining count input = .ok (a, rest) := checked
  unfold checkRemaining at checked
  split at checked
  · cases checked
  · cases checked
    exact ⟨0, (Nat.zero_add _).symm, rfl⟩

theorem yields_count : Yields readBoundedCount fun _ used => 1 ≤ used := by
  refine yields_u64.bind fun count used read => ?_
  exact (yields_remaining count).bind fun _ later none => Yields.pure (by omega)

theorem yields_slice (len : Nat) :
    Yields (readSlice len) fun bytes used => bytes.length = used := by
  intro input a rest read
  have read : readSlice len input = .ok (a, rest) := read
  unfold readSlice at read
  split at read
  · cases read
  next enough =>
    cases read
    refine ⟨(input.take len).length, ?_, rfl⟩
    rw [List.length_take, List.length_drop]
    omega

theorem yields_dataPtr : Yields readDataPtr fun bytes used => bytes.length + 1 ≤ used := by
  refine yields_u64.bind fun len used read => ?_
  exact (yields_slice len).mono fun bytes later taken => by omega

theorem yields_string : Yields readString fun _ used => 1 ≤ used := by
  refine yields_dataPtr.bind fun bytes used taken => ?_
  split
  · exact .pure (by omega)
  · exact .throw

theorem yields_rowString (valid : Bool) : Yields (decodeString valid) fun _ used => 1 ≤ used := by
  unfold decodeString
  split
  · exact yields_string.bind fun _ used taken => Yields.pure taken
  · refine Yields.bind (yields_dataPtr.bind fun bytes used taken => ?_)
      fun _ used taken => Yields.pure taken
    exact .pure (show 1 ≤ used + 0 by omega)

theorem yields_rowBlob (valid : Bool) : Yields (decodeBlob valid) fun _ used => 1 ≤ used :=
  yields_dataPtr.bind fun bytes used taken => Yields.pure (by omega)

variable {α : Type} {a : α}

theorem yields_closed {object : Decoder α} {p : α → Prop}
    (inside : Yields object fun a _ => p a) : Yields (closed object) fun a _ => p a :=
  inside.bind fun _ _ holds => (yields_field _).bind fun _ _ _ => Yields.pure holds

theorem physicalWidth_pos {type : LogicalType} {width : Nat}
    (has : type.physicalWidth = some width) : 1 ≤ width := by
  unfold LogicalType.physicalWidth at has
  split at has
  · cases has
    unfold decimalPhysicalWidth
    split_ifs <;> decide
  · cases has
    unfold enumPhysicalWidth
    split_ifs <;> decide
  next id _ _ _ =>
    revert has
    cases id <;> simp +contextual only [LogicalTypeId.fixedWidth] <;> grind

theorem yields_flat :
    Yields (readDefault 90 (do let raw ← readU8; throw (.unsupportedVectorType raw)) ())
      fun _ used => used = 0 := by
  have optional : Yields (readOptional 90) fun present used => present = false → used = 0 := by
    refine Yields.bind (p := fun _ used => used = 0) ?_ fun peeked used none => ?_
    · intro input a rest peek
      match input, peek with
      | low :: high :: input, peek =>
        cases peek
        exact ⟨0, (Nat.zero_add _).symm, rfl⟩
    · split
      · exact yields_u16.bind fun _ _ _ => Yields.pure nofun
      · exact .pure fun _ => none
  refine optional.bind fun present used standard => ?_
  split
  · intro input a rest read
    obtain ⟨raw, mid, -, refused⟩ := run_bind_ok.mp read
    exact absurd refused run_throw_ok
  next absent => exact .pure (standard (by simpa using absent))

section Branches

variable {child : LogicalType → Nat → Decoder Vector} {type : LogicalType} {count : Nat}

theorem yields_validity :
    Yields (decodeValidity count) fun validity used => validity.isSome → count ≤ 8 * used := by
  refine yields_bool.bind fun masked used one => ?_
  split
  · refine (yields_field 101).bind fun _ _ _ => ?_
    refine yields_dataPtr.bind fun raw _ _ => ?_
    refine yields_refuse.bind fun _ _ enough => Yields.pure fun _ => ?_
    omega
  · exact .pure nofun

theorem yields_fixed {width : Nat} (has : type.physicalWidth = some width) :
    Yields (decodeFixed width count) fun data used =>
      data.Backed type count ∧ count * width ≤ used := by
  refine (yields_field 102).bind fun _ _ _ => ?_
  refine yields_dataPtr.bind fun bytes _ _ => ?_
  refine yields_refuse.bind fun _ _ _ => ?_
  refine yields_refuse.bind fun _ _ enough => Yields.pure ⟨?_, by omega⟩
  exact ⟨width, has, by omega⟩

variable {validity : Option (List Bool)}

theorem yields_rows {α : Type} {row : Bool → Decoder α}
    (each : ∀ valid, Yields (row valid) fun _ used => 1 ≤ used) (actual : Nat) :
    Yields (all ((List.range actual).map fun i => row (rowValid validity i)))
      fun values used => values.length = actual ∧ actual ≤ used := by
  refine (Yields.all_costly (fun _ => True) fun r listed => ?_).mono fun values used found => ?_
  · obtain ⟨i, -, rfl⟩ := List.mem_map.mp listed
    exact (each _).mono fun _ _ cost => ⟨trivial, cost⟩
  · rw [List.length_map, List.length_range] at found
    exact ⟨found.1, found.1 ▸ found.2.2⟩

theorem yields_strings :
    Yields (decodeStrings count validity) fun data used =>
      data.Backed type count ∧ count ≤ used := by
  refine (yields_field 102).bind fun _ _ _ => ?_
  refine yields_count.bind fun actual _ _ => ?_
  refine (yields_rows yields_rowString actual).bind fun values _ _ => ?_
  refine yields_refuse.bind fun _ _ enough => Yields.pure ⟨?_, by omega⟩
  rw [VectorData.Backed]
  omega

theorem yields_blobs :
    Yields (decodeBlobs count validity) fun data used =>
      data.Backed type count ∧ count ≤ used := by
  refine (yields_field 102).bind fun _ _ _ => ?_
  refine yields_count.bind fun actual _ _ => ?_
  refine (yields_rows yields_rowBlob actual).bind fun values _ _ => ?_
  refine yields_refuse.bind fun _ _ enough => Yields.pure ⟨?_, by omega⟩
  rw [VectorData.Backed]
  omega

theorem yields_entry (childCount : Nat) :
    Yields (decodeEntry childCount) fun entry used =>
      entry.1.toNat + entry.2.toNat ≤ childCount ∧ 1 ≤ used := by
  refine (yields_field 100).bind fun _ _ _ => ?_
  refine yields_u64.bind fun offset _ small => ?_
  refine (yields_field 101).bind fun _ _ _ => ?_
  refine yields_u64.bind fun length _ small' => ?_
  refine (yields_field _).bind fun _ _ _ => ?_
  refine yields_refuse.bind fun _ _ _ => ?_
  refine yields_refuse.bind fun _ _ within => Yields.pure ⟨?_, by omega⟩
  rw [UInt64.toNat_ofNat_of_lt' small.1, UInt64.toNat_ofNat_of_lt' small'.1]
  omega

variable (below : ∀ childType rows, Yields (child childType rows) fun v _ => v.Backed rows)

include below

theorem yields_list :
    Yields (decodeList child type count) fun data used =>
      data.Backed type count ∧ count ≤ used := by
  refine (yields_field 104).bind fun _ _ _ => ?_
  refine yields_u64.bind fun childCount _ small => ?_
  refine (yields_field 105).bind fun _ _ _ => ?_
  refine yields_count.bind fun actual _ _ => ?_
  refine (Yields.all_costly (fun entry => entry.1.toNat + entry.2.toNat ≤ childCount)
    fun r listed => ?_).bind fun entries _ found => ?_
  · rw [List.eq_of_mem_replicate listed]
    exact yields_entry childCount
  rw [List.length_replicate] at found
  refine yields_refuse.bind fun _ _ enough => ?_
  refine (yields_field 106).bind fun _ _ _ => ?_
  split
  next childType _ =>
    refine (below childType childCount).bind fun childVec _ backed => ?_
    refine (yields_field _).bind fun _ _ _ => Yields.pure ⟨?_, by omega⟩
    rw [VectorData.Backed, UInt64.toNat_ofNat_of_lt' small.1]
    exact ⟨by omega, found.2.1, backed⟩
  next => exact .throw

theorem yields_array :
    Yields (decodeArray child type count) fun data _ => data.Backed type count := by
  refine (yields_field 103).bind fun _ _ _ => ?_
  refine yields_u64.bind fun arraySize _ small => ?_
  refine (yields_field 104).bind fun _ _ _ => ?_
  split
  next childType _ _ =>
    refine yields_refuse.bind fun _ _ _ => ?_
    refine (below childType _).bind fun childVec _ backed => ?_
    refine (yields_field _).bind fun _ _ _ => Yields.pure ?_
    rw [VectorData.Backed, UInt64.toNat_ofNat_of_lt' small.1]
    exact backed
  next => exact .throw

theorem yields_fields (fields : List (String × LogicalType)) :
    Yields (all (fields.map fun field => closed (child field.2 count)))
      fun children _ => childrenBacked count children := by
  refine (Yields.all (p := fun v _ => v.Backed count)
    (s := fun children _ => childrenBacked count children) (fun r listed => ?_) ?_
    fun v _ children _ head tail => ?_).mono fun _ _ found => found.2
  · obtain ⟨field, -, rfl⟩ := List.mem_map.mp listed
    exact yields_closed (below field.2 count)
  · rw [childrenBacked]
    trivial
  · rw [childrenBacked]
    exact ⟨head, tail⟩

theorem yields_struct :
    Yields (decodeStruct child type count) fun data _ => data.Backed type count := by
  refine (yields_field 103).bind fun _ _ _ => ?_
  refine yields_count.bind fun childCount _ _ => ?_
  split
  next fields _ =>
    refine yields_refuse.bind fun _ _ _ => ?_
    refine yields_refuse.bind fun _ _ _ => ?_
    refine (yields_fields below fields).bind fun children _ found => Yields.pure ?_
    exact found
  next => exact .throw

/-- The branches by type: rows of fixed size, texts, blobs and lists pay for themselves. -/
theorem decodeData_cases :
    (Yields (decodeData child type count validity) fun data used =>
      data.Backed type count ∧ count ≤ used) ∨
    (type.id = .array ∧ decodeData child type count validity = decodeArray child type count) ∨
    ((type.id = .struct ∨ type.id = .union) ∧
      decodeData child type count validity = decodeStruct child type count) := by
  unfold decodeData
  split
  · exact .inl (yields_list below)
  · exact .inl (yields_list below)
  next is => exact .inr (.inl ⟨is, rfl⟩)
  next is => exact .inr (.inr ⟨.inl is, rfl⟩)
  next is => exact .inr (.inr ⟨.inr is, rfl⟩)
  · left
    split
    next width has =>
      refine (yields_fixed has).mono fun data used found => ⟨found.1, ?_⟩
      have wide := Nat.mul_le_mul_left count (physicalWidth_pos has)
      omega
    next =>
      split
      · exact yields_strings
      · exact yields_blobs
      · exact .throw

theorem yields_data :
    Yields (decodeData child type count validity) fun data _ => data.Backed type count := by
  rcases decodeData_cases below with leaf | ⟨-, same⟩ | ⟨-, same⟩
  · exact leaf.mono fun _ _ found => found.1
  · rw [same]
    exact yields_array below
  · rw [same]
    exact yields_struct below

theorem yields_vector : Yields (decodeVector child type count) fun v _ => v.Backed count := by
  refine yields_flat.bind fun _ _ _ => ?_
  refine (yields_field 100).bind fun _ _ _ => ?_
  refine yields_validity.bind fun validity _ _ => ?_
  refine (yields_data below).bind fun data _ holds => Yields.pure ?_
  exact holds

end Branches

theorem yields_decode (depth : Nat) (type : LogicalType) (count : Nat) :
    Yields (Vector.decodeWithDepth depth type count) fun v _ => v.Backed count := by
  induction depth generalizing type count with
  | zero => exact .throw
  | succ depth ih => exact yields_vector fun childType rows => ih childType rows

/-- At least one byte was taken for eight rows. -/
def Paid (count : Nat) (input rest : Bytes) : Prop :=
  count + 8 * rest.length ≤ 8 * input.length

variable {input rest : Bytes} {count : Nat}

theorem Paid.of_yields {r : Decoder α} {p : α → Nat → Prop}
    (taken : Yields r p) (read : r.run input = .ok (a, rest))
    (enough : ∀ used, p a used → count ≤ 8 * used) : Paid count input rest := by
  obtain ⟨used, length, post⟩ := taken input a rest read
  have := enough used post
  unfold Paid
  omega

theorem length_le_of_yields {r : Decoder α} {p : α → Nat → Prop}
    (taken : Yields r p) (read : r.run input = .ok (a, rest)) :
    rest.length ≤ input.length := by
  obtain ⟨used, length, -⟩ := taken input a rest read
  omega

theorem Paid.widen {input' rest' : Bytes} (paid : Paid count input rest)
    (before : input.length ≤ input'.length) (after : rest'.length ≤ rest.length) :
    Paid count input' rest' := by
  unfold Paid at *
  omega

theorem closed_ok {object : Decoder α} :
    (closed object).run input = .ok (a, rest) ↔
      ∃ mid, object.run input = .ok (a, mid) ∧ expectObjectEnd.run mid = .ok ((), rest) := by
  simp only [closed, run_bind_ok, run_pure_ok]
  constructor
  · rintro ⟨_, mid, inside, _, _, done, rfl, rfl⟩
    exact ⟨mid, inside, done⟩
  · rintro ⟨mid, inside, done⟩
    exact ⟨a, mid, inside, (), rest, done, rfl, rfl⟩

theorem refuse_ok {bad : Prop} [Decidable bad] {error : WireError} {u : Unit} :
    (refuseWhen bad error).run input = .ok (u, rest) ↔ ¬ bad ∧ input = rest := by
  unfold refuseWhen
  split
  next refused => exact iff_of_false run_throw_ok fun fine => fine.1 refused
  next fine =>
    rw [run_pure_ok]
    exact ⟨fun same => ⟨fine, same.2⟩, fun same => ⟨rfl, same.2⟩⟩

theorem validity_none :
    (decodeValidity count).run input = .ok (none, rest) ↔
      readBool.run input = .ok (false, rest) := by
  unfold decodeValidity
  rw [run_bind_ok]
  constructor
  · rintro ⟨flag, mid, read, more⟩
    cases flag with
    | false =>
      obtain ⟨-, rfl⟩ := run_pure_ok.mp more
      exact read
    | true =>
      have more : (decodeMask count).run mid = .ok (none, rest) := more
      simp only [decodeMask, run_bind_ok, run_pure_ok] at more
      obtain ⟨_, _, _, _, _, _, _, _, _, bits, _⟩ := more
      cases bits
  · exact fun read => ⟨false, rest, read, run_pure_ok.mpr ⟨rfl, rfl⟩⟩

theorem mul_foldr_max_lt_iff {bound : Nat} {factors : List Nat} :
    count * factors.foldr max 1 < bound ↔
      count < bound ∧ ∀ factor ∈ factors, count * factor < bound := by
  induction factors with
  | nil => simp
  | cons factor factors ih =>
    rw [List.foldr_cons, ← Nat.mul_max_mul_left, Nat.max_lt, ih, List.forall_mem_cons]
    tauto

theorem foldr_max_pos (factors : List Nat) : 0 < factors.foldr max 1 := by
  induction factors with
  | nil => exact Nat.one_pos
  | cons factor factors ih => exact Nat.lt_of_lt_of_le ih (Nat.le_max_right _ _)

section Levels

variable {child : LogicalType → Nat → Decoder Vector} {empty : LogicalType → Decoder Nat}
  {type : LogicalType} {count : Nat} {input rest : Bytes}

/-- The rows are found empty, and their number at no level overflows. -/
def FoundEmpty (empty : Decoder Nat) (count : Nat) (input rest : Bytes) : Prop :=
  ∃ factor, empty.run input = .ok (factor, rest) ∧ count * factor < 2 ^ 64

/-- How a successful decode of rows relates to the reader of empty rows. -/
def PaidOrEmpty (decode : Nat → Decoder Vector) (empty : Decoder Nat) : Prop :=
  ∀ count input v rest, 0 < count → count < 2 ^ 64 → (decode count).run input = .ok (v, rest) →
    Paid count input rest ∨ FoundEmpty empty count input rest

section

variable (levels : ∀ childType, PaidOrEmpty (child childType) (empty childType))

include levels

theorem array_paid_or_empty {data : VectorData} (some_ : 0 < count) (small : count < 2 ^ 64)
    (read : (decodeArray child type count).run input = .ok (data, rest)) :
    Paid count input rest ∨ FoundEmpty (emptyArray child empty type) count input rest := by
  unfold decodeArray at read
  simp only [run_bind_ok] at read
  obtain ⟨_, mid, field, arraySize, mid', size, _, mid'', field', read⟩ := read
  split at read
  next childType childSize has =>
    unfold FoundEmpty emptyArray
    simp only [has, run_bind_ok, run_pure_ok, refuse_ok, not_not] at read ⊢
    obtain ⟨_, _, ⟨⟨short, product⟩, rfl⟩, childVec, last, inside, _, _, done, -, rfl⟩ := read
    rcases Nat.eq_zero_or_pos arraySize with none | more
    · -- No row of the child is read, so that the count does not matter.
      right
      rw [none, Nat.zero_mul] at inside
      refine ⟨1, ⟨(), mid, field, arraySize, mid', size, (), mid'', field', ?_⟩, by omega⟩
      simp only [if_pos none, run_bind_ok, run_pure_ok, closed_ok]
      exact ⟨childVec, _, ⟨last, inside, done⟩, trivial, rfl⟩
    · have least : count ≤ arraySize * count := Nat.le_mul_of_pos_left count more
      rcases levels childType _ mid'' childVec last (by omega) product inside with
        paid | ⟨factor, found, fits⟩
      · left
        have fewer : Paid count mid'' last := Nat.le_trans (by omega) paid
        refine fewer.widen ?_ (length_le_of_yields (yields_field _) done)
        exact (length_le_of_yields (yields_field _) field').trans
          ((length_le_of_yields yields_u64 size).trans (length_le_of_yields (yields_field _) field))
      · right
        refine ⟨arraySize * factor, ⟨(), mid, field, arraySize, mid', size, (), mid'', field',
          ?_⟩, ?_⟩
        · simp only [if_neg (Nat.ne_of_gt more), run_bind_ok, run_pure_ok, closed_ok, refuse_ok]
          exact ⟨(), mid'', ⟨Nat.not_lt.mpr short, rfl⟩, factor, _, ⟨last, found, done⟩, rfl, rfl⟩
        · rwa [← Nat.mul_assoc, Nat.mul_comm count]
  next => exact absurd read run_throw_ok

variable (below : ∀ childType rows, Yields (child childType rows) fun v _ => v.Backed rows)

include below

theorem fields_paid_or_empty {fields : List (String × LogicalType)} {children : List Vector}
    (some_ : 0 < count) (small : count < 2 ^ 64)
    (read : (all (fields.map fun field => closed (child field.2 count))).run input =
      .ok (children, rest)) :
    Paid count input rest ∨ ∃ factors,
      (all (fields.map fun field => closed (empty field.2))).run input = .ok (factors, rest) ∧
        ∀ factor ∈ factors, count * factor < 2 ^ 64 := by
  induction fields generalizing input children with
  | nil =>
    obtain ⟨-, rfl⟩ := run_pure_ok.mp read
    exact .inr ⟨[], run_pure_ok.mpr ⟨rfl, rfl⟩, nofun⟩
  | cons field fields ih =>
    simp only [List.map_cons, all, run_bind_ok, run_pure_ok, closed_ok] at read ⊢
    obtain ⟨v, mid', ⟨mid, inside, done⟩, children, _, others, -, rfl⟩ := read
    have ended := length_le_of_yields (yields_field _) done
    have taken := length_le_of_yields (below field.2 count) inside
    rcases levels field.2 count input v mid some_ small inside with
      paid | ⟨factor, found, fits⟩
    · left
      exact paid.widen (Nat.le_refl _)
        ((length_le_of_yields (yields_fields below fields) others).trans ended)
    · rcases ih others with paid | ⟨factors, founds, fit⟩
      · exact .inl (paid.widen (ended.trans taken) (Nat.le_refl _))
      · right
        exact ⟨factor :: factors, ⟨factor, mid', ⟨mid, found, done⟩, factors, _, founds, rfl,
          rfl⟩, List.forall_mem_cons.mpr ⟨fits, fit⟩⟩

theorem struct_paid_or_empty {data : VectorData} (some_ : 0 < count) (small : count < 2 ^ 64)
    (read : (decodeStruct child type count).run input = .ok (data, rest)) :
    Paid count input rest ∨ FoundEmpty (emptyStruct empty type) count input rest := by
  unfold decodeStruct at read
  simp only [run_bind_ok] at read
  obtain ⟨_, mid, field, childCount, mid', counted, read⟩ := read
  split at read
  next fields has =>
    unfold FoundEmpty emptyStruct
    simp only [has, run_bind_ok, run_pure_ok, refuse_ok] at read ⊢
    obtain ⟨_, _, ⟨same, rfl⟩, _, _, ⟨members, rfl⟩, children, _, inside, -, rfl⟩ := read
    rcases fields_paid_or_empty levels below some_ small inside with
      paid | ⟨factors, found, fit⟩
    · left
      exact paid.widen ((length_le_of_yields yields_count counted).trans
        (length_le_of_yields (yields_field _) field)) (Nat.le_refl _)
    · right
      refine ⟨factors.foldr max 1, ⟨(), mid, field, childCount, _, counted, ?_⟩, ?_⟩
      · exact ⟨(), _, ⟨same, rfl⟩, (), _, ⟨members, rfl⟩, factors, _, found, rfl, rfl⟩
      · exact mul_foldr_max_lt_iff.mpr ⟨small, fit⟩
  next => exact absurd read run_throw_ok

theorem vector_paid_or_empty (type : LogicalType) :
    PaidOrEmpty (decodeVector child type) (emptyVector child empty type) := by
  intro count input v rest some_ small read
  unfold decodeVector at read
  simp only [run_bind_ok, run_pure_ok] at read
  obtain ⟨_, mid, flat, _, mid', field, validity, mid'', mask, data, _, inside, -, rfl⟩ := read
  have before : mid'.length ≤ input.length :=
    (length_le_of_yields (yields_field _) field).trans (length_le_of_yields yields_flat flat)
  have masked := length_le_of_yields yields_validity mask
  have after := length_le_of_yields (yields_data below) inside
  cases validity with
  | some bits =>
    have paid : Paid count mid' mid'' := .of_yields yields_validity mask fun _ holds => holds rfl
    exact .inl (paid.widen before after)
  | none =>
    have unmasked := validity_none.mp mask
    rcases decodeData_cases below with leaf | ⟨is, same⟩ | ⟨is, same⟩
    · have paid : Paid count mid'' _ := .of_yields leaf inside fun used holds => by omega
      exact .inl (paid.widen (masked.trans before) (Nat.le_refl _))
    · rw [same] at inside
      refine (array_paid_or_empty levels some_ small inside).imp
        (fun paid => paid.widen (masked.trans before) (Nat.le_refl _)) ?_
      rintro ⟨factor, found, fits⟩
      refine ⟨factor, ?_, fits⟩
      simp only [emptyVector, run_bind_ok, refuse_ok, is]
      exact ⟨(), mid, flat, (), mid', field, false, mid'', unmasked, (), mid'', ⟨nofun, rfl⟩, found⟩
    · rw [same] at inside
      refine (struct_paid_or_empty levels below some_ small inside).imp
        (fun paid => paid.widen (masked.trans before) (Nat.le_refl _)) ?_
      rintro ⟨factor, found, fits⟩
      refine ⟨factor, ?_, fits⟩
      simp only [emptyVector, run_bind_ok, refuse_ok]
      refine ⟨(), mid, flat, (), mid', field, false, mid'', unmasked, (), mid'', ⟨nofun, rfl⟩, ?_⟩
      rcases is with is | is <;> rw [is] <;> exact found

end

/-- Rows that are found empty decode for every count that does not overflow. -/
def DecodesEmpty (decode : Nat → Decoder Vector) (empty : Decoder Nat) : Prop :=
  ∀ input factor rest, empty.run input = .ok (factor, rest) → 0 < factor ∧
    ∀ count, count * factor < 2 ^ 64 → ∃ v, (decode count).run input = .ok (v, rest)

section

variable (levels : ∀ childType, DecodesEmpty (child childType) (empty childType))

include levels

theorem array_decodes_empty {factor : Nat}
    (found : (emptyArray child empty type).run input = .ok (factor, rest)) :
    0 < factor ∧ ∀ count, count * factor < 2 ^ 64 →
      ∃ data, (decodeArray child type count).run input = .ok (data, rest) := by
  unfold emptyArray at found
  simp only [run_bind_ok] at found
  obtain ⟨_, mid, field, arraySize, mid', size, _, mid'', field', found⟩ := found
  split at found
  next childType childSize has =>
    unfold decodeArray
    simp only [has, run_bind_ok, run_pure_ok, refuse_ok]
    split at found
    next none =>
      simp only [run_bind_ok, run_pure_ok, closed_ok] at found
      obtain ⟨v, _, ⟨last, inside, done⟩, rfl, rfl⟩ := found
      refine ⟨Nat.one_pos, fun count _ => ?_⟩
      subst none
      refine ⟨.array 0 v, (), mid, field, 0, mid', size, (), mid'', field', ?_⟩
      simp only [Nat.zero_mul]
      exact ⟨(), mid'', ⟨fun bad => bad ⟨by decide, by decide⟩, rfl⟩, v, last, inside, (), _,
        done, rfl, rfl⟩
    next more =>
      simp only [run_bind_ok, run_pure_ok, closed_ok, refuse_ok] at found
      obtain ⟨_, _, ⟨short, rfl⟩, inner, _, ⟨last, inside, done⟩, rfl, rfl⟩ := found
      obtain ⟨positive, decodes⟩ := levels childType _ _ _ inside
      refine ⟨Nat.mul_pos (Nat.pos_of_ne_zero more) positive, fun count fits => ?_⟩
      rw [← Nat.mul_assoc, Nat.mul_comm count] at fits
      have product : arraySize * count < 2 ^ 64 :=
        Nat.lt_of_le_of_lt (Nat.le_mul_of_pos_right _ positive) fits
      obtain ⟨v, inside⟩ := decodes _ fits
      refine ⟨.array (UInt64.ofNat arraySize) v, (), mid, field, arraySize, mid', size, (),
        mid'', field', ?_⟩
      exact ⟨(), mid'', ⟨fun bad => bad ⟨Nat.not_lt.mp short, product⟩, rfl⟩, v, last, inside,
        (), _, done, rfl, rfl⟩
  next => exact absurd found run_throw_ok

theorem fields_decode_empty {fields : List (String × LogicalType)} {factors : List Nat}
    (found : (all (fields.map fun field => closed (empty field.2))).run input =
      .ok (factors, rest)) (fit : ∀ factor ∈ factors, count * factor < 2 ^ 64) :
    ∃ children, (all (fields.map fun field => closed (child field.2 count))).run input =
      .ok (children, rest) := by
  induction fields generalizing input factors with
  | nil =>
    obtain ⟨-, rfl⟩ := run_pure_ok.mp found
    exact ⟨[], run_pure_ok.mpr ⟨rfl, rfl⟩⟩
  | cons field fields ih =>
    simp only [List.map_cons, all, run_bind_ok, run_pure_ok, closed_ok] at found ⊢
    obtain ⟨factor, mid', ⟨mid, inside, done⟩, factors, _, others, rfl, rfl⟩ := found
    obtain ⟨fits, fit⟩ := List.forall_mem_cons.mp fit
    obtain ⟨v, inside⟩ := (levels field.2 _ _ _ inside).2 count fits
    obtain ⟨children, others⟩ := ih others fit
    exact ⟨v :: children, v, mid', ⟨mid, inside, done⟩, children, _, others, rfl, rfl⟩

theorem struct_decodes_empty {factor : Nat}
    (found : (emptyStruct empty type).run input = .ok (factor, rest)) :
    0 < factor ∧ ∀ count, count * factor < 2 ^ 64 →
      ∃ data, (decodeStruct child type count).run input = .ok (data, rest) := by
  unfold emptyStruct at found
  simp only [run_bind_ok] at found
  obtain ⟨_, mid, field, childCount, mid', counted, found⟩ := found
  split at found
  next fields has =>
    unfold decodeStruct
    simp only [has, run_bind_ok, run_pure_ok, refuse_ok] at found ⊢
    obtain ⟨_, _, ⟨same, rfl⟩, _, _, ⟨members, rfl⟩, factors, _, inside, rfl, rfl⟩ := found
    refine ⟨foldr_max_pos factors, fun count fits => ?_⟩
    obtain ⟨children, inside⟩ :=
      fields_decode_empty levels inside (mul_foldr_max_lt_iff.mp fits).2
    refine ⟨.struct children, (), mid, field, childCount, _, counted, ?_⟩
    exact ⟨(), _, ⟨same, rfl⟩, (), _, ⟨members, rfl⟩, children, _, inside, rfl, rfl⟩
  next => exact absurd found run_throw_ok

theorem vector_decodes_empty (type : LogicalType) :
    DecodesEmpty (decodeVector child type) (emptyVector child empty type) := by
  intro input factor rest found
  unfold emptyVector at found
  simp only [run_bind_ok, refuse_ok] at found
  obtain ⟨_, mid, flat, _, mid', field, masked, mid'', mask, _, _, ⟨unmasked, rfl⟩, found⟩ := found
  have inside : 0 < factor ∧ ∀ count, count * factor < 2 ^ 64 →
      ∃ data, (decodeData child type count none).run mid'' = .ok (data, rest) := by
    split at found
    next is => simpa only [decodeData_array is] using array_decodes_empty levels found
    next is => simpa only [decodeData_struct (.inl is)] using struct_decodes_empty levels found
    next is => simpa only [decodeData_struct (.inr is)] using struct_decodes_empty levels found
    next => exact absurd found run_throw_ok
  refine ⟨inside.1, fun count fits => ?_⟩
  obtain ⟨data, read⟩ := inside.2 count fits
  rw [Bool.not_eq_true] at unmasked
  subst unmasked
  simp only [decodeVector, run_bind_ok, run_pure_ok]
  exact ⟨_, (), mid, flat, (), mid', field, none, mid'', validity_none.mpr mask, data, _, read,
    rfl, rfl⟩

end

end Levels

theorem paid_or_empty (depth : Nat) (type : LogicalType) :
    PaidOrEmpty (Vector.decodeWithDepth depth type) (Vector.emptyWithDepth depth type) := by
  induction depth generalizing type with
  | zero => exact fun _ _ _ _ _ _ read => absurd read run_throw_ok
  | succ depth ih => exact vector_paid_or_empty ih (yields_decode depth) type

theorem decodes_empty (depth : Nat) (type : LogicalType) :
    DecodesEmpty (Vector.decodeWithDepth depth type) (Vector.emptyWithDepth depth type) := by
  induction depth generalizing type with
  | zero => exact fun _ _ _ found => absurd found run_throw_ok
  | succ depth ih => exact vector_decodes_empty ih type

/-- A wire-supplied row count never exceeds what the bytes pay for, and every vector below backs
its own rows, unless the bytes are a vector of empty arrays and the counts that nobody pays for do
not overflow. -/
theorem rows_backed_iff (type : LogicalType) (input : Bytes) :
    (∀ count < 2 ^ 64, ∀ v rest, (Vector.decode type count).run input = .ok (v, rest) →
      count ≤ 8 * (input.length - rest.length) ∧ v.Backed count) ↔
    ∀ factor rest, (Vector.emptyRows type).run input = .ok (factor, rest) →
      2 ^ 64 ≤ (8 * (input.length - rest.length) + 1) * factor := by
  constructor
  · intro bounded factor rest found
    by_contra fits
    obtain ⟨positive, decodes⟩ := decodes_empty maxDecodeDepth type input factor rest found
    have fits := Nat.not_le.mp fits
    obtain ⟨v, read⟩ := decodes _ fits
    have small := Nat.lt_of_le_of_lt (Nat.le_mul_of_pos_right _ positive) fits
    have := (bounded _ small v rest read).1
    omega
  · intro overflows count small v rest read
    obtain ⟨-, length, backed⟩ := yields_decode maxDecodeDepth type count input v rest read
    refine ⟨?_, backed⟩
    rcases Nat.eq_zero_or_pos count with rfl | some_
    · exact Nat.zero_le _
    rcases paid_or_empty maxDecodeDepth type count input v rest some_ small read with
      paid | ⟨factor, found, fits⟩
    · unfold Paid at paid
      omega
    · -- The count itself does not overflow, so that it is one of those the bytes pay for.
      by_contra more
      have least : (8 * (input.length - rest.length) + 1) * factor ≤ count * factor :=
        Nat.mul_le_mul_right factor (by omega)
      exact absurd (overflows factor rest found) (by omega)

/-- A million rows of arrays of no integers, in sixteen bytes. -/
theorem empty_arrays_decode :
    let type : LogicalType := .mk .array (some (.array (.mk .integer none) 0))
    let input : Bytes :=
      [0x64, 0, 0, 0x67, 0, 0, 0x68, 0, 0x64, 0, 0, 0x66, 0, 0, 0xFF, 0xFF]
    (∃ v, (Vector.decode type 1000000).run input = .ok (v, [])) ∧ 8 * input.length < 1000000 :=
  ⟨⟨_, rfl⟩, by decide⟩

end Sqe.Quack
