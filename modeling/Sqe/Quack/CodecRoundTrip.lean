/- GID: Sqe/Quack/CodecRoundTrip
   generality: G
   digest: Every primitive reader takes exactly what its writer wrote. -/

import Sqe.Quack.Varint

set_option autoImplicit false

namespace Sqe.Quack

open Sqe.Library.Reading List

variable {fieldId : Nat}

theorem takes_u64 {v : Nat} (fits : v < 2 ^ 64) (tail : Bytes) :
    Takes readU64 (encodeUnsigned v) v tail := by
  intro rest
  obtain ⟨done, value⟩ := encodeUnsigned_spec v
  refine (decodeUnsignedFrom_eq_ok (by decide)).mpr
    ⟨encodeUnsigned v, rfl, done, ?_, ?_⟩
  · exact Nat.le_trans (Nat.le_of_eq (Nat.zero_add _)) (encodeUnsigned_length_le 9 (by omega))
  · rw [value, Nat.zero_add, Nat.mul_zero, Nat.pow_zero, Nat.mul_one, Nat.mod_eq_of_lt fits]

theorem encodeUnsigned_pos (v : Nat) : 0 < (encodeUnsigned v).length := by
  rw [encodeUnsigned]
  split <;> simp

theorem takes_i64 {v : Int} (low : -2 ^ 63 ≤ v) (high : v < 2 ^ 63) (tail : Bytes) :
    Takes readI64 (encodeSigned v) v tail := by
  intro rest
  obtain ⟨done, value⟩ := encodeSigned_spec v
  refine (decodeSignedFrom_eq_ok (by decide)).mpr ⟨encodeSigned v, rfl, done, ?_, ?_⟩
  · exact Nat.le_trans (Nat.le_of_eq (Nat.zero_add _))
      (encodeSigned_length_le 9 (by omega) (by omega))
  · rw [value, Int.natCast_zero, Int.zero_add, Nat.mul_zero, Nat.pow_zero, Int.natCast_one,
      Int.mul_one, bmod_eq_self low high]

section

variable (small : fieldId < 2 ^ 16)
include small

theorem fieldId_bytes :
    (UInt8.ofNat fieldId).toNat + 256 * (UInt8.ofNat (fieldId / 256)).toNat = fieldId := by
  simp only [UInt8.toNat_ofNat']
  omega

theorem takes_u16 (tail : Bytes) : Takes readU16Le (beginProperty fieldId) fieldId tail := by
  intro rest
  simp only [beginProperty, cons_append, nil_append, StateT.run, readU16Le, fieldId_bytes small]

theorem takes_peek (tail : Bytes) : Takes peekField [] fieldId (beginProperty fieldId ++ tail) := by
  intro rest
  simp only [beginProperty, cons_append, nil_append, StateT.run, peekField, fieldId_bytes small]

theorem takes_field (tail : Bytes) :
    Takes (expectField fieldId) (beginProperty fieldId) () tail := by
  refine (takes_u16 small tail).bind_pure ?_
  rw [if_neg (not_not_intro rfl)]
  exact .pure () tail

theorem takes_property {α γ : Type} {reader : Decoder α} {next : α → Decoder γ} {a : α} {c : γ}
    {part rest tail : Bytes} (now : Takes reader part a (rest ++ tail))
    (then_ : Takes (next a) rest c tail) :
    Takes (do expectField fieldId; let a ← reader; next a)
      (beginProperty fieldId ++ (part ++ rest)) c tail :=
  (takes_field small _).bind (now.bind then_)

end

theorem takes_objectEnd (tail : Bytes) : Takes expectObjectEnd endObject () tail :=
  takes_field (by decide) tail

theorem takes_present (small : fieldId < 2 ^ 16) (tail : Bytes) :
    Takes (readOptional fieldId) (beginProperty fieldId) true tail := by
  refine (takes_peek small tail).bind ?_
  rw [if_pos rfl]
  exact (takes_u16 small tail).bind_pure (.pure true tail)

theorem takes_absent {other : Nat} (small : other < 2 ^ 16) (differs : other ≠ fieldId)
    (tail : Bytes) : Takes (readOptional fieldId) [] false (beginProperty other ++ tail) := by
  refine (takes_peek small tail).bind_pure ?_
  rw [if_neg differs]
  exact .pure false _

theorem takes_bool (value : Bool) (tail : Bytes) : Takes readBool (writeBool value) value tail := by
  intro rest
  cases value <;> rfl

theorem takes_u8 (value : UInt8) (tail : Bytes) : Takes readU8 (writeU8 value) value tail := by
  have small := value.toNat_lt
  refine (takes_u64 (by omega) tail).bind_pure ?_
  rw [if_pos small, UInt8.ofNat_toNat]
  exact .pure value tail

theorem takes_u32 (value : UInt32) (tail : Bytes) : Takes readU32 (writeU32 value) value tail := by
  have small := value.toNat_lt
  refine (takes_u64 (by omega) tail).bind_pure ?_
  rw [if_pos small, UInt32.ofNat_toNat]
  exact .pure value tail

theorem halves (value : BitVec 128) :
    BitVec.ofInt 128 ((value.sshiftRight 64).setWidth 64).toInt <<< 64 |||
      (BitVec.ofInt 64 (value.setWidth 64).toInt).setWidth 128 = value := by
  rw [BitVec.ofInt_toInt]
  change ((value.sshiftRight 64).setWidth 64).signExtend 128 <<< 64 ||| _ = _
  apply BitVec.eq_of_getLsbD_eq
  intro i small
  simp only [BitVec.getLsbD_or, BitVec.getLsbD_shiftLeft, BitVec.getLsbD_signExtend,
    BitVec.getLsbD_setWidth, BitVec.getLsbD_sshiftRight]
  by_cases low : i < 64
  · simp [low, small]
  · have inside : i - 64 < 64 := by omega
    have within : i - 64 < 128 := by omega
    have place : 64 + (i - 64) = i := by omega
    have under : ¬ 128 ≤ i - 64 := by omega
    simp [low, small, inside, within, place, under]

theorem takes_hugeint (value : BitVec 128) (tail : Bytes) :
    Takes readHugeint (writeHugeint value) value tail := by
  have bounds : ∀ half : BitVec 64, -2 ^ 63 ≤ half.toInt ∧ half.toInt < 2 ^ 63 := fun half =>
    ⟨BitVec.le_toInt half, BitVec.toInt_lt⟩
  refine (takes_i64 (bounds _).1 (bounds _).2 _).bind
    ((takes_i64 (bounds _).1 (bounds _).2 _).bind_pure ?_)
  rw [halves]
  exact .pure value tail

theorem takes_slice (bytes tail : Bytes) : Takes (readSlice bytes.length) bytes bytes tail := by
  intro rest
  have enough : ¬ (bytes ++ (tail ++ rest)).length < bytes.length := by
    rw [length_append]
    omega
  simp only [StateT.run, readSlice, if_neg enough, take_left, drop_left]

theorem takes_dataPtr {bytes : Bytes} (fits : bytes.length < 2 ^ 64) (tail : Bytes) :
    Takes readDataPtr (writeDataPtr bytes) bytes tail := by
  rw [writeDataPtr, beginList, Nat.mod_eq_of_lt fits]
  exact (takes_u64 fits _).bind (takes_slice bytes tail)

theorem fromUTF8_utf8 (value : String) : String.fromUTF8? ⟨(utf8 value).toArray⟩ = some value := by
  have same : (⟨(utf8 value).toArray⟩ : ByteArray) = value.toByteArray := rfl
  rw [same, String.fromUTF8?, dif_pos value.isValidUTF8]
  rfl

theorem takes_string {value : String} (fits : (utf8 value).length < 2 ^ 64) (tail : Bytes) :
    Takes readString (writeString value) value tail := by
  refine (takes_dataPtr fits tail).bind_pure ?_
  rw [fromUTF8_utf8]
  exact .pure value tail

theorem takes_skip {bytes : Bytes} (fits : bytes.length < 2 ^ 64) (tail : Bytes) :
    Takes skipString (writeDataPtr bytes) () tail :=
  (takes_dataPtr fits tail).bind_pure (.pure () tail)

theorem takes_count {count : Nat} {tail : Bytes} (fits : count < 2 ^ 64)
    (backed : count ≤ tail.length) : Takes readBoundedCount (beginList count) count tail := by
  rw [beginList, Nat.mod_eq_of_lt fits]
  refine (takes_u64 fits _).bind_pure ?_
  have check : Takes (checkRemaining count) [] () tail := by
    intro rest
    have enough : ¬ (tail ++ rest).length < count := by
      rw [length_append]
      omega
    simp only [StateT.run, checkRemaining, nil_append, if_neg enough]
  exact check.bind_pure (.pure count tail)

theorem takes_counted {γ : Type} {next : Nat → Decoder γ} {c : γ} {count : Nat} {rest tail : Bytes}
    (small : fieldId < 2 ^ 16) (fits : count < 2 ^ 64) (backed : count ≤ rest.length)
    (then_ : Takes (next count) rest c tail) :
    Takes (do expectField fieldId; let count ← readBoundedCount; next count)
      (beginProperty fieldId ++ (beginList count ++ rest)) c tail :=
  takes_property small (takes_count fits (by rw [length_append]; omega)) then_

end Sqe.Quack
