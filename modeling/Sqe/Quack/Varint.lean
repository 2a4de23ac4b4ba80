/- GID: Sqe/Quack/Varint
   generality: I
   digest: Which byte strings the varint decoders take for the number they stand for. -/

import Sqe.Quack.Codec

/-!
A varint is a run of marked bytes and one without a mark. It stands for a number of any size; the
decoders keep 64 bits of it.
-/

set_option autoImplicit false

namespace Sqe.Quack

open List

inductive Terminated : Bytes → Prop
  | last {b : UInt8} (unmarked : b.toNat < 128) : Terminated [b]
  | more {b : UInt8} {rest : Bytes} (marked : 128 ≤ b.toNat) (later : Terminated rest) :
      Terminated (b :: rest)

/-- Digits to the base 128, the lowest one first. -/
def unsignedValue : Bytes → Nat
  | [] => 0
  | b :: rest => b.toNat % 128 + 128 * unsignedValue rest

/-- The last digit of a signed varint carries the sign. -/
def signedDigit (b : UInt8) : Int :=
  if b.toNat % 128 < 64 then (b.toNat % 128 : Nat) else (b.toNat % 128 : Nat) - 128

def signedValue : Bytes → Int
  | [] => 0
  | [b] => signedDigit b
  | b :: rest => (b.toNat % 128 : Nat) + 128 * signedValue rest

/-- `decode_unsigned`: the value, and the number of bytes taken. -/
def decodeUnsigned (input : Bytes) : Except WireError (Nat × Nat) :=
  (decodeUnsignedFrom 0 0 input).map fun (value, rest) => (value, input.length - rest.length)

def decodeSigned (input : Bytes) : Except WireError (Int × Nat) :=
  (decodeSignedFrom 0 0 input).map fun (value, rest) => (value, input.length - rest.length)

theorem byte_bits (b : UInt8) :
    b.toNat &&& 0x7F = b.toNat % 128 ∧ (b.toNat &&& 0x80 = 0 ↔ b.toNat < 128) ∧
      (b.toNat &&& 0x40 = 0 ↔ b.toNat % 128 < 64) := by
  have all : ∀ n < 256, n &&& 0x7F = n % 128 ∧ (n &&& 0x80 = 0 ↔ n < 128) ∧
      (n &&& 0x40 = 0 ↔ n % 128 < 64) := by decide +kernel
  exact all _ b.toNat_lt

theorem Terminated.ne_nil {seq : Bytes} (done : Terminated seq) : seq ≠ [] := by
  cases done <;> exact cons_ne_nil _ _

variable {holds : Bytes → Prop}

theorem exists_terminated_of_last {b : UInt8} (last : b.toNat < 128) {input rest : Bytes} :
    (∃ seq, b :: input = seq ++ rest ∧ Terminated seq ∧ holds seq) ↔
      input = rest ∧ holds [b] := by
  constructor
  · rintro ⟨seq, whole, done, holds⟩
    cases done with
    | last => cases whole; exact ⟨rfl, holds⟩
    | more marked => cases whole; omega
  · rintro ⟨rfl, holds⟩
    exact ⟨[b], rfl, .last last, holds⟩

theorem exists_terminated_of_marked {b : UInt8} (marked : 128 ≤ b.toNat) {input rest : Bytes} :
    (∃ seq, b :: input = seq ++ rest ∧ Terminated seq ∧ holds seq) ↔
      ∃ seq, input = seq ++ rest ∧ Terminated seq ∧ holds (b :: seq) := by
  constructor
  · rintro ⟨seq, whole, done, holds⟩
    cases done with
    | last => cases whole; omega
    | more _ later => cases whole; exact ⟨_, rfl, later, holds⟩
  · rintro ⟨seq, rfl, done, holds⟩
    exact ⟨b :: seq, rfl, .more marked done, holds⟩

theorem signedValue_cons (b : UInt8) {rest : Bytes} (more : rest ≠ []) :
    signedValue (b :: rest) = (b.toNat % 128 : Nat) + 128 * signedValue rest := by
  cases rest with
  | nil => exact absurd rfl more
  | cons c rest => rfl

section Loop

variable {i value : Nat} {input rest : Bytes}

variable {b bits : Nat}

theorem or_shifted (read : value < 2 ^ (7 * i)) (fits : value + b * 2 ^ (7 * i) < 2 ^ 64) :
    value ||| (b <<< (7 * i)) % 2 ^ 64 = value + b * 2 ^ (7 * i) := by
  have shifted : b <<< (7 * i) = b * 2 ^ (7 * i) := Nat.shiftLeft_eq b _
  have low : (b <<< (7 * i)) % 2 ^ 64 = b <<< (7 * i) :=
    Nat.mod_eq_of_lt (by omega)
  rw [low, Nat.or_comm, ← Nat.shiftLeft_add_eq_or_of_lt read, shifted, Nat.add_comm]

theorem pow_seven_succ (i : Nat) : 2 ^ (7 * (i + 1)) = 128 * 2 ^ (7 * i) := by
  rw [Nat.mul_add, Nat.pow_add, Nat.mul_comm]

theorem or_shifted_mod (early : i ≤ 9) (read : value < 2 ^ (7 * i)) (small : b < 128) :
    value ||| (b <<< (7 * i)) % 2 ^ 64 = (value + b * 2 ^ (7 * i)) % 2 ^ 64 := by
  rcases Nat.lt_or_eq_of_le early with before | rfl
  · have room : 2 ^ (7 * (i + 1)) ≤ 2 ^ 63 := Nat.pow_le_pow_right (by decide) (by omega)
    have least : b * 2 ^ (7 * i) ≤ 127 * 2 ^ (7 * i) := Nat.mul_le_mul_right _ (by omega)
    rw [pow_seven_succ] at room
    rw [or_shifted read (by omega), Nat.mod_eq_of_lt (by omega)]
  · have shifted : b <<< (7 * 9) % 2 ^ 64 = 2 ^ 63 * (b % 2) := by
      omega
    have total := Nat.two_pow_add_eq_or_of_lt (i := 63) read (b % 2)
    rw [shifted, Nat.or_comm, ← total]
    omega

theorem not_exists_late (late : 10 ≤ i) :
    ¬ ∃ seq, input = seq ++ rest ∧ Terminated seq ∧ i + seq.length ≤ 10 ∧ holds seq := by
  rintro ⟨seq, -, done, short, -⟩
  have some_ := length_pos_of_ne_nil done.ne_nil
  omega

theorem not_exists_nil : ¬ ∃ seq, [] = seq ++ rest ∧ Terminated seq ∧ holds seq := by
  rintro ⟨seq, whole, done, -⟩
  exact done.ne_nil (append_eq_nil_iff.mp whole.symm).1

theorem add_digit_lt (read : value < 2 ^ (7 * i)) (small : b < 128) :
    value + b * 2 ^ (7 * i) < 2 ^ (7 * (i + 1)) := by
  have least : b * 2 ^ (7 * i) ≤ 127 * 2 ^ (7 * i) := Nat.mul_le_mul_right _ (by omega)
  rw [pow_seven_succ]
  omega

/-- A loop that keeps `kept i value seq` of the bytes `seq` takes a terminated front part of at most
ten bytes. -/
theorem loop_eq_ok {α : Type} {run : Nat → Nat → Bytes → Except WireError (α × Bytes)}
    (kept : Nat → Nat → Bytes → α) {v : α}
    (stops : ∀ i value, run i value [] = .error .unexpectedEof)
    (fails : ∀ {i value b input}, 10 ≤ i → run i value (b :: input) = .error .varintOverflow)
    (turn : ∀ {i value}, i ≤ 9 → value < 2 ^ (7 * i) → ∀ b input, run i value (b :: input) =
      if b.toNat < 128 then .ok (kept i value [b], input)
      else run (i + 1) ((value + b.toNat % 128 * 2 ^ (7 * i)) % 2 ^ 64) input)
    (digit : ∀ {i value b seq}, Terminated seq →
      kept (i + 1) ((value + b.toNat % 128 * 2 ^ (7 * i)) % 2 ^ 64) seq = kept i value (b :: seq))
    (read : value < 2 ^ (7 * i)) :
    run i value input = .ok (v, rest) ↔
      ∃ seq, input = seq ++ rest ∧ Terminated seq ∧ i + seq.length ≤ 10 ∧
        v = kept i value seq := by
  induction input generalizing i value with
  | nil =>
    rw [stops]
    exact iff_of_false (fun found => by cases found) not_exists_nil
  | cons b input ih =>
    by_cases late : 10 ≤ i
    · rw [fails late]
      exact iff_of_false (fun found => by cases found) (not_exists_late late)
    · rw [turn (by omega) read]
      by_cases last : b.toNat < 128
      · rw [if_pos last, exists_terminated_of_last last, Except.ok.injEq, Prod.mk.injEq,
          length_singleton]
        constructor
        · rintro ⟨rfl, rfl⟩
          exact ⟨rfl, by omega, rfl⟩
        · rintro ⟨rfl, -, rfl⟩
          exact ⟨rfl, rfl⟩
      · rw [if_neg last, exists_terminated_of_marked (Nat.not_lt.mp last),
          ih (Nat.lt_of_le_of_lt (Nat.mod_le _ _) (add_digit_lt read (Nat.mod_lt _ (by decide))))]
        refine exists_congr fun seq => and_congr_right fun _ => and_congr_right fun done => ?_
        rw [digit done, length_cons, Nat.add_assoc i, Nat.add_comm 1]

theorem decodeUnsignedFrom_eq_ok {v : Nat} (read : value < 2 ^ (7 * i)) :
    decodeUnsignedFrom i value input = .ok (v, rest) ↔
      ∃ seq, input = seq ++ rest ∧ Terminated seq ∧ i + seq.length ≤ 10 ∧
        v = (value + unsignedValue seq * 2 ^ (7 * i)) % 2 ^ 64 := by
  refine loop_eq_ok (fun i value seq => (value + unsignedValue seq * 2 ^ (7 * i)) % 2 ^ 64)
    (fun _ _ => rfl) (fun late => if_pos late) ?_ ?_ read
  · intro i value early read b input
    obtain ⟨bits, mark, -⟩ := byte_bits b
    rw [decodeUnsignedFrom, if_neg (by omega), bits,
      or_shifted_mod early read (Nat.mod_lt _ (by decide))]
    simp only [mark, unsignedValue, Nat.mul_zero, Nat.add_zero]
  · intro i value b seq _
    rw [Nat.mod_add_mod, unsignedValue, pow_seven_succ, Nat.add_mul, Nat.add_assoc value,
      Nat.mul_left_comm, Nat.mul_assoc]

theorem or_signs {shift : Nat} (read : value < 2 ^ shift) (below : shift < 64) :
    value ||| (2 ^ 64 - 2 ^ shift) = value + (2 ^ 64 - 2 ^ shift) := by
  have signs : 2 ^ 64 - 2 ^ shift = 2 ^ shift * (2 ^ (64 - shift) - 1) := by
    rw [Nat.mul_sub, ← Nat.pow_add, Nat.add_sub_cancel' (Nat.le_of_lt below), Nat.mul_one]
  rw [signs, Nat.or_comm, ← Nat.two_pow_add_eq_or_of_lt read, Nat.add_comm]

theorem toI64_eq_bmod (kept : bits < 2 ^ 64) : toI64 bits = (bits : Int).bmod (2 ^ 64) := by
  rw [toI64, Int.bmod]
  split <;> split <;> omega

theorem bmod_eq_self_iff {x : Int} : x.bmod (2 ^ 64) = x ↔ -2 ^ 63 ≤ x ∧ x < 2 ^ 63 := by
  rw [Int.bmod]
  split <;> omega

theorem bmod_eq_self {x : Int} (low : -2 ^ 63 ≤ x) (high : x < 2 ^ 63) : x.bmod (2 ^ 64) = x :=
  bmod_eq_self_iff.mpr ⟨low, high⟩

theorem bmod_eq_of_emod_eq {x y : Int} (same : x % (2 ^ 64 : Nat) = y % (2 ^ 64 : Nat)) :
    x.bmod (2 ^ 64) = y.bmod (2 ^ 64) := by
  rw [Int.bmod, Int.bmod, same]

theorem signed_last {b : UInt8} (early : i ≤ 9) (read : value < 2 ^ (7 * i)) :
    (if 7 * (i + 1) < 64 ∧ b.toNat &&& 0x40 ≠ 0 then
        toI64 ((value + b.toNat % 128 * 2 ^ (7 * i)) % 2 ^ 64 ||| (2 ^ 64 - 2 ^ (7 * (i + 1))))
      else toI64 ((value + b.toNat % 128 * 2 ^ (7 * i)) % 2 ^ 64)) =
      ((value : Int) + signedDigit b * (2 ^ (7 * i) : Nat)).bmod (2 ^ 64) := by
  obtain ⟨-, -, sign⟩ := byte_bits b
  have small : b.toNat % 128 < 128 := Nat.mod_lt _ (by decide)
  have below := add_digit_lt read small
  rw [signedDigit]
  generalize b.toNat % 128 = d at *
  rcases Nat.lt_or_eq_of_le early with before | rfl
  · have room : 2 ^ (7 * (i + 1)) ≤ 2 ^ 63 := Nat.pow_le_pow_right (by decide) (by omega)
    rw [Nat.mod_eq_of_lt (by omega)]
    have digit : (d : Int) * (2 ^ (7 * i) : Nat) = (d * 2 ^ (7 * i) : Nat) :=
      (Int.natCast_mul _ _).symm
    have whole : (128 : Int) * (2 ^ (7 * i) : Nat) = (2 ^ (7 * (i + 1)) : Nat) := by
      rw [pow_seven_succ, Int.natCast_mul]
      rfl
    by_cases positive : d < 64
    · rw [if_neg fun both => both.2 (sign.mpr positive), if_pos positive, toI64, if_pos (by omega),
        digit, bmod_eq_self (by omega) (by omega), Int.natCast_add]
    · have negative : ¬ b.toNat &&& 0x40 = 0 := fun plain => positive (sign.mp plain)
      rw [if_pos ⟨by omega, negative⟩, if_neg positive, or_signs below (by omega),
        toI64, if_neg (by omega), Int.sub_mul, digit, whole, bmod_eq_self (by omega) (by omega)]
      omega
  · rw [if_neg (by omega), toI64_eq_bmod (Nat.mod_lt _ (by decide))]
    refine bmod_eq_of_emod_eq ?_
    split <;> omega

theorem decodeSignedFrom_eq_ok {v : Int} (read : value < 2 ^ (7 * i)) :
    decodeSignedFrom i value input = .ok (v, rest) ↔
      ∃ seq, input = seq ++ rest ∧ Terminated seq ∧ i + seq.length ≤ 10 ∧
        v = ((value : Int) + signedValue seq * (2 ^ (7 * i) : Nat)).bmod (2 ^ 64) := by
  refine loop_eq_ok
    (fun i value seq => ((value : Int) + signedValue seq * (2 ^ (7 * i) : Nat)).bmod (2 ^ 64))
    (fun _ _ => rfl) (fun late => if_pos late) ?_ ?_ read
  · intro i value early read b input
    obtain ⟨bits, mark, -⟩ := byte_bits b
    rw [decodeSignedFrom, if_neg (by omega), bits,
      or_shifted_mod early read (Nat.mod_lt _ (by decide)), signedValue, ← signed_last early read,
      apply_ite (fun v => Except.ok (v, input))]
    simp only [mark]
  · intro i value b seq done
    refine bmod_eq_of_emod_eq ?_
    rw [Int.natCast_emod, Int.emod_add_emod, signedValue_cons b done.ne_nil, pow_seven_succ,
      Int.natCast_add, Int.natCast_mul, Int.natCast_mul, Int.add_mul, ← Int.add_assoc]
    congr 2
    rw [← Int.mul_assoc, Int.mul_comm (signedValue seq)]
    rfl

end Loop

theorem marked_byte {b : Nat} (small : b < 128) : (UInt8.ofNat (b ||| 0x80)).toNat = b + 128 := by
  revert b
  decide

theorem last_byte {b : Nat} (small : b < 128) : (UInt8.ofNat b).toNat = b :=
  UInt8.toNat_ofNat_of_lt' (Nat.lt_trans small (by decide))

theorem encodeUnsigned_eq (v : Nat) : encodeUnsigned v = if v / 128 = 0 then [UInt8.ofNat (v % 128)]
      else UInt8.ofNat (v % 128 ||| 0x80) :: encodeUnsigned (v / 128) := by
  rw [encodeUnsigned]
  simp only [show v &&& 0x7F = v % 128 from Nat.and_two_pow_sub_one_eq_mod v 7,
    show v >>> 7 = v / 128 from Nat.shiftRight_eq_div_pow v 7]

theorem encodeUnsigned_spec (v : Nat) :
    Terminated (encodeUnsigned v) ∧ unsignedValue (encodeUnsigned v) = v := by
  induction v using Nat.strongRecOn with
  | ind v ih =>
    have small : v % 128 < 128 := Nat.mod_lt _ (by decide)
    rw [encodeUnsigned_eq]
    split
    next done =>
      have byte := last_byte small
      refine ⟨.last (by omega), ?_⟩
      rw [unsignedValue, unsignedValue, byte]
      omega
    next more =>
      have byte := marked_byte small
      obtain ⟨later, value⟩ := ih (v / 128) (by omega)
      refine ⟨.more (by omega) later, ?_⟩
      rw [unsignedValue, value, byte]
      omega

theorem encodeUnsigned_length_le (k : Nat) {v : Nat} (small : v < 128 ^ (k + 1)) :
    (encodeUnsigned v).length ≤ k + 1 := by
  induction k generalizing v with
  | zero =>
    rw [encodeUnsigned_eq, if_pos (by omega)]
    exact Nat.le_refl _
  | succ k ih =>
    rw [encodeUnsigned_eq]
    split
    · exact Nat.succ_le_succ (Nat.zero_le _)
    · refine Nat.succ_le_succ (ih (Nat.div_lt_of_lt_mul ?_))
      rwa [Nat.mul_comm, ← Nat.pow_succ]

theorem sign_bit {b : Nat} (small : b < 128) : b &&& 0x40 = 0 ↔ b < 64 := by
  revert b
  decide

theorem signedDone_iff (v : Int) :
    signedDone (v / 128) (v % 128).toNat = true ↔ -64 ≤ v ∧ v < 64 := by
  have small : (v % 128).toNat < 128 := by omega
  simp only [signedDone, Bool.or_eq_true, Bool.and_eq_true, decide_eq_true_eq, ne_eq,
    sign_bit small]
  omega

theorem encodeSigned_spec (v : Int) :
    Terminated (encodeSigned v) ∧ signedValue (encodeSigned v) = v := by
  induction size : v.natAbs using Nat.strongRecOn generalizing v with
  | ind size ih =>
    have small : (v % 128).toNat < 128 := by omega
    rw [encodeSigned]
    split
    next done =>
      have byte := last_byte small
      rw [signedDone_iff] at done
      refine ⟨.last (by omega), ?_⟩
      rw [signedValue, signedDigit, byte]
      split <;> omega
    next more =>
      have byte := marked_byte small
      rw [signedDone_iff] at more
      obtain ⟨later, value⟩ := ih (v / 128).natAbs (by omega) (v / 128) rfl
      refine ⟨.more (by omega) later, ?_⟩
      rw [signedValue_cons _ later.ne_nil, value, byte]
      omega

theorem encodeSigned_length_le (k : Nat) {v : Int} (low : -(64 * 128 ^ k : Nat) ≤ v)
    (high : v < (64 * 128 ^ k : Nat)) : (encodeSigned v).length ≤ k + 1 := by
  induction k generalizing v with
  | zero =>
    rw [encodeSigned, if_pos ((signedDone_iff v).mpr (by omega))]
    exact Nat.le_refl _
  | succ k ih =>
    rw [encodeSigned]
    split
    · exact Nat.succ_le_succ (Nat.zero_le _)
    · rw [Nat.pow_succ] at low high
      exact Nat.succ_le_succ (ih (by omega) (by omega))

section Exact

variable {input seq front : Bytes} {n : Nat}

theorem Terminated.exists_last (done : Terminated seq) :
    ∃ front last, seq = front ++ [last] ∧ (∀ b ∈ front, 128 ≤ b.toNat) ∧ last.toNat < 128 := by
  induction done with
  | @last b unmarked => exact ⟨[], b, rfl, nofun, unmarked⟩
  | @more b rest marked _ ih =>
    obtain ⟨front, last, rfl, before, unmarked⟩ := ih
    exact ⟨b :: front, last, rfl, forall_mem_cons.mpr ⟨marked, before⟩, unmarked⟩

variable {last : UInt8}

theorem terminated_append (before : ∀ b ∈ front, 128 ≤ b.toNat)
    (unmarked : last.toNat < 128) : Terminated (front ++ [last]) := by
  induction front with
  | nil => exact .last unmarked
  | cons b front ih =>
    rw [forall_mem_cons] at before
    exact .more before.1 (ih before.2)

theorem unsignedValue_lt (seq : Bytes) : unsignedValue seq < 128 ^ seq.length := by
  induction seq with
  | nil => exact Nat.one_pos
  | cons b seq ih =>
    rw [unsignedValue, length_cons, Nat.pow_succ]
    omega

theorem unsignedValue_append_last (front : Bytes) (last : UInt8) :
    unsignedValue (front ++ [last]) =
      unsignedValue front + 128 ^ front.length * (last.toNat % 128) := by
  induction front with
  | nil => simp [unsignedValue]
  | cons b front ih =>
    rw [cons_append, unsignedValue, ih, unsignedValue, length_cons, Nat.pow_succ,
      Nat.mul_add, ← Nat.add_assoc, Nat.mul_comm (128 ^ front.length) 128, Nat.mul_assoc]

theorem signedValue_append_last (front : Bytes) (last : UInt8) :
    signedValue (front ++ [last]) =
      (unsignedValue front : Int) + (128 ^ front.length : Nat) * signedDigit last := by
  induction front with
  | nil => simp [unsignedValue, signedValue]
  | cons b front ih =>
    rw [cons_append, signedValue_cons b (by simp), ih, unsignedValue, length_cons, Nat.pow_succ]
    push_cast
    rw [Int.mul_add, ← Int.add_assoc, Int.mul_comm _ 128, Int.mul_assoc]

theorem map_taken_eq_ok {α : Type} {r : Except WireError (α × Bytes)} {v : α} {holds : Bytes → Prop}
    (spec : ∀ rest, r = .ok (v, rest) ↔
      ∃ seq, input = seq ++ rest ∧ Terminated seq ∧ 0 + seq.length ≤ 10 ∧ holds seq) :
    (r.map fun (value, rest) => (value, input.length - rest.length)) = .ok (v, n) ↔
      ∃ seq rest, input = seq ++ rest ∧ seq.length = n ∧ Terminated seq ∧ n ≤ 10 ∧ holds seq := by
  constructor
  · intro read
    cases run : r with
    | error e => rw [run] at read; cases read
    | ok result =>
      obtain ⟨value, rest⟩ := result
      rw [run] at read
      cases read
      obtain ⟨seq, rfl, done, short, holds⟩ := (spec rest).mp run
      rw [length_append, Nat.add_sub_cancel]
      rw [Nat.zero_add] at short
      exact ⟨seq, rest, rfl, rfl, done, short, holds⟩
  · rintro ⟨seq, rest, whole, rfl, done, short, holds⟩
    rw [(spec rest).mpr ⟨seq, whole, done, by omega, holds⟩]
    simp only [Except.map, whole, length_append, Nat.add_sub_cancel]

theorem decodeUnsigned_eq_ok {v : Nat} :
    decodeUnsigned input = .ok (v, n) ↔
      ∃ seq rest, input = seq ++ rest ∧ seq.length = n ∧ Terminated seq ∧ n ≤ 10 ∧
        v = unsignedValue seq % 2 ^ 64 := by
  refine map_taken_eq_ok fun rest => ?_
  rw [decodeUnsignedFrom_eq_ok (by decide)]
  simp only [Nat.mul_zero, Nat.pow_zero, Nat.mul_one, Nat.zero_add]

theorem decodeSigned_eq_ok {v : Int} :
    decodeSigned input = .ok (v, n) ↔
      ∃ seq rest, input = seq ++ rest ∧ seq.length = n ∧ Terminated seq ∧ n ≤ 10 ∧
        v = (signedValue seq).bmod (2 ^ 64) := by
  refine map_taken_eq_ok fun rest => ?_
  rw [decodeSignedFrom_eq_ok (by decide)]
  simp only [Nat.mul_zero, Nat.pow_zero, Nat.zero_add, Int.natCast_zero, Int.natCast_one,
    Int.mul_one, Int.zero_add]

def ReadsUnsigned (input : Bytes) : Prop :=
  ∀ v n, decodeUnsigned input = .ok (v, n) →
    Terminated (input.take n) ∧ unsignedValue (input.take n) = v

def ReadsSigned (input : Bytes) : Prop :=
  ∀ v n, decodeSigned input = .ok (v, n) →
    Terminated (input.take n) ∧ signedValue (input.take n) = v

/-- The input starts with a varint of ten bytes whose last one is of the given kind. -/
def TenthByte (holds : Nat → Prop) (input : Bytes) : Prop :=
  ∃ front tenth rest, input = front ++ [tenth] ++ rest ∧ front.length = 9 ∧
    (∀ b ∈ front, 128 ≤ b.toNat) ∧ tenth.toNat < 128 ∧ holds tenth.toNat

theorem takeWhile_marked (before : ∀ b ∈ front, 128 ≤ b.toNat)
    (unmarked : last.toNat < 128) (rest : Bytes) :
    (front ++ [last] ++ rest).takeWhile (fun b => 128 ≤ b.toNat) = front := by
  have all : ∀ b ∈ front, decide (128 ≤ b.toNat) = true := fun b listed => by
    simpa using before b listed
  rw [append_assoc, takeWhile_append_of_pos all, singleton_append,
    takeWhile_cons_of_neg (by simpa using unmarked), append_nil]

theorem tenthByte_iff {holds : Nat → Prop} (before : ∀ b ∈ front, 128 ≤ b.toNat)
    (unmarked : last.toNat < 128) (rest : Bytes) :
    TenthByte holds (front ++ [last] ++ rest) ↔ front.length = 9 ∧ holds last.toNat := by
  constructor
  · rintro ⟨front', tenth, rest', whole, nine, before', unmarked', is⟩
    have same : front = front' := by
      rw [← takeWhile_marked before unmarked rest, whole, takeWhile_marked before' unmarked' rest']
    subst same
    rw [append_assoc, append_assoc, append_cancel_left_eq, singleton_append,
      singleton_append] at whole
    obtain ⟨rfl, -⟩ := List.cons.inj whole
    exact ⟨nine, is⟩
  · rintro ⟨nine, is⟩
    exact ⟨front, last, rest, rfl, nine, before, unmarked, is⟩

theorem unsigned_fits_iff (done : Terminated seq) (short : seq.length ≤ 10) (rest : Bytes) :
    unsignedValue seq % 2 ^ 64 = unsignedValue seq ↔ ¬ TenthByte (2 ≤ ·) (seq ++ rest) := by
  obtain ⟨front, last, rfl, before, unmarked⟩ := done.exists_last
  rw [tenthByte_iff before unmarked, unsignedValue_append_last, Nat.mod_eq_of_lt unmarked]
  have below := unsignedValue_lt front
  rw [length_append, length_singleton] at short
  by_cases nine : front.length = 9
  · rw [nine] at below ⊢
    omega
  · have least : 128 ^ front.length ≤ 128 ^ 8 := Nat.pow_le_pow_right (by decide) (by omega)
    have top : 128 ^ front.length * last.toNat ≤ 128 ^ 8 * 127 := Nat.mul_le_mul least (by omega)
    omega

theorem signed_fits_iff (done : Terminated seq) (short : seq.length ≤ 10) (rest : Bytes) :
    (signedValue seq).bmod (2 ^ 64) = signedValue seq ↔
      ¬ TenthByte (fun tenth => tenth ≠ 0 ∧ tenth ≠ 127) (seq ++ rest) := by
  obtain ⟨front, last, rfl, before, unmarked⟩ := done.exists_last
  rw [bmod_eq_self_iff, tenthByte_iff before unmarked, signedValue_append_last, signedDigit,
    Nat.mod_eq_of_lt unmarked]
  have below := unsignedValue_lt front
  rw [length_append, length_singleton] at short
  by_cases nine : front.length = 9
  · rw [nine] at below ⊢
    split <;> omega
  · have least : 128 ^ front.length ≤ 128 ^ 8 := Nat.pow_le_pow_right (by decide) (by omega)
    refine iff_of_true ?_ fun both => nine both.1
    generalize 128 ^ front.length = scale at *
    split
    next small =>
      have top : scale * last.toNat ≤ 128 ^ 8 * 63 := Nat.mul_le_mul least (by omega)
      rw [← Int.natCast_mul]
      omega
    next large =>
      have bottom : scale * 64 ≤ scale * last.toNat := Nat.mul_le_mul_left _ (by omega)
      have top : scale * last.toNat ≤ scale * 127 := Nat.mul_le_mul_left _ (by omega)
      rw [Int.mul_sub, ← Int.natCast_mul]
      omega

theorem reads_iff {α : Type} {decode : Bytes → Except WireError (α × Nat)} {value : Bytes → α}
    {large : Nat → Prop} (keep : α → α)
    (spec : ∀ {input v n}, decode input = .ok (v, n) ↔ ∃ seq rest, input = seq ++ rest ∧
      seq.length = n ∧ Terminated seq ∧ n ≤ 10 ∧ v = keep (value seq))
    (fits : ∀ {seq}, Terminated seq → seq.length ≤ 10 → ∀ rest,
      (keep (value seq) = value seq ↔ ¬ TenthByte large (seq ++ rest))) :
    (∀ v n, decode input = .ok (v, n) →
      Terminated (input.take n) ∧ value (input.take n) = v) ↔ ¬ TenthByte large input := by
  constructor
  · rintro reads ⟨front, tenth, rest, rfl, nine, before, unmarked, is⟩
    have done := terminated_append before unmarked
    have short : (front ++ [tenth]).length ≤ 10 := by simp [nine]
    obtain ⟨-, same⟩ := reads _ _ (spec.mpr ⟨front ++ [tenth], rest, rfl, rfl, done, short, rfl⟩)
    rw [take_left] at same
    exact (fits done short rest).mp same.symm ⟨front, tenth, rest, rfl, nine, before, unmarked, is⟩
  · intro kept v n read
    obtain ⟨seq, rest, rfl, rfl, done, short, rfl⟩ := spec.mp read
    rw [take_left]
    exact ⟨done, ((fits done short rest).mpr kept).symm⟩

theorem decodeUnsigned_encodeUnsigned (v : UInt64) :
    decodeUnsigned (encodeUnsigned v.toNat) = .ok (v.toNat, (encodeUnsigned v.toNat).length) := by
  have fits := v.toNat_lt
  obtain ⟨done, value⟩ := encodeUnsigned_spec v.toNat
  refine decodeUnsigned_eq_ok.mpr ⟨_, [], (append_nil _).symm, rfl, done,
    encodeUnsigned_length_le 9 (by omega), ?_⟩
  rw [value, Nat.mod_eq_of_lt fits]

theorem decodeSigned_encodeSigned (v : Int64) :
    decodeSigned (encodeSigned v.toInt) = .ok (v.toInt, (encodeSigned v.toInt).length) := by
  have low := v.le_toInt
  have high := v.toInt_lt
  obtain ⟨done, value⟩ := encodeSigned_spec v.toInt
  refine decodeSigned_eq_ok.mpr ⟨_, [], (append_nil _).symm, rfl, done,
    encodeSigned_length_le 9 (by omega) (by omega), ?_⟩
  rw [value, bmod_eq_self low high]

end Exact

/-- A varint is read for the number it stands for unless it has ten bytes and the last one carries
more than the 64th bit; every number is read back from its varint. -/
theorem varint_exact_iff (input : Bytes) (v : UInt64) (w : Int64) :
    (ReadsUnsigned input ↔ ¬ TenthByte (2 ≤ ·) input) ∧
      (ReadsSigned input ↔ ¬ TenthByte (fun tenth => tenth ≠ 0 ∧ tenth ≠ 127) input) ∧
      decodeUnsigned (encodeUnsigned v.toNat) =
        .ok (v.toNat, (encodeUnsigned v.toNat).length) ∧
      decodeSigned (encodeSigned w.toInt) = .ok (w.toInt, (encodeSigned w.toInt).length) :=
  ⟨reads_iff (· % 2 ^ 64) decodeUnsigned_eq_ok unsigned_fits_iff,
    reads_iff (·.bmod (2 ^ 64)) decodeSigned_eq_ok signed_fits_iff, decodeUnsigned_encodeUnsigned v,
    decodeSigned_encodeSigned w⟩

/-- Nine bytes `0x80` and `0x02` stand for `2 ^ 64` and are read as 0; with `0x01` they stand, as a
signed varint, for `2 ^ 63` and are read as `-2 ^ 63`. -/
theorem tenth_byte_aliases :
    (decodeUnsigned (List.replicate 9 0x80 ++ [0x02]) = .ok (0, 10) ∧
      unsignedValue (List.replicate 9 0x80 ++ [0x02]) = 2 ^ 64 ∧
      ¬ ReadsUnsigned (List.replicate 9 0x80 ++ [0x02])) ∧
    (decodeSigned (List.replicate 9 0x80 ++ [0x01]) = .ok (-2 ^ 63, 10) ∧
      signedValue (List.replicate 9 0x80 ++ [0x01]) = 2 ^ 63 ∧
      ¬ ReadsSigned (List.replicate 9 0x80 ++ [0x01])) := by
  have read : decodeUnsigned (List.replicate 9 0x80 ++ [0x02]) = .ok (0, 10) := by decide +kernel
  have read' : decodeSigned (List.replicate 9 0x80 ++ [0x01]) = .ok (-2 ^ 63, 10) := by
    decide +kernel
  refine ⟨⟨read, by decide +kernel, fun reads => ?_⟩, read', by decide +kernel, fun reads => ?_⟩
  · exact absurd (reads _ _ read).2 (by decide +kernel)
  · exact absurd (reads _ _ read').2 (by decide +kernel)

end Sqe.Quack
