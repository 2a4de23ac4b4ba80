/- GID: Sqe/Policy/Widening
   generality: G
   digest: The casts the leakproof check accepts, and that they lose no value. -/

import Mathlib.Tactic.IntervalCases
import Sqe.DataFusion.CastLike

set_option autoImplicit false

namespace Sqe.Policy.Leakproof

open Sqe.DataFusion Option

def isString (t : DataType) : Bool := t.isText

/-- Integer digits a value of an integer type can need. -/
def integerDigits : DataType → Option Nat
  | .int8 | .uint8 => some 3
  | .int16 | .uint16 => some 5
  | .int32 | .uint32 => some 10
  | .int64 => some 19
  | .uint64 => some 20
  | _ => none

def signedWidth : DataType → Option Nat
  | .int8 => some 8
  | .int16 => some 16
  | .int32 => some 32
  | .int64 => some 64
  | _ => none

def unsignedWidth : DataType → Option Nat
  | .uint8 => some 8
  | .uint16 => some 16
  | .uint32 => some 32
  | .uint64 => some 64
  | _ => none

def decimalOf : DataType → Option (Nat × Int)
  | .decimal128 p s | .decimal256 p s => some (p, s)
  | _ => none

/-- The arms of `widens` that go to a float or a decimal. -/
def widensNumeric (source target : DataType) : Bool :=
  match target, decimalOf target with
  | .float64, _ => (integerDigits source).isSome || source = .float16 || source = .float32 ||
      (decimalOf source).isSome
  | .float32, _ => source = .float16 || source = .float32
  | _, some (p2, s2) => match decimalOf source with
      | some (p, s) => s2 ≥ s && (p2 : Int) - s2 ≥ p - s
      | none => (integerDigits source).any fun (d : Nat) => (p2 : Int) - s2 ≥ d
  | _, none => false

/-- Every value of `source` casts to `target` without error. Lossy but infallible conversions,
an integer to a float, count. -/
def widens (source target : DataType) : Bool :=
  if source = target || (isString source && isString target) then true
  else match signedWidth source, signedWidth target, unsignedWidth source, unsignedWidth target with
    | some a, some b, _, _ => a ≤ b
    | _, _, some a, some b => a ≤ b
    | _, some b, some a, _ => a < b
    | _, _, _, _ => widensNumeric source target

def range : DataType → Option (Int × Int)
  | .uint8 => some (0, 255)
  | .uint16 => some (0, 65535)
  | .uint32 => some (0, 4294967295)
  | .uint64 => some (0, 18446744073709551615)
  | t => t.intBounds

def InRange (t : DataType) (n : Int) : Prop :=
  (∀ low high, range t = some (low, high) → low ≤ n ∧ n ≤ high) ∧
    ∀ p s, decimalOf t = some (p, s) → n.natAbs < 10 ^ p

def WellFormed (v : ScalarValue) : Prop := ∀ n, v.number = some n → InRange v.dataType n

/-- The decimal with precision `p` and scale `s` holds `n / 10 ^ scale`, up to the digits its own
scale has no place for. -/
def decimalHolds (n scale : Int) (p : Nat) (s : Int) : Prop :=
  if scale ≤ s then n.natAbs * 10 ^ (s - scale).toNat < 10 ^ p
  else n.natAbs < 10 ^ (p + (scale - s)).toNat

def scaleOf (t : DataType) : Option Int :=
  match decimalOf t with
  | some (_, s) => some s
  | none => (range t).map fun _ => 0

/-- The target type has the value, a float rounded to its precision. -/
inductive Representable (v : ScalarValue) : DataType → Prop
  | null {target : DataType} : v.isNull = true → Representable v target
  | same : Representable v v.dataType
  | text {target : DataType} : isString v.dataType = true → isString target = true →
      Representable v target
  | integer {n low high : Int} {target : DataType} : v.number = some n →
      range target = some (low, high) → low ≤ n → n ≤ high → Representable v target
  | float {target : DataType} : v.dataType.isFloat = true → target.isFloat = true →
      Representable v target
  | rounded {scale : Int} : scaleOf v.dataType = some scale → Representable v .float64
  | decimal {n scale s : Int} {p : Nat} {target : DataType} : v.number = some n →
      scaleOf v.dataType = some scale → decimalOf target = some (p, s) →
      decimalHolds n scale p s → Representable v target

variable {t : DataType} {v : ScalarValue} {s n : Int} {p d : Nat}

theorem number_of_scale {scale : Int} (scaled : scaleOf v.dataType = some scale)
    (present : v.isNull = false) : ∃ n, v.number = some n := by
  cases v with
  | int8 n | int16 n | int32 n | int64 n | uint8 n | uint16 n | uint32 n | uint64 n
  | decimal128 n | decimal256 n =>
    cases n with
    | none => simp [ScalarValue.isNull] at present
    | some n => exact ⟨_, rfl⟩
  | _ => simp [ScalarValue.dataType, scaleOf, decimalOf, range, DataType.intBounds] at scaled

theorem natAbs_lt_digits (digits : integerDigits t = some d)
    (inRange : InRange t n) : n.natAbs < 10 ^ d := by
  have bounds := inRange.1
  cases t <;> simp only [integerDigits, some.injEq, reduceCtorEq] at digits <;>
    subst digits <;> have between := bounds _ _ rfl <;> norm_num <;> omega

theorem decimalHolds_of_digits (small : n.natAbs < 10 ^ d)
    (room : (d : Int) ≤ p - s) : decimalHolds n 0 p s := by
  unfold decimalHolds
  split
  next positive =>
    calc n.natAbs * 10 ^ (s - 0).toNat
        < 10 ^ d * 10 ^ (s - 0).toNat := Nat.mul_lt_mul_of_pos_right small (by positivity)
      _ = 10 ^ (d + (s - 0).toNat) := (pow_add _ _ _).symm
      _ ≤ 10 ^ p := Nat.pow_le_pow_right (by decide) (by omega)
  · exact small.trans_le (Nat.pow_le_pow_right (by decide) (by omega))

theorem decimalHolds_of_decimal {s2 : Int} {p2 : Nat} (small : n.natAbs < 10 ^ p)
    (scale : s ≤ s2) (room : (p : Int) - s ≤ p2 - s2) : decimalHolds n s p2 s2 := by
  rw [decimalHolds, if_pos scale]
  calc n.natAbs * 10 ^ (s2 - s).toNat
      < 10 ^ p * 10 ^ (s2 - s).toNat := Nat.mul_lt_mul_of_pos_right small (by positivity)
    _ = 10 ^ (p + (s2 - s).toNat) := (pow_add _ _ _).symm
    _ ≤ 10 ^ p2 := Nat.pow_le_pow_right (by decide) (by omega)

theorem scaleOf_of_digits (digits : integerDigits t = some d) :
    scaleOf t = some 0 ∧ decimalOf t = none := by
  cases t <;> simp_all [integerDigits, scaleOf, decimalOf, range, DataType.intBounds]

theorem scaleOf_of_decimal (decimal : decimalOf t = some (p, s)) : scaleOf t = some s := by
  simp [scaleOf, decimal]

theorem range_of_signed {width : Nat} (signed : signedWidth t = some width) :
    range t = some (-2 ^ (width - 1), 2 ^ (width - 1) - 1) ∧ 8 ≤ width := by
  cases t <;> simp only [signedWidth, some.injEq, reduceCtorEq] at signed <;>
    subst signed <;> exact ⟨rfl, by decide⟩

theorem range_of_unsigned {width : Nat} (unsigned : unsignedWidth t = some width) :
    range t = some (0, 2 ^ width - 1) := by
  cases t <;> simp only [unsignedWidth, some.injEq, reduceCtorEq] at unsigned <;>
    subst unsigned <;> rfl

theorem scaleOf_of_range {low high : Int} (between : range t = some (low, high)) :
    scaleOf t = some 0 := by
  cases t <;> simp_all [range, DataType.intBounds, scaleOf, decimalOf]

theorem representable_integer {low high low' high' : Int}
    (wellFormed : WellFormed v) (source : range v.dataType = some (low, high))
    (target : range t = some (low', high')) (below : low' ≤ low) (above : high ≤ high') :
    Representable v t := by
  cases null : v.isNull with
  | true => exact .null null
  | false =>
    obtain ⟨n, number⟩ := number_of_scale (scaleOf_of_range source) null
    obtain ⟨lower, upper⟩ := (wellFormed n number).1 low high source
    exact .integer number target (below.trans lower) (upper.trans above)

theorem representable_decimal {scale : Int}
    (source : scaleOf v.dataType = some scale) (target : decimalOf t = some (p, s))
    (holds : ∀ n, v.number = some n → decimalHolds n scale p s) : Representable v t := by
  cases null : v.isNull with
  | true => exact .null null
  | false =>
    obtain ⟨n, number⟩ := number_of_scale source null
    exact .decimal number source target (holds n number)

theorem widensNumeric_representable (wellFormed : WellFormed v)
    (numeric : widensNumeric v.dataType t = true) : Representable v t := by
  unfold widensNumeric at numeric
  split at numeric
  · simp only [Bool.or_eq_true, decide_eq_true_eq, isSome_iff_exists] at numeric
    rcases numeric with ((⟨d, digits⟩ | half) | single) | ⟨⟨p, s⟩, decimal⟩
    · exact .rounded (scaleOf_of_digits digits).1
    · exact .float (by rw [half]; rfl) rfl
    · exact .float (by rw [single]; rfl) rfl
    · exact .rounded (scaleOf_of_decimal decimal)
  · simp only [Bool.or_eq_true, decide_eq_true_eq] at numeric
    rcases numeric with half | single
    · exact .float (by rw [half]; rfl) rfl
    · exact .float (by rw [single]; rfl) rfl
  next p2 s2 _ _ target =>
    split at numeric
    next p s source =>
      simp only [ge_iff_le, Bool.and_eq_true, decide_eq_true_eq] at numeric
      exact representable_decimal (scaleOf_of_decimal source) target fun n number =>
        decimalHolds_of_decimal ((wellFormed n number).2 p s source) numeric.1 numeric.2
    · simp only [any_eq_true, decide_eq_true_eq] at numeric
      obtain ⟨d, digits, room⟩ := numeric
      exact representable_decimal (scaleOf_of_digits digits).1 target fun n number =>
        decimalHolds_of_digits (natAbs_lt_digits digits (wellFormed n number)) room
  · cases numeric

theorem widens_representable (wellFormed : WellFormed v)
    (widening : widens v.dataType t = true) : Representable v t := by
  unfold widens at widening
  split at widening
  next trivially =>
    simp only [Bool.or_eq_true, decide_eq_true_eq, Bool.and_eq_true] at trivially
    rcases trivially with rfl | ⟨source, target⟩
    · exact .same
    · exact .text source target
  split at widening
  next _ _ a b source target =>
    obtain ⟨source, _⟩ := range_of_signed source
    obtain ⟨target, _⟩ := range_of_signed target
    have wider : (2 : Int) ^ (a - 1) ≤ 2 ^ (b - 1) :=
      pow_le_pow_right₀ (by decide) (Nat.sub_le_sub_right (of_decide_eq_true widening) 1)
    exact representable_integer wellFormed source target (by omega) (by omega)
  next a b source target _ =>
    have wider : (2 : Int) ^ a ≤ 2 ^ b :=
      pow_le_pow_right₀ (by decide) (of_decide_eq_true widening)
    exact representable_integer wellFormed (range_of_unsigned source)
      (range_of_unsigned target) le_rfl (by omega)
  next b a target source _ _ =>
    obtain ⟨target, _⟩ := range_of_signed target
    have wider : (2 : Int) ^ a ≤ 2 ^ (b - 1) :=
      pow_le_pow_right₀ (by decide) (Nat.le_sub_one_of_lt (of_decide_eq_true widening))
    exact representable_integer wellFormed (range_of_unsigned source) target
      (by have := pow_pos (show (0 : Int) < 2 by decide) (b - 1); omega)
      (by omega)
  · exact widensNumeric_representable wellFormed widening

end Sqe.Policy.Leakproof
