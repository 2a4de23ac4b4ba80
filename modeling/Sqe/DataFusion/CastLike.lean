/- GID: Sqe/DataFusion/CastLike
   generality: G
   digest: The exact casts and the LIKE matcher, and executable kernels that meet what is assumed of
   the engine's. -/

import Sqe.DataFusion.Kernels

set_option autoImplicit false

namespace Sqe.DataFusion

open List

def inI64 (v : Int) : Option Int :=
  if -9223372036854775808 ≤ v ∧ v ≤ 9223372036854775807 then some v else none

def DataType.intBounds : DataType → Option (Int × Int)
  | .int8 => some (-128, 127)
  | .int16 => some (-32768, 32767)
  | .int32 => some (-2147483648, 2147483647)
  | .int64 => some (-9223372036854775808, 9223372036854775807)
  | _ => none

def DataType.isText : DataType → Bool
  | .utf8 | .largeUtf8 | .utf8View => true
  | _ => false

def DataType.ofInt : DataType → Int → ScalarValue
  | .int8, n => .int8 (some n)
  | .int16, n => .int16 (some n)
  | .int32, n => .int32 (some n)
  | _, n => .int64 (some n)

def DataType.ofText : DataType → String → ScalarValue
  | .largeUtf8, s => .largeUtf8 (some s)
  | .utf8View, s => .utf8View (some s)
  | _, s => .utf8 (some s)

/-- The spellings of a zone that mean UTC, no zone included. -/
def isUtc : Option String → Bool
  | none | some "+00:00" | some "UTC" | some "Z" => true
  | _ => false

/-- A count of microseconds or nanoseconds in the other unit: widening is checked, narrowing
truncates. -/
def rescale : TimeUnit → TimeUnit → Int → Option Int
  | .microsecond, .nanosecond, n => inI64 (n * 1000)
  | .nanosecond, .microsecond, n => some (n.tdiv 1000)
  | _, _, n => some n

/-- The casts whose result `castValue` says. -/
def castCovered : DataType → DataType → Bool
  | .timestamp u z, .timestamp u' z' =>
    (u == u' || (u == .microsecond && u' == .nanosecond) ||
      (u == .nanosecond && u' == .microsecond)) && (z == z' || (isUtc z && isUtc z'))
  | t, t' => t == t' || (t.intBounds.isSome && t'.intBounds.isSome) || (t.isText && t'.isText)

def castTimestamp : ScalarValue → DataType → Option ScalarValue
  | .timestamp u (some n) _, .timestamp u' z' =>
    (rescale u u' n).map fun m => .timestamp u' (some m) z'
  | _, _ => none

/-- The cast kernel on those: to the same type, between signed integers (an error out of
range), between strings, and between timestamps that agree on the zone. -/
def castValue (v : ScalarValue) (target : DataType) : Option ScalarValue :=
  if v.dataType = target then some v
  else if v.isNull then some (.nullOf target)
  else match target.intBounds with
    | some (low, high) =>
      v.number.bind fun n => if low ≤ n ∧ n ≤ high then some (target.ofInt n) else none
    | none =>
      if target.isText then v.text.map target.ofText
      else castTimestamp v target

/-- The engine's casts agree with `castValue` where that speaks. -/
def CastsExactly (k : Kernels) : Prop :=
  ∀ v target, castCovered v.dataType target = true → k.cast v target = castValue v target

inductive LikeToken
  | any
  | one
  | char (c : Char)
  deriving DecidableEq

/-- The elements of a pattern. The escape makes the next character, whichever it is, stand for
itself; an escape at the end stands for itself. -/
def likeTokens (escape : Char) : List Char → List LikeToken
  | [] => []
  | [c] => [if c = escape then .char c else if c = '%' then .any else if c = '_' then .one
      else .char c]
  | c :: d :: p =>
    if c = escape then .char d :: likeTokens escape p
    else (if c = '%' then .any else if c = '_' then .one else .char c) ::
      likeTokens escape (d :: p)

/-- Some suffix of the text, the text itself and the empty one included, passes. -/
def anySuffix (passes : List Char → Bool) : List Char → Bool
  | [] => passes []
  | x :: s => passes (x :: s) || anySuffix passes s

def tokensMatch : List LikeToken → List Char → Bool
  | [], s => s.isEmpty
  | .any :: ts, s => anySuffix (tokensMatch ts) s
  | .one :: ts, s => match s with
      | [] => false
      | _ :: s => tokensMatch ts s
  | .char c :: ts, s => match s with
      | [] => false
      | x :: s => x == c && tokensMatch ts s

def likeMatches (escape : Char) (text pattern : String) : Bool :=
  tokensMatch (likeTokens escape pattern.toList) text.toList

/-- The default escape character of `LIKE`, a backslash. -/
def likeEscape : Char := Char.ofNat 92

/-- The engine's case-sensitive `LIKE` without an escape clause decides texts as `likeMatches`
does, and nothing else. -/
def LikesTexts (k : Kernels) : Prop :=
  ∀ v p b, (k.like none false v p).bind ScalarValue.truth = some b →
    ∃ s t, v.text = some s ∧ p.text = some t ∧ likeMatches likeEscape s t = b

theorem anySuffix_isEmpty (s : List Char) : anySuffix List.isEmpty s = true := by
  induction s with
  | nil => rfl
  | cons x s ih => simp [anySuffix, ih]

theorem likeTokens_plain {escape : Char} {front : List Char} (percent : '%' ∉ front)
    (underscore : '_' ∉ front) (unescaped : escape ∉ front) (notPercent : escape ≠ '%') :
    likeTokens escape (front ++ ['%']) = front.map LikeToken.char ++ [.any] := by
  induction front with
  | nil => simp [likeTokens, notPercent.symm]
  | cons c front ih =>
    simp only [mem_cons, not_or] at percent underscore unescaped
    have rest := ih percent.2 underscore.2 unescaped.2
    cases front with
    | nil =>
      simp [likeTokens, Ne.symm unescaped.1, Ne.symm percent.1, Ne.symm underscore.1,
        notPercent.symm]
    | cons d front =>
      rw [cons_append, cons_append, likeTokens, if_neg (Ne.symm unescaped.1),
        if_neg (Ne.symm percent.1), if_neg (Ne.symm underscore.1), ← cons_append, rest]
      rfl

theorem tokensMatch_prefix (front s : List Char) :
    tokensMatch (front.map LikeToken.char ++ [.any]) s = front.isPrefixOf s := by
  induction front generalizing s with
  | nil => simp [tokensMatch, anySuffix_isEmpty]
  | cons c front ih =>
    cases s with
    | nil => rfl
    | cons x s =>
      simp only [map_cons, cons_append, tokensMatch, ih, List.isPrefixOf]
      rw [Bool.beq_comm]

/-- Checked arithmetic on `Int64`, as far as concrete runs need it: division by zero raises. -/
def referenceArithmetic : Operator → ScalarValue → ScalarValue → Option ScalarValue
  | .plus, .int64 (some x), .int64 (some y) => some (.int64 (some (x + y)))
  | .minus, .int64 (some x), .int64 (some y) => some (.int64 (some (x - y)))
  | .multiply, .int64 (some x), .int64 (some y) => some (.int64 (some (x * y)))
  | .divide, .int64 (some x), .int64 (some y) =>
    if y = 0 then none else some (.int64 (some (x.tdiv y)))
  | .divide, .int64 _, .int64 _ => some (.int64 none)
  | _, _, _ => none

variable (typeOf : Column → DataType)

/-- Kernels for concrete runs over the ordered types. -/
def referenceKernels : Kernels where
  binary op a b := match op.test with
    | some test => compareWith test a b
    | none => referenceArithmetic op a b
  like escape _ v p := match v.text, p.text with
    | some s, some t => truthValue (some (likeMatches (escape.getD likeEscape) s t))
    | _, _ => truthValue none
  cast v type := if castCovered v.dataType type then castValue v type else none
  function _ _ := none
  other _ _ := none
  coerce es v := if sameType typeOf es then some v else none
  coerceIn _ _ v := some v

theorem referenceKernels_analysed : Analysed (referenceKernels typeOf) typeOf where
  coerce _ _ := rfl
  compare op test tested a b _ := by simp [referenceKernels, tested]
  compare_mismatch op test tested a b differ := by
    simp [referenceKernels, tested, compareWith, differ]
  compare_null op test tested a b null := by
    simp only [referenceKernels, tested, compareWith, ScalarValue.order_of_isNull null]
    split <;> rfl

theorem referenceKernels_casts : CastsExactly (referenceKernels typeOf) := by
  intro v target covered
  exact if_pos covered

theorem referenceKernels_likes : LikesTexts (referenceKernels typeOf) := by
  intro v p b decided
  simp only [referenceKernels] at decided
  split at decided
  next s t text pattern =>
    exact ⟨s, t, text, pattern, by simpa using decided⟩
  · simp at decided

end Sqe.DataFusion
