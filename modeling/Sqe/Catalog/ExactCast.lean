/- GID: Sqe/Catalog/ExactCast
   generality: G
   digest: What chains of exact casts make of a stored value, and how that compares. -/

import Sqe.Catalog.ExprToPredicate

set_option autoImplicit false

namespace Sqe.Catalog.ExprToPredicate

open Sqe.DataFusion Sqe.Iceberg Option ScalarValue

/-- The value `w` is what an exact cast makes of the stored value `v`. -/
inductive Represents (v : ScalarValue) : ScalarValue → Prop
  | same : Represents v v
  | null (type : DataType) : v.isNull = true → Represents v (.nullOf type)
  | int {n : Int} {type : DataType} : v.number = some n → v.dataType.intBounds.isSome = true →
      type.intBounds.isSome = true → Represents v (type.ofInt n)
  | text {s : String} {type : DataType} : v.text = some s → type.isText = true →
      Represents v (type.ofText s)
  | micros {n : Int} {zone zone' : Option String} : v = .timestamp .microsecond (some n) zone →
      Represents v (.timestamp .nanosecond (some (n * 1000)) zone')
  | timestamp {unit : TimeUnit} {n : Int} {zone zone' : Option String} :
      v = .timestamp unit (some n) zone → Represents v (.timestamp unit (some n) zone')

variable {v literal : ScalarValue} {d d' : Datum} {source : DataType} {u : TimeUnit}
variable {z : Option String} {type : Option DataType} {ms : Int} {o : Ordering}
variable {w w' : ScalarValue} {target : DataType}

attribute [local simp] dataType DataType.intBounds DataType.isText scalarValueToDatum
  ScalarValue.truth

theorem isNull_of_number {n : Int} (number : v.number = some n) : v.isNull = false := by
  by_contra null
  simp [no_key_of_isNull (Bool.not_eq_false _ ▸ null)] at number

theorem isNull_of_text {s : String} (text : v.text = some s) : v.isNull = false := by
  by_contra null
  simp [no_key_of_isNull (Bool.not_eq_false _ ▸ null)] at text

theorem Represents.isNull (represents : Represents v w) : w.isNull = v.isNull := by
  cases represents with
  | same => rfl
  | null type null => simp [null]
  | @int n type number _ _ =>
    rw [isNull_of_number number]
    cases type <;> rfl
  | @text s type text _ =>
    rw [isNull_of_text text]
    cases type <;> rfl
  | micros is => rw [is]; rfl
  | timestamp is => rw [is]; rfl

@[simp] theorem ofInt_dataType {type : DataType} (bounds : type.intBounds.isSome = true) (n : Int) :
    (type.ofInt n).dataType = type := by
  cases type <;> simp_all [DataType.ofInt]

@[simp] theorem ofInt_number (type : DataType) (n : Int) : (type.ofInt n).number = some n := by
  cases type <;> rfl

@[simp] theorem ofText_dataType {type : DataType} (isText : type.isText = true) (s : String) :
    (type.ofText s).dataType = type := by
  cases type <;> simp_all [DataType.ofText]

@[simp] theorem ofText_text (type : DataType) (s : String) : (type.ofText s).text = some s := by
  cases type <;> rfl

theorem castIsExact_cases (exact_ : castIsExact source target = true) :
    source = target ∨
      (source.intBounds.isSome = true ∧ target.intBounds.isSome = true) ∨
      (source.isText = true ∧ target.isText = true) ∨
      ∃ u u' z z', source = .timestamp u z ∧ target = .timestamp u' z' ∧
        (u = u' ∨ u = .microsecond ∧ u' = .nanosecond) ∧
        (z = z' ∨ isUtc z = true ∧ isUtc z' = true) := by
  unfold castIsExact at exact_
  split at exact_
  next same => exact Or.inl same
  · split at exact_
    case h_7 u z u' z' _ =>
      simp only [Bool.and_eq_true, Bool.or_eq_true, beq_iff_eq] at exact_
      exact Or.inr (Or.inr (Or.inr ⟨u, u', z, z', rfl, rfl, exact_.1, exact_.2⟩))
    case h_8 =>
      simp only [Bool.and_eq_true] at exact_
      exact Or.inr (Or.inr (Or.inl exact_))
    all_goals exact Or.inr (Or.inl ⟨rfl, rfl⟩)

section CastValue

variable (cast : castValue w target = some w')
  (other : w.dataType ≠ target) (present : w.isNull = false)
include cast other present

theorem castValue_int {n : Int} (number : w.number = some n)
    (bounds : target.intBounds.isSome = true) : w' = target.ofInt n := by
  obtain ⟨⟨low, high⟩, between⟩ := isSome_iff_exists.mp bounds
  rw [castValue, if_neg other, if_neg (by simp [present]), between, number] at cast
  simp only [bind_some] at cast
  split at cast
  · exact (some.inj cast).symm
  · cases cast

theorem castValue_text {s : String} (text : w.text = some s) (isText : target.isText = true) :
    w' = target.ofText s := by
  have unbounded : target.intBounds = none := by
    cases target <;> simp_all
  rw [castValue, if_neg other, if_neg (by simp [present]), unbounded] at cast
  simp only [isText, if_true, text, map_some, some.injEq] at cast
  exact cast.symm

end CastValue

theorem castIsExact_int (exact_ : castIsExact source target = true)
    (bounds : source.intBounds.isSome = true) : target.intBounds.isSome = true := by
  rcases castIsExact_cases exact_ with rfl | ⟨_, target⟩ | ⟨isText, _⟩ | ⟨u, u', z, z', rfl, _⟩
  · exact bounds
  · exact target
  · cases source <;> simp_all
  · simp at bounds

theorem castIsExact_text (exact_ : castIsExact source target = true)
    (isText : source.isText = true) : target.isText = true := by
  rcases castIsExact_cases exact_ with rfl | ⟨bounds, _⟩ | ⟨_, target⟩ | ⟨u, u', z, z', rfl, _⟩
  · exact isText
  · cases source <;> simp_all
  · exact target
  · simp at isText

theorem castIsExact_timestamp (exact_ : castIsExact (.timestamp u z) target = true) :
    ∃ u' z', target = .timestamp u' z' ∧ (u = u' ∨ u = .microsecond ∧ u' = .nanosecond) ∧
      (z = z' ∨ isUtc z = true ∧ isUtc z' = true) := by
  rcases castIsExact_cases exact_ with rfl | ⟨bounds, _⟩ | ⟨isText, _⟩ |
    ⟨u, u', z, z', source, target, units, zones⟩
  · exact ⟨u, z, rfl, Or.inl rfl, Or.inl rfl⟩
  · simp at bounds
  · simp at isText
  · cases source
    exact ⟨u', z', target, units, zones⟩

theorem castValue_timestamp {w : TimeUnit} {m : Int} {z' : Option String}
    (cast : castValue (.timestamp w (some m) z) (.timestamp u z') = some w')
    (other : dataType (.timestamp w (some m) z) ≠ .timestamp u z') :
    ∃ n, rescale w u m = some n ∧ w' = .timestamp u (some n) z' := by
  rw [castValue, if_neg other, if_neg (by simp [ScalarValue.isNull])] at cast
  simp only [DataType.intBounds, DataType.isText, Bool.false_eq_true, if_false, castTimestamp,
    map_eq_some_iff] at cast
  obtain ⟨n, rescaled, rfl⟩ := cast
  exact ⟨n, rescaled, rfl⟩

theorem rescale_same (u : TimeUnit) (n : Int) : rescale u u n = some n := by
  cases u <;> rfl

theorem number_of_intType (bounds : v.dataType.intBounds.isSome = true)
    (present : v.isNull = false) : ∃ n, v.number = some n := by
  cases v with
  | int8 n | int16 n | int32 n | int64 n =>
    cases n with
    | none => simp [ScalarValue.isNull] at present
    | some n => exact ⟨n, rfl⟩
  | _ => simp at bounds

theorem text_of_textType (isText : v.dataType.isText = true)
    (present : v.isNull = false) : ∃ s, v.text = some s := by
  cases v with
  | utf8 s | largeUtf8 s | utf8View s =>
    cases s with
    | none => simp [ScalarValue.isNull] at present
    | some s => exact ⟨s, rfl⟩
  | _ => simp at isText

theorem timestamp_of_type (type : v.dataType = .timestamp u z) (present : v.isNull = false) :
    ∃ n, v = .timestamp u (some n) z := by
  cases v with
  | timestamp u' n z' =>
    cases type
    cases n with
    | none => simp [ScalarValue.isNull] at present
    | some n => exact ⟨n, rfl⟩
  | _ => simp at type

theorem represents_rescaled {u' : TimeUnit} {n : Int} {zone z' : Option String}
    (cast : castValue (.timestamp u (some n) z) (.timestamp u' z') = some w)
    (other : dataType (.timestamp u (some n) z) ≠ .timestamp u' z')
    (units : u = u' ∨ u = .microsecond ∧ u' = .nanosecond) :
    Represents (.timestamp u (some n) zone) w := by
  obtain ⟨m, rescaled, rfl⟩ := castValue_timestamp cast other
  rcases units with rfl | ⟨rfl, rfl⟩
  · rw [rescale_same] at rescaled
    cases rescaled
    exact .timestamp rfl
  · simp only [rescale, inI64] at rescaled
    split at rescaled
    · cases rescaled
      exact .micros rfl
    · cases rescaled

theorem Represents.cast (represents : Represents v w)
    (exact_ : castIsExact v.dataType target = true) (cast : castValue w target = some w') :
    Represents v w' := by
  by_cases same : w.dataType = target
  · rw [castValue, if_pos same] at cast
    cases cast
    exact represents
  by_cases null : w.isNull = true
  · rw [castValue, if_neg same, if_pos null] at cast
    cases cast
    exact .null target (represents.isNull ▸ null)
  have present : w.isNull = false := by simpa using null
  cases represents with
  | same =>
    rcases castIsExact_cases exact_ with equal | ⟨source, bounds⟩ | ⟨source, isText⟩ |
      ⟨u, u', z, z', source, rfl, units, -⟩
    · exact absurd equal same
    · obtain ⟨n, number⟩ := number_of_intType source present
      rw [castValue_int cast same present number bounds]
      exact .int number source bounds
    · obtain ⟨s, text⟩ := text_of_textType source present
      rw [castValue_text cast same present text isText]
      exact .text text isText
    · obtain ⟨n, rfl⟩ := timestamp_of_type source present
      exact represents_rescaled cast same units
  | null type isNull => simp at present
  | int number source bounds =>
    have bounds' := castIsExact_int exact_ source
    rw [castValue_int cast same present (ofInt_number _ _) bounds']
    exact .int number source bounds'
  | @text s type text isText =>
    have source : v.dataType.isText = true := by
      cases v <;> simp_all [ScalarValue.text]
    have isText' := castIsExact_text exact_ source
    rw [castValue_text cast same present (ofText_text _ _) isText']
    exact .text text isText'
  | @micros n zone zone' is =>
    subst is
    obtain ⟨u', z', rfl, units, -⟩ := castIsExact_timestamp exact_
    obtain ⟨m, rescaled, rfl⟩ := castValue_timestamp cast same
    rcases units with rfl | ⟨-, rfl⟩
    · have back : m = n := by
        simp only [rescale, some.injEq] at rescaled
        rw [← rescaled, Int.mul_tdiv_cancel _ (by decide)]
      subst back
      exact .timestamp rfl
    · rw [rescale_same] at rescaled
      cases rescaled
      exact .micros rfl
  | @timestamp unit n zone zone' is =>
    subst is
    obtain ⟨u', z', rfl, units, -⟩ := castIsExact_timestamp exact_
    exact represents_rescaled cast same units

theorem ofInt_text (type : DataType) (n : Int) : (type.ofInt n).text = none := by
  cases type <;> rfl

theorem ofInt_bytes (type : DataType) (n : Int) : (type.ofInt n).bytes = none := by
  cases type <;> rfl

theorem ofText_bytes (type : DataType) (s : String) : (type.ofText s).bytes = none := by
  cases type <;> rfl

theorem no_text_of_intType (bounds : v.dataType.intBounds.isSome = true) :
    v.text = none ∧ v.bytes = none := by
  cases v <;> simp_all [ScalarValue.text, ScalarValue.bytes]

theorem no_bytes_of_text {s : String} (text : v.text = some s) :
    v.number = none ∧ v.bytes = none := by
  cases v <;> simp_all [ScalarValue.text, ScalarValue.bytes, ScalarValue.number]

section

variable (represents : Represents v w)
include represents

theorem Represents.text_eq : w.text = v.text := by
  cases represents with
  | same => rfl
  | null type null =>
    rw [(no_key_of_isNull null).2.1, (no_key_of_isNull (nullOf_isNull type)).2.1]
  | int _ source _ => rw [ofInt_text, (no_text_of_intType source).1]
  | text text _ => rw [ofText_text, text]
  | micros is => rw [is]; rfl
  | timestamp is => rw [is]; rfl

theorem Represents.bytes_eq : w.bytes = v.bytes := by
  cases represents with
  | same => rfl
  | null type null =>
    rw [(no_key_of_isNull null).2.2, (no_key_of_isNull (nullOf_isNull type)).2.2]
  | int _ source _ => rw [ofInt_bytes, (no_text_of_intType source).2]
  | text text _ => rw [ofText_bytes, (no_bytes_of_text text).2]
  | micros is => rw [is]; rfl
  | timestamp is => rw [is]; rfl

theorem Represents.truth {b : Bool}
    (truth : w.truth = some b) : v.truth = some b := by
  cases represents with
  | same => exact truth
  | null type _ => cases type <;> simp [nullOf] at truth
  | @int _ type => cases type <;> simp [DataType.ofInt] at truth
  | @text _ type => cases type <;> simp [DataType.ofText] at truth
  | micros => simp at truth
  | timestamp => simp at truth

theorem Represents.number_eq
    (notTimestamp : ∀ zone, w.dataType ≠ .timestamp .nanosecond zone) : w.number = v.number := by
  cases represents with
  | same => rfl
  | null type null =>
    rw [(no_key_of_isNull null).1, (no_key_of_isNull (nullOf_isNull type)).1]
  | int number _ _ => rw [ofInt_number, number]
  | @text s type text isText =>
    rw [(no_bytes_of_text text).1, (no_bytes_of_text (ofText_text type s)).1]
  | micros is => exact absurd rfl (notTimestamp _)
  | timestamp is => rw [is]; rfl

end

/-- A `Date64` literal that counts whole days, of a number of days that is an `i32`; any literal
of another type. -/
def wholeDayLiteral : ScalarValue → Bool
  | .date64 (some ms) => ms % 86400000 == 0 && -2147483648 ≤ ms / 86400000 &&
      ms / 86400000 < 2147483648
  | _ => true

theorem asI32_wholeDays (whole : wholeDayLiteral (.date64 (some ms)) = true) :
    ms % 86400000 = 0 ∧ asI32 (ms.tdiv millisPerDay) = ms / 86400000 := by
  simp only [wholeDayLiteral, Bool.and_eq_true, beq_iff_eq, decide_eq_true_eq] at whole
  obtain ⟨⟨whole, low⟩, high⟩ := whole
  have exact_ : ms.tdiv millisPerDay = ms / 86400000 :=
    Int.tdiv_eq_ediv_of_dvd (Int.dvd_of_emod_eq_zero whole)
  refine ⟨whole, ?_⟩
  rw [exact_, asI32, Int.bmod_def]
  omega

theorem compare_mul (a b : Int) {c : Int} (positive : 0 < c) :
    compare (a * c) (b * c) = compare a b := by
  have lt : a * c < b * c ↔ a < b := Int.mul_lt_mul_right positive
  have eq : a * c = b * c ↔ a = b := Int.mul_eq_mul_right_iff (by omega)
  simp only [compare, compareOfLessAndEq, lt, eq]

/-- What the converter knows of a column reference: the stored value, the column's type if the
schema has it, and the value the expression above the column takes. -/
inductive Carries (v : ScalarValue) : Option DataType → ScalarValue → Prop
  | unknown : Carries v none v
  | typed {w : ScalarValue} : Represents v w → castIsExact v.dataType w.dataType = true →
      Carries v (some v.dataType) w

theorem Carries.represents (carries : Carries v type w) : Represents v w := by
  cases carries with
  | unknown => exact .same
  | typed represents _ => exact represents

theorem Represents.of_timestamp {m : Int} (represents : Represents v (.timestamp u (some m) z)) :
    (∃ z', v = .timestamp u (some m) z') ∨
      ∃ n z', u = .nanosecond ∧ m = n * 1000 ∧ v = .timestamp .microsecond (some n) z' := by
  generalize target : ScalarValue.timestamp u (some m) z = w at represents
  cases represents with
  | same => exact Or.inl ⟨z, target.symm⟩
  | null type _ => cases type <;> simp [nullOf] at target
  | @int _ type => cases type <;> simp [DataType.ofInt] at target
  | @text _ type => cases type <;> simp [DataType.ofText] at target
  | @micros n zone _ is =>
    cases target
    exact Or.inr ⟨n, zone, rfl, rfl, is⟩
  | @timestamp _ _ zone _ is =>
    cases target
    exact Or.inl ⟨zone, is⟩

theorem Represents.date64
    (represents : Represents (.date64 (some ms)) w) : w = .date64 (some ms) := by
  cases represents with
  | same => rfl
  | null _ null => simp [ScalarValue.isNull] at null
  | int _ source _ => simp at source
  | text text _ => simp [ScalarValue.text] at text
  | micros is => cases is
  | timestamp is => cases is

theorem compare_timestamp {l : Int} (carries : Carries v type w)
    (types : w.dataType = .timestamp u z) (order : w.order (.timestamp u (some l) z) = some o)
    (datum : scalarValueToDatum (.timestamp u (some l) z) = some d)
    (bound : datumForColumn d type = some d') : datumOrder v d' = some o := by
  obtain ⟨m, rfl⟩ := timestamp_of_type types (not_isNull_of_order order)
  have timestamp : timestampDatum d = some (l, u == .nanosecond) := by
    cases u <;> cases z <;> simp_all <;> subst datum <;> rfl
  have keeps : d.number = some l := by
    cases u <;> cases z <;> simp_all <;> subst datum <;> rfl
  cases order
  cases carries with
  | unknown =>
    simp only [datumForColumn, timestamp] at bound
    split at bound
    · cases bound
    · cases bound
      simp [datumOrder, compareKeys, storedNumber, keeps, ScalarValue.number]
  | typed represents exact_ =>
    rcases represents.of_timestamp with ⟨z', rfl⟩ | ⟨n, z', rfl, rfl, rfl⟩
    · cases u with
      | second | millisecond => cases z <;> simp at datum
      | microsecond | nanosecond =>
        simp only [datumForColumn, timestamp, dataType] at bound
        cases z' <;> simp at bound <;> subst bound <;> rfl
    · simp only [datumForColumn, timestamp, dataType, BEq.rfl, if_true] at bound
      by_cases whole : l.tmod 1000 = 0
      · have exactly : l.tdiv 1000 * 1000 = l :=
          Int.tdiv_mul_cancel (Int.dvd_of_tmod_eq_zero whole)
        have bound : d'.number = some (l.tdiv 1000) := by
          cases z' <;> simp [whole] at bound <;> subst bound <;> rfl
        simp only [datumOrder, compareKeys, storedNumber, ScalarValue.number, bound, some.injEq]
        nth_rewrite 2 [← exactly]
        exact (compare_mul n (l.tdiv 1000) (by decide)).symm
      · simp [whole] at bound

theorem Represents.of_date64
    (represents : Represents v (.date64 (some ms))) : v = .date64 (some ms) := by
  generalize target : ScalarValue.date64 (some ms) = w at represents
  cases represents with
  | same => rfl
  | null type _ => cases type <;> simp [nullOf] at target
  | @int _ type => cases type <;> simp [DataType.ofInt] at target
  | @text _ type => cases type <;> simp [DataType.ofText] at target
  | micros => cases target
  | timestamp => cases target

theorem compare_date64 {l : Int} (carries : Carries v type w)
    (types : w.dataType = .date64) (order : w.order (.date64 (some l)) = some o)
    (datum : scalarValueToDatum (.date64 (some l)) = some d)
    (bound : datumForColumn d type = some d')
    (wholeV : ∀ ms, v = .date64 (some ms) → ms % 86400000 = 0)
    (wholeL : wholeDayLiteral (.date64 (some l)) = true) : datumOrder v d' = some o := by
  obtain ⟨m, rfl⟩ : ∃ m, w = .date64 (some m) := by
    have present := not_isNull_of_order order
    cases w with
    | date64 m => cases m <;> simp_all [ScalarValue.isNull]
    | _ => simp at types
  obtain rfl := carries.represents.of_date64
  obtain ⟨whole, days⟩ := asI32_wholeDays wholeL
  cases datum
  simp only [datumForColumn, timestampDatum, some.injEq] at bound
  subst bound
  rw [← order]
  simp only [datumOrder, compareKeys, storedNumber, map_some, Datum.number, days, ScalarValue.order,
    ScalarValue.number]
  have left : m / 86400000 * 86400000 = m :=
    Int.ediv_mul_cancel (Int.dvd_of_emod_eq_zero (wholeV m rfl))
  have right : l / 86400000 * 86400000 = l := Int.ediv_mul_cancel (Int.dvd_of_emod_eq_zero whole)
  rw [← compare_mul (m / 86400000) (l / 86400000) (show (0 : Int) < 86400000 by decide), left,
    right]

theorem plain_datum (datum : scalarValueToDatum literal = some d)
    (notTimestamp : ∀ u z, literal.dataType ≠ .timestamp u z)
    (notDate64 : literal.dataType ≠ .date64) :
    timestampDatum d = none ∧ d.number = literal.number ∧ d.text = literal.text ∧
      d.bytes = literal.bytes := by
  cases literal with
  | timestamp u l z => exact absurd rfl (notTimestamp u z)
  | date64 => exact absurd rfl notDate64
  | null | uint8 | uint16 | uint32 | uint64 | float16 | fixedSizeBinary | decimal128 | decimal256
  | other => simp at datum
  | _ l =>
    cases l with
    | none => simp at datum
    | some l =>
      cases datum
      exact ⟨rfl, rfl, rfl, rfl⟩

theorem compare_datum (carries : Carries v type w)
    (types : w.dataType = literal.dataType) (order : w.order literal = some o)
    (datum : scalarValueToDatum literal = some d) (bound : datumForColumn d type = some d')
    (wholeV : ∀ ms, v = .date64 (some ms) → ms % 86400000 = 0)
    (wholeL : wholeDayLiteral literal = true) : datumOrder v d' = some o := by
  by_cases timestamp : ∃ u z, literal.dataType = .timestamp u z
  · obtain ⟨u, z, isTimestamp⟩ := timestamp
    cases literal with
    | timestamp u l z =>
      cases l with
      | none => cases u <;> cases z <;> simp at datum
      | some l => exact compare_timestamp carries types order datum bound
    | _ => simp at isTimestamp
  have notTimestamp : ∀ u z, literal.dataType ≠ .timestamp u z := fun u z is =>
    timestamp ⟨u, z, is⟩
  by_cases date64 : literal.dataType = .date64
  · cases literal with
    | date64 l =>
      cases l with
      | none => simp at datum
      | some l => exact compare_date64 carries types order datum bound wholeV wholeL
    | _ => simp at date64
  obtain ⟨kept, number, text, bytes⟩ := plain_datum datum notTimestamp date64
  simp only [datumForColumn, kept, some.injEq] at bound
  subst bound
  have represents := carries.represents
  rw [← order]
  unfold datumOrder ScalarValue.order
  rw [represents.text_eq, represents.bytes_eq, number, text, bytes]
  congr 1
  rw [represents.number_eq fun zone => types ▸ notTimestamp _ zone]
  cases v with
  | date64 ms =>
    cases ms with
    | none => rfl
    | some ms =>
      rw [represents.date64] at types
      exact absurd types.symm date64
  | _ => rfl

theorem castValue_dataType (cast : castValue w target = some w') : w'.dataType = target := by
  unfold castValue at cast
  split at cast
  next same =>
    cases cast
    exact same
  split at cast
  · cases cast
    exact nullOf_dataType target
  split at cast
  next bounds =>
    obtain ⟨n, -, cast⟩ := bind_eq_some_iff.mp cast
    split at cast
    · cases cast
      exact ofInt_dataType (by rw [bounds]; rfl) n
    · cases cast
  split at cast
  next isText =>
    obtain ⟨s, -, rfl⟩ := map_eq_some_iff.mp cast
    exact ofText_dataType isText s
  · unfold castTimestamp at cast
    split at cast
    · obtain ⟨m, -, rfl⟩ := map_eq_some_iff.mp cast
      rfl
    · cases cast

theorem castCovered_int {t t' : DataType} (bounds : t.intBounds.isSome = true)
    (bounds' : t'.intBounds.isSome = true) : castCovered t t' = true := by
  unfold castCovered
  split
  · cases bounds
  · rw [bounds, bounds']; simp

theorem castCovered_text {t t' : DataType} (isText : t.isText = true)
    (isText' : t'.isText = true) : castCovered t t' = true := by
  unfold castCovered
  split
  · cases isText
  · rw [isText, isText']; simp

theorem castCovered_of_exact {first second : DataType}
    (exactFirst : castIsExact source first = true)
    (exactSecond : castIsExact source second = true) : castCovered first second = true := by
  by_cases bounds : source.intBounds.isSome = true
  · exact castCovered_int (castIsExact_int exactFirst bounds) (castIsExact_int exactSecond bounds)
  by_cases isText : source.isText = true
  · exact castCovered_text (castIsExact_text exactFirst isText)
      (castIsExact_text exactSecond isText)
  by_cases timestamp : ∃ u z, source = .timestamp u z
  · obtain ⟨u, z, rfl⟩ := timestamp
    obtain ⟨u', z', rfl, units', zones'⟩ := castIsExact_timestamp exactFirst
    obtain ⟨u'', z'', rfl, units'', zones''⟩ := castIsExact_timestamp exactSecond
    simp only [castCovered, Bool.and_eq_true, Bool.or_eq_true, beq_iff_eq]
    constructor
    · cases u <;> cases u' <;> cases u'' <;> simp_all
    · rcases zones' with rfl | ⟨utc, utc'⟩ <;> rcases zones'' with rfl | ⟨_, utc''⟩ <;>
        simp_all
  -- The other types are cast to themselves alone.
  · rcases castIsExact_cases exactFirst with rfl | ⟨source, _⟩ | ⟨source, _⟩ |
      ⟨u, _, z, _, source, _⟩
    · rcases castIsExact_cases exactSecond with rfl | ⟨source, _⟩ | ⟨source, _⟩ |
        ⟨u, _, z, _, source, _⟩
      · cases source <;> simp [castCovered]
      · exact absurd source bounds
      · exact absurd source isText
      · exact absurd ⟨u, z, source⟩ timestamp
    · exact absurd source bounds
    · exact absurd source isText
    · exact absurd ⟨u, z, source⟩ timestamp

theorem Carries.notFloat (carries : Carries v type w) (notFloat : v.dataType.isFloat = false) :
    w.dataType.isFloat = false := by
  cases carries with
  | unknown => exact notFloat
  | typed _ exact_ =>
    rcases castIsExact_cases exact_ with same | ⟨_, bounds⟩ | ⟨_, isText⟩ |
      ⟨u, u', z, z', _, target, _⟩
    · rw [← same]
      exact notFloat
    · cases w <;> simp_all [DataType.isFloat]
    · cases w <;> simp_all [DataType.isFloat]
    · rw [target]
      rfl

theorem Carries.cast {k : Kernels} (casts : CastsExactly k) (carries : Carries v (some source) w)
    (exact_ : castIsExact source target = true) (cast : k.cast w target = some w') :
    Carries v (some source) w' := by
  cases carries with
  | typed represents before =>
    rw [casts w target (castCovered_of_exact before exact_)] at cast
    refine .typed (represents.cast exact_ cast) ?_
    rwa [castValue_dataType cast]

theorem isOrdered_of_datum
    (datum : scalarValueToDatum literal = some d) (notFloat : literal.dataType.isFloat = false) :
    literal.dataType.isOrdered = true := by
  cases literal with
  | null | other => simp at datum
  | float16 | float32 | float64 => simp [DataType.isFloat] at notFloat
  | _ => rfl

end Sqe.Catalog.ExprToPredicate
