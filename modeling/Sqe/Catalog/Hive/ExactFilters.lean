/- GID: Sqe/Catalog/Hive/ExactFilters
   generality: G
   digest: Where the pruner decides a filter, every row of a kept partition satisfies it. -/

import Sqe.Catalog.Hive.Provider

/-!
A filter over partition columns only is reported exact and dropped from the data filters, so
the pruner's verdict is the last word on it. Keeping a partition on an unknown verdict is then
only right where no verdict is unknown, which `Decided` describes filter by filter.
-/

set_option autoImplicit false

namespace Sqe.Catalog.Hive

open Sqe.DataFusion Sqe.Library.Kleene Sqe.Library.Traverse List ScalarValue

/-- `references_only_partition_cols`: some column is read, and each is a partition column. -/
def referencesOnlyPartitionCols (expr : Expr) (partitionCols : List String) : Bool :=
  !expr.columnRefs.isEmpty && expr.columnRefs.all fun c => partitionCols.contains c.name

def dataFilters (filters : List Expr) (partitionCols : List String) : List Expr :=
  filters.filter fun f => !referencesOnlyPartitionCols f partitionCols

section Decided

variable (k : Kernels) (chrono : Chrono) (tryFromString : TryFromString)
  (keys : List PartitionKey) (entry : PartitionIndexEntry)

/-- The raw value reads as the declared type, for the pruner and for Arrow alike. -/
inductive Reads (key : PartitionKey) (raw : String) : Prop
  | integer (family : typeFamily key.sqlType = .integer) (pruner : (parseI64 raw).isSome)
      (arrow : (tryFromString raw key.dataType).isSome)
  | date (family : typeFamily key.sqlType = .date) (pruner : (chrono.parseDate raw).isSome)
      (arrow : (tryFromString raw key.dataType).isSome)
  | text (family : typeFamily key.sqlType = .text) (plain : key.dataType = .utf8)

/-- A literal of the column's own type that is neither NULL, nor the sentinel, nor a date
outside the range of the date library. -/
def PlainLiteral (key : PartitionKey) (lit : ScalarValue) : Prop :=
  lit.dataType = key.dataType ∧ (lit.number.isSome ∨ lit.text.isSome) ∧
    lit.text ≠ some hiveDefaultPartition ∧
    ∀ d, lit = .date32 (some d) → chrono.minDay ≤ d ∧ d ≤ chrono.maxDay

/-- A comparison of the column with a literal that the entry decides. -/
def DecidedComparison (c : Column) (op : Operator) (lit : ScalarValue) : Prop :=
  op.test.isSome ∧ ∃ key raw, keyOf keys c.name = some key ∧ entry.values c.name = some raw ∧
    PlainLiteral chrono key lit ∧ (raw = hiveDefaultPartition ∨ Reads chrono tryFromString key raw)

/-- An `IN` that the entry decides: of a value that reads as its type, or, when not negated, of
a NULL string. -/
def DecidedIn (c : Column) (lits : List ScalarValue) (negated : Bool) : Prop :=
  ∃ key raw, keyOf keys c.name = some key ∧ entry.values c.name = some raw ∧
    (∀ lit ∈ lits, PlainLiteral chrono key lit) ∧ Reads chrono tryFromString key raw ∧
    (raw = hiveDefaultPartition → negated = false)

/-- One item of the list is a plain literal that equals the raw value. -/
def Hit (c : Column) (items : List Expr) : Prop :=
  ∃ key raw lit, keyOf keys c.name = some key ∧ entry.values c.name = some raw ∧
    Expr.literal lit ∈ items ∧ PlainLiteral chrono key lit ∧ Reads chrono tryFromString key raw ∧
    compareRaw chrono raw lit key.sqlType = some .eq

/-- The expression raises no error on a row of the partition. -/
def Evaluates (e : Expr) : Prop :=
  ∀ data, (eval k (rowEnv keys tryFromString entry data) e).isSome = true

/-- The filters an entry decides: comparisons, `IN` and NULL tests of partition columns with
plain literals, combined by `AND` and `OR`. One item decides an `IN` that equals the raw value,
and one side an `OR` that is decided and not rejected. -/
inductive Decided : Expr → Prop
  | and {l r : Expr} : Decided l → Decided r → Decided (.binaryExpr l .and r)
  | or {l r : Expr} : Decided l → Decided r → Decided (.binaryExpr l .or r)
  | orLeft {l r : Expr} : Decided l → verdict chrono keys entry l ≠ some false →
      Evaluates k tryFromString keys entry r → Decided (.binaryExpr l .or r)
  | orRight {l r : Expr} : Decided r → verdict chrono keys entry r ≠ some false →
      Evaluates k tryFromString keys entry l → Decided (.binaryExpr l .or r)
  | compare {c : Column} {op : Operator} {lit : ScalarValue} :
      DecidedComparison chrono tryFromString keys entry c op lit →
      Decided (.binaryExpr (.column c) op (.literal lit))
  | compareLiteral {c : Column} {op : Operator} {lit : ScalarValue} :
      DecidedComparison chrono tryFromString keys entry c (flipped op) lit →
      Decided (.binaryExpr (.literal lit) op (.column c))
  | member {c : Column} {lits : List ScalarValue} {negated : Bool} :
      DecidedIn chrono tryFromString keys entry c lits negated →
      Decided (.inList (.column c) (lits.map Expr.literal) negated)
  | hit {c : Column} {items : List Expr} : Hit chrono tryFromString keys entry c items →
      Evaluates k tryFromString keys entry (.inList (.column c) items false) →
      Decided (.inList (.column c) items false)
  | null {c : Column} {key : PartitionKey} {raw : String} : keyOf keys c.name = some key →
      entry.values c.name = some raw →
      raw = hiveDefaultPartition ∨ typeFamily key.sqlType = .text →
      Decided (.isNull (.column c))
  | notNull {c : Column} {key : PartitionKey} {raw : String} : keyOf keys c.name = some key →
      entry.values c.name = some raw → Decided (.isNotNull (.column c))

end Decided

section Literals

variable {lit : ScalarValue} (value : lit.number.isSome ∨ lit.text.isSome)
include value

private theorem integer_of_plain (width : lit.dataType ∈ [DataType.int8, .int16, .int32, .int64]) :
    ∃ n, scalarI64 lit = some n := by
  cases lit with
  | int8 v | int16 v | int32 v | int64 v =>
    cases v with
    | none => simp [number, text] at value
    | some n => exact ⟨n, rfl⟩
  | other type v => simp [number, text] at value
  | _ => simp [dataType] at width

private theorem date_of_plain (type : lit.dataType = .date32) : ∃ d, lit = .date32 (some d) := by
  cases lit with
  | date32 v =>
    cases v with
    | none => simp [number, text] at value
    | some d => exact ⟨d, rfl⟩
  | other type v => simp [number, text] at value
  | _ => simp [dataType] at type

private theorem text_of_plain (type : lit.dataType = .utf8) : ∃ s, lit = .utf8 (some s) := by
  cases lit with
  | utf8 v =>
    cases v with
    | none => simp [number, text] at value
    | some s => exact ⟨s, rfl⟩
  | other type v => simp [number, text] at value
  | _ => simp [dataType] at type

end Literals

section Leaves

variable {chrono : Chrono} {tryFromString : TryFromString}
  (parsers : ParsersAgree chrono tryFromString) {keys : List PartitionKey}
  {entry : PartitionIndexEntry}

variable {key : PartitionKey} {raw : String}

omit parsers in
theorem compareRaw_known {lit : ScalarValue}
    (reads : Reads chrono tryFromString key raw) (plain : PlainLiteral chrono key lit) :
    ∃ o, compareRaw chrono raw lit key.sqlType = some o := by
  obtain ⟨same, value, _, inRange⟩ := plain
  cases reads with
  | integer family pruner _ =>
    obtain ⟨left, parsed⟩ := Option.isSome_iff_exists.mp pruner
    have width := dataType_of_integer family
    rw [← same] at width
    obtain ⟨right, read⟩ := integer_of_plain value width
    exact ⟨compare left right, by simp [compareRaw, family, parsed, read]⟩
  | date family pruner _ =>
    obtain ⟨left, parsed⟩ := Option.isSome_iff_exists.mp pruner
    rw [dataType_of_date family] at same
    obtain ⟨d, rfl⟩ := date_of_plain value same
    have day := inRange d rfl
    exact ⟨compare left d, by simp [compareRaw, family, parsed, scalarDate, Chrono.dateOfDays, day]⟩
  | text family utf8 =>
    rw [utf8] at same
    obtain ⟨right, rfl⟩ := text_of_plain value same
    exact ⟨compare raw right, by simp [compareRaw, family, scalarUtf8]⟩

include parsers

theorem partitionValue_dataType
    (present : raw ≠ hiveDefaultPartition) (reads : Reads chrono tryFromString key raw) :
    (partitionValue tryFromString raw key.dataType).dataType = key.dataType := by
  have read : ∃ v, tryFromString raw key.dataType = some v := by
    cases reads with
    | integer _ _ arrow => exact Option.isSome_iff_exists.mp arrow
    | date _ _ arrow => exact Option.isSome_iff_exists.mp arrow
    | text _ utf8 =>
      rw [utf8]
      exact ⟨_, parsers.utf8 raw⟩
  obtain ⟨v, read⟩ := read
  simp [partitionValue, partitionScalar, present, read, parsers.typed _ _ _ read]

theorem order_known {lit : ScalarValue}
    (present : raw ≠ hiveDefaultPartition) (reads : Reads chrono tryFromString key raw)
    (plain : PlainLiteral chrono key lit) :
    ∃ o, compareRaw chrono raw lit key.sqlType = some o ∧
      (partitionValue tryFromString raw key.dataType).order lit = some o := by
  obtain ⟨o, compared⟩ := compareRaw_known reads plain
  exact ⟨o, compared, compareRaw_order parsers present plain.1
    (partitionValue_dataType parsers present reads) compared⟩

end Leaves

def Settles (k : Kernels) (env : RowEnv) (f : Expr) (verdict : Option Bool) : Prop :=
  ∃ truth, eval k env f = some (.boolean truth) ∧ (verdict ≠ some false → truth = some true)

section Settles

variable {k : Kernels} {env : RowEnv}

theorem Settles.holds {f : Expr} {verdict : Option Bool} (settles : Settles k env f verdict)
    (kept : verdict ≠ some false) : Holds k env f := by
  obtain ⟨truth, evaluated, decided⟩ := settles
  simp [Holds, evaluated, decided kept]

variable {l r : Expr} {vl vr : Option Bool} (left : Settles k env l vl)
  (right : Settles k env r vr)

include left right

theorem Settles.and : Settles k env (.binaryExpr l .and r) (and3 vl vr) := by
  obtain ⟨a, evalL, decidedL⟩ := left
  obtain ⟨b, evalR, decidedR⟩ := right
  by_cases skipped : a = some false ∧ env.skip r = true
  · refine ⟨some false, by simp [eval, evalL, skipped], fun kept => absurd ?_ kept⟩
    have rejected : vl = some false := by
      by_contra accepted
      simp [decidedL accepted] at skipped
    simp [rejected]
  · refine ⟨and3 a b, by simp [eval, evalL, evalR, skipped], fun kept => ?_⟩
    simp only [ne_eq, and3_eq_false, not_or] at kept
    simp [decidedL kept.1, decidedR kept.2]

theorem Settles.or : Settles k env (.binaryExpr l .or r) (or3 vl vr) := by
  obtain ⟨a, evalL, decidedL⟩ := left
  obtain ⟨b, evalR, decidedR⟩ := right
  by_cases skipped : a = some true ∧ env.skip r = true
  · exact ⟨some true, by simp [eval, evalL, skipped], fun _ => rfl⟩
  · refine ⟨or3 a b, by simp [eval, evalL, evalR, skipped], fun kept => ?_⟩
    simp only [ne_eq, or3_eq_false, not_and_or] at kept
    rcases kept with first | second
    · simp [decidedL first]
    · simp [decidedR second]

omit right in
theorem Settles.or_left (kept : vl ≠ some false) (evaluates : (eval k env r).isSome = true)
    (v : Option Bool) : Settles k env (.binaryExpr l .or r) v := by
  obtain ⟨a, evalL, decidedL⟩ := left
  obtain ⟨b, evalR⟩ := Option.isSome_iff_exists.mp evaluates
  refine ⟨some true, ?_, fun _ => rfl⟩
  by_cases skipped : env.skip r = true <;> simp [eval, evalL, evalR, decidedL kept, skipped]

omit left in
theorem Settles.or_right (kept : vr ≠ some false) (evaluates : (eval k env l).isSome = true)
    (v : Option Bool) : Settles k env (.binaryExpr l .or r) v := by
  obtain ⟨a, evalL⟩ := Option.isSome_iff_exists.mp evaluates
  obtain ⟨b, evalR, decidedR⟩ := right
  refine ⟨some true, ?_, fun _ => rfl⟩
  by_cases skipped : a.truth = some true ∧ env.skip r = true
  · simp [eval, evalL, skipped]
  · simp [eval, evalL, evalR, decidedR kept, skipped]

end Settles

theorem isSome_of_flipped {op : Operator} (tested : (flipped op).test.isSome) : op.test.isSome := by
  cases op <;> first | rfl | exact tested

private theorem scanItems_literals {chrono : Chrono} {raw sqlType : String}
    {lits : List ScalarValue} {hit : ScalarValue → Bool}
    (compared : ∀ lit ∈ lits, ∃ o, compareRaw chrono raw lit sqlType = some o ∧
      (o == .eq) = hit lit) :
    scanItems chrono raw sqlType (lits.map Expr.literal) = (lits.any hit, true) := by
  induction lits with
  | nil => rfl
  | cons lit lits ih =>
    obtain ⟨o, first, agrees⟩ := compared lit mem_cons_self
    have rest := ih (forall_mem_cons.mp compared).2
    simp only [map_cons, scanItems, rest, first, any_cons, ← agrees]
    cases o <;> rfl

private theorem foldr_or3_known {ws : List ScalarValue} {truth : ScalarValue → Option Bool}
    {hit : ScalarValue → Bool} (known : ∀ w ∈ ws, truth w = some (hit w)) :
    ws.foldr (fun w rest => or3 (truth w) rest) (some false) = some (ws.any hit) := by
  induction ws with
  | nil => rfl
  | cons w ws ih =>
    rw [foldr_cons, ih (forall_mem_cons.mp known).2, known w mem_cons_self, any_cons]
    cases hit w <;> cases ws.any hit <;> rfl

theorem sameType_literals {typeOf : Column → DataType} {c : Column} {lits : List ScalarValue}
    {type : DataType} (column : typeOf c = type) (literals : ∀ lit ∈ lits, lit.dataType = type) :
    sameType typeOf (.column c :: lits.map Expr.literal) = true := by
  have known (e : Expr) (inside : e ∈ Expr.column c :: lits.map Expr.literal) (t : DataType)
      (static : staticType typeOf e = some t) : t = type := by
    rcases mem_cons.mp inside with rfl | inside
    · exact (Option.some.inj static).symm.trans column
    · obtain ⟨lit, member, rfl⟩ := mem_map.mp inside
      exact (Option.some.inj static).symm.trans (literals lit member)
  rw [sameType_iff]
  intro e inside t static e' inside' t' static'
  rw [known e inside t static, known e' inside' t' static']

private theorem memberOf_hit {k : Kernels} {v w : ScalarValue} {ws : List ScalarValue}
    {t : Option Bool} (inside : w ∈ ws) (hit : k.binary .eq v w = some (.boolean (some true)))
    (member : memberOf k v ws = some t) : t = some true := by
  induction ws generalizing t with
  | nil => cases inside
  | cons u us ih =>
    simp only [memberOf, Option.bind_eq_bind, Option.bind_eq_some_iff, Option.pure_def,
      Option.some.injEq] at member
    obtain ⟨first, here, rest, later, rfl⟩ := member
    rcases mem_cons.mp inside with rfl | inside
    · cases hit.symm.trans here
      simp
    · simp [ih inside later]

section Rows

variable {chrono : Chrono} {tryFromString : TryFromString}
  (parsers : ParsersAgree chrono tryFromString) {keys : List PartitionKey}
  {k : Kernels} {dataType : Column → DataType}
  (analysed : Analysed k (columnType keys dataType))
  {entry : PartitionIndexEntry} (data : RowEnv)
include parsers

variable {c : Column} {lit : ScalarValue} {op : Operator}

theorem text_of_compareRaw_sentinel {sqlType : String}
    (compared : compareRaw chrono hiveDefaultPartition lit sqlType = some .eq) :
    lit.text = some hiveDefaultPartition := by
  have noInteger : parseI64 hiveDefaultPartition = none := by decide
  unfold compareRaw at compared
  split at compared
  · simp [noInteger] at compared
  · simp [parsers.sentinel] at compared
  · simp only [Option.bind_eq_bind, Option.bind_eq_some_iff, Option.pure_def,
      Option.some.injEq] at compared
    obtain ⟨s, read, equal⟩ := compared
    rw [Std.LawfulEqCmp.eq_of_compare equal]
    exact read

theorem decidedComparison_kernel (dataType : Column → DataType)
    {test : Ordering → Bool} (tested : op.test = some test)
    (decided : DecidedComparison chrono tryFromString keys entry c op lit) :
    columnType keys dataType c = lit.dataType ∧ lit.dataType.isOrdered = true ∧
      ∃ truth, compareWith test ((rowEnv keys tryFromString entry data).column c) lit =
          some (.boolean truth) ∧
        (cmpColLit chrono entry c.name lit op (partitionTypes keys) ≠ some false →
          truth = some true) := by
  obtain ⟨-, key, raw, found, value, plain, nullOrReads⟩ := decided
  have ordered := isOrdered_of_value plain.2.1
  refine ⟨(columnType_key found).trans plain.1.symm, ordered, ?_⟩
  rw [rowEnv_column found value]
  by_cases sentinel : raw = hiveDefaultPartition
  · -- NULL: the kernel answers unknown, and the pruner rejects any literal but the sentinel.
    refine ⟨none, ?_, fun kept => absurd ?_ kept⟩
    · rw [compareWith, if_pos (by simp [partitionValue, sentinel, plain.1]), partitionValue,
        if_pos sentinel, order_nullOf]
      rfl
    · have other := plain.2.2.1
      simp only [cmpColLit, value, Option.bind_eq_bind, Option.bind_some, sentinel, if_true]
      split
      next s => exact if_neg fun same => other (by simp [text, same])
      next s => exact if_neg fun same => other (by simp [text, same])
      · rfl
  · have reads := nullOrReads.resolve_left sentinel
    obtain ⟨o, compared, order⟩ := order_known parsers sentinel reads plain
    refine ⟨some (test o), ?_, ?_⟩
    · rw [compareWith, if_pos ((partitionValue_dataType parsers sentinel reads).trans plain.1.symm),
        order]
      rfl
    · simp [cmpColLit, value, sentinel, typeOf_partitionTypes found, compared, tested]

include analysed

theorem settles_compare (decided : DecidedComparison chrono tryFromString keys entry c op lit) :
    Settles k (rowEnv keys tryFromString entry data) (.binaryExpr (.column c) op (.literal lit))
      (cmpColLit chrono entry c.name lit op (partitionTypes keys)) := by
  obtain ⟨test, tested⟩ := Option.isSome_iff_exists.mp decided.1
  obtain ⟨same, ordered, truth, kernel, kept⟩ :=
    decidedComparison_kernel parsers data dataType tested decided
  refine ⟨truth, ?_, kept⟩
  rw [eval_compare analysed tested rfl rfl (Or.inr ordered),
    if_pos (by simp [sameType, staticType, same]), ← kernel]

theorem settles_compareLiteral
    (decided : DecidedComparison chrono tryFromString keys entry c (flipped op) lit) :
    Settles k (rowEnv keys tryFromString entry data) (.binaryExpr (.literal lit) op (.column c))
      (cmpColLit chrono entry c.name lit (flipped op) (partitionTypes keys)) := by
  obtain ⟨test, tested⟩ := Option.isSome_iff_exists.mp (isSome_of_flipped decided.1)
  obtain ⟨same, ordered, truth, kernel, kept⟩ :=
    decidedComparison_kernel parsers data dataType (flipped_test tested) decided
  refine ⟨truth, ?_, kept⟩
  rw [eval_compare analysed tested rfl rfl (Or.inl ordered),
    if_pos (by simp [sameType, staticType, same]), compareWith_swap, ← kernel]

theorem settles_member {lits : List ScalarValue} {negated : Bool}
    (decided : DecidedIn chrono tryFromString keys entry c lits negated) :
    Settles k (rowEnv keys tryFromString entry data)
      (.inList (.column c) (lits.map Expr.literal) negated)
      (evalEntry chrono entry (partitionTypes keys)
        (.inList (.column c) (lits.map Expr.literal) negated)) := by
  obtain ⟨key, raw, found, value, plain, reads, nullable⟩ := decided
  have declared : columnType keys dataType c = key.dataType := columnType_key found
  let v := partitionValue tryFromString raw key.dataType
  have typed : v.dataType = key.dataType := by
    by_cases sentinel : raw = hiveDefaultPartition
    · simp [v, partitionValue, sentinel]
    · exact partitionValue_dataType parsers sentinel reads
  have kernel : ∀ lit ∈ lits,
      k.binary .eq v lit = some (.boolean ((v.order lit).map (· == .eq))) := by
    intro lit member
    rw [analysed.compare .eq _ rfl _ _
      (Or.inr (isOrdered_of_value (plain lit member).2.1)), compareWith,
      if_pos (typed.trans (plain lit member).1.symm)]
  have head : eval k (rowEnv keys tryFromString entry data) (.column c) = some v :=
    congrArg some (rowEnv_column found value)
  have evaluated := eval_inList analysed (n := negated) head (evalList_literals lits)
  rw [if_pos (sameType_literals declared fun lit member => (plain lit member).1),
    memberOf_eq kernel] at evaluated
  refine ⟨_, evaluated, fun kept => ?_⟩
  by_cases sentinel : raw = hiveDefaultPartition
  · -- A NULL string equals no plain literal, so the pruner rejects it.
    have miss : ∀ lit ∈ lits, ∃ o, compareRaw chrono raw lit key.sqlType = some o ∧
        (o == .eq) = false := by
      intro lit member
      obtain ⟨o, compared⟩ := compareRaw_known reads (plain lit member)
      refine ⟨o, compared, ?_⟩
      by_contra equal
      rw [Bool.not_eq_false, beq_iff_eq] at equal
      rw [sentinel, equal] at compared
      exact (plain lit member).2.2.1 (text_of_compareRaw_sentinel parsers compared)
    simp [evalEntry, value, typeOf_partitionTypes found, scanItems_literals miss,
      nullable sentinel] at kept
  · have hits : ∀ lit ∈ lits, ∃ o, compareRaw chrono raw lit key.sqlType = some o ∧
        (o == .eq) = (v.order lit == some .eq) := by
      intro lit member
      obtain ⟨o, compared, order⟩ := order_known parsers sentinel reads (plain lit member)
      exact ⟨o, compared, by rw [order]; cases o <;> rfl⟩
    have known (lit : ScalarValue) (member : lit ∈ lits) :
        (v.order lit).map (· == .eq) = some (v.order lit == some .eq) := by
      obtain ⟨o, _, order⟩ := order_known parsers sentinel reads (plain lit member)
      rw [order]
      cases o <;> rfl
    simp only [evalEntry, value, typeOf_partitionTypes found, Option.bind_eq_bind,
      Option.bind_some, scanItems_literals hits] at kept
    rw [foldr_or3_known known]
    cases negated <;> simp_all [negateIf, not3]

theorem settles_hit {items : List Expr} (hit : Hit chrono tryFromString keys entry c items)
    (evaluates : Evaluates k tryFromString keys entry (.inList (.column c) items false))
    (v : Option Bool) :
    Settles k (rowEnv keys tryFromString entry data) (.inList (.column c) items false) v := by
  obtain ⟨key, raw, lit, found, value, item, plain, reads, equal⟩ := hit
  obtain ⟨result, evaluated⟩ := Option.isSome_iff_exists.mp (evaluates data)
  have head : eval k (rowEnv keys tryFromString entry data) (.column c) =
      some (partitionValue tryFromString raw key.dataType) :=
    congrArg some (rowEnv_column found value)
  have present : raw ≠ hiveDefaultPartition := by
    rintro rfl
    exact plain.2.2.1 (text_of_compareRaw_sentinel parsers equal)
  have same : k.binary .eq (partitionValue tryFromString raw key.dataType) lit =
      some (.boolean (some true)) := by
    obtain ⟨o, compared, order⟩ := order_known parsers present reads plain
    cases equal.symm.trans compared
    rw [analysed.compare .eq _ rfl _ _ (Or.inr (isOrdered_of_value plain.2.1)), compareWith,
      if_pos ((partitionValue_dataType parsers present reads).trans plain.1.symm), order]
    rfl
  cases listed : evalList k (rowEnv keys tryFromString entry data) items with
  | none => simp [eval, listed] at evaluated
  | some ws =>
    rw [eval_inList analysed head listed] at evaluated
    obtain ⟨w, inside, is⟩ := forall₂_exists_right
      (mapM_eq_some_iff.mp (evalList_eq_mapM .. ▸ listed)) item
    cases Option.some.inj is
    rw [Option.ite_none_right_eq_some, Option.bind_eq_some_iff] at evaluated
    obtain ⟨types, t, member, -⟩ := evaluated
    refine ⟨some true, ?_, fun _ => rfl⟩
    rw [eval_inList analysed head listed, if_pos types, member, memberOf_hit inside same member]
    rfl

omit analysed in
theorem settles_null {key : PartitionKey} {raw : String}
    (found : keyOf keys c.name = some key) (value : entry.values c.name = some raw)
    (decided : raw = hiveDefaultPartition ∨ typeFamily key.sqlType = .text) :
    Settles k (rowEnv keys tryFromString entry data) (.isNull (.column c))
      (cmpColLit chrono entry c.name (.utf8 (some hiveDefaultPartition)) .eq
        (partitionTypes keys)) := by
  refine ⟨some ((partitionValue tryFromString raw key.dataType).isNull), ?_, fun kept => ?_⟩
  · simp [eval, IsTest.holds, rowEnv_column found value]
  · rw [(partitionValue_isNull parsers raw key).mpr]
    by_contra present
    have text := decided.resolve_left present
    have compared : compareRaw chrono raw (.utf8 (some hiveDefaultPartition)) key.sqlType =
        some (compare raw hiveDefaultPartition) := by
      simp [compareRaw, text, scalarUtf8]
    have differs : compare raw hiveDefaultPartition ≠ .eq := fun equal =>
      present (Std.LawfulEqCmp.eq_of_compare equal)
    simp [cmpColLit, value, present, typeOf_partitionTypes found, compared, Operator.test,
      differs] at kept

omit analysed in
theorem settles_notNull {key : PartitionKey} {raw : String}
    (found : keyOf keys c.name = some key) (value : entry.values c.name = some raw) :
    Settles k (rowEnv keys tryFromString entry data) (.isNotNull (.column c))
      (cmpColLit chrono entry c.name (.utf8 (some hiveDefaultPartition)) .notEq
        (partitionTypes keys)) := by
  refine ⟨some !(partitionValue tryFromString raw key.dataType).isNull, ?_, fun kept => ?_⟩
  · simp [eval, IsTest.holds, rowEnv_column found value]
  · have present : raw ≠ hiveDefaultPartition := by
      intro sentinel
      simp [cmpColLit, value, sentinel] at kept
    have isNull := (partitionValue_isNull parsers raw key).not.mpr present
    simp [isNull]

theorem decided_settles {f : Expr} (decided : Decided k chrono tryFromString keys entry f) :
    Settles k (rowEnv keys tryFromString entry data) f (verdict chrono keys entry f) := by
  induction decided with
  | and _ _ left right => exact verdict_and ▸ left.and right
  | or _ _ left right => exact verdict_or ▸ left.or right
  | orLeft _ kept evaluates left => exact left.or_left kept (evaluates data) _
  | orRight _ kept evaluates right => exact right.or_right kept (evaluates data) _
  | compare comparison =>
    simp only [verdict, Expr.transform, rewriteDefaultPartitionNode]
    rw [evalEntry_tested comparison.1]
    exact settles_compare parsers analysed data comparison
  | compareLiteral comparison =>
    simp only [verdict, Expr.transform, rewriteDefaultPartitionNode]
    rw [evalEntry_tested (isSome_of_flipped comparison.1)]
    exact settles_compareLiteral parsers analysed data comparison
  | member membership =>
    have settled := settles_member parsers analysed data membership
    simpa only [verdict, Expr.transform, rewriteDefaultPartitionNode, evalEntry,
      scanItems_rewrite] using settled
  | hit hit evaluates => exact settles_hit parsers analysed data hit evaluates _
  | null found value decided =>
    simp only [verdict, Expr.transform, rewriteDefaultPartitionNode,
      if_pos (mem_partitionColumns.mpr ⟨_, found⟩)]
    exact settles_null parsers data found value decided
  | notNull found value =>
    simp only [verdict, Expr.transform, rewriteDefaultPartitionNode,
      if_pos (mem_partitionColumns.mpr ⟨_, found⟩)]
    exact settles_notNull parsers data found value

end Rows

namespace HiveTableProvider

variable {chrono : Chrono} {t : HiveTableProvider}

private theorem regionIsEu_decided (value : String) :
    Decided eventsKernels dateless textOnly eventsTable.keys (regionEntry value) regionIsEu := by
  refine .compare ⟨rfl, regionKey, value, rfl, rfl, ⟨rfl, Or.inr rfl, by decide, ?_⟩,
    Or.inr (.text (by decide) rfl)⟩
  intro d date
  cases date

/-- `region LIKE 'eu%'`, a filter over partition columns that the pruner does not decide. -/
def regionLikeEu : Expr :=
  .like false (.column ⟨none, "region"⟩) (.literal (.utf8 (some "eu%"))) none false

end HiveTableProvider

end Sqe.Catalog.Hive
