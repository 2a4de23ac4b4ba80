/- GID: Sqe/Catalog/Hive/PruneSound
   generality: G
   digest: An entry the pruner rejects holds no row that satisfies the filter. -/

import Sqe.Catalog.Hive.Prune

set_option autoImplicit false

namespace Sqe.Catalog.Hive

open Sqe.DataFusion Sqe.Library.Kleene Sqe.Library.Traverse Option

variable {key : PartitionKey} {keys : List PartitionKey} {lit : ScalarValue} {op : Operator}
  {types : List (String × String)} {chrono : Chrono} {tryFromString : TryFromString}
  {entry : PartitionIndexEntry} {raw sqlType name : String} {e l r : Expr} {items : List Expr}
  {c : Column} {o : Ordering} {test : Ordering → Bool} {b : Bool} {type : DataType}

theorem typeOf_partitionTypes (found : keyOf keys name = some key) :
    typeOf name (partitionTypes keys) = key.sqlType := by
  have pair : (partitionTypes keys).find? (·.1 = name) = some (key.name, key.sqlType) := by
    rw [partitionTypes, List.find?_map]
    have same : ((fun x : String × String => decide (x.1 = name)) ∘
        fun key : PartitionKey => (key.name, key.sqlType)) = fun key => key.name == name := by
      funext key
      simp [Bool.beq_eq_decide_eq]
    rw [same, show keys.find? (fun key => key.name == name) = some key from found]
    rfl
  simp [typeOf, pair]

private theorem dataType_of_base {base : String}
    (named : sqlBase key.sqlType = base) (type : DataType)
    (mapped : arrowBase (String.ofList (trimChars base.toList)) = some type) :
    key.dataType = type := by
  rcases key.typed with arrow | ⟨arrow, _⟩
  · rw [arrowType, named, mapped] at arrow
    exact (some.inj arrow).symm
  · rw [arrowType, named, mapped] at arrow
    cases arrow

theorem dataType_of_integer (family : typeFamily key.sqlType = .integer) :
    key.dataType ∈ [DataType.int8, .int16, .int32, .int64] := by
  unfold typeFamily at family
  split at family
  next named => simp [dataType_of_base named .int8 (by decide)]
  next named => simp [dataType_of_base named .int16 (by decide)]
  next named => simp [dataType_of_base named .int32 (by decide)]
  next named => simp [dataType_of_base named .int32 (by decide)]
  next named => simp [dataType_of_base named .int64 (by decide)]
  all_goals cases family

theorem dataType_of_date (family : typeFamily key.sqlType = .date) : key.dataType = .date32 := by
  unfold typeFamily at family
  split at family
  case h_6 named => exact dataType_of_base named .date32 (by decide)
  all_goals cases family

private theorem arrowBase_text {base : String}
    (mapped : arrowBase base = some type) : type ≠ .largeUtf8 ∧ type ≠ .utf8View := by
  unfold arrowBase at mapped
  split at mapped <;> simp_all <;> subst mapped <;> simp

private theorem dataType_of_text {s : String}
    (text : scalarUtf8 lit = some s) (same : lit.dataType = key.dataType) :
    key.dataType = .utf8 ∧ lit = .utf8 (some s) := by
  have plain : key.dataType ≠ .largeUtf8 ∧ key.dataType ≠ .utf8View := by
    rcases key.typed with arrow | ⟨_, nested | ⟨p, sc, decimal⟩⟩
    · exact arrowBase_text arrow
    · constructor <;> intro h <;> simp [h, DataType.isNested] at nested
    · simp [decimal]
  cases lit <;> simp_all [scalarUtf8, ScalarValue.dataType]

private theorem dataType_ne_null (key : PartitionKey) : key.dataType ≠ .null := by
  rcases key.typed with arrow | ⟨_, nested | ⟨p, sc, decimal⟩⟩
  · intro null
    rw [arrowType, null] at arrow
    unfold arrowBase at arrow
    split at arrow <;> cases arrow
  · intro null
    simp [null, DataType.isNested] at nested
  · simp [decimal]

private theorem number_of_int {n : Int}
    (integer : lit.dataType ∈ [DataType.int8, .int16, .int32, .int64])
    (read : scalarI64 lit = some n) : lit.number = some n := by
  cases lit <;> simp_all [ScalarValue.dataType, scalarI64, ScalarValue.number]

private theorem number_of_date {d : Int}
    (date : lit.dataType = .date32) (read : scalarDate chrono lit = some d) :
    lit.number = some d := by
  cases lit with
  | date32 v => cases v <;> simp_all [scalarDate, ScalarValue.number, Chrono.dateOfDays]
  | _ => simp_all [ScalarValue.dataType]

private theorem order_of_numbers {a b : ScalarValue} {x y : Int} (left : a.number = some x)
    (right : b.number = some y) : a.order b = some (compare x y) := by
  simp [ScalarValue.order, compareKeys, left, right]

private theorem tryFromString_of_dataType
    (present : raw ≠ hiveDefaultPartition) (other : type ≠ .utf8)
    (typed : (partitionValue tryFromString raw type).dataType = type) :
    tryFromString raw type = some (partitionValue tryFromString raw type) := by
  unfold partitionValue partitionScalar at typed ⊢
  rw [if_neg present, if_neg present] at typed ⊢
  cases read : tryFromString raw type with
  | none => exact absurd (by simpa [read, ScalarValue.dataType] using typed.symm) other
  | some v => rfl

section Value

variable (parsers : ParsersAgree chrono tryFromString)
include parsers

theorem partitionValue_isNull (raw : String) (key : PartitionKey) :
    (partitionValue tryFromString raw key.dataType).isNull = true ↔ raw = hiveDefaultPartition := by
  by_cases sentinel : raw = hiveDefaultPartition
  · simp [partitionValue, sentinel]
  · simp only [partitionValue, partitionScalar, sentinel, if_false, iff_false, Bool.not_eq_true]
    cases read : tryFromString raw key.dataType with
    | none => rfl
    | some v => exact parsers.present _ _ _ (dataType_ne_null key) read

theorem compareRaw_sentinel
    (compared : compareRaw chrono raw (.utf8 (some hiveDefaultPartition)) sqlType = some .eq) :
    raw = hiveDefaultPartition := by
  have noInteger : parseI64 hiveDefaultPartition = none := by decide
  unfold compareRaw at compared
  split at compared <;>
    simp_all [scalarI64, scalarDate, scalarUtf8, parsers.sentinel]

theorem compareRaw_order (present : raw ≠ hiveDefaultPartition) (same : lit.dataType = key.dataType)
    (typed : (partitionValue tryFromString raw key.dataType).dataType = key.dataType)
    (compared : compareRaw chrono raw lit key.sqlType = some o) :
    (partitionValue tryFromString raw key.dataType).order lit = some o := by
  unfold compareRaw at compared
  split at compared <;> simp only [bind_eq_bind, bind_eq_some_iff, pure_def, some.injEq] at compared
  next family =>
    have width := dataType_of_integer family
    obtain ⟨left, parsed, right, read, rfl⟩ := compared
    have asked : key.dataType ≠ .utf8 := by
      intro utf8
      simp [utf8] at width
    have value := tryFromString_of_dataType present asked typed
    exact order_of_numbers (parsers.int _ _ _ _ width value parsed)
      (number_of_int (same ▸ width) read)
  next family =>
    obtain ⟨left, parsed, right, read, rfl⟩ := compared
    rw [dataType_of_date family] at typed same ⊢
    have value := tryFromString_of_dataType present (by simp) typed
    exact order_of_numbers (parsers.date _ _ _ value parsed) (number_of_date same read)
  · obtain ⟨right, read, rfl⟩ := compared
    obtain ⟨utf8, rfl⟩ := dataType_of_text read same
    simp [utf8, partitionValue, partitionScalar, present, parsers.utf8]
    rfl

end Value

theorem compareRaw_ordered (compared : compareRaw chrono raw lit sqlType = some o) :
    lit.dataType.isOrdered = true := by
  unfold compareRaw at compared
  split at compared <;>
    cases lit <;>
    simp_all [scalarI64, scalarDate, scalarUtf8, ScalarValue.dataType, DataType.isOrdered]

theorem flipped_test (tested : op.test = some test) :
    (flipped op).test = some fun o => test o.swap := by
  cases op <;> simp_all [Operator.test, flipped] <;> subst tested <;> funext o <;> cases o <;> rfl

/-- Every value the probe carries is the row's, under a declared key: the entry of the row
itself, or one axis of it. -/
def Probes (keys : List PartitionKey) (probe entry : PartitionIndexEntry) : Prop :=
  ∀ name raw, probe.values name = some raw →
    entry.values name = some raw ∧ ∃ key, keyOf keys name = some key

theorem scanItems_any (any : (scanItems chrono raw sqlType items).1 = true) :
    ∃ lit, Expr.literal lit ∈ items ∧ compareRaw chrono raw lit sqlType = some .eq := by
  induction items with
  | nil => simp [scanItems] at any
  | cons item items ih =>
    simp only [scanItems] at any
    (repeat' split at any)
    next lit _ compared => exact ⟨lit, by simp, compared⟩
    all_goals
      obtain ⟨lit', member, compared⟩ := ih any
      exact ⟨lit', List.mem_cons_of_mem _ member, compared⟩

theorem scanItems_known (none : (scanItems chrono raw sqlType items).1 = false)
    (known : (scanItems chrono raw sqlType items).2 = true) {item : Expr} (member : item ∈ items) :
    ∃ lit o, item = .literal lit ∧ compareRaw chrono raw lit sqlType = some o ∧ o ≠ .eq := by
  induction items with
  | nil => cases member
  | cons first items ih =>
    simp only [scanItems] at none known
    split at none
    next lit =>
      split at none
      · cases none
      next o different compared =>
        simp only [compared] at known
        rcases List.mem_cons.mp member with rfl | later
        · exact ⟨lit, o, rfl, compared, different⟩
        · exact ih none known later
      next compared => simp [compared] at known
    next notLiteral => simp at known

section Rewrite

variable {cols : List String}

theorem rewrite_eq_column :
    e.transform (rewriteDefaultPartitionNode cols) = .column c ↔ e = .column c := by
  cases e <;> simp only [Expr.transform, rewriteDefaultPartitionNode, reduceCtorEq]
  case is t e => split <;> (try split) <;> simp

theorem rewrite_eq_literal {v : ScalarValue} :
    e.transform (rewriteDefaultPartitionNode cols) = .literal v ↔ e = .literal v := by
  cases e <;> simp only [Expr.transform, rewriteDefaultPartitionNode, reduceCtorEq]
  case is t e => split <;> (try split) <;> simp

theorem scanItems_rewrite (items : List Expr) :
    scanItems chrono raw sqlType (Expr.transformList (rewriteDefaultPartitionNode cols) items) =
      scanItems chrono raw sqlType items := by
  induction items with
  | nil => rfl
  | cons item items ih =>
    simp only [Expr.transformList, scanItems, ih]
    -- Only a literal counts, and the rewrite neither makes one nor touches one.
    by_cases literal : ∃ v, item = .literal v
    · obtain ⟨v, rfl⟩ := literal
      rw [rewrite_eq_literal.mpr rfl]
    · have kept : ¬ ∃ v, item.transform (rewriteDefaultPartitionNode cols) = .literal v := by
        simpa only [rewrite_eq_literal] using literal
      split <;> split <;> simp_all

theorem cmpEntry_rewrite : cmpEntry chrono entry (l.transform (rewriteDefaultPartitionNode cols))
        (r.transform (rewriteDefaultPartitionNode cols)) op types =
      cmpEntry chrono entry l r op types := by
  unfold cmpEntry
  split
  next left right =>
    rw [rewrite_eq_column] at left
    rw [rewrite_eq_literal] at right
    rw [left, right]
  next left right =>
    rw [rewrite_eq_literal] at left
    rw [rewrite_eq_column] at right
    rw [left, right]
  next columnFirst literalFirst =>
    split
    · exact absurd (rewrite_eq_literal.mpr rfl) (columnFirst _ _ (rewrite_eq_column.mpr rfl))
    · exact absurd (rewrite_eq_column.mpr rfl) (literalFirst _ _ (rewrite_eq_literal.mpr rfl))
    · rfl

theorem evalEntry_is_other (t : IsTest) (other : ∀ c, e ≠ .column c) :
    evalEntry chrono entry types (rewriteDefaultPartitionNode cols (.is t e)) = none := by
  cases e with
  | column c => exact absurd rfl (other c)
  | _ => cases t <;> rfl

end Rewrite

theorem evalEntry_comparison (conj : op ≠ .and) (disj : op ≠ .or) :
    evalEntry chrono entry types (.binaryExpr l op r) =
      if op.test.isSome then cmpEntry chrono entry l r op types else none := by
  cases op <;> simp_all [evalEntry]

theorem evalEntry_tested (tested : op.test.isSome) :
    evalEntry chrono entry types (.binaryExpr l op r) = cmpEntry chrono entry l r op types := by
  rw [evalEntry_comparison, if_pos tested]
  all_goals
    rintro rfl
    cases tested

theorem cmpColLit_sentinel (tested : op.test = some test)
    (known : cmpColLit chrono entry name (.utf8 (some hiveDefaultPartition)) op types = some b) :
    ∃ raw, entry.values name = some raw ∧
      ((raw = hiveDefaultPartition ∧ b = (op == .eq)) ∨ (raw ≠ hiveDefaultPartition ∧ ∃ o,
          compareRaw chrono raw (.utf8 (some hiveDefaultPartition)) (typeOf name types) = some o ∧
            b = test o)) := by
  simp only [cmpColLit, bind_eq_bind, bind_eq_some_iff] at known
  obtain ⟨raw, value, known⟩ := known
  refine ⟨raw, value, ?_⟩
  by_cases sentinel : raw = hiveDefaultPartition
  · simp only [if_pos sentinel, if_true, some.injEq] at known
    exact Or.inl ⟨sentinel, known.symm⟩
  · rw [if_neg sentinel, tested] at known
    simp only [bind_eq_some_iff, pure_def, some.injEq, exists_eq_left'] at known
    obtain ⟨o, compared, rfl⟩ := known
    exact Or.inr ⟨sentinel, o, compared, rfl⟩

/-- What the entry says about a pushed filter, once its NULL tests of partition columns are
rewritten. -/
def verdict (chrono : Chrono) (keys : List PartitionKey) (entry : PartitionIndexEntry)
    (f : Expr) : Option Bool :=
  evalEntry chrono entry (partitionTypes keys)
    (f.transform (rewriteDefaultPartitionNode (partitionColumns keys)))

/-- The entry rejects the filter on an `IS NULL` of a data column, of which it knows nothing. -/
def misled (chrono : Chrono) (keys : List PartitionKey) (entry : PartitionIndexEntry) :
    Expr → Bool
  | .binaryExpr l .and r => misled chrono keys entry l || misled chrono keys entry r
  | .binaryExpr l .or r =>
    verdict chrono keys entry (.binaryExpr l .or r) == some false &&
      (misled chrono keys entry l || misled chrono keys entry r)
  | .isNull (.column c) => (keyOf keys c.name).isNone
  | _ => false

theorem verdict_and : verdict chrono keys entry (.binaryExpr l .and r) =
    and3 (verdict chrono keys entry l) (verdict chrono keys entry r) := by
  simp [verdict, Expr.transform, rewriteDefaultPartitionNode, evalEntry]

theorem verdict_or : verdict chrono keys entry (.binaryExpr l .or r) =
    or3 (verdict chrono keys entry l) (verdict chrono keys entry r) := by
  simp [verdict, Expr.transform, rewriteDefaultPartitionNode, evalEntry]

section Rows

variable (parsers : ParsersAgree chrono tryFromString) {k : Kernels} {dataType : Column → DataType}
  (analysed : Analysed k (columnType keys dataType)) {probe : PartitionIndexEntry}
  (probes : Probes keys probe entry) {data : RowEnv}

theorem rowEnv_column
    (found : keyOf keys c.name = some key) (value : entry.values c.name = some raw) :
    (rowEnv keys tryFromString entry data).column c =
      partitionValue tryFromString raw key.dataType := by
  simp [rowEnv, found, value]

theorem columnType_key (found : keyOf keys c.name = some key) :
    columnType keys dataType c = key.dataType := by
  simp [columnType, found]

theorem cmpColLit_verdict (parsers : ParsersAgree chrono tryFromString)
    (probes : Probes keys probe entry) (dataType : Column → DataType) (data : RowEnv)
    {verdict : Bool} (tested : op.test = some test)
    (known : cmpColLit chrono probe c.name lit op (partitionTypes keys) = some verdict) :
    ((rowEnv keys tryFromString entry data).column c).isNull = true ∨
      (lit.dataType.isOrdered = true ∧ (lit.dataType = columnType keys dataType c →
          ((rowEnv keys tryFromString entry data).column c).dataType = lit.dataType →
            ∃ o, ((rowEnv keys tryFromString entry data).column c).order lit = some o ∧
              test o = verdict)) := by
  simp only [cmpColLit, bind_eq_bind, bind_eq_some_iff] at known
  obtain ⟨raw, value, known⟩ := known
  obtain ⟨value, key, found⟩ := probes _ _ value
  rw [rowEnv_column found value]
  by_cases sentinel : raw = hiveDefaultPartition
  · exact Or.inl (by simp [partitionValue, sentinel])
  · rw [if_neg sentinel, tested, typeOf_partitionTypes found] at known
    simp only [bind_eq_some_iff, pure_def, some.injEq, exists_eq_left'] at known
    obtain ⟨o, compared, rfl⟩ := known
    refine Or.inr ⟨compareRaw_ordered compared, fun same typed => ⟨o, ?_, rfl⟩⟩
    rw [columnType_key found] at same
    exact compareRaw_order parsers sentinel same (typed.trans same) compared

include parsers analysed probes

theorem cmpEntry_false (tested : op.test = some test)
    (rejected : cmpEntry chrono probe l r op (partitionTypes keys) = some false) :
    ¬ Holds k (rowEnv keys tryFromString entry data) (.binaryExpr l op r) := by
  unfold cmpEntry at rejected
  split at rejected
  next c lit =>
    rcases cmpColLit_verdict parsers probes dataType data tested rejected
      with null | ⟨ordered, compares⟩
    · exact not_holds_null analysed tested rfl rfl (Or.inl null)
    · rw [holds_comparison analysed tested rfl rfl (Or.inr ordered)]
      rintro ⟨same, typed, o, order, passes⟩
      have declared := sameType_iff.mp same (.column c) (by simp) _ rfl (.literal lit)
        (by simp) _ rfl
      obtain ⟨o', order', fails⟩ := compares declared.symm typed
      simp_all
  next lit c =>
    rcases cmpColLit_verdict parsers probes dataType data
      (flipped_test tested) rejected with null | ⟨ordered, compares⟩
    · exact not_holds_null analysed tested rfl rfl (Or.inr null)
    · rw [holds_comparison analysed tested rfl rfl (Or.inl ordered)]
      rintro ⟨same, typed, o, order, passes⟩
      have declared := sameType_iff.mp same (.literal lit) (by simp) _ rfl (.column c) (by simp)
        _ rfl
      obtain ⟨o', order', fails⟩ := compares declared typed.symm
      rw [ScalarValue.order_swap, order'] at order
      simp_all
  · cases rejected

theorem binary_eq_verdict (value : probe.values c.name = some raw)
    (same : columnType keys dataType c = lit.dataType)
    (compared : compareRaw chrono raw lit (typeOf c.name (partitionTypes keys)) = some o)
    (truth : (k.binary .eq ((rowEnv keys tryFromString entry data).column c) lit).bind
      ScalarValue.truth = some b) :
    (o == .eq) = b := by
  obtain ⟨value, key, found⟩ := probes _ _ value
  rw [rowEnv_column found value] at truth
  by_cases sentinel : raw = hiveDefaultPartition
  · rw [analysed.compare_null .eq _ rfl _ _ (Or.inl (by simp [partitionValue, sentinel]))] at truth
    cases truth
  · rw [columnType_key found] at same
    rw [typeOf_partitionTypes found] at compared
    rw [analysed.compare .eq _ rfl _ _ (Or.inr (compareRaw_ordered compared))] at truth
    obtain ⟨typed, o', order', decides⟩ := compareWith_truth.mp truth
    have order := compareRaw_order parsers sentinel same.symm (typed.trans same.symm) compared
    cases order.symm.trans order'
    exact decides

theorem inList_false {negated : Bool}
    (rejected : evalEntry chrono probe (partitionTypes keys) (.inList (.column c) items negated) =
      some false) :
    ¬ Holds k (rowEnv keys tryFromString entry data) (.inList (.column c) items negated) := by
  intro holds
  obtain ⟨same, ws, evaluated, member⟩ := holds_inList analysed rfl holds
  rw [evalList_eq_mapM, mapM_eq_some_iff] at evaluated
  have declared {lit : ScalarValue} (item : Expr.literal lit ∈ items) :
      columnType keys dataType c = lit.dataType :=
    sameType_iff.mp same (.column c) (by simp) _ rfl (.literal lit) (by simp [item]) _ rfl
  simp only [evalEntry, bind_eq_bind, bind_eq_some_iff] at rejected
  obtain ⟨raw, value, rejected⟩ := rejected
  cases negated with
  | true =>
    -- `NOT IN` is rejected on a literal that equals the raw value.
    have any : (scanItems chrono raw (typeOf c.name (partitionTypes keys)) items).1 = true := by
      by_contra none
      simp only [none] at rejected
      split at rejected <;> simp_all
    obtain ⟨lit, item, compared⟩ := scanItems_any any
    obtain ⟨w, inside, evaluatesTo⟩ := forall₂_exists_right evaluated item
    cases some.inj evaluatesTo
    have := binary_eq_verdict parsers analysed probes value (declared item) compared
      (memberOf_false member inside)
    simp at this
  | false =>
    -- `IN` is rejected when every item is a literal other than the raw value.
    have known : (scanItems chrono raw (typeOf c.name (partitionTypes keys)) items).1 = false ∧
        (scanItems chrono raw (typeOf c.name (partitionTypes keys)) items).2 = true := by
      simp only [Bool.false_eq_true, if_false] at rejected
      split at rejected
      · cases rejected
      · split at rejected <;> simp_all
    obtain ⟨w, inside, hit⟩ := memberOf_true member
    obtain ⟨item, itemIn, evaluatesTo⟩ := forall₂_exists_left evaluated inside
    obtain ⟨lit, o, rfl, compared, different⟩ := scanItems_known known.1 known.2 itemIn
    cases some.inj evaluatesTo
    have := binary_eq_verdict parsers analysed probes value (declared itemIn) compared hit
    exact different (by simpa using this)

omit analysed in
private theorem nullTest_false (data : RowEnv)
    (found : keyOf keys c.name = some key) (either : op = .eq ∨ op = .notEq)
    (rejected : cmpColLit chrono probe c.name (.utf8 (some hiveDefaultPartition)) op
      (partitionTypes keys) = some false) :
    ((rowEnv keys tryFromString entry data).column c).isNull = (op == .notEq) := by
  have tested : op.test = some fun o => (o == .eq) == (op == .eq) := by
    rcases either with rfl | rfl
    all_goals
      simp only [Operator.test, some.injEq]
      funext o
      cases o <;> rfl
  obtain ⟨raw, value, ⟨rfl, differs⟩ | ⟨present, o, compared, differs⟩⟩ :=
    cmpColLit_sentinel tested rejected
  · rw [rowEnv_column found (probes _ _ value).1, (partitionValue_isNull parsers _ key).mpr rfl]
    rcases either with rfl | rfl <;> simp_all
  · have other : o ≠ .eq := by
      rintro rfl
      exact present (compareRaw_sentinel parsers compared)
    have isNull := (partitionValue_isNull parsers raw key).not.mpr present
    rw [rowEnv_column found (probes _ _ value).1]
    rcases either with rfl | rfl <;> simp_all

omit parsers analysed in
private theorem no_data_value (data : keyOf keys c.name = none) : probe.values c.name = none := by
  cases value : probe.values c.name with
  | none => rfl
  | some raw =>
    obtain ⟨_, key, found⟩ := probes _ _ value
    simp [data] at found

omit parsers analysed in
private theorem cmpColLit_extends
    (rejected : cmpColLit chrono probe name lit op types = some false) :
    cmpColLit chrono entry name lit op types = some false := by
  simp only [cmpColLit, bind_eq_bind, bind_eq_some_iff] at rejected ⊢
  obtain ⟨raw, value, rest⟩ := rejected
  exact ⟨raw, (probes _ _ value).1, rest⟩

omit parsers analysed in
/-- What a probe of the row's entry rejects, the entry rejects. -/
theorem verdict_extends (row : Probes keys entry entry) (f : Expr)
    (rejected : verdict chrono keys probe f = some false) :
    verdict chrono keys entry f = some false := by
  cases f with
  | binaryExpr l op r =>
    by_cases conj : op = .and
    · subst conj
      rw [verdict_and, and3_eq_false] at rejected ⊢
      exact rejected.imp (verdict_extends row l) (verdict_extends row r)
    by_cases disj : op = .or
    · subst disj
      rw [verdict_or, or3_eq_false] at rejected ⊢
      exact ⟨verdict_extends row l rejected.1, verdict_extends row r rejected.2⟩
    simp only [verdict, Expr.transform, rewriteDefaultPartitionNode,
      evalEntry_comparison conj disj, cmpEntry_rewrite] at rejected ⊢
    split at rejected
    next tested =>
      rw [if_pos tested]
      unfold cmpEntry at rejected ⊢
      split at rejected
      · exact cmpColLit_extends probes rejected
      · exact cmpColLit_extends probes rejected
      · cases rejected
    · cases rejected
  | inList e items n =>
    simp only [verdict, Expr.transform, rewriteDefaultPartitionNode] at rejected ⊢
    by_cases column : ∃ c, e = .column c
    · obtain ⟨c, rfl⟩ := column
      simp only [rewrite_eq_column.mpr rfl, evalEntry, bind_eq_bind, bind_eq_some_iff]
        at rejected ⊢
      obtain ⟨raw, value, rest⟩ := rejected
      exact ⟨raw, (probes _ _ value).1, rest⟩
    · unfold evalEntry at rejected
      split at rejected <;> simp_all [rewrite_eq_column]
  | is t e =>
    by_cases column : ∃ c, e = .column c
    · obtain ⟨c, rfl⟩ := column
      cases partition : keyOf keys c.name with
      | some key =>
        have listed := mem_partitionColumns.mpr ⟨key, partition⟩
        cases t with
        | null | notNull =>
          simp only [verdict, Expr.transform, rewriteDefaultPartitionNode, if_pos listed]
            at rejected ⊢
          exact cmpColLit_extends probes rejected
        | _ => simp [verdict, Expr.transform, rewriteDefaultPartitionNode, evalEntry] at rejected
      | none =>
        have unlisted : c.name ∉ partitionColumns keys := by simp [mem_partitionColumns, partition]
        cases t with
        | null | notNull =>
          simp only [verdict, Expr.transform, rewriteDefaultPartitionNode, if_neg unlisted,
            evalEntry, no_data_value probes partition] at rejected
          simpa only [verdict, Expr.transform, rewriteDefaultPartitionNode, if_neg unlisted,
            evalEntry, no_data_value row partition] using rejected
        | _ => simp [verdict, Expr.transform, rewriteDefaultPartitionNode, evalEntry] at rejected
    · rw [verdict, Expr.transform, evalEntry_is_other t
        (by simpa [rewrite_eq_column] using column)] at rejected
      cases rejected
  | _ => simp [verdict, Expr.transform, rewriteDefaultPartitionNode, evalEntry] at rejected

omit parsers analysed probes in
theorem rejected_of_misled (row : Probes keys entry entry) (f : Expr)
    (wrong : misled chrono keys entry f = true) : verdict chrono keys entry f = some false := by
  fun_induction misled chrono keys entry f with
  | case1 l r left right =>
    rw [verdict_and, and3_eq_false]
    exact (Bool.or_eq_true_iff.mp wrong).imp left right
  | case2 l r left right =>
    rw [Bool.and_eq_true, beq_iff_eq] at wrong
    exact wrong.1
  | case3 c =>
    have data := Option.isNone_iff_eq_none.mp wrong
    have unlisted : c.name ∉ partitionColumns keys := by simp [mem_partitionColumns, data]
    simp [verdict, Expr.transform, rewriteDefaultPartitionNode, unlisted, evalEntry,
      no_data_value row data]
  | case4 => cases wrong

omit analysed in
private theorem is_false {t : IsTest} (right : misled chrono keys entry (.is t e) = false)
    (rejected : verdict chrono keys probe (.is t e) = some false) :
    ¬ Holds k (rowEnv keys tryFromString entry data) (.is t e) := by
  unfold verdict at rejected
  by_cases column : ∃ c, e = .column c
  · obtain ⟨c, rfl⟩ := column
    cases t with
    | null =>
      obtain ⟨key, found⟩ := isSome_iff_exists.mp (isNone_eq_false_iff.mp right)
      simp only [Expr.transform, rewriteDefaultPartitionNode,
        if_pos (mem_partitionColumns.mpr ⟨key, found⟩)] at rejected
      have isNull := nullTest_false parsers probes data found (Or.inl rfl) rejected
      simp [Holds, eval, IsTest.holds, isNull]
    | notNull =>
      simp only [Expr.transform, rewriteDefaultPartitionNode] at rejected
      cases partition : keyOf keys c.name with
      | some key =>
        rw [if_pos (mem_partitionColumns.mpr ⟨key, partition⟩)] at rejected
        have isNull := nullTest_false parsers probes data partition (Or.inr rfl) rejected
        simp [Holds, eval, IsTest.holds, isNull]
      | none =>
        rw [if_neg (by simp [mem_partitionColumns, partition])] at rejected
        simp [evalEntry, no_data_value probes partition] at rejected
    | _ => simp [Expr.transform, rewriteDefaultPartitionNode, evalEntry] at rejected
  · rw [Expr.transform, evalEntry_is_other t
      (by simpa [rewrite_eq_column] using column)] at rejected
    cases rejected

/-- **Pruner soundness.** A filter that a probe of the row rejects is not TRUE on the row, unless
the row's entry is misled about it. -/
theorem verdict_false (row : Probes keys entry entry) (f : Expr)
    (right : misled chrono keys entry f = false)
    (rejected : verdict chrono keys probe f = some false) :
    ¬ Holds k (rowEnv keys tryFromString entry data) f := by
  cases f with
  | binaryExpr l op r =>
    by_cases conj : op = .and
    · subst conj
      simp only [misled, Bool.or_eq_false_iff] at right
      rw [verdict_and, and3_eq_false] at rejected
      intro holds
      rcases rejected with first | second
      · exact verdict_false row l right.1 first (holds_and holds).1
      · exact verdict_false row r right.2 second (holds_and holds).2
    by_cases disj : op = .or
    · subst disj
      have entryRejects := verdict_extends probes row _ rejected
      simp only [misled, entryRejects, beq_self_eq_true, Bool.true_and,
        Bool.or_eq_false_iff] at right
      rw [verdict_or, or3_eq_false] at rejected
      intro holds
      rcases holds_or holds with first | second
      · exact verdict_false row l right.1 rejected.1 first
      · exact verdict_false row r right.2 rejected.2 second
    simp only [verdict, Expr.transform, rewriteDefaultPartitionNode] at rejected
    rw [evalEntry_comparison conj disj, cmpEntry_rewrite] at rejected
    cases tested : op.test with
    | none => simp [tested] at rejected
    | some test =>
      rw [tested, if_pos isSome_some] at rejected
      exact cmpEntry_false parsers analysed probes tested rejected
  | inList e l n =>
    simp only [verdict, Expr.transform, rewriteDefaultPartitionNode] at rejected
    by_cases column : ∃ c, e = .column c
    · obtain ⟨c, rfl⟩ := column
      refine inList_false parsers analysed probes ?_
      simpa only [rewrite_eq_column.mpr rfl, evalEntry, scanItems_rewrite] using rejected
    · unfold evalEntry at rejected
      split at rejected <;> simp_all [rewrite_eq_column]
  | is t e => exact is_false parsers probes right rejected
  | _ => simp [verdict, Expr.transform, rewriteDefaultPartitionNode, evalEntry] at rejected

end Rows

end Sqe.Catalog.Hive
