/- GID: Sqe/Catalog/ExprToPredicateSound
   generality: G
   digest: A row that satisfies every filter is kept by the converted predicate. -/

import Sqe.Catalog.ExactCast

/-!
The converted predicate over-approximates the filter at positive polarity and its negation
at negative polarity. Both directions are carried through the conversion together; only an
`AND` that drops a side is sound at positive polarity alone.
-/

set_option autoImplicit false

namespace Sqe.Catalog.ExprToPredicate

open Sqe.DataFusion Sqe.Iceberg Sqe.Library.Kleene Sqe.Library.Traverse List Option

variable {schema : Option Schema} {e : Expr} {p : Predicate} {r : String} {type : Option DataType}
  {negated b : Bool} {d : Datum} {ds : List Datum} {items : List Expr}

/-- A row of the table: values of the types the schema declares, dates of whole days. -/
structure StoredRow (schema : Option Schema) where
  value : String → ScalarValue
  typed : ∀ name field, fieldWithName schema name = some field →
    (value name).dataType = field.dataType
  wholeDays : ∀ name ms, value name = .date64 (some ms) → ms % 86400000 = 0

variable {row : StoredRow schema}

def NoFloats (row : StoredRow schema) (e : Expr) : Prop :=
  ∀ c ∈ e.columnRefs, (row.value c.name).dataType.isFloat = false

@[simp] theorem noFloats_binaryExpr {l r : Expr} {op : Operator} :
    NoFloats row (.binaryExpr l op r) ↔ NoFloats row l ∧ NoFloats row r := by
  simp [NoFloats, Expr.columnRefs, Expr.subexprs, or_imp, forall_and]

@[simp] theorem noFloats_not : NoFloats row (.not e) ↔ NoFloats row e := by
  simp [NoFloats, Expr.columnRefs, Expr.subexprs]

theorem noFloats_of_inList (noFloats : NoFloats row (.inList e items negated)) :
    NoFloats row e := by
  intro c member
  refine noFloats c ?_
  simp only [Expr.columnRefs, Expr.subexprs, mem_filterMap, mem_cons, mem_append] at member ⊢
  obtain ⟨x, inside, is⟩ := member
  exact ⟨x, Or.inr (Or.inl inside), is⟩

/-- The expression becomes a predicate on its own. -/
def pushes (schema : Option Schema) (e : Expr) : Bool :=
  match toIcebergPredicate schema e with
  | .predicate _ => true
  | _ => false

theorem pushes_of_predicate
    (result : toIcebergPredicate schema e = .predicate p) : pushes schema e = true := by
  simp [pushes, result]

theorem not_pushes
    (result : ∀ p, toIcebergPredicate schema e ≠ .predicate p) : pushes schema e = false := by
  unfold pushes
  split
  next p is => exact absurd is (result p)
  · rfl

def wholeDayOperand : Expr → Bool
  | .literal v => wholeDayLiteral v
  | _ => true

def unescapedPattern : Expr → Bool
  | .literal v => v.text.all fun pattern => !pattern.toList.contains likeEscape
  | _ => true

/-- The conversion keeps the direction of the approximation: an `AND` under an odd number of
`NOT`s converts on both sides or on neither, no `LIKE` pattern has a backslash, and `Date64`
literals are whole days. Nothing is asked of a conjunct that does not convert. -/
def safeAt (schema : Option Schema) : Bool → Expr → Bool
  | positive, .binaryExpr l .and r =>
    (!pushes schema l || safeAt schema positive l) &&
      (!pushes schema r || safeAt schema positive r) &&
      (positive || pushes schema l == pushes schema r)
  | positive, .binaryExpr l .or r => safeAt schema positive l && safeAt schema positive r
  | _, .binaryExpr l _ r => wholeDayOperand l && wholeDayOperand r
  | positive, .not e => safeAt schema (!positive) e
  | _, .inList _ items _ => items.all wholeDayOperand
  | _, .like _ _ pattern _ _ => unescapedPattern pattern
  | _, _ => true

def TransformedResult.isOperand : TransformedResult → Bool
  | .column .. | .literal _ => true
  | _ => false

theorem combined_isOperand (x y : TransformedResult) :
    (toIcebergAndPredicate x y).isOperand = false ∧ (toIcebergOrPredicate x y).isOperand = false ∧
      ∀ op, (toIcebergBinaryPredicate x y op).isOperand = false := by
  refine ⟨?_, ?_, fun op => ?_⟩
  · fun_cases toIcebergAndPredicate x y <;> rfl
  · fun_cases toIcebergOrPredicate x y <;> rfl
  · fun_cases toIcebergBinaryPredicate x y op <;> rfl

theorem isOperand_cases (schema : Option Schema) (e : Expr)
    (operand : (toIcebergPredicate schema e).isOperand = true) :
    (∃ c, e = .column c) ∨ (∃ v, e = .literal v) ∨ ∃ e' t, e = .cast e' t := by
  revert operand
  fun_cases toIcebergPredicate schema e
  case case1 | case2 | case3 => simp [combined_isOperand]
  all_goals simp [TransformedResult.isOperand]

theorem literal_inv (literal : toIcebergPredicate schema e = .literal d) :
    ∃ v, e = .literal v ∧ scalarValueToDatum v = some d := by
  rcases isOperand_cases schema e (by rw [literal]; rfl) with ⟨c, rfl⟩ | ⟨v, rfl⟩ | ⟨e', t, rfl⟩ <;>
    simp only [toIcebergPredicate] at literal <;> (repeat' split at literal) <;> cases literal
  exact ⟨v, rfl, ‹_›⟩

/-- The expression is the column `r` under a chain of exact casts. -/
inductive ColumnUnder (schema : Option Schema) : String → Option DataType → Expr → Prop
  | column (c : Column) :
      ColumnUnder schema c.name ((fieldWithName schema c.name).map Field.dataType) (.column c)
  | cast {r : String} {source target : DataType} {e : Expr} :
      ColumnUnder schema r (some source) e → castIsExact source target = true →
        ColumnUnder schema r (some source) (.cast e target)

theorem columnUnder (e : Expr) {r : String} {type : Option DataType}
    (column : toIcebergPredicate schema e = .column r type) : ColumnUnder schema r type e := by
  match e with
  | .column c =>
    simp only [toIcebergPredicate] at column
    (repeat' split at column) <;> cases column
    exact .column c
  | .cast e target =>
    simp only [toIcebergPredicate] at column
    (repeat' split at column) <;> cases column
    exact .cast (columnUnder e ‹_›) ‹_›
  | .literal v =>
    simp only [toIcebergPredicate] at column
    split at column <;> cases column
  | .alias .. | .outerReferenceColumn .. | .binaryExpr .. | .not .. | .is .. | .like ..
  | .between .. | .inList .. | .case .. | .tryCast .. | .scalarFunction .. | .windowFunction ..
  | .groupingSet .. | .exists .. | .inSubquery .. | .scalarSubquery .. | .setComparison ..
  | .other .. =>
    rcases isOperand_cases schema _ (by rw [column]; rfl) with ⟨_, is⟩ | ⟨_, is⟩ | ⟨_, _, is⟩ <;>
      cases is

theorem ColumnUnder.mem
    (column : ColumnUnder schema r type e) : ∃ c ∈ e.columnRefs, c.name = r := by
  induction column with
  | column c => exact ⟨c, by simp [Expr.columnRefs, Expr.subexprs], rfl⟩
  | cast _ _ ih => simpa [Expr.columnRefs, Expr.subexprs] using ih

theorem ColumnUnder.notFloat (column : ColumnUnder schema r type e)
    (noFloats : NoFloats row e) : (row.value r).dataType.isFloat = false := by
  obtain ⟨c, member, rfl⟩ := column.mem
  exact noFloats c member

section Row

variable {schema : Option Schema} (row : StoredRow schema) {k : Kernels} {env : RowEnv}
  (reads : ∀ c, env.column c = row.value c.name)
include reads

theorem ColumnUnder.carries (casts : CastsExactly k)
    (column : ColumnUnder schema r type e) {w : ScalarValue}
    (value : eval k env e = some w) : Carries (row.value r) type w := by
  induction column generalizing w with
  | column c =>
    obtain rfl : row.value c.name = w := by simpa [eval, reads] using value
    cases field : fieldWithName schema c.name with
    | none => exact .unknown
    | some f =>
      rw [map_some, ← row.typed c.name f field]
      exact .typed .same (by simp [castIsExact])
  | cast _ exact_ ih =>
    simp only [eval, bind_eq_bind, bind_eq_some_iff] at value
    obtain ⟨w', value, cast⟩ := value
    exact (ih value).cast casts exact_ cast

end Row

section Comparison

variable {k : Kernels} {typeOf : Column → DataType} (analysed : Analysed k typeOf)
  {op : Operator} {test : Ordering → Bool} (tested : op.test = some test)
  {v w literal : ScalarValue} {type : Option DataType} {d d' : Datum} (carries : Carries v type w)
  (notFloat : v.dataType.isFloat = false) (datum : scalarValueToDatum literal = some d)
  (bound : datumForColumn d type = some d')
  (wholeV : ∀ ms, v = .date64 (some ms) → ms % 86400000 = 0)
  (wholeL : wholeDayLiteral literal = true)
include analysed tested carries notFloat datum bound wholeV wholeL

theorem compare_bound {t : Bool} (truth : (k.binary op w literal).bind ScalarValue.truth = some t) :
    v.isNull = false ∧ ∃ o, datumOrder v d' = some o ∧ test o = t := by
  have types : w.dataType = literal.dataType := by
    by_contra mismatch
    simp [analysed.compare_mismatch op test tested w literal mismatch] at truth
  have ordered := isOrdered_of_datum datum (types ▸ carries.notFloat notFloat)
  obtain ⟨-, o, order, passes⟩ := binary_truth analysed tested ordered truth
  refine ⟨?_, o, compare_datum carries types order datum bound wholeV wholeL, passes⟩
  rw [← carries.represents.isNull]
  exact ScalarValue.not_isNull_of_order order

theorem compare_bound_swap {t : Bool}
    (truth : (k.binary op literal w).bind ScalarValue.truth = some t) :
    v.isNull = false ∧ ∃ o, datumOrder v d' = some o ∧ test o.swap = t := by
  have types : literal.dataType = w.dataType := by
    by_contra mismatch
    simp [analysed.compare_mismatch op test tested literal w mismatch] at truth
  have ordered := isOrdered_of_datum datum (types ▸ carries.notFloat notFloat)
  obtain ⟨-, o, order, passes⟩ := binary_truth analysed tested (types ▸ ordered) truth
  have swapped : w.order literal = some o.swap := by rw [ScalarValue.order_swap, order]; rfl
  refine ⟨?_, o.swap, compare_datum carries types.symm swapped datum bound wholeV wholeL, ?_⟩
  · rw [← carries.represents.isNull]
    exact ScalarValue.not_isNull_of_order swapped
  · rwa [Ordering.swap_swap]

end Comparison

section Keeps

attribute [local simp] Predicate.polar Predicate.rewriteNot Predicate.negate Predicate.eval

variable {row : String → ScalarValue} {r : String} {d : Datum}

variable {op : Operator} {bop : BinaryOperator} {test : Ordering → Bool}
  (converted : toIcebergOperation op = some bop) (tested : op.test = some test)
  (present : (row r).isNull = false) {o : Ordering} (order : datumOrder (row r) d = some o)

include converted tested present order

theorem binary_keeps : (Predicate.polar (test o) (.binary bop r d)).eval row = some true := by
  cases op <;> cases converted <;> cases tested <;> cases o <;>
    simp [present, BinaryOperator.holds, BinaryOperator.negate, order]

theorem reversed_keeps :
    (Predicate.polar (test o.swap) (.binary (reversePredicateOperator bop) r d)).eval row =
      some true := by
  cases op <;> cases converted <;> cases tested <;> cases o <;>
    simp [present, BinaryOperator.holds, BinaryOperator.negate, reversePredicateOperator, order]

omit converted tested present order

theorem boolean_keeps {t : Bool} (value : (row r).truth = some b) :
    (Predicate.polar (b == t) (.binary .eq r (.bool t))).eval row = some true := by
  obtain value : row r = .boolean (some b) := by
    revert value
    cases row r <;> simp [ScalarValue.truth]
  cases b <;> cases t <;>
    simp [value, ScalarValue.isNull, BinaryOperator.holds, BinaryOperator.negate, datumOrder,
      compareKeys, storedNumber, ScalarValue.number, Datum.number]

theorem set_keeps {hit : Bool}
    (found : hit = true → (row r).isNull = false ∧ ∃ d ∈ ds, datumOrder (row r) d = some .eq)
    (missed : hit = false → (row r).isNull = false → ∀ d ∈ ds, datumOrder (row r) d ≠ some .eq) :
    (Predicate.polar (hit != negated) (.set (if negated then .notIn else .isIn) r ds)).eval row =
      some true := by
  cases hit with
  | true =>
    obtain ⟨present, d, member, equal⟩ := found rfl
    have any : (ds.any fun d => datumOrder (row r) d == some .eq) = true :=
      any_eq_true.mpr ⟨d, member, by simp [equal]⟩
    cases negated <;> simp [present, SetOperator.negate, any]
  | false =>
    cases null : (row r).isNull with
    | true => cases negated <;> simp [null, SetOperator.negate]
    | false =>
      have none : (ds.any fun d => datumOrder (row r) d == some .eq) = false :=
        any_eq_false.mpr fun d member => by simp [missed rfl null d member]
      cases negated <;> simp [null, SetOperator.negate, none]

theorem startsWith_keeps {s start : String} (text : (row r).text = some s) :
    (Predicate.polar (start.toList.isPrefixOf s.toList != negated)
      (.binary (if negated then .notStartsWith else .startsWith) r (.string start))).eval row =
      some true := by
  have present := isNull_of_text text
  cases hit : start.toList.isPrefixOf s.toList <;> cases negated <;>
    simp [present, BinaryOperator.holds, BinaryOperator.negate, text, Datum.text, hit]

theorem isNull_keeps :
    (Predicate.polar (row r).isNull (.unary .isNull r)).eval row = some true := by
  cases null : (row r).isNull <;> simp [UnaryOperator.negate, null]

theorem notNull_keeps :
    (Predicate.polar (!(row r).isNull) (.unary .notNull r)).eval row = some true := by
  cases null : (row r).isNull <;> simp [UnaryOperator.negate, null]

end Keeps

theorem literalDatums_inv (literals : literalDatums schema items = some ds) :
    ∃ vs, items = vs.map Expr.literal ∧
      List.Forall₂ (fun v d => scalarValueToDatum v = some d) vs ds := by
  induction items generalizing ds with
  | nil =>
    cases literals
    exact ⟨[], rfl, .nil⟩
  | cons item items ih =>
    simp only [literalDatums] at literals
    split at literals
    next d literal =>
      obtain ⟨ds', rest, rfl⟩ := map_eq_some_iff.mp literals
      obtain ⟨v, rfl, datum⟩ := literal_inv literal
      obtain ⟨vs, rfl, datums⟩ := ih rest
      exact ⟨v :: vs, rfl, .cons datum datums⟩
    · cases literals

theorem string_datum {v : ScalarValue} {s : String}
    (datum : scalarValueToDatum v = some (.string s)) : v.text = some s := by
  revert datum
  fun_cases scalarValueToDatum v <;> rintro ⟨⟩ <;> rfl

theorem likePrefix_matches {v : ScalarValue} {pattern start s : String}
    (shape : likePrefix pattern = some start) (unescaped : unescapedPattern (.literal v) = true)
    (text : v.text = some pattern) :
    likeMatches likeEscape s pattern = start.toList.isPrefixOf s.toList := by
  revert shape
  fun_cases likePrefix pattern <;> rintro ⟨⟩
  next last front plain =>
    have whole : pattern.toList = front ++ ['%'] := (dropLast_append_getLast? '%' last).symm
    simp only [Bool.or_eq_true, contains_iff_mem, not_or] at plain
    rw [String.toList_ofList]
    have plainEscape : likeEscape ∉ front := fun escaped => by
      simp [unescapedPattern, text, dropLast_subset _ escaped] at unescaped
    rw [likeMatches, whole, likeTokens_plain plain.1 plain.2 plainEscape (by decide),
      tokensMatch_prefix]

theorem like_truth {k : Kernels} {env : RowEnv} (likes : LikesTexts k) {v : ScalarValue}
    {pattern : String} (text : v.text = some pattern)
    (truth : (eval k env (.like negated e (.literal v) none false)).bind ScalarValue.truth =
      some b) :
    ∃ w s, eval k env e = some w ∧ w.text = some s ∧
      likeMatches likeEscape s pattern = (b != negated) := by
  simp only [eval, bind_eq_bind, bind_eq_some_iff, bind_some] at truth
  obtain ⟨_, ⟨w, value, hit, like, is⟩, truth⟩ := truth
  cases is
  have decided : hit.truth = some (b != negated) := by
    cases negated <;> cases b <;> cases hit : hit.truth <;> simp_all [negateIf, not3]
  obtain ⟨s, t, text', is, matched⟩ := likes w v (b != negated) (by rw [like]; exact decided)
  rw [text] at is
  cases is
  exact ⟨w, s, value, text', matched⟩

theorem polarity (b negated : Bool) : ((b != negated) != negated) = b := by
  cases b <;> cases negated <;> rfl

theorem foldl_and_keeps {row : String → ScalarValue} {ps : List Predicate}
    (first : p.rewriteNot.eval row = some true)
    (rest : ∀ q ∈ ps, q.rewriteNot.eval row = some true) :
    (ps.foldl Predicate.and p).rewriteNot.eval row = some true := by
  induction ps generalizing p with
  | nil => exact first
  | cons q ps ih =>
    refine ih ?_ fun q' member => rest q' (mem_cons_of_mem _ member)
    simp [Predicate.rewriteNot, Predicate.eval, first, rest q mem_cons_self]

section Sound

variable {k : Kernels} {typeOf : Column → DataType} (analysed : Analysed k typeOf)
  (casts : CastsExactly k) (likes : LikesTexts k) {schema : Option Schema}
  (row : StoredRow schema) {env : RowEnv} (reads : ∀ c, env.column c = row.value c.name)
include analysed casts reads

theorem comparison_sound {l r : Expr} {op : Operator} {bop : BinaryOperator}
    {test : Ordering → Bool} (converted : toIcebergOperation op = some bop)
    (tested : op.test = some test) (result : toIcebergBinaryPredicate (toIcebergPredicate schema l)
      (toIcebergPredicate schema r) bop = .predicate p)
    (wholeL : wholeDayOperand l = true) (wholeR : wholeDayOperand r = true)
    (noFloatsL : NoFloats row l) (noFloatsR : NoFloats row r)
    (truth : (eval k env (.binaryExpr l op r)).bind ScalarValue.truth = some b) :
    (Predicate.polar b p).eval row.value = some true := by
  obtain ⟨x, y, left, right, decided⟩ := comparison_truth analysed tested truth
  unfold toIcebergBinaryPredicate at result
  (repeat' split at result) <;> cases result
  next name type d columnL literalR _ d' bound =>
    obtain ⟨v, rfl, datum⟩ := literal_inv literalR
    cases right
    have column := columnUnder l columnL
    obtain ⟨present, o, order, rfl⟩ := compare_bound analysed tested
      (column.carries row reads casts left) (column.notFloat noFloatsL)
      datum bound (row.wholeDays name) wholeR decided
    exact binary_keeps converted tested present order
  next d name type literalL columnR _ d' bound =>
    obtain ⟨v, rfl, datum⟩ := literal_inv literalL
    cases left
    have column := columnUnder r columnR
    obtain ⟨present, o, order, rfl⟩ := compare_bound_swap analysed tested
      (column.carries row reads casts right) (column.notFloat noFloatsR)
      datum bound (row.wholeDays name) wholeL decided
    exact reversed_keeps converted tested present order

theorem inList_sound (result : toIcebergPredicate schema (.inList e items negated) = .predicate p)
    (whole : items.all wholeDayOperand = true) (noFloats : NoFloats row e)
    (truth : (eval k env (.inList e items negated)).bind ScalarValue.truth = some b) :
    (Predicate.polar b p).eval row.value = some true := by
  obtain ⟨w, ws, head, tail, -, member⟩ := inList_truth analysed truth
  simp only [toIcebergPredicate] at result
  split at result
  · cases result
  next ds literals =>
  split at result
  case h_2 => cases result
  next r type columnE =>
  split at result <;> cases result
  next ds' bound =>
    obtain ⟨vs, rfl, datums⟩ := literalDatums_inv literals
    rw [evalList_literals] at tail
    obtain rfl := some.inj tail
    have column := columnUnder e columnE
    -- Each literal of the list, together with what it is bound to.
    have pairs : List.Forall₂ (fun v d' => ∃ d, scalarValueToDatum v = some d ∧
        datumForColumn d type = some d') vs ds' :=
      forall₂_join (mapM_eq_some_iff.mp bound) datums.flip
        fun d _ d' _ v bound datum => ⟨d, datum, bound⟩
    have compared {v d' t} (inVs : v ∈ vs) (pair : ∃ d, scalarValueToDatum v = some d ∧
        datumForColumn d type = some d')
        (decided : (k.binary .eq w v).bind ScalarValue.truth = some t) :
        (row.value r).isNull = false ∧
          ∃ o, datumOrder (row.value r) d' = some o ∧ (o == .eq) = t := by
      obtain ⟨d, datum, bound⟩ := pair
      exact compare_bound analysed rfl (column.carries row reads casts head)
        (column.notFloat noFloats) datum bound (row.wholeDays r)
        (all_eq_true.mp whole _ (mem_map_of_mem inVs)) decided
    rw [← polarity b negated]
    refine set_keeps ?_ ?_
    · intro hit
      rw [hit] at member
      obtain ⟨v, inVs, decided⟩ := memberOf_true member
      obtain ⟨d', inDs, pair⟩ := forall₂_exists_right pairs inVs
      obtain ⟨present, o, order, equal⟩ := compared inVs pair decided
      exact ⟨present, d', inDs, by rw [order, eq_of_beq equal]⟩
    · intro miss _ d' inDs order
      rw [miss] at member
      obtain ⟨v, inVs, pair⟩ := forall₂_exists_left pairs inDs
      obtain ⟨-, o, order', unequal⟩ := compared inVs pair (memberOf_false member inVs)
      rw [order'] at order
      cases order
      cases unequal

omit analysed in
include likes in
theorem like_sound {pattern : Expr} {caseInsensitive : Bool} {escape : Option Char}
    (result : toIcebergPredicate schema (.like negated e pattern escape caseInsensitive) =
      .predicate p) (unescaped : unescapedPattern pattern = true)
    (truth : (eval k env (.like negated e pattern escape caseInsensitive)).bind
      ScalarValue.truth = some b) :
    (Predicate.polar b p).eval row.value = some true := by
  simp only [toIcebergPredicate] at result
  split at result
  · cases result
  next plain =>
  split at result
  case h_2 => cases result
  next text literal =>
  split at result
  case h_2 => cases result
  next start shape =>
  split at result <;> cases result
  next r type columnE =>
    obtain ⟨rfl, rfl⟩ : escape = none ∧ caseInsensitive = false := by
      cases escape <;> cases caseInsensitive <;> simp_all
    obtain ⟨v, rfl, datum⟩ := literal_inv literal
    obtain ⟨w, s, value, text', matched⟩ := like_truth likes (string_datum datum) truth
    rw [likePrefix_matches shape unescaped (string_datum datum)] at matched
    have stored : (row.value r).text = some s := by
      rw [← text', ((columnUnder e columnE).carries row reads casts value).represents.text_eq]
    rw [← polarity b negated, ← matched]
    exact startsWith_keeps stored

omit analysed in
theorem column_truth (column : toIcebergPredicate schema e = .column r type)
    (truth : (eval k env e).bind ScalarValue.truth = some b) : (row.value r).truth = some b := by
  obtain ⟨w, value, truth⟩ := bind_eq_some_iff.mp truth
  exact ((columnUnder e column).carries row reads casts value).represents.truth truth

include likes in
theorem converted_sound (e : Expr) {positive : Bool} {p : Predicate}
    (result : toIcebergPredicate schema e = .predicate p)
    (safe : safeAt schema positive e = true) (noFloats : NoFloats row e)
    (truth : (eval k env e).bind ScalarValue.truth = some positive) :
    (Predicate.polar positive p).eval row.value = some true := by
  match e with
  | .binaryExpr l op r =>
    cases op with
    | and =>
      rw [noFloats_binaryExpr] at noFloats
      simp only [safeAt, Bool.and_eq_true, Bool.or_eq_true, Bool.not_eq_true', beq_iff_eq] at safe
      obtain ⟨⟨safeL, safeR⟩, both⟩ := safe
      simp only [toIcebergPredicate, toIcebergAndPredicate] at result
      split at result <;> cases result
      next pl pr left right =>
        have safeL := safeL.resolve_left (by simp [pushes_of_predicate left])
        have safeR := safeR.resolve_left (by simp [pushes_of_predicate right])
        refine Predicate.polar_and ?_
        cases positive with
        | true =>
          obtain ⟨holdsL, holdsR⟩ := holds_and truth
          exact ⟨converted_sound l left safeL noFloats.1 holdsL,
            converted_sound r right safeR noFloats.2 holdsR⟩
        | false =>
          exact (refuted_and truth).imp (converted_sound l left safeL noFloats.1)
            (converted_sound r right safeR noFloats.2)
      -- A dropped side is only sound where the filter is asked to be TRUE.
      next pl right left =>
        have pushesL := pushes_of_predicate left
        obtain rfl : positive = true := both.resolve_right (by
          rw [pushesL, not_pushes right]
          decide)
        exact converted_sound l left (safeL.resolve_left (by simp [pushesL])) noFloats.1
          (holds_and truth).1
      next pr left right =>
        have pushesR := pushes_of_predicate right
        obtain rfl : positive = true := both.resolve_right (by
          rw [pushesR, not_pushes left]
          decide)
        exact converted_sound r right (safeR.resolve_left (by simp [pushesR])) noFloats.2
          (holds_and truth).2
    | or =>
      rw [noFloats_binaryExpr] at noFloats
      simp only [safeAt, Bool.and_eq_true] at safe
      simp only [toIcebergPredicate, toIcebergOrPredicate] at result
      split at result <;> cases result
      next pl pr left right =>
        refine Predicate.polar_or ?_
        cases positive with
        | true =>
          exact (holds_or truth).imp (converted_sound l left safe.1 noFloats.1)
            (converted_sound r right safe.2 noFloats.2)
        | false =>
          obtain ⟨refutedL, refutedR⟩ := refuted_or truth
          exact ⟨converted_sound l left safe.1 noFloats.1 refutedL,
            converted_sound r right safe.2 noFloats.2 refutedR⟩
    | eq | notEq | lt | ltEq | gt | gtEq =>
      rw [noFloats_binaryExpr] at noFloats
      simp only [safeAt, Bool.and_eq_true] at safe
      exact comparison_sound analysed casts row reads rfl rfl result safe.1 safe.2 noFloats.1
        noFloats.2 truth
    | isDistinctFrom | isNotDistinctFrom | plus | minus | multiply | divide | modulo | other =>
      simp [toIcebergPredicate, toIcebergOperation] at result
  | .not e =>
    rw [noFloats_not] at noFloats
    have inner : (eval k env e).bind ScalarValue.truth = some (!positive) := by
      cases positive with
      | true => exact holds_not.mp truth
      | false => exact refuted_not.mp truth
    simp only [toIcebergPredicate] at result
    split at result <;> cases result
    next q converted =>
      rw [Predicate.polar_not]
      exact converted_sound e converted safe noFloats inner
    next r type column =>
      have kept := boolean_keeps (t := false) (column_truth casts row reads column inner)
      simpa using kept
  | .inList e items negated =>
    exact inList_sound analysed casts row reads result safe (noFloats_of_inList noFloats) truth
  | .like negated e pattern escape caseInsensitive =>
    exact like_sound casts likes row reads result safe truth
  | .is test e =>
    obtain ⟨_, is, truth⟩ := bind_eq_some_iff.mp truth
    simp only [eval, bind_eq_bind, bind_eq_some_iff] at is
    obtain ⟨w, value, is⟩ := is
    cases is
    cases truth
    cases test with
    | null | notNull =>
      simp only [toIcebergPredicate] at result
      split at result <;> cases result
      next r type column =>
        rw [IsTest.holds, ((columnUnder e column).carries row reads casts value).represents.isNull]
        first | exact isNull_keeps | exact notNull_keeps
    | true | false | unknown | notTrue | notFalse | notUnknown =>
      simp [toIcebergPredicate] at result
  | .column _ | .literal _ | .cast _ _ =>
    simp only [toIcebergPredicate] at result
    (repeat' split at result) <;> cases result
  | .alias .. | .outerReferenceColumn .. | .between .. | .case .. | .tryCast ..
  | .scalarFunction .. | .windowFunction .. | .groupingSet .. | .exists .. | .inSubquery ..
  | .scalarSubquery .. | .setComparison .. | .other .. => simp [toIcebergPredicate] at result

include likes in
theorem filter_sound (converted : convertFilterToPredicate schema e = some p)
    (safe : pushes schema e = true → safeAt schema true e = true) (noFloats : NoFloats row e)
    (holds : Holds k env e) : p.rewriteNot.eval row.value = some true := by
  unfold convertFilterToPredicate at converted
  split at converted <;> cases converted
  next q result =>
    exact converted_sound analysed casts likes row reads e result
      (safe (pushes_of_predicate result)) noFloats holds
  next r type column =>
    exact boolean_keeps (t := true) (column_truth casts row reads column holds)

include likes in
/-- A row on which every filter is TRUE is kept by the predicate the filters convert to. -/
theorem convertFiltersToPredicateFor_keeps {filters : List Expr}
    (converted : convertFiltersToPredicateFor filters schema = some p)
    (safe : ∀ f ∈ filters, pushes schema f = true → safeAt schema true f = true)
    (noFloats : ∀ f ∈ filters, NoFloats row f) (holds : ∀ f ∈ filters, Holds k env f) :
    p.rewriteNot.eval row.value = some true := by
  have each : ∀ q ∈ filters.filterMap (convertFilterToPredicate schema),
      q.rewriteNot.eval row.value = some true := by
    intro q member
    obtain ⟨f, inFilters, filter⟩ := mem_filterMap.mp member
    exact filter_sound analysed casts likes row reads filter (safe f inFilters)
      (noFloats f inFilters) (holds f inFilters)
  unfold convertFiltersToPredicateFor at converted
  split at converted <;> cases converted
  next q qs predicates =>
    rw [predicates] at each
    exact foldl_and_keeps (each q mem_cons_self) fun q' member =>
      each q' (mem_cons_of_mem _ member)

end Sound

def sampleSchema : Option Schema :=
  some [⟨"a", .int32, false⟩, ⟨"b", .utf8, false⟩]

def sampleRow (a : Int) (b : String) : StoredRow sampleSchema where
  value name := if name = "a" then .int32 (some a) else .utf8 (some b)
  typed name field found := by
    by_cases isA : name = "a"
    · subst isA
      cases found
      rfl
    · have isB : name = "b" := by
        by_contra notB
        simp [fieldWithName, sampleSchema, Ne.symm isA, Ne.symm notB] at found
      subst isB
      cases found
      rfl
  wholeDays name ms is := by
    split at is <;> cases is

def sampleType (c : Column) : DataType := if c.name = "a" then .int32 else .utf8

def sampleEnv (a : Int) (b : String) : RowEnv where
  column c := (sampleRow a b).value c.name
  outer _ := .null
  subquery _ := none
  skip _ := true

theorem sampleRow_notFloat (a : Int) (b name : String) :
    ((sampleRow a b).value name).dataType.isFloat = false := by
  simp only [sampleRow]
  split <;> rfl

/-- `NOT (a = 1 AND b LIKE pattern)`. -/
def notBoth (pattern : String) : Expr :=
  .not (.binaryExpr (.binaryExpr (.column ⟨none, "a"⟩) .eq (.literal (.int32 (some 1)))) .and
    (.like false (.column ⟨none, "b"⟩) (.literal (.utf8 (some pattern))) none false))

theorem keeps_notBoth_prefix :
    (Predicate.not (.and (.binary .eq "a" (.int 1)) (.binary .startsWith "b" (.string "x")))
      |>.rewriteNot.eval (sampleRow 1 "y").value) = some true :=
  convertFiltersToPredicateFor_keeps (referenceKernels_analysed sampleType)
    (referenceKernels_casts sampleType) (referenceKernels_likes sampleType) (sampleRow 1 "y")
    (show ∀ c, (sampleEnv 1 "y").column c = _ from fun _ => rfl)
    (show convertFiltersToPredicateFor [notBoth "x%"] sampleSchema = _ from rfl)
    (fun f member _ => by rw [mem_singleton.mp member]; decide)
    (fun f _ c _ => sampleRow_notFloat 1 "y" c.name)
    (fun f member => by rw [mem_singleton.mp member]; decide)

/-- `AND` drops the conjunct that is no prefix test, and `NOT` turns the broader predicate into
a narrower one: the pushed `a != 1` loses a row the filter keeps. -/
theorem loses_notBoth_infix :
    Analysed (referenceKernels sampleType) sampleType ∧
      CastsExactly (referenceKernels sampleType) ∧ LikesTexts (referenceKernels sampleType) ∧
      (∀ c, (sampleEnv 1 "y").column c = (sampleRow 1 "y").value c.name) ∧
      NoFloats (sampleRow 1 "y") (notBoth "%x%") ∧
      Holds (referenceKernels sampleType) (sampleEnv 1 "y") (notBoth "%x%") ∧
      convertFiltersToPredicateFor [notBoth "%x%"] sampleSchema =
        some (.not (.binary .eq "a" (.int 1))) ∧
      (Predicate.not (.binary .eq "a" (.int 1))).rewriteNot.eval (sampleRow 1 "y").value =
        some false :=
  ⟨referenceKernels_analysed sampleType, referenceKernels_casts sampleType,
    referenceKernels_likes sampleType, fun _ => rfl, fun c _ => sampleRow_notFloat 1 "y" c.name,
    by decide, rfl, by decide⟩

-- The backslash of a pattern is pushed as part of the prefix, where LIKE reads it as an escape.
example :
    Holds (referenceKernels sampleType) (sampleEnv 1 "a%")
        (.like false (.column ⟨none, "b"⟩) (.literal (.utf8 (some "a\\%"))) none false) ∧
      (Predicate.binary .startsWith "b" (.string "a\\")).rewriteNot.eval (sampleRow 1 "a%").value =
        some false := by decide

end Sqe.Catalog.ExprToPredicate
