/- GID: Sqe/Catalog/PhysicalToPredicateSound
   generality: G
   digest: A row that a runtime filter accepts is kept by its predicate and by its collapse. -/

import Sqe.Catalog.PhysicalToPredicate
import Sqe.Library.FirstWins

set_option autoImplicit false

namespace Sqe.Catalog.RuntimeFilter

open Sqe.DataFusion Sqe.Iceberg Sqe.Library Sqe.Library.Kleene List Option

/-- The comparison kernels order values of the ordered types, and refuse operands of two types. -/
structure Compares (k : Kernels) : Prop where
  compare : ∀ op test, op.test = some test → ∀ a b,
    a.dataType.isOrdered = true ∨ b.dataType.isOrdered = true →
      k.binary op a b = compareWith test a b

mutual

/-- No literal that the converters look at is a float. -/
def PhysicalExpr.FloatFree : PhysicalExpr → Prop
  | .dynamicFilter current => floatFreeOption current
  | .binary l _ r => l.FloatFree ∧ r.FloatFree
  | .inList _ list _ => floatFreeList list
  | .case _ whenThen _ => floatFreeWhens whenThen
  | .literal v => v.dataType.isFloat = false
  | _ => True

def floatFreeOption : Option PhysicalExpr → Prop
  | none => True
  | some e => e.FloatFree

def floatFreeList : List PhysicalExpr → Prop
  | [] => True
  | e :: es => e.FloatFree ∧ floatFreeList es

def floatFreeWhens : List (PhysicalExpr × PhysicalExpr) → Prop
  | [] => True
  | (_, t) :: rest => t.FloatFree ∧ floatFreeWhens rest

end

variable {k : Kernels} {row : String → ScalarValue} {e l r : PhysicalExpr}
  {list : List PhysicalExpr} {whenThen rest : List (PhysicalExpr × PhysicalExpr)}
  {base elseExpr key key' : Option PhysicalExpr} {op op' : Operator} {test : Ordering → Bool}
  {v lit : ScalarValue} {d : Datum} {ds : List Datum} {p q : Predicate} {c col : String}
  {accepted : Prop} {values values' items : List ScalarValue}

theorem floatFree_of_mem (free : floatFreeList list) : ∀ e ∈ list, e.FloatFree := by
  induction list with
  | nil => nofun
  | cons e es ih =>
    exact forall_mem_cons.mpr ⟨free.1, ih free.2⟩

theorem floatFree_of_mem_whens (free : floatFreeWhens whenThen) :
    ∀ arm ∈ whenThen, arm.2.FloatFree := by
  induction whenThen with
  | nil => nofun
  | cons first rest ih =>
    exact forall_mem_cons.mpr ⟨free.1, ih free.2⟩

theorem holds_and_iff : Holds k row (.binary l .and r) ↔ Holds k row l ∧ Holds k row r := by
  simp [Holds, eval]

theorem holds_or_iff : Holds k row (.binary l .or r) ↔ Holds k row l ∨ Holds k row r := by
  simp [Holds, eval]

theorem holds_comparison (tested : op.test = some test) (holds : Holds k row (.binary l op r)) :
    ∃ a b, eval k row l = some a ∧ eval k row r = some b ∧
      (k.binary op a b).bind ScalarValue.truth = some true := by
  have value : eval k row (.binary l op r) =
      (eval k row l).bind fun a => (eval k row r).bind fun b => k.binary op a b := by
    cases op <;> first | rfl | simp [Operator.test] at tested
  rw [Holds, value] at holds
  simpa only [bind_assoc, bind_eq_some_iff, exists_and_left] using holds

theorem evalMember_true {value : Option ScalarValue} :
    evalMember k row value list = some true ↔
      ∃ item ∈ list, ∃ v w, value = some v ∧ eval k row item = some w ∧
        (k.binary .eq v w).bind ScalarValue.truth = some true := by
  induction list with
  | nil => simp [evalMember]
  | cons e es ih =>
    rw [evalMember, or3_eq_true, ih]
    have first : ((do let v ← value; let w ← eval k row e; k.binary .eq v w).bind
        ScalarValue.truth = some true) ↔ ∃ v w, value = some v ∧ eval k row e = some w ∧
          (k.binary .eq v w).bind ScalarValue.truth = some true := by
      cases value <;> cases eval k row e <;> simp
    rw [first, exists_mem_cons_iff]

theorem holds_inList_iff :
    Holds k row (.inList e list false) ↔
      ∃ item ∈ list, ∃ v w, eval k row e = some v ∧ eval k row item = some w ∧
        (k.binary .eq v w).bind ScalarValue.truth = some true := by
  rw [Holds, eval, ← evalMember_true]
  rfl

theorem evalWhens_cons {based : Bool} {base fallthrough : Option ScalarValue} {w t : PhysicalExpr} :
    evalWhens k row based base ((w, t) :: rest) fallthrough = eval k row t ∨
      evalWhens k row based base ((w, t) :: rest) fallthrough =
        evalWhens k row based base rest fallthrough := by
  exact ite_eq_or_eq _ _ _

theorem holds_case (holds : Holds k row (.case base whenThen elseExpr)) :
    (∃ arm ∈ whenThen, Holds k row arm.2) ∨ ∃ e, elseExpr = some e ∧ Holds k row e := by
  rw [Holds, eval] at holds
  induction whenThen with
  | nil =>
    right
    cases elseExpr with
    | none => cases holds
    | some e => exact ⟨e, rfl, holds⟩
  | cons arm rest ih =>
    obtain ⟨w, t⟩ := arm
    rcases evalWhens_cons (w := w) (t := t) with taken | next_
    · exact .inl ⟨(w, t), mem_cons_self, by rwa [taken] at holds⟩
    · rw [next_] at holds
      rcases ih holds with ⟨arm, listed, taken⟩ | other
      · exact .inl ⟨arm, mem_cons_of_mem _ listed, taken⟩
      · exact .inr other

theorem extractLiteral_eq_some : extractLiteral e = some v ↔ e = .literal v := by
  cases e <;> simp [extractLiteral]

theorem extractColumn_eq_some {name : String} :
    extractColumn e = some name ↔ ∃ index, e = .column name index := by
  cases e <;> simp [extractColumn]

theorem not_holds_of_isLiteralFalse (is : isLiteralFalse e = true) : ¬ Holds k row e := by
  rw [isLiteralFalse, beq_iff_eq, extractLiteral_eq_some] at is
  subst is
  nofun

theorem holds_arm (closed : elseExpr.any (fun e => !isLiteralFalse e) = false)
    (holds : Holds k row (.case base whenThen elseExpr)) :
    ∃ arm ∈ whenThen, isLiteralFalse arm.2 = false ∧ Holds k row arm.2 := by
  rcases holds_case holds with ⟨arm, listed, taken⟩ | ⟨e, rfl, fallen⟩
  · refine ⟨arm, listed, Bool.eq_false_iff.mpr fun is => ?_, taken⟩
    exact not_holds_of_isLiteralFalse is taken
  · exact absurd fallen (not_holds_of_isLiteralFalse (by simpa using closed))

theorem isOrdered_of_scalarToDatum
    (datum : scalarToDatum v = some d) (notFloat : v.dataType.isFloat = false) :
    v.dataType.isOrdered = true := by
  unfold scalarToDatum at datum
  split at datum <;> first | rfl | cases notFloat | cases datum

theorem datumOrder_eq_order (datum : scalarToDatum lit = some d)
    (types : v.dataType = lit.dataType) : datumOrder v d = v.order lit := by
  have keys : d.number = lit.number ∧ d.text = lit.text ∧ d.bytes = lit.bytes ∧
      lit.dataType ≠ .date64 := by
    unfold scalarToDatum at datum
    split at datum <;> cases datum <;> exact ⟨rfl, rfl, rfl, nofun⟩
  obtain ⟨number, text, bytes, noDate64⟩ := keys
  have stored : storedNumber v = v.number := by
    unfold storedNumber
    split
    · exact absurd types.symm noDate64
    · rfl
  rw [datumOrder, ScalarValue.order, stored, number, text, bytes]

theorem compare_datum (datum : scalarToDatum lit = some d)
    (hit : (compareWith test v lit).bind ScalarValue.truth = some true) :
    v.isNull = false ∧ ∃ o, datumOrder v d = some o ∧ test o = true := by
  obtain ⟨types, o, order, passes⟩ := compareWith_truth.mp hit
  exact ⟨ScalarValue.not_isNull_of_order order, o,
    by rw [datumOrder_eq_order datum types, order], passes⟩

theorem flipOp_test (tested : op.test = some test) :
    ∃ flipped, (flipOp op).test = some flipped ∧ ∀ o : Ordering, flipped o = test o.swap := by
  cases op <;> cases tested <;> exact ⟨_, rfl, by decide⟩

theorem comparisonPredicate_keeps {o : Ordering}
    (converted : comparisonPredicate op c d = some p) (tested : op.test = some test)
    (present : (row c).isNull = false) (order : datumOrder (row c) d = some o)
    (passes : test o = true) : p.eval row = some true := by
  cases op <;> cases converted <;> cases tested <;> cases o <;>
    simp_all [Predicate.eval, BinaryOperator.holds]

theorem comparison_of_predicate :
    (comparisonPredicate op c d = some p → ∃ test, op.test = some test) ∧
      (comparisonPredicate (flipOp op) c d = some p → ∃ test, op.test = some test) := by
  constructor <;> intro made <;> cases op <;> first | exact ⟨_, rfl⟩ | cases made

theorem normalizeComparison_cases (normal : normalizeComparison l op r = some (c, lit, op')) :
    (∃ i, l = .column c i ∧ r = .literal lit ∧ op' = op) ∨
      ∃ i, r = .column c i ∧ l = .literal lit ∧ op' = flipOp op := by
  revert normal
  fun_cases normalizeComparison l op r <;> rintro ⟨⟩ <;>
    obtain ⟨i, is⟩ := extractColumn_eq_some.mp ‹_›
  · exact .inl ⟨i, is, extractLiteral_eq_some.mp ‹_›, rfl⟩
  · exact .inr ⟨i, is, extractLiteral_eq_some.mp ‹_›, rfl⟩

/-- The predicate is without negation, and keeps the row if it is accepted. -/
def Keeps (row : String → ScalarValue) (accepted : Prop) (p : Predicate) : Prop :=
  p.NotFree ∧ (accepted → p.eval row = some true)

theorem Keeps.mkAnd (left : Keeps row accepted p) (right : Keeps row accepted q) :
    Keeps row accepted (p.mkAnd q) :=
  ⟨Predicate.mkAnd_notFree left.1 right.1,
    fun accepts => Predicate.mkAnd_keeps (left.2 accepts) (right.2 accepts)⟩

theorem Keeps.of {more : Prop}
    (keeps : Keeps row more p) (given : accepted → more) : Keeps row accepted p :=
  ⟨keeps.1, fun accepts => keeps.2 (given accepts)⟩

theorem foldl_mkAnd_keeps {ps : List Predicate} (all : ∀ q ∈ p :: ps, Keeps row accepted q) :
    Keeps row accepted (ps.foldl Predicate.mkAnd p) := by
  obtain ⟨first, others⟩ := forall_mem_cons.mp all
  exact List.foldlRecOn ps _ first fun p keeps q listed => keeps.mkAnd (others q listed)

theorem comparisonPredicate_notFree (made : comparisonPredicate op c d = some p) : p.NotFree := by
  cases op <;> cases made <;> trivial

section Converters

variable (compares : Compares k)
include compares

theorem comparison_datum (tested : op.test = some test)
    (free : (PhysicalExpr.binary l op r).FloatFree)
    (normal : normalizeComparison l op r = some (c, lit, op')) (datum : scalarToDatum lit = some d)
    (holds : Holds k row (.binary l op r)) :
    ∃ test', op'.test = some test' ∧ (row c).isNull = false ∧
      ∃ o, datumOrder (row c) d = some o ∧ test' o = true := by
  obtain ⟨a, b, left, right, hit⟩ := holds_comparison tested holds
  rcases normalizeComparison_cases normal with ⟨i, rfl, rfl, rfl⟩ | ⟨i, rfl, rfl, rfl⟩
  · cases left
    cases right
    rw [compares.compare _ test tested _ _ (.inr (isOrdered_of_scalarToDatum datum free.2))] at hit
    exact ⟨test, tested, compare_datum datum hit⟩
  · cases left
    cases right
    obtain ⟨flipped, tested', swaps⟩ := flipOp_test tested
    rw [compares.compare _ test tested _ _ (.inl (isOrdered_of_scalarToDatum datum free.1)),
      compareWith_swap] at hit
    obtain ⟨present, o, order, passes⟩ := compare_datum datum hit
    exact ⟨flipped, tested', present, o, order, by rw [swaps, passes]⟩

theorem convertComparison_keeps (converted : convertComparison l op r = some p) :
    Keeps row ((PhysicalExpr.binary l op r).FloatFree ∧ Holds k row (.binary l op r)) p := by
  obtain ⟨⟨c, lit, op'⟩, normal, converted⟩ := bind_eq_some_iff.mp converted
  dsimp only at converted
  split at converted
  · cases converted
  · obtain ⟨d, datum, made⟩ := bind_eq_some_iff.mp converted
    refine ⟨comparisonPredicate_notFree made, fun ⟨free, holds⟩ => ?_⟩
    have tested : ∃ test, op.test = some test := by
      rcases normalizeComparison_cases normal with ⟨i, -, -, rfl⟩ | ⟨i, -, -, rfl⟩
      · exact comparison_of_predicate.1 made
      · exact comparison_of_predicate.2 made
    obtain ⟨test, tested⟩ := tested
    obtain ⟨test', tested', present, o, order, passes⟩ :=
      comparison_datum compares tested free normal datum holds
    exact comparisonPredicate_keeps made tested' present order passes

end Converters

def Within (row : String → ScalarValue) (col : String) (datums : List Datum) : Prop :=
  (row col).isNull = false ∧ ∃ d ∈ datums, datumOrder (row col) d = some .eq

theorem Within.mono {ds' : List Datum}
    (within : Within row col ds) (sub : ∀ d ∈ ds, d ∈ ds') : Within row col ds' := by
  obtain ⟨present, d, listed, equal⟩ := within
  exact ⟨present, d, sub d listed, equal⟩

theorem set_keeps
    (within : Within row col ds) : (Predicate.set .isIn col ds).eval row = some true := by
  obtain ⟨present, d, listed, equal⟩ := within
  have any : (ds.any fun d => datumOrder (row col) d == some .eq) = true :=
    any_eq_true.mpr ⟨d, listed, by simp [equal]⟩
  simp [Predicate.eval, present, any]

theorem literalDatums_mem
    (datums : literalDatums list = some ds) {item : PhysicalExpr} (listed : item ∈ list) :
    ∃ lit d, item = .literal lit ∧ scalarToDatum lit = some d ∧ d ∈ ds := by
  obtain ⟨d, there, converted⟩ :=
    Traverse.forall₂_exists_right (Traverse.mapM_eq_some_iff.mp datums) listed
  obtain ⟨lit, literal, datum⟩ := bind_eq_some_iff.mp converted
  exact ⟨lit, d, extractLiteral_eq_some.mp literal, datum, there⟩

section Membership

variable (compares : Compares k)
include compares

theorem inList_within (free : floatFreeList list) (column : extractColumn e = some col)
    (datums : literalDatums list = some ds) (holds : Holds k row (.inList e list false)) :
    Within row col ds := by
  obtain ⟨item, listed, v, w, value, item_, hit⟩ := holds_inList_iff.mp holds
  obtain ⟨lit, d, rfl, datum, there⟩ := literalDatums_mem datums listed
  obtain ⟨i, rfl⟩ := extractColumn_eq_some.mp column
  have notFloat := floatFree_of_mem free _ listed
  rw [PhysicalExpr.FloatFree] at notFloat
  cases value
  cases item_
  rw [compares.compare .eq _ rfl _ _ (.inr (isOrdered_of_scalarToDatum datum notFloat))] at hit
  obtain ⟨present, o, order, passes⟩ := compare_datum datum hit
  exact ⟨present, d, there, by rw [order, eq_of_beq passes]⟩

theorem convertInList_keeps {negated : Bool} (converted : convertInList e list negated = some p) :
    Keeps row (floatFreeList list ∧ Holds k row (.inList e list negated)) p := by
  cases negated with
  | true => cases converted
  | false =>
    obtain ⟨col, column, converted⟩ := bind_eq_some_iff.mp converted
    split at converted
    next none_ =>
      cases converted
      refine ⟨trivial, fun ⟨_, holds⟩ => ?_⟩
      obtain ⟨item, listed, -⟩ := holds_inList_iff.mp holds
      rw [List.isEmpty_iff.mp none_] at listed
      cases listed
    next =>
      obtain ⟨ds, datums, converted⟩ := bind_eq_some_iff.mp converted
      split at converted <;> cases converted
      exact ⟨trivial, fun ⟨free, holds⟩ =>
        set_keeps (inList_within compares free column datums holds)⟩

end Membership

def AllWithin (row : String → ScalarValue) (sets : MembershipSets) : Prop :=
  ∀ entry ∈ sets, Within row entry.1 entry.2

theorem AllWithin.extend {out : MembershipSets}
    (all : AllWithin row out) (within : Within row col ds) : AllWithin row (out.extend col ds) := by
  induction out with
  | nil =>
    intro entry listed
    cases mem_singleton.mp listed
    exact within
  | cons first rest ih =>
    obtain ⟨head, tail⟩ := forall_mem_cons.mp all
    rw [MembershipSets.extend]
    split
    next same =>
      refine forall_mem_cons.mpr ⟨?_, tail⟩
      exact head.mono fun d listed => mem_append_left _ listed
    next => exact forall_mem_cons.mpr ⟨head, ih tail⟩

section Arms

theorem collectMembershipSets_within (compares : Compares k) {out : MembershipSets}
    (free : e.FloatFree) (holds : Holds k row e) (known : AllWithin row out) :
    AllWithin row (collectMembershipSets out e) := by
  fun_induction collectMembershipSets out e with
  | case1 out l r left right =>
    obtain ⟨holdsL, holdsR⟩ := holds_and_iff.mp holds
    exact right free.2 holdsR (left free.1 holdsL known)
  | case2 out l r col lit op normal d datum =>
    obtain ⟨test, tested, present, o, order, passes⟩ :=
      comparison_datum compares rfl free normal datum holds
    refine known.extend ⟨present, d, mem_singleton_self d, ?_⟩
    have same : op = .eq := by
      rcases normalizeComparison_cases normal with ⟨i, -, -, rfl⟩ | ⟨i, -, -, rfl⟩ <;> rfl
    subst same
    cases tested
    rw [order, eq_of_beq passes]
  | case5 out e list col datums literals column =>
    rw [PhysicalExpr.FloatFree] at free
    exact known.extend (inList_within compares free column literals holds)
  | case3 | case4 | case6 | case7 => exact known

variable {arms : List MembershipSets} {cap : Nat}

theorem armSets_mem (collected : armSets whenThen = some arms) {arm : PhysicalExpr × PhysicalExpr}
    (listed : arm ∈ whenThen) (admits : isLiteralFalse arm.2 = false) :
    collectMembershipSets [] arm.2 ∈ arms := by
  fun_induction armSets whenThen generalizing arms
  case case1 => cases listed
  case case2 w t rest skipped ih =>
    rcases mem_cons.mp listed with rfl | later
    · rw [skipped] at admits
      cases admits
    · exact ih collected later
  case case3 => cases collected
  case case4 w t rest _ sets _ ih =>
    obtain ⟨others, found, rfl⟩ := map_eq_some_iff.mp collected
    rcases mem_cons.mp listed with rfl | later
    · exact mem_cons_self
    · exact mem_cons_of_mem _ (ih found later)

theorem exists_arm_within (compares : Compares k)
    (free : floatFreeWhens whenThen) (closed : elseExpr.any (fun e => !isLiteralFalse e) = false)
    (collected : armSets whenThen = some arms)
    (holds : Holds k row (.case base whenThen elseExpr)) :
    ∃ arm ∈ arms, AllWithin row arm := by
  obtain ⟨arm, listed, admits, taken⟩ := holds_arm closed holds
  exact ⟨_, armSets_mem collected listed admits,
    collectMembershipSets_within compares (floatFree_of_mem_whens free _ listed) taken nofun⟩

theorem lookup_of_common
    (common : col ∈ commonColumns arms) {arm : MembershipSets} (listed : arm ∈ arms) :
    ∃ ds, arm.lookup col = some ds := by
  unfold commonColumns at common
  split at common
  · cases common
  · have kept := (mem_filter.mp ((mem_insertionSort _).mp common)).2
    exact isSome_iff_exists.mp (all_eq_true.mp kept arm listed)

theorem unionUpTo_mem {union whole : List Datum}
    (fits : unionUpTo cap col union arms = some whole) :
    (∀ d ∈ union, d ∈ whole) ∧
      ∀ arm ∈ arms, ∀ ds, arm.lookup col = some ds → ∀ d ∈ ds, d ∈ whole := by
  fun_induction unionUpTo cap col union arms with
  | case1 =>
    cases fits
    exact ⟨fun _ listed => listed, nofun⟩
  | case2 => cases fits
  | case3 union arm arms longer _ ih =>
    obtain ⟨kept, others⟩ := ih fits
    refine ⟨fun d listed => kept d (mem_append_left _ listed), ?_⟩
    refine forall_mem_cons.mpr ⟨fun ds found d listed => kept d ?_, others⟩
    show d ∈ union ++ (arm.lookup col).getD []
    rw [found]
    exact mem_append_right _ listed

theorem membershipPredicate_holds {union : List Datum} {arm : MembershipSets}
    (listed : arm ∈ arms) (bounds : AllWithin row arm) (common : col ∈ commonColumns arms)
    (fits : unionUpTo cap col [] arms = some union) :
    (membershipPredicate col union).eval row = some true := by
  obtain ⟨ds, found⟩ := lookup_of_common common listed
  have within : Within row col union :=
    (bounds _ (FirstWins.mem_of_lookup found)).mono ((unionUpTo_mem fits).2 arm listed ds found)
  unfold membershipPredicate
  split
  next none_ =>
    obtain ⟨-, d, there, -⟩ := within
    rw [List.isEmpty_iff.mp none_] at there
    cases there
  next => exact set_keeps within

theorem convertCase_keeps (compares : Compares k)
    (converted : convertCase cap whenThen elseExpr = some p) :
    Keeps row (floatFreeWhens whenThen ∧ Holds k row (.case base whenThen elseExpr)) p := by
  revert converted
  fun_cases convertCase cap whenThen elseExpr <;> try rintro ⟨⟩
  next closed lowerBound _ =>
  intro converted
  obtain ⟨arms, collected, converted⟩ := bind_eq_some_iff.mp converted
  have within (free : floatFreeWhens whenThen)
      (holds : Holds k row (.case base whenThen elseExpr)) :=
    exists_arm_within compares free (by simpa using closed) collected holds
  split at converted
  next none_ =>
    cases converted
    refine ⟨trivial, fun ⟨free, holds⟩ => ?_⟩
    obtain ⟨arm, listed, -⟩ := within free holds
    rw [List.isEmpty_iff.mp none_] at listed
    cases listed
  next =>
    dsimp only at converted
    split at converted <;> cases converted
    next q qs made =>
      refine foldl_mkAnd_keeps fun q made' => ?_
      obtain ⟨col, common, made'⟩ := mem_filterMap.mp (made ▸ made')
      obtain ⟨union, fits, rfl⟩ := map_eq_some_iff.mp made'
      refine ⟨by unfold membershipPredicate; split <;> trivial, fun ⟨free, holds⟩ => ?_⟩
      obtain ⟨arm, listed, bounds⟩ := within free holds
      exact membershipPredicate_holds listed bounds common fits

end Arms

theorem holds_isNull (column : extractColumn e = some col) :
    (Holds k row (.isNull e) → (row col).isNull = true) ∧
      (Holds k row (.isNotNull e) → (row col).isNull = false) := by
  obtain ⟨i, rfl⟩ := extractColumn_eq_some.mp column
  constructor <;> intro holds <;> simpa [Holds, eval] using holds

theorem convertPhysical_keeps (compares : Compares k) {cap : Nat}
    (converted : convertPhysical cap e = some p) :
    Keeps row (e.FloatFree ∧ Holds k row e) p := by
  have both {l r : PhysicalExpr} (accepted : (PhysicalExpr.binary l .and r).FloatFree ∧
      Holds k row (.binary l .and r)) :
      (l.FloatFree ∧ Holds k row l) ∧ r.FloatFree ∧ Holds k row r := by
    obtain ⟨free, holds⟩ := accepted
    rw [PhysicalExpr.FloatFree] at free
    obtain ⟨holdsL, holdsR⟩ := holds_and_iff.mp holds
    exact ⟨⟨free.1, holdsL⟩, free.2, holdsR⟩
  fun_induction convertPhysical cap e generalizing p with
  | case1 | case2 | case7 | case14 => cases converted
  | case3 inner _ ih => exact ih converted
  | case4 l r p q right left ihL ihR =>
    cases converted
    exact ((ihL left).of fun accepted => (both accepted).1).mkAnd
      ((ihR right).of fun accepted => (both accepted).2)
  | case5 l r p _ left ihL _ =>
    exact (ihL (left.trans converted)).of fun accepted => (both accepted).1
  | case6 l r q right _ _ ihR =>
    exact (ihR (right.trans converted)).of fun accepted => (both accepted).2
  | case8 l r ihL ihR =>
    obtain ⟨p, left, converted⟩ := bind_eq_some_iff.mp converted
    obtain ⟨q, right, made⟩ := bind_eq_some_iff.mp converted
    cases made
    obtain ⟨plainL, keepsL⟩ := ihL left
    obtain ⟨plainR, keepsR⟩ := ihR right
    refine ⟨Predicate.mkOr_notFree plainL plainR, fun ⟨free, holds⟩ => ?_⟩
    rw [PhysicalExpr.FloatFree] at free
    exact Predicate.mkOr_keeps plainL plainR ((holds_or_iff.mp holds).imp
      (fun holds => keepsL ⟨free.1, holds⟩) fun holds => keepsR ⟨free.2, holds⟩)
  | case9 l op r => exact convertComparison_keeps compares converted
  | case10 e list negated =>
    rw [PhysicalExpr.FloatFree]
    exact convertInList_keeps compares converted
  | case11 base whenThen elseExpr =>
    rw [PhysicalExpr.FloatFree]
    exact convertCase_keeps compares converted
  | case12 e =>
    obtain ⟨col, column, rfl⟩ := map_eq_some_iff.mp converted
    exact ⟨trivial, fun accepted => congrArg some ((holds_isNull column).1 accepted.2)⟩
  | case13 e =>
    obtain ⟨col, column, rfl⟩ := map_eq_some_iff.mp converted
    exact ⟨trivial, fun accepted => by simp [Predicate.eval, (holds_isNull column).2 accepted.2]⟩

theorem convertPhysicalFilters_keeps (compares : Compares k) {filters : List PhysicalExpr}
    {cap : Nat} (free : ∀ f ∈ filters, f.FloatFree)
    (converted : convertPhysicalFiltersToPredicateCapped filters cap = some p)
    (holds : ∀ f ∈ filters, Holds k row f) : p.eval row = some true := by
  unfold convertPhysicalFiltersToPredicateCapped at converted
  split at converted <;> cases converted
  next q qs made =>
    refine (foldl_mkAnd_keeps fun q listed => ?_).2 trivial
    obtain ⟨f, listed, made⟩ := mem_filterMap.mp (made ▸ listed)
    exact (convertPhysical_keeps compares made).of fun _ => ⟨free f listed, holds f listed⟩

section Collapse

theorem findMembershipConjunct_holds {t : PhysicalExpr}
    (found : findMembershipConjunct t = some (e, list)) (holds : Holds k row t) :
    Holds k row (.inList e list false) := by
  fun_induction findMembershipConjunct t with
  | case1 | case4 => cases found
  | case2 e' list' negated positive =>
    cases found
    rw [Bool.not_eq_true] at positive
    rwa [positive] at holds
  | case3 l r ihL ihR =>
    obtain ⟨left, right⟩ := holds_and_iff.mp holds
    rcases or_eq_some_iff.mp found with here | ⟨-, there⟩
    · exact ihL here left
    · exact ihR there right

/-- An arm's list stands on the key of all arms, and its values are among those collected. -/
def Fits (key : PhysicalExpr) (values : List ScalarValue) (t : PhysicalExpr) : Prop :=
  ∃ e list items, findMembershipConjunct t = some (e, list) ∧
    list.mapM extractLiteral = some items ∧ (∀ v ∈ items, v ∈ values) ∧
    (e = key ∨ key.same e = true)

/-- The key and the values that the arms end with keep those they started with, and fit every
arm that admits rows. -/
def Collected (key : Option PhysicalExpr) (values : List ScalarValue)
    (whenThen : List (PhysicalExpr × PhysicalExpr)) (key' : Option PhysicalExpr)
    (values' : List ScalarValue) : Prop :=
  (∀ e, key = some e → key' = some e) ∧ (∀ v ∈ values, v ∈ values') ∧
    ∀ arm ∈ whenThen, isLiteralFalse arm.2 = false → ∃ e, key' = some e ∧ Fits e values' arm.2

theorem Collected.cons {w t known : PhysicalExpr}
    (others : Collected (some known) (values ++ items) rest key' values')
    (keeps : ∀ e', key = some e' → e' = known) (fits : e = known ∨ known.same e = true)
    (found : findMembershipConjunct t = some (e, list))
    (literals : list.mapM extractLiteral = some items) :
    Collected key values ((w, t) :: rest) key' values' := by
  obtain ⟨kept, more, each⟩ := others
  have is := kept known rfl
  refine ⟨fun e' same => by rw [is, keeps e' same],
    fun v listed => more v (mem_append_left _ listed),
    forall_mem_cons.mpr ⟨fun _ => ⟨known, is, ?_⟩, each⟩⟩
  exact ⟨e, list, items, found, literals, fun v listed => more v (mem_append_right _ listed), fits⟩

theorem collectArms_collected (collected : collectArms key values whenThen = some (key', values')) :
    Collected key values whenThen key' values' := by
  induction whenThen generalizing key values with
  | nil =>
    cases collected
    exact ⟨fun _ is => is, fun _ listed => listed, nofun⟩
  | cons first rest ih =>
    obtain ⟨w, t⟩ := first
    rw [collectArms] at collected
    split at collected
    next skipped =>
      obtain ⟨kept, more, others⟩ := ih collected
      refine ⟨kept, more, forall_mem_cons.mpr ⟨fun admits => ?_, others⟩⟩
      rw [skipped] at admits
      cases admits
    next =>
      obtain ⟨⟨e, list⟩, found, collected⟩ := bind_eq_some_iff.mp collected
      dsimp only at collected
      split at collected
      · obtain ⟨items, literals, collected⟩ := bind_eq_some_iff.mp collected
        exact (ih collected).cons nofun (.inl rfl) found literals
      next known =>
        split at collected
        next same =>
          obtain ⟨items, literals, collected⟩ := bind_eq_some_iff.mp collected
          exact (ih collected).cons (fun e' is => (some.inj is).symm) (.inr same)
            found literals
        next => cases collected

theorem iterToArray_eq {array : List ScalarValue} (built : iterToArray values = some array) :
    array = values := by
  revert built
  fun_cases iterToArray values <;> rintro ⟨⟩
  rfl

theorem holds_values {name : String} {index : Nat}
    (literals : list.mapM extractLiteral = some items) (among : ∀ v ∈ items, v ∈ values)
    (holds : Holds k row (.inList (.column name index) list false)) :
    Holds k row (.inList (.column name index) (values.map .literal) false) := by
  obtain ⟨item, listed, v, w, value, item_, hit⟩ := holds_inList_iff.mp holds
  obtain ⟨lit, there, literal⟩ :=
    Traverse.forall₂_exists_right (Traverse.mapM_eq_some_iff.mp literals) listed
  cases extractLiteral_eq_some.mp literal
  exact holds_inList_iff.mpr
    ⟨.literal lit, mem_map_of_mem (among lit there), v, w, value, item_, hit⟩

theorem collapseCase_holds {accepts : PhysicalExpr → List ScalarValue → Bool}
        (collapsed : collapseCase accepts base whenThen elseExpr = some e)
    (holds : Holds k row (.case base whenThen elseExpr)) : Holds k row e := by
  unfold collapseCase at collapsed
  split at collapsed
  · cases collapsed
  next shape =>
    rw [Bool.or_eq_true, not_or, Bool.not_eq_true', Bool.not_eq_false] at shape
    have closed : elseExpr.any (fun e => !isLiteralFalse e) = false := by
      cases elseExpr <;> simp_all
    obtain ⟨arm, listed, admits, taken⟩ := holds_arm closed holds
    split at collapsed
    · cases collapsed
    next collected =>
      obtain ⟨key, is, -⟩ := (collectArms_collected collected).2.2 arm listed admits
      cases is
    next key values collected =>
      obtain ⟨_, is, e', list, items, found, literals, among, fits⟩ :=
        (collectArms_collected collected).2.2 arm listed admits
      cases is
      obtain ⟨col, column, collapsed⟩ := bind_eq_some_iff.mp collapsed
      obtain ⟨array, built, collapsed⟩ := bind_eq_some_iff.mp collapsed
      obtain ⟨index, rfl⟩ := extractColumn_eq_some.mp column
      split at collapsed <;> cases collapsed
      have conjunct := findMembershipConjunct_holds found taken
      have column : e' = .column col index := fits.elim id fun same => by
        cases e' <;> simp_all [PhysicalExpr.same]
      rw [column] at conjunct
      rw [iterToArray_eq built]
      exact holds_values literals among conjunct

theorem collapse_holds (accepts : PhysicalExpr → List ScalarValue → Bool)
    (holds : Holds k row e) : Holds k row (collapsePartitionedMembership accepts e) := by
  fun_induction collapsePartitionedMembership accepts e with
  | case1 base whenThen elseExpr =>
    cases collapsed : collapseCase accepts base whenThen elseExpr with
    | none => exact holds
    | some e => exact collapseCase_holds collapsed holds
  | case2 l r ihL ihR => exact holds_and_iff.mpr ((holds_and_iff.mp holds).imp ihL ihR)
  | case3 l r ihL ihR => exact holds_or_iff.mpr ((holds_or_iff.mp holds).imp ihL ihR)
  | case4 => exact holds

/-- Runtime filters only widen: a row that the filters accept is kept by the predicate they convert
to, whatever the cap, and by the collapse of each of them. -/
theorem runtime_filters_widen (compares : Compares k) (row : String → ScalarValue) :
    (∀ filters cap p, convertPhysicalFiltersToPredicateCapped filters cap = some p →
      (∀ f ∈ filters, f.FloatFree ∧ Holds k row f) → p.eval row = some true) ∧
    ∀ accepts e, Holds k row e → Holds k row (collapsePartitionedMembership accepts e) :=
  ⟨fun _ _ _ converted accepted => convertPhysicalFilters_keeps compares
    (fun f listed => (accepted f listed).1) converted fun f listed => (accepted f listed).2,
    fun accepts _ holds => collapse_holds accepts holds⟩

end Collapse

/-- Kernels that compare, and know nothing else. -/
def plainKernels : Kernels where
  binary op a b := op.test.bind fun test => compareWith test a b
  other _ _ := none

theorem plainKernels_compares : Compares plainKernels where
  compare op test tested a b _ := by simp [plainKernels, tested]

def int (n : Int) : PhysicalExpr := .literal (.int64 (some n))

/-- A sealed filter of three partitions: the second one is empty, the third has no `x`. -/
def sealedCase : PhysicalExpr :=
  let x : PhysicalExpr := .column "x" 0
  let y : PhysicalExpr := .column "y" 1
  .case (some (.column "p" 2))
    [(int 0, .binary (.inList x [int 1, int 2] false) .and (.binary y .eq (int 5))),
      (int 1, .literal (.boolean (some false))),
      (int 2, .binary (.inList x [] false) .and (.inList y [int 7] false))]
    (some (.literal (.boolean (some false))))

def sealedRow (name : String) : ScalarValue :=
  .int64 (some (if name = "x" then 2 else if name = "y" then 5 else 0))

theorem sealedCase_widens :
    (∃ p, convertPhysicalFiltersToPredicateCapped [sealedCase] 10 = some p ∧
      p.eval sealedRow = some true) ∧
    collapsePartitionedMembership (fun _ _ => true) sealedCase =
      .inList (.column "x" 0) [int 1, int 2] false ∧
    Holds plainKernels sealedRow (collapsePartitionedMembership (fun _ _ => true) sealedCase) := by
  have holds : Holds plainKernels sealedRow sealedCase := by decide +kernel
  have free : sealedCase.FloatFree := by
    simp [sealedCase, int, PhysicalExpr.FloatFree, floatFreeWhens, floatFreeList,
      ScalarValue.dataType, DataType.isFloat]
  have widens := runtime_filters_widen plainKernels_compares sealedRow
  obtain ⟨p, converted⟩ : ∃ p, convertPhysicalFiltersToPredicateCapped [sealedCase] 10 = some p :=
    isSome_iff_exists.mp (by decide +kernel)
  refine ⟨⟨p, converted, ?_⟩, ?_, widens.2 _ _ holds⟩
  · refine widens.1 [sealedCase] 10 p converted fun f listed => ?_
    rw [mem_singleton.mp listed]
    exact ⟨free, holds⟩
  · simp [sealedCase, int, collapsePartitionedMembership, collapseCase, collectArms,
      isLiteralFalse, findMembershipConjunct, extractLiteral, PhysicalExpr.same, extractColumn,
      iterToArray, ScalarValue.dataType]

end Sqe.Catalog.RuntimeFilter
