/- GID: Sqe/Coordinator/AdaptiveSort
   generality: I
   digest: Sort stripping keeps the rows where nothing above a stripped sort reads its order. -/

import Sqe.DataFusion.Physical

/-!
The rule replaces a sort by its input, wherever the sort stands. What the rest of the plan makes
of it depends on who reads the order: a stripped sort is harmless when every operator above it, up
to the next sort that is kept, takes its input in any order. `Safe` follows that demand down the
plan.
-/

set_option autoImplicit false

namespace Sqe.Coordinator.AdaptiveSort

open Sqe.Library Sqe.DataFusion.Physical List

inductive SortMode
  | strict
  | partitionOnly
  | adaptive
  deriving DecidableEq

inductive MemoryPressure
  | green
  | yellow
  | orange
  | red
  deriving DecidableEq

def MemoryPressure.name : MemoryPressure → String
  | .green => "green"
  | .yellow => "yellow"
  | .orange => "orange"
  | .red => "red"

structure SortDecision where
  sortColumns : List String
  kept : Bool
  reason : String

def decideSort (sortMode : SortMode) (pressure : MemoryPressure) (isPartitionSort hasFetch : Bool) :
    Bool :=
  if hasFetch then true
  else match sortMode with
    | .strict => true
    | .partitionOnly => isPartitionSort
    | .adaptive => if pressure = .green then true else isPartitionSort

/-- The partition columns of the first scan that the stack leads to; its head is its top. -/
def searchPartitionColumns (stack : List ExecutionPlan) : List String :=
  match stack with
  | [] => []
  | .node op children :: rest => match op with
      | .icebergScan scan => scan.partitionColumnNames
      | _ => searchPartitionColumns (children.reverse ++ rest)
termination_by Tree.countAll stack
decreasing_by
  simp only [unattach_reverse, unattach_attach, Tree.countAll_append,
    Tree.countAll_reverse, Tree.countAll, Tree.count]
  omega

def findPartitionColumns (plan : ExecutionPlan) : List String := searchPartitionColumns [plan]

section Rule

-- `display` gives the text of an expression that is not a column.
variable (display : PhysicalExpr → String)

def extractSortColumnNames (sort : SortExec) : List String :=
  sort.expr.map fun sortExpr => match sortExpr.expr.label with
    | .column name _ => name
    | .other _ => display sortExpr.expr

def isPartitionSort (sort : SortExec) (input : ExecutionPlan) : Bool :=
  !(extractSortColumnNames display sort).isEmpty &&
    (extractSortColumnNames display sort).all (findPartitionColumns input).contains

variable (sortMode : SortMode) (pressure : MemoryPressure)

def keeps (sort : SortExec) (input : ExecutionPlan) : Bool :=
  decideSort sortMode pressure (isPartitionSort display sort input) sort.fetch.isSome

def reason (sort : SortExec) (input : ExecutionPlan) : String :=
  if sort.fetch.isSome then "TopK sort (has LIMIT) — always kept"
  else if keeps display sortMode pressure sort input then match sortMode with
    | .strict => "strict mode — always keep"
    | .partitionOnly => "partition-only mode — sort keys match partition columns"
    | .adaptive => "adaptive mode — pressure=" ++ pressure.name ++ ", partition sort"
  else match sortMode with
    | .partitionOnly => "partition-only mode — sort keys [" ++
        ", ".intercalate (extractSortColumnNames display sort) ++
        "] are not partition columns [" ++ ", ".intercalate (findPartitionColumns input) ++ "]"
    | .adaptive => "adaptive mode — pressure=" ++ pressure.name ++ ", non-partition sort stripped"
    | .strict => "" -- strict mode keeps every sort

def decision : ExecutionPlan → Option SortDecision
  | .node (.sort sort) (input :: _) => some
      { sortColumns := extractSortColumnNames display sort
        kept := keeps display sortMode pressure sort input
        reason := reason display sortMode pressure sort input }
  | _ => none

def stripSort : ExecutionPlan → ExecutionPlan
  | .node (.sort sort) (input :: rest) =>
    if keeps display sortMode pressure sort input then .node (.sort sort) (input :: rest) else input
  | plan => plan

theorem stripSort_eq (plan : ExecutionPlan) :
    stripSort display sortMode pressure plan = plan ∨
      ∃ sort input rest, plan = .node (.sort sort) (input :: rest) ∧
        keeps display sortMode pressure sort input = false ∧
        stripSort display sortMode pressure plan = input := by
  unfold stripSort
  split
  next sort input rest =>
    split
    · exact .inl rfl
    next stripped => exact .inr ⟨sort, input, rest, rfl, by simpa using stripped, rfl⟩
  next => exact .inl rfl

theorem count_stripSort (plan child : ExecutionPlan)
    (below : child ∈ (stripSort display sortMode pressure plan).children) :
    child.count < plan.count := by
  rcases stripSort_eq display sortMode pressure plan with same | ⟨sort, input, rest, rfl, -, same⟩
  · rw [same] at below
    exact Tree.count_lt_of_mem below
  · rw [same] at below
    have inner := Tree.count_lt_of_mem below
    have outer : input.count < (Library.Tree.node (.sort sort) (input :: rest)).count :=
      Tree.count_lt_of_mem mem_cons_self
    omega

/-- The plan of a walk that every operator lets come to its end. -/
def strip (plan : ExecutionPlan) : ExecutionPlan :=
  plan.transformDown (stripSort display sortMode pressure) Tree.count
    (count_stripSort display sortMode pressure)

variable (accepts : Operator → List ExecutionPlan → Bool)

/-- Each sort of the plan is kept or replaced by its input. An operator may refuse its new inputs
(`with_new_children`); the plan is then returned as it was. -/
def applyAdaptiveSort (plan : ExecutionPlan) : ExecutionPlan × List SortDecision :=
  if sortMode = .strict then (plan, [])
  else
    let walk := plan.walkDown (stripSort display sortMode pressure) accepts Tree.count
      (count_stripSort display sortMode pressure)
    (walk.2.getD plan, walk.1.filterMap (decision display sortMode pressure))

theorem applyAdaptiveSort_eq (plan : ExecutionPlan) :
    (applyAdaptiveSort display sortMode pressure accepts plan).1 = plan ∨
      (applyAdaptiveSort display sortMode pressure accepts plan).1 =
        strip display sortMode pressure plan := by
  unfold applyAdaptiveSort
  split
  · exact .inl rfl
  · cases walked : (plan.walkDown (stripSort display sortMode pressure) accepts Tree.count
      (count_stripSort display sortMode pressure)).2 with
    | none => exact .inl (by simp [walked])
    | some result =>
      have complete := Tree.eq_transformDown_of_walkDown walked
      exact .inr (by simp only [walked, Option.getD_some, complete, strip])

theorem applyAdaptiveSort_of_accepts (plan : ExecutionPlan) (lenient : sortMode ≠ .strict) :
    (applyAdaptiveSort display sortMode pressure (fun _ _ => true) plan).1 =
      strip display sortMode pressure plan := by
  rw [applyAdaptiveSort, if_neg lenient]
  dsimp only
  rw [Tree.walkDown_eq_transformDown fun _ _ => rfl]
  rfl

end Rule

/-- Whether the order of an operator's inputs matters, where that of its output does or does not. -/
def demand (ordered : Bool) : Operator → Bool
  | .sort _ => false
  | op => ordered || op.readsOrder

section Safe

variable {ρ : Type} (sem : Semantics ρ) (display : PhysicalExpr → String) (sortMode : SortMode)
  (pressure : MemoryPressure)

/-- No stripped sort is read for its order: between it and any operator above that reads the order
of its input stands a sort that is kept. A stripped sort of one partition has an input of one
partition, as it requires. The flag says whether the order of the plan's output is read. -/
inductive Safe : Bool → ExecutionPlan → Prop
  | kept {ordered : Bool} {plan : ExecutionPlan}
      (same : stripSort display sortMode pressure plan = plan)
      (below : ∀ child ∈ plan.children, Safe (demand ordered plan.label) child) :
      Safe ordered plan
  | stripped {sort : SortExec} {input : ExecutionPlan}
      (strips : keeps display sortMode pressure sort input = false)
      (one : sort.preservePartitioning = false → sem.partitions input = 1)
      (below : ∀ child ∈ input.children, Safe (demand false input.label) child) :
      Safe false (.node (.sort sort) [input])

end Safe

section Sound

variable {ρ : Type} {sem : Semantics ρ}

/-- How near two results are, where their order is read or not. -/
def Near (ordered : Bool) (output output' : Partitions ρ) : Prop :=
  if ordered then output = output' else Reordered output output'

theorem near_refl (ordered : Bool) (a : Partitions ρ) : Near ordered a a := by
  cases ordered with
  | true => exact (rfl : a = a)
  | false => exact Reordered.refl a

variable {inputs inputs' : List (Partitions ρ)} {plan : ExecutionPlan} {ordered : Bool}

theorem forall₂_near_true (near : List.Forall₂ (Near true) inputs inputs') : inputs = inputs' := by
  induction near with
  | nil => rfl
  | cons here _ ih => rw [show _ = _ from here, ih]

theorem exec_near {op : Operator} {output : Partitions ρ}
    (near : List.Forall₂ (Near (ordered || op.readsOrder)) inputs inputs')
    (here : sem.exec op inputs output) :
    ∃ output', sem.exec op inputs' output' ∧ Near ordered output output' := by
  cases reads : ordered || op.readsOrder with
  | true =>
    rw [reads] at near
    obtain rfl := forall₂_near_true near
    exact ⟨output, here, near_refl ordered output⟩
  | false =>
    rw [reads] at near
    obtain ⟨rfl, ignores⟩ := Bool.or_eq_false_iff.mp reads
    exact sem.exec_reordered op inputs inputs' output ignores near here

theorem step_near {op : Operator} {output : Partitions ρ}
    (near : List.Forall₂ (Near (demand ordered op)) inputs inputs')
    (here : sem.step op inputs output) :
    ∃ output', sem.step op inputs' output' ∧ Near ordered output output' := by
  cases op with
  | sort sort => exact ⟨output, Semantics.step_sort_of_reordered near here, near_refl _ _⟩
  | icebergScan scan => exact exec_near near here
  | other op => exact exec_near near here

variable (sem) in
def Agree (ordered : Bool) (plan plan' : ExecutionPlan) : Prop :=
  Tree.Refines sem.step (Near ordered) plan plan' ∧ Tree.Refines sem.step (Near ordered) plan' plan

theorem Agree.node {plan' : ExecutionPlan} (label : plan'.label = plan.label)
    (children : List.Forall₂ (Agree sem (demand ordered plan.label)) plan.children plan'.children) :
    Agree sem ordered plan plan' := by
  constructor
  · refine Tree.Refines.node (children.imp fun _ _ agree => agree.1) ?_
    intro inputs inputs' output near here
    rw [label]
    exact step_near near here
  · refine Tree.Refines.node (children.flip.imp fun _ _ agree => agree.2) ?_
    intro inputs inputs' output near here
    rw [label] at here
    exact step_near near here

theorem Agree.trans {a b c : ExecutionPlan} (first : Agree sem false a b)
    (second : Agree sem false b c) : Agree sem false a c := by
  constructor
  · intro output run
    obtain ⟨middle, run', near⟩ := first.1 output run
    obtain ⟨output', run'', near'⟩ := second.1 middle run'
    exact ⟨output', run'', Reordered.trans near near'⟩
  · intro output run
    obtain ⟨middle, run', near⟩ := second.2 output run
    obtain ⟨output', run'', near'⟩ := first.2 middle run'
    exact ⟨output', run'', Reordered.trans near near'⟩

theorem agree_input {sort : SortExec} {input : ExecutionPlan} (unlimited : sort.fetch = none)
    (one : sort.preservePartitioning = false → sem.partitions input = 1) :
    Agree sem false (.node (.sort sort) [input]) input := by
  constructor
  · intro output run
    obtain ⟨inputs, below, here⟩ := Tree.runs_iff.mp run
    obtain _ | ⟨run', ⟨⟩⟩ := below
    have counted := Semantics.length_eq_partitions run'
    have same := Semantics.reordered_of_step_sort unlimited
      (fun merges => counted.trans (one merges)) here
    exact ⟨_, run', same.symm⟩
  · intro output run
    have counted := Semantics.length_eq_partitions run
    obtain ⟨sorted, here, same⟩ := Semantics.exists_step_sort unlimited
      fun merges => counted.trans (one merges)
    exact ⟨sorted, Tree.runs_iff.mpr ⟨[output], .cons run .nil, here⟩, same⟩

variable {display : PhysicalExpr → String} {sortMode : SortMode} {pressure : MemoryPressure}

theorem strip_eq (plan : ExecutionPlan) : strip display sortMode pressure plan =
    .node (stripSort display sortMode pressure plan).label
      ((stripSort display sortMode pressure plan).children.map (strip display sortMode pressure)) :=
  Tree.transformDown_eq _ _ _ plan

theorem agree_strip (safe : Safe sem display sortMode pressure ordered plan) :
    Agree sem ordered plan (strip display sortMode pressure plan) := by
  induction safe with
  | kept same _ ih =>
    rw [strip_eq, same]
    refine Agree.node rfl ?_
    exact forall₂_map_right_iff.mpr (forall₂_same.mpr ih)
  | @stripped sort input strips one _ ih =>
    have replaced : stripSort display sortMode pressure (.node (.sort sort) [input]) = input := by
      simp [stripSort, strips]
    have unlimited : sort.fetch = none := by
      cases limit : sort.fetch with
      | none => rfl
      | some n => simp [keeps, decideSort, limit] at strips
    rw [strip_eq, replaced]
    refine (agree_input unlimited one).trans (Agree.node rfl ?_)
    exact forall₂_map_right_iff.mpr (forall₂_same.mpr ih)

theorem Agree.sameRows {plan' : ExecutionPlan} (agree : Agree sem false plan plan') :
    sem.SameRows plan plan' := by
  constructor
  · intro output run
    obtain ⟨output', run', near⟩ := agree.1 output run
    exact ⟨output', run', (Reordered.flatten_perm near).symm⟩
  · intro output' run'
    obtain ⟨output, run, near⟩ := agree.2 output' run'
    exact ⟨output, run, Reordered.flatten_perm near⟩

/-- Where no stripped sort is read for its order, the plan returned gives the rows of the plan. -/
theorem adaptive_sort_keeps_rows (accepts : Operator → List ExecutionPlan → Bool)
    (plan : ExecutionPlan) (safe : Safe sem display sortMode pressure false plan) :
    sem.SameRows plan (applyAdaptiveSort display sortMode pressure accepts plan).1 := by
  rcases applyAdaptiveSort_eq display sortMode pressure accepts plan with same | stripped
  · rw [same]
    exact Semantics.SameRows.refl plan
  · rw [stripped]
    exact (agree_strip safe).sameRows

end Sound

namespace Sample

/-- Rows of a value and a row number, ordered by the value. The scan gives the values 2 and 1; an
operator that reads the order of its input numbers the rows, any other passes them on. -/
def sem : Semantics (Nat × Nat) where
  le _ a b := a.1 ≤ b.1
  le_trans _ a b c := by simpa using Nat.le_trans
  le_total _ a b := by simpa using Nat.le_total a.1 b.1
  exec op inputs output := match op, inputs with
    | .icebergScan _, [] => output = [[(2, 0), (1, 0)]]
    | .other op, [input] =>
      if Operator.readsOrder (.other op) then
        output = input.map fun rows => rows.mapIdx fun i row => (row.1, i + 1)
      else output = input
    | _, _ => False
  partitionCount
    | .icebergScan _, _ => 1
    | _, counts => counts.headD 0
  exec_length op inputs output here := by
    split at here
    · simp [here]
    · split at here <;> simp [here]
    · cases here
  exec_reordered op inputs inputs' output ignores near here := by
    split at here
    · cases near
      exact ⟨output, here, .refl output⟩
    · obtain _ | ⟨same, ⟨⟩⟩ := near
      rw [if_neg (by simp [ignores])] at here
      exact ⟨_, by simp [ignores], here ▸ same⟩
    · cases here

def scan : ExecutionPlan := .node (.icebergScan ⟨"t", []⟩) []

def byValue : List PhysicalSortExpr := [⟨.column "v" 0, ⟨false, false⟩⟩]

def sorted : ExecutionPlan := .node (.sort ⟨byValue, none, false⟩) [scan]

def filter : ExecutionPlan := .node (.other ⟨"FilterExec", [none], 0, none⟩) [sorted]

def window : ExecutionPlan :=
  .node (.other ⟨"BoundedWindowAggExec", [some byValue], 0, none⟩) [sorted]

def apply (plan : ExecutionPlan) : ExecutionPlan :=
  (applyAdaptiveSort (fun _ => "") .partitionOnly .green (fun _ _ => true) plan).1

theorem sort_stripped : keeps (fun _ => "") .partitionOnly .green ⟨byValue, none, false⟩ scan =
    false := by
  simp [keeps, decideSort, isPartitionSort, extractSortColumnNames, findPartitionColumns,
    searchPartitionColumns, scan, byValue, PhysicalExpr.column, Tree.label]

theorem apply_node (op : OtherExec) :
    apply (.node (.other op) [sorted]) = .node (.other op) [scan] := by
  have strips : stripSort (fun _ => "") .partitionOnly .green sorted = scan := by
    rw [sorted, stripSort, sort_stripped]
    rfl
  rw [apply, applyAdaptiveSort_of_accepts _ _ _ _ (by decide), strip_eq]
  change Library.Tree.node _ [strip _ _ _ sorted] = _
  rw [strip_eq, strips]
  rfl

theorem runs_scan {output : Partitions (Nat × Nat)} :
    sem.Runs scan output ↔ output = [[(2, 0), (1, 0)]] := by
  constructor
  · intro run
    obtain ⟨inputs, below, here⟩ := Tree.runs_iff.mp run
    cases below
    exact here
  · rintro rfl
    exact Tree.runs_iff.mpr ⟨[], .nil, rfl⟩

end Sample

theorem filtered_sort_keeps_rows :
    Sample.apply Sample.filter = .node Sample.filter.label [Sample.scan] ∧
      Sample.sem.SameRows Sample.filter (Sample.apply Sample.filter) := by
  refine ⟨Sample.apply_node _, adaptive_sort_keeps_rows _ _ (.kept rfl ?_)⟩
  intro child below
  obtain rfl : child = Sample.sorted := by simpa [Sample.filter, Tree.children] using below
  refine .stripped Sample.sort_stripped (fun _ => ?_) ?_
  · rfl
  · intro child below
    cases below

/-- Without its sort, the window function numbers 2 before 1. -/
theorem window_over_stripped_sort :
    ¬ Sample.sem.SameRows Sample.window (Sample.apply Sample.window) := by
  rintro ⟨-, same⟩
  have misnumbered : Sample.sem.Runs (Sample.apply Sample.window) [[(2, 1), (1, 2)]] := by
    rw [Sample.window, Sample.apply_node]
    exact Tree.runs_iff.mpr ⟨_, .cons (Sample.runs_scan.mpr rfl) .nil, rfl⟩
  obtain ⟨output, run, perm⟩ := same _ misnumbered
  obtain ⟨inputs, below, numbered⟩ := Tree.runs_iff.mp run
  obtain _ | ⟨run', ⟨⟩⟩ := below
  obtain ⟨inputs, below', here⟩ := Tree.runs_iff.mp run'
  obtain _ | ⟨run'', ⟨⟩⟩ := below'
  obtain rfl := Sample.runs_scan.mp run''
  obtain ⟨_, _, rows, ⟨⟩, rfl, _, same', ordered, rfl⟩ := here
  obtain rfl : output = [rows.mapIdx fun i row => (row.1, i + 1)] := numbered
  have first : (2, 1) ∈ rows.mapIdx fun i row => (row.1, i + 1) := by
    simpa using perm.subset mem_cons_self
  obtain ⟨i, bound, here⟩ := mem_mapIdx.mp first
  obtain ⟨value, rfl⟩ : rows[i].1 = 2 ∧ i = 0 := by simpa using here
  -- The row of 1 does not stand before that of 2, which is the first.
  obtain ⟨j, bound', at'⟩ := getElem_of_mem (same'.mem_iff.mpr (by decide : (1, 0) ∈ _))
  rcases Nat.eq_zero_or_pos j with rfl | later
  · simp [at'] at value
  · have le := pairwise_iff_getElem.mp ordered 0 j bound bound' later
    simp [Sample.sem, at', value] at le

end Sqe.Coordinator.AdaptiveSort
