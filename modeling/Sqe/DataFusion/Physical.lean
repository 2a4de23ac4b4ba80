/- GID: Sqe/DataFusion/Physical
   generality: G
   digest: Physical plans as trees of operators, and the partitions of rows they can give. -/

import Sqe.Library.Tree
import Mathlib.Data.List.Sort

/-!
Only the operators that the physical rules look at are spelled out. Any other operator is known by
its name and by what `ExecutionPlan` says about it. What the operators compute is DataFusion's:
`Semantics` holds what they may give for the partitions of their inputs, and the two facts about
them that their documentation states.
-/

set_option autoImplicit false

namespace Sqe.DataFusion.Physical

open Sqe.Library List

/-- A node of a physical expression: a column, or anything else by its text. -/
inductive ExprNode
  | column (name : String) (index : Nat)
  | other (text : String)
  deriving DecidableEq

abbrev PhysicalExpr := Library.Tree ExprNode

def PhysicalExpr.column (name : String) (index : Nat) : PhysicalExpr :=
  .node (.column name index) []

structure SortOptions where
  descending : Bool
  nullsFirst : Bool
  deriving DecidableEq

structure PhysicalSortExpr where
  expr : PhysicalExpr
  options : SortOptions

structure SortExec where
  expr : List PhysicalSortExpr
  fetch : Option Nat
  preservePartitioning : Bool

structure IcebergScanExec where
  table : String
  partitionColumnNames : List String

/-- An operator no rule inspects, with its answers to the `ExecutionPlan` methods: the ordering it
requires of each input, and the rows a limit skips and fetches. -/
structure OtherExec where
  name : String
  requiredInputOrdering : List (Option (List PhysicalSortExpr))
  skip : Nat
  fetch : Option Nat

inductive Operator
  | sort (exec : SortExec)
  | icebergScan (exec : IcebergScanExec)
  | other (exec : OtherExec)

abbrev ExecutionPlan := Library.Tree Operator

/-- The operator's result depends on the order of its inputs: it requires one, or takes rows by
their position. A sort reads any order. -/
def Operator.readsOrder : Operator → Bool
  | .sort _ | .icebergScan _ => false
  | .other op => op.requiredInputOrdering.any Option.isSome || op.fetch.isSome || op.skip != 0

theorem exists_forall₂ {α β : Type} {related : α → β → Prop} {xs : List α}
    (total : ∀ x ∈ xs, ∃ y, related x y) : ∃ ys, List.Forall₂ related xs ys := by
  induction xs with
  | nil => exact ⟨[], .nil⟩
  | cons x rest ih =>
    obtain ⟨y, here⟩ := total x mem_cons_self
    obtain ⟨ys, later⟩ := ih (forall_mem_cons.mp total).2
    exact ⟨y :: ys, .cons here later⟩

abbrev Partitions (ρ : Type) := List (List ρ)

/-- The same rows in every partition, in any order. -/
def Reordered {ρ : Type} : Partitions ρ → Partitions ρ → Prop := List.Forall₂ List.Perm

section Reordered

variable {ρ : Type} {a b c : Partitions ρ}

theorem Reordered.refl (a : Partitions ρ) : Reordered a a :=
  forall₂_same.mpr fun rows _ => .refl rows

theorem Reordered.symm (same : Reordered a b) : Reordered b a :=
  (List.Forall₂.imp (fun _ _ perm => List.Perm.symm perm) same).flip

theorem Reordered.trans (first : Reordered a b) (second : Reordered b c) : Reordered a c := by
  induction first generalizing c with
  | nil => exact second
  | cons perm _ ih =>
    cases second with
    | cons perm' later => exact .cons (perm.trans perm') (ih later)

theorem Reordered.flatten_perm (same : Reordered a b) : a.flatten.Perm b.flatten := by
  induction same with
  | nil => exact .refl _
  | cons perm _ ih => exact perm.append ih

end Reordered

structure Semantics (ρ : Type) where
  /-- One row may stand before another in the order of the sort expressions. -/
  le : List PhysicalSortExpr → ρ → ρ → Bool
  le_trans : ∀ exprs a b c, le exprs a b → le exprs b c → le exprs a c
  le_total : ∀ exprs a b, le exprs a b || le exprs b a
  /-- What an operator other than a sort may give for these inputs. -/
  exec : Operator → List (Partitions ρ) → Partitions ρ → Prop
  /-- `output_partitioning().partition_count()`, from the counts of the inputs. -/
  partitionCount : Operator → List Nat → Nat
  exec_length : ∀ op inputs output, exec op inputs output →
    output.length = partitionCount op (inputs.map List.length)
  /-- An operator that does not read the order of its inputs gives the same rows for any order. -/
  exec_reordered : ∀ op inputs inputs' output, op.readsOrder = false →
    List.Forall₂ Reordered inputs inputs' → exec op inputs output →
    ∃ output', exec op inputs' output' ∧ Reordered output output'

namespace Semantics

variable {ρ : Type} (sem : Semantics ρ)

/-- A sort of one partition: its rows in order, the first `fetch` of them. -/
def Sorts (sort : SortExec) (rows output : List ρ) : Prop :=
  ∃ sorted, sorted.Perm rows ∧ sorted.Pairwise (fun a b => sem.le sort.expr a b) ∧
    output = match sort.fetch with
      | none => sorted
      | some n => sorted.take n

/-- What an operator may give. A sort that does not preserve the partitions has one partition,
and reads the first one of its input for it. -/
def step : Operator → List (Partitions ρ) → Partitions ρ → Prop
  | .sort sort, inputs, output =>
    if sort.preservePartitioning then
      ∃ input, inputs = [input] ∧ List.Forall₂ (sem.Sorts sort) input output
    else
      ∃ first rest sorted, inputs = [first :: rest] ∧ output = [sorted] ∧
        sem.Sorts sort first sorted
  | op, inputs, output => sem.exec op inputs output

abbrev Runs (plan : ExecutionPlan) (output : Partitions ρ) : Prop := Tree.Runs sem.step plan output

def outputCount : Operator → List Nat → Nat
  | .sort sort, counts => if sort.preservePartitioning then counts.headD 0 else 1
  | op, counts => sem.partitionCount op counts

def partitions (plan : ExecutionPlan) : Nat := plan.fold sem.outputCount

def SameRows (plan plan' : ExecutionPlan) : Prop :=
  (∀ output, sem.Runs plan output → ∃ output', sem.Runs plan' output' ∧
    output'.flatten.Perm output.flatten) ∧
  ∀ output', sem.Runs plan' output' → ∃ output, sem.Runs plan output ∧
    output'.flatten.Perm output.flatten

variable {sem}

theorem SameRows.refl (plan : ExecutionPlan) : sem.SameRows plan plan :=
  ⟨fun output run => ⟨output, run, .refl _⟩, fun output run => ⟨output, run, .refl _⟩⟩

variable {sort : SortExec} {output input : Partitions ρ} {inputs : List (Partitions ρ)}

theorem Sorts.of_perm {rows rows' output : List ρ}
    (sorts : sem.Sorts sort rows output) (perm : rows.Perm rows') :
    sem.Sorts sort rows' output := by
  obtain ⟨sorted, same, ordered, taken⟩ := sorts
  exact ⟨sorted, same.trans perm, ordered, taken⟩

theorem exists_sorts (unlimited : sort.fetch = none) (rows : List ρ) :
    ∃ output, sem.Sorts sort rows output ∧ rows.Perm output := by
  have perm := mergeSort_perm rows (sem.le sort.expr)
  refine ⟨rows.mergeSort (sem.le sort.expr), ⟨_, perm, ?_, ?_⟩, perm.symm⟩
  · exact pairwise_mergeSort (sem.le_trans sort.expr) (sem.le_total sort.expr) rows
  · rw [unlimited]

theorem Sorts.perm (unlimited : sort.fetch = none) {rows output : List ρ}
    (sorts : sem.Sorts sort rows output) : rows.Perm output := by
  obtain ⟨sorted, same, -, taken⟩ := sorts
  rw [unlimited] at taken
  exact taken ▸ same.symm

theorem forall₂_sorts_of_reordered {input' : Partitions ρ}
    (same : Reordered input input') (sorts : List.Forall₂ (sem.Sorts sort) input output) :
    List.Forall₂ (sem.Sorts sort) input' output := by
  induction same generalizing output with
  | nil => exact sorts
  | cons perm _ ih =>
    cases sorts with
    | cons first later => exact .cons (first.of_perm perm) (ih later)

theorem step_sort_of_reordered {inputs' : List (Partitions ρ)}
    (same : List.Forall₂ Reordered inputs inputs') (here : sem.step (.sort sort) inputs output) :
    sem.step (.sort sort) inputs' output := by
  simp only [step] at here ⊢
  split_ifs at here ⊢
  · obtain ⟨input, rfl, sorts⟩ := here
    obtain _ | ⟨perms, ⟨⟩⟩ := same
    exact ⟨_, rfl, forall₂_sorts_of_reordered perms sorts⟩
  · obtain ⟨first, rest, sorted, rfl, rfl, sorts⟩ := here
    obtain _ | ⟨_ | ⟨perm, _⟩, ⟨⟩⟩ := same
    exact ⟨_, _, sorted, rfl, rfl, sorts.of_perm perm⟩

theorem reordered_of_step_sort (unlimited : sort.fetch = none)
    (one : sort.preservePartitioning = false → input.length = 1)
    (here : sem.step (.sort sort) [input] output) : Reordered input output := by
  simp only [step] at here
  split at here
  next =>
    obtain ⟨_, ⟨⟩, sorts⟩ := here
    exact sorts.imp fun _ _ sorts => sorts.perm unlimited
  next merges =>
    obtain ⟨first, rest, sorted, ⟨⟩, rfl, sorts⟩ := here
    obtain rfl : rest = [] := length_eq_zero_iff.mp
      (Nat.succ.inj (one (Bool.eq_false_of_not_eq_true merges)))
    exact .cons (sorts.perm unlimited) .nil

theorem exists_step_sort (unlimited : sort.fetch = none)
    (one : sort.preservePartitioning = false → input.length = 1) :
    ∃ output, sem.step (.sort sort) [input] output ∧ Reordered input output := by
  suffices ∃ output, sem.step (.sort sort) [input] output by
    obtain ⟨output, here⟩ := this
    exact ⟨output, here, reordered_of_step_sort unlimited one here⟩
  simp only [step]
  split
  next =>
    have total : ∀ rows ∈ input, ∃ output, sem.Sorts sort rows output := fun rows _ =>
      (exists_sorts unlimited rows).imp fun _ sorts => sorts.1
    obtain ⟨output, sorts⟩ := exists_forall₂ total
    exact ⟨output, input, rfl, sorts⟩
  next merges =>
    obtain ⟨rows, rfl⟩ := length_eq_one_iff.mp (one (Bool.eq_false_of_not_eq_true merges))
    obtain ⟨sorted, sorts, -⟩ := exists_sorts unlimited rows
    exact ⟨[sorted], rows, [], sorted, rfl, rfl, sorts⟩

theorem step_length {op : Operator} (here : sem.step op inputs output) :
    output.length = sem.outputCount op (inputs.map List.length) := by
  cases op with
  | sort sort =>
    simp only [step] at here
    split at here
    next keeps =>
      obtain ⟨input, rfl, sorts⟩ := here
      simpa [outputCount, keeps] using sorts.length_eq.symm
    next merges =>
      obtain ⟨_, _, _, _, rfl, _⟩ := here
      simp [outputCount, merges]
  | icebergScan => exact sem.exec_length _ _ _ here
  | other => exact sem.exec_length _ _ _ here

theorem map_length_eq {children : List ExecutionPlan}
    (counted : ∀ child ∈ children, ∀ {output}, sem.Runs child output →
      output.length = sem.partitions child)
    (below : List.Forall₂ (Tree.Runs sem.step) children inputs) :
    inputs.map List.length = children.map sem.partitions := by
  induction below with
  | nil => rfl
  | cons first _ rest =>
    rw [map_cons, map_cons, counted _ mem_cons_self first, rest (forall_mem_cons.mp counted).2]

theorem length_eq_partitions {plan : ExecutionPlan}
    (run : sem.Runs plan output) : output.length = sem.partitions plan := by
  induction plan using Tree.induct generalizing output with
  | step plan ih =>
    obtain ⟨inputs, below, here⟩ := Tree.runs_iff.mp run
    rw [step_length here, map_length_eq ih below, partitions, Tree.fold_eq]
    rfl

end Semantics

end Sqe.DataFusion.Physical
