/- GID: Sqe/Write/MergeSql
   generality: I
   digest: The clauses of a MERGE, and the SELECT that the copy-on-write path compiles them to. -/

import Sqe.Library.OuterJoin

/-!
Values are of any type, `none` is NULL. The text of an expression stands for its value on a joined
row: a function of the target row as the caller sees it and of the source row, an absent side being
all NULL. The aliases are taken to be rewritten to the two scratch relations, and the row-lineage
columns of the third table format are left out.
-/

set_option autoImplicit false

namespace Sqe.Write.MergeSql

open Sqe.Library.OuterJoin

abbrev Name := List Char

abbrev Row (D : Type) (n : Nat) := Fin n → Option D

abbrev Expr (D : Type) (n m : Nat) := Row D n → Row D m → Option D

/-- A condition is TRUE, FALSE or unknown. -/
abbrev Pred (D : Type) (n m : Nat) := Row D n → Row D m → Option Bool

def nulls {D : Type} {n : Nat} : Row D n := fun _ => none

structure Policy (D : Type) (n : Nat) where
  rowFilter : Option (Row D n → Option Bool)
  masks : Fin n → Option (Row D n → Option D)

namespace Policy

variable {D : Type} {n : Nat} (policy : Policy D n) (row : Row D n)

/-- The admit column: TRUE-only. -/
def admits : Bool := policy.rowFilter.all fun filter => filter row == some true

/-- The row through masks and the row-filter guard: a hidden row is all NULL. -/
def seen : Row D n := fun i =>
  if policy.admits row then (policy.masks i).elim (row i) fun mask => mask row else none

end Policy

structure Ident where
  value : Name
  quoted : Bool
deriving DecidableEq

inductive Assignment (E : Type)
  | columnName (name : Ident) (value : E)
  /-- `(a, b) = (x, y)`: the tuple as one expression, and its components. -/
  | tuple (names : List Ident) (value : E) (components : List E)

inductive MergeInsertKind (E : Type)
  | values (rows : List (List E))
  | row

inductive MergeClauseKind
  | matched
  | notMatched
  | notMatchedByTarget
  | notMatchedBySource
deriving DecidableEq

inductive MergeAction (E : Type)
  | update (assignments : List (Assignment E)) (subPredicate : Bool)
  | updateStar
  | delete
  | insert (columns : List Ident) (kind : MergeInsertKind E) (insertPredicate : Bool)
  | insertStar

structure MergeClause (D : Type) (n m : Nat) where
  kind : MergeClauseKind
  predicate : Option (Pred D n m)
  action : MergeAction (Expr D n m)

structure MergeNames (D : Type) (n m : Nat) where
  targetColumns : Fin n → Name
  sourceColumns : Fin m → Name
  distinct : Function.Injective targetColumns
  targetPolicy : Policy D n
  columnDefaults : Fin n → Option D

inductive MergeOp (E : Type)
  | update (assignments : List (Assignment E))
  | delete
  | insert (columns : List Ident) (kind : MergeInsertKind E)

structure ClassifiedClause (D : Type) (n m : Nat) where
  predicate : Option (Pred D n m)
  op : MergeOp (Expr D n m)

inductive MergeError
  | updateSubPredicate
  | insertPredicate
  | starMissing (columns : List Name)
  | updateStarBySource
  | unsupportedClause (kind : MergeClauseKind)
  | cardinalityViolation
  | outsideRowFilter
deriving DecidableEq

section Classify

variable {D : Type} {n m : Nat} (names : MergeNames D n m)

def sourceIndex (column : Name) : Option (Fin m) :=
  (List.finRange m).find? fun j => names.sourceColumns j == column

def sourceColumn (column : Name) : Expr D n m :=
  fun _ source => (sourceIndex names column).bind source

/-- The star forms need every target column in the source. -/
def starColumns : Except MergeError (List (Fin n)) :=
  let missing := (List.finRange n).filter fun i =>
    (sourceIndex names (names.targetColumns i)).isNone
  if missing.isEmpty then .ok (List.finRange n)
  else .error (.starMissing (missing.map names.targetColumns))

def expandUpdateStar : Except MergeError (List (Assignment (Expr D n m))) :=
  (starColumns names).map fun columns => columns.map fun i =>
    .columnName ⟨names.targetColumns i, true⟩ (sourceColumn names (names.targetColumns i))

inductive RowClass
  | matched
  | notMatched
  | bySource
deriving DecidableEq

def classifyClause (clause : MergeClause D n m) :
    Except MergeError (RowClass × ClassifiedClause D n m) :=
  match clause.kind, clause.action with
  | _, .update _ true => .error .updateSubPredicate
  | _, .insert _ _ true => .error .insertPredicate
  | .notMatchedBySource, .updateStar => .error .updateStarBySource
  | .matched, .updateStar => do
    let assignments ← expandUpdateStar names
    pure (.matched, ⟨clause.predicate, .update assignments⟩)
  | .notMatched, .insertStar | .notMatchedByTarget, .insertStar => do
    let _ ← starColumns names
    pure (.notMatched, ⟨clause.predicate, .insert [] .row⟩)
  | .matched, .update assignments false =>
    .ok (.matched, ⟨clause.predicate, .update assignments⟩)
  | .matched, .delete => .ok (.matched, ⟨clause.predicate, .delete⟩)
  | .notMatched, .insert columns kind false | .notMatchedByTarget, .insert columns kind false =>
    .ok (.notMatched, ⟨clause.predicate, .insert columns kind⟩)
  | .notMatchedBySource, .update assignments false =>
    .ok (.bySource, ⟨clause.predicate, .update assignments⟩)
  | .notMatchedBySource, .delete => .ok (.bySource, ⟨clause.predicate, .delete⟩)
  | kind, _ => .error (.unsupportedClause kind)

structure ClassifiedMerge (D : Type) (n m : Nat) where
  matched : List (ClassifiedClause D n m)
  notMatched : List (ClassifiedClause D n m)
  bySource : List (ClassifiedClause D n m)

def ofClass (row : RowClass) (clauses : List (RowClass × ClassifiedClause D n m)) :
    List (ClassifiedClause D n m) :=
  (clauses.filter fun clause => clause.1 = row).map Prod.snd

def classifyMergeClauses (clauses : List (MergeClause D n m)) :
    Except MergeError (ClassifiedMerge D n m) := do
  let classified ← clauses.mapM (classifyClause names)
  pure ⟨ofClass .matched classified, ofClass .notMatched classified, ofClass .bySource classified⟩

end Classify

section Resolve

variable {E : Type}

def Assignment.firstName : Assignment E → Name
  | .columnName name _ => name.value
  | .tuple targets _ _ => (targets.head?.map Ident.value).getD []

def Assignment.value : Assignment E → E
  | .columnName _ value => value
  | .tuple _ value _ => value

/-- The expression a column is set to; a column without one keeps its stored value. -/
def resolveUpdateExpr (column : Name) (assignments : List (Assignment E)) : Option E :=
  (assignments.find? fun assignment => assignment.firstName == column).map Assignment.value

variable {D : Type} {n m : Nat} (names : MergeNames D n m)

/-- The `write_default` of a column, else NULL. -/
def omittedValue (i : Fin n) : Expr D n m := fun _ _ => names.columnDefaults i

def resolveInsertExpr (i : Fin n) (columns : List Ident) (kind : MergeInsertKind (Expr D n m)) :
    Expr D n m :=
  match kind with
  | .values rows =>
    match rows.head? with
    | none => omittedValue names i
    | some row =>
      let position := if columns.isEmpty then
          (sourceIndex names (names.targetColumns i)).map Fin.val
        else columns.findIdx? fun c => c.value == names.targetColumns i
      (position.bind fun p => row[p]?).getD (omittedValue names i)
  | .row =>
    if (sourceIndex names (names.targetColumns i)).isSome then
      sourceColumn names (names.targetColumns i)
    else omittedValue names i

end Resolve

section Select

variable {D : Type} {n m : Nat} (names : MergeNames D n m)

/-- A row of the target relation and the source relation, side by side. -/
abbrev JoinedRow (D : Type) (n m : Nat) := Joined (Row D n) (Row D m)

def targetSeen : JoinedRow D n m → Row D n
  | .both target _ | .left target => names.targetPolicy.seen target
  | .right _ => nulls

def targetRaw : JoinedRow D n m → Row D n
  | .both target _ | .left target => target
  | .right _ => nulls

def sourceRow : JoinedRow D n m → Row D m
  | .both _ source | .right source => source
  | .left _ => nulls

def evalExpr (expr : Expr D n m) (row : JoinedRow D n m) : Option D :=
  expr (targetSeen names row) (sourceRow row)

def passes (predicate : Option (Pred D n m)) (row : JoinedRow D n m) : Bool :=
  predicate.all fun p => p (targetSeen names row) (sourceRow row) == some true

/-- The class conditions, from the presence flags and the admit guard. -/
def classCond : RowClass → JoinedRow D n m → Bool
  | .matched, .both _ _ => true
  | .notMatched, .right _ => true
  | .bySource, .left target => names.targetPolicy.admits target
  | _, _ => false

abbrev Arm (D : Type) (n m : Nat) (γ : Type) := (JoinedRow D n m → Bool) × γ

def caseArm {γ : Type} (row : RowClass) (predicate : Option (Pred D n m)) (value : γ) :
    Arm D n m γ :=
  (fun joined => classCond names row joined && passes names predicate joined, value)

def classArms {γ : Type} (row : RowClass) (clauses : List (ClassifiedClause D n m))
    (value : MergeOp (Expr D n m) → γ) : List (Arm D n m γ) :=
  clauses.map fun clause => caseArm names row clause.predicate (value clause.op)

variable (classified : ClassifiedMerge D n m)

/-- What an arm writes into a column; `none` is the passthrough. -/
def columnValue (i : Fin n) : MergeOp (Expr D n m) → Option (Expr D n m)
  | .update assignments => resolveUpdateExpr (names.targetColumns i) assignments
  | .delete => none
  | .insert columns kind => some (resolveInsertExpr names i columns kind)

variable (joined : JoinedRow D n m)

def projectColumn (i : Fin n) : Option D :=
  let arms := classArms names .matched classified.matched (columnValue names i) ++
    (classArms names .notMatched classified.notMatched (columnValue names i) ++
      classArms names .bySource classified.bySource (columnValue names i))
  (caseWhen arms none joined).elim (targetRaw joined i) fun expr => evalExpr names expr joined

def keepFlag : MergeOp (Expr D n m) → Bool
  | .delete => false
  | _ => true

def mergeKeep : Bool :=
  let sourceOnly : Arm D n m Bool := (classCond names .notMatched, false)
  caseWhen (classArms names .matched classified.matched keepFlag ++
    (classArms names .notMatched classified.notMatched keepFlag ++
      sourceOnly :: classArms names .bySource classified.bySource keepFlag)) true joined

def mergeClaimed : Bool :=
  caseWhen (classArms names .matched classified.matched (fun _ => true) ++
    (classArms names .notMatched classified.notMatched (fun _ => true) ++
      classArms names .bySource classified.bySource (fun _ => true))) false joined

/-- The ON condition with the row filter folded in. -/
def guardedOn (on : Pred D n m) (target : Row D n) (source : Row D m) : Bool :=
  on (names.targetPolicy.seen target) source == some true && names.targetPolicy.admits target

variable (on : Pred D n m) (target : List (Row D n)) (source : List (Row D m))

def joinedRows : List (JoinedRow D n m) := fullOuterJoin (guardedOn names on) target source

def buildMergeSelect : List (Row D n) :=
  ((joinedRows names on target source).filter (mergeKeep names classified)).map
    (projectColumn names classified)

def mergeClaimedCount : Nat :=
  ((joinedRows names on target source).filter (mergeClaimed names classified)).length

/-- Rows the statement writes outside the caller's row filter. -/
def mergeWithCheckCount : Nat :=
  ((joinedRows names on target source).filter fun joined =>
    mergeKeep names classified joined && mergeClaimed names classified joined &&
      !names.targetPolicy.admits (projectColumn names classified joined)).length

/-- The pairs that match, and the target rows that have a match. -/
def cardinalityCounts : Nat × Nat :=
  ((target.flatMap fun t => source.filter (guardedOn names on t)).length,
    (target.filter fun t => source.any (guardedOn names on t)).length)

def emptySourceClaimCount : Nat :=
  (target.filter fun t =>
    (classified.bySource.any fun clause => clause.predicate.isNone ||
      passes names clause.predicate (.left t)) && names.targetPolicy.admits t).length

/-- The rows of the table after the statement, and the affected-row count. -/
def handleMerge (clauses : List (MergeClause D n m)) :
    Except MergeError (List (Row D n) × Nat) := do
  let classified ← classifyMergeClauses names clauses
  if source.isEmpty && classified.bySource.isEmpty then pure (target, 0)
  else
    let counts := cardinalityCounts names on target source
    if !classified.matched.isEmpty && decide (counts.2 < counts.1) then
      .error .cardinalityViolation
    else if decide (0 < mergeWithCheckCount names classified on target source) then
      .error .outsideRowFilter
    else
      let affected := if source.isEmpty then emptySourceClaimCount names classified target
        else mergeClaimedCount names classified on target source
      pure (buildMergeSelect names classified on target source, affected)

end Select

end Sqe.Write.MergeSql
