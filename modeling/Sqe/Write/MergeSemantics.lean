/- GID: Sqe/Write/MergeSemantics
   generality: I
   digest: What a MERGE statement means, and when the compiled SELECT computes it. -/

import Mathlib.Data.Fintype.Basic
import Sqe.Library.Traverse
import Sqe.Write.MergeSql

set_option autoImplicit false

namespace Sqe.Write.MergeSql

open Sqe.Library.OuterJoin Option
open Sqe.Library List

/-- The name an identifier stands for: one without quotes folds to lower case. -/
def Ident.meant (ident : Ident) : Name :=
  if ident.quoted then ident.value else ident.value.map Char.toLower

/-- The columns an assignment sets, each with its expression. -/
def Assignment.sets {E : Type} : Assignment E → List (Name × E)
  | .columnName name value => [(name.meant, value)]
  | .tuple targets _ components => (targets.map Ident.meant).zip components

section Meaning

variable {D : Type} {n m : Nat} (names : MergeNames D n m)

/-- What an action sets a column of a target row to, if it sets it. -/
def meantUpdate (i : Fin n) : MergeAction (Expr D n m) → Option (Expr D n m)
  | .update assignments _ =>
    ((assignments.flatMap Assignment.sets).find? fun set =>
      set.1 == names.targetColumns i).map Prod.snd
  | .updateStar => some (sourceColumn names (names.targetColumns i))
  | _ => none

/-- What an action fills a column of a new row with. -/
def meantInsert (i : Fin n) : MergeAction (Expr D n m) → Expr D n m
  | .insert columns (.values (row :: _)) _ =>
    let position := if columns.isEmpty then some i.val
      else columns.findIdx? fun c => c.meant == names.targetColumns i
    (position.bind fun p => row[p]?).getD (omittedValue names i)
  | .insert _ .row _ | .insertStar =>
    if (sourceIndex names (names.targetColumns i)).isSome then
      sourceColumn names (names.targetColumns i)
    else omittedValue names i
  | _ => omittedValue names i

def classOf : MergeClauseKind → RowClass
  | .matched => .matched
  | .notMatched | .notMatchedByTarget => .notMatched
  | .notMatchedBySource => .bySource

variable (clauses : List (MergeClause D n m))

/-- The first clause of a class whose predicate is TRUE on the row. -/
def firstClause (row : RowClass) (joined : JoinedRow D n m) : Option (MergeClause D n m) :=
  clauses.find? fun clause => classOf clause.kind = row && passes names clause.predicate joined

/-- What becomes of a target row under the clauses of a class. -/
def meantTarget (row : RowClass) (joined : JoinedRow D n m) : List (Row D n) :=
  match firstClause names clauses row joined with
  | none => [targetRaw joined]
  | some clause =>
    match clause.action with
    | .delete => []
    | action => [fun i => (meantUpdate names i action).elim (targetRaw joined i) fun expr =>
      evalExpr names expr joined]

variable (on : Pred D n m) (target : List (Row D n)) (source : List (Row D m))

/-- A hidden row stays; a visible one is matched, or not matched by the source. -/
def mergedTarget (t : Row D n) : List (Row D n) :=
  if names.targetPolicy.admits t then
    match source.filter (guardedOn names on t) with
    | [] => meantTarget names clauses .bySource (.left t)
    | s :: _ => meantTarget names clauses .matched (.both t s)
  else [t]

/-- The row a source row that matches no visible target row is inserted as. -/
def mergedSource (s : Row D m) : List (Row D n) :=
  match firstClause names clauses .notMatched (.right s) with
  | none => []
  | some clause => [fun i => evalExpr names (meantInsert names i clause.action) (.right s)]

def mergedTable : List (Row D n) :=
  target.flatMap (mergedTarget names clauses on source) ++
    (unmatchedRight (guardedOn names on) target source).flatMap (mergedSource names clauses)

end Meaning

section Spelled

variable {D : Type} {n m : Nat} (names : MergeNames D n m)

/-- The identifier names the same column of the target, or none, whether it is folded or not. -/
def Ident.Plain (ident : Ident) : Prop :=
  ∀ i, ident.value = names.targetColumns i ↔ ident.meant = names.targetColumns i

def Assignment.Spelled : Assignment (Expr D n m) → Prop
  | .columnName name _ => name.Plain names
  | .tuple targets value components =>
    ∃ name, targets = [name] ∧ components = [value] ∧ name.Plain names

/-- A VALUES list without column names has, where the source has the column, what it has in the
column's own place. -/
def SourceInOrder (row : List (Expr D n m)) : Prop :=
  ∀ i : Fin n, (((sourceIndex names (names.targetColumns i)).map Fin.val).bind fun p => row[p]?) =
    row[i.val]?

/-- The clause names its columns one by one and as they are stored. -/
def MergeClause.Spelled (clause : MergeClause D n m) : Prop :=
  match clause.action with
  | .update assignments _ => ∀ assignment ∈ assignments, assignment.Spelled names
  | .insert [] (.values (row :: _)) _ => SourceInOrder names row
  | .insert columns (.values _) _ => ∀ column ∈ columns, column.Plain names
  | _ => True

/-- The clause that claims the row, if there is one, is spelled so. -/
def SpelledOn (clauses : List (MergeClause D n m)) (joined : JoinedRow D n m) : Prop :=
  ∀ row clause, classCond names row joined = true →
    firstClause names clauses row joined = some clause → clause.Spelled names

structure Compiles (clause : MergeClause D n m) (row : RowClass)
    (compiled : ClassifiedClause D n m) : Prop where
  placed : row = classOf clause.kind
  predicate : compiled.predicate = clause.predicate
  update : row ≠ .notMatched → (keepFlag compiled.op = false ↔ clause.action = .delete) ∧
    (clause.Spelled names →
      ∀ i, columnValue names i compiled.op = meantUpdate names i clause.action)
  insert : row = .notMatched → keepFlag compiled.op = true ∧ (clause.Spelled names →
    ∀ i, columnValue names i compiled.op = some (meantInsert names i clause.action))

variable {names}

theorem Ident.Plain.beq {ident : Ident} (plain : ident.Plain names) (i : Fin n) :
    (ident.value == names.targetColumns i) = (ident.meant == names.targetColumns i) :=
  Bool.eq_iff_iff.mpr (by rw [beq_iff_eq, beq_iff_eq]; exact plain i)

theorem Assignment.Spelled.sets_eq {assignment : Assignment (Expr D n m)}
    (spelled : assignment.Spelled names) : ∃ ident : Ident, ident.Plain names ∧
      assignment.firstName = ident.value ∧ assignment.sets = [(ident.meant, assignment.value)] := by
  cases assignment with
  | columnName name value => exact ⟨name, spelled, rfl, rfl⟩
  | tuple targets value components =>
    obtain ⟨name, rfl, rfl, plain⟩ := spelled
    exact ⟨name, plain, rfl, rfl⟩

theorem resolveUpdateExpr_eq {assignments : List (Assignment (Expr D n m))}
    (spelled : ∀ assignment ∈ assignments, assignment.Spelled names) (i : Fin n) :
    resolveUpdateExpr (names.targetColumns i) assignments =
      ((assignments.flatMap Assignment.sets).find? fun set =>
        set.1 == names.targetColumns i).map Prod.snd := by
  induction assignments with
  | nil => rfl
  | cons assignment rest ih =>
    obtain ⟨ident, plain, first, sets⟩ := (spelled _ mem_cons_self).sets_eq
    have later := ih (forall_mem_cons.mp spelled).2
    simp only [resolveUpdateExpr, flatMap_cons, sets, first, find?_cons, singleton_append,
      plain.beq i] at later ⊢
    cases same : ident.meant == names.targetColumns i with
    | true => rfl
    | false => exact later

theorem findIdx?_meant {columns : List Ident} (spelled : ∀ c ∈ columns, c.Plain names)
    (i : Fin n) :
    columns.findIdx? (fun c => c.value == names.targetColumns i) =
      columns.findIdx? fun c => c.meant == names.targetColumns i := by
  induction columns with
  | nil => rfl
  | cons c rest ih =>
    rw [findIdx?_cons, findIdx?_cons, (spelled c mem_cons_self).beq i,
      ih (forall_mem_cons.mp spelled).2]

theorem resolveInsertExpr_eq {columns : List Ident} {kind : MergeInsertKind (Expr D n m)}
    {predicate : Option (Pred D n m)} {clauseKind : MergeClauseKind} {flag : Bool}
    (spelled : MergeClause.Spelled names ⟨clauseKind, predicate, .insert columns kind flag⟩)
    (i : Fin n) :
    resolveInsertExpr names i columns kind = meantInsert names i (.insert columns kind flag) := by
  cases kind with
  | row => rfl
  | values rows =>
    cases rows with
    | nil => rfl
    | cons row rows =>
      simp only [resolveInsertExpr, meantInsert, head?_cons]
      cases columns with
      | nil =>
        have inOrder : SourceInOrder names row := spelled
        simp only [isEmpty_nil, if_true, bind_some]
        rw [inOrder i]
      | cons column columns =>
        have known : ∀ c ∈ column :: columns, c.Plain names := spelled
        simp only [isEmpty_cons, Bool.false_eq_true, if_false]
        rw [findIdx?_meant known]

theorem resolveUpdateExpr_star (columns : List (Fin n)) (i : Fin n) (listed : i ∈ columns) :
    resolveUpdateExpr (names.targetColumns i) (columns.map fun j =>
      .columnName ⟨names.targetColumns j, true⟩ (sourceColumn names (names.targetColumns j))) =
        some (sourceColumn names (names.targetColumns i)) := by
  induction columns with
  | nil => cases listed
  | cons j columns ih =>
    rw [map_cons, resolveUpdateExpr, find?_cons]
    cases same : Assignment.firstName (E := Expr D n m) (.columnName
        ⟨names.targetColumns j, true⟩ (sourceColumn names (names.targetColumns j))) ==
          names.targetColumns i with
    | true =>
      have same : j = i := names.distinct (beq_iff_eq.mp same)
      rw [same]
      rfl
    | false =>
      rcases mem_cons.mp listed with rfl | later
      · exact absurd same (by rw [Assignment.firstName, beq_self_eq_true]; exact Bool.noConfusion)
      · exact ih later

theorem compiles_of_classifyClause {clause : MergeClause D n m}
    {compiled : RowClass × ClassifiedClause D n m}
    (classified : classifyClause names clause = .ok compiled) :
    Compiles names clause compiled.1 compiled.2 := by
  obtain ⟨kind, predicate, action⟩ := clause
  cases action with
  | update assignments flag =>
    cases flag with
    | true => cases kind <;> cases classified
    | false =>
      cases kind <;> cases classified
      all_goals
        refine ⟨rfl, rfl, fun _ => ⟨⟨nofun, nofun⟩, fun spelled i => ?_⟩, nofun⟩
        exact resolveUpdateExpr_eq spelled i
  | updateStar =>
    cases kind with
    | matched =>
      obtain ⟨assignments, expanded, ended⟩ := Traverse.bind_eq_ok.mp classified
      cases ended
      refine ⟨rfl, rfl, fun _ => ⟨⟨nofun, nofun⟩, fun _ i => ?_⟩, nofun⟩
      rw [expandUpdateStar, starColumns] at expanded
      split at expanded
      next =>
        cases expanded
        exact resolveUpdateExpr_star _ i (mem_finRange i)
      next => cases expanded
    | notMatched | notMatchedByTarget | notMatchedBySource => cases classified
  | delete =>
    cases kind <;> cases classified
    all_goals exact ⟨rfl, rfl, fun _ => ⟨⟨fun _ => rfl, fun _ => rfl⟩, fun _ _ => rfl⟩, nofun⟩
  | insert columns insertKind flag =>
    cases flag with
    | true => cases kind <;> cases classified
    | false =>
      cases kind <;> cases classified
      all_goals
        exact ⟨rfl, rfl, fun other => absurd rfl other,
          fun _ => ⟨rfl, fun spelled i => congrArg some (resolveInsertExpr_eq spelled i)⟩⟩
  | insertStar =>
    have result : ∀ {kind : MergeClauseKind}, kind = .notMatched ∨ kind = .notMatchedByTarget →
        (do let _ ← starColumns names; pure (.notMatched, ⟨predicate, .insert [] .row⟩)) =
          Except.ok compiled →
            Compiles names ⟨kind, predicate, .insertStar⟩ compiled.1 compiled.2 := by
      intro kind known ended
      obtain ⟨_, -, ended⟩ := Traverse.bind_eq_ok.mp ended
      cases ended
      rcases known with rfl | rfl
      all_goals exact ⟨rfl, rfl, fun other => absurd rfl other, fun _ => ⟨rfl, fun _ _ => rfl⟩⟩
    cases kind with
    | notMatched => exact result (Or.inl rfl) classified
    | notMatchedByTarget => exact result (Or.inr rfl) classified
    | matched | notMatchedBySource => cases classified

theorem claims_alike {clauses : List (MergeClause D n m)}
    {compiled : List (RowClass × ClassifiedClause D n m)}
    (compiles : Forall₂ (fun clause c => Compiles names clause c.1 c.2) clauses compiled)
    (row : RowClass) (joined : JoinedRow D n m) :
    (firstClause names clauses row joined = none ∧
        (ofClass row compiled).find? (fun c => passes names c.predicate joined) = none) ∨
      ∃ clause c, firstClause names clauses row joined = some clause ∧
        (ofClass row compiled).find? (fun c => passes names c.predicate joined) = some c ∧
          Compiles names clause row c := by
  induction compiles with
  | nil => exact Or.inl ⟨rfl, rfl⟩
  | @cons clause c clauses compiled head _ ih =>
    rw [firstClause, find?_cons, ofClass, filter_cons]
    by_cases here : classOf clause.kind = row
    · have placed : c.1 = row := head.placed.trans here
      rw [if_pos (by rw [placed]; exact decide_eq_true rfl), map_cons, find?_cons,
        head.predicate, decide_eq_true here, Bool.true_and]
      cases passed : passes names clause.predicate joined with
      | true => exact Or.inr ⟨clause, c.2, rfl, rfl, placed ▸ head⟩
      | false => exact ih
    · have elsewhere : c.1 ≠ row := fun same => here (head.placed.symm.trans same)
      rw [if_neg (by rw [decide_eq_true_eq]; exact elsewhere), decide_eq_false here, Bool.false_and]
      exact ih

end Spelled

section Emit

variable {D : Type} {n m : Nat} {names : MergeNames D n m} {clauses : List (MergeClause D n m)}
  {compiled : List (RowClass × ClassifiedClause D n m)}
  (compiles : Forall₂ (fun clause c => Compiles names clause c.1 c.2) clauses compiled)

def emitted (names : MergeNames D n m) (classified : ClassifiedMerge D n m)
    (joined : JoinedRow D n m) : List (Row D n) :=
  if mergeKeep names classified joined then [projectColumn names classified joined] else []

theorem buildMergeSelect_eq (classified : ClassifiedMerge D n m) (on : Pred D n m)
    (target : List (Row D n)) (source : List (Row D m)) :
    buildMergeSelect names classified on target source =
      (joinedRows names on target source).flatMap (emitted names classified) :=
  map_filter_eq_flatMap _ _ _

theorem caseWhen_classArms {γ : Type} (row : RowClass) (joined : JoinedRow D n m)
    (clauses : List (ClassifiedClause D n m)) (value : MergeOp (Expr D n m) → γ) (default : γ) :
    caseWhen (classArms names row clauses value) default joined =
      if classCond names row joined then
        ((clauses.find? fun c => passes names c.predicate joined).map fun c => value c.op).getD
          default
      else default := by
  have same := caseWhen_map
    (fun (c : ClassifiedClause D n m) joined => classCond names row joined &&
      passes names c.predicate joined) (fun c => value c.op) clauses default joined
  refine Eq.trans same ?_
  have missing : clauses.find? (fun _ => false) = none := find?_eq_none.mpr (by simp)
  cases classCond names row joined <;> simp [missing]

def grouped (compiled : List (RowClass × ClassifiedClause D n m)) : ClassifiedMerge D n m :=
  ⟨ofClass .matched compiled, ofClass .notMatched compiled, ofClass .bySource compiled⟩

include compiles in
theorem emitted_of_class {row : RowClass} {joined : JoinedRow D n m} (target : row ≠ .notMatched)
    (class' : classCond names row joined = true) (spelled : SpelledOn names clauses joined)
    (keep : mergeKeep names (grouped compiled) joined =
      (((ofClass row compiled).find? fun c => passes names c.predicate joined).map fun c =>
        keepFlag c.op).getD true)
    (column : ∀ i, projectColumn names (grouped compiled) joined i =
      ((((ofClass row compiled).find? fun c => passes names c.predicate joined).map fun c =>
        columnValue names i c.op).getD none).elim (targetRaw joined i) fun expr =>
          evalExpr names expr joined) :
    emitted names (grouped compiled) joined = meantTarget names clauses row joined := by
  rw [emitted, keep, meantTarget]
  rcases claims_alike compiles row joined with ⟨meant, found⟩ | ⟨clause, c, meant, found, does⟩
  · rw [meant]
    rw [found] at column ⊢
    exact congrArg (· :: []) (funext column)
  · obtain ⟨kept, values⟩ := does.update target
    rw [meant]
    rw [found] at column ⊢
    have written : projectColumn names (grouped compiled) joined = fun i =>
        (meantUpdate names i clause.action).elim (targetRaw joined i) fun expr =>
          evalExpr names expr joined :=
      funext fun i => (column i).trans (by
        rw [map_some, getD_some, values (spelled row clause class' meant) i])
    rw [map_some, getD_some, written]
    cases flag : keepFlag c.op with
    | false => simp only [kept.mp flag, Bool.false_eq_true, if_false]
    | true =>
      have updated : clause.action ≠ .delete := by
        intro deleted
        rw [kept.mpr deleted] at flag
        cases flag
      cases action : clause.action with
      | delete => exact absurd action updated
      | update | updateStar | insert | insertStar => simp only [action, if_true]

section Joined

attribute [local simp] mergeKeep projectColumn caseWhen_append caseWhen_cons caseWhen_classArms
  classCond grouped targetRaw nulls

include compiles in
theorem emitted_both {t : Row D n} {s : Row D m}
    (spelled : SpelledOn names clauses (.both t s)) :
    emitted names (grouped compiled) (.both t s) =
      meantTarget names clauses .matched (.both t s) := by
  refine emitted_of_class compiles (by decide) rfl spelled ?_ fun i => ?_
  · simp
  · simp

include compiles in
theorem emitted_left {t : Row D n} (visible : names.targetPolicy.admits t = true)
    (spelled : SpelledOn names clauses (.left t)) :
    emitted names (grouped compiled) (.left t) =
      meantTarget names clauses .bySource (.left t) := by
  refine emitted_of_class compiles (by decide) visible spelled ?_ fun i => ?_
  · simp [visible]
  · simp [visible]

theorem emitted_hidden (classified : ClassifiedMerge D n m) {t : Row D n}
    (hidden : names.targetPolicy.admits t = false) :
    emitted names classified (.left t) = [t] := by
  have column : projectColumn names classified (.left t) = t := by
    funext i
    simp [hidden]
  simp [emitted, hidden, column]

include compiles in
theorem emitted_right {s : Row D m} (spelled : SpelledOn names clauses (.right s)) :
    emitted names (grouped compiled) (.right s) = mergedSource names clauses s := by
  have keep : mergeKeep names (grouped compiled) (.right s) =
      (((ofClass .notMatched compiled).find? fun c => passes names c.predicate (.right s)).map
        fun c => keepFlag c.op).getD false := by
    simp
  have column : ∀ i, projectColumn names (grouped compiled) (.right s) i =
      ((((ofClass .notMatched compiled).find? fun c => passes names c.predicate (.right s)).map
        fun c => columnValue names i c.op).getD none).elim none fun expr =>
          evalExpr names expr (.right s) := by
    intro i
    simp
  rw [emitted, keep, mergedSource]
  rcases claims_alike compiles .notMatched (.right s) with
    ⟨meant, found⟩ | ⟨clause, c, meant, found, does⟩
  · rw [meant, found]
    rfl
  · obtain ⟨kept, values⟩ := does.insert rfl
    rw [meant, found, map_some, getD_some, kept, if_pos rfl]
    refine congrArg (· :: []) (funext fun i => ?_)
    rw [column i, found, map_some, getD_some, values (spelled .notMatched clause rfl meant) i]
    rfl

end Joined

theorem compiles_of_mapM (classified : clauses.mapM (classifyClause names) = .ok compiled) :
    Forall₂ (fun clause c => Compiles names clause c.1 c.2) clauses compiled :=
  (Traverse.mapM_eq_ok_iff.mp classified).imp fun _ _ => compiles_of_classifyClause

include compiles in
theorem ofClass_eq_nil_iff (row : RowClass) :
    ofClass row compiled = [] ↔ ∀ clause ∈ clauses, classOf clause.kind ≠ row := by
  rw [ofClass, map_eq_nil_iff, filter_eq_nil_iff]
  constructor
  · intro none clause listed placed
    obtain ⟨c, inCompiled, does⟩ := Traverse.forall₂_exists_right compiles listed
    exact none c inCompiled (decide_eq_true (does.placed.trans placed))
  · intro none c listed placed
    obtain ⟨clause, inClauses, does⟩ := Traverse.forall₂_exists_left compiles listed
    exact none clause inClauses (does.placed.symm.trans (of_decide_eq_true placed))

theorem firstClause_of_none {row : RowClass} (none : ∀ clause ∈ clauses, classOf clause.kind ≠ row)
    (joined : JoinedRow D n m) : firstClause names clauses row joined = .none :=
  find?_eq_none.mpr fun clause listed => by
    rw [decide_eq_false (none clause listed), Bool.false_and]
    exact Bool.false_ne_true

theorem meantTarget_of_none {row : RowClass} {joined : JoinedRow D n m}
    (none : ∀ clause ∈ clauses, classOf clause.kind ≠ row) :
    meantTarget names clauses row joined = [targetRaw joined] := by
  rw [meantTarget, firstClause_of_none none]

variable {on : Pred D n m} {target rows : List (Row D n)} {source : List (Row D m)} {t : Row D n}
  {count : Nat}

theorem unmatched_of_hidden (hidden : names.targetPolicy.admits t = false) :
    source.filter (guardedOn names on t) = [] := by
  rw [filter_eq_nil_iff]
  intro s _ matched
  rw [guardedOn, hidden, Bool.and_false] at matched
  cases matched

include compiles in
theorem emitted_joinedLeft (single : (source.filter (guardedOn names on t)).length ≤ 1)
    (spelled : ∀ joined ∈ joinedLeft (guardedOn names on) source t,
      SpelledOn names clauses joined) :
    (joinedLeft (guardedOn names on) source t).flatMap (emitted names (grouped compiled)) =
      mergedTarget names clauses on source t := by
  rw [mergedTarget]
  cases visible : names.targetPolicy.admits t with
  | false =>
    rw [if_neg Bool.false_ne_true, joinedLeft, unmatched_of_hidden visible,
      flatMap_singleton, emitted_hidden _ visible]
  | true =>
    rw [joinedLeft] at spelled
    rw [if_pos rfl, joinedLeft]
    generalize source.filter (guardedOn names on t) = found at single spelled
    rcases found with _ | ⟨s, _ | ⟨_, _⟩⟩
    · rw [flatMap_singleton, emitted_left compiles visible (spelled _ mem_cons_self)]
    · exact (flatMap_singleton _ _).trans (emitted_both compiles (spelled _ mem_cons_self))
    · simp at single

include compiles in
theorem length_emitted_joinedLeft (none : ∀ clause ∈ clauses, classOf clause.kind ≠ .matched)
    (several : 1 < (source.filter (guardedOn names on t)).length) :
    ((joinedLeft (guardedOn names on) source t).flatMap (emitted names (grouped compiled))).length =
      (source.filter (guardedOn names on t)).length ∧
    (mergedTarget names clauses on source t).length = 1 := by
  have visible : names.targetPolicy.admits t = true := by
    refine Bool.not_eq_false _ ▸ fun hidden => ?_
    rw [unmatched_of_hidden hidden] at several
    cases several
  have matched : source.filter (guardedOn names on t) ≠ [] := fun empty => by
    rw [empty] at several
    cases several
  have once : ∀ s, emitted names (grouped compiled) (.both t s) = [t] := fun s => by
    have unclaimed : SpelledOn names clauses (.both t s) := by
      intro row clause class' claimed
      cases row with
      | matched => rw [firstClause_of_none none] at claimed; cases claimed
      | notMatched | bySource => cases class'
    rw [emitted_both compiles unclaimed, meantTarget_of_none none, targetRaw]
  constructor
  · rw [joinedLeft_of_ne_nil matched, flatMap_map, length_flatMap]
    simp [once]
  · rw [mergedTarget, if_pos visible]
    split
    next empty => exact absurd empty matched
    next => rw [meantTarget_of_none none]; rfl

include compiles in
theorem emitted_unmatched (spelled : ∀ joined ∈ joinedRows names on target source,
      SpelledOn names clauses joined) {s : Row D m}
    (unmatched : s ∈ unmatchedRight (guardedOn names on) target source) :
    emitted names (grouped compiled) (.right s) = mergedSource names clauses s :=
  emitted_right compiles
    (spelled _ (mem_append_right _ (mem_map.mpr ⟨s, unmatched, rfl⟩)))

include compiles in
theorem buildMergeSelect_eq_mergedTable
    (spelled : ∀ joined ∈ joinedRows names on target source, SpelledOn names clauses joined)
    (single : ∀ t ∈ target, (source.filter (guardedOn names on t)).length ≤ 1) :
    buildMergeSelect names (grouped compiled) on target source =
      mergedTable names clauses on target source := by
  rw [buildMergeSelect_eq, joinedRows, flatMap_fullOuterJoin, mergedTable]
  congr 1
  · exact flatMap_congr fun t listed => emitted_joinedLeft compiles (single t listed)
      fun joined member =>
        spelled joined (mem_append_left _ (mem_flatMap.mpr ⟨t, listed, member⟩))
  · exact flatMap_congr fun s unmatched => emitted_unmatched compiles spelled unmatched

theorem single_of_cardinalityCounts (passed : ¬ (cardinalityCounts names on target source).2 <
      (cardinalityCounts names on target source).1) :
    ∀ t ∈ target, (source.filter (guardedOn names on t)).length ≤ 1 := by
  let once : Row D n → List Unit := fun t => if source.any (guardedOn names on t) then [()] else []
  have counted : (cardinalityCounts names on target source).2 = (target.flatMap once).length := by
    rw [← map_filter_eq_flatMap, length_map]
    rfl
  have shorter : ∀ t ∈ target, (once t).length ≤ (source.filter (guardedOn names on t)).length := by
    intro t _
    dsimp only [once]
    split
    next matched =>
      obtain ⟨s, listed, holds⟩ := any_eq_true.mp matched
      exact length_pos_of_mem (mem_filter.mpr ⟨listed, holds⟩)
    next => exact Nat.zero_le _
  have total : (target.flatMap fun t => source.filter (guardedOn names on t)).length =
      (target.flatMap once).length := by
    have enough := sum_length_le shorter
    have limited : (target.flatMap fun t => source.filter (guardedOn names on t)).length ≤
        (target.flatMap once).length := counted ▸ Nat.not_lt.mp passed
    exact Nat.le_antisymm limited enough
  intro t listed
  rw [length_eq_of_flatMap shorter total t listed]
  dsimp only [once]
  split <;> decide

include compiles in
theorem single_of_perm
    (spelled : ∀ joined ∈ joinedRows names on target source, SpelledOn names clauses joined)
    (none : ∀ clause ∈ clauses, classOf clause.kind ≠ .matched)
    (same : (buildMergeSelect names (grouped compiled) on target source).Perm
      (mergedTable names clauses on target source)) :
    ∀ t ∈ target, (source.filter (guardedOn names on t)).length ≤ 1 := by
  have shorter : ∀ t ∈ target, (mergedTarget names clauses on source t).length ≤
      ((joinedLeft (guardedOn names on) source t).flatMap
        (emitted names (grouped compiled))).length := by
    intro t listed
    rcases Nat.lt_or_ge 1 (source.filter (guardedOn names on t)).length with several | single
    · obtain ⟨often, once⟩ := length_emitted_joinedLeft compiles none several
      omega
    · rw [emitted_joinedLeft compiles single fun joined member =>
        spelled joined (mem_append_left _ (mem_flatMap.mpr ⟨t, listed, member⟩))]
  have total := same.length_eq
  rw [buildMergeSelect_eq, joinedRows, flatMap_fullOuterJoin, mergedTable, length_append,
    length_append, flatMap_congr fun s unmatched =>
      emitted_unmatched compiles spelled unmatched] at total
  intro t listed
  have here := length_eq_of_flatMap shorter (Nat.add_right_cancel total) t listed
  by_contra several
  obtain ⟨often, once⟩ := length_emitted_joinedLeft compiles none (Nat.not_le.mp several)
  omega

theorem handleMerge_eq_ok
        (done : handleMerge names on target source clauses = .ok (rows, count)) :
    ∃ compiled, clauses.mapM (classifyClause names) = .ok compiled ∧
      ((source = [] ∧ ofClass .bySource compiled = [] ∧ rows = target ∧ count = 0) ∨
        ((ofClass .matched compiled = [] ∨ ¬ (cardinalityCounts names on target source).2 <
              (cardinalityCounts names on target source).1) ∧
          mergeWithCheckCount names (grouped compiled) on target source = 0 ∧
          rows = buildMergeSelect names (grouped compiled) on target source ∧
          count = if source.isEmpty then emptySourceClaimCount names (grouped compiled) target
            else mergeClaimedCount names (grouped compiled) on target source)) := by
  obtain ⟨classified, grouping, done⟩ := Traverse.bind_eq_ok.mp done
  obtain ⟨compiled, mapped, ended⟩ := Traverse.bind_eq_ok.mp grouping
  cases ended
  refine ⟨compiled, mapped, ?_⟩
  split at done
  next shortcut =>
    obtain ⟨noSource, noBySource⟩ := Bool.and_eq_true_iff.mp shortcut
    cases done
    exact Or.inl ⟨List.isEmpty_iff.mp noSource, List.isEmpty_iff.mp noBySource, rfl, rfl⟩
  next =>
    dsimp only at done
    split at done
    next => cases done
    next passed =>
      split at done
      next => cases done
      next within =>
        cases done
        refine Or.inr ⟨?_, by simpa [grouped] using within, rfl, rfl⟩
        simpa [or_iff_not_imp_left] using passed

end Emit

section Runs

def pair (a b : Nat) : Row Nat 2 := fun i => some (if i = 0 then a else b)

def columns (a b : Name) : Fin 2 → Name := fun i => if i = 0 then a else b

/-- A target with the columns `id` and `v`, and a source with two columns of its own names. -/
def idAndV (source : Fin 2 → Name) : MergeNames Nat 2 2 where
  targetColumns := columns "id".toList "v".toList
  sourceColumns := source
  distinct := by decide
  targetPolicy := ⟨none, fun _ => none⟩
  columnDefaults := fun _ => none

def sameId (target source : Fin 2) : Pred Nat 2 2 := fun t s => some (t target == s source)

/-- `WHEN MATCHED THEN UPDATE SET <name> = s.v`. -/
def setV (name : Name) : MergeClause Nat 2 2 :=
  ⟨.matched, none, .update [.columnName ⟨name, false⟩ fun _ s => s 1] false⟩

/-- `WHEN NOT MATCHED THEN INSERT VALUES (s.id, s.v)`. -/
def insertRow (id v : Fin 2) : MergeClause Nat 2 2 :=
  ⟨.notMatched, none, .insert [] (.values [[fun _ s => s id, fun _ s => s v]]) false⟩

end Runs

end Sqe.Write.MergeSql
