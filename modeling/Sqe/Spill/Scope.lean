/- GID: Sqe/Spill/Scope
   generality: I
   digest: The directories of spill scopes, and what the segment store changes below them. -/

import Mathlib.Data.Nat.Digits.Lemmas
import Sqe.Library.Dotted

set_option autoImplicit false

namespace Sqe.Spill

open Sqe.Library.Dotted List

abbrev Name := List Char

structure PathBuf where
  absolute : Bool
  parts : List Name
  deriving DecidableEq

def PathBuf.ofText (text : Name) : PathBuf :=
  { absolute := text.head? == some '/'
    parts := (pieces '/' text).filter fun part => part ≠ [] ∧ part ≠ ['.'] }

/-- An absolute path replaces the path it is joined to. -/
def PathBuf.join (base path : PathBuf) : PathBuf :=
  if path.absolute then path else { base with parts := base.parts ++ path.parts }

def PathBuf.startsWith (path base : PathBuf) : Bool :=
  path.absolute == base.absolute && base.parts.isPrefixOf path.parts

/-- The place a path leads to from a working directory, by the names from the file system's root. -/
def PathBuf.resolve (working : List Name) (path : PathBuf) : List Name :=
  let enter reached part := if part = ['.', '.'] then reached.dropLast else reached ++ [part]
  path.parts.foldl enter (if path.absolute then [] else working)

def keeps (c : Char) : Bool := c.isAlphanum || c == '-' || c == '_'

def sanitizeId (raw : Name) : Name :=
  let cleaned := raw.map fun c => if keeps c then c else '_'
  if cleaned = [] ∨ cleaned = ['.'] ∨ cleaned = ['.', '.'] then "unknown".toList else cleaned

structure SpillScope where
  queryId : Name
  stageId : Name
  operatorId : Name
  partitionId : UInt32
  attemptId : UInt32

def SpillScope.new (queryId stageId operatorId : Name) (partitionId attemptId : UInt32) :
    SpillScope :=
  { queryId := sanitizeId queryId
    stageId := sanitizeId stageId
    operatorId := sanitizeId operatorId
    partitionId, attemptId }

def numbered (mark : Char) (n : UInt32) : Name := mark :: Nat.toDigits 10 n.toNat

def SpillScope.relativeDir (scope : SpillScope) : PathBuf :=
  ((((PathBuf.ofText scope.queryId).join (.ofText scope.stageId)).join
    (.ofText scope.operatorId)).join (.ofText (numbered 'p' scope.partitionId))).join
    (.ofText (numbered 'a' scope.attemptId))

def SpillScope.absoluteDir (scope : SpillScope) (root : PathBuf) : PathBuf :=
  root.join scope.relativeDir

def segmentFileName (sequence : UInt64) : Name :=
  "seg-".toList ++ (Nat.toDigits 10 sequence.toNat).leftpad 8 '0' ++ ".spill".toList

def partialFileName (sequence : UInt64) : Name :=
  segmentFileName sequence ++ ".partial".toList

abbrev Files := List Name → Option (List UInt8)

/-- What a store does to the files of one scope; a call that is refused does nothing. -/
inductive Op
  /-- The partial file is created or truncated; a failing call removes it again. -/
  | createWriter (sequence : UInt64) (opened : Bool)
  | write (sequence : UInt64) (bytes : List UInt8)
  /-- The partial file is renamed; where that fails it is removed, if it can be. -/
  | finish (sequence : UInt64) (renamed removed : Bool)
  /-- The same for a writer that is dropped. -/
  | abort (sequence : UInt64) (removed : Bool)
  /-- A removal that fails leaves some files. -/
  | deleteScope (left : List Name → Bool)

section Store

variable (working : List Name) (root : PathBuf)

def SpillScope.place (scope : SpillScope) (file : Name) : List Name :=
  ((scope.absoluteDir root).join (.ofText file)).resolve working

def discard (path : List Name) (removed : Bool) (files : Files) : Files :=
  if removed then Function.update files path none else files

def Op.step (scope : SpillScope) (files : Files) (op : Op) : Files :=
  let dir := scope.absoluteDir root
  let partialAt sequence := scope.place working root (partialFileName sequence)
  match op with
  | .createWriter sequence opened =>
    if !dir.startsWith root then files
    else Function.update files (partialAt sequence) (if opened then some [] else none)
  | .write sequence bytes =>
    -- a writer whose file was removed writes to no place
    Function.update files (partialAt sequence)
      ((files (partialAt sequence)).map (· ++ bytes))
  | .finish sequence renamed removed =>
    if renamed then
      Function.update
        (Function.update files (scope.place working root (segmentFileName sequence))
          (files (partialAt sequence)))
        (partialAt sequence) none
    else discard (partialAt sequence) removed files
  | .abort sequence removed => discard (partialAt sequence) removed files
  | .deleteScope left =>
    if !dir.startsWith root then files
    else fun path => if dir.resolve working <+: path ∧ !left path then none else files path

def run (files : Files) (ops : List (SpillScope × Op)) : Files :=
  ops.foldl (fun files op => op.2.step working root op.1 files) files

def SpillScope.Of (query : Name) (scope : SpillScope) : Prop :=
  ∃ stage operator partition attempt, scope = .new query stage operator partition attempt

/-- What is done under scopes of `other` leaves the segments under scopes of `query` alone. -/
def Isolated (query other : Name) : Prop :=
  ∀ files ops, (∀ op ∈ ops, SpillScope.Of other op.1) →
    ∀ scope, SpillScope.Of query scope → ∀ sequence,
      run working root files ops (scope.place working root (segmentFileName sequence)) =
        files (scope.place working root (segmentFileName sequence))

end Store

variable {working : List Name} {root : PathBuf} {scope : SpillScope} {name query other : Name}

def Plain (name : Name) : Prop := name ≠ [] ∧ ∀ c ∈ name, keeps c = true

theorem sanitizeId_plain (raw : Name) : Plain (sanitizeId raw) := by
  simp only [sanitizeId]
  split
  · exact ⟨by decide, all_eq_true.mp rfl⟩
  case isFalse kept =>
    refine ⟨fun empty => kept (.inl empty), fun c mem => ?_⟩
    obtain ⟨-, -, rfl⟩ := mem_map.mp mem
    split
    · assumption
    · decide

theorem numbered_plain {mark : Char} (letter : keeps mark = true) (n : UInt32) :
    Plain (numbered mark n) := by
  refine ⟨cons_ne_nil _ _, fun c mem => ?_⟩
  obtain rfl | digit := mem_cons.mp mem
  · exact letter
  · have := Nat.isDigit_of_mem_toDigits (by decide) (by decide) digit
    simp [keeps, Char.isAlphanum, this]

theorem ofText_single (flat : '/' ∉ name) (nonempty : name ≠ []) (notDot : name ≠ ['.']) :
    PathBuf.ofText name = ⟨false, [name]⟩ := by
  have relative : name.head? ≠ some '/' := fun first => flat (mem_of_head? first)
  simp [PathBuf.ofText, pieces_flat flat, nonempty, notDot, relative]

theorem Plain.ofText (plain : Plain name) : PathBuf.ofText name = ⟨false, [name]⟩ := by
  refine ofText_single (fun mem => ?_) plain.1 ?_
  · exact absurd (plain.2 _ mem) (by decide)
  · rintro rfl
    exact absurd (plain.2 '.' (by decide)) (by decide)

theorem Plain.ne_parent (plain : Plain name) : name ≠ ['.', '.'] := by
  rintro rfl
  exact absurd (plain.2 '.' (by decide)) (by decide)

def SpillScope.components (scope : SpillScope) : List Name :=
  [scope.queryId, scope.stageId, scope.operatorId, numbered 'p' scope.partitionId,
    numbered 'a' scope.attemptId]

theorem components_plain (built : scope.Of query) : ∀ part ∈ scope.components, Plain part := by
  obtain ⟨-, -, partition, attempt, rfl⟩ := built
  have p : Plain (numbered 'p' partition) := numbered_plain (by decide) _
  have a : Plain (numbered 'a' attempt) := numbered_plain (by decide) _
  simp [SpillScope.components, SpillScope.new, sanitizeId_plain, p, a]

theorem absoluteDir_eq (built : scope.Of query) :
    scope.absoluteDir root = ⟨root.absolute, root.parts ++ scope.components⟩ := by
  have plain := components_plain built
  simp only [SpillScope.components, forall_mem_cons] at plain
  simp [SpillScope.absoluteDir, SpillScope.relativeDir, SpillScope.components, PathBuf.join,
    plain.1.ofText, plain.2.1.ofText, plain.2.2.1.ofText, plain.2.2.2.1.ofText,
    plain.2.2.2.2.1.ofText]

theorem resolve_append {parts : List Name} (down : ∀ part ∈ parts, part ≠ ['.', '.']) :
    PathBuf.resolve working ⟨root.absolute, root.parts ++ parts⟩ =
      root.resolve working ++ parts := by
  simp only [PathBuf.resolve, foldl_append]
  generalize List.foldl _ _ root.parts = reached
  induction parts generalizing reached with
  | nil => simp
  | cons part later ih =>
    rw [forall_mem_cons] at down
    simp [down.1, ih down.2]

theorem resolve_absoluteDir (built : scope.Of query) :
    (scope.absoluteDir root).resolve working = root.resolve working ++ scope.components := by
  rw [absoluteDir_eq built]
  exact resolve_append fun part mem => (components_plain built part mem).ne_parent

theorem segmentFileName_flat (sequence : UInt64) : '/' ∉ segmentFileName sequence := by
  have digits : '/' ∉ Nat.toDigits 10 sequence.toNat := fun mem =>
    absurd (Nat.isDigit_of_mem_toDigits (by decide) (by decide) mem) (by decide)
  simp [segmentFileName, List.leftpad, digits]

theorem place_file (built : scope.Of query) (sequence : UInt64) (tail : Name) (flat : '/' ∉ tail) :
    scope.place working root (segmentFileName sequence ++ tail) =
      root.resolve working ++ scope.components ++ [segmentFileName sequence ++ tail] := by
  have single : PathBuf.ofText (segmentFileName sequence ++ tail) =
      ⟨false, [segmentFileName sequence ++ tail]⟩ := by
    refine ofText_single ?_ ?_ ?_
    · simp [segmentFileName_flat, flat]
    · simp [segmentFileName]
    · simp [segmentFileName]
  rw [SpillScope.place, single, absoluteDir_eq built]
  simp only [PathBuf.join, Bool.false_eq_true, if_false, append_assoc]
  rw [resolve_append]
  intro part mem
  obtain below | rfl := mem_append.mp mem |>.imp_right mem_singleton.mp
  · exact (components_plain built part below).ne_parent
  · simp [segmentFileName]

theorem place_segment (built : scope.Of query) (sequence : UInt64) :
    scope.place working root (segmentFileName sequence) =
      root.resolve working ++ scope.components ++ [segmentFileName sequence] := by
  simpa using place_file built sequence [] (by simp)

theorem step_outside (built : scope.Of query) (op : Op) (files : Files) {path : List Name}
    (outside : ¬ root.resolve working ++ scope.components <+: path) :
    op.step working root scope files path = files path := by
  have apart (file : Name) (at_ : scope.place working root file =
      root.resolve working ++ scope.components ++ [file]) :
      path ≠ scope.place working root file := by
    rintro rfl
    exact outside (at_ ▸ prefix_append _ _)
  have segment sequence := apart _ (place_segment built sequence)
  have part sequence : path ≠ scope.place working root (partialFileName sequence) :=
    apart _ (place_file built sequence _ (by decide))
  cases op with
  | createWriter sequence opened => simp only [Op.step]; split <;> simp [part]
  | write sequence bytes => simp [Op.step, part]
  | finish sequence renamed removed =>
    simp only [Op.step, discard]
    split
    · simp [part, segment]
    · split <;> simp [part]
  | abort sequence removed => simp only [Op.step, discard]; split <;> simp [part]
  | deleteScope left => simp only [Op.step]; split <;> simp [resolve_absoluteDir built, outside]

theorem run_outside {path : List Name} (files : Files) (ops : List (SpillScope × Op))
    (built : ∀ op ∈ ops, SpillScope.Of query op.1)
    (outside : ∀ op ∈ ops, ¬ root.resolve working ++ op.1.components <+: path) :
    run working root files ops path = files path := by
  induction ops generalizing files with
  | nil => rfl
  | cons op later ih =>
    rw [forall_mem_cons] at built outside
    exact (ih _ built.2 outside.2).trans (step_outside built.1 op.2 files outside.1)

theorem components_eq_of_within {above tail : List Name} {own : SpillScope}
    (inside : above ++ scope.components <+: above ++ own.components ++ tail) :
    scope.components = own.components := by
  rw [append_assoc, prefix_append_right_inj] at inside
  have front := prefix_of_prefix_length_le inside (prefix_append own.components tail)
    (Nat.le_refl 5)
  exact front.eq_of_length rfl

theorem isolated_of_ne (differ : sanitizeId query ≠ sanitizeId other) :
    Isolated working root query other := by
  intro files ops built scope own sequence
  refine run_outside files ops built fun op mem inside => differ ?_
  rw [place_segment own] at inside
  have same := components_eq_of_within inside
  obtain ⟨_, _, _, _, is⟩ := built op mem
  obtain ⟨_, _, _, _, rfl⟩ := own
  rw [is] at same
  exact (List.cons.inj same).1.symm

theorem ne_of_isolated (isolated : Isolated working root query other) :
    sanitizeId query ≠ sanitizeId other := by
  intro same
  -- the other query deletes the scope of the same stage, operator, partition and attempt
  let scope := SpillScope.new other [] [] 0 0
  have mine : scope.Of query := ⟨[], [], 0, 0, by simp [scope, SpillScope.new, same]⟩
  have theirs : scope.Of other := ⟨[], [], 0, 0, rfl⟩
  have kept := isolated (fun _ => some []) [(scope, .deleteScope fun _ => false)]
    (by simpa using theirs) scope mine 0
  have contained : (scope.absoluteDir root).startsWith root = true := by
    simp [absoluteDir_eq theirs, PathBuf.startsWith]
  simp [run, Op.step, contained, resolve_absoluteDir theirs, place_segment theirs] at kept

theorem scopes_isolated_iff (working : List Name) (root : PathBuf) (query other : Name) :
    (Isolated working root query other ↔ sanitizeId query ≠ sanitizeId other) ∧
      ∀ scope own, SpillScope.Of query scope → SpillScope.Of other own →
        (∃ parts, parts.length = 5 ∧
          (scope.absoluteDir root).resolve working = root.resolve working ++ parts) ∧
        ((scope.absoluteDir root).resolve working <+: (own.absoluteDir root).resolve working →
          (scope.absoluteDir root).resolve working = (own.absoluteDir root).resolve working) := by
  refine ⟨⟨ne_of_isolated, isolated_of_ne⟩, fun scope own built theirs => ⟨?_, fun above => ?_⟩⟩
  · exact ⟨scope.components, rfl, resolve_absoluteDir built⟩
  · rw [resolve_absoluteDir built, resolve_absoluteDir theirs] at above ⊢
    rw [components_eq_of_within (above.trans (prefix_append _ []))]

theorem dotted_shares_scope :
    "a.b".toList ≠ "a_b".toList ∧
      ¬ Isolated [] ⟨true, ["spill".toList]⟩ "a.b".toList "a_b".toList :=
  ⟨by decide, fun isolated => ne_of_isolated isolated (by decide)⟩

end Sqe.Spill
