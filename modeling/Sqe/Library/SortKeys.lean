/- GID: Sqe/Library/SortKeys
   generality: G
   digest: Lexicographic orders by columns, and when one of them implies another. -/

import Mathlib.Data.List.Nodup
import Mathlib.Order.Compare
import Mathlib.Logic.Nontrivial.Basic

set_option autoImplicit false

namespace Sqe.Library.SortKeys

open List

structure SortOptions where
  descending : Bool
  nullsFirst : Bool
deriving DecidableEq

variable {C V : Type} [LinearOrder V] (options : SortOptions)

/-- The place of a missing value does not depend on the direction. -/
def compareValues : Option V → Option V → Ordering
  | none, none => .eq
  | none, some _ => if options.nullsFirst then .lt else .gt
  | some _, none => if options.nullsFirst then .gt else .lt
  | some a, some b => if options.descending then compare b a else compare a b

abbrev SortKey (C : Type) := C × SortOptions

def compareRows : List (SortKey C) → (C → Option V) → (C → Option V) → Ordering
  | [], _, _ => .eq
  | key :: keys, a, b => (compareValues key.2 (a key.1) (b key.1)).then (compareRows keys a b)

def Sorted (keys : List (SortKey C)) (rows : List (C → Option V)) : Prop :=
  rows.Pairwise fun a b => compareRows keys a b ≠ .gt

theorem compareValues_eq_iff (a b : Option V) : compareValues options a b = .eq ↔ a = b := by
  cases a with
  | none =>
    cases b with
    | none => simp [compareValues]
    | some b => cases h : options.nullsFirst <;> simp [compareValues, h]
  | some a =>
    cases b with
    | none => cases h : options.nullsFirst <;> simp [compareValues, h]
    | some b =>
      cases h : options.descending with
      | false => simp [compareValues, h]
      | true =>
        simp only [compareValues, h, if_true, compare_eq_iff_eq, Option.some.injEq]
        exact eq_comm

theorem compareValues_self (a : Option V) : compareValues options a a = .eq :=
  (compareValues_eq_iff options a a).mpr rfl

theorem exists_compared [Nontrivial V] :
    ∃ low high : V, compare low high = .lt ∧ compare high low = .gt :=
  let ⟨low, high, below⟩ := exists_pair_lt V
  ⟨low, high, compare_lt_iff_lt.mpr below, compare_gt_iff_gt.mpr below⟩

theorem exists_opposed [Nontrivial V] (first second : SortOptions) (differ : first ≠ second) :
    ∃ a b : Option V, compareValues first a b = .lt ∧ compareValues second a b = .gt := by
  obtain ⟨low, high, up, down⟩ := exists_compared (V := V)
  obtain ⟨firstDescending, firstNulls⟩ := first
  obtain ⟨secondDescending, secondNulls⟩ := second
  by_cases direction : firstDescending = secondDescending
  · subst direction
    cases firstNulls <;> cases secondNulls
    · exact absurd rfl differ
    · exact ⟨some low, none, rfl, rfl⟩
    · exact ⟨none, some low, rfl, rfl⟩
    · exact absurd rfl differ
  · cases firstDescending <;> cases secondDescending
    · exact absurd rfl direction
    · exact ⟨some low, some high, up, down⟩
    · exact ⟨some high, some low, up, down⟩
    · exact absurd rfl direction

theorem exists_ordered [Nontrivial V] :
    ∃ a b : Option V, compareValues options a b = .lt ∧ compareValues options b a = .gt := by
  obtain ⟨low, high, up, down⟩ := exists_compared (V := V)
  obtain ⟨_ | _, -⟩ := options
  · exact ⟨some low, some high, up, down⟩
  · exact ⟨some high, some low, up, down⟩

theorem compareRows_append (front back : List (SortKey C)) (a b : C → Option V) :
    compareRows (front ++ back) a b = (compareRows front a b).then (compareRows back a b) := by
  induction front with
  | nil => rfl
  | cons key front ih => rw [cons_append, compareRows, ih, compareRows, Ordering.then_assoc]

variable {a b : C → Option V}

theorem compareRows_congr {keys : List (SortKey C)} {a' b' : C → Option V}
    (same : ∀ key ∈ keys, a key.1 = a' key.1 ∧ b key.1 = b' key.1) :
    compareRows keys a b = compareRows keys a' b' := by
  induction keys with
  | nil => rfl
  | cons key keys ih =>
    have here := same key mem_cons_self
    rw [compareRows, compareRows, here.1, here.2, ih (forall_mem_cons.mp same).2]

theorem compareRows_map {D : Type} (rename : C → D) (keys : List (SortKey C)) (a b : D → Option V) :
    compareRows (keys.map fun key => (rename key.1, key.2)) a b =
      compareRows keys (a ∘ rename) (b ∘ rename) := by
  induction keys with
  | nil => rfl
  | cons key keys ih => rw [map_cons, compareRows, ih]; rfl

theorem compareRows_eq_of_agree {keys : List (SortKey C)}
    (agree : ∀ key ∈ keys, a key.1 = b key.1) : compareRows keys a b = .eq := by
  induction keys with
  | nil => rfl
  | cons key keys ih =>
    rw [compareRows, agree key mem_cons_self, compareValues_self, Ordering.then]
    exact ih (forall_mem_cons.mp agree).2

theorem compareRows_split {front back : List (SortKey C)} {key : SortKey C}
    (agree : ∀ other ∈ front, a other.1 = b other.1)
    (apart : compareValues key.2 (a key.1) (b key.1) ≠ .eq) :
    compareRows (front ++ key :: back) a b = compareValues key.2 (a key.1) (b key.1) := by
  rw [compareRows_append, compareRows_eq_of_agree agree, compareRows]
  cases order : compareValues key.2 (a key.1) (b key.1) with
  | eq => exact absurd order apart
  | lt => rfl
  | gt => rfl

section Distinct

variable [DecidableEq C]

/-- A column is compared only where it first stands. -/
def distinctKeys : List (SortKey C) → List (SortKey C)
  | [] => []
  | key :: keys => key :: (distinctKeys keys).filter fun other => other.1 ≠ key.1

theorem compareRows_filter (column : C) (keys : List (SortKey C)) {a b : C → Option V}
    (same : a column = b column) :
    compareRows (keys.filter fun other => other.1 ≠ column) a b = compareRows keys a b := by
  induction keys with
  | nil => rfl
  | cons key keys ih =>
    by_cases here : key.1 = column
    · rw [filter_cons_of_neg (by simpa using here), ih, compareRows, here, same,
        compareValues_self, Ordering.then]
    · rw [filter_cons_of_pos (by simpa using here), compareRows, compareRows, ih]

variable (keys : List (SortKey C))

theorem compareRows_distinctKeys (a b : C → Option V) :
    compareRows (distinctKeys keys) a b = compareRows keys a b := by
  induction keys with
  | nil => rfl
  | cons key keys ih =>
    rw [distinctKeys, compareRows, compareRows]
    cases order : compareValues key.2 (a key.1) (b key.1) with
    | lt => rfl
    | gt => rfl
    | eq =>
      rw [compareRows_filter key.1 _ ((compareValues_eq_iff _ _ _).mp order), ih]

theorem distinctKeys_sublist : (distinctKeys keys).Sublist keys := by
  induction keys with
  | nil => exact .slnil
  | cons key keys ih => exact (filter_sublist.trans ih).cons_cons key

theorem distinctKeys_nodup : ((distinctKeys keys).map Prod.fst).Nodup := by
  induction keys with
  | nil => exact nodup_nil
  | cons key keys ih =>
    refine nodup_cons.mpr ⟨fun listed => ?_, ih.sublist (filter_sublist.map _)⟩
    obtain ⟨other, kept, same⟩ := mem_map.mp listed
    simpa [same] using (mem_filter.mp kept).2

theorem mem_distinctKeys {column : C}
    (listed : column ∈ keys.map Prod.fst) : column ∈ (distinctKeys keys).map Prod.fst := by
  induction keys with
  | nil => exact listed
  | cons key keys ih =>
    rw [distinctKeys, map_cons, mem_cons]
    rcases mem_cons.mp listed with rfl | later
    · exact .inl rfl
    · by_cases here : column = key.1
      · exact .inl here
      · obtain ⟨other, kept, rfl⟩ := mem_map.mp (ih later)
        exact .inr (mem_map_of_mem (mem_filter.mpr ⟨kept, by simpa using here⟩))

variable {finer coarser : List (SortKey C)}

theorem compareRows_ne_gt_of_leading {a b : C → Option V}
    (leading : distinctKeys coarser <+: distinctKeys finer)
    (ordered : compareRows finer a b ≠ .gt) : compareRows coarser a b ≠ .gt := by
  obtain ⟨rest, split⟩ := leading
  rw [← compareRows_distinctKeys] at ordered ⊢
  rw [← split, compareRows_append] at ordered
  intro above
  rw [above] at ordered
  exact ordered rfl

omit [DecidableEq C] [LinearOrder V] in
theorem exists_parting {K : Type} {xs ys : List K} (shorter : xs.length ≤ ys.length)
    (parted : ¬ xs <+: ys) :
    ∃ front x y xs' ys', xs = front ++ x :: xs' ∧ ys = front ++ y :: ys' ∧ x ≠ y := by
  induction xs generalizing ys with
  | nil => exact absurd nil_prefix parted
  | cons x xs ih =>
    cases ys with
    | nil => simp at shorter
    | cons y ys =>
      by_cases same : x = y
      · subst same
        obtain ⟨front, x', y', xs', ys', left, right, apart⟩ :=
          ih (Nat.le_of_succ_le_succ shorter) fun start =>
            parted (cons_prefix_cons.mpr ⟨rfl, start⟩)
        exact ⟨x :: front, x', y', xs', ys', by rw [left]; rfl, by rw [right]; rfl, apart⟩
      · exact ⟨[], x, y, xs, ys, rfl, rfl, same⟩

theorem exists_rows_along [Nontrivial V]
    (nonempty : coarser ≠ []) (leading : distinctKeys coarser <+: distinctKeys finer) :
    ∃ a b : C → Option V, compareRows finer a b = .lt ∧ compareRows coarser b a = .gt := by
  obtain ⟨key, keys, rfl⟩ := exists_cons_of_ne_nil nonempty
  obtain ⟨rest, split⟩ := leading
  obtain ⟨low, high, below, above⟩ := exists_ordered (V := V) key.2
  refine ⟨fun column => if column = key.1 then low else none,
    fun column => if column = key.1 then high else none, ?_, ?_⟩
  · rw [← compareRows_distinctKeys, ← split, distinctKeys, cons_append, compareRows]
    simp [below]
  · rw [compareRows]
    simp [above]

theorem new_after {keys front rest : List (SortKey C)} {next : SortKey C}
    (parts : distinctKeys keys = front ++ next :: rest) : ∀ key ∈ front, key.1 ≠ next.1 := by
  have nodup := distinctKeys_nodup keys
  rw [parts, map_append, map_cons, nodup_append] at nodup
  exact fun key listed => nodup.2.2 _ (mem_map_of_mem listed) _ mem_cons_self

theorem exists_rows_against [Nontrivial V]
    (shorter : (distinctKeys coarser).length ≤ (distinctKeys finer).length)
    (parted : ¬ distinctKeys coarser <+: distinctKeys finer) :
    ∃ a b : C → Option V, compareRows finer a b = .lt ∧ compareRows coarser a b = .gt := by
  obtain ⟨front, second, first, _, _, coarserAt, finerAt, apart⟩ := exists_parting shorter parted
  have firstNew := new_after finerAt
  have secondNew := new_after coarserAt
  -- it is enough to find rows that agree on the common keys and part on the next two
  suffices ∃ a b : C → Option V, (∀ key ∈ front, a key.1 = b key.1) ∧
      compareValues first.2 (a first.1) (b first.1) = .lt ∧
      compareValues second.2 (a second.1) (b second.1) = .gt by
    obtain ⟨a, b, agree, below, above⟩ := this
    refine ⟨a, b, ?_, ?_⟩
    · rw [← compareRows_distinctKeys, finerAt, compareRows_split agree (by rw [below]; decide),
        below]
    · rw [← compareRows_distinctKeys, coarserAt, compareRows_split agree (by rw [above]; decide),
        above]
  by_cases same : second.1 = first.1
  · obtain ⟨a, b, below, above⟩ := exists_opposed (V := V) first.2 second.2
      fun options => apart (Prod.ext same options.symm)
    refine ⟨fun column => if column = first.1 then a else none,
      fun column => if column = first.1 then b else none, fun key listed => ?_, ?_, ?_⟩
    · simp only [if_neg (firstNew key listed)]
    · simpa using below
    · simpa [same] using above
  · obtain ⟨low, high, below, -⟩ := exists_ordered (V := V) first.2
    obtain ⟨least, most, -, above⟩ := exists_ordered (V := V) second.2
    refine ⟨
      fun column => if column = first.1 then low else if column = second.1 then most else none,
      fun column => if column = first.1 then high else if column = second.1 then least else none,
      fun key listed => ?_, ?_, ?_⟩
    · simp only [if_neg (firstNew key listed), if_neg (secondNew key listed)]
    · simpa using below
    · simpa [same] using above

end Distinct

end Sqe.Library.SortKeys
