/- GID: Sqe/Catalog/Hive/ProjectionSound
   generality: G
   digest: A partition of the full product survives the pruning of every axis and the product. -/

import Sqe.Catalog.Hive.Projection
import Sqe.Catalog.Hive.PruneSound
import Mathlib.Tactic.Ring
import Mathlib.Tactic.Positivity

/-!
The abstract side is the full product: every choice of one value per axis, where an axis is
the whole range its column declares, unfiltered and uncapped. The code lists an axis by a
bounded loop, prunes it on a probe entry of one column, and multiplies what is left.
-/

set_option autoImplicit false

namespace Sqe.Catalog.Hive

open Sqe.DataFusion Sqe.Library.Traverse List

/-- The `n`-th instant of a date axis: reached by `n` steps that all stay within the bounds. -/
inductive DatePoint (chrono : Chrono) (start stop interval : Int) (unit : DateUnit) :
    Nat → Int → Prop
  | start : start ≤ stop → DatePoint chrono start stop interval unit 0 start
  | next {n : Nat} {t t' : Int} : DatePoint chrono start stop interval unit n t →
      step chrono t interval unit = .ok t' → t' ≤ stop →
      DatePoint chrono start stop interval unit (n + 1) t'

/-- The values of an axis, as declared. An injected axis declares none. -/
def OnAxis (chrono : Chrono) : ProjectionKind → String → Prop
  | .enum values, v => v ∈ values
  | .integer start stop interval digits, v =>
    ∃ n : Nat, start.1 + n * interval.1 ≤ stop.1 ∧
      v = renderInteger digits (start.1 + n * interval.1)
  | .date start stop format interval unit, v =>
    ∃ n t, DatePoint chrono start stop interval.1 unit n t ∧
      chrono.format (javaDateFormatToChrono format) t = some v
  | .injected, _ => False

/-- The values of an axis that the enumeration reaches before it stops. -/
def ReachedOn (chrono : Chrono) : ProjectionKind → String → Prop
  | .integer start stop interval digits, v =>
    ∃ n : Nat, n < axisCap ∧ start.1 + n * interval.1 ≤ stop.1 ∧
      v = renderInteger digits (start.1 + n * interval.1)
  | .date start stop format interval unit, v =>
    ∃ n t, n < axisCap ∧ DatePoint chrono start stop interval.1 unit n t ∧
      chrono.format (javaDateFormatToChrono format) t = some v
  | kind, v => OnAxis chrono kind v

theorem mem_integerLoop {stop interval : Int} {digits : Option Nat} (bounded : stop ≤ i64Max)
    (positive : 0 < interval) {n fuel : Nat} {v : Int} (low : i64Min ≤ v) (enough : n < fuel)
    (within : v + n * interval ≤ stop) :
    renderInteger digits (v + n * interval) ∈ integerLoop stop interval digits fuel v := by
  induction n generalizing fuel v with
  | zero =>
    obtain ⟨fuel, rfl⟩ := Nat.exists_eq_add_of_lt enough
    simp only [Nat.cast_zero, Int.zero_mul, Int.add_zero] at within ⊢
    simp [integerLoop, within]
  | succ n ih =>
    obtain ⟨fuel, rfl⟩ : ∃ m, fuel = m + 1 := ⟨fuel - 1, by omega⟩
    have next : v + interval + n * interval = v + (n + 1 : Nat) * interval := by
      push_cast
      ring
    have growing : 0 ≤ (n : Int) * interval := by positivity
    have unsaturated : saturatingAdd v interval = v + interval := by
      unfold saturatingAdd
      omega
    have first : v ≤ stop := by omega
    simp only [integerLoop, first, if_true, unsaturated, mem_cons]
    rw [← next] at within ⊢
    exact Or.inr (ih (by omega) (by omega) within)

section Dates

variable {chrono : Chrono} {stop interval : Int} {unit : DateUnit} {format : String}

private theorem DatePoint.shift {start t : Int} {n : Nat}
    (point : DatePoint chrono start stop interval unit (n + 1) t) :
    start ≤ stop ∧ ∃ second, step chrono start interval unit = .ok second ∧
      DatePoint chrono second stop interval unit n t := by
  generalize index : n + 1 = m at point
  induction point generalizing n with
  | start => cases index
  | @next m t t' before stepped within ih =>
    cases m with
    | zero =>
      cases before with
      | start first =>
        cases index
        exact ⟨first, t', stepped, .start within⟩
    | succ m =>
      cases index
      obtain ⟨first, second, firstStep, rest⟩ := ih rfl
      exact ⟨first, second, firstStep, .next rest stepped within⟩

private theorem dateLoop_ok {fuel : Nat} {cur : Int} {values : List String} (within : cur ≤ stop)
    (listed : dateLoop chrono stop format interval unit (fuel + 1) cur = .ok values) :
    ∃ s next rest, chrono.format format cur = some s ∧
      step chrono cur interval unit = .ok next ∧
      dateLoop chrono stop format interval unit fuel next = .ok rest ∧ values = s :: rest := by
  rw [dateLoop, if_pos within] at listed
  split at listed
  · cases listed
  next s rendered =>
    simp only [bind_eq_ok] at listed
    obtain ⟨next, stepped, rest, tail, done⟩ := listed
    cases done
    exact ⟨s, next, rest, rendered, stepped, tail, rfl⟩

theorem mem_dateLoop {n fuel : Nat} {start t : Int} {v : String} {values : List String}
    (point : DatePoint chrono start stop interval unit n t) (enough : n < fuel)
    (rendered : chrono.format format t = some v)
    (listed : dateLoop chrono stop format interval unit fuel start = .ok values) :
    v ∈ values := by
  induction n generalizing fuel start values with
  | zero =>
    obtain ⟨fuel, rfl⟩ : ∃ m, fuel = m + 1 := ⟨fuel - 1, by omega⟩
    cases point with
    | start first =>
      obtain ⟨s, next, rest, head, _, _, rfl⟩ := dateLoop_ok first listed
      rw [rendered] at head
      cases head
      exact mem_cons_self
  | succ n ih =>
    obtain ⟨fuel, rfl⟩ : ∃ m, fuel = m + 1 := ⟨fuel - 1, by omega⟩
    obtain ⟨first, second, stepped, later⟩ := point.shift
    obtain ⟨s, next, rest, _, stepped', tail, rfl⟩ := dateLoop_ok first listed
    rw [stepped] at stepped'
    cases stepped'
    exact mem_cons_of_mem _ (ih later (by omega) tail)

end Dates

theorem mem_axisValues {chrono : Chrono} {filters : List Expr} {col : ProjectedColumn}
    {values : List String} {v : String} (reached : ReachedOn chrono col.kind v)
    (listed : axisValues chrono filters col = .ok values) : v ∈ values := by
  obtain ⟨name, kind⟩ := col
  cases kind with
  | enum all =>
    cases listed
    exact reached
  | integer start stop interval digits =>
    simp only [axisValues, integerValues] at listed
    split at listed
    · cases listed
    next positive =>
      cases listed
      obtain ⟨n, enough, within, rfl⟩ := reached
      exact mem_integerLoop stop.2.2 (by omega) start.2.1 enough within
  | date start stop format interval unit =>
    simp only [axisValues, dateValues] at listed
    split at listed
    · cases listed
    · obtain ⟨n, t, enough, point, rendered⟩ := reached
      exact mem_dateLoop point enough rendered listed
  | injected => exact reached.elim

/-- The partition values a choice of one value per axis stands for. -/
def ValueMap.ofChoice (choice : List (String × String)) : ValueMap :=
  choice.foldl (fun row p => row.insert p.1 p.2) ValueMap.empty

variable {choice : List (String × String)} {name : String}

theorem insert_foldl_eq_some
    (nodup : (choice.map Prod.fst).Nodup) {row : ValueMap} {value : String} :
    choice.foldl (fun row p => row.insert p.1 p.2) row name = some value ↔
      (name, value) ∈ choice ∨ (name ∉ choice.map Prod.fst ∧ row name = some value) := by
  induction choice generalizing row with
  | nil => simp
  | cons p choice ih =>
    obtain ⟨first, v⟩ := p
    simp only [map_cons, nodup_cons] at nodup
    rw [foldl_cons, ih nodup.2]
    by_cases here : name = first
    · subst here
      have away : (name, value) ∉ choice := fun found =>
        nodup.1 (mem_map_of_mem (f := Prod.fst) found)
      simp [ValueMap.insert, nodup.1, away, eq_comm]
    · simp [ValueMap.insert, here]

theorem ofChoice_eq_some (nodup : (choice.map Prod.fst).Nodup) {value : String} :
    ValueMap.ofChoice choice name = some value ↔ (name, value) ∈ choice := by
  rw [ValueMap.ofChoice, insert_foldl_eq_some nodup]
  simp [ValueMap.empty]

theorem mem_foldlM_extendCombos {maxEntries : Nat} {axes : List (String × List String)}
    {row : ValueMap} {combos result : List ValueMap} (present : row ∈ combos)
    (chosen : Forall₂ (fun axis p => p.1 = axis.1 ∧ p.2 ∈ axis.2) axes choice)
    (multiplied : axes.foldlM (extendCombos maxEntries) combos = .ok result) :
    choice.foldl (fun row p => row.insert p.1 p.2) row ∈ result := by
  induction chosen generalizing row combos with
  | nil =>
    cases multiplied
    exact present
  | @cons axis p axes choice head _ ih =>
    simp only [foldlM_cons, bind_eq_ok] at multiplied
    obtain ⟨next, extended, rest⟩ := multiplied
    have member : row.insert p.1 p.2 ∈ next := by
      simp only [extendCombos] at extended
      split at extended
      · cases extended
      · cases extended
        rw [head.1]
        exact mem_flatMap.mpr ⟨row, present, mem_map_of_mem head.2⟩
    exact ih member rest

theorem mem_pruneAxis {chrono : Chrono} {v : String} {values : List String}
    {filters : List Expr} {types : List (String × String)} (listed : v ∈ values)
    (admitted : ∀ f ∈ filters, evalEntry chrono (axisProbe name v) types f ≠ some false) :
    v ∈ pruneAxis chrono name values filters types := by
  unfold pruneAxis
  split
  · exact listed
  · refine mem_filterMap.mpr ⟨axisProbe name v, ?_, by simp [axisProbe, ValueMap.insert]⟩
    exact mem_pruneEntries.mpr ⟨mem_map_of_mem listed, admitted⟩

/-- The product of the axes: one value of each. -/
def InProduct (axis : ProjectionKind → String → Prop) (config : ProjectionConfig)
    (tableLocation : String) (entry : PartitionIndexEntry) : Prop :=
  ∃ choice, Forall₂ (fun col p => p.1 = col.name ∧ axis col.kind p.2) config.columns choice ∧
    entry = projectedEntry config tableLocation (ValueMap.ofChoice choice)

section Product

variable {chrono : Chrono} {axis : ProjectionKind → String → Prop} {config : ProjectionConfig}
  {tableLocation : String} {entry : PartitionIndexEntry}

omit config in
private theorem choice_names {columns : List ProjectedColumn} {choice : List (String × String)}
    (chosen : Forall₂ (fun col p => p.1 = col.name ∧ axis col.kind p.2) columns choice) :
    choice.map Prod.fst = columns.map ProjectedColumn.name := by
  induction chosen with
  | nil => rfl
  | cons head _ ih => rw [map_cons, map_cons, head.1, ih]

theorem InProduct.value (inside : InProduct axis config tableLocation entry)
    {name raw : String} (value : entry.values name = some raw) :
    ∃ col ∈ config.columns, col.name = name := by
  obtain ⟨choice, chosen, rfl⟩ := inside
  have names := choice_names chosen
  have nodup : (choice.map Prod.fst).Nodup := names ▸ config.names_nodup
  have listed := mem_map_of_mem (f := Prod.fst) ((ofChoice_eq_some nodup).mp value)
  rw [names] at listed
  simpa using listed

/-- **Completeness of the projection.** A partition in the product of what the enumeration
reaches is materialised, if no filter rejects it on one of its axes. -/
theorem mem_evaluateProjection
    (inside : InProduct (ReachedOn chrono) config tableLocation entry)
    (enabled : config.enabled = true) {filters : List Expr} {types : List (String × String)}
    {maxEntries : Nat} {entries : List PartitionIndexEntry}
    (admitted : ∀ name raw, entry.values name = some raw → ∀ f ∈ filters,
      evalEntry chrono (axisProbe name raw) types f ≠ some false)
    (evaluated : evaluateProjection chrono config tableLocation filters types maxEntries =
      .ok entries) :
    entry ∈ entries := by
  obtain ⟨choice, chosen, rfl⟩ := inside
  have nodup : (choice.map Prod.fst).Nodup := choice_names chosen ▸ config.names_nodup
  simp only [evaluateProjection, enabled, if_true, bind_eq_ok] at evaluated
  obtain ⟨axes, listed, combos, multiplied, done⟩ := evaluated
  cases done
  refine mem_map_of_mem (mem_foldlM_extendCombos mem_cons_self ?_ multiplied)
  rw [mapM_eq_ok_iff] at listed
  -- Column by column: the chosen value is on the listed axis and survives its pruning.
  refine forall₂_join chosen listed fun col _ p inChoice axis declared produced => ?_
  rw [bind_eq_ok] at produced
  obtain ⟨values, axisListed, done⟩ := produced
  cases done
  refine ⟨declared.1, mem_pruneAxis (mem_axisValues declared.2 axisListed) ?_⟩
  rw [← declared.1]
  exact admitted p.1 p.2 ((ofChoice_eq_some nodup).mpr inChoice)

end Product

end Sqe.Catalog.Hive
