/- GID: Sqe/Library/Tiling
   generality: G
   digest: Adjacent ranges that tile an interval split a list by its keys. -/

import Mathlib.Data.List.Basic

set_option autoImplicit false

namespace Sqe.Library.Tiling

open List

/-- Half-open ranges, each beginning where the one before it ends. -/
inductive Tiles : Nat → List (Nat × Nat) → Nat → Prop
  | nil (low : Nat) : Tiles low [] low
  | cons {low middle high : Nat} {later : List (Nat × Nat)} (forward : low < middle)
      (rest : Tiles middle later high) : Tiles low ((low, middle) :: later) high

def within (range : Nat × Nat) (n : Nat) : Bool := range.1 ≤ n && n < range.2

variable {ranges : List (Nat × Nat)} {low high : Nat}

theorem Tiles.bounds (tiles : Tiles low ranges high) :
    ∀ range ∈ ranges, low ≤ range.1 ∧ range.1 < range.2 := by
  induction tiles with
  | nil => simp
  | cons forward rest ih =>
    refine forall_mem_cons.mpr ⟨⟨Nat.le_refl _, forward⟩, fun range later => ?_⟩
    have bounds := ih range later
    omega

theorem Tiles.le (tiles : Tiles low ranges high) : low ≤ high := by
  induction tiles with
  | nil => exact Nat.le_refl _
  | cons forward _ ih => omega

theorem Tiles.eq_of_nil (tiles : Tiles low [] high) : low = high := by
  cases tiles
  rfl

theorem Tiles.end_le (tiles : Tiles low ranges high) : ∀ range ∈ ranges, range.2 ≤ high := by
  induction tiles with
  | nil => simp
  | cons forward rest ih => exact forall_mem_cons.mpr ⟨rest.le, ih⟩

theorem Tiles.nodup (tiles : Tiles low ranges high) : (ranges.map Prod.fst).Nodup := by
  induction tiles with
  | nil => exact nodup_nil
  | cons forward rest ih =>
    refine nodup_cons.mpr ⟨fun listed => ?_, ih⟩
    obtain ⟨range, later, same⟩ := mem_map.mp listed
    have bounds := rest.bounds range later
    omega

theorem Tiles.perm_flatMap {α : Type} (key : α → Nat) (tiles : Tiles low ranges high) (xs : List α)
    (inside : ∀ x ∈ xs, low ≤ key x ∧ key x < high) :
    (ranges.flatMap fun range => xs.filter fun x => within range (key x)).Perm xs := by
  induction tiles generalizing xs with
  | nil low =>
    cases xs with
    | nil => exact .nil
    | cons x rest =>
      have bounds := inside x mem_cons_self
      omega
  | @cons low middle high later forward rest ih =>
    -- the first range takes what lies below its end, the others divide the remainder
    have first : (xs.filter fun x => within (low, middle) (key x)) =
        xs.filter fun x => key x < middle :=
      filter_congr fun x listed => by simp [within, (inside x listed).1]
    have others : (later.flatMap fun range => xs.filter fun x => within range (key x)) =
        later.flatMap fun range =>
          (xs.filter fun x => !decide (key x < middle)).filter fun x => within range (key x) := by
      refine flatMap_congr fun range listed => ?_
      rw [filter_filter]
      refine filter_congr fun x _ => ?_
      have bounds := rest.bounds range listed
      by_cases inRange : within range (key x) = true
      · have at_least : range.1 ≤ key x := by
          simp only [within, Bool.and_eq_true, decide_eq_true_eq] at inRange
          exact inRange.1
        have beyond : ¬ key x < middle := by omega
        simp [inRange, beyond]
      · rw [Bool.not_eq_true] at inRange
        simp [inRange]
    rw [flatMap_cons, first, others]
    refine .trans (.append_left _ (ih _ fun x listed => ?_))
      (filter_append_perm (fun x => decide (key x < middle)) xs)
    obtain ⟨member, beyond⟩ := mem_filter.mp listed
    have bounds := inside x member
    simp only [Bool.not_eq_true', decide_eq_false_iff_not] at beyond
    omega

theorem tiles_range (low n : Nat) :
    Tiles low ((List.range' low n).map fun i => (i, i + 1)) (low + n) := by
  induction n generalizing low with
  | zero => exact .nil low
  | succ n ih =>
    rw [range'_succ, map_cons, Nat.add_comm n, ← Nat.add_assoc]
    exact .cons (Nat.lt_succ_self low) (ih (low + 1))

theorem perm_flatMap_range {α : Type} (n : Nat) (key : α → Nat) (xs : List α)
    (below : ∀ x ∈ xs, key x < n) :
    ((List.range n).flatMap fun i => xs.filter fun x => key x == i).Perm xs := by
  have tiled := (tiles_range 0 n).perm_flatMap key xs fun x listed =>
    ⟨Nat.zero_le _, by rw [Nat.zero_add]; exact below x listed⟩
  rw [flatMap_map, ← range_eq_range'] at tiled
  refine .trans (.of_eq (flatMap_congr fun i _ => filter_congr fun x _ => ?_)) tiled
  rw [Bool.eq_iff_iff]
  simp only [within, beq_iff_eq, Bool.and_eq_true, decide_eq_true_eq]
  omega

end Sqe.Library.Tiling
