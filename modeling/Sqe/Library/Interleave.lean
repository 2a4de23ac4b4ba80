/- GID: Sqe/Library/Interleave
   generality: G
   digest: Several lists read at once, and a stream whose items complete in any order. -/

import Mathlib.Data.List.Perm.Basic

set_option autoImplicit false

namespace Sqe.Library.Interleave

variable {α : Type}

/-- The third list takes the other two in, each in its order. -/
inductive Shuffle : List α → List α → List α → Prop
  | nil : Shuffle [] [] []
  | left {x : α} {xs ys zs : List α} (rest : Shuffle xs ys zs) : Shuffle (x :: xs) ys (x :: zs)
  | right {y : α} {xs ys zs : List α} (rest : Shuffle xs ys zs) : Shuffle xs (y :: ys) (y :: zs)

theorem Shuffle.nil_left (ys : List α) : Shuffle [] ys ys := by
  induction ys with
  | nil => exact .nil
  | cons y ys ih => exact ih.right

theorem Shuffle.nil_right (xs : List α) : Shuffle xs [] xs := by
  induction xs with
  | nil => exact .nil
  | cons x xs ih => exact ih.left

theorem Shuffle.append (xs ys : List α) : Shuffle xs ys (xs ++ ys) := by
  induction xs with
  | nil => exact .nil_left ys
  | cons x xs ih => exact ih.left

theorem Shuffle.append_swap (xs ys : List α) : Shuffle xs ys (ys ++ xs) := by
  induction ys with
  | nil => exact .nil_right xs
  | cons y ys ih => exact ih.right

theorem Shuffle.perm {xs ys zs : List α} (shuffled : Shuffle xs ys zs) : zs.Perm (xs ++ ys) := by
  induction shuffled with
  | nil => exact .nil
  | left _ ih => exact ih.cons _
  | right _ ih => exact (ih.cons _).trans List.perm_middle.symm

theorem Shuffle.eq_of_nil {xs zs : List α} (shuffled : Shuffle xs [] zs) : zs = xs := by
  induction xs generalizing zs with
  | nil => cases shuffled; rfl
  | cons x xs ih =>
    cases shuffled with
    | left rest => rw [ih rest]

/-- A list that takes all the lists in, each in its order. -/
inductive Interleaved : List (List α) → List α → Prop
  | nil : Interleaved [] []
  | cons {xs rest zs : List α} {lists : List (List α)} (later : Interleaved lists rest)
      (shuffled : Shuffle xs rest zs) : Interleaved (xs :: lists) zs

theorem Interleaved.flatten (lists : List (List α)) : Interleaved lists lists.flatten := by
  induction lists with
  | nil => exact .nil
  | cons xs lists ih => exact .cons ih (.append xs lists.flatten)

theorem Interleaved.perm {lists : List (List α)} {zs : List α} (read : Interleaved lists zs) :
    zs.Perm lists.flatten := by
  induction read with
  | nil => exact .nil
  | cons _ shuffled ih => exact shuffled.perm.trans (ih.append_left _)

theorem Interleaved.eq_of_singleton {xs zs : List α} (read : Interleaved [xs] zs) : zs = xs := by
  cases read with
  | cons later shuffled =>
    cases later
    exact shuffled.eq_of_nil

/-- What a stream hands over that keeps up to `n` items in flight: those in flight, those not yet
begun, and the order in which they complete. -/
inductive Buffered (n : Nat) : List α → List α → List α → Prop
  | nil : Buffered n [] [] []
  | begin {x : α} {flying rest out : List α} (room : flying.length < n)
      (later : Buffered n (flying ++ [x]) rest out) : Buffered n flying (x :: rest) out
  | complete {x : α} (before : List α) {after rest out : List α}
      (later : Buffered n (before ++ after) rest out) :
      Buffered n (before ++ x :: after) rest (x :: out)

theorem Buffered.in_order {flying rest out : List α} (done : Buffered 1 flying rest out)
    (few : flying.length ≤ 1) : out = flying ++ rest := by
  induction done with
  | nil => rfl
  | begin room _ ih =>
    obtain rfl := List.eq_nil_of_length_eq_zero (Nat.lt_one_iff.mp room)
    exact ih (Nat.le_refl 1)
  | @complete x before after _ _ _ ih =>
    rw [List.length_append, List.length_cons] at few
    obtain rfl := List.eq_nil_of_length_eq_zero (by omega : before.length = 0)
    obtain rfl := List.eq_nil_of_length_eq_zero (by omega : after.length = 0)
    rw [ih (Nat.zero_le 1)]
    rfl

theorem Buffered.perm {n : Nat} {flying rest out : List α} (done : Buffered n flying rest out) :
    out.Perm (flying ++ rest) := by
  induction done with
  | nil => exact .nil
  | begin _ _ ih => rwa [List.append_assoc] at ih
  | complete _ _ ih =>
    rw [List.append_assoc] at ih ⊢
    exact (ih.cons _).trans List.perm_middle.symm

theorem Buffered.swapped {n : Nat} (several : 2 ≤ n) (x y : α) : Buffered n [] [x, y] [y, x] :=
  .begin (Nat.lt_of_lt_of_le Nat.two_pos several) (.begin several
    (.complete [x] (.complete [] .nil)))

end Sqe.Library.Interleave
