/- GID: Sqe/Library/Traverse
   generality: G
   digest: What a traversal of a list by a partial function returns, element by element. -/

import Mathlib.Data.List.Forall2

set_option autoImplicit false

namespace Sqe.Library.Traverse

open List

variable {α β : Type*} {f : α → Option β}

variable {r : α → β → Prop} {xs : List α} {ys : List β}

theorem mapM_eq_some_iff : xs.mapM f = some ys ↔ List.Forall₂ (fun x y => f x = some y) xs ys := by
  induction xs generalizing ys with
  | nil => cases ys <;> simp
  | cons x xs ih =>
    simp only [mapM_cons, Option.bind_eq_bind, Option.bind_eq_some_iff,
      Option.pure_def, Option.some.injEq, forall₂_cons_left_iff, ih]
    constructor
    · rintro ⟨y, first, ys', rest, rfl⟩
      exact ⟨y, ys', first, rest, rfl⟩
    · rintro ⟨y, ys', first, rest, rfl⟩
      exact ⟨y, first, ys', rest, rfl⟩

theorem eq_map_of_mapM {g : α → β} (total : ∀ x y, f x = some y → y = g x)
    (traversed : xs.mapM f = some ys) : ys = xs.map g := by
  have related := mapM_eq_some_iff.mp traversed
  clear traversed
  induction related with
  | nil => rfl
  | cons head _ ih => rw [map_cons, total _ _ head, ih]

section

variable (related : List.Forall₂ r xs ys)
include related

theorem forall₂_exists_zip {x : α} (member : x ∈ xs) :
    ∃ y, (x, y) ∈ xs.zip ys ∧ r x y := by
  induction related with
  | nil => cases member
  | cons head _ ih =>
    rcases mem_cons.mp member with rfl | later
    · exact ⟨_, mem_cons_self, head⟩
    · obtain ⟨y, found, holds⟩ := ih later
      exact ⟨y, mem_cons_of_mem _ found, holds⟩

theorem forall₂_exists_right {x : α} (member : x ∈ xs) : ∃ y ∈ ys, r x y := by
  obtain ⟨y, paired, holds⟩ := forall₂_exists_zip related member
  exact ⟨y, (of_mem_zip paired).2, holds⟩

theorem forall₂_exists_left {y : β} (member : y ∈ ys) : ∃ x ∈ xs, r x y :=
  forall₂_exists_right related.flip member

end

theorem forall₂_join {γ : Type*} {s : α → γ → Prop} {t : γ → β → Prop} {zs : List γ}
    (left : List.Forall₂ r xs ys) (right : List.Forall₂ s xs zs)
    (joined : ∀ x ∈ xs, ∀ y ∈ ys, ∀ z, r x y → s x z → t z y) : List.Forall₂ t zs ys := by
  induction left generalizing zs with
  | nil =>
    cases right
    exact .nil
  | cons head _ ih =>
    cases right with
    | cons head' tail' =>
      refine .cons (joined _ (by simp) _ (by simp) _ head head') (ih tail' ?_)
      intro x inXs y inYs
      exact joined x (mem_cons_of_mem _ inXs) y (mem_cons_of_mem _ inYs)

section Except

universe u v

variable {ε : Type u} {α γ : Type v}

theorem bind_eq_ok {x : Except ε α} {g : α → Except ε γ} {c : γ} :
    (x >>= g) = .ok c ↔ ∃ a, x = .ok a ∧ g a = .ok c := by
  cases x with
  | error e =>
    constructor
    · intro impossible
      cases impossible
    · rintro ⟨a, impossible, _⟩
      cases impossible
  | ok a =>
    constructor
    · intro second
      exact ⟨a, rfl, second⟩
    · rintro ⟨a', first, second⟩
      cases first
      exact second

theorem mapM_eq_ok_iff {g : α → Except ε γ} {xs : List α} {ys : List γ} :
    xs.mapM g = .ok ys ↔ List.Forall₂ (fun x y => g x = .ok y) xs ys := by
  induction xs generalizing ys with
  | nil => cases ys <;> simp [pure, Except.pure]
  | cons x xs ih =>
    simp only [mapM_cons, bind_eq_ok, ih, forall₂_cons_left_iff]
    constructor
    · rintro ⟨y, first, ys', rest, done⟩
      cases done
      exact ⟨y, ys', first, rest, rfl⟩
    · rintro ⟨y, ys', first, rest, rfl⟩
      exact ⟨y, first, ys', rest, rfl⟩

end Except

end Sqe.Library.Traverse
