/- GID: Sqe/Library/OuterJoin
   generality: G
   digest: Full outer joins of two lists, and searched cases over their rows. -/

import Mathlib.Algebra.Order.Group.Nat
import Mathlib.Algebra.BigOperators.Group.List.Basic

set_option autoImplicit false

namespace Sqe.Library.OuterJoin

open List

variable {α β γ : Type}

/-- A row of a full outer join: both sides, or one of them alone. -/
inductive Joined (α β : Type)
  | both (left : α) (right : β)
  | left (left : α)
  | right (right : β)

section Join

variable (on : α → β → Bool) (left : List α) (right : List β)

def joinedLeft (a : α) : List (Joined α β) :=
  match right.filter (on a) with
  | [] => [.left a]
  | matched => matched.map (.both a)

def unmatchedRight : List β := right.filter fun b => !left.any fun a => on a b

def fullOuterJoin : List (Joined α β) :=
  left.flatMap (joinedLeft on right) ++ (unmatchedRight on left right).map .right

theorem flatMap_fullOuterJoin (f : Joined α β → List γ) :
    (fullOuterJoin on left right).flatMap f =
      (left.flatMap fun a => (joinedLeft on right a).flatMap f) ++
        (unmatchedRight on left right).flatMap fun b => f (.right b) := by
  rw [fullOuterJoin, flatMap_append, flatMap_assoc, flatMap_map]

end Join

section Rows

variable {on : α → β → Bool} {right : List β} {a : α}

theorem joinedLeft_of_ne_nil (matched : right.filter (on a) ≠ []) :
    joinedLeft on right a = (right.filter (on a)).map (.both a) := by
  rw [joinedLeft]
  split
  next unmatched => exact absurd unmatched matched
  next => rfl

end Rows

def caseWhen (arms : List ((α → Bool) × γ)) (default : γ) (row : α) : γ :=
  ((arms.find? fun arm => arm.1 row).map Prod.snd).getD default

theorem caseWhen_append (arms more : List ((α → Bool) × γ)) (default : γ) (row : α) :
    caseWhen (arms ++ more) default row = caseWhen arms (caseWhen more default row) row := by
  rw [caseWhen, caseWhen, find?_append]
  cases arms.find? fun arm => arm.1 row <;> rfl

theorem caseWhen_cons (arm : (α → Bool) × γ) (more : List ((α → Bool) × γ)) (default : γ)
    (row : α) : caseWhen (arm :: more) default row =
      if arm.1 row then arm.2 else caseWhen more default row := by
  rw [caseWhen, find?_cons]
  cases arm.1 row <;> rfl

theorem caseWhen_map (f : γ → α → Bool) {δ : Type} (value : γ → δ) (clauses : List γ)
    (default : δ) (row : α) :
    caseWhen (clauses.map fun clause => (f clause, value clause)) default row =
      ((clauses.find? fun clause => f clause row).map value).getD default := by
  rw [caseWhen, find?_map, Option.map_map]
  rfl

theorem map_filter_eq_flatMap (p : α → Bool) (f : α → β) (l : List α) :
    (l.filter p).map f = l.flatMap fun a => if p a then [f a] else [] := by
  induction l with
  | nil => rfl
  | cons a l ih =>
    rw [flatMap_cons, ← ih, filter_cons]
    split <;> rfl

theorem sum_length_le {f : α → List β} {g : α → List γ} {l : List α}
    (shorter : ∀ a ∈ l, (g a).length ≤ (f a).length) :
    (l.flatMap g).length ≤ (l.flatMap f).length := by
  induction l with
  | nil => exact le_rfl
  | cons a l ih =>
    rw [flatMap_cons, flatMap_cons, length_append, length_append]
    exact Nat.add_le_add (shorter a mem_cons_self)
      (ih (forall_mem_cons.mp shorter).2)

theorem length_eq_of_flatMap {f : α → List β} {g : α → List γ} {l : List α}
    (shorter : ∀ a ∈ l, (g a).length ≤ (f a).length)
    (total : (l.flatMap f).length = (l.flatMap g).length) :
    ∀ a ∈ l, (f a).length = (g a).length := by
  induction l with
  | nil => exact fun a listed => nomatch listed
  | cons a l ih =>
    obtain ⟨here, later⟩ := forall_mem_cons.mp shorter
    have rest := sum_length_le later
    rw [flatMap_cons, flatMap_cons, length_append, length_append] at total
    exact forall_mem_cons.mpr ⟨by omega, ih later (by omega)⟩

end Sqe.Library.OuterJoin
