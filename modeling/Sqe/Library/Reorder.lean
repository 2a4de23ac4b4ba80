/- GID: Sqe/Library/Reorder
   generality: G
   digest: Folding the same steps in another order. -/

import Mathlib.Data.List.Perm.Basic

set_option autoImplicit false

namespace Sqe.Library.Reorder

open List

variable {α β : Type} {f : β → α → β} {related : β → β → Prop}

theorem foldl_related (step : ∀ s t a, related s t → related (f s a) (f t a)) {s t : β}
    (start : related s t) (l : List α) : related (l.foldl f s) (l.foldl f t) := by
  induction l generalizing s t with
  | nil => exact start
  | cons a l ih => exact ih (step s t a start)

theorem foldl_kept (holds : β → Prop) {l : List α}
    (step : ∀ s, ∀ a ∈ l, holds s → holds (f s a)) {s : β} (start : holds s) :
    holds (l.foldl f s) := by
  induction l generalizing s with
  | nil => exact start
  | cons a l ih =>
    exact ih (fun s b listed => step s b (mem_cons_of_mem a listed))
      (step s a mem_cons_self start)

/-- Steps that commute up to a relation, from states that keep an invariant, may be taken in any
order. -/
theorem foldl_perm_related (equivalence : Equivalence related) (holds : β → Prop) {steps : List α}
    (step : ∀ s t a, related s t → related (f s a) (f t a))
    (kept : ∀ s, ∀ a ∈ steps, holds s → holds (f s a))
    (commute : ∀ s, holds s → ∀ a ∈ steps, ∀ b ∈ steps, related (f (f s a) b) (f (f s b) a))
    {l l' : List α} (perm : l.Perm l') (known : ∀ a ∈ l, a ∈ steps) {s : β} (start : holds s) :
    related (l.foldl f s) (l'.foldl f s) := by
  induction perm generalizing s with
  | nil => exact equivalence.refl s
  | cons a _ ih =>
    refine ih (fun b listed => known b (mem_cons_of_mem a listed)) ?_
    exact kept s a (known a mem_cons_self) start
  | swap a b l =>
    refine foldl_related step ?_ l
    exact commute s start b (known b mem_cons_self) a
      (known a (mem_cons_of_mem b mem_cons_self))
  | trans first _ ih ih' =>
    exact equivalence.trans (ih known start)
      (ih' (fun a listed => known a (first.mem_iff.mpr listed)) start)

end Sqe.Library.Reorder
