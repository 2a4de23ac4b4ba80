/- GID: Sqe/Library/TwoRuns
   generality: G
   digest: Two partial computations that fail together, or are both sure to succeed. -/

import Mathlib.Data.List.Forall2

set_option autoImplicit false

namespace Sqe.Library.TwoRuns

variable {α β γ δ : Type*} {sure : Bool}

/-- Both results are there or neither is; when `sure`, both are there. -/
def Alike (sure : Bool) (x : Option α) (y : Option β) : Prop :=
  x.isSome = y.isSome ∧ (sure = true → x.isSome = true)

variable {x : Option α} {y : Option β}

theorem alike_of_isSome (left : x.isSome = true) (right : y.isSome = true) : Alike sure x y :=
  ⟨left.trans right.symm, fun _ => left⟩

@[simp] theorem alike_some (x : α) (y : β) : Alike sure (some x) (some y) :=
  alike_of_isSome rfl rfl

theorem Alike.left (alike : Alike true x y) : x.isSome = true :=
  alike.2 rfl

theorem Alike.right (alike : Alike true x y) : y.isSome = true :=
  alike.1 ▸ alike.2 rfl

theorem Alike.weaken (alike : Alike true x y) : Alike sure x y :=
  ⟨alike.1, fun _ => alike.left⟩

theorem alike_self (succeeds : sure = true → x.isSome = true) : Alike sure x x :=
  ⟨rfl, succeeds⟩

theorem Alike.bind {f : α → Option γ} {g : β → Option δ} (alike : Alike sure x y)
    (next : ∀ v w, x = some v → y = some w → Alike sure (f v) (g w)) :
    Alike sure (x.bind f) (y.bind g) := by
  obtain ⟨same, succeeds⟩ := alike
  cases x with
  | none =>
    cases y with
    | none => exact ⟨rfl, succeeds⟩
    | some w => cases same
  | some v =>
    cases y with
    | none => cases same
    | some w => exact next v w rfl rfl

theorem Alike.map {f : α → γ} {g : β → δ}
    (alike : Alike sure x y) : Alike sure (x.map f) (y.map g) := by
  simpa [Alike] using alike

theorem alike_mapM {f : α → Option γ} {g : β → Option δ} {xs : List α} {ys : List β}
    (alike : List.Forall₂ (fun x y => Alike sure (f x) (g y)) xs ys) :
    Alike sure (xs.mapM f) (ys.mapM g) := by
  induction alike with
  | nil => exact alike_some _ _
  | cons head _ ih =>
    simp only [List.mapM_cons, Option.bind_eq_bind, Option.pure_def]
    exact head.bind fun v w _ _ => ih.bind fun vs ws _ _ => alike_some _ _

end Sqe.Library.TwoRuns
