/- GID: Sqe/Library/Transition
   generality: G
   digest: Runs of a partial step function whose steps all meet a condition. -/

import Mathlib.Logic.Basic

set_option autoImplicit false

namespace Sqe.Library.Transition

variable {σ ε : Type}

/-- The states reached from a starting state by steps that each meet the condition. -/
inductive Reachable (start : σ → Prop) (step : σ → ε → Option σ) (condition : σ → ε → Prop) :
    σ → Prop
  | start {s : σ} (here : start s) : Reachable start step condition s
  | next {s s' : σ} {e : ε} (earlier : Reachable start step condition s) (meets : condition s e)
      (taken : step s e = some s') : Reachable start step condition s'

variable {start : σ → Prop} {step : σ → ε → Option σ} {condition : σ → ε → Prop}

theorem Reachable.invariant {holds : σ → Prop} (starts : ∀ s, start s → holds s)
    (keeps : ∀ s e s', holds s → condition s e → step s e = some s' → holds s') {s : σ}
    (reached : Reachable start step condition s) : holds s := by
  induction reached with
  | start here => exact starts _ here
  | next _ meets taken ih => exact keeps _ _ _ ih meets taken

/-- Take the events in order, as long as each step meets the condition. -/
def follow (step : σ → ε → Option σ) (condition : σ → ε → Prop)
    [∀ s e, Decidable (condition s e)] : σ → List ε → Option σ
  | s, [] => some s
  | s, e :: es => if condition s e then (step s e).bind fun s' => follow step condition s' es
      else none

theorem Reachable.follow [∀ s e, Decidable (condition s e)] {s s' : σ}
    (reached : Reachable start step condition s) (es : List ε)
    (followed : Transition.follow step condition s es = some s') :
    Reachable start step condition s' := by
  induction es generalizing s with
  | nil => exact Option.some.inj followed ▸ reached
  | cons e es ih =>
    rw [Transition.follow] at followed
    split at followed
    next meets =>
      obtain ⟨next, taken, rest⟩ := Option.bind_eq_some_iff.mp followed
      exact ih (reached.next meets taken) rest
    · cases followed

theorem Reachable.follow_free {s s' : σ} (reached : Reachable start step condition s) (es : List ε)
    (free : ∀ e ∈ es, ∀ s, condition s e)
    (followed : Transition.follow step (fun _ _ => True) s es = some s') :
    Reachable start step condition s' := by
  induction es generalizing s with
  | nil => exact Option.some.inj followed ▸ reached
  | cons e es ih =>
    obtain ⟨next, taken, rest⟩ := Option.bind_eq_some_iff.mp followed
    exact ih (reached.next (free e List.mem_cons_self s) taken)
      (List.forall_mem_cons.mp free).2 rest

end Sqe.Library.Transition
