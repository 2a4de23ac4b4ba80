/- GID: Sqe/Library/Kleene
   generality: G
   digest: Strong three-valued logic on `Option Bool`, with `none` as the unknown value. -/

import Mathlib.Data.Option.Basic

set_option autoImplicit false

namespace Sqe.Library.Kleene

/-- Conjunction: one false operand decides it, whatever the other one is. -/
def and3 : Option Bool → Option Bool → Option Bool
  | some false, _ => some false
  | _, some false => some false
  | some true, some true => some true
  | _, _ => none

/-- Disjunction: one true operand decides it, whatever the other one is. -/
def or3 : Option Bool → Option Bool → Option Bool
  | some true, _ => some true
  | _, some true => some true
  | some false, some false => some false
  | _, _ => none

def not3 : Option Bool → Option Bool := Option.map (!·)

variable {a b : Option Bool}

@[simp] theorem and3_eq_true : and3 a b = some true ↔ a = some true ∧ b = some true := by
  rcases a with _ | _ | _ <;> rcases b with _ | _ | _ <;> simp [and3]

@[simp] theorem and3_eq_false : and3 a b = some false ↔ a = some false ∨ b = some false := by
  rcases a with _ | _ | _ <;> rcases b with _ | _ | _ <;> simp [and3]

@[simp] theorem or3_eq_true : or3 a b = some true ↔ a = some true ∨ b = some true := by
  rcases a with _ | _ | _ <;> rcases b with _ | _ | _ <;> simp [or3]

@[simp] theorem or3_eq_false : or3 a b = some false ↔ a = some false ∧ b = some false := by
  rcases a with _ | _ | _ <;> rcases b with _ | _ | _ <;> simp [or3]

@[simp] theorem not3_eq_true : not3 a = some true ↔ a = some false := by
  rcases a with _ | _ | _ <;> simp [not3]

@[simp] theorem not3_eq_false : not3 a = some false ↔ a = some true := by
  rcases a with _ | _ | _ <;> simp [not3]

end Sqe.Library.Kleene
