/- GID: Sqe/Library/Serial
   generality: G
   digest: Runs of tasks one after another, with the states between them. -/

import Mathlib.Data.List.Perm.Basic

set_option autoImplicit false

namespace Sqe.Library.Serial

variable {σ τ : Type}

/-- The tasks run one after another, each noted with the state it leaves. -/
def Chain (run : τ → σ → Option σ) : σ → List (τ × σ) → σ → Prop
  | s, [], last => s = last
  | s, (t, next) :: rest, last => run t s = some next ∧ Chain run next rest last

/-- The states before, between and after the tasks. -/
def visited (start : σ) (trace : List (τ × σ)) : List σ := start :: trace.map Prod.snd

variable {run : τ → σ → Option σ} {start last next : σ} {trace : List (τ × σ)} {t : τ}

section

variable (chain : Chain run start trace last)
include chain

theorem Chain.snoc (runs : run t last = some next) :
    Chain run start (trace ++ [(t, next)]) next := by
  induction trace generalizing start with
  | nil =>
    obtain rfl := chain
    exact ⟨runs, rfl⟩
  | cons entry trace ih => exact ⟨chain.1, ih chain.2⟩

theorem Chain.insert {s : σ} (seen : s ∈ visited start trace)
    (idle : run t s = some s) :
    ∃ trace', Chain run start trace' last ∧ trace'.Perm ((t, s) :: trace) := by
  induction trace generalizing start with
  | nil =>
    obtain rfl := List.mem_singleton.mp seen
    exact ⟨[(t, s)], ⟨idle, chain⟩, List.Perm.refl _⟩
  | cons entry trace ih =>
    rcases List.mem_cons.mp seen with rfl | later
    · exact ⟨(t, s) :: entry :: trace, ⟨idle, chain⟩, List.Perm.refl _⟩
    · obtain ⟨trace', chain', perm⟩ := ih chain.2 later
      exact ⟨entry :: trace', ⟨chain.1, chain'⟩, (perm.cons entry).trans (.swap _ _ _)⟩

theorem Chain.foldlM :
    (trace.map Prod.fst).foldlM (fun s t => run t s) start = some last := by
  induction trace generalizing start with
  | nil => exact congrArg some chain
  | cons entry trace ih =>
    rw [List.map_cons, List.foldlM_cons, chain.1]
    exact ih chain.2

end

end Sqe.Library.Serial
