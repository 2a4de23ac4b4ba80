/- GID: Sqe/Library/Reading
   generality: G
   digest: Readers that consume a front part of their input, and what they take from it. -/

import Mathlib.Data.List.Forall2

set_option autoImplicit false

namespace Sqe.Library.Reading

open List

variable {β ε α γ : Type}

abbrev Reader (β ε : Type) := StateT (List β) (Except ε)

/-- The reader takes exactly the given part and returns the value, wherever the tail follows. What
comes after the tail does not matter; the tail itself may be looked at. -/
def Takes (r : Reader β ε α) (part : List β) (value : α) (tail : List β) : Prop :=
  ∀ rest, r.run (part ++ (tail ++ rest)) = .ok (value, tail ++ rest)

theorem Takes.pure (value : α) (tail : List β) :
    Takes (Pure.pure value : Reader β ε α) [] value tail :=
  fun _ => rfl

variable {a : α} {c : γ} {write : α → List β} {xs : List α} {tail input rest : List β}
  {r : Reader β ε α} {f : α → Reader β ε γ}

theorem Takes.bind {first second : List β}
    (now : Takes r first a (second ++ tail)) (then_ : Takes (f a) second c tail) :
    Takes (r >>= f) (first ++ second) c tail := by
  intro rest
  have read := now rest
  rw [append_assoc] at read
  rw [StateT.run_bind, append_assoc, read]
  exact then_ rest

theorem Takes.bind_nil {part : List β}
    (now : Takes r [] a (part ++ tail)) (then_ : Takes (f a) part c tail) :
    Takes (r >>= f) part c tail :=
  Takes.bind now then_

theorem Takes.bind_pure {part : List β}
    (now : Takes r part a tail) (then_ : Takes (f a) [] c tail) : Takes (r >>= f) part c tail := by
  have both : Takes (r >>= f) (part ++ []) c tail := Takes.bind now then_
  rwa [append_nil] at both

def all : List (Reader β ε α) → Reader β ε (List α)
  | [] => Pure.pure []
  | r :: rs => do
    let a ← r
    let as ← all rs
    Pure.pure (a :: as)

def times (n : Nat) (r : Reader β ε α) : Reader β ε (List α) :=
  all (List.replicate n r)

theorem Takes.all {rs : List (Reader β ε α)}
    (each : Forall₂ (fun r x => ∀ tail, Takes r (write x) x tail) rs xs) (tail : List β) :
    Takes (Reading.all rs) (xs.flatMap write) xs tail := by
  induction each with
  | nil => exact .pure [] tail
  | @cons r x rs xs head _ ih =>
    exact (head _).bind (ih.bind_pure (.pure _ _))

theorem Takes.times (each : ∀ x ∈ xs, ∀ tail, Takes r (write x) x tail) (tail : List β) :
    Takes (Reading.times xs.length r) (xs.flatMap write) xs tail := by
  refine .all ?_ tail
  induction xs with
  | nil => exact .nil
  | cons x xs ih =>
    exact .cons (each x mem_cons_self)
      (ih fun y listed => each y (mem_cons_of_mem x listed))

theorem length_le_flatMap
    (costs : ∀ x ∈ xs, 0 < (write x).length) : xs.length ≤ (xs.flatMap write).length := by
  induction xs with
  | nil => exact Nat.le_refl _
  | cons x xs ih =>
    have one := costs x mem_cons_self
    have others := ih fun y listed => costs y (mem_cons_of_mem x listed)
    rw [flatMap_cons, length_append, length_cons]
    omega

theorem length_le_flatMap_of_mem {x : α} (listed : x ∈ xs) :
    (write x).length ≤ (xs.flatMap write).length := by
  obtain ⟨-, -, rfl⟩ := append_of_mem listed
  rw [flatMap_append, flatMap_cons, length_append, length_append]
  omega

theorem run_bind_ok :
    (r >>= f).run input = .ok (c, rest) ↔
      ∃ a mid, r.run input = .ok (a, mid) ∧ (f a).run mid = .ok (c, rest) := by
  rw [StateT.run_bind]
  cases read : r.run input with
  | error e => exact ⟨nofun, fun ⟨_, _, ok, _⟩ => nomatch ok⟩
  | ok taken =>
    obtain ⟨a, mid⟩ := taken
    constructor
    · exact fun ok => ⟨a, mid, rfl, ok⟩
    · rintro ⟨_, _, same, ok⟩
      cases same
      exact ok

theorem run_pure_ok {b : α} :
    (Pure.pure a : Reader β ε α).run input = .ok (b, rest) ↔ a = b ∧ input = rest := by
  constructor
  · intro ok
    exact Prod.mk.inj (Except.ok.inj ok)
  · rintro ⟨rfl, rfl⟩
    rfl

theorem run_throw_ok {e : ε} : ¬ (throw e : Reader β ε α).run input = .ok (a, rest) :=
  nofun

/-- Whatever the reader returns satisfies the condition, with the length of what it took. -/
def Yields (r : Reader β ε α) (post : α → Nat → Prop) : Prop :=
  ∀ input a rest, r.run input = .ok (a, rest) →
    ∃ used, input.length = used + rest.length ∧ post a used

namespace Yields

variable {p p' : α → Nat → Prop} {q : γ → Nat → Prop}

theorem mono (holds : Yields r p) (weaker : ∀ a used, p a used → p' a used) : Yields r p' := by
  intro input a rest read
  obtain ⟨used, length, post⟩ := holds input a rest read
  exact ⟨used, length, weaker a used post⟩

theorem pure {a : α} (post : p a 0) : Yields (Pure.pure a : Reader β ε α) p := by
  intro input b rest read
  obtain ⟨rfl, rfl⟩ := run_pure_ok.mp read
  exact ⟨0, (Nat.zero_add _).symm, post⟩

theorem throw {e : ε} : Yields (throw e : Reader β ε α) p :=
  fun _ _ _ read => absurd read run_throw_ok

theorem bind (first : Yields r p)
    (second : ∀ a used, p a used → Yields (f a) fun c later => q c (used + later)) :
    Yields (r >>= f) q := by
  intro input c rest read
  obtain ⟨a, mid, now, then_⟩ := run_bind_ok.mp read
  obtain ⟨used, length, post⟩ := first input a mid now
  obtain ⟨later, length', post'⟩ := second a used post mid c rest then_
  exact ⟨used + later, by omega, post'⟩

theorem all {rs : List (Reader β ε α)} {s : List α → Nat → Prop} (each : ∀ r ∈ rs, Yields r p)
    (nil : s [] 0)
    (cons : ∀ a used as later, p a used → s as later → s (a :: as) (used + later)) :
    Yields (Reading.all rs) fun as used => as.length = rs.length ∧ s as used := by
  induction rs with
  | nil => exact Yields.pure ⟨rfl, nil⟩
  | cons r rs ih =>
    refine (each r mem_cons_self).bind fun a used head => ?_
    refine (ih (forall_mem_cons.mp each).2).bind
      fun as later tail => Yields.pure ?_
    refine ⟨congrArg (· + 1) tail.1, ?_⟩
    exact cons a used as later head tail.2

theorem all_costly (holds : α → Prop) {rs : List (Reader β ε α)}
    (each : ∀ r ∈ rs, Yields r fun a used => holds a ∧ 1 ≤ used) :
    Yields (Reading.all rs) fun as used =>
      as.length = rs.length ∧ (∀ a ∈ as, holds a) ∧ as.length ≤ used := by
  refine all each ⟨nofun, Nat.le_refl 0⟩ fun a used as later head tail => ⟨?_, ?_⟩
  · exact forall_mem_cons.mpr ⟨head.1, tail.1⟩
  · have := head.2
    rw [length_cons]
    omega

end Yields

end Sqe.Library.Reading
