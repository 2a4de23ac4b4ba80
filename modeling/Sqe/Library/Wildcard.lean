/- GID: Sqe/Library/Wildcard
   generality: G
   digest: The language of a pattern with a symbol for any run and a symbol for any one letter. -/

import Mathlib.Data.List.Forall2

set_option autoImplicit false

namespace Sqe.Library.Wildcard

open List

variable {α : Type*}

/-- A pattern symbol other than `star` stands for the letter. -/
def Stands (one q c : α) : Prop := q = one ∨ q = c

/-- The word is in the language of the pattern: `star` stands for any run, `one` for any letter,
every other symbol for itself. -/
def Matches (star one : α) : List α → List α → Prop
  | [], word => word = []
  | q :: pattern, word =>
    (q = star ∧ ∃ run rest, word = run ++ rest ∧ Matches star one pattern rest) ∨
      (q ≠ star ∧ ∃ c rest, word = c :: rest ∧ Stands one q c ∧ Matches star one pattern rest)

/-- The word is in the language even if each `star` that comes upon itself in the word stands for
that one letter. -/
def MatchesFirst (star one : α) : List α → List α → Prop
  | [], word => word = []
  | q :: pattern, word =>
    (∃ c rest, word = c :: rest ∧ Stands one q c ∧ MatchesFirst star one pattern rest) ∨
      (q = star ∧ (∀ c rest, word = c :: rest → ¬ Stands one q c) ∧
        ∃ run rest, word = run ++ rest ∧ MatchesFirst star one pattern rest)

variable {star one : α} {pattern word : List α}

theorem matches_star :
    Matches star one (star :: pattern) word ↔
      ∃ run rest, word = run ++ rest ∧ Matches star one pattern rest := by
  simp [Matches]

theorem matches_cons_cons {q c : α} (plain : q ≠ star) :
    Matches star one (q :: pattern) (c :: word) ↔
      Stands one q c ∧ Matches star one pattern word := by
  simp [Matches, plain]

theorem MatchesFirst.matches (first : MatchesFirst star one pattern word) :
    Matches star one pattern word := by
  induction pattern generalizing word with
  | nil => exact first
  | cons q pattern ih =>
    rcases first with ⟨c, rest, rfl, stands, later⟩ | ⟨rfl, -, run, rest, rfl, later⟩
    · by_cases is : q = star
      · subst is
        exact .inl ⟨rfl, [c], rest, rfl, ih later⟩
      · exact .inr ⟨is, c, rest, rfl, stands, ih later⟩
    · exact .inl ⟨rfl, run, rest, rfl, ih later⟩

/-- Where the pattern or the word has no `star`, none comes upon itself. -/
theorem Matches.matchesFirst (apart : star ≠ one) (literal : star ∉ word ∨ star ∉ pattern)
    (whole : Matches star one pattern word) : MatchesFirst star one pattern word := by
  induction pattern generalizing word with
  | nil => exact whole
  | cons q pattern ih =>
    rcases whole with ⟨rfl, run, rest, rfl, later⟩ | ⟨-, c, rest, rfl, stands, later⟩
    · have noStar := literal.resolve_right fun absent => absent mem_cons_self
      refine .inr ⟨rfl, ?_, run, rest, rfl, ih (.inl fun member => ?_) later⟩
      · rintro c tail parts (same | rfl)
        · exact apart same
        · exact noStar (parts ▸ mem_cons_self)
      · exact noStar (mem_append_right _ member)
    · refine .inl ⟨c, rest, rfl, stands, ih (literal.imp ?_ ?_) later⟩
      · exact fun absent member => absent (mem_cons_of_mem _ member)
      · exact fun absent member => absent (mem_cons_of_mem _ member)

theorem matchesFirst_nil : MatchesFirst star one pattern [] ↔ ∀ q ∈ pattern, q = star := by
  induction pattern with
  | nil => simp [MatchesFirst]
  | cons q pattern ih => simp [MatchesFirst, ih]

theorem matchesFirst_cons {q c : α} (stands : Stands one q c) :
    MatchesFirst star one (q :: pattern) (c :: word) ↔ MatchesFirst star one pattern word := by
  constructor
  · rintro (⟨c', rest, same, -, later⟩ | ⟨-, apart, -⟩)
    · cases same
      exact later
    · exact absurd stands (apart c word rfl)
  · exact fun later => .inl ⟨c, word, rfl, stands, later⟩

theorem matchesFirst_star (apart : ∀ c rest, word = c :: rest → ¬ Stands one star c) :
    MatchesFirst star one (star :: pattern) word ↔
      ∃ skipped, MatchesFirst star one pattern (word.drop skipped) := by
  constructor
  · rintro (⟨c, rest, same, stands, -⟩ | ⟨-, -, run, rest, rfl, later⟩)
    · exact absurd stands (apart c rest same)
    · exact ⟨run.length, by simpa using later⟩
  · rintro ⟨skipped, later⟩
    exact .inr ⟨rfl, apart, word.take skipped, _, (take_append_drop ..).symm, later⟩

theorem MatchesFirst.exists_drop {q : α} (first : MatchesFirst star one (q :: pattern) word) :
    ∃ skipped, MatchesFirst star one pattern (word.drop skipped) := by
  rcases first with ⟨c, rest, rfl, -, later⟩ | ⟨-, -, run, rest, rfl, later⟩
  · exact ⟨1, later⟩
  · exact ⟨run.length, by simpa using later⟩

/-- A later try at the pattern gets no further to the front than one whose symbols were all taken
for letters. -/
theorem matchesFirst_drop {segment front : List α} (taken : Forall₂ (Stands one) segment front)
    {k : Nat} (later : MatchesFirst star one (segment ++ pattern) ((front ++ word).drop k)) :
    ∃ skipped, MatchesFirst star one pattern (word.drop skipped) := by
  induction taken generalizing k with
  | nil => exact ⟨k, later⟩
  | @cons q c segment front stands _ ih =>
    cases k with
    | zero => exact ih (k := 0) ((matchesFirst_cons stands).mp later)
    | succ k =>
      obtain ⟨skipped, rest⟩ := later.exists_drop
      rw [cons_append, drop_succ_cons, drop_drop] at rest
      exact ih rest

end Sqe.Library.Wildcard
