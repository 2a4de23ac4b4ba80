/- GID: Sqe/Policy/RangerWildcard
   generality: I
   digest: For which names the wildcard matcher decides the language of a pattern. -/

import Sqe.Library.Wildcard
import Sqe.Policy.RangerDecisions

/-!
The loop keeps one point to go back to, the last star. Before it looks for a star in the pattern, it
compares with the letter of the text, so a star that comes upon a star of the text is taken for that
letter.
-/

set_option autoImplicit false

namespace Sqe.Policy.RangerStore

open Sqe.Library.Wildcard List

abbrev InLanguage : List Char → List Char → Prop := Matches '*' '?'

abbrev Taken : List Char → List Char → Prop := MatchesFirst '*' '?'

section Loop

variable {pattern text resume : List Char} {star : Option (List Char)}

/-- What the loop still has to decide: the rest of the text is taken by the rest of the pattern, or
a later end of the text by the pattern after the last star. -/
def Pending (pattern text : List Char) (star : Option (List Char)) (resume : List Char) : Prop :=
  Taken pattern text ∨
    ∃ s, star = some s ∧ ∃ k, 0 < k ∧ k ≤ resume.length ∧ Taken s (resume.drop k)

/-- Since the last star, each symbol was taken for a letter. -/
def Coherent (pattern text : List Char) (star : Option (List Char)) (resume : List Char) : Prop :=
  ∀ s, star = some s → ∃ segment front, s = segment ++ pattern ∧ resume = front ++ text ∧
    Forall₂ (Stands '?') segment front

private theorem Coherent.exists_drop (coherent : Coherent pattern text star resume)
    (pending : Pending pattern text star resume) : ∃ j, Taken pattern (text.drop j) := by
  rcases pending with here | ⟨s, same, k, -, -, later⟩
  · exact ⟨0, here⟩
  · obtain ⟨segment, front, rfl, rfl, taken⟩ := coherent s same
    exact matchesFirst_drop taken later

private theorem coherent_start (pattern text : List Char) :
    Coherent pattern text (some pattern) text := by
  intro s same
  cases same
  exact ⟨[], [], rfl, rfl, .nil⟩

private theorem Coherent.pending_nil (coherent : Coherent pattern [] star resume) :
    Pending pattern [] star resume ↔ Taken pattern [] := by
  refine ⟨fun pending => ?_, .inl⟩
  obtain ⟨j, later⟩ := coherent.exists_drop pending
  rwa [drop_nil] at later

variable {ps rest : List Char} {c q : Char}

private theorem Coherent.take (coherent : Coherent (q :: ps) (c :: rest) star resume)
    (stands : q = '?' ∨ q = c) :
    Coherent ps rest star resume ∧
      (Pending ps rest star resume ↔ Pending (q :: ps) (c :: rest) star resume) := by
  refine ⟨fun s same => ?_, or_congr_left (matchesFirst_cons stands).symm⟩
  obtain ⟨segment, front, rfl, rfl, taken⟩ := coherent s same
  exact ⟨segment ++ [q], front ++ [c], by simp, by simp,
    rel_append taken (.cons stands .nil)⟩

/-- A star is the new point to go back to. What the older one could still match, this one can. -/
private theorem Coherent.newStar (coherent : Coherent ('*' :: ps) (c :: rest) star resume)
    (other : ¬ ('*' = '?' ∨ '*' = c)) :
    Pending ps (c :: rest) (some ps) (c :: rest) ↔
      Pending ('*' :: ps) (c :: rest) star resume := by
  have free : Taken ('*' :: ps) (c :: rest) ↔ ∃ k, Taken ps ((c :: rest).drop k) :=
    matchesFirst_star fun c' rest' same => by cases same; exact other
  have tries : Pending ps (c :: rest) (some ps) (c :: rest) ↔
      ∃ k, Taken ps ((c :: rest).drop k) := by
    refine ⟨(coherent_start ps (c :: rest)).exists_drop, ?_⟩
    rintro ⟨k, later⟩
    rcases Nat.eq_zero_or_pos k with rfl | positive
    · exact .inl later
    · rcases Nat.le_total k (c :: rest).length with within | beyond
      · exact .inr ⟨ps, rfl, k, positive, within, later⟩
      · rw [drop_of_length_le beyond] at later
        exact .inr ⟨ps, rfl, (c :: rest).length, Nat.succ_pos _, Nat.le_refl _,
          by rwa [drop_length]⟩
  rw [tries]
  refine ⟨fun found => .inl (free.mpr found), fun pending => ?_⟩
  obtain ⟨j, later⟩ := coherent.exists_drop pending
  obtain ⟨k, later⟩ := later.exists_drop
  rw [drop_drop] at later
  exact ⟨_, later⟩

private theorem pending_backtrack {s : List Char} (stuck : ¬ Taken pattern text)
    (left : 0 < resume.length) :
    Pending s resume.tail (some s) resume.tail ↔ Pending pattern text (some s) resume := by
  obtain ⟨first, rest, rfl⟩ := exists_cons_of_length_pos left
  rw [tail_cons]
  constructor
  · rintro (here | ⟨s', same, k, -, within, later⟩)
    · exact .inr ⟨s, rfl, 1, Nat.one_pos, by simp, here⟩
    · cases same
      exact .inr ⟨s, rfl, k + 1, Nat.succ_pos k, by simpa using within, later⟩
  · rintro (here | ⟨s', same, k, positive, within, later⟩)
    · exact absurd here stuck
    · cases same
      obtain ⟨k, rfl⟩ : ∃ j, k = j + 1 := ⟨k - 1, by omega⟩
      rcases Nat.eq_zero_or_pos k with rfl | more
      · exact .inl later
      · exact .inr ⟨s, rfl, k, more, by simpa using within, later⟩

private theorem not_taken_cons (other : ¬ (q = '?' ∨ q = c)) (plain : q ≠ '*') :
    ¬ Taken (q :: ps) (c :: rest) := by
  rintro (⟨c', rest', same, stands, -⟩ | ⟨is, -⟩)
  · cases same
    exact other stands
  · exact plain is

private theorem not_pending_none (stuck : ¬ Taken pattern text) :
    ¬ Pending pattern text none resume := by
  rintro (here | ⟨s, impossible, -⟩)
  · exact stuck here
  · cases impossible

private theorem wildcardLoop_iff {size : Nat} (scan : Scan size)
    (coherent : Coherent scan.pattern scan.text scan.star scan.resume) :
    wildcardLoop scan = true ↔ Pending scan.pattern scan.text scan.star scan.resume := by
  fun_induction wildcardLoop scan with
  | case1 =>
    rw [coherent.pending_nil, Taken, matchesFirst_nil]
    simp
  | case2 _ _ _ _ _ _ _ _ _ _ _ stands _ _ _ ih =>
    obtain ⟨next, same⟩ := coherent.take stands
    exact (ih next).trans same
  | case3 _ _ _ _ _ _ _ _ _ _ _ other _ _ ih =>
    exact (ih (coherent_start _ _)).trans (coherent.newStar other)
  | case4 star resume starWithin _ c rest _ left q ps _ _ other plain _ _ ih =>
    have stuck : ¬ Taken (q :: ps) (c :: rest) := not_taken_cons other plain
    cases star with
    | none => exact iff_of_false Bool.false_ne_true (not_pending_none stuck)
    | some s =>
      exact (ih left s starWithin (coherent_start _ _)).trans (pending_backtrack stuck left)
  | case5 star resume starWithin _ c rest _ left _ _ _ ih =>
    have stuck : ¬ Taken [] (c :: rest) := cons_ne_nil c rest
    cases star with
    | none => exact iff_of_false Bool.false_ne_true (not_pending_none stuck)
    | some s =>
      exact (ih left s starWithin (coherent_start _ _)).trans (pending_backtrack stuck left)

end Loop

section Match

variable (host : Host) (pattern target : String)

/-- The matcher decides the language of the pattern. -/
def Decides : Prop :=
  wildcardMatch host pattern target = true ↔
    InLanguage (host.toLowercase pattern).toList (host.toLowercase target).toList

private theorem wildcardMatch_iff : wildcardMatch host pattern target = true ↔
    Taken (host.toLowercase pattern).toList (host.toLowercase target).toList := by
  rw [wildcardMatch, wildcardLoop_iff]
  · refine ⟨fun pending => pending.resolve_right ?_, .inl⟩
    exact fun ⟨_, impossible, _⟩ => nomatch impossible
  · exact fun s same => nomatch same

/-- The matcher decides a name just when the name is not in the language of the pattern, or is in it
with each star that comes upon a star of the name standing for that letter. So it does where one of
the two has no star. -/
theorem wildcard_exact_iff :
    (Decides host pattern target ↔
      (InLanguage (host.toLowercase pattern).toList (host.toLowercase target).toList →
        Taken (host.toLowercase pattern).toList (host.toLowercase target).toList)) ∧
    ('*' ∉ (host.toLowercase target).toList ∨ '*' ∉ (host.toLowercase pattern).toList →
      Decides host pattern target) := by
  have exactly : Decides host pattern target ↔
      (InLanguage (host.toLowercase pattern).toList (host.toLowercase target).toList →
        Taken (host.toLowercase pattern).toList (host.toLowercase target).toList) := by
    rw [Decides, wildcardMatch_iff]
    exact ⟨Iff.mpr, fun found => ⟨MatchesFirst.matches, found⟩⟩
  exact ⟨exactly, fun literal => exactly.mpr (Matches.matchesFirst (by decide) literal)⟩

end Match

theorem wildcard_exact_orders :
    Decides asciiHost "ord*" "Orders" ∧ Decides asciiHost "a*" "ab*" := by
  refine ⟨(wildcard_exact_iff asciiHost "ord*" "Orders").2 (.inl (by decide +kernel)),
    (wildcard_exact_iff asciiHost "a*" "ab*").1.mpr fun _ => ?_⟩
  have apart : ∀ c rest, ['b', '*'] = c :: rest → ¬ Stands '?' '*' c := by
    rintro c rest ⟨⟩
    unfold Stands
    decide
  exact .inl ⟨'a', ['b', '*'], rfl, .inr rfl, .inr ⟨rfl, apart, ['b', '*'], [], rfl, rfl⟩⟩

/-- The name `*xa` ends in `a`, yet `*a` does not match it. -/
theorem starred_name_missed : ¬ Decides asciiHost "*a" "*xa" := by
  intro decides
  have language : InLanguage (asciiHost.toLowercase "*a").toList
      (asciiHost.toLowercase "*xa").toList :=
    matches_star.mpr ⟨['*', 'x'], ['a'], rfl, (matches_cons_cons (by decide)).mpr ⟨.inr rfl, rfl⟩⟩
  have missed : wildcardMatch asciiHost "*a" "*xa" = false := by decide +kernel
  rw [decides.mpr language] at missed
  cases missed

end Sqe.Policy.RangerStore
