/- GID: Sqe/Library/Dotted
   generality: G
   digest: Splitting a text at a mark, and the white space at its end. -/

import Mathlib.Data.List.Basic

set_option autoImplicit false

namespace Sqe.Library.Dotted

open List

def pieces (mark : Char) : List Char → List (List Char)
  | [] => [[]]
  | c :: rest =>
    if c = mark then [] :: pieces mark rest
    else
      match pieces mark rest with
      | [] => [[c]]
      | piece :: later => (c :: piece) :: later

variable {mark : Char}

theorem pieces_flat {text : List Char} (flat : mark ∉ text) : pieces mark text = [text] := by
  induction text with
  | nil => rfl
  | cons c rest ih =>
    rw [mem_cons, not_or] at flat
    obtain ⟨other, later⟩ := flat
    rw [pieces, if_neg (Ne.symm other), ih later]

theorem pieces_ne_nil (text : List Char) : pieces mark text ≠ [] := by
  cases text with
  | nil => exact cons_ne_nil _ _
  | cons c rest =>
    rw [pieces]
    split
    · exact cons_ne_nil _ _
    · split <;> exact cons_ne_nil _ _

theorem pieces_append_mark (front rest : List Char) :
    pieces mark (front ++ mark :: rest) = pieces mark front ++ pieces mark rest := by
  induction front with
  | nil => simp only [nil_append, pieces, if_true, singleton_append]
  | cons c front ih =>
    rw [cons_append, pieces, pieces]
    split
    next => rw [ih]; rfl
    next =>
      rw [ih]
      cases first : pieces mark front with
      | nil => exact absurd first (pieces_ne_nil front)
      | cons piece later => rfl

theorem front_unique {front other rest rest' : List Char} (flat : mark ∉ front)
    (flat' : mark ∉ other) (same : front ++ mark :: rest = other ++ mark :: rest') :
    front = other := by
  have split : pieces mark (front ++ mark :: rest) = pieces mark (other ++ mark :: rest') :=
    congrArg _ same
  rw [pieces_append_mark, pieces_append_mark, pieces_flat flat, pieces_flat flat'] at split
  exact (List.cons.inj split).1

theorem getLast?_pieces {c : Char} (plain : c ≠ mark) (text : List Char) :
    ∃ last, (pieces mark (text ++ [c])).getLast? = some (last ++ [c]) := by
  induction text with
  | nil => exact ⟨[], by simp [pieces, plain]⟩
  | cons first rest ih =>
    obtain ⟨last, found⟩ := ih
    rw [cons_append, pieces]
    split
    next =>
      refine ⟨last, ?_⟩
      rw [getLast?_cons, found]
      rfl
    next =>
      split
      next none => rw [none] at found; cases found
      next piece later split =>
        rw [split] at found
        cases later with
        | nil =>
          simp only [getLast?_singleton, Option.some.injEq] at found
          exact ⟨first :: last, by rw [found]; rfl⟩
        | cons next later =>
          refine ⟨last, ?_⟩
          exact found

end Sqe.Library.Dotted

namespace Sqe.Library.Text

def isWhitespace (c : Char) : Bool :=
  let n := c.toNat
  (9 ≤ n && n ≤ 13) || n = 0x20 || n = 0x85 || n = 0xA0 || n = 0x1680 ||
    (0x2000 ≤ n && n ≤ 0x200A) || n = 0x2028 || n = 0x2029 || n = 0x202F || n = 0x205F || n = 0x3000

def trimEnd (text : List Char) : List Char := (text.reverse.dropWhile isWhitespace).reverse

end Sqe.Library.Text
