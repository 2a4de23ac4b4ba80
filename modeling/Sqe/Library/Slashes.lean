/- GID: Sqe/Library/Slashes
   generality: G
   digest: Splitting a text at a mark, and paths without doubled or trailing slashes. -/

import Mathlib.Data.List.DropRight

set_option autoImplicit false

namespace Sqe.Library.Slashes

open List

def splitOnce (mark : List Char) : List Char → Option (List Char × List Char)
  | [] => if mark = [] then some ([], []) else none
  | c :: cs => if mark.isPrefixOf (c :: cs) then some ([], (c :: cs).drop mark.length)
      else (splitOnce mark cs).map fun parts => (c :: parts.1, parts.2)

theorem splitOnce_mark (mark rest : List Char) (nonempty : mark ≠ []) :
    splitOnce mark (mark ++ rest) = some ([], rest) := by
  obtain ⟨m, -, rfl⟩ := exists_cons_of_ne_nil nonempty
  rw [cons_append, splitOnce, ← cons_append, if_pos, drop_left]
  exact isPrefixOf_iff_prefix.mpr (prefix_append _ _)

variable {text front rest name mark : List Char} {c : Char} {before : Bool}

theorem eq_of_splitOnce
    (split : splitOnce mark text = some (front, rest)) : text = front ++ mark ++ rest := by
  fun_induction splitOnce mark text generalizing front with
  | case1 empty => cases split; simp [empty]
  | case2 => cases split
  | case3 c cs here =>
    cases split
    exact (prefix_iff_eq_append.mp ( isPrefixOf_iff_prefix.mp here)).symm
  | case4 c cs _ ih =>
    obtain ⟨parts, later, ⟨⟩⟩ := Option.map_eq_some_iff.mp split
    rw [ih later]
    rfl

theorem splitOnce_replace (nonempty : mark ≠ [])
    (split : splitOnce mark text = some (front, rest)) (rest' : List Char) :
    splitOnce mark (front ++ mark ++ rest') = some (front, rest') := by
  fun_induction splitOnce mark text generalizing front with
  | case1 empty => exact absurd empty nonempty
  | case2 => cases split
  | case3 =>
    cases split
    exact splitOnce_mark mark rest' nonempty
  | case4 c cs absent ih =>
    obtain ⟨⟨front', rest⟩, later, ⟨⟩⟩ := Option.map_eq_some_iff.mp split
    have unmoved : ¬ mark.isPrefixOf (c :: (front' ++ mark ++ rest')) := by
      intro here
      refine absent ( isPrefixOf_iff_prefix.mpr ?_)
      rw [eq_of_splitOnce later]
      have starts : mark <+: c :: (front' ++ mark) := by
        refine prefix_of_prefix_length_le ( isPrefixOf_iff_prefix.mp here)
          ⟨rest', rfl⟩ ?_
        simp only [length_cons, length_append]
        omega
      exact starts.trans ⟨rest, rfl⟩
    rw [cons_append, cons_append, splitOnce, if_neg unmoved, ih later]
    rfl

theorem splitOnce_map {f : Char → Char}
    (faithful : ∀ c, ∀ m ∈ mark, f c = m ↔ c = m) (text : List Char) :
    splitOnce mark (text.map f) =
      (splitOnce mark text).map fun parts => (parts.1.map f, parts.2.map f) := by
  have prefixes (text : List Char) : mark.isPrefixOf (text.map f) = mark.isPrefixOf text := by
    induction mark generalizing text with
    | nil => simp
    | cons m ms ih =>
      cases text with
      | nil => rfl
      | cons c cs =>
        have here := faithful c m mem_cons_self
        have rest := ih (fun c m' member => faithful c m' (mem_cons_of_mem _ member)) cs
        rw [map_cons, List.isPrefixOf, List.isPrefixOf, rest]
        congr 1
        rw [Bool.eq_iff_iff, beq_iff_eq, beq_iff_eq, eq_comm, here, eq_comm]
  induction text with
  | nil =>
    simp only [map_nil, splitOnce]
    split <;> rfl
  | cons c cs ih =>
    have here := prefixes (c :: cs)
    rw [map_cons] at here ⊢
    rw [splitOnce, splitOnce, here]
    split
    · rw [Option.map_some, map_drop, map_cons]
      rfl
    · rw [ih, Option.map_map, Option.map_map]
      rfl

theorem splitOnce_char (absent : c ∉ front) (rest : List Char) :
    splitOnce [c] (front ++ c :: rest) = some (front, rest) := by
  induction front with
  | nil => exact splitOnce_mark [c] rest (by simp)
  | cons d ds ih =>
    obtain ⟨other, later⟩ := not_or.mp (mem_cons.not.mp absent)
    rw [cons_append, splitOnce, if_neg (by simpa using other), ih later]
    rfl

theorem not_mem_of_splitOnce_char
    (split : splitOnce [c] text = some (front, rest)) : c ∉ front := by
  fun_induction splitOnce [c] text generalizing front with
  | case2 => cases split
  | case1 | case3 => cases split; simp
  | case4 d ds absent ih =>
    obtain ⟨parts, later, ⟨⟩⟩ := Option.map_eq_some_iff.mp split
    have other : c ≠ d := by simpa using absent
    simpa [other] using ih later

theorem not_mem_of_splitOnce_char_none (unsplit : splitOnce [c] text = none) : c ∉ text := by
  fun_induction splitOnce [c] text with
  | case1 | case3 => cases unsplit
  | case2 => simp
  | case4 d ds absent ih =>
    have other : c ≠ d := by simpa using absent
    simpa [other] using ih (Option.map_eq_none_iff.mp unsplit)

theorem splitOnce_char_none (absent : c ∉ text) : splitOnce [c] text = none := by
  cases split : splitOnce [c] text with
  | none => rfl
  | some parts =>
    have whole : text = parts.1 ++ [c] ++ parts.2 := eq_of_splitOnce split
    exact absurd (whole ▸ by simp) absent

/-- `trim_end_matches('/')`. -/
def trimSlashes (text : List Char) : List Char := text.rdropWhile (· == '/')

/-- Each run of slashes as one; the flag says whether a slash stands just before. -/
def squeeze : Bool → List Char → List Char
  | _, [] => []
  | before, c :: cs => if c = '/' then (if before then squeeze true cs else '/' :: squeeze true cs)
      else c :: squeeze false cs

def collapseSlashes (text : List Char) : List Char := trimSlashes (squeeze false text)

def Single : Bool → List Char → Prop
  | _, [] => True
  | before, c :: cs => (c = '/' → before = false) ∧ Single (c == '/') cs

theorem single_squeeze (before : Bool) (text : List Char) :
    Single before (squeeze before text) := by
  fun_induction squeeze before text with
  | case1 => trivial
  | case2 cs ih => exact ih
  | case3 before cs first ih => exact ⟨fun _ => by simpa using first, ih⟩
  | case4 before c cs plain ih =>
    refine ⟨fun slash => absurd slash plain, ?_⟩
    rwa [beq_eq_false_iff_ne.mpr plain]

theorem squeeze_of_single (single : Single before text) : squeeze before text = text := by
  fun_induction squeeze before text with
  | case1 => rfl
  | case2 => cases single.1 rfl
  | case3 before cs first ih => rw [ih single.2]
  | case4 before c cs plain ih =>
    obtain ⟨-, later⟩ := single
    rw [beq_eq_false_iff_ne.mpr plain] at later
    rw [ih later]

theorem mem_squeeze (plain : c ≠ '/') (before : Bool)
    (listed : c ∈ text) : c ∈ squeeze before text := by
  fun_induction squeeze before text with
  | case1 => cases listed
  | case2 ds ih => exact ih (mem_of_ne_of_mem plain listed)
  | case3 before ds first ih | case4 before d ds other ih =>
    exact mem_cons.mpr ((mem_cons.mp listed).imp_right ih)

theorem Single.of_front (single : Single before text)
    (starts : front <+: text) : Single before front := by
  obtain ⟨rest, rfl⟩ := starts
  induction front generalizing before with
  | nil => trivial
  | cons c cs ih => exact ⟨single.1, ih single.2⟩

theorem Single.not_doubled (single : Single before (front ++ '/' :: '/' :: rest)) : False := by
  induction front generalizing before with
  | nil => exact absurd (single.2.1 rfl) (by simp)
  | cons c cs ih => exact ih single.2

theorem single_of_plain (before : Bool) (plain : '/' ∉ name) : Single before name := by
  induction name generalizing before with
  | nil => trivial
  | cons c cs ih =>
    obtain ⟨other, later⟩ := not_or.mp (mem_cons.not.mp plain)
    exact ⟨fun slash => absurd slash.symm other, ih _ later⟩

def Untrailed (text : List Char) : Prop := ∀ last, text.getLast? = some last → last ≠ '/'

theorem untrailed_append (front : List Char) (nonempty : rest ≠ [])
    (untrailed : Untrailed rest) : Untrailed (front ++ rest) := by
  intro last ends
  refine untrailed last ?_
  rwa [getLast?_append_of_ne_nil _ nonempty] at ends

theorem untrailed_of_plain (plain : '/' ∉ name) : Untrailed name := by
  rintro - ends rfl
  exact plain (mem_of_getLast? ends)

theorem untrailed_name (front : List Char) (nonempty : name ≠ [])
    (plain : '/' ∉ name) : Untrailed (front ++ '/' :: name) :=
  untrailed_append front (by simp) (untrailed_append ['/'] nonempty (untrailed_of_plain plain))

theorem slash_prefix_child {outer base : List Char} (plain : '/' ∉ name)
    (inside : outer ++ ['/'] <+: base ++ '/' :: name) :
    outer = base ∨ outer ++ ['/'] <+: base := by
  obtain ⟨rest, whole⟩ := inside
  rw [append_assoc] at whole
  rcases append_eq_append_iff.mp whole with ⟨between, same, tail⟩ | ⟨between, same, tail⟩
  · cases between with
    | nil => exact .inl (by simpa using same.symm)
    | cons c between =>
      obtain ⟨rfl, -⟩ := List.cons.inj tail
      exact .inr ⟨between, by rw [same]; simp⟩
  · cases between with
    | nil => exact .inl (by simpa using same)
    | cons c between =>
      obtain ⟨-, rfl⟩ := List.cons.inj tail
      exact absurd (by simp) plain

/-- A name after a slash, where no slash stood before. -/
theorem Single.append (single : Single before front)
    (open_ : front = [] → before = false) (untrailed : Untrailed front) (plain : '/' ∉ name) :
    Single before (front ++ '/' :: name) := by
  induction front generalizing before with
  | nil => exact ⟨fun _ => open_ rfl, single_of_plain _ plain⟩
  | cons c cs ih =>
    refine ⟨single.1, ih single.2 ?_ ?_⟩
    · rintro rfl
      exact beq_eq_false_iff_ne.mpr (untrailed c rfl)
    · intro last same
      refine untrailed last ?_
      rw [getLast?_cons, same]
      rfl

theorem untrailed_trimSlashes (text : List Char) : Untrailed (trimSlashes text) := by
  intro last ends
  have nonempty : trimSlashes text ≠ [] := by
    intro empty
    rw [empty] at ends
    cases ends
  have clean := rdropWhile_last_not _ _ nonempty
  rw [getLast?_eq_some_getLast nonempty] at ends
  cases ends
  exact fun slash => clean (beq_iff_eq.mpr slash)

theorem trimSlashes_of_untrailed (untrailed : Untrailed text) : trimSlashes text = text := by
  refine (rdropWhile_eq_self_iff ..).mpr fun nonempty slash => ?_
  exact untrailed _ (getLast?_eq_some_getLast nonempty) (beq_iff_eq.mp slash)

theorem single_collapseSlashes (text : List Char) : Single false (collapseSlashes text) :=
  (single_squeeze false text).of_front <| rdropWhile_prefix _ _

theorem untrailed_collapseSlashes (text : List Char) : Untrailed (collapseSlashes text) :=
  untrailed_trimSlashes _

theorem collapseSlashes_ne_nil (nonempty : text ≠ [])
    (untrailed : Untrailed text) : collapseSlashes text ≠ [] := by
  intro empty
  have slashes := rdropWhile_eq_nil_iff.mp empty
  have last := untrailed _ (getLast?_eq_some_getLast nonempty)
  exact last (beq_iff_eq.mp (slashes _ (mem_squeeze last false (getLast_mem nonempty))))

theorem collapseSlashes_of_single (single : Single false text)
    (untrailed : Untrailed text) : collapseSlashes text = text := by
  rw [collapseSlashes, squeeze_of_single single, trimSlashes_of_untrailed untrailed]

end Sqe.Library.Slashes
