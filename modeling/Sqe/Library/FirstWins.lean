/- GID: Sqe/Library/FirstWins
   generality: G
   digest: Sources asked in order, the first answer final, and stable sorting before asking. -/

import Mathlib.Data.List.Sort

set_option autoImplicit false

namespace Sqe.Library.FirstWins

open List

section Lookup

variable {Source Key Value : Type} [BEq Key]

theorem lookup_flatMap (sources : List Source) (table : Source → List (Key × Value)) (key : Key) :
    (sources.flatMap table).lookup key =
      sources.findSome? fun source => (table source).lookup key := by
  induction sources with
  | nil => rfl
  | cons source later ih =>
    rw [flatMap_cons, lookup_append, ih, findSome?_cons]
    cases (table source).lookup key <;> rfl

variable [LawfulBEq Key]

theorem mem_of_lookup {table : List (Key × Value)} {key : Key} {value : Value}
    (found : table.lookup key = some value) : (key, value) ∈ table := by
  obtain ⟨front, back, whole, -⟩ := lookup_eq_some_iff.mp found
  rw [whole]
  exact mem_append_right _ mem_cons_self

theorem lookup_map (keys : List Key) (value : Key → Value) (key : Key) [DecidableEq Key] :
    (keys.map fun k => (k, value k)).lookup key =
      if key ∈ keys then some (value key) else none := by
  induction keys with
  | nil => rfl
  | cons first keys ih =>
    rw [map_cons, lookup_cons, ih]
    by_cases same : key = first
    · rw [same, beq_self_eq_true, if_pos mem_cons_self]
    · rw [beq_eq_false_iff_ne.mpr same]
      simp only [mem_cons, same, false_or]

end Lookup

section Subset

variable {Source Value : Type} (ask : Source → Option Value) (kept : Source → Bool)

theorem findSome?_filter {sources : List Source} {value : Value}
    (found : sources.findSome? ask = some value)
    (other : (sources.filter kept).findSome? ask ≠ some value) :
    ∃ source ∈ sources, sources.findSome? ask = ask source ∧ kept source = false := by
  obtain ⟨front, source, back, whole, answer, silent⟩ := findSome?_eq_some_iff.mp found
  refine ⟨source, by rw [whole]; simp, by rw [found, answer], ?_⟩
  by_contra stays
  rw [Bool.not_eq_false] at stays
  refine other (findSome?_eq_some_iff.mpr
    ⟨front.filter kept, source, back.filter kept, ?_, answer, ?_⟩)
  · rw [whole, filter_append, filter_cons_of_pos stays]
  · exact fun earlier listed => silent earlier (mem_of_mem_filter listed)

end Subset

section Stable

variable {α : Type} (r : α → α → Prop) [DecidableRel r] [IsTrans α r] (p : α → Bool)

theorem filter_orderedInsert (a : α) {l : List α} (sorted : l.Pairwise r) :
    (l.orderedInsert r a).filter p =
      if p a then (l.filter p).orderedInsert r a else l.filter p := by
  induction l with
  | nil =>
    rw [orderedInsert_nil, filter_cons]
    rfl
  | cons b l ih =>
    rw [pairwise_cons] at sorted
    rw [orderedInsert_cons]
    split
    next before =>
      rw [filter_cons]
      split
      next kept =>
        -- What follows in the sorted list is not before the new element either.
        cases rest : (b :: l).filter p with
        | nil => rfl
        | cons c rest' =>
          have listed : c ∈ b :: l := mem_of_mem_filter (rest ▸ mem_cons_self)
          have after : r a c := by
            rcases mem_cons.mp listed with is | later
            · rw [is]; exact before
            · exact trans_of r before (sorted.1 c later)
          rw [orderedInsert_cons_of_le r rest' after]
      next => rfl
    next notBefore =>
      rw [filter_cons, ih sorted.2, filter_cons]
      by_cases kept : p a = true <;> by_cases keptHead : p b = true <;>
        simp only [kept, keptHead, if_true, if_false, Bool.false_eq_true]
      rw [orderedInsert_of_not_le r _ notBefore]

theorem filter_insertionSort [Std.Total r] (l : List α) :
    (l.insertionSort r).filter p = (l.filter p).insertionSort r := by
  induction l with
  | nil => rfl
  | cons a l ih =>
    rw [insertionSort_cons, filter_orderedInsert r p a (pairwise_insertionSort r l), ih,
      filter_cons]
    split
    · rw [insertionSort_cons]
    · rfl

/-- The first element with the property in the order: none that has it comes before, and of those
the order does not tell apart it is the earliest of the list. -/
def FirstBy (l : List α) (a : α) : Prop :=
  ∃ front back, l = front ++ a :: back ∧ p a = true ∧
    (∀ b ∈ front, p b = true → ¬ r b a) ∧ ∀ b ∈ back, p b = true → r a b

variable {r p}

omit [DecidableRel r] [IsTrans α r] in
theorem firstBy_cons {l : List α} {a c : α} : FirstBy r p (c :: l) a ↔
    (a = c ∧ p c = true ∧ ∀ b ∈ l, p b = true → r c b) ∨
      FirstBy r p l a ∧ (p c = true → ¬ r c a) := by
  constructor
  · rintro ⟨_ | ⟨first, front⟩, back, whole, has, earlier, later⟩
    · obtain ⟨rfl, rfl⟩ := cons.inj whole
      exact .inl ⟨rfl, has, later⟩
    · obtain ⟨rfl, rest⟩ := cons.inj whole
      obtain ⟨own, earlier⟩ := forall_mem_cons.mp earlier
      exact .inr ⟨⟨front, back, rest, has, earlier, later⟩, own⟩
  · rintro (⟨rfl, has, later⟩ | ⟨⟨front, back, rfl, has, earlier, later⟩, own⟩)
    · exact ⟨[], l, rfl, has, nofun, later⟩
    · exact ⟨c :: front, back, rfl, has, forall_mem_cons.mpr ⟨own, earlier⟩, later⟩

/-- Sorting is stable, so the first that is found in the sorted list is the first by the order. -/
theorem find?_insertionSort_iff [Std.Total r] {l : List α} {a : α} :
    (l.insertionSort r).find? p = some a ↔ FirstBy r p l a := by
  induction l generalizing a with
  | nil => exact ⟨nofun, fun ⟨front, back, whole, _⟩ => by simp at whole⟩
  | cons c l ih =>
    have sorted := pairwise_insertionSort r l
    have listed {b : α} : b ∈ (l.insertionSort r).filter p ↔ b ∈ l ∧ p b = true := by
      rw [mem_filter, mem_insertionSort]
    rw [firstBy_cons, ← ih, insertionSort_cons, ← head?_filter, filter_orderedInsert r p c sorted,
      ← head?_filter]
    cases has : p c with
    | false => simp
    | true =>
      have order := sorted.filter p
      rw [if_pos rfl]
      revert listed order
      cases (l.insertionSort r).filter p with
      | nil =>
        intro listed _
        constructor
        · rintro ⟨⟩
          exact .inl ⟨rfl, rfl, fun b member hasIt => nomatch listed.mpr ⟨member, hasIt⟩⟩
        · rintro (⟨rfl, -⟩ | ⟨⟨⟩, -⟩)
          rfl
      | cons h rest =>
        intro listed order
        obtain ⟨inList, hasHead⟩ := listed.mp mem_cons_self
        rw [orderedInsert_cons]
        split
        next before =>
          -- the new element is before all that have the property
          have first (b : α) (member : b ∈ l) (hasIt : p b = true) : r c b := by
            rcases mem_cons.mp (listed.mpr ⟨member, hasIt⟩) with rfl | later
            · exact before
            · exact trans_of r before ((pairwise_cons.mp order).1 b later)
          constructor
          · rintro ⟨⟩
            exact .inl ⟨rfl, rfl, first⟩
          · rintro (⟨rfl, -⟩ | ⟨⟨⟩, after⟩)
            · rfl
            · exact absurd before (after rfl)
        next after =>
          constructor
          · rintro ⟨⟩
            exact .inr ⟨rfl, fun _ => after⟩
          · rintro (⟨-, -, first⟩ | ⟨found, -⟩)
            · exact absurd (first h inList hasHead) after
            · exact found

end Stable

end Sqe.Library.FirstWins
