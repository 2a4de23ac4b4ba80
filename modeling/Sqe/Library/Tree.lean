/- GID: Sqe/Library/Tree
   generality: G
   digest: Trees of operators, rewriting from the root down, and what an evaluation can give. -/

import Mathlib.Data.List.Forall2

set_option autoImplicit false

namespace Sqe.Library

open List

inductive Tree (α : Type)
  | node (label : α) (children : List (Tree α))

namespace Tree

variable {α : Type}

def label : Tree α → α
  | node label _ => label

def children : Tree α → List (Tree α)
  | node _ children => children

theorem sizeOf_lt_of_mem {t child : Tree α} (below : child ∈ t.children) :
    sizeOf child < sizeOf t := by
  cases t with
  | node label children =>
    have listed := List.sizeOf_lt_of_mem (show child ∈ children from below)
    simp only [node.sizeOf_spec]
    omega

theorem induct {motive : Tree α → Prop}
    (step : ∀ t, (∀ child ∈ t.children, motive child) → motive t) (t : Tree α) : motive t :=
  step t fun child _ => induct step child
termination_by sizeOf t
decreasing_by exact sizeOf_lt_of_mem ‹_›

mutual
def count : Tree α → Nat
  | node _ children => countAll children + 1

def countAll : List (Tree α) → Nat
  | [] => 0
  | t :: rest => count t + countAll rest
end

mutual
def labels : Tree α → List α
  | node label children => label :: labelsAll children

def labelsAll : List (Tree α) → List α
  | [] => []
  | t :: rest => labels t ++ labelsAll rest
end

theorem countAll_append (ss ts : List (Tree α)) :
    countAll (ss ++ ts) = countAll ss + countAll ts := by
  induction ss with
  | nil => rw [nil_append, countAll, Nat.zero_add]
  | cons s rest ih => rw [cons_append, countAll, countAll, ih, Nat.add_assoc]

theorem countAll_reverse (ts : List (Tree α)) : countAll ts.reverse = countAll ts := by
  induction ts with
  | nil => rfl
  | cons t rest ih =>
    rw [reverse_cons, countAll_append, ih, countAll, countAll, countAll]
    omega

theorem count_le_countAll {t : Tree α} {children : List (Tree α)} (listed : t ∈ children) :
    t.count ≤ countAll children := by
  induction children with
  | nil => cases listed
  | cons first rest ih =>
    rcases mem_cons.mp listed with rfl | later
    · exact Nat.le_add_right _ _
    · exact Nat.le_trans (ih later) (Nat.le_add_left _ _)

theorem count_lt_of_mem {t child : Tree α} (below : child ∈ t.children) :
    child.count < t.count := by
  cases t with
  | node label children =>
    exact Nat.lt_succ_of_le (count_le_countAll below)

mutual
def fold {β : Type} (f : α → List β → β) : Tree α → β
  | node label children => f label (foldAll f children)

def foldAll {β : Type} (f : α → List β → β) : List (Tree α) → List β
  | [] => []
  | t :: rest => fold f t :: foldAll f rest
end

theorem foldAll_eq_map {β : Type} (f : α → List β → β) (children : List (Tree α)) :
    foldAll f children = children.map (fold f) := by
  induction children with
  | nil => rfl
  | cons t rest ih => rw [foldAll, ih, map_cons]

theorem fold_eq {β : Type} (f : α → List β → β) (t : Tree α) :
    fold f t = f t.label (t.children.map (fold f)) := by
  cases t with
  | node label children => rw [fold, foldAll_eq_map]; rfl

/-- Rewrite a node, then the subtrees of what it was rewritten to. -/
def transformDown (rewrite : Tree α → Tree α) (weight : Tree α → Nat)
    (shrinks : ∀ t, ∀ child ∈ (rewrite t).children, weight child < weight t) (t : Tree α) :
    Tree α :=
  node (rewrite t).label
    ((rewrite t).children.attach.map fun child => transformDown rewrite weight shrinks child.1)
termination_by weight t
decreasing_by exact shrinks t child.1 child.2

theorem transformDown_eq (rewrite : Tree α → Tree α) (weight : Tree α → Nat)
    (shrinks : ∀ t, ∀ child ∈ (rewrite t).children, weight child < weight t) (t : Tree α) :
    transformDown rewrite weight shrinks t =
      node (rewrite t).label
        ((rewrite t).children.map (transformDown rewrite weight shrinks)) := by
  rw [transformDown]
  congr 1
  exact attach_map_val

/-- Results in order, with what was seen on the way, up to the first that is missing. -/
def sequence {ω β : Type} : List (List ω × Option β) → List ω × Option (List β)
  | [] => ([], some [])
  | (seen, none) :: _ => (seen, none)
  | (seen, some result) :: rest =>
    (seen ++ (sequence rest).1, (sequence rest).2.map (result :: ·))

theorem of_sequence_eq_some {ω β : Type} {results : List (List ω × Option β)} {all : List β}
    (complete : (sequence results).2 = some all) :
    List.Forall₂ (fun result value => result.2 = some value) results all := by
  induction results generalizing all with
  | nil =>
    cases complete
    exact .nil
  | cons result rest ih =>
    obtain ⟨seen, _ | value⟩ := result
    · cases complete
    · obtain ⟨values, later, rfl⟩ := Option.map_eq_some_iff.mp complete
      exact .cons rfl (ih later)

theorem sequence_eq_some {ω β : Type} {results : List (List ω × Option β)} {all : List β}
    (each : List.Forall₂ (fun result value => result.2 = some value) results all) :
    (sequence results).2 = some all := by
  induction each with
  | nil => rfl
  | @cons result value _ _ here _ ih =>
    obtain ⟨seen, _ | found⟩ := result
    · cases here
    · cases here
      exact Option.map_eq_some_iff.mpr ⟨_, ih, rfl⟩

/-- `transformDown` where a node may refuse its new subtrees, which ends the walk: the nodes handed
to the rewrite so far, in order, and the result of a walk that came to its end. -/
def walkDown (rewrite : Tree α → Tree α) (accepts : α → List (Tree α) → Bool)
    (weight : Tree α → Nat)
    (shrinks : ∀ t, ∀ child ∈ (rewrite t).children, weight child < weight t) (t : Tree α) :
    List (Tree α) × Option (Tree α) :=
  let below := sequence ((rewrite t).children.attach.map fun child =>
    walkDown rewrite accepts weight shrinks child.1)
  (t :: below.1, below.2.bind fun children =>
    if accepts (rewrite t).label children then some (node (rewrite t).label children) else none)
termination_by weight t
decreasing_by exact shrinks t child.1 child.2

variable {rewrite : Tree α → Tree α} {accepts : α → List (Tree α) → Bool} {weight : Tree α → Nat}
  {shrinks : ∀ t, ∀ child ∈ (rewrite t).children, weight child < weight t}

theorem eq_transformDown_of_walkDown {t t' : Tree α}
    (complete : (walkDown rewrite accepts weight shrinks t).2 = some t') :
    t' = transformDown rewrite weight shrinks t := by
  induction size : weight t using Nat.strongRecOn generalizing t t' with
  | _ _ ih =>
    subst size
    rw [walkDown] at complete
    obtain ⟨children, below, here⟩ := Option.bind_eq_some_iff.mp complete
    split at here
    next =>
      cases here
      rw [transformDown_eq]
      congr 1
      have each := of_sequence_eq_some below
      rw [forall₂_map_left_iff] at each
      rw [← attach_map_val, ← forall₂_eq_eq_eq, forall₂_map_right_iff]
      refine each.flip.imp ?_
      intro value child walked
      exact ih _ (shrinks t child.1 child.2) walked rfl
    next => cases here

theorem walkDown_eq_transformDown
    (always : ∀ label children, accepts label children = true) (t : Tree α) :
    (walkDown rewrite accepts weight shrinks t).2 =
      some (transformDown rewrite weight shrinks t) := by
  induction size : weight t using Nat.strongRecOn generalizing t with
  | _ _ ih =>
    subst size
    rw [walkDown, transformDown]
    refine Option.bind_eq_some_iff.mpr ⟨_, sequence_eq_some ?_, if_pos (always _ _)⟩
    rw [forall₂_map_left_iff, forall₂_map_right_iff]
    refine forall₂_same.mpr ?_
    intro child _
    exact ih _ (shrinks t child.1 child.2) child.1 rfl

section Runs

variable {δ : Type} (exec : α → List δ → δ → Prop)

mutual
/-- The node gives a result for results its subtrees give. -/
inductive Runs : Tree α → δ → Prop
  | node {label : α} {children : List (Tree α)} {inputs : List δ} {output : δ}
      (below : RunsAll children inputs) (here : exec label inputs output) :
      Runs (node label children) output

inductive RunsAll : List (Tree α) → List δ → Prop
  | nil : RunsAll [] []
  | cons {t : Tree α} {rest : List (Tree α)} {input : δ} {inputs : List δ} (first : Runs t input)
      (later : RunsAll rest inputs) : RunsAll (t :: rest) (input :: inputs)
end

variable {exec}

theorem runsAll_iff {children : List (Tree α)} {inputs : List δ} :
    RunsAll exec children inputs ↔ List.Forall₂ (Runs exec) children inputs := by
  constructor
  · intro runs
    induction children generalizing inputs with
    | nil => cases runs; exact .nil
    | cons t rest ih =>
      cases runs with
      | cons first later => exact .cons first (ih later)
  · intro runs
    induction runs with
    | nil => exact .nil
    | cons first _ ih => exact .cons first ih

theorem runs_iff {t : Tree α} {output : δ} :
    Runs exec t output ↔ ∃ inputs, List.Forall₂ (Runs exec) t.children inputs ∧
      exec t.label inputs output := by
  constructor
  · intro runs
    cases runs with
    | node below here => exact ⟨_, runsAll_iff.mp below, here⟩
  · rintro ⟨inputs, below, here⟩
    cases t with
    | node label children => exact .node (runsAll_iff.mpr below) here

variable (exec) in
/-- Every result of the first tree is related to a result of the second. -/
def Refines (related : δ → δ → Prop) (s t : Tree α) : Prop :=
  ∀ output, Runs exec s output → ∃ output', Runs exec t output' ∧ related output output'

variable {related related' : δ → δ → Prop}

theorem exists_inputs {ss ts : List (Tree α)} (children : List.Forall₂ (Refines exec related) ss ts)
    {inputs : List δ} (runs : List.Forall₂ (Runs exec) ss inputs) :
    ∃ inputs', List.Forall₂ (Runs exec) ts inputs' ∧ List.Forall₂ related inputs inputs' := by
  induction children generalizing inputs with
  | nil =>
    cases runs
    exact ⟨[], .nil, .nil⟩
  | cons first _ ih =>
    cases runs with
    | cons run rest =>
      obtain ⟨input', run', here⟩ := first _ run
      obtain ⟨inputs', rest', later⟩ := ih rest
      exact ⟨input' :: inputs', .cons run' rest', .cons here later⟩

theorem Refines.node {s t : Tree α}
    (children : List.Forall₂ (Refines exec related) s.children t.children)
    (respects : ∀ inputs inputs' output, List.Forall₂ related inputs inputs' →
      exec s.label inputs output →
        ∃ output', exec t.label inputs' output' ∧ related' output output') :
    Refines exec related' s t := by
  intro output run
  obtain ⟨inputs, below, here⟩ := runs_iff.mp run
  obtain ⟨inputs', below', related⟩ := exists_inputs children below
  obtain ⟨output', here', same⟩ := respects inputs inputs' output related here
  exact ⟨output', runs_iff.mpr ⟨inputs', below', here'⟩, same⟩

end Runs

end Tree

end Sqe.Library
