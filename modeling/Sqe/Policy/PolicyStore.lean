/- GID: Sqe/Policy/PolicyStore
   generality: I
   digest: Ranger policies with their deny items, and what an edit leaves to each principal. -/

import Sqe.Policy.RangerGrants

/-!
An item may name several principals, and several items may name one. A request edits the first item
that names its grantee and no one else; what the other items confer stays.
-/

set_option autoImplicit false

namespace Sqe.Policy.RangerGrants

open Function (update update_self update_of_ne)
open List

inductive Field
  | users
  | groups
  | roles
  deriving DecidableEq

def PolicyItem.field (item : PolicyItem) : Field → List String
  | .users => item.users
  | .groups => item.groups
  | .roles => item.roles

def PolicyItem.setField (item : PolicyItem) (names : List String) : Field → PolicyItem
  | .users => { item with users := names }
  | .groups => { item with groups := names }
  | .roles => { item with roles := names }

structure StoredPolicy extends AccessPolicy where
  denyPolicyItems : List PolicyItem
  isEnabled : Bool
  deriving DecidableEq

abbrev Store : Type := Resource → Option StoredPolicy

/-- `apply_via_policy_api`: everything but the allow items is written back as it was read. -/
def applyStored (op : Op) (store : Store) (body : GrantRevokeRequest) : Store :=
  match op, store body.resource with
  | .revoke, none => store
  | .grant, none =>
    update store body.resource (some ⟨⟨[buildAllowItem body], []⟩, [], true⟩)
  | op, some policy =>
    update store body.resource (some
      { policy with policyItems :=
          (mergeItems op body policy.policyItems).filter fun item => !item.accesses.isEmpty })

/-- The allow items and the labels of a store. -/
def allowSide (store : Store) : Service := fun r => (store r).map StoredPolicy.toAccessPolicy

def itemsAt (store : Store) (r : Resource) : List PolicyItem :=
  match store r with
  | some policy => policy.policyItems
  | none => []

theorem itemsAt_congr {store other : Store} {r : Resource} (same : store r = other r) :
    itemsAt store r = itemsAt other r := by
  rw [itemsAt, same, itemsAt]

def denyItemsAt (store : Store) (r : Resource) : List PolicyItem :=
  match store r with
  | some policy => policy.denyPolicyItems
  | none => []

/-- An item that names the principal in the field has the access type. -/
def Confers (items : List PolicyItem) (field : Field) (name t : String) : Prop :=
  ∃ item ∈ items, name ∈ item.field field ∧ t ∈ item.accesses

variable {items : List PolicyItem} {field : Field} {name t : String}

theorem confers_append (front back : List PolicyItem) :
    Confers (front ++ back) field name t ↔
      Confers front field name t ∨ Confers back field name t := by
  simp only [Confers, mem_append, or_and_right, exists_or]

theorem confers_cons (item : PolicyItem) :
    Confers (item :: items) field name t ↔
      name ∈ item.field field ∧ t ∈ item.accesses ∨ Confers items field name t := by
  simp only [Confers, mem_cons, exists_eq_or_imp]

theorem confers_filter (items : List PolicyItem) :
    Confers (items.filter fun item => !item.accesses.isEmpty) field name t ↔
      Confers items field name t := by
  constructor
  · rintro ⟨item, listed, rest⟩
    exact ⟨item, mem_of_mem_filter listed, rest⟩
  · rintro ⟨item, listed, named, given⟩
    refine ⟨item, mem_filter.mpr ⟨listed, ?_⟩, named, given⟩
    rw [Bool.not_eq_true', isEmpty_eq_false_iff]
    exact ne_nil_of_mem given

def allowField : Grantee → Field
  | .user _ => .users
  | .role _ | .group _ => .roles

variable (g : Grantee)

def isOwn (item : PolicyItem) : Bool :=
  itemGrantees item = ((granteeToFields g).1, [], (granteeToFields g).2)

def ownAccesses (items : List PolicyItem) : List String :=
  ((items.find? (isOwn g)).map PolicyItem.accesses).getD []

def others (items : List PolicyItem) : List PolicyItem := items.eraseP (isOwn g)

structure MadeFor (body : GrantRevokeRequest) : Prop where
  users : body.users = (granteeToFields g).1
  groups : body.groups = []
  roles : body.roles = (granteeToFields g).2

section Own

variable {g : Grantee} {body : GrantRevokeRequest} {item : PolicyItem}

theorem madeFor_requestFor (policy : PlannedPolicy) (g : Grantee) (delegateAdmin : Bool) :
    MadeFor g (requestFor policy g delegateAdmin) := ⟨rfl, rfl, rfl⟩

theorem insertionSort_granteeToFields (g : Grantee) :
    (granteeToFields g).1.insertionSort (· ≤ ·) = (granteeToFields g).1 ∧
      (granteeToFields g).2.insertionSort (· ≤ ·) = (granteeToFields g).2 := by
  cases g <;> exact ⟨rfl, rfl⟩

theorem MadeFor.same_grantees_iff (made : MadeFor g body) :
    itemGrantees item = itemGrantees (buildAllowItem body) ↔ isOwn g item = true := by
  have sorted := insertionSort_granteeToFields g
  have same : itemGrantees (buildAllowItem body) =
      ((granteeToFields g).1, [], (granteeToFields g).2) := by
    simp only [itemGrantees, buildAllowItem, made.users, made.groups, made.roles, sorted]
    rfl
  rw [same, isOwn, decide_eq_true_iff]

theorem eq_of_insertionSort_singleton {names : List String} {name : String}
    (sorted : names.insertionSort (· ≤ ·) = [name]) : names = [name] := by
  have perm := (perm_insertionSort (· ≤ ·) names).symm
  rw [sorted] at perm
  exact perm_singleton.mp perm

theorem eq_nil_of_insertionSort {names : List String}
    (sorted : names.insertionSort (· ≤ ·) = []) : names = [] := by
  have perm := (perm_insertionSort (· ≤ ·) names).symm
  rw [sorted] at perm
  exact perm_nil.mp perm

theorem mem_field_of_own (own : isOwn g item = true) :
    name ∈ item.field field ↔ field = allowField g ∧ name = g.name := by
  rw [isOwn, decide_eq_true_iff, itemGrantees, Prod.mk.injEq, Prod.mk.injEq] at own
  obtain ⟨users, groups, roles⟩ := own
  have noGroups := eq_nil_of_insertionSort groups
  cases g with
  | user n =>
    have users := eq_of_insertionSort_singleton users
    have roles := eq_nil_of_insertionSort roles
    cases field <;>
      simp [PolicyItem.field, allowField, Grantee.name, users, roles, noGroups]
  | role n | group n =>
    have users := eq_nil_of_insertionSort users
    have roles := eq_of_insertionSort_singleton roles
    cases field <;>
      simp [PolicyItem.field, allowField, Grantee.name, users, roles, noGroups]

theorem own_cases (g : Grantee) (items : List PolicyItem) :
    (∀ item ∈ items, isOwn g item = false) ∨
      ∃ front own back, items = front ++ own :: back ∧ isOwn g own = true ∧
        ∀ item ∈ front, isOwn g item = false := by
  cases found : items.find? (isOwn g) with
  | none =>
    refine .inl fun item listed => ?_
    simpa using find?_eq_none.mp found item listed
  | some own =>
    obtain ⟨is, front, back, rfl, before⟩ := find?_eq_some_iff_append.mp found
    exact .inr ⟨front, own, back, rfl, is, fun item listed => by simpa using before item listed⟩

theorem others_of_none (none : ∀ item ∈ items, isOwn g item = false) : others g items = items :=
  eraseP_of_forall_not fun item listed => by simp [none item listed]

theorem ownAccesses_of_none (none : ∀ item ∈ items, isOwn g item = false) :
    ownAccesses g items = [] := by
  rw [ownAccesses, find?_eq_none.mpr fun item listed => by simp [none item listed]]
  rfl

variable {front back : List PolicyItem} {own : PolicyItem}

theorem others_of_first (is : isOwn g own = true) (before : ∀ item ∈ front, isOwn g item = false) :
    others g (front ++ own :: back) = front ++ back := by
  rw [others, eraseP_append_right _ fun item listed => by simp [before item listed],
    eraseP_cons_of_pos is]

theorem ownAccesses_of_first
    (is : isOwn g own = true) (before : ∀ item ∈ front, isOwn g item = false) :
    ownAccesses g (front ++ own :: back) = own.accesses := by
  have found : (front ++ own :: back).find? (isOwn g) = some own :=
    find?_eq_some_iff_append.mpr ⟨is, front, back, rfl, fun item listed => by
      simp [before item listed]⟩
  rw [ownAccesses, found]
  rfl

theorem confers_iff_own_or_others (g : Grantee) (items : List PolicyItem) :
    Confers items field name t ↔
      (field = allowField g ∧ name = g.name) ∧ t ∈ ownAccesses g items ∨
        Confers (others g items) field name t := by
  rcases own_cases g items with none | ⟨front, own, -, rfl, is, before⟩
  · rw [others_of_none none, ownAccesses_of_none none]
    simp
  · rw [others_of_first is before, ownAccesses_of_first is before, confers_append, confers_append,
      confers_cons, mem_field_of_own is]
    tauto

section

variable (made : MadeFor g body)
include made

theorem mergeItems_of_none (op : Op)
    (none : ∀ item ∈ items, isOwn g item = false) :
    mergeItems op body items = items ++ mergeItems op body [] := by
  induction items with
  | nil => rfl
  | cons item items ih =>
    have other : ¬ itemGrantees item = itemGrantees (buildAllowItem body) := by
      rw [made.same_grantees_iff, none item mem_cons_self]
      exact Bool.false_ne_true
    rw [mergeItems, if_neg other, ih (forall_mem_cons.mp none).2, cons_append]

theorem mergeItems_of_first (op : Op) (is : isOwn g own = true)
    (before : ∀ item ∈ front, isOwn g item = false) :
    mergeItems op body (front ++ own :: back) = front ++ mergeItem op body own :: back := by
  induction front with
  | nil => rw [nil_append, mergeItems, if_pos (made.same_grantees_iff.mpr is), nil_append]
  | cons item front ih =>
    have other : ¬ itemGrantees item = itemGrantees (buildAllowItem body) := by
      rw [made.same_grantees_iff, before item mem_cons_self]
      exact Bool.false_ne_true
    rw [cons_append, mergeItems, if_neg other, ih (forall_mem_cons.mp before).2, cons_append]

theorem MadeFor.isOwn_build : isOwn g (buildAllowItem body) = true :=
  made.same_grantees_iff.mp rfl

theorem mergeItems_own (op : Op) (items : List PolicyItem) :
    others g (mergeItems op body items) = others g items ∧
      ∀ t, t ∈ ownAccesses g (mergeItems op body items) ↔
        changed op body t (t ∈ ownAccesses g items) := by
  rcases own_cases g items with none | ⟨front, own, -, rfl, is, before⟩
  · rw [mergeItems_of_none made op none, others_of_none none, ownAccesses_of_none none]
    cases op with
    | grant =>
      rw [mergeItems, others_of_first made.isOwn_build none,
        ownAccesses_of_first made.isOwn_build none, append_nil]
      exact ⟨rfl, fun t => by simp [changed, buildAllowItem]⟩
    | revoke =>
      rw [mergeItems, append_nil, others_of_none none, ownAccesses_of_none none]
      exact ⟨rfl, fun t => by simp [changed]⟩
  · have still : isOwn g (mergeItem op body own) = true := by cases op <;> exact is
    rw [mergeItems_of_first made op is before, others_of_first still before,
      others_of_first is before, ownAccesses_of_first still before, ownAccesses_of_first is before]
    exact ⟨rfl, fun t => mem_mergeItem op body own t⟩

theorem confers_mergeItems (op : Op) (items : List PolicyItem) :
    Confers ((mergeItems op body items).filter fun item => !item.accesses.isEmpty) field name t ↔
      (field = allowField g ∧ name = g.name) ∧ changed op body t (t ∈ ownAccesses g items) ∨
        Confers (others g items) field name t := by
  obtain ⟨same, own⟩ := mergeItems_own made op items
  rw [confers_filter, confers_iff_own_or_others g, same, own]

end

theorem applyStored_of_ne (op : Op) (store : Store) {r : Resource} (elsewhere : r ≠ body.resource) :
    applyStored op store body r = store r := by
  cases op <;> cases present : store body.resource <;>
    simp only [applyStored, present, update_of_ne elsewhere]

theorem confers_applyStored (made : MadeFor g body) (op : Op) (store : Store) :
    Confers (itemsAt (applyStored op store body) body.resource) field name t ↔
      (field = allowField g ∧ name = g.name) ∧
          changed op body t (t ∈ ownAccesses g (itemsAt store body.resource)) ∨
        Confers (others g (itemsAt store body.resource)) field name t := by
  rw [← confers_mergeItems made op]
  cases present : store body.resource with
  | some policy => cases op <;> simp only [itemsAt, applyStored, present, update_self]
  | none =>
    cases op with
    | grant =>
      simp only [itemsAt, applyStored, present, update_self]
      rw [confers_filter]
      rfl
    | revoke =>
      simp only [itemsAt, applyStored, present]
      rfl

theorem denyItemsAt_applyStored (op : Op) (store : Store) (body : GrantRevokeRequest)
    (r : Resource) : denyItemsAt (applyStored op store body) r = denyItemsAt store r := by
  by_cases here : r = body.resource
  · subst here
    cases op <;> cases present : store body.resource <;>
      simp only [denyItemsAt, applyStored, present, update_self]
  · rw [denyItemsAt, applyStored_of_ne op store here, denyItemsAt]

end Own

end Sqe.Policy.RangerGrants
