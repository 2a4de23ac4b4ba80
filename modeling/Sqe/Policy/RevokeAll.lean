/- GID: Sqe/Policy/RevokeAll
   generality: I
   digest: REVOKE ALL PRIVILEGES, and what it leaves to the grantee. -/

import Sqe.Policy.GrantProfile
import Sqe.Policy.PolicyStore

set_option autoImplicit false

namespace Sqe.Policy.RangerGrants

open List
open Function (update update_self)

/-- `REVOKE ALL PRIVILEGES ON object FROM grantee`. -/
structure RevokeAll where
  catalog : Option String
  namespaceName : Option String
  table : Option String
  grantee : Grantee
  grantor : Option String
  object : GrantObjectKind
  deriving DecidableEq

/-- The privilege the statement borrows, to plan the coordinate it names. -/
def RevokeAll.privilege (stmt : RevokeAll) : String :=
  match stmt.object with
  | .view => "SELECT VIEW"
  | .table => "SELECT"

theorem RevokeAll.privilege_notAll (stmt : RevokeAll) : isAllPrivileges stmt.privilege = false := by
  rw [RevokeAll.privilege]
  cases stmt.object <;> decide +kernel

def RevokeAll.coordinate (stmt : RevokeAll) : Statement where
  privilege := stmt.privilege
  catalog := stmt.catalog
  namespaceName := stmt.namespaceName
  table := stmt.table
  grantee := stmt.grantee
  grantor := stmt.grantor
  object := stmt.object
  notAll := stmt.privilege_notAll

/-- The field `access_types_held` and `remove_all_deny_items` look in. -/
def kindField : Grantee → Field
  | .user _ => .users
  | .role _ => .roles
  | .group _ => .groups

/-- `access_types_held`, unsorted: the request only tests membership. -/
def accessTypesHeld (store : Store) (r : Resource) (g : Grantee) : List String :=
  ((itemsAt store r).filter fun item => (item.field (kindField g)).contains g.name).flatMap
    PolicyItem.accesses

variable (backend : Backend) (store : Store)

def removeAllGrantLabels (r : Resource) (g : Grantee) : Store :=
  match store r with
  | none => store
  | some policy =>
    update store r (some
      { policy with policyLabels := policy.policyLabels.filter fun label =>
          match parseGrantLabel backend label with
          | some (_, labelName, _) => labelName != g.name
          | none => true })

/-- A deny item without the grantee; dropped when it named no one else. -/
def withoutGrantee (g : Grantee) (item : PolicyItem) : Option PolicyItem :=
  if (item.field (kindField g)).contains g.name then
    let remaining := (item.field (kindField g)).filter (· != g.name)
    let othersNamed := [Field.users, .roles, .groups].any fun f =>
      f != kindField g && !(item.field f).isEmpty
    if remaining.isEmpty && !othersNamed then none
    else some (item.setField remaining (kindField g))
  else some item

/-- The caller holds the authority to lift a deny: under the policy API the engine does. -/
def removeAllDenyItems (store : Store) (r : Resource) (g : Grantee) : Store :=
  match store r with
  | none => store
  | some policy =>
    update store r (some
      { policy with denyPolicyItems := policy.denyPolicyItems.filterMap (withoutGrantee g) })

def revokeAllAt (r : Resource) (g : Grantee) : Store :=
  let held := accessTypesHeld store r g
  let store :=
    if held.isEmpty then store
    else applyStored .revoke store (requestFor ⟨r, held⟩ g false)
  removeAllDenyItems (removeAllGrantLabels backend store r g) r g

def revokeAllTarget (backend : Backend) (stmt : RevokeAll) : Except GrantError Resource := do
  let catalog ← validatedCatalog stmt.coordinate
  let policy ← deepestPolicy backend stmt.object stmt.coordinate.privilege catalog
    stmt.namespaceName stmt.table
  let _ ← requiredGrantor stmt.coordinate "revoke"
  return policy.resource

def revokeAll (stmt : RevokeAll) :
    Except GrantError (Resource × Store) := do
  let r ← revokeAllTarget backend stmt
  return (r, revokeAllAt backend store r stmt.grantee)

section Allow

variable {store : Store} {r : Resource} {g : Grantee} {field : Field} {name t : String}

theorem itemsAt_removeAllGrantLabels (backend : Backend) :
    itemsAt (removeAllGrantLabels backend store r g) r = itemsAt store r := by
  cases present : store r <;>
    simp only [removeAllGrantLabels, itemsAt, present, update_self]

theorem denyItemsAt_removeAllGrantLabels (backend : Backend) :
    denyItemsAt (removeAllGrantLabels backend store r g) r = denyItemsAt store r := by
  cases present : store r <;>
    simp only [removeAllGrantLabels, denyItemsAt, present, update_self]

theorem itemsAt_removeAllDenyItems :
    itemsAt (removeAllDenyItems store r g) r = itemsAt store r := by
  cases present : store r <;>
    simp only [removeAllDenyItems, itemsAt, present, update_self]

theorem denyItemsAt_removeAllDenyItems :
    denyItemsAt (removeAllDenyItems store r g) r =
      (denyItemsAt store r).filterMap (withoutGrantee g) := by
  cases present : store r <;>
    simp only [removeAllDenyItems, denyItemsAt, present, update_self, filterMap_nil]

theorem mem_accessTypesHeld :
    t ∈ accessTypesHeld store r g ↔ Confers (itemsAt store r) (kindField g) g.name t := by
  simp only [accessTypesHeld, mem_flatMap, mem_filter, Confers, contains_iff_mem, and_assoc]

theorem confers_revokeAllAt (backend : Backend) :
    Confers (itemsAt (revokeAllAt backend store r g) r) field name t ↔
      (field = allowField g ∧ name = g.name) ∧
          (t ∈ ownAccesses g (itemsAt store r) ∧ t ∉ accessTypesHeld store r g) ∨
        Confers (others g (itemsAt store r)) field name t := by
  rw [revokeAllAt, itemsAt_removeAllDenyItems, itemsAt_removeAllGrantLabels]
  split
  next nothing =>
    rw [List.isEmpty_iff] at nothing
    rw [confers_iff_own_or_others g, nothing]
    simp
  next =>
    exact confers_applyStored (madeFor_requestFor ⟨r, accessTypesHeld store r g⟩ g false) .revoke
      store

/-- No item but the grantee's own confers anything on it; and what a group's own item has, some item
that names it as a group has too. -/
structure Apart (items : List PolicyItem) (g : Grantee) : Prop where
  unshared : ∀ t, ¬ Confers (others g items) (allowField g) g.name t
  grouped : ∀ n, g = .group n → ∀ t ∈ ownAccesses g items, Confers items .groups n t

theorem own_subset_held_iff :
    (∀ t ∈ ownAccesses g (itemsAt store r), t ∈ accessTypesHeld store r g) ↔
      ∀ n, g = .group n → ∀ t ∈ ownAccesses g (itemsAt store r),
        Confers (itemsAt store r) .groups n t := by
  have own : ∀ t ∈ ownAccesses g (itemsAt store r),
      Confers (itemsAt store r) (allowField g) g.name t := fun t given =>
    (confers_iff_own_or_others g _).mpr (.inl ⟨⟨rfl, rfl⟩, given⟩)
  constructor
  · rintro seen n rfl t given
    exact mem_accessTypesHeld.mp (seen t given)
  · intro grouped t given
    refine mem_accessTypesHeld.mpr ?_
    cases g with
    | user n => exact own t given
    | role n => exact own t given
    | group n => exact grouped n rfl t given

theorem cleared_iff (backend : Backend) :
    (∀ t, ¬ Confers (itemsAt (revokeAllAt backend store r g) r) (allowField g) g.name t) ↔
      Apart (itemsAt store r) g := by
  have pointwise : ∀ t,
      ¬ Confers (itemsAt (revokeAllAt backend store r g) r) (allowField g) g.name t ↔
        (t ∈ ownAccesses g (itemsAt store r) → t ∈ accessTypesHeld store r g) ∧
          ¬ Confers (others g (itemsAt store r)) (allowField g) g.name t := by
    intro t
    rw [confers_revokeAllAt]
    tauto
  constructor
  · intro cleared
    exact ⟨fun t => ((pointwise t).mp (cleared t)).2,
      own_subset_held_iff.mp fun t => ((pointwise t).mp (cleared t)).1⟩
  · intro apart t
    exact (pointwise t).mpr ⟨own_subset_held_iff.mpr apart.grouped t, apart.unshared t⟩

end Allow

section Deny

variable {g : Grantee} {item after : PolicyItem} {field : Field} {name t : String}

theorem field_setField (item : PolicyItem) (names : List String) (f f' : Field) :
    (item.setField names f).field f' = if f' = f then names else item.field f' := by
  cases f <;> cases f' <;> rfl

theorem withoutGrantee_some (kept : withoutGrantee g item = some after) :
    after.accesses = item.accesses ∧ ∀ field name, name ∈ after.field field ↔
      name ∈ item.field field ∧ ¬ (field = kindField g ∧ name = g.name) := by
  unfold withoutGrantee at kept
  split at kept
  next named =>
    dsimp only at kept
    split at kept
    next => cases kept
    next =>
      cases kept
      refine ⟨by cases g <;> rfl, fun field name => ?_⟩
      rw [field_setField]
      by_cases theirs : field = kindField g
      · simp [theirs]
      · simp [theirs]
  next absent =>
    cases kept
    refine ⟨rfl, fun field name => (and_iff_left_of_imp fun named => ?_).symm⟩
    rintro ⟨rfl, rfl⟩
    exact absent (contains_iff_mem.mpr named)

theorem withoutGrantee_none (dropped : withoutGrantee g item = none)
    (named : name ∈ item.field field) : field = kindField g ∧ name = g.name := by
  unfold withoutGrantee at dropped
  split at dropped
  next =>
    dsimp only at dropped
    split at dropped
    next nobody =>
      rw [Bool.and_eq_true, Bool.not_eq_true', any_eq_false] at nobody
      obtain ⟨remaining, others⟩ := nobody
      have theirs : field = kindField g := by
        by_contra other
        have listed : field ∈ [Field.users, .roles, .groups] := by cases field <;> simp
        have empty := others field listed
        simp only [bne_iff_ne.mpr other, Bool.true_and, Bool.not_eq_true, Bool.not_eq_false',
          List.isEmpty_iff] at empty
        rw [empty] at named
        cases named
      refine ⟨theirs, ?_⟩
      by_contra other
      have kept : name ∈ (item.field (kindField g)).filter (· != g.name) :=
        mem_filter.mpr ⟨theirs ▸ named, bne_iff_ne.mpr other⟩
      rw [List.isEmpty_iff.mp remaining] at kept
      cases kept
    next => cases dropped
  next => cases dropped

theorem confers_filterMap_withoutGrantee (items : List PolicyItem) :
    Confers (items.filterMap (withoutGrantee g)) field name t ↔
      Confers items field name t ∧ ¬ (field = kindField g ∧ name = g.name) := by
  constructor
  · rintro ⟨after, listed, named, given⟩
    obtain ⟨item, listed, kept⟩ := mem_filterMap.mp listed
    obtain ⟨accesses, fields⟩ := withoutGrantee_some kept
    obtain ⟨named, other⟩ := (fields field name).mp named
    exact ⟨⟨item, listed, named, accesses ▸ given⟩, other⟩
  · rintro ⟨⟨item, listed, named, given⟩, other⟩
    cases kept : withoutGrantee g item with
    | none => exact absurd (withoutGrantee_none kept named) other
    | some after =>
      obtain ⟨accesses, fields⟩ := withoutGrantee_some kept
      exact ⟨after, mem_filterMap.mpr ⟨item, listed, kept⟩,
        (fields field name).mpr ⟨named, other⟩, accesses ▸ given⟩

end Deny

theorem denyItemsAt_revokeAllAt (backend : Backend) (store : Store) (r : Resource) (g : Grantee) :
    denyItemsAt (revokeAllAt backend store r g) r =
      (denyItemsAt store r).filterMap (withoutGrantee g) := by
  rw [revokeAllAt, denyItemsAt_removeAllDenyItems, denyItemsAt_removeAllGrantLabels]
  split
  next => rfl
  next => rw [denyItemsAt_applyStored]

/-- `REVOKE ALL PRIVILEGES` lifts the grantee's denials and leaves everyone else as they were; it
leaves the grantee nothing exactly when all it held was in an item of its own. -/
theorem revokeAll_clears_iff (backend : Backend) (store store' : Store) (stmt : RevokeAll)
    (r : Resource) (done : revokeAll backend store stmt = .ok (r, store')) :
    ((∀ t, ¬ Confers (itemsAt store' r) (allowField stmt.grantee) stmt.grantee.name t) ↔
        Apart (itemsAt store r) stmt.grantee) ∧
      (∀ item ∈ denyItemsAt store' r, stmt.grantee.name ∉ item.field (kindField stmt.grantee)) ∧
      (∀ field name, ¬ (field = allowField stmt.grantee ∧ name = stmt.grantee.name) → ∀ t,
        (Confers (itemsAt store' r) field name t ↔ Confers (itemsAt store r) field name t)) ∧
      ∀ field name, ¬ (field = kindField stmt.grantee ∧ name = stmt.grantee.name) → ∀ t,
        (Confers (denyItemsAt store' r) field name t ↔
          Confers (denyItemsAt store r) field name t) := by
  have is : store' = revokeAllAt backend store r stmt.grantee := by
    unfold revokeAll at done
    cases target : revokeAllTarget backend stmt with
    | error e => rw [target] at done; cases done
    | ok r' => rw [target] at done; cases done; rfl
  rw [is, denyItemsAt_revokeAllAt]
  refine ⟨cleared_iff backend, ?_, fun field name other t => ?_, fun field name other t => ?_⟩
  · intro item listed named
    obtain ⟨before, -, kept⟩ := mem_filterMap.mp listed
    exact ((withoutGrantee_some kept).2 _ _ |>.mp named).2 ⟨rfl, rfl⟩
  · rw [confers_revokeAllAt, confers_iff_own_or_others stmt.grantee (itemsAt store r)]
    simp only [other, false_and]
  · rw [confers_filterMap_withoutGrantee]
    exact and_iff_left other

def revokeAllOnOrders (grantee : Grantee) : RevokeAll :=
  ⟨some "wh", some "sales", some "orders", grantee, some "root", .table⟩

def storeOf (items denyItems : List PolicyItem) : Store :=
  update (fun _ => none) orders (some ⟨⟨items, []⟩, denyItems, true⟩)

theorem revokeAll_of_target {backend : Backend} {stmt : RevokeAll} {r : Resource}
    (target : revokeAllTarget backend stmt = .ok r) (store : Store) :
    revokeAll backend store stmt = .ok (r, revokeAllAt backend store r stmt.grantee) := by
  rw [revokeAll, target]
  rfl

def sharedItem : PolicyItem := ⟨["alice", "bob"], [], [], ["table-data-read"], false⟩

/-- What a grant to the group `staff` writes. -/
def staffItem : PolicyItem := ⟨[], [], ["staff"], ["table-data-read"], false⟩

def aliceItem : PolicyItem := ⟨["alice"], [], [], ["table-data-read"], false⟩

def besideBob : Store := storeOf [⟨["bob"], [], [], ["table-data-read"], false⟩, aliceItem] []

/-- `alice` keeps what an item gives to `alice` and `bob`, and the group `staff` all it had. -/
theorem revokeAll_leaves_access :
    (revokeAll vendored (storeOf [sharedItem] []) (revokeAllOnOrders (.user "alice")) =
        .ok (orders, revokeAllAt vendored (storeOf [sharedItem] []) orders (.user "alice")) ∧
      Confers (itemsAt (revokeAllAt vendored (storeOf [sharedItem] []) orders
        (.user "alice")) orders) (allowField (.user "alice")) "alice" "table-data-read") ∧
    (revokeAll vendored (storeOf [staffItem] []) (revokeAllOnOrders (.group "staff")) =
        .ok (orders, revokeAllAt vendored (storeOf [staffItem] []) orders (.group "staff")) ∧
      Confers (itemsAt (revokeAllAt vendored (storeOf [staffItem] []) orders
        (.group "staff")) orders) (allowField (.group "staff")) "staff" "table-data-read") := by
  refine ⟨⟨revokeAll_of_target (by decide +kernel) _, ?_⟩,
    revokeAll_of_target (by decide +kernel) _, ?_⟩
  · exact ⟨sharedItem, by decide +kernel, by decide, by decide⟩
  · exact ⟨staffItem, by decide +kernel, by decide, by decide⟩

/-- An item of its own, next to one of `bob`: `alice` is left nothing. -/
theorem revokeAll_clears_alice :
    revokeAll vendored besideBob (revokeAllOnOrders (.user "alice")) =
        .ok (orders, revokeAllAt vendored besideBob orders (.user "alice")) ∧
      ∀ t, ¬ Confers (itemsAt (revokeAllAt vendored besideBob orders (.user "alice")) orders)
        .users "alice" t := by
  have target : revokeAllTarget vendored (revokeAllOnOrders (.user "alice")) = .ok orders := by
    decide +kernel
  have done := revokeAll_of_target target besideBob
  refine ⟨done, (revokeAll_clears_iff vendored _ _ _ _ done).1.mpr ⟨?_, nofun⟩⟩
  rintro t ⟨item, listed, named, -⟩
  have left : others (revokeAllOnOrders (.user "alice")).grantee (itemsAt besideBob orders) =
      [⟨["bob"], [], [], ["table-data-read"], false⟩] := by decide +kernel
  rw [left, mem_singleton] at listed
  rw [listed] at named
  exact absurd named (by decide)

end Sqe.Policy.RangerGrants
