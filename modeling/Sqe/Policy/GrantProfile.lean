/- GID: Sqe/Policy/GrantProfile
   generality: I
   digest: The vendored grant-profile.json, its privileges, aliases and implied access types. -/

import Mathlib.Data.List.TakeWhile
import Sqe.Library.FirstWins
import Sqe.Policy.RangerGrants

/-!
The profile in full, but for its version and the access types that imply none.
-/

set_option autoImplicit false

namespace Sqe.Policy.RangerGrants

open List
open Library.FirstWins (mem_of_lookup)

/-- The levels that most privileges pass through to a table. -/
def traversal : List LevelPlan :=
  [⟨.catalogLevel, ["namespace-list"], []⟩, ⟨.namespaceLevel, ["namespace-properties-read"], []⟩]

def grantPrivileges : List (String × List LevelPlan) :=
  [("SELECT", traversal ++ [⟨.tableLevel, ["table-data-read"], []⟩]),
   ("MONITOR", traversal ++ [⟨.tableLevel, ["table-properties-read", "table-list"], []⟩]),
   ("INSERT", traversal ++ [⟨.tableLevel, ["table-data-write"], ["table-location-set",
      "table-uuid-assign", "table-format-version-upgrade"]⟩]),
   ("MODIFY", traversal ++ [⟨.tableLevel, ["table-data-write"], []⟩]),
   ("ALTER", traversal ++ [⟨.tableLevel, ["table-schema-add", "table-schema-set-current",
      "table-properties-set", "table-structure-manage", "table-sort-order-add",
      "table-partition-spec-add"], []⟩]),
   ("CREATE", [⟨.catalogLevel, ["namespace-list"], []⟩, ⟨.namespaceLevel,
      ["namespace-properties-read", "table-create"], []⟩]),
   ("CREATE NAMESPACE", [⟨.catalogLevel, ["namespace-list", "namespace-create"], []⟩]),
   ("CREATE VIEW", [⟨.catalogLevel, ["namespace-list"], []⟩, ⟨.namespaceLevel,
      ["namespace-properties-read", "view-create"], []⟩]),
   ("DROP", traversal ++ [⟨.tableLevel, ["table-drop"], []⟩]),
   ("DROP VIEW", [⟨.catalogLevel, ["namespace-list"], []⟩, ⟨.namespaceLevel,
      ["namespace-properties-read", "view-list"], []⟩, ⟨.tableLevel, ["view-drop"], []⟩]),
   ("SELECT VIEW", [⟨.catalogLevel, ["namespace-list"], []⟩, ⟨.namespaceLevel,
      ["namespace-properties-read", "view-list"], []⟩, ⟨.tableLevel, ["view-properties-read",
      "view-list"], []⟩]),
   ("APPLY POLICY", traversal ++ [⟨.tableLevel, ["table-policy-attach", "table-policy-detach"],
      []⟩]),
   ("MANAGE", [⟨.catalogLevel, ["catalog-content-manage"], []⟩]),
   ("ALL", [⟨.catalogLevel, ["catalog-content-manage"], []⟩]),
   ("USE", [⟨.catalogLevel, ["namespace-list"], []⟩, ⟨.namespaceLevel, ["namespace-properties-read",
      "table-list"], []⟩])]

def grantAliases : List (String × String) :=
  [("UPDATE", "INSERT"), ("DELETE", "INSERT"), ("TRUNCATE", "INSERT"), ("MERGE", "INSERT"),
    ("APPEND", "INSERT"), ("WRITE", "MODIFY"), ("READ", "SELECT"), ("USAGE", "USE"),
    ("DESCRIBE", "MONITOR"), ("CREATE TABLE", "CREATE"), ("CREATE SCHEMA", "CREATE NAMESPACE"),
    ("ALL PRIVILEGES", "ALL"), ("ALTER TABLE", "ALTER")]

/-! The file writes the following four lists out wherever they occur. What an access type expands
to does not depend on the order of a list. -/

def tableStructure : List String :=
  ["table-format-version-upgrade", "table-location-set", "table-partition-spec-add",
    "table-partition-specs-remove", "table-properties-remove", "table-properties-set",
    "table-schema-add", "table-schema-set-current", "table-snapshot-ref-remove",
    "table-snapshots-remove", "table-sort-order-add", "table-sort-order-set-default",
    "table-statistics-remove", "table-statistics-set", "table-uuid-assign"]

def tableProperties : List String :=
  tableStructure ++ ["table-list", "table-properties-read", "table-snapshot-add",
    "table-snapshot-ref-set", "table-structure-manage"]

def tableMetadata : List String :=
  tableProperties ++ ["table-create", "table-drop", "table-properties-write"]

def catalogMetadata : List String :=
  tableMetadata ++ ["catalog-list", "catalog-policy-attach", "catalog-policy-detach",
    "catalog-properties-read", "catalog-properties-write", "namespace-create", "namespace-drop",
    "namespace-list", "namespace-metadata-full", "namespace-policy-attach",
    "namespace-policy-detach", "namespace-properties-read", "namespace-properties-write",
    "policy-attach", "policy-create", "policy-detach", "policy-drop", "policy-list", "policy-read",
    "policy-write", "table-metadata-full", "table-policy-attach", "table-policy-detach",
    "view-create", "view-drop", "view-list", "view-metadata-full", "view-properties-read",
    "view-properties-write"]

/-- The access types that imply others, each with those it implies directly. -/
def grantImplied : List (String × List String) :=
  [("catalog-content-manage", catalogMetadata ++ ["catalog-metadata-manage", "table-data-read",
      "table-data-write"]),
   ("catalog-create", ["catalog-list"]),
   ("catalog-metadata-full", ["catalog-create", "catalog-drop", "catalog-list",
      "catalog-properties-read", "catalog-properties-write"]),
   ("catalog-metadata-manage", catalogMetadata),
   ("catalog-properties-read", ["catalog-list"]),
   ("catalog-properties-write", ["catalog-list", "catalog-properties-read"]),
   ("namespace-create", ["namespace-list"]),
   ("namespace-metadata-full", ["namespace-create", "namespace-drop", "namespace-list",
      "namespace-properties-read", "namespace-properties-write"]),
   ("namespace-properties-read", ["namespace-list"]),
   ("namespace-properties-write", ["namespace-list", "namespace-properties-read"]),
   ("policy-create", ["policy-list"]),
   ("policy-metadata-full", ["policy-create", "policy-drop", "policy-list", "policy-read",
      "policy-write"]),
   ("policy-read", ["policy-list"]),
   ("policy-write", ["policy-list", "policy-read"]),
   ("principal-create", ["principal-list"]),
   ("principal-metadata-full", ["principal-create", "principal-drop", "principal-list",
      "principal-properties-read", "principal-properties-write"]),
   ("principal-properties-read", ["principal-list"]),
   ("principal-properties-write", ["principal-list", "principal-properties-read"]),
   ("service-access-manage", ["catalog-create", "catalog-drop", "catalog-list",
      "catalog-metadata-full", "catalog-properties-read", "catalog-properties-write",
      "principal-create", "principal-credentials-reset", "principal-drop", "principal-list",
      "principal-metadata-full", "principal-properties-read", "principal-properties-write"]),
   ("table-create", ["table-list"]),
   ("table-data-read", ["table-list", "table-properties-read"]),
   ("table-data-write", tableProperties ++ ["table-data-read"]),
   ("table-metadata-full", tableMetadata),
   ("table-properties-read", ["table-list"]),
   ("table-properties-write", tableProperties),
   ("table-structure-manage", tableStructure),
   ("view-create", ["view-list"]),
   ("view-metadata-full", ["view-create", "view-drop", "view-list", "view-properties-read",
      "view-properties-write"]),
   ("view-properties-read", ["view-list"]),
   ("view-properties-write", ["view-list", "view-properties-read"])]

private theorem plain_of_lookup {Value : Type} {table : List (String × Value)} {name : String}
    (plain : ∀ entry ∈ table, entry.1 ≠ "" ∧ ':' ∉ entry.1.toList)
    (found : (table.lookup name).isSome = true) : name ≠ "" ∧ ':' ∉ name.toList := by
  obtain ⟨value, at'⟩ := Option.isSome_iff_exists.mp found
  exact plain _ (mem_of_lookup at')

private theorem fromCatalog_of_head {levels : List LevelPlan}
    (starts : levels.head?.map LevelPlan.level = some .catalogLevel) :
    ∃ first rest, levels = first :: rest ∧ first.level = .catalogLevel := by
  cases levels with
  | nil => cases starts
  | cons first rest => exact ⟨first, rest, rfl, Option.some.inj starts⟩

def vendoredProfile : GrantProfile where
  privileges := grantPrivileges
  aliases := grantAliases
  implied := grantImplied
  outermostFirst := by decide
  fromCatalog := fun entry listed => fromCatalog_of_head
    ((by decide : ∀ entry ∈ grantPrivileges,
      entry.2.head?.map LevelPlan.level = some .catalogLevel) entry listed)
  plainNames := by
    rintro name (found | found)
    · exact plain_of_lookup (by decide) found
    · exact plain_of_lookup (by decide) found

def asWritten : Spelling where
  normalise := id
  upperTrim := id
  normalise_normalise _ := rfl
  upperTrim_normalise _ := rfl
  normalise_selectView := rfl
  normalise_dropView := rfl
  upperTrim_user := rfl
  upperTrim_role := rfl

/-- The vendored profile, in a deployment without a realm, of privileges written in capitals. -/
def vendored : Backend := ⟨asWritten, vendoredProfile, ""⟩

section Levels

variable {realm catalog privilege : String} {namespaceName table : Option String}
  {object : GrantObjectKind} {plan : List PlannedPolicy}

private theorem levelResource_ne {a b : Level}
    (within : table.isSome = true → namespaceName.isSome = true) (above : a.depth < b.depth)
    (named : b.depth ≤ (namedLevel namespaceName table).depth) :
    levelResource realm catalog namespaceName table a ≠
      levelResource realm catalog namespaceName table b := by
  cases namespaceName <;> cases table <;> cases a <;> cases b <;>
    simp_all [levelResource, Level.depth, namedLevel]

/-- The levels of a plan are at resources of their own. -/
theorem planFor_vendored_distinct (within : table.isSome = true → namespaceName.isSome = true)
    (planned : planFor vendored object privilege catalog namespaceName table = .ok plan) :
    (plan.map PlannedPolicy.resource).Nodup := by
  rw [planFor, planGrant] at planned
  split at planned
  next => cases planned
  next levels found =>
    split at planned
    next => cases planned
    next =>
      dsimp only at planned
      split at planned
      next => cases planned
      next =>
        cases planned
        have strict : levels.Pairwise fun a b => a.level.depth < b.level.depth :=
          (by decide : ∀ entry ∈ grantPrivileges,
            entry.2.Pairwise fun a b => a.level.depth < b.level.depth) _ (mem_of_lookup found)
        rw [map_map, Nodup, pairwise_map]
        refine (strict.sublist (takeWhile_sublist _)).imp_of_mem fun _ kept above => ?_
        have named := mem_takeWhile_imp kept
        exact levelResource_ne within above (of_decide_eq_true named)

end Levels

def orders : Resource := ⟨none, "wh", some "sales", some "orders"⟩

def sales : Resource := ⟨none, "wh", some "sales", none⟩

end Sqe.Policy.RangerGrants
