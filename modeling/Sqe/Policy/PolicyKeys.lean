/- GID: Sqe/Policy/PolicyKeys
   generality: I
   digest: Which table references are governed under one policy key. -/

import Sqe.Coordinator.PinnedReads

/-!
A key is a dotted text and a table. A Hive root goes in front of its database with a dot; an Iceberg
namespace may hold dots of its own, so the two texts can meet.
-/

set_option autoImplicit false

namespace Sqe.Policy.PolicyKeys

open Sqe.Coordinator.PinnedReads Sqe.Library.Dotted Option

variable {W : Type} {engine : Engine W} {left right : TableReference}

def namespaceOf (reference : TableReference) : Text :=
  (reference.schema.filter fun schema => !schema.isEmpty).getD "default".toList

section

variable (engine : Engine W) (reference : TableReference)

def InHive : Prop :=
  reference.catalog.any engine.hiveCatalogs = true

instance (reference : TableReference) : Decidable (InHive engine reference) :=
  inferInstanceAs (Decidable (_ = true))

/-- A catalog that a scoped key starts with. -/
def Catalogued (catalog : Text) : Prop :=
  reference.catalog = some catalog ∧ (engine.hiveCatalogs catalog = true ∨ catalog ≠ [])

def SharesKey (engine : Engine W) (left right : TableReference) : Prop :=
  ∃ key, resolvePolicyKeyScoped engine left = some key ∧
    resolvePolicyKeyScoped engine right = some key

/-- The namespace part of the key of a reference outside the Hive roots, if it has one. -/
def icebergNamespace : Option Text :=
  if engine.catalogScoped then
    match reference.catalog.filter fun catalog => !catalog.isEmpty with
    | some catalog => some (catalog ++ '.' :: namespaceOf reference)
    | none =>
      if isReservedVirtualRef reference = true ∨ reference.catalog = none ∧
          (pieces '.' (namespaceOf reference)).head?.any engine.hiveCatalogs = true then
        some (namespaceOf reference)
      else none
  else some (namespaceOf reference)

end

theorem key_of_hive {root : Text} (named : left.table ≠ []) (placed : left.catalog = some root)
    (hive : engine.hiveCatalogs root = true) :
    resolvePolicyKeyScoped engine left = some (root ++ '.' :: namespaceOf left, left.table) := by
  have filled : left.table.isEmpty = false := List.isEmpty_eq_false_iff.mpr named
  simp only [resolvePolicyKeyScoped, filled, placed, any_some, hive, if_true,
    Bool.false_eq_true, if_false, getD_some, namespaceOf]

theorem key_outside_hive (named : left.table ≠ []) (outside : ¬ InHive engine left) :
    resolvePolicyKeyScoped engine left =
      (icebergNamespace engine left).map fun text => (text, left.table) := by
  have filled : left.table.isEmpty = false := List.isEmpty_eq_false_iff.mpr named
  simp only [InHive, Bool.not_eq_true] at outside
  simp only [resolvePolicyKeyScoped, icebergNamespace, namespaceOf, filled, outside,
    Bool.false_eq_true, if_false]
  cases engine.catalogScoped with
  | false => rfl
  | true =>
    simp only [if_true]
    cases left.catalog.filter fun catalog => !catalog.isEmpty with
    | some catalog => rfl
    | none =>
      by_cases reserved : isReservedVirtualRef left = true
      · simp only [reserved, if_true, true_or, map_some]
      · simp only [reserved, if_false, false_or, Bool.and_eq_true, isNone_iff_eq_none,
          Bool.false_eq_true]
        split <;> rfl

theorem table_of_key {key : Text × Text} (keyed : resolvePolicyKeyScoped engine left = some key) :
    left.table ≠ [] := by
  intro empty
  simp [resolvePolicyKeyScoped, empty] at keyed

theorem key_of_catalogued {catalog : Text} (byCatalog : engine.catalogScoped = true)
    (named : left.table ≠ []) (placed : Catalogued engine left catalog) :
    resolvePolicyKeyScoped engine left =
      some (catalog ++ '.' :: namespaceOf left, left.table) := by
  by_cases hive : engine.hiveCatalogs catalog = true
  · exact key_of_hive named placed.1 hive
  · have filled : catalog ≠ [] := placed.2.resolve_left hive
    have outside : ¬ InHive engine left := by rwa [InHive, placed.1, any_some]
    have kept : (left.catalog.filter fun catalog => !catalog.isEmpty) = some catalog := by
      rw [placed.1]
      exact filter_some_pos (by simpa using filled)
    rw [key_outside_hive named outside, icebergNamespace, if_pos byCatalog, kept]
    rfl

theorem sharesKey_hive_iff {root : Text} (placed : left.catalog = some root)
    (hive : engine.hiveCatalogs root = true) (outside : ¬ InHive engine right) :
    SharesKey engine left right ↔
      left.table ≠ [] ∧ left.table = right.table ∧
        icebergNamespace engine right = some (root ++ '.' :: namespaceOf left) := by
  constructor
  · rintro ⟨key, mine, theirs⟩
    have named := table_of_key mine
    rw [key_of_hive named placed hive] at mine
    rw [key_outside_hive (table_of_key theirs) outside] at theirs
    obtain ⟨text, spelled, rfl⟩ := map_eq_some_iff.mp theirs
    obtain ⟨written, table⟩ := Prod.mk.inj (some.inj mine)
    exact ⟨named, table, written ▸ spelled⟩
  · rintro ⟨named, same, spelled⟩
    refine ⟨_, key_of_hive named placed hive, ?_⟩
    rw [key_outside_hive (same ▸ named) outside, spelled, same]
    rfl

theorem sharesKey_scoped_iff {catalog other : Text} (byCatalog : engine.catalogScoped = true)
    (placed : Catalogued engine left catalog) (placed' : Catalogued engine right other) :
    SharesKey engine left right ↔
      left.table ≠ [] ∧ left.table = right.table ∧
        catalog ++ '.' :: namespaceOf left = other ++ '.' :: namespaceOf right := by
  constructor
  · rintro ⟨key, mine, theirs⟩
    have named := table_of_key mine
    rw [key_of_catalogued byCatalog named placed] at mine
    rw [key_of_catalogued byCatalog (table_of_key theirs) placed'] at theirs
    cases mine
    obtain ⟨text, table⟩ := Prod.mk.inj (some.inj theirs)
    exact ⟨named, table.symm, text.symm⟩
  · rintro ⟨named, same, spelled⟩
    refine ⟨_, key_of_catalogued byCatalog named placed, ?_⟩
    rw [key_of_catalogued byCatalog (same ▸ named) placed', spelled, same]

/-- A reference below a Hive root and one outside them meet exactly when the second one's key spells
the root, a dot and the first one's database. In catalog-scoped mode two catalogs meet only by a dot
in the name of one of them. -/
theorem keys_meet_iff (engine : Engine W) :
    (∀ left right root, left.catalog = some root → engine.hiveCatalogs root = true →
      ¬ InHive engine right →
        (SharesKey engine left right ↔ left.table ≠ [] ∧ left.table = right.table ∧
            icebergNamespace engine right = some (root ++ '.' :: namespaceOf left))) ∧
    (engine.catalogScoped = true → ∀ left right catalog other,
      Catalogued engine left catalog → Catalogued engine right other →
        (SharesKey engine left right ↔ left.table ≠ [] ∧ left.table = right.table ∧
            catalog ++ '.' :: namespaceOf left = other ++ '.' :: namespaceOf right) ∧
        (catalog ≠ other → '.' ∉ catalog → '.' ∉ other → ¬ SharesKey engine left right)) := by
  refine ⟨fun left right root placed hive outside => sharesKey_hive_iff placed hive outside,
    fun byCatalog left right catalog other placed placed' =>
      ⟨sharesKey_scoped_iff byCatalog placed placed', fun apart flat flat' shared => ?_⟩⟩
  obtain ⟨-, -, same⟩ := (sharesKey_scoped_iff byCatalog placed placed').mp shared
  exact apart (front_unique flat flat' same)

def twoRoots (catalogScoped : Bool) : Engine Unit where
  flattened := [⟨"iceberg".toList, "iceberg".toList, ()⟩]
  configDefault := "iceberg".toList
  legacyWarehouse := "iceberg".toList
  attached := fun catalog => catalog == "lake".toList
  discovered := fun _ => none
  hiveCatalogs := fun catalog => catalog == "lake".toList
  upperCase := fun _ => false
  catalogScoped := catalogScoped
  tables := fun _ _ _ => false
  letter := fun _ => false
  proper := by
    rintro catalog (rfl | ⟨config, listed, rfl⟩ | attached | found)
    · decide
    · rw [List.mem_singleton.mp listed]
      decide
    · rw [eq_of_beq attached]
      decide
    · cases found
  noInformationSchema := by
    intro _ _ _ listed
    cases listed

def hiveEmployees : TableReference := .full "lake".toList "hr".toList "employees".toList

def icebergEmployees : TableReference := .full "iceberg".toList "lake.hr".toList "employees".toList

/-- `lake.hr.employees` below the Hive root `lake`, and `employees` in the Iceberg namespace
`lake.hr`, have one key; with scoped keys, so have the catalogs `a` and `a.b`. -/
theorem dotted_namespace_meets_root :
    ¬ ((∀ left right, InHive (twoRoots false) left → ¬ InHive (twoRoots false) right →
          ¬ SharesKey (twoRoots false) left right) ∨
        ∀ left right, left.catalog ≠ right.catalog → ¬ SharesKey (twoRoots true) left right) := by
  rintro (never | never)
  · refine never hiveEmployees icebergEmployees (by decide) (by decide)
      ⟨("lake.hr".toList, "employees".toList), by decide, by decide⟩
  · refine never (.full "a".toList "b.c".toList "t".toList)
      (.full "a.b".toList "c".toList "t".toList) (by decide) ⟨("a.b.c".toList, "t".toList),
        by decide, by decide⟩

/-- The two Hive and Iceberg tables of one name keep apart, in both modes. -/
theorem keys_meet_iff_employees :
    ¬ SharesKey (twoRoots false) hiveEmployees (.full "iceberg".toList "hr".toList
        "employees".toList) ∧
      ¬ SharesKey (twoRoots true) hiveEmployees icebergEmployees := by
  constructor
  · intro shared
    obtain ⟨-, -, spelled⟩ := ((keys_meet_iff (twoRoots false)).1 _ _ "lake".toList rfl (by decide)
      (by decide)).mp shared
    exact absurd spelled (by decide)
  · exact ((keys_meet_iff (twoRoots true)).2 rfl _ _ "lake".toList "iceberg".toList
      ⟨rfl, .inr (by decide)⟩ ⟨rfl, .inr (by decide)⟩).2 (by decide) (by decide) (by decide)

end Sqe.Policy.PolicyKeys
