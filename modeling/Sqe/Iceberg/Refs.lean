/- GID: Sqe/Iceberg/Refs
   generality: G
   digest: Snapshots with their parents, branches and tags, and what a head reaches. -/

import Mathlib.Data.List.Basic

set_option autoImplicit false

namespace Sqe.Iceberg.Refs

open List

abbrev SnapshotId := Int

structure Snapshot where
  snapshotId : SnapshotId
  parentSnapshotId : Option SnapshotId
  timestampMs : Int
  deriving DecidableEq

inductive SnapshotRetention
  | branch
  | tag
  deriving DecidableEq

structure SnapshotReference where
  snapshotId : SnapshotId
  retention : SnapshotRetention
  deriving DecidableEq

structure TableMetadata where
  snapshots : List Snapshot
  refs : List (String × SnapshotReference)
  deriving DecidableEq

def mainBranch : String := "main"

def snapshotById (snapshots : List Snapshot) (id : SnapshotId) : Option Snapshot :=
  snapshots.find? fun s => s.snapshotId = id

/-- The head and its ancestors as far as they are listed, at most so many. -/
def ancestry (snapshots : List Snapshot) : Nat → SnapshotId → List SnapshotId
  | 0, _ => []
  | fuel + 1, head => match snapshotById snapshots head with
      | none => []
      | some s => s.snapshotId :: match s.parentSnapshotId with
          | none => []
          | some parent => ancestry snapshots fuel parent

inductive Reaches (snapshots : List Snapshot) : SnapshotId → SnapshotId → Prop
  | head (id : SnapshotId) : Reaches snapshots id id
  | parent {head id : SnapshotId} (s : Snapshot) {p : SnapshotId}
      (listed : snapshotById snapshots head = some s) (child : s.parentSnapshotId = some p)
      (rest : Reaches snapshots p id) : Reaches snapshots head id

/-- Ids are given once, and a parent is added before its child. -/
def Parented : List Snapshot → Prop
  | [] => True
  | s :: older => s.snapshotId ∉ older.map Snapshot.snapshotId ∧
      (∀ p, s.parentSnapshotId = some p → p ∈ older.map Snapshot.snapshotId) ∧ Parented older

section Ancestry

variable {snapshots : List Snapshot} {head id : SnapshotId}

variable {s : Snapshot} {older : List Snapshot}

theorem snapshotId_of_snapshotById (found : snapshotById snapshots id = some s) :
    s ∈ snapshots ∧ s.snapshotId = id :=
  ⟨mem_of_find?_eq_some found, by simpa using find?_some found⟩

theorem snapshotById_isSome_iff :
    (snapshotById snapshots id).isSome = true ↔ id ∈ snapshots.map Snapshot.snapshotId := by
  simp [snapshotById, find?_isSome, mem_map]

theorem snapshotById_cons_of_ne (distinct : s.snapshotId ≠ id) :
    snapshotById (s :: snapshots) id = snapshotById snapshots id :=
  find?_cons_of_neg (by simpa using distinct)

theorem mem_ancestry_succ {fuel : Nat} :
    id ∈ ancestry snapshots (fuel + 1) head ↔ ∃ s, snapshotById snapshots head = some s ∧
      (id = s.snapshotId ∨ ∃ p, s.parentSnapshotId = some p ∧ id ∈ ancestry snapshots fuel p) := by
  rw [ancestry]
  cases snapshotById snapshots head with
  | none => simp
  | some s => cases child : s.parentSnapshotId <;> simp [child]

theorem reaches_of_mem_ancestry {fuel : Nat} (reached : id ∈ ancestry snapshots fuel head) :
    Reaches snapshots head id := by
  induction fuel generalizing head with
  | zero => cases reached
  | succ fuel ih =>
    obtain ⟨s, listed, rfl | ⟨p, child, later⟩⟩ := mem_ancestry_succ.mp reached
    · exact (snapshotId_of_snapshotById listed).2 ▸ .head _
    · exact .parent s listed child (ih later)

theorem ancestry_mono {fuel more : Nat} (le : fuel ≤ more)
    (reached : id ∈ ancestry snapshots fuel head) : id ∈ ancestry snapshots more head := by
  induction fuel generalizing head more with
  | zero => cases reached
  | succ fuel ih =>
    obtain ⟨more, rfl⟩ : ∃ n, more = n + 1 := ⟨more - 1, by omega⟩
    obtain ⟨s, listed, own | ⟨p, child, later⟩⟩ := mem_ancestry_succ.mp reached
    · exact mem_ancestry_succ.mpr ⟨s, listed, .inl own⟩
    · exact mem_ancestry_succ.mpr ⟨s, listed, .inr ⟨p, child, ih (by omega) later⟩⟩

theorem Parented.snapshotById_older {newer : List Snapshot}
    (parented : Parented (newer ++ s :: older)) :
    snapshotById (newer ++ s :: older) s.snapshotId = some s := by
  induction newer with
  | nil => exact find?_cons_of_pos (by simp)
  | cons t newer ih =>
    obtain ⟨fresh, -, rest⟩ := parented
    rw [cons_append, snapshotById_cons_of_ne]
    · exact ih rest
    · intro same
      exact fresh (same ▸ mem_map_of_mem (by simp))

theorem Parented.suffix {newer : List Snapshot} (parented : Parented (newer ++ older)) :
    Parented older := by
  induction newer with
  | nil => exact parented
  | cons s newer ih => exact ih parented.2.2

theorem mem_ancestry_of_suffix (newer : List Snapshot)
    (parented : Parented (newer ++ older)) (reached : Reaches (newer ++ older) head id)
    (start : head ∈ older.map Snapshot.snapshotId)
    (listed : id ∈ (newer ++ older).map Snapshot.snapshotId) :
    id ∈ ancestry (newer ++ older) older.length head := by
  induction older generalizing newer head with
  | nil => cases start
  | cons s older ih =>
    rw [map_cons, mem_cons] at start
    have shift : newer ++ s :: older = (newer ++ [s]) ++ older := by simp
    rcases start with rfl | later
    · have found := parented.snapshotById_older
      refine mem_ancestry_succ.mpr ⟨s, found, ?_⟩
      cases reached with
      | head => exact .inl rfl
      | parent t listed' child rest =>
        obtain rfl := Option.some.inj (found.symm.trans listed')
        have inOlder := parented.suffix.2.1 _ child
        rw [shift] at parented rest listed ⊢
        exact .inr ⟨_, child, ih _ parented rest inOlder listed⟩
    · rw [shift] at parented reached listed ⊢
      exact ancestry_mono (Nat.le_succ _) (ih _ parented reached later listed)

theorem mem_ancestry_of_reaches (parented : Parented snapshots)
    (reached : Reaches snapshots head id) (listed : id ∈ snapshots.map Snapshot.snapshotId) :
    id ∈ ancestry snapshots snapshots.length head := by
  have start : head ∈ snapshots.map Snapshot.snapshotId := by
    cases reached with
    | head => exact listed
    | parent s found child rest =>
      obtain ⟨member, same⟩ := snapshotId_of_snapshotById found
      exact same ▸ mem_map_of_mem member
  exact mem_ancestry_of_suffix [] parented reached start listed

theorem Parented.parent_listed (parented : Parented snapshots)
    (member : s ∈ snapshots) {p : SnapshotId} (child : s.parentSnapshotId = some p) :
    p ∈ snapshots.map Snapshot.snapshotId := by
  induction snapshots with
  | nil => cases member
  | cons t older ih =>
    refine mem_cons_of_mem _ ?_
    rcases mem_cons.mp member with rfl | member
    · exact parented.2.1 p child
    · exact ih parented.2.2 member

theorem Reaches.listed (parented : Parented snapshots) (reached : Reaches snapshots head id)
    (start : head ∈ snapshots.map Snapshot.snapshotId) :
    id ∈ snapshots.map Snapshot.snapshotId := by
  induction reached with
  | head => exact start
  | parent s found child _ ih =>
    exact ih (parented.parent_listed (snapshotId_of_snapshotById found).1 child)

theorem Reaches.add (fresh : s.snapshotId ∉ snapshots.map Snapshot.snapshotId)
    (reached : Reaches snapshots head id) : Reaches (s :: snapshots) head id := by
  induction reached with
  | head => exact .head _
  | parent t found child rest ih =>
    refine .parent t ?_ child ih
    rw [snapshotById_cons_of_ne]
    · exact found
    · rintro rfl
      obtain ⟨member, same⟩ := snapshotId_of_snapshotById found
      exact fresh (same ▸ mem_map_of_mem member)

end Ancestry

namespace TableMetadata

def referenceByName (m : TableMetadata) (name : String) : Option SnapshotReference :=
  (m.refs.find? fun r => r.1 = name).map Prod.snd

def currentSnapshotId (m : TableMetadata) : Option SnapshotId :=
  (m.referenceByName mainBranch).map SnapshotReference.snapshotId

def ancestry (m : TableMetadata) (head : SnapshotId) : List SnapshotId :=
  Refs.ancestry m.snapshots m.snapshots.length head

def removeRef (m : TableMetadata) (name : String) : TableMetadata :=
  { m with refs := m.refs.filter fun r => r.1 ≠ name }

def setRef (m : TableMetadata) (name : String) (reference : SnapshotReference) : TableMetadata :=
  { m with refs := (name, reference) :: (m.removeRef name).refs }

def addSnapshot (m : TableMetadata) (s : Snapshot) : TableMetadata :=
  { m with snapshots := s :: m.snapshots }

variable {m : TableMetadata} {name : String} {reference : SnapshotReference}

theorem mem_of_referenceByName (found : m.referenceByName name = some reference) :
    (name, reference) ∈ m.refs := by
  obtain ⟨r, first, rfl⟩ := Option.map_eq_some_iff.mp found
  have same : r.1 = name := by simpa using find?_some first
  exact same ▸ mem_of_find?_eq_some first

theorem mem_removeRef {r : String × SnapshotReference} :
    r ∈ (m.removeRef name).refs ↔ r ∈ m.refs ∧ r.1 ≠ name := by
  simp [removeRef, mem_filter]

theorem mem_setRef {r : String × SnapshotReference} :
    r ∈ (m.setRef name reference).refs ↔ r = (name, reference) ∨ r ∈ m.refs ∧ r.1 ≠ name := by
  rw [setRef, mem_cons, mem_removeRef]

theorem referenceByName_setRef_self :
    (m.setRef name reference).referenceByName name = some reference := by
  rw [referenceByName, setRef, find?_cons_of_pos (by simp)]
  rfl

theorem referenceByName_removeRef_of_ne {other : String} (distinct : other ≠ name) :
    (m.removeRef name).referenceByName other = m.referenceByName other := by
  unfold referenceByName removeRef
  rw [find?_filter]
  congr 2
  funext r
  by_cases same : r.1 = other
  · simp [same, distinct]
  · simp [same]

theorem referenceByName_setRef_of_ne {other : String} (distinct : other ≠ name) :
    (m.setRef name reference).referenceByName other = m.referenceByName other := by
  refine Eq.trans ?_ (referenceByName_removeRef_of_ne distinct)
  rw [referenceByName, setRef, find?_cons_of_neg (by simpa using distinct.symm)]
  rfl

structure WellFormed (m : TableMetadata) : Prop where
  parented : Parented m.snapshots
  listed : ∀ r ∈ m.refs, r.2.snapshotId ∈ m.snapshots.map Snapshot.snapshotId
  named : ∀ r ∈ m.refs, m.referenceByName r.1 = some r.2

theorem WellFormed.setRef (wf : m.WellFormed)
    (listed : reference.snapshotId ∈ m.snapshots.map Snapshot.snapshotId) :
    (m.setRef name reference).WellFormed := by
  refine ⟨wf.parented, fun r member => ?_, fun r member => ?_⟩
  · rcases mem_setRef.mp member with rfl | ⟨old, -⟩
    · exact listed
    · exact wf.listed r old
  · rcases mem_setRef.mp member with rfl | ⟨old, distinct⟩
    · exact referenceByName_setRef_self
    · exact (referenceByName_setRef_of_ne distinct).trans (wf.named r old)

theorem WellFormed.removeRef (wf : m.WellFormed) : (m.removeRef name).WellFormed := by
  refine ⟨wf.parented, fun r member => wf.listed r (mem_removeRef.mp member).1, fun r member => ?_⟩
  obtain ⟨old, distinct⟩ := mem_removeRef.mp member
  exact (referenceByName_removeRef_of_ne distinct).trans (wf.named r old)

theorem WellFormed.addSnapshot {s : Snapshot} (wf : m.WellFormed)
    (fresh : s.snapshotId ∉ m.snapshots.map Snapshot.snapshotId)
    (child : ∀ p, s.parentSnapshotId = some p → p ∈ m.snapshots.map Snapshot.snapshotId) :
    (m.addSnapshot s).WellFormed :=
  ⟨⟨fresh, child, wf.parented⟩, fun r member => mem_cons_of_mem _ (wf.listed r member), wf.named⟩

end TableMetadata

end Sqe.Iceberg.Refs
