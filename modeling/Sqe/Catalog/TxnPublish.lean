/- GID: Sqe/Catalog/TxnPublish
   generality: G
   digest: A publish moves every branch in one commit, and no update is lost to another. -/

import Mathlib.Data.List.Pairwise
import Sqe.Catalog.TxnSteps

/-!
A `main` that only ever moves to new snapshots does not come back to a base it left, which is why
two transactions cannot both move it off the bases they took before.
-/

set_option autoImplicit false

namespace Sqe.Catalog.Txn

open List Option
open Function (update update_self update_of_ne)
open Sqe.Library.Transition (Reachable follow)

variable {τ ι : Type} [DecidableEq τ] [DecidableEq ι]

/-- The snapshot is on the transaction's branch of the table and nowhere else. -/
structure Private (s : State τ ι) (table : τ) (t : ι) (id : SnapshotId) : Prop where
  main : (s.catalog table).currentSnapshotId ≠ some id
  base : ∀ u, ∀ claimed ∈ (s.txns u).tables, claimed.ident = table →
    claimed.baseSnapshotId ≠ some id
  claim : ∀ u base, (s.txns u).point = .claim table base → base ≠ id
  branch : ∀ u, u ≠ t → (s.catalog table).branches u ≠ some id

/-- Every snapshot of the table that is known somewhere has an id already given out. -/
structure Known (s : State τ ι) (table : τ) : Prop where
  main : ∀ id, (s.catalog table).currentSnapshotId = some id → id < s.nextSnapshot
  branch : ∀ t id, (s.catalog table).branches t = some id → id < s.nextSnapshot
  base : ∀ t, ∀ claimed ∈ (s.txns t).tables, claimed.ident = table →
    ∀ id, claimed.baseSnapshotId = some id → id < s.nextSnapshot
  claim : ∀ t base, (s.txns t).point = .claim table base → base < s.nextSnapshot

def NeverSetBack (s : State τ ι) (table : τ) : Prop :=
  ∀ e ∈ s.log, ∀ id, e.change ≠ .setCurrentSnapshot table id

structure Ordered (s : State τ ι) (table : τ) : Prop where
  known : Known s table
  claims : ∀ e ∈ s.log, ∀ t, ∀ claimed ∈ e.claims t, claimed ∈ (s.txns t).tables
  claiming : ∀ t base, (s.txns t).point = .claim table base →
    (s.catalog table).currentSnapshotId ≠ none ∧ ∀ claimed ∈ (s.txns t).tables,
      claimed.ident ≠ table
  empty : (s.catalog table).currentSnapshotId = none → ∀ t id,
    (s.catalog table).branches t = some id → ∃ claimed ∈ (s.txns t).tables, claimed.ident = table
  /-- A branch is at its base or holds a snapshot of its own. -/
  own : NeverSetBack s table → ∀ t, ∀ claimed ∈ (s.txns t).tables, claimed.ident = table →
    ∀ id, (s.catalog table).branches t = some id →
      claimed.baseSnapshotId = some id ∨ Private s table t id
  /-- Where `main` moved, it is at no base taken before. -/
  passed : NeverSetBack s table → ∀ e ∈ s.log, e.Moves table → ∀ t, ∀ claimed ∈ e.claims t,
    claimed.ident = table → (s.catalog table).currentSnapshotId ≠ claimed.baseSnapshotId

/-- What the state must be for the commit to be one that a step makes. -/
def Admissible (s : State τ ι) : Change τ ι → Prop
  | .setCurrentSnapshot _ id => id < s.nextSnapshot
  | .createBranch t table base => (s.txns t).point = .claim table base
  | .write t table => ∃ claimed ∈ (s.txns t).tables, claimed.ident = table
  | .publish t _ commits => ∀ c ∈ commits,
      (s.catalog c.ident).currentSnapshotId = c.expectedMain ∧
      (s.catalog c.ident).branches t = some c.head ∧
      ∃ claimed ∈ (s.txns t).tables,
        claimed.ident = c.ident ∧ claimed.baseSnapshotId = c.expectedMain
  | _ => True

inductive Effect (s : State τ ι) (table : τ) (m' : TableMetadata ι) : Prop
  /-- `main` stays and branches only go. -/
  | keeps (main : m'.currentSnapshotId = (s.catalog table).currentSnapshotId)
      (branches : ∀ t, m'.branches t = (s.catalog table).branches t ∨ m'.branches t = none)
  | appends (main : m'.currentSnapshotId = some s.nextSnapshot)
      (branches : m'.branches = (s.catalog table).branches)
  | publishes (t : ι) (head : SnapshotId) (main : m'.currentSnapshotId = some head)
      (held : (s.catalog table).branches t = some head)
      (claimed : ∃ claimed ∈ (s.txns t).tables, claimed.ident = table ∧
        claimed.baseSnapshotId = (s.catalog table).currentSnapshotId)
      (branches : m'.branches = update (s.catalog table).branches t none)
  | creates (t : ι) (base : SnapshotId) (claiming : (s.txns t).point = .claim table base)
      (main : m'.currentSnapshotId = (s.catalog table).currentSnapshotId)
      (branches : m'.branches = update (s.catalog table).branches t (some base))
  | writes (t : ι) (claimed : ∃ claimed ∈ (s.txns t).tables, claimed.ident = table)
      (main : m'.currentSnapshotId = (s.catalog table).currentSnapshotId)
      (branches : m'.branches = update (s.catalog table).branches t (some s.nextSnapshot))

section Ordered

variable {s : State τ ι} {table : τ}

theorem effect_of_update {at_ : τ} {m : TableMetadata ι} (here : at_ = table → Effect s table m) :
    Effect s table (update s.catalog at_ m table) := by
  by_cases same : at_ = table
  · subst same
    rw [update_self]
    exact here rfl
  · rw [update_of_ne (Ne.symm same)]
    exact .keeps rfl fun _ => .inl rfl

/-- Unless it sets `main` back, an admissible commit has one of these effects. -/
theorem Admissible.effect {change : Change τ ι} (admissible : Admissible s change)
    (forward : ∀ id, change ≠ .setCurrentSnapshot table id) :
    Effect s table (change.apply s.nextSnapshot s.catalog table) := by
  cases change with
  | append at_ => exact effect_of_update fun same => same ▸ .appends rfl rfl
  | setCurrentSnapshot at_ id =>
    exact effect_of_update fun same => (forward id (same ▸ rfl)).elim
  | touch at_ => exact effect_of_update fun same => same ▸ .keeps rfl fun _ => .inl rfl
  | createBranch t at_ base =>
    exact effect_of_update fun same => .creates t base (same ▸ admissible) (same ▸ rfl) (same ▸ rfl)
  | write t at_ =>
    exact effect_of_update fun same => .writes t (same ▸ admissible) (same ▸ rfl) (same ▸ rfl)
  | dropBranch t at_ =>
    exact effect_of_update fun same => same ▸ .keeps rfl fun u =>
      (TableMetadata.follows_dropBranch _ t u).branch
  | publish t call commits =>
    dsimp only [Change.apply]
    cases first : commits.find? fun c => decide (c.ident = table) with
    | none => exact .keeps rfl fun _ => .inl rfl
    | some c =>
      have same : c.ident = table := by simpa using find?_some first
      obtain ⟨main, held, claimed, listed, ident, base⟩ :=
        admissible c (mem_of_find?_eq_some first)
      subst same
      exact .publishes t c.head rfl held ⟨claimed, listed, ident, base.trans main.symm⟩ rfl

variable {change : Change τ ι} {m' : TableMetadata ι}

omit [DecidableEq τ] in
theorem Effect.main_some (effect : Effect s table m')
    (some_ : (s.catalog table).currentSnapshotId ≠ none) : m'.currentSnapshotId ≠ none := by
  cases effect with
  | keeps main | creates _ _ _ main | writes _ _ main => rwa [main]
  | appends main | publishes _ _ main => simp [main]

variable {id : SnapshotId} {t : ι}

omit [DecidableEq τ] in
theorem Effect.main_known (effect : Effect s table m') (known : Known s table)
    (found : m'.currentSnapshotId = some id) : id < s.nextSnapshot + 1 := by
  cases effect with
  | keeps main | creates _ _ _ main | writes _ _ main =>
    exact Nat.lt_succ_of_lt (known.main id (main ▸ found))
  | appends main =>
    cases main.symm.trans found
    exact Nat.lt_succ_self _
  | publishes t _ main held =>
    cases main.symm.trans found
    exact Nat.lt_succ_of_lt (known.branch t id held)

/-- The transaction wrote the new snapshot to its branch of the table. -/
structure Writes (s : State τ ι) (table : τ) (m' : TableMetadata ι) (t : ι) : Prop where
  claimed : ∃ claimed ∈ (s.txns t).tables, claimed.ident = table
  main : m'.currentSnapshotId = (s.catalog table).currentSnapshotId
  branches : ∀ u, u ≠ t → m'.branches u = (s.catalog table).branches u

omit [DecidableEq τ] in
theorem Effect.branch (effect : Effect s table m') (found : m'.branches t = some id) :
    (s.catalog table).branches t = some id ∨ (s.txns t).point = .claim table id ∨
      id = s.nextSnapshot ∧ Writes s table m' t := by
  have own {u : ι} {value : Option SnapshotId}
      (branches : m'.branches = update (s.catalog table).branches u value) :
      (s.catalog table).branches t = some id ∨ t = u ∧ value = some id := by
    by_cases same : t = u
    · rw [branches, same, update_self] at found
      exact .inr ⟨same, found⟩
    · rw [branches, update_of_ne same] at found
      exact .inl found
  cases effect with
  | keeps _ branches =>
    rcases branches t with same | gone
    · exact .inl (same ▸ found)
    · cases gone.symm.trans found
  | appends _ branches => exact .inl (branches ▸ found)
  | publishes u _ _ _ _ branches =>
    rcases own branches with before | ⟨-, gone⟩
    · exact .inl before
    · cases gone
  | creates u base claiming _ branches =>
    rcases own branches with before | ⟨rfl, same⟩
    · exact .inl before
    · exact .inr (.inl (some.inj same ▸ claiming))
  | writes u claimed main branches =>
    rcases own branches with before | ⟨rfl, same⟩
    · exact .inl before
    · refine .inr (.inr ⟨(some.inj same).symm, claimed, main, fun u apart => ?_⟩)
      rw [branches, update_of_ne apart]

theorem Effect.main_passes (effect : Effect s table m') (ordered : Ordered s table)
    (forward : NeverSetBack s table) :
    m'.currentSnapshotId = (s.catalog table).currentSnapshotId ∨
    ∀ t, ∀ claimed ∈ (s.txns t).tables, claimed.ident = table →
      m'.currentSnapshotId ≠ claimed.baseSnapshotId := by
  cases effect with
  | keeps main | creates _ _ _ main | writes _ _ main => exact .inl main
  | appends main =>
    refine .inr fun t claimed listed ident same => ?_
    have given := ordered.known.base t claimed listed ident _ (same.symm.trans main)
    exact Nat.lt_irrefl _ given
  | publishes u head main held recorded =>
    obtain ⟨own, listed, ident, base⟩ := recorded
    rcases ordered.own forward u own listed ident head held with atBase | apart
    · exact .inl (by rw [main, ← base, atBase])
    · refine .inr fun t claimed listed ident same => ?_
      exact apart.base t claimed listed ident (same.symm.trans main)

omit [DecidableEq τ] in
theorem Effect.private_kept (effect : Effect s table m') (known : Known s table)
    (held : (s.catalog table).branches t = some id) (kept : m'.branches t = some id)
    (apart : Private s table t id) :
    m'.currentSnapshotId ≠ some id ∧ ∀ u, u ≠ t → m'.branches u ≠ some id := by
  have given := known.branch t id held
  constructor
  · intro main'
    cases effect with
    | keeps main | creates _ _ _ main | writes _ _ main => exact apart.main (main ▸ main')
    | appends main =>
      cases main.symm.trans main'
      exact Nat.lt_irrefl _ given
    | publishes u head main heldThere _ branches =>
      cases main.symm.trans main'
      by_cases same : u = t
      · subst same
        rw [branches, update_self] at kept
        cases kept
      · exact apart.branch u same heldThere
  · intro u other found
    rcases effect.branch found with before | claiming | ⟨new, _⟩
    · exact apart.branch u other before
    · exact apart.claim u id claiming rfl
    · exact Nat.ne_of_lt given new

theorem neverSetBack_of_commit (forward : NeverSetBack (s.commit change) table) :
    NeverSetBack s table ∧ ∀ id, change ≠ .setCurrentSnapshot table id :=
  ⟨fun e logged => forward e (mem_cons_of_mem _ logged), fun id => forward _ mem_cons_self id⟩

theorem Known.commit (known : Known s table)
    (main : ∀ id, (change.apply s.nextSnapshot s.catalog table).currentSnapshotId = some id →
      id < s.nextSnapshot + 1)
    (branch : ∀ t id, (change.apply s.nextSnapshot s.catalog table).branches t = some id →
      id < s.nextSnapshot + 1) : Known (s.commit change) table where
  main := main
  branch := branch
  base := fun t claimed listed ident id found =>
    Nat.lt_succ_of_lt (known.base t claimed listed ident id found)
  claim := fun t base claiming => Nat.lt_succ_of_lt (known.claim t base claiming)

section

variable (ordered : Ordered s table)
include ordered

theorem Ordered.claims_commit :
    ∀ e ∈ (s.commit change).log, ∀ t, ∀ claimed ∈ e.claims t,
      claimed ∈ ((s.commit change).txns t).tables :=
  forall_mem_cons.mpr ⟨fun _ _ listed => listed, ordered.claims⟩

theorem Ordered.commit_setCurrentSnapshot (given : id < s.nextSnapshot) :
    Ordered (s.commit (.setCurrentSnapshot table id)) table := by
  obtain ⟨main, branches⟩ : ((Change.setCurrentSnapshot table id : Change τ ι).apply s.nextSnapshot
      s.catalog table).currentSnapshotId = some id ∧ ((Change.setCurrentSnapshot table id).apply
        s.nextSnapshot s.catalog table).branches = (s.catalog table).branches := by
    simp [Change.apply, TableMetadata.setMain]
  refine ⟨ordered.known.commit ?_ ?_, ordered.claims_commit, ?_, ?_, ?_, ?_⟩
  · intro other found
    cases main.symm.trans found
    exact Nat.lt_succ_of_lt given
  · intro t other found
    exact Nat.lt_succ_of_lt (ordered.known.branch t other (branches ▸ found))
  · intro t base claiming
    refine ⟨fun none => ?_, (ordered.claiming t base claiming).2⟩
    cases main.symm.trans none
  · intro none
    cases main.symm.trans none
  · intro forward
    exact ((neverSetBack_of_commit forward).2 id rfl).elim
  · intro forward
    exact ((neverSetBack_of_commit forward).2 id rfl).elim

theorem Ordered.commit_effect
    (effect : Effect s table (change.apply s.nextSnapshot s.catalog table)) :
    Ordered (s.commit change) table := by
  refine ⟨ordered.known.commit (fun id => effect.main_known ordered.known) ?_,
    ordered.claims_commit, ?_, ?_, ?_, ?_⟩
  · intro t id found
    rcases effect.branch found with before | claiming | ⟨rfl, _⟩
    · exact Nat.lt_succ_of_lt (ordered.known.branch t id before)
    · exact Nat.lt_succ_of_lt (ordered.known.claim t id claiming)
    · exact Nat.lt_succ_self _
  · intro t base claiming
    have before := ordered.claiming t base claiming
    exact ⟨effect.main_some before.1, before.2⟩
  · intro none t id found
    rcases effect.branch found with before | claiming | ⟨_, written⟩
    · exact ordered.empty (of_not_not fun was => effect.main_some was none) t id before
    · exact absurd none (effect.main_some (ordered.claiming t id claiming).1)
    · exact written.claimed
  · intro forward t claimed listed ident id found
    rcases effect.branch found with before | claiming | ⟨rfl, written⟩
    · rcases ordered.own (neverSetBack_of_commit forward).1 t claimed listed ident id before with
        atBase | apart
      · exact .inl atBase
      · obtain ⟨main, branch⟩ := effect.private_kept ordered.known before found apart
        exact .inr ⟨main, apart.base, apart.claim, branch⟩
    · exact ((ordered.claiming t id claiming).2 claimed listed ident).elim
    · have known := ordered.known
      refine .inr ⟨fun main => ?_, fun u other listed ident base => ?_,
        fun u base claiming same => ?_,
        fun u other found' => ?_⟩
      · exact Nat.lt_irrefl _ (known.main _ (written.main ▸ main))
      · exact Nat.lt_irrefl _ (known.base u other listed ident _ base)
      · exact Nat.lt_irrefl _ (same ▸ known.claim u base claiming)
      · exact Nat.lt_irrefl _ (known.branch u _ (written.branches u other ▸ found'))
  · intro forward e logged moves t claimed listed ident same
    have passes := effect.main_passes ordered (neverSetBack_of_commit forward).1
    rcases mem_cons.mp logged with rfl | before
    · rcases passes with stays | away
      · exact moves stays
      · exact away t claimed listed ident same
    · rcases passes with stays | away
      · exact ordered.passed (neverSetBack_of_commit forward).1 e before moves t
          claimed listed ident
          (stays.symm.trans same)
      · exact away t claimed (ordered.claims e before t claimed listed) ident same

theorem Ordered.commit (admissible : Admissible s change) :
    Ordered (s.commit change) table := by
  by_cases back : ∃ id, change = .setCurrentSnapshot table id
  · obtain ⟨id, rfl⟩ := back
    exact ordered.commit_setCurrentSnapshot admissible
  · exact ordered.commit_effect (admissible.effect fun id same => back ⟨id, same⟩)

end

/-- What may become of a transaction's scope between two commits. -/
structure Retakes (s : State τ ι) (table : τ) (t : ι) (x' : TxnScope τ) : Prop where
  grows : ∀ claimed ∈ (s.txns t).tables, claimed ∈ x'.tables
  new : ∀ claimed ∈ x'.tables, claimed.ident = table → claimed ∈ (s.txns t).tables ∨
    (∀ id, (s.catalog table).branches t = some id → claimed.baseSnapshotId = some id) ∧
      ∀ id, claimed.baseSnapshotId = some id → (s.txns t).point = .claim table id
  claiming : ∀ base, x'.point = .claim table base →
    ((s.txns t).point = .claim table base ∨ (s.catalog table).currentSnapshotId = some base) ∧
      ∀ claimed ∈ x'.tables, claimed.ident ≠ table

theorem Ordered.setTxn (ordered : Ordered s table) {x' : TxnScope τ}
    (retakes : Retakes s table t x') : Ordered (s.setTxn t x') table := by
  have claims (u : ι) {claimed : TxnTable τ} (listed : claimed ∈ ((s.setTxn t x').txns u).tables)
      (ident : claimed.ident = table) : claimed ∈ (s.txns u).tables ∨ u = t ∧
        (∀ id, (s.catalog table).branches t = some id → claimed.baseSnapshotId = some id) ∧
        ∀ id, claimed.baseSnapshotId = some id → (s.txns t).point = .claim table id := by
    by_cases same : u = t
    · subst same
      simp only [State.setTxn, update_self] at listed
      exact (retakes.new claimed listed ident).imp_right fun fits => ⟨rfl, fits⟩
    · simp only [State.setTxn, update_of_ne same] at listed
      exact .inl listed
  have grows (u : ι) {claimed : TxnTable τ} (listed : claimed ∈ (s.txns u).tables) :
      claimed ∈ ((s.setTxn t x').txns u).tables := by
    by_cases same : u = t
    · subst same
      simpa [State.setTxn] using retakes.grows claimed listed
    · simpa [State.setTxn, same] using listed
  have claiming (u : ι) (base : SnapshotId)
      (at_ : ((s.setTxn t x').txns u).point = .claim table base) :
      ((s.txns u).point = .claim table base ∨ (s.catalog table).currentSnapshotId = some base) ∧
        ∀ claimed ∈ ((s.setTxn t x').txns u).tables, claimed.ident ≠ table := by
    by_cases same : u = t
    · subst same
      simp only [State.setTxn, update_self] at at_ ⊢
      exact retakes.claiming base at_
    · simp only [State.setTxn, update_of_ne same] at at_ ⊢
      exact ⟨.inl at_, (ordered.claiming u base at_).2⟩
  refine ⟨⟨ordered.known.main, ordered.known.branch, ?_, ?_⟩, ?_, ?_, ?_, ?_, ordered.passed⟩
  · intro u claimed listed ident id base
    rcases claims u listed ident with before | ⟨_, _, fits⟩
    · exact ordered.known.base u claimed before ident id base
    · exact ordered.known.claim t id (fits id base)
  · intro u base at_
    rcases (claiming u base at_).1 with before | main
    · exact ordered.known.claim u base before
    · exact ordered.known.main base main
  · intro e logged u claimed listed
    exact grows u (ordered.claims e logged u claimed listed)
  · intro u base at_
    refine ⟨?_, (claiming u base at_).2⟩
    rcases (claiming u base at_).1 with before | main
    · exact (ordered.claiming u base before).1
    · exact main ▸ some_ne_none base
  · intro none u id found
    obtain ⟨claimed, listed, ident⟩ := ordered.empty none u id found
    exact ⟨claimed, grows u listed, ident⟩
  · intro forward u claimed listed ident id found
    rcases claims u listed ident with before | ⟨rfl, fits, _⟩
    · rcases ordered.own forward u claimed before ident id found with atBase | apart
      · exact .inl atBase
      · refine .inr ⟨apart.main, fun v other listed ident base => ?_, fun v base at_ => ?_,
          apart.branch⟩
        · rcases claims v listed ident with before | ⟨_, _, from_⟩
          · exact apart.base v other before ident base
          · exact apart.claim t id (from_ id base) rfl
        · rcases (claiming v base at_).1 with before | main
          · exact apart.claim v base before
          · exact fun same => apart.main (same ▸ main)
    · exact .inl (fits id found)

end Ordered

/-- A later commit does not find `main` of the table at a base taken before an earlier one moved
it. -/
def Apart (table : τ) (later earlier : Entry τ ι) : Prop :=
  earlier.Moves table → ∀ t, ∀ claimed ∈ earlier.claims t, claimed.ident = table →
    (later.before table).currentSnapshotId ≠ claimed.baseSnapshotId

structure Sound (s : State τ ι) : Prop where
  txns : ∀ t, TxnSound s.catalog s.log t (s.txns t)
  tables : ∀ table, Ordered s table
  entries : ∀ e ∈ s.log, ∀ t call commits, e.change = .publish t call commits →
    ∀ claimed ∈ e.claims t, e.Published t claimed
  order : ∀ table, NeverSetBack s table → s.log.Pairwise (Apart table)

theorem sound_of_opens {s : State τ ι} (opens : Opens s) : Sound s := by
  have idle (t : ι) : (s.txns t).point = .idle := by rw [opens.txns t]; rfl
  have unclaimed (t : ι) : (s.txns t).tables = [] := by rw [opens.txns t]; rfl
  have unlogged {e : Entry τ ι} (logged : e ∈ s.log) : False := by
    rw [opens.log] at logged
    cases logged
  refine ⟨fun t => ⟨fun _ _ table => opens.branches table t, by simp only [AtPoint, idle t]⟩,
    fun table => ⟨⟨opens.snapshots table, ?_, ?_, ?_⟩, fun _ logged => (unlogged logged).elim,
      ?_, ?_, ?_, fun _ _ logged => (unlogged logged).elim⟩,
    fun _ logged => (unlogged logged).elim, fun table _ => by rw [opens.log]; exact .nil⟩
  · simp [opens.branches]
  · simp [unclaimed]
  · simp [idle]
  · simp [idle]
  · simp [opens.branches]
  · simp [opens.branches]

section Runs

variable {s s' : State τ ι}

variable {x' : TxnScope τ} {change : Change τ ι} {t : ι}

theorem Sound.frame (sound : Sound s) (change : Change τ ι) (apart : change.sets ≠ some t) :
    TxnSound (s.commit change).catalog (s.commit change).log t (s.txns t) :=
  (sound.txns t).frame (Change.follows change s.nextSnapshot s.catalog apart)
    fun _ logged => mem_cons_of_mem _ logged

theorem Sound.order_commit (sound : Sound s) (change : Change τ ι) (table : τ)
    (forward : NeverSetBack (s.commit change) table) :
    (s.commit change).log.Pairwise (Apart table) := by
  have before := (neverSetBack_of_commit forward).1
  refine .cons (fun e logged moves t claimed listed ident => ?_) (sound.order table before)
  exact (sound.tables table).passed before e logged moves t claimed listed ident

theorem Sound.commit (sound : Sound s) (admissible : Admissible s change)
    (other : change.sets = none)
    (unpublished : ∀ t call commits, change ≠ .publish t call commits) :
    Sound (s.commit change) where
  txns := fun t => sound.frame change (by rw [other]; simp)
  tables := fun table => (sound.tables table).commit admissible
  entries := forall_mem_cons.mpr
    ⟨fun t call commits publishes => (unpublished t call commits publishes).elim, sound.entries⟩
  order := sound.order_commit change

theorem Takes.admissible
    (takes : Takes t s.catalog (s.txns t) (some change) x') : Admissible s change := by
  cases takes with
  | branched claiming | branchLost claiming => exact claiming
  | wrote claimed => exact claimed
  | published covers now =>
    intro c prepared
    obtain ⟨current, owner, listed, ident, base⟩ := covers.commit c prepared
    obtain ⟨main, held⟩ :=
      current.holds (eq_of_beq (all_eq_true.mp now c prepared))
    exact ⟨main, held, owner, listed, ident, base⟩
  | dropped => trivial

theorem Takes.sets {u : ι} (other : u ≠ t)
    (takes : Takes t s.catalog (s.txns t) (some change) x') : change.sets ≠ some u := by
  cases takes <;> simp [Change.sets, Ne.symm other]

theorem Takes.retakes {c : Option (Change τ ι)} {table : τ}
    (ordered : Ordered s table) (takes : Takes t s.catalog (s.txns t) c x') :
    Retakes (s.commit? c) table t x' := by
  have same {s₁ : State τ ι} {x : TxnScope τ} (scope : s₁.txns = s.txns)
      (tables : x.tables = (s.txns t).tables)
      (unclaiming : ∀ at_ base, x.point ≠ .claim at_ base) : Retakes s₁ table t x :=
    ⟨fun claimed listed => tables ▸ (scope ▸ listed),
      fun claimed listed _ => .inl (scope ▸ tables ▸ listed),
      fun base at_ => (unclaiming table base at_).elim⟩
  cases takes with
  | @claimEmpty at_ unclaimed empty idle =>
    refine ⟨fun claimed listed => mem_append_left _ listed, fun claimed listed ident => ?_,
      fun base claiming => ?_⟩
    · rcases mem_append.mp listed with before | here
      · exact .inl before
      · cases mem_singleton.mp here
        cases ident
        refine .inr ⟨fun id found => ?_, by simp⟩
        obtain ⟨claimed, listed, ident⟩ := ordered.empty empty t id found
        exact (unclaimed claimed listed ident).elim
    · rw [idle] at claiming
      cases claiming
  | claim unclaimed found =>
    refine ⟨fun claimed listed => listed, fun claimed listed _ => .inl listed,
      fun base claiming => ?_⟩
    cases claiming
    exact ⟨.inr found, unclaimed⟩
  | @branched at_ base claiming =>
    refine ⟨fun claimed listed => mem_append_left _ listed, fun claimed listed ident => ?_,
      fun base claiming => by cases claiming⟩
    rcases mem_append.mp listed with before | here
    · exact .inl before
    · cases mem_singleton.mp here
      cases ident
      refine .inr ⟨fun id found => ?_, fun id found => ?_⟩
      · simpa [State.commit?, State.commit, Change.apply, TableMetadata.setBranch] using found
      · cases found
        exact claiming
  | branchLost claiming back =>
    rcases back with rfl | rfl
    · refine ⟨fun claimed listed => listed, fun claimed listed _ => .inl listed, fun base at_ => ?_⟩
      exact ⟨.inl at_, (ordered.claiming t base at_).2⟩
    · exact same rfl rfl (by simp)
  | wrote _ _ idle => exact same rfl rfl (by simp [idle])
  | moves unclaiming => exact same rfl rfl unclaiming
  | published _ _ onward =>
    rcases onward with rfl | bare
    · exact same rfl rfl (by simp)
    · exact same rfl rfl bare.unclaiming
  | dropped bare => exact same rfl rfl bare.unclaiming

theorem Takes.entries (sound : Sound s) {c : Option (Change τ ι)}
    (takes : Takes t s.catalog (s.txns t) c x') :
    ∀ e ∈ (s.commit? c).log, ∀ u call commits, e.change = .publish u call commits →
      ∀ claimed ∈ e.claims u, e.Published u claimed := by
  intro e logged u call commits publishes claimed listed
  cases c with
  | none => exact sound.entries e logged u call commits publishes claimed listed
  | some change =>
    rcases mem_cons.mp logged with rfl | before
    · cases takes with
      | published covers now =>
        cases publishes
        exact published_of_covers covers now listed
      | branched | branchLost | wrote | dropped => cases publishes
    · exact sound.entries e before u call commits publishes claimed listed

theorem sound_step (sound : Sound s) {e : Event τ ι} (taken : step s e = some s') : Sound s' := by
  cases e with
  | append table | touch table | dropBranch t table =>
    cases taken
    exact sound.commit trivial rfl (by simp)
  | setCurrentSnapshot table id =>
    simp only [step] at taken
    split at taken <;> cases taken
    next given => exact sound.commit given rfl (by simp)
  | txn t e =>
    obtain ⟨⟨c, x'⟩, next, rfl⟩ := map_eq_some_iff.mp taken
    have takes := (sound.txns t).takes next
    refine ⟨fun u => ?_, fun table => ?_, takes.entries sound, ?_⟩
    · by_cases same : u = t
      · subst same
        simp only [State.setTxn, update_self]
        exact takes.sound (sound.txns u)
      · simp only [State.setTxn, update_of_ne same]
        cases c with
        | none => exact sound.txns u
        | some change => exact sound.frame change (takes.sets same)
    · have committed : Ordered (s.commit? c) table := by
        cases c with
        | none => exact sound.tables table
        | some change => exact (sound.tables table).commit takes.admissible
      exact committed.setTxn (takes.retakes (sound.tables table))
    · intro table forward
      cases c with
      | none => exact sound.order table forward
      | some change => exact sound.order_commit change table forward

end Runs

/-- Two transactions claimed one table, and took their bases of it before either was published. -/
structure Overlap (s : State τ ι) (t u : ι) (a b : TxnTable τ) : Prop where
  first : a ∈ (s.txns t).tables
  second : b ∈ (s.txns u).tables
  ident : a.ident = b.ident
  before : ∀ e ∈ s.log, e.change.publisher = some t ∨ e.change.publisher = some u →
    a ∈ e.claims t ∧ b ∈ e.claims u

/-- When the transaction was published, its branch of the table held a snapshot of its own. -/
def PublishesOwn (s : State τ ι) (t : ι) (claimed : TxnTable τ) : Prop :=
  ∃ e ∈ s.log, (∃ call commits, e.change = .publish t call commits) ∧
    ∃ head, (e.before claimed.ident).branches t = some head ∧ claimed.baseSnapshotId ≠ some head

section Runs

variable {s : State τ ι}

/-- Of two publish commits that moved `main` off bases taken before,
the later one found it moved. -/
theorem Sound.apart (sound : Sound s) {t u : ι} {a b : TxnTable τ} (other : t ≠ u)
    (overlap : Overlap s t u a b) (forward : NeverSetBack s a.ident) :
    ¬ (PublishesOwn s t a ∧ PublishesOwn s u b) := by
  rintro ⟨⟨e, logged, ⟨call, commits, publishes⟩, head, held, away⟩,
    ⟨e', logged', ⟨call', commits', publishes'⟩, head', held', away'⟩⟩
  have claims := overlap.before e logged (.inl (by rw [publishes]; rfl))
  have claims' := overlap.before e' logged' (.inr (by rw [publishes']; rfl))
  obtain ⟨base, moved⟩ := sound.entries e logged t call commits publishes a claims.1 head held
  obtain ⟨base', moved'⟩ :=
    sound.entries e' logged' u call' commits' publishes' b claims'.2 head' held'
  rw [← overlap.ident] at base' moved'
  have moves : e.Moves a.ident := by
    rw [Entry.Moves, moved, base]
    exact away.symm
  have moves' : e'.Moves a.ident := by
    rw [Entry.Moves, moved', base']
    exact away'.symm
  have distinct : e ≠ e' := by
    rintro rfl
    rw [publishes] at publishes'
    cases publishes'
    exact other rfl
  have : Std.Symm fun one two : Entry τ ι => Apart a.ident one two ∨ Apart a.ident two one :=
    ⟨fun _ _ => Or.symm⟩
  have either := ((sound.order a.ident forward).imp Or.inl :
    s.log.Pairwise fun one two => Apart a.ident one two ∨ Apart a.ident two one)
  rcases either.forall logged logged' distinct with later | later
  · exact later moves' t a claims'.1 rfl base
  · exact later moves u b claims.2 overlap.ident.symm base'

/-- Where COMMIT succeeds, one commit moved `main` of every table with a branch from its base to
the branch head; where it fails and none of its commits was applied, it moved none. Of two
transactions that claimed a table before either was published, and that both publish a snapshot of
their own to it, at most one succeeds while nobody sets its `main` back. -/
theorem publish_atomic (reached : Reachable Opens step (fun _ _ => True) s) :
    (∀ t, (s.txns t).point = .ended .committed →
      (s.txns t).catalogBound = true ∨ (s.txns t).lost = false →
      Committed s.catalog s.log t (s.txns t)) ∧
    (∀ t code, (s.txns t).point = .ended (.failed code) →
      (∀ e ∈ s.log, ∀ commits, e.change ≠ .publish t (s.txns t).call commits) →
      ∀ e ∈ s.log, e.change.By t (s.txns t).call → ∀ table, ¬ e.Moves table) ∧
    ∀ t u a b, t ≠ u → Overlap s t u a b → PublishesOwn s t a → PublishesOwn s u b →
      NeverSetBack s a.ident →
      ¬ ((s.txns t).point = .ended .committed ∧ (s.txns u).point = .ended .committed) := by
  have sound : Sound s := reached.invariant (fun _ => sound_of_opens)
    fun _ _ _ sound _ taken => sound_step sound taken
  refine ⟨fun t committed known => ?_, fun t code _ unpublished e logged own table moves => ?_,
    fun t u a b other overlap first second forward _ => ?_⟩
  · have here := (sound.txns t).point
    simp only [AtPoint, committed] at here
    exact here known
  · exact moves (e.change.main_kept e.fresh e.before own (unpublished e logged) table)
  · exact sound.apart other overlap forward ⟨first, second⟩

end Runs

/-- One table at its snapshot 0, and two transactions. -/
def accounts : State Nat Nat where
  catalog := fun _ => ⟨0, some 0, fun _ => none⟩
  txns := fun _ => .new
  nextSnapshot := 1
  log := []

theorem accounts_opens : Opens accounts :=
  ⟨fun _ => rfl, fun _ _ => rfl,
    fun _ id found => by cases found; exact Nat.lt_one_iff.mpr rfl, rfl⟩

/-- Both transactions claim the table and the second writes to it. -/
def bothClaim : List (Event Nat Nat) :=
  [.txn 0 (.claim 0), .txn 0 (.createBranch .ok false), .txn 1 (.claim 0),
    .txn 1 (.createBranch .ok false), .txn 1 (.write 0 .ok)]

/-- COMMIT, up to the catalog's answer. -/
def commits (t : Nat) : List (Event Nat Nat) :=
  [.txn t .publish, .txn t .load, .txn t .load, .txn t (.answer .ok false)]

/-- After another writer's commit the transaction is not published, and its branch goes. -/
def refused (t : Nat) : List (Event Nat Nat) :=
  [.append 0, .txn t .publish, .txn t .load, .txn t .load, .txn t (.drop true)]

theorem accounts_reaches (events : List (Event Nat Nat)) {s : State Nat Nat}
    (followed : follow step (fun _ _ => True) accounts events = some s) :
    Reachable Opens step (fun _ _ => True) s :=
  (Reachable.start accounts_opens).follow events followed

theorem publishes_before_refusal : ∃ s : State Nat Nat,
    ((s.txns 1).point = .ended .committed ∧ Committed s.catalog s.log 1 (s.txns 1)) ∧
    (s.txns 0).point = .ended (.failed .transactionConflict) ∧
      ∀ e ∈ s.log, e.change.By 0 (s.txns 0).call → ∀ table, ¬ e.Moves table := by
  obtain ⟨s, followed⟩ : ∃ s, follow step (fun _ _ => True) accounts
      (bothClaim ++ commits 1 ++ refused 0) = some s := ⟨_, rfl⟩
  have first : (s.txns 1).point = .ended .committed := by cases followed; rfl
  have second : (s.txns 0).point = .ended (.failed .transactionConflict) := by cases followed; rfl
  have atomic := publish_atomic (accounts_reaches _ followed)
  refine ⟨s, ⟨first, atomic.1 1 first (by cases followed; exact .inl rfl)⟩, second, ?_⟩
  have unpublished : ∀ e ∈ s.log, e.change.publisher ≠ some 0 := by cases followed; decide
  refine atomic.2.1 0 _ second fun e logged commits publishes => ?_
  exact unpublished e logged (by rw [publishes]; rfl)

theorem both_publish_one_base : ∃ s : State Nat Nat,
    Reachable Opens step (fun _ _ => True) s ∧ Overlap s 0 1 ⟨0, some 0⟩ ⟨0, some 0⟩ ∧
    (s.txns 0).point = .ended .committed ∧ (s.txns 1).point = .ended .committed := by
  obtain ⟨s, followed⟩ : ∃ s, follow step (fun _ _ => True) accounts
      (bothClaim ++ commits 0 ++ commits 1) = some s := ⟨_, rfl⟩
  have before : ∀ e ∈ s.log, e.change.publisher = none ∨
      ⟨0, some 0⟩ ∈ e.claims 0 ∧ ⟨0, some 0⟩ ∈ e.claims 1 := by cases followed; decide
  refine ⟨s, accounts_reaches _ followed, ⟨by cases followed; decide, by cases followed; decide,
    rfl, fun e logged publishes => ?_⟩, by cases followed; rfl, by cases followed; rfl⟩
  · rcases before e logged with other | both
    · rw [other] at publishes
      simp at publishes
    · exact both

end Sqe.Catalog.Txn
