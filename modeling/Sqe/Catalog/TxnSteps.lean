/- GID: Sqe/Catalog/TxnSteps
   generality: G
   digest: What each step of a transaction does, and what it knows of the tables it prepared. -/

import Sqe.Catalog.Txn

/-!
What a transaction prepared stays true of its tables as long as nobody commits to them, so the
commit that is applied moves `main` off the recorded base.
-/

set_option autoImplicit false

namespace Sqe.Catalog.Txn

open Function (update)
open List

variable {τ ι : Type}

/-- What the commits of others do to a table, as one transaction sees it. -/
structure Follows (t : ι) (m m' : TableMetadata ι) : Prop where
  location : m' = m ∨ m.location < m'.location
  branch : m'.branches t = m.branches t ∨ m'.branches t = none

theorem Follows.refl (t : ι) (m : TableMetadata ι) : Follows t m m := ⟨.inl rfl, .inl rfl⟩

def Change.sets : Change τ ι → Option ι
  | .createBranch t _ _ => some t
  | .write t _ => some t
  | _ => none

theorem Follows.none {t : ι} {m m' : TableMetadata ι} (follows : Follows t m m')
    (gone : m.branches t = none) : m'.branches t = none := by
  rcases follows.branch with same | dropped
  · rw [same, gone]
  · exact dropped

variable (m : TableMetadata ι)

theorem TableMetadata.follows_setMain (t : ι) (id : SnapshotId) :
    Follows t m (m.setMain id) := ⟨.inr (Nat.lt_succ_self _), .inl rfl⟩

variable [DecidableEq τ] [DecidableEq ι]

omit [DecidableEq τ] in
theorem TableMetadata.setBranch_branches (t u : ι) (id : Option SnapshotId) :
    (m.setBranch t id).branches u = if u = t then id else m.branches u := by
  simp only [setBranch, Function.update_apply]

omit [DecidableEq τ] in
theorem TableMetadata.follows_setBranch_other {t u : ι} (apart : u ≠ t)
    (id : Option SnapshotId) : Follows u m (m.setBranch t id) := by
  refine ⟨.inr (Nat.lt_succ_self _), .inl ?_⟩
  rw [setBranch_branches, if_neg apart]

omit [DecidableEq τ] in
theorem TableMetadata.follows_dropBranch (t u : ι) : Follows u m (m.setBranch t none) := by
  by_cases same : u = t
  · subst same
    exact ⟨.inr (Nat.lt_succ_self _), .inr (by rw [setBranch_branches, if_pos rfl])⟩
  · exact m.follows_setBranch_other same none

omit [DecidableEq ι] in
theorem follows_update {catalog : τ → TableMetadata ι} {t : ι} {table : τ} {m : TableMetadata ι}
    (here : Follows t (catalog table) m) (other : τ) :
    Follows t (catalog other) (update catalog table m other) := by
  by_cases same : other = table
  · subst same
    rw [Function.update_self]
    exact here
  · rw [Function.update_of_ne same]
    exact .refl t _

theorem Change.follows (change : Change τ ι) (fresh : SnapshotId) (catalog : τ → TableMetadata ι)
    {t : ι} (apart : change.sets ≠ some t) (table : τ) :
    Follows t (catalog table) (change.apply fresh catalog table) := by
  cases change with
  | append table => exact follows_update (TableMetadata.follows_setMain _ t fresh) _
  | setCurrentSnapshot table id => exact follows_update (TableMetadata.follows_setMain _ t id) _
  | touch at_ =>
    have moved : Follows t (catalog at_)
        { catalog at_ with location := (catalog at_).location + 1 } :=
      ⟨.inr (Nat.lt_succ_self _), .inl rfl⟩
    exact follows_update moved _
  | createBranch u table base =>
    have other : t ≠ u := fun same => apart (congrArg some same.symm)
    exact follows_update (TableMetadata.follows_setBranch_other _ other _) _
  | write u table =>
    have other : t ≠ u := fun same => apart (congrArg some same.symm)
    exact follows_update (TableMetadata.follows_setBranch_other _ other _) _
  | dropBranch u table => exact follows_update (TableMetadata.follows_dropBranch _ u t) _
  | publish u call commits =>
    dsimp only [apply]
    split
    · exact .refl t _
    next c _ =>
      have dropped := ((catalog table).setMain c.head).follows_dropBranch u t
      refine ⟨.inr ?_, dropped.branch⟩
      exact Nat.lt_succ_of_lt (Nat.lt_succ_self _)

/-- The commits the transaction makes, its publish commits being those of one COMMIT. -/
def Change.By (t : ι) (call : Nat) : Change τ ι → Prop
  | .createBranch u _ _ => u = t
  | .write u _ => u = t
  | .dropBranch u _ => u = t
  | .publish u n _ => u = t ∧ n = call
  | _ => False

def Change.publisher : Change τ ι → Option ι
  | .publish t _ _ => some t
  | _ => none

def Entry.Moves (e : Entry τ ι) (table : τ) : Prop :=
  (e.after table).currentSnapshotId ≠ (e.before table).currentSnapshotId

instance (e : Entry τ ι) (table : τ) : Decidable (e.Moves table) :=
  inferInstanceAs (Decidable (_ ≠ _))

theorem Change.main_kept {change : Change τ ι} {t : ι} {call : Nat} (fresh : SnapshotId)
    (catalog : τ → TableMetadata ι) (own : change.By t call)
    (unpublished : ∀ commits, change ≠ .publish t call commits) (table : τ) :
    (change.apply fresh catalog table).currentSnapshotId = (catalog table).currentSnapshotId := by
  have branchOnly (at_ : τ) (u : ι) (id : Option SnapshotId) :
      (update catalog at_ ((catalog at_).setBranch u id) table).currentSnapshotId =
        (catalog table).currentSnapshotId := by
    by_cases same : table = at_
    · subst same
      rw [Function.update_self]
      rfl
    · rw [Function.update_of_ne same]
  cases change with
  | append | setCurrentSnapshot | touch => exact own.elim
  | createBranch u at_ base => exact branchOnly at_ u _
  | write u at_ => exact branchOnly at_ u _
  | dropBranch u at_ => exact branchOnly at_ u _
  | publish u n commits =>
    obtain ⟨rfl, rfl⟩ := own
    exact (unpublished commits rfl).elim

/-- The commit is right about its table as long as the metadata is the one it was prepared on. -/
structure Current (catalog : τ → TableMetadata ι) (t : ι) (c : TableCommit τ) : Prop where
  reached : c.against ≤ (catalog c.ident).location
  holds : (catalog c.ident).location = c.against →
    (catalog c.ident).currentSnapshotId = c.expectedMain ∧
      (catalog c.ident).branches t = some c.head

/-- Every table has a commit or has no branch, and every commit is for one of the tables. -/
structure Covers (catalog : τ → TableMetadata ι) (t : ι) (tables : List (TxnTable τ))
    (commits : List (TableCommit τ)) : Prop where
  table : ∀ table ∈ tables, (catalog table.ident).branches t = none ∨
    ∃ c ∈ commits, c.ident = table.ident ∧ c.expectedMain = table.baseSnapshotId
  commit : ∀ c ∈ commits, Current catalog t c ∧
    ∃ table ∈ tables, table.ident = c.ident ∧ table.baseSnapshotId = c.expectedMain

/-- The commit found `main` of the table at its base and moved it to the head of the branch, if
the table had one. -/
def Entry.Published (e : Entry τ ι) (t : ι) (table : TxnTable τ) : Prop :=
  ∀ head, (e.before table.ident).branches t = some head →
    (e.before table.ident).currentSnapshotId = table.baseSnapshotId ∧
      (e.after table.ident).currentSnapshotId = some head

variable (catalog : τ → TableMetadata ι) (log : List (Entry τ ι)) (t : ι) (x : TxnScope τ)

/-- One commit published every table that has a branch, or none has one. -/
def Committed : Prop :=
  (∃ e ∈ log, (∃ commits, e.change = .publish t x.call commits) ∧
    ∀ table ∈ x.tables, e.Published t table) ∨
  ∀ table ∈ x.tables, (catalog table.ident).branches t = none

def AtPoint :
    Prop := match x.point with
  | .load table _ => x.tables = [table]
  | .refresh table _ => x.tables = [table]
  | .post table _ c => x.tables = [table] ∧ Covers catalog t x.tables [c]
  | .prepare _ rest commits => ∃ done, x.tables = done ++ rest ∧ Covers catalog t done commits
  | .postAll _ commits => Covers catalog t x.tables commits
  | .discard _ ending => ending ≠ .committed
  | .ended .committed => x.catalogBound = true ∨ x.lost = false → Committed catalog log t x
  | _ => True

/-- Without an answered or a lost branch commit the transaction has no branch. -/
structure TxnSound (catalog : τ → TableMetadata ι) (log : List (Entry τ ι)) (t : ι)
    (x : TxnScope τ) : Prop where
  quiet : x.catalogBound = false → x.lost = false → ∀ table, (catalog table).branches t = none
  point : AtPoint catalog log t x

section Frame

variable {catalog catalog' : τ → TableMetadata ι} {log log' : List (Entry τ ι)} {t : ι}
  {x : TxnScope τ}

omit [DecidableEq τ] [DecidableEq ι] in
theorem Current.frame {c : TableCommit τ} (current : Current catalog t c)
    (follows : ∀ table, Follows t (catalog table) (catalog' table)) : Current catalog' t c := by
  rcases (follows c.ident).location with same | moved
  · exact ⟨same ▸ current.reached, same ▸ current.holds⟩
  · have past := Nat.lt_of_le_of_lt current.reached moved
    exact ⟨Nat.le_of_lt past, fun back => (Nat.ne_of_gt past back).elim⟩

omit [DecidableEq τ] [DecidableEq ι] in
theorem Covers.frame {tables : List (TxnTable τ)} {commits : List (TableCommit τ)}
    (covers : Covers catalog t tables commits)
    (follows : ∀ table, Follows t (catalog table) (catalog' table)) :
    Covers catalog' t tables commits where
  table := fun table listed => (covers.table table listed).imp_left (follows _).none
  commit := fun c listed => ⟨(covers.commit c listed).1.frame follows, (covers.commit c listed).2⟩

theorem Committed.frame (committed : Committed catalog log t x)
    (follows : ∀ table, Follows t (catalog table) (catalog' table))
    (kept : ∀ e ∈ log, e ∈ log') : Committed catalog' log' t x := by
  rcases committed with ⟨e, logged, moved⟩ | none
  · exact .inl ⟨e, kept e logged, moved⟩
  · exact .inr fun table listed => (follows _).none (none table listed)

theorem TxnSound.frame (sound : TxnSound catalog log t x)
    (follows : ∀ table, Follows t (catalog table) (catalog' table))
    (kept : ∀ e ∈ log, e ∈ log') : TxnSound catalog' log' t x := by
  refine ⟨fun unbound unlost table => (follows table).none (sound.quiet unbound unlost table), ?_⟩
  have here := sound.point
  rcases x with ⟨tables, bound, lost, call, point⟩
  cases point with
  | idle | claim | load | refresh | discard => exact here
  | post table attempt c => exact ⟨here.1, here.2.frame follows⟩
  | prepare attempt rest commits =>
    obtain ⟨done, split, covers⟩ := here
    exact ⟨done, split, covers.frame follows⟩
  | postAll attempt commits => exact Covers.frame here follows
  | ended ending =>
    cases ending with
    | committed => exact fun known => (here known).frame follows kept
    | failed | rolledBack => trivial

end Frame

/-- Points at which nothing is known of the catalog. -/
inductive Bare (x : TxnScope τ) : Point τ → Prop
  | idle : Bare x .idle
  | load {table : TxnTable τ} {attempt : Nat} (single : x.tables = [table]) :
      Bare x (.load table attempt)
  | refresh {table : TxnTable τ} {attempt : Nat} (single : x.tables = [table]) :
      Bare x (.refresh table attempt)
  | prepare {attempt : Nat} : Bare x (.prepare attempt x.tables [])
  | discard {rest : List (TxnTable τ)} {ending : Ending} (failed : ending ≠ .committed) :
      Bare x (.discard rest ending)
  | ended {ending : Ending} (failed : ending ≠ .committed) : Bare x (.ended ending)

section Local

variable {catalog : τ → TableMetadata ι} {log : List (Entry τ ι)} {t : ι} {x : TxnScope τ}

omit [DecidableEq τ] [DecidableEq ι] in
theorem covers_nil (catalog : τ → TableMetadata ι) (t : ι) : Covers catalog t [] [] :=
  ⟨by simp, by simp⟩

variable {table : TxnTable τ} {commits : List (TableCommit τ)} {p : Point τ}
variable {done : List (TxnTable τ)}

theorem Bare.atPoint (bare : Bare x p) : AtPoint catalog log t { x with point := p } := by
  cases bare with
  | idle => trivial
  | load single | refresh single => exact single
  | prepare => exact ⟨[], rfl, covers_nil catalog t⟩
  | discard failed => exact failed
  | @ended ending failed =>
    cases ending with
    | committed => exact (failed rfl).elim
    | failed | rolledBack => trivial

omit [DecidableEq τ] in
theorem discard_bare (tables : List (TxnTable τ)) {ending : Ending}
    (failed : ending ≠ .committed) : Bare x (discard tables ending) := by
  cases tables with
  | nil => exact .ended failed
  | cons table rest => exact .discard failed

omit [DecidableEq τ] in
theorem publishFails_bare (tables : List (TxnTable τ)) (code : SqeErrorCode) :
    Bare x (publishFails tables code) := by
  rw [publishFails]
  split
  · exact discard_bare tables (by simp)
  · exact .ended (by simp)

omit [DecidableEq τ] in
theorem publishBranchError_bare (single : x.tables = [table]) (attempt : Nat)
    (e : IcebergError) (again : Bool) : Bare x (publishBranchError table attempt e again) := by
  unfold publishBranchError
  split
  · exact .refresh single
  split
  · exact publishFails_bare _ _
  split
  · exact .load single
  split <;> exact publishFails_bare _ _

omit [DecidableEq τ] in
theorem publishBranchesError_bare (attempt : Nat) (e : IcebergError) :
    Bare x (publishBranchesError x.tables attempt e) := by
  unfold publishBranchesError
  split
  · exact publishFails_bare _ _
  split
  · exact .prepare
  split <;> exact publishFails_bare _ _

/-- What a transaction does in one step, seen from the catalog. -/
inductive Takes (t : ι) (catalog : τ → TableMetadata ι) (x : TxnScope τ) :
    Option (Change τ ι) → TxnScope τ → Prop
  | claimEmpty {table : τ} (unclaimed : ∀ claimed ∈ x.tables, claimed.ident ≠ table)
      (empty : (catalog table).currentSnapshotId = none) (idle : x.point = .idle) :
      Takes t catalog x none { x with tables := x.tables ++ [⟨table, none⟩] }
  | claim {table : τ} {base : SnapshotId} (unclaimed : ∀ claimed ∈ x.tables, claimed.ident ≠ table)
      (found : (catalog table).currentSnapshotId = some base) :
      Takes t catalog x none { x with point := .claim table base }
  | branched {table : τ} {base : SnapshotId} (claiming : x.point = .claim table base) :
      Takes t catalog x (some (.createBranch t table base)) { x with
        tables := x.tables ++ [⟨table, some base⟩], catalogBound := true, point := .idle }
  | branchLost {table : τ} {base : SnapshotId} {p : Point τ}
      (claiming : x.point = .claim table base) (back : p = x.point ∨ p = .idle) :
      Takes t catalog x (some (.createBranch t table base)) { x with lost := true, point := p }
  | wrote {table : τ} {bound lost : Bool} (claimed : ∃ claimed ∈ x.tables, claimed.ident = table)
      (known : bound = true ∨ lost = true) (idle : x.point = .idle) :
      Takes t catalog x (some (.write t table)) { x with catalogBound := bound, lost := lost }
  /-- Nothing is committed; what is known at the new point is known of this catalog. -/
  | moves {p : Point τ} {call : Nat} (unclaiming : ∀ table base, p ≠ .claim table base)
      (known : ∀ log, AtPoint catalog log t { x with call := call, point := p }) :
      Takes t catalog x none { x with call := call, point := p }
  | published {commits : List (TableCommit τ)} {p : Point τ}
      (covers : Covers catalog t x.tables commits) (current : current catalog commits = true)
      (onward : p = .ended .committed ∨ Bare x p) :
      Takes t catalog x (some (.publish t x.call commits)) { x with point := p }
  | dropped {table : τ} {p : Point τ} (bare : Bare x p) :
      Takes t catalog x (some (.dropBranch t table)) { x with point := p }

omit [DecidableEq τ] in
theorem Bare.unclaiming (bare : Bare x p) (table : τ) (base : SnapshotId) :
    p ≠ .claim table base := by
  cases bare <;> simp

theorem Takes.bare (bare : Bare x p) : Takes t catalog x none { x with point := p } :=
  .moves bare.unclaiming fun _ => bare.atPoint

section

omit [DecidableEq τ] [DecidableEq ι]

theorem publishBranchAction_ok {c : TableCommit τ}
    (made : publishBranchAction t table (catalog table.ident) = .ok c) :
    Current catalog t c ∧ c.ident = table.ident ∧ c.expectedMain = table.baseSnapshotId := by
  unfold publishBranchAction at made
  split at made
  · cases made
  next head found =>
    split at made
    · cases made
    next base =>
      cases made
      exact ⟨⟨Nat.le_refl _, fun _ => ⟨not_not.mp base, found⟩⟩, rfl, rfl⟩

theorem Covers.snoc {more : List (TableCommit τ)} (covers : Covers catalog t done commits)
    (last : Covers catalog t [table] more) :
    Covers catalog t (done ++ [table]) (commits ++ more) := by
  constructor
  · intro listed isListed
    rcases mem_append.mp isListed with before | here
    · rcases covers.table listed before with gone | ⟨c, prepared, fits⟩
      · exact .inl gone
      · exact .inr ⟨c, mem_append_left more prepared, fits⟩
    · rcases last.table listed here with gone | ⟨c, prepared, fits⟩
      · exact .inl gone
      · exact .inr ⟨c, mem_append_right commits prepared, fits⟩
  · intro c isPrepared
    rcases mem_append.mp isPrepared with before | here
    · obtain ⟨current, owner, listed, fits⟩ := covers.commit c before
      exact ⟨current, owner, mem_append_left [table] listed, fits⟩
    · obtain ⟨current, owner, listed, fits⟩ := last.commit c here
      exact ⟨current, owner, mem_append_right done listed, fits⟩

theorem covers_action {c : TableCommit τ}
    (made : publishBranchAction t table (catalog table.ident) = .ok c) :
    Covers catalog t [table] [c] := by
  obtain ⟨current, ident, base⟩ := publishBranchAction_ok made
  constructor
  · intro listed isListed
    cases mem_singleton.mp isListed
    exact .inr ⟨c, mem_singleton_self c, ident, base⟩
  · intro prepared isPrepared
    cases mem_singleton.mp isPrepared
    exact ⟨current, table, mem_singleton_self table, ident.symm, base.symm⟩

theorem covers_nothing (nothing : nothingToPublish t table (catalog table.ident) = true) :
    Covers catalog t [table] [] := by
  refine ⟨fun listed isListed => .inl ?_, by simp⟩
  cases mem_singleton.mp isListed
  simp only [nothingToPublish, Bool.and_eq_true, Option.isNone_iff_eq_none] at nothing
  exact nothing.2

end

theorem Covers.prepared {rest : List (TxnTable τ)}
    (covers : Covers catalog t done commits) (split : x.tables = done ++ rest) (attempt : Nat) :
    AtPoint catalog log t { x with point := prepared attempt rest commits } := by
  cases rest with
  | cons table rest => exact ⟨done, split, covers⟩
  | nil =>
    rw [append_nil] at split
    unfold Txn.prepared
    by_cases none : commits.isEmpty = true
    · rw [if_pos none]
      refine fun _ => .inr fun table listed => ?_
      rcases covers.table table (split ▸ listed) with gone | ⟨c, prepared, _⟩
      · exact gone
      · rw [List.isEmpty_iff.mp none] at prepared
        cases prepared
    · rw [if_neg none]
      exact (split ▸ covers : Covers catalog t x.tables commits)

omit [DecidableEq τ] in
theorem prepared_unclaiming (attempt : Nat) (rest : List (TxnTable τ))
    (commits : List (TableCommit τ)) (table : τ) (base : SnapshotId) :
    prepared attempt rest commits ≠ .claim table base := by
  unfold prepared
  split
  · split <;> simp
  · simp

theorem takes_prepareTable {attempt : Nat} {rest : List (TxnTable τ)}
    (covers : Covers catalog t done commits) (split : x.tables = done ++ table :: rest) :
    Takes t catalog x none { x with
      point := prepareTable t x.tables attempt table rest commits (catalog table.ident) } := by
  have splits : x.tables = (done ++ [table]) ++ rest := by rw [split]; simp
  unfold prepareTable
  by_cases nothing : nothingToPublish t table (catalog table.ident) = true
  · rw [if_pos nothing]
    have more := covers.snoc (covers_nothing nothing)
    rw [append_nil] at more
    exact .moves (prepared_unclaiming _ _ _) fun _ => more.prepared splits attempt
  · rw [if_neg nothing]
    cases made : publishBranchAction t table (catalog table.ident) with
    | error e => exact .bare (publishFails_bare _ _)
    | ok c =>
      have more := covers.snoc (covers_action made)
      exact .moves (prepared_unclaiming _ _ _) fun _ => more.prepared splits attempt

theorem takes_publish (sound : TxnSound catalog log t x) :
    Takes t catalog x none { x with call := x.call + 1, point := publish x } := by
  unfold publish
  by_cases bound : x.catalogBound = true
  · rw [if_neg (by simp [bound])]
    split
    next none => exact .moves (by simp) fun _ _ => .inr (by simp [none])
    next table single => exact .moves (by simp) fun _ => single
    · exact .moves (by simp) fun _ => ⟨[], rfl, covers_nil catalog t⟩
  · rw [if_pos (by simp [bound])]
    refine .moves (by simp) fun _ known => .inr fun table _ => ?_
    have unbound := Bool.eq_false_iff.mpr bound
    have unlost : x.lost = false := known.resolve_left bound
    exact sound.quiet unbound unlost table.ident

theorem takes_answered {answer : Answer}
    {onError : IcebergError → Point τ} {c : Option (Change τ ι)} {x' : TxnScope τ}
    (covers : Covers catalog t x.tables commits) (bare : ∀ e, Bare x (onError e))
    (taken : answered t catalog x commits answer onError = some (c, x')) :
    Takes t catalog x c x' := by
  revert taken
  fun_cases answered t catalog x commits answer onError <;> rintro ⟨⟩
  next current => exact .published covers current (.inl rfl)
  next e current => exact .published covers current (.inr (bare e))
  next e => exact .bare (bare e)

theorem TxnSound.takes (sound : TxnSound catalog log t x) {e : TxnEvent τ}
    {c : Option (Change τ ι)} {x' : TxnScope τ} (taken : x.next t catalog e = some (c, x')) :
    Takes t catalog x c x' := by
  have here := sound.point
  have apart {table : τ} (unclaimed : ¬ (x.tables.any fun c => decide (c.ident = table)) = true) :
      ∀ claimed ∈ x.tables, claimed.ident ≠ table := fun claimed listed same =>
    unclaimed (any_eq_true.mpr ⟨claimed, listed, decide_eq_true same⟩)
  have listed {table : τ} {claimed : TxnTable τ}
      (found : x.tables.find? (fun c => decide (c.ident = table)) = some claimed) :
      ∃ claimed ∈ x.tables, claimed.ident = table :=
    ⟨claimed, mem_of_find?_eq_some found, by simpa using find?_some found⟩
  revert taken
  -- the steps that are taken, in the order of `next`
  fun_cases TxnScope.next t catalog x e <;> intro taken
  all_goals try cases taken
  next idle unclaimed empty => exact .claimEmpty (apart unclaimed) empty idle
  next unclaimed base found => exact .claim (apart unclaimed) found
  next claiming change => exact .branched claiming
  next claiming change e => exact .branchLost claiming (by split <;> simp)
  · exact .bare .idle
  next idle claimed found _ => exact .wrote (listed found) (.inl rfl) idle
  next idle claimed found _ e => exact .wrote (listed found) (.inr rfl) idle
  next idle claimed found _ e =>
    have stays : Takes t catalog x none { x with point := .idle } := .bare .idle
    rwa [← idle] at stays
  · exact takes_publish sound
  next at_ =>
    simp only [AtPoint, at_] at here
    exact .bare (.refresh here)
  next at_ e failed =>
    simp only [AtPoint, at_] at here
    exact .bare (publishBranchError_bare here _ _ _)
  next at_ commit made =>
    simp only [AtPoint, at_] at here
    exact .moves (by simp) fun _ => ⟨here, (here ▸ covers_action made :
      Covers catalog t x.tables [commit])⟩
  next at_ =>
    simp only [AtPoint, at_] at here
    obtain ⟨done, split, covers⟩ := here
    exact takes_prepareTable covers split
  · exact .bare (publishFails_bare _ _)
  next at_ =>
    simp only [AtPoint, at_] at here
    exact .bare (publishBranchError_bare here _ _ _)
  · exact .bare (publishFails_bare _ _)
  next at_ =>
    simp only [AtPoint, at_] at here
    exact takes_answered here.2 (fun e => publishBranchError_bare here.1 _ e _) taken
  next at_ =>
    simp only [AtPoint, at_] at here
    exact takes_answered here (fun e => publishBranchesError_bare _ e) taken
  next dropped table rest ending at_ =>
    simp only [AtPoint, at_] at here
    cases dropped with
    | false => exact .bare (discard_bare rest here)
    | true => exact .dropped (discard_bare rest here)
  · split
    · exact .bare (discard_bare _ (by simp))
    · exact .bare (.ended (by simp))
  · exact .bare .idle

end Local

section Step

variable {s : State τ ι} {t : ι} {x' : TxnScope τ}

theorem published_of_covers {tables : List (TxnTable τ)} {commits : List (TableCommit τ)}
    {call : Nat} (covers : Covers s.catalog t tables commits)
    (now : current s.catalog commits = true) {table : TxnTable τ} (listed : table ∈ tables) :
    Entry.Published ⟨.publish t call commits, s.nextSnapshot, s.catalog,
      fun u => (s.txns u).tables⟩ t table := by
  intro head found
  have holds : ∀ c ∈ commits, (s.catalog c.ident).currentSnapshotId = c.expectedMain ∧
      (s.catalog c.ident).branches t = some c.head := fun c prepared =>
    (covers.commit c prepared).1.holds (eq_of_beq (all_eq_true.mp now c prepared))
  rcases covers.table table listed with gone | ⟨c, prepared, ident, base⟩
  · rw [gone] at found
    cases found
  · refine ⟨by rw [← base, ← ident]; exact (holds c prepared).1, ?_⟩
    dsimp only [Entry.after, Change.apply]
    cases first : commits.find? fun c => decide (c.ident = table.ident) with
    | none =>
      have unequal := find?_eq_none.mp first c prepared
      exact (unequal (decide_eq_true ident)).elim
    | some c' =>
      have same : c'.ident = table.ident := by simpa using find?_some first
      have its := (holds c' (mem_of_find?_eq_some first)).2
      rw [same, found] at its
      exact its.symm

theorem Takes.sound {c : Option (Change τ ι)} (sound : TxnSound s.catalog s.log t (s.txns t))
    (takes : Takes t s.catalog (s.txns t) c x') :
    TxnSound (s.commit? c).catalog (s.commit? c).log t x' := by
  cases takes with
  | claimEmpty _ _ idle => exact ⟨sound.quiet, by simp only [AtPoint, idle]⟩
  | claim => exact ⟨sound.quiet, trivial⟩
  | branched => exact ⟨by simp, trivial⟩
  | branchLost claiming back =>
    refine ⟨by simp, ?_⟩
    rcases back with rfl | rfl
    · simp only [AtPoint, claiming]
    · trivial
  | wrote _ known idle =>
    refine ⟨fun unbound unlost => ?_, by simp only [AtPoint, idle]⟩
    rcases known with bound | lost
    · cases bound.symm.trans unbound
    · cases lost.symm.trans unlost
  | moves _ known => exact ⟨sound.quiet, known _⟩
  | published covers now onward =>
    have follows := Change.follows (.publish t (s.txns t).call ‹_›) s.nextSnapshot s.catalog
      (t := t) (by simp [Change.sets])
    refine ⟨fun unbound unlost table =>
      (follows table).none (sound.quiet unbound unlost table), ?_⟩
    rcases onward with rfl | bare
    · refine fun _ => .inl ⟨_, mem_cons_self, ⟨_, rfl⟩, fun table listed => ?_⟩
      exact published_of_covers covers now listed
    · exact bare.atPoint
  | @dropped table p bare =>
    have follows := Change.follows (.dropBranch t table) s.nextSnapshot s.catalog
      (t := t) (by simp [Change.sets])
    exact ⟨fun unbound unlost table =>
      (follows table).none (sound.quiet unbound unlost table), bare.atPoint⟩

end Step

end Sqe.Catalog.Txn
