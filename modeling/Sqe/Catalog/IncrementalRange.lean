/- GID: Sqe/Catalog/IncrementalRange
   generality: G
   digest: The snapshots of FOR INCREMENTAL BETWEEN SNAPSHOT, over any graph of parents. -/

import Mathlib.Data.List.Nodup
import Mathlib.Data.List.Perm.Subperm
import Sqe.Catalog.TimeTravel

/-!
Parent pointers may dangle or form a cycle, so the loops of the code are run for a number of
rounds: `none` is a call that has not returned within them.
-/

set_option autoImplicit false

namespace Sqe.Catalog.IncrementalRange

open Sqe.Iceberg.Refs Sqe.Catalog.TimeTravel List

section Code

variable (m : TableMetadata)

/-- `ancestry` of `txn_private_snapshots`: the iterator follows the parents and keeps no record of
where it has been. -/
def successors : Nat → Option SnapshotId → Option (List SnapshotId)
  | 0, _ => none
  | _ + 1, none => some []
  | rounds + 1, some head => match snapshotById m.snapshots head with
    | none => some []
    | some s => (successors rounds s.parentSnapshotId).map (head :: ·)

def ancestries (rounds : Nat) : List (String × SnapshotReference) → Option (List SnapshotId)
  | [] => some []
  | r :: refs => do
    let own ← successors m rounds (some r.2.snapshotId)
    let others ← ancestries rounds refs
    return own ++ others

def txnPrivateWithin (rounds : Nat) : Option (List SnapshotId) :=
  let txnRefs := m.refs.filter fun r => isTxnRef r.1
  let publicRefs := m.refs.filter fun r => !isTxnRef r.1
  if txnRefs = [] then some []
  else do
    let shared ← ancestries m rounds publicRefs
    let reached ← ancestries m rounds txnRefs
    return reached.filter fun id => id ∉ shared

def rangeError (message : String) : SqeError :=
  ⟨.executionFailed, "FOR INCREMENTAL BETWEEN SNAPSHOT: " ++ message⟩

variable (start stop : SnapshotId)

/-- The walk from `stop` to `start`; `chain` is what it has passed and pushed, the last one first,
and also the set `seen`. -/
def walk : Nat → Option SnapshotId → List SnapshotId → Option (Except SqeError (List SnapshotId))
  | 0, _, _ => none
  | _ + 1, none, chain => some (.ok chain)
  | rounds + 1, some sid, chain =>
    if sid = start then some (.ok chain)
    else if sid ∈ chain then some (.error (rangeError s!"cycle detected at snapshot {sid}"))
    else match snapshotById m.snapshots sid with
      | none => some (.error (rangeError s!"dangling parent pointer at snapshot {sid}"))
      | some snap =>
        if snap.parentSnapshotId = none ∧ start ≠ 0 then
          some (.error (rangeError s!"start snapshot {start} is not an ancestor of end {stop}"))
        else walk rounds snap.parentSnapshotId (sid :: chain)

def resolveRange (rounds : Nat) : Option (Except SqeError (List SnapshotId)) :=
  if snapshotById m.snapshots stop = none then
    some (.error (rangeError s!"end snapshot {stop} not found on table"))
  else do
    let hidden ← txnPrivateWithin m rounds
    if stop ∈ hidden then
      return .error (rangeError s!"end snapshot {stop} not found on table")
    else if start ≠ 0 ∧ snapshotById m.snapshots start = none then
      return .error (rangeError s!"start snapshot {start} not found on table")
    else walk m start stop rounds (some stop) []

end Code

section Spec

variable (m : TableMetadata)

def Listed (id : SnapshotId) : Prop := snapshotById m.snapshots id ≠ none

/-- The parent pointers lead from the first pointer past these snapshots to the last pointer. -/
inductive Leads : Option SnapshotId → List SnapshotId → Option SnapshotId → Prop
  | done (c : Option SnapshotId) : Leads c [] c
  | pass {sid : SnapshotId} {s : Snapshot} {ids : List SnapshotId} {c : Option SnapshotId}
      (found : snapshotById m.snapshots sid = some s) (rest : Leads s.parentSnapshotId ids c) :
      Leads (some sid) (sid :: ids) c

def Stops (c : Option SnapshotId) : Prop := ∀ id, c = some id → ¬ Listed m id

def Ends (head : SnapshotId) : Prop := ∃ ids c, Leads m (some head) ids c ∧ Stops m c

def Reached (head id : SnapshotId) : Prop := Listed m id ∧ ∃ ids, Leads m (some head) ids (some id)

/-- Only branches of transactions reach the snapshot. -/
def Private (id : SnapshotId) : Prop :=
  (∃ r ∈ m.refs, isTxnRef r.1 = true ∧ Reached m r.2.snapshotId id) ∧
    ∀ r ∈ m.refs, Reached m r.2.snapshotId id → isTxnRef r.1 = true

def OnPath (stop id : SnapshotId) : Prop :=
  Listed m id ∧ ∃ ids, Leads m (some stop) ids (some id) ∧ ids.Nodup ∧ id ∉ ids

/-- From `stop` back to the snapshot after `start`, the oldest first. For 0 the path ends at the
root; a pointer to a snapshot 0 that does not exist is none. -/
def Range (start stop : SnapshotId) (list : List SnapshotId) : Prop :=
  list.Nodup ∧ ∃ c, Leads m (some stop) list.reverse c ∧
    if start = 0 then c = none ∨ c = some 0 ∧ ¬ Listed m 0
    else c = some start ∧ Listed m start ∧ start ∉ list

/-- The call returns; what it lists is the range, each snapshot once and none that is private; a
start off the path is refused. -/
def ResolvesRight (start stop : SnapshotId) : Prop :=
  ∃ rounds result, resolveRange m start stop rounds = some result ∧
    (∀ list, result = .ok list →
      Range m start stop list ∧ list.Nodup ∧ ∀ id ∈ list, ¬ Private m id) ∧
    (start ≠ 0 → ¬ OnPath m stop start → ∃ e, result = .error e)

/-- If there is a transaction's branch, every ref's chain of parents ends. -/
def RefsEnd : Prop := (∃ r ∈ m.refs, isTxnRef r.1 = true) → ∀ r ∈ m.refs, Ends m r.2.snapshotId

end Spec

variable {m : TableMetadata} {start stop id : SnapshotId} {ids list : List SnapshotId}
  {c c' cursor : Option SnapshotId} {rounds : Nat}

private theorem listed_of_found {s : Snapshot} (found : snapshotById m.snapshots id = some s) :
    Listed m id := by
  simp [Listed, found]

private theorem Leads.end_eq (leads : Leads m cursor ids c) (leads' : Leads m cursor ids c') :
    c = c' := by
  induction leads with
  | done => cases leads'; rfl
  | pass found _ ih =>
    cases leads' with
    | pass found' rest' =>
      obtain rfl := Option.some.inj (found.symm.trans found')
      exact ih rest'

private theorem Leads.mem {before : List SnapshotId} (leads : Leads m cursor ids c)
    (stops : Stops m c)
    (path : Leads m cursor before (some id)) (listed : Listed m id) : id ∈ ids := by
  induction leads generalizing before with
  | done =>
    cases path with
    | done => exact absurd listed (stops id rfl)
    | pass found => exact absurd (listed_of_found found) (stops _ rfl)
  | pass found _ ih =>
    cases path with
    | done => exact mem_cons_self
    | pass found' rest =>
      obtain rfl := Option.some.inj (found.symm.trans found')
      exact mem_cons_of_mem _ (ih stops rest)

private theorem Leads.split (leads : Leads m cursor ids c) (member : id ∈ ids) :
    Listed m id ∧ ∃ before after,
      ids = before ++ id :: after ∧ Leads m cursor before (some id) := by
  induction leads with
  | done => cases member
  | @pass sid s _ _ found _ ih =>
    rcases mem_cons.mp member with rfl | later
    · exact ⟨listed_of_found found, [], _, rfl, .done _⟩
    · obtain ⟨listed, before, after, rfl, rest⟩ := ih later
      exact ⟨listed, sid :: before, after, rfl, .pass found rest⟩

private theorem successors_eq_some :
    successors m rounds cursor = some ids ↔
      ids.length < rounds ∧ ∃ c, Leads m cursor ids c ∧ Stops m c := by
  induction rounds generalizing cursor ids with
  | zero => simp [successors]
  | succ rounds ih =>
    constructor
    · intro walked
      cases cursor with
      | none =>
        cases walked
        exact ⟨Nat.succ_pos _, none, .done _, nofun⟩
      | some head =>
        rw [successors] at walked
        cases found : snapshotById m.snapshots head with
        | none =>
          rw [found] at walked
          cases walked
          exact ⟨Nat.succ_pos _, _, .done _, fun id same listed =>
            listed (Option.some.inj same ▸ found)⟩
        | some s =>
          simp only [found, Option.map_eq_some_iff] at walked
          obtain ⟨rest, walked, rfl⟩ := walked
          obtain ⟨shorter, c, leads, stops⟩ := ih.mp walked
          exact ⟨Nat.succ_lt_succ shorter, c, .pass found leads, stops⟩
    · rintro ⟨shorter, c, leads, stops⟩
      cases leads with
      | done =>
        cases cursor with
        | none => rfl
        | some head => rw [successors, not_not.mp (stops head rfl)]
      | pass found rest =>
        simp only [successors, found]
        rw [ih.mpr ⟨Nat.lt_of_succ_lt_succ shorter, c, rest, stops⟩]
        rfl

variable {refs : List (String × SnapshotReference)} {reached hidden : List SnapshotId}

private theorem ancestries_cons {r : String × SnapshotReference} :
    ancestries m rounds (r :: refs) = some reached ↔
      ∃ own others, successors m rounds (some r.2.snapshotId) = some own ∧
        ancestries m rounds refs = some others ∧ own ++ others = reached := by
  simp only [ancestries, Option.pure_def, Option.bind_eq_bind, Option.bind_eq_some_iff,
    Option.some.injEq, exists_and_left]

private theorem ancestries_spec (walked : ancestries m rounds refs = some reached) :
    (∀ r ∈ refs, Ends m r.2.snapshotId) ∧
      ∀ id, id ∈ reached ↔ ∃ r ∈ refs, Reached m r.2.snapshotId id := by
  induction refs generalizing reached with
  | nil =>
    cases walked
    simp
  | cons r refs ih =>
    obtain ⟨own, others, first, rest, rfl⟩ := ancestries_cons.mp walked
    obtain ⟨-, c, leads, stops⟩ := successors_eq_some.mp first
    obtain ⟨ends, later⟩ := ih rest
    refine ⟨forall_mem_cons.mpr ⟨⟨own, c, leads, stops⟩, ends⟩, fun id => ?_⟩
    rw [mem_append, later, exists_mem_cons_iff]
    refine or_congr_left ⟨fun member => ?_, ?_⟩
    · obtain ⟨listed, before, -, -, path⟩ := leads.split member
      exact ⟨listed, before, path⟩
    · rintro ⟨listed, _, path⟩
      exact leads.mem stops path listed

private theorem ancestries_of_ends (ends : ∀ r ∈ refs, Ends m r.2.snapshotId) :
    ∃ least, ∀ rounds ≥ least, ∃ reached, ancestries m rounds refs = some reached := by
  induction refs with
  | nil => exact ⟨0, fun _ _ => ⟨[], rfl⟩⟩
  | cons r refs ih =>
    obtain ⟨⟨ids, c, leads, stops⟩, rest⟩ := forall_mem_cons.mp ends
    obtain ⟨least, later⟩ := ih rest
    refine ⟨max (ids.length + 1) least, fun rounds enough => ?_⟩
    obtain ⟨others, walked⟩ := later rounds (by omega)
    exact ⟨_, ancestries_cons.mpr
      ⟨ids, others, successors_eq_some.mpr ⟨by omega, c, leads, stops⟩, walked, rfl⟩⟩

private theorem filter_txnRefs_eq_nil_iff :
    (m.refs.filter fun r => isTxnRef r.1) = [] ↔ ¬ ∃ r ∈ m.refs, isTxnRef r.1 = true := by
  simp

private theorem txnPrivateWithin_spec (walked : txnPrivateWithin m rounds = some hidden) :
    RefsEnd m ∧ ∀ id, id ∈ hidden ↔ Private m id := by
  rw [txnPrivateWithin] at walked
  split at walked
  next none =>
    rw [filter_txnRefs_eq_nil_iff] at none
    cases walked
    refine ⟨fun some_ => absurd some_ none, fun id => ⟨nofun, ?_⟩⟩
    rintro ⟨⟨r, member, isTxn, -⟩, -⟩
    exact absurd ⟨r, member, isTxn⟩ none
  next =>
    simp only [Option.pure_def, Option.bind_eq_bind, Option.bind_eq_some_iff,
      Option.some.injEq] at walked
    obtain ⟨shared, first, reached, second, rfl⟩ := walked
    obtain ⟨endsPublic, inShared⟩ := ancestries_spec first
    obtain ⟨endsTxn, inReached⟩ := ancestries_spec second
    refine ⟨fun _ r member => ?_, fun id => ?_⟩
    · cases isTxn : isTxnRef r.1 with
      | true => exact endsTxn r (mem_filter.mpr ⟨member, isTxn⟩)
      | false => exact endsPublic r (mem_filter.mpr ⟨member, by rw [isTxn]; rfl⟩)
    · simp only [mem_filter, inReached, inShared, decide_eq_true_iff, Private, and_assoc,
        Bool.not_eq_true', not_exists, not_and]
      refine and_congr_right fun _ => forall₂_congr fun r member => ?_
      cases isTxnRef r.1 <;> simp

private theorem txnPrivateWithin_of_refsEnd (ends : RefsEnd m) :
    ∃ least, ∀ rounds ≥ least, ∃ hidden, txnPrivateWithin m rounds = some hidden := by
  by_cases some_ : ∃ r ∈ m.refs, isTxnRef r.1 = true
  · have among (keep : String × SnapshotReference → Bool) :
        ∃ least, ∀ rounds ≥ least, ∃ reached,
          ancestries m rounds (m.refs.filter keep) = some reached :=
      ancestries_of_ends fun r member => ends some_ r (mem_filter.mp member).1
    obtain ⟨least, first⟩ := among fun r => !isTxnRef r.1
    obtain ⟨least', second⟩ := among fun r => isTxnRef r.1
    refine ⟨max least least', fun rounds enough => ?_⟩
    obtain ⟨shared, first⟩ := first rounds (by omega)
    obtain ⟨reached, second⟩ := second rounds (by omega)
    rw [txnPrivateWithin, if_neg fun none => filter_txnRefs_eq_nil_iff.mp none some_, first, second]
    exact ⟨_, rfl⟩
  · exact ⟨0, fun _ _ => ⟨[], if_pos (filter_txnRefs_eq_nil_iff.mpr some_)⟩⟩

def Arrives (start : SnapshotId) (c : Option SnapshotId) : Prop :=
  c = some start ∨ c = none ∧ start = 0

variable {chain : List SnapshotId} {result : Except SqeError (List SnapshotId)}

private theorem walk_ok (walked : walk m start stop rounds cursor chain = some (.ok list))
    (goes : cursor = none → start = 0) :
    ∃ ids c, Leads m cursor ids c ∧ Arrives start c ∧ ids.Nodup ∧ start ∉ ids ∧
      List.Disjoint ids chain ∧ list = ids.reverse ++ chain := by
  induction rounds generalizing cursor chain with
  | zero => cases walked
  | succ rounds ih =>
    cases cursor with
    | none =>
      cases walked
      exact ⟨[], none, .done _, .inr ⟨rfl, goes rfl⟩, nodup_nil, nofun, by simp, rfl⟩
    | some sid =>
      rw [walk] at walked
      split at walked
      next here =>
        cases walked
        exact ⟨[], _, .done _, .inl (by rw [here]), nodup_nil, nofun, by simp, rfl⟩
      next apart =>
        split at walked
        next => cases walked
        next fresh =>
          split at walked
          next => cases walked
          next snap found =>
            split at walked
            next => cases walked
            next onward =>
              obtain ⟨ids, c, leads, arrives, nodup, before, disjoint, rfl⟩ :=
                ih walked fun none => by_contra fun other => onward ⟨none, other⟩
              obtain ⟨off, disjoint⟩ := disjoint_cons_right.mp disjoint
              exact ⟨sid :: ids, c, .pass found leads, arrives, nodup_cons.mpr ⟨off, nodup⟩,
                not_mem_cons_of_ne_of_not_mem (Ne.symm apart) before,
                disjoint_cons_left.mpr ⟨fresh, disjoint⟩, by simp⟩

private theorem walk_of_leads (leads : Leads m cursor ids c) (arrives : Arrives start c)
    (nodup : ids.Nodup) (before : start ∉ ids) (disjoint : List.Disjoint ids chain)
    (walked : walk m start stop rounds cursor chain = some result) :
    result = .ok (ids.reverse ++ chain) := by
  induction leads generalizing rounds chain with
  | done c =>
    cases rounds with
    | zero => cases walked
    | succ rounds =>
      rcases arrives with rfl | ⟨rfl, -⟩
      · rw [walk, if_pos rfl] at walked
        exact (Option.some.inj walked).symm
      · exact (Option.some.inj walked).symm
  | @pass sid s ids c found rest ih =>
    cases rounds with
    | zero => cases walked
    | succ rounds =>
      obtain ⟨apart, before⟩ := ne_and_not_mem_of_not_mem_cons before
      obtain ⟨fresh, disjoint⟩ := disjoint_cons_left.mp disjoint
      obtain ⟨off, nodup⟩ := nodup_cons.mp nodup
      have onward : ¬ (s.parentSnapshotId = none ∧ start ≠ 0) := by
        rintro ⟨none, other⟩
        rw [none] at rest
        cases rest
        rcases arrives with same | ⟨-, zero⟩
        · cases same
        · exact other zero
      rw [walk, if_neg apart.symm, if_neg fresh, found] at walked
      dsimp only at walked
      rw [if_neg onward] at walked
      rw [ih arrives nodup before (disjoint_cons_right.mpr ⟨off, disjoint⟩) walked]
      simp

/-- Each round passes a snapshot that has not been passed, so the walk returns. -/
private theorem walk_returns (nodup : chain.Nodup)
    (listed : chain ⊆ m.snapshots.map Snapshot.snapshotId)
    (enough : m.snapshots.length < rounds + chain.length) :
    ∃ result, walk m start stop rounds cursor chain = some result := by
  have bound := (subperm_of_subset nodup listed).length_le
  rw [length_map] at bound
  induction rounds generalizing cursor chain with
  | zero => omega
  | succ rounds ih =>
    cases cursor with
    | none => exact ⟨_, rfl⟩
    | some sid =>
      rw [walk]
      split
      next => exact ⟨_, rfl⟩
      next =>
        split
        next => exact ⟨_, rfl⟩
        next fresh =>
          split
          next => exact ⟨_, rfl⟩
          next snap found =>
            split
            next => exact ⟨_, rfl⟩
            next =>
              have known := snapshotById_isSome_iff.mp (Option.isSome_of_eq_some found)
              have nodup := nodup_cons.mpr ⟨fresh, nodup⟩
              have listed := cons_subset.mpr ⟨known, listed⟩
              have bound := (subperm_of_subset nodup listed).length_le
              rw [length_map, length_cons] at bound
              exact ih nodup listed (by rw [length_cons]; omega) bound

private theorem range_of_walk (present : start ≠ 0 → Listed m start)
    (off : start = 0 → ¬ OnPath m stop 0)
    (walked : walk m start stop rounds (some stop) [] = some (.ok list)) :
    Range m start stop list ∧ (start ≠ 0 → OnPath m stop start) := by
  obtain ⟨ids, c, leads, arrives, nodup, before, -, rfl⟩ := walk_ok walked nofun
  rw [append_nil, Range, nodup_reverse, reverse_reverse, mem_reverse]
  by_cases zero : start = 0
  · subst zero
    refine ⟨⟨nodup, c, leads, ?_⟩, fun other => absurd rfl other⟩
    rw [if_pos rfl]
    rcases arrives with rfl | ⟨none, -⟩
    · exact .inr ⟨rfl, fun listed => off rfl ⟨listed, ids, leads, nodup, before⟩⟩
    · exact .inl none
  · obtain rfl := arrives.resolve_right fun none => zero none.2
    refine ⟨⟨nodup, _, leads, ?_⟩, fun _ => ⟨present zero, ids, leads, nodup, before⟩⟩
    rw [if_neg zero]
    exact ⟨rfl, present zero, before⟩

private theorem walk_of_range (range : Range m start stop list)
    (off : start = 0 → ¬ OnPath m stop 0)
    (walked : walk m start stop rounds (some stop) [] = some result) : result = .ok list := by
  obtain ⟨nodup, c, leads, ends⟩ := range
  have nodup := nodup_reverse.mpr nodup
  have exact_ (arrives : Arrives start c) (before : start ∉ list.reverse) : result = .ok list := by
    simpa using walk_of_leads leads arrives nodup before (by simp) walked
  by_cases zero : start = 0
  · subst zero
    rw [if_pos rfl] at ends
    refine exact_ ?_ fun member => ?_
    · exact ends.elim (fun none => .inr ⟨none, rfl⟩) fun sentinel => .inl sentinel.1
    · obtain ⟨listed, before, after, parts, path⟩ := leads.split member
      obtain ⟨once, -, apart⟩ := nodup_append.mp (parts ▸ nodup)
      exact off rfl ⟨listed, before, path, once, fun again =>
        apart 0 again 0 mem_cons_self rfl⟩
  · rw [if_neg zero] at ends
    exact exact_ (.inl ends.1) (by simpa using ends.2.2)

/-- A call returns, and rightly, iff the snapshot is absent or the refs' parents end and, unless
the snapshot is private, the path of 0 does not meet a snapshot 0 and no private one is in range. -/
theorem resolves_right_iff (m : TableMetadata) (start stop : SnapshotId) :
    ResolvesRight m start stop ↔
      (Listed m stop → RefsEnd m ∧ (¬ Private m stop → (start = 0 → ¬ OnPath m stop 0) ∧
          ∀ list, Range m start stop list → ∀ id ∈ list, ¬ Private m id)) := by
  constructor
  · rintro ⟨rounds, result, returned, right, -⟩ listed
    rw [resolveRange, if_neg listed] at returned
    obtain ⟨hidden, walked, returned⟩ := Option.bind_eq_some_iff.mp returned
    obtain ⟨ends, inHidden⟩ := txnPrivateWithin_spec walked
    refine ⟨ends, fun isPublic => ?_⟩
    rw [if_neg fun member => isPublic ((inHidden stop).mp member)] at returned
    have off : start = 0 → ¬ OnPath m stop 0 := by
      rintro rfl ⟨listed, ids, path, nodup, before⟩
      rw [if_neg fun missing => missing.1 rfl] at returned
      have exact_ := walk_of_leads path (.inl rfl) nodup before (by simp) returned
      obtain ⟨⟨-, c, leads, stops⟩, -⟩ := right _ exact_
      rw [append_nil, reverse_reverse] at leads
      obtain rfl := leads.end_eq path
      rcases stops with none | ⟨-, missing⟩
      · cases none
      · exact missing listed
    refine ⟨off, fun list range => ?_⟩
    rw [if_neg] at returned
    · exact (right list (walk_of_range range off returned)).2.2
    · rintro ⟨other, missing⟩
      obtain ⟨-, c, -, ends⟩ := range
      rw [if_neg other] at ends
      exact ends.2.1 missing
  · intro condition
    by_cases listed : Listed m stop
    · obtain ⟨ends, condition⟩ := condition listed
      obtain ⟨least, walked⟩ := txnPrivateWithin_of_refsEnd ends
      obtain ⟨hidden, walked⟩ := walked (max least (m.snapshots.length + 1)) (by omega)
      refine ⟨max least (m.snapshots.length + 1), ?_⟩
      rw [resolveRange, if_neg listed]
      simp only [walked, Option.bind_eq_bind, Option.bind_some]
      split
      next => exact ⟨_, rfl, nofun, fun _ _ => ⟨_, rfl⟩⟩
      next isPublic =>
        split
        next => exact ⟨_, rfl, nofun, fun _ _ => ⟨_, rfl⟩⟩
        next present =>
          have present : start ≠ 0 → Listed m start := fun other missing =>
            present ⟨other, missing⟩
          obtain ⟨off, clear⟩ := condition fun isPrivate =>
            isPublic (((txnPrivateWithin_spec walked).2 stop).mpr isPrivate)
          obtain ⟨result, returned⟩ : ∃ result, walk m start stop
              (max least (m.snapshots.length + 1)) (some stop) [] = some result :=
            walk_returns nodup_nil (nil_subset _) (by rw [length_nil]; omega)
          refine ⟨result, returned, ?_, fun other away => ?_⟩
          · rintro list rfl
            obtain ⟨range, -⟩ := range_of_walk present off returned
            exact ⟨range, range.1, clear list range⟩
          · cases result with
            | error e => exact ⟨e, rfl⟩
            | ok list => exact absurd ((range_of_walk present off returned).2 other) away
    · exact ⟨0, .error _, if_pos (not_not.mp listed), nofun, fun _ _ => ⟨_, rfl⟩⟩

private theorem Leads.trans (first : Leads m cursor ids c) {ids' : List SnapshotId}
    (second : Leads m c ids' c') : Leads m cursor (ids ++ ids') c' := by
  induction first with
  | done => exact second
  | pass found _ ih => exact .pass found (ih second)

/-- A range that ends where a ref reaches that is no transaction's has no private snapshot. -/
theorem range_public {r : String × SnapshotReference} (member : r ∈ m.refs)
    (plain : isTxnRef r.1 = false) (reaches : Reached m r.2.snapshotId stop)
    (range : Range m start stop list) : ∀ id ∈ list, ¬ Private m id := by
  intro id among isPrivate
  obtain ⟨-, c, leads, -⟩ := range
  obtain ⟨listed, before, _, -, path⟩ := leads.split (mem_reverse.mpr among)
  obtain ⟨-, ids, toStop⟩ := reaches
  have isTxn := isPrivate.2 r member ⟨listed, ids ++ before, toStop.trans path⟩
  rw [plain] at isTxn
  cases isTxn

private theorem Leads.cut {before : List SnapshotId} (leads : Leads m cursor (before ++ ids) c) :
    ∃ mid, Leads m cursor before mid ∧ Leads m mid ids c := by
  induction before generalizing cursor with
  | nil => exact ⟨cursor, .done _, leads⟩
  | cons sid before ih =>
    cases leads with
    | pass found rest =>
      obtain ⟨mid, first, second⟩ := ih rest
      exact ⟨mid, .pass found first, second⟩

private theorem resolves_of_leads (ends : RefsEnd m) (listed : Listed m stop)
    (isPublic : ¬ Private m stop)
    (present : start ≠ 0 → Listed m start) (leads : Leads m (some stop) ids c)
    (arrives : Arrives start c) (nodup : ids.Nodup) (before : start ∉ ids) :
    ∃ rounds, resolveRange m start stop rounds = some (.ok ids.reverse) := by
  obtain ⟨least, walked⟩ := txnPrivateWithin_of_refsEnd ends
  obtain ⟨hidden, walked⟩ := walked (max least (m.snapshots.length + 1)) (by omega)
  obtain ⟨result, returned⟩ : ∃ result, walk m start stop (max least (m.snapshots.length + 1))
      (some stop) [] = some result :=
    walk_returns nodup_nil (nil_subset _) (by rw [length_nil]; omega)
  have right := walk_of_leads leads arrives nodup before (by simp) returned
  refine ⟨max least (m.snapshots.length + 1), ?_⟩
  have shown : stop ∉ hidden := fun member =>
    isPublic (((txnPrivateWithin_spec walked).2 stop).mp member)
  rw [resolveRange, if_neg listed, walked]
  simp only [Option.bind_eq_bind, Option.bind_some]
  rw [if_neg shown, if_neg fun missing => present missing.1 missing.2, returned, right, append_nil]

/-- A range that resolves may be read in two parts: cut at any snapshot of it that is public, both
parts resolve, and one after the other they are the range. -/
theorem resolveRange_cut {mid : SnapshotId}
    (resolved : resolveRange m start stop rounds = some (.ok list)) (among : mid ∈ list)
    (isPublic : ¬ Private m mid) :
    ∃ earlier later, list = earlier ++ later ∧
      (∃ rounds, resolveRange m start mid rounds = some (.ok earlier)) ∧
      ∃ rounds, resolveRange m mid stop rounds = some (.ok later) := by
  rw [resolveRange] at resolved
  split at resolved
  · cases resolved
  next listed =>
    obtain ⟨hidden, walked, resolved⟩ := Option.bind_eq_some_iff.mp resolved
    obtain ⟨ends, inHidden⟩ := txnPrivateWithin_spec walked
    split at resolved
    · cases resolved
    next shown =>
      split at resolved
      · cases resolved
      next present =>
        obtain ⟨ids, c, leads, arrives, nodup, before, -, rfl⟩ := walk_ok resolved nofun
        obtain ⟨newer, older, rfl⟩ := append_of_mem (mem_reverse.mp (append_nil _ ▸ among))
        obtain ⟨cursor, first, second⟩ := leads.cut
        cases second with
        | pass found rest =>
          obtain ⟨once, once', apart⟩ := nodup_append.mp nodup
          have there := listed_of_found found
          refine ⟨(mid :: older).reverse, newer.reverse, by simp, ?_, ?_⟩
          · exact resolves_of_leads ends there isPublic
              (fun other missing => present ⟨other, missing⟩) (.pass found rest) arrives once'
              fun member => before (mem_append_right _ member)
          · exact resolves_of_leads ends listed
              (fun isPrivate => shown ((inHidden stop).mpr isPrivate)) (fun _ => there) first
              (.inl rfl) once fun member => apart mid member mid mem_cons_self rfl

def mainAt (id : SnapshotId) : String × SnapshotReference := (mainBranch, ⟨id, .branch⟩)

def txnAt (id : SnapshotId) : String × SnapshotReference := ("sqe-txn-1", ⟨id, .branch⟩)

/-- `main` is at 3, a transaction's branch at 1, which is its own parent. -/
def cyclic : TableMetadata := ⟨[⟨3, none, 3⟩, ⟨1, some 1, 1⟩], [mainAt 3, txnAt 1]⟩

/-- 3 was committed on the transaction's snapshot 2 and has no ref. -/
def unreferenced : TableMetadata where
  snapshots := [⟨3, some 2, 3⟩, ⟨2, some 1, 2⟩, ⟨1, none, 1⟩]
  refs := [mainAt 1, txnAt 2]

def fromZero : TableMetadata := ⟨[⟨1, some 0, 1⟩, ⟨0, none, 0⟩], [mainAt 1]⟩

private theorem successors_cyclic (rounds : Nat) : successors cyclic rounds (some 1) = none := by
  induction rounds with
  | zero => rfl
  | succ rounds ih => exact congrArg (Option.map _) ih

/-- The range that ends at 3 never resolves; a range lists a private snapshot; the range from the
beginning leaves out the snapshot 0. -/
theorem range_goes_wrong :
    (∀ rounds, resolveRange cyclic 0 3 rounds = none) ∧
    (resolveRange unreferenced 0 3 5 = some (.ok [1, 2, 3]) ∧
      txnPrivateWithin unreferenced 5 = some [2]) ∧
    resolveRange fromZero 0 1 5 = some (.ok [1]) := by
  refine ⟨fun rounds => ?_, by decide +kernel, by decide +kernel⟩
  have looping : ancestries cyclic rounds [txnAt 1] = none :=
    congrArg (Option.bind · _) (successors_cyclic rounds)
  have hidden : txnPrivateWithin cyclic rounds = (ancestries cyclic rounds [mainAt 3]).bind fun
      shared => (ancestries cyclic rounds [txnAt 1]).bind fun reached =>
        some (reached.filter fun id => id ∉ shared) := rfl
  rw [resolveRange, if_neg (by decide), hidden, looping]
  cases ancestries cyclic rounds [mainAt 3] <;> rfl

/-- Three snapshots on `main`, one after another. -/
def linear : TableMetadata := ⟨[⟨3, some 2, 3⟩, ⟨2, some 1, 2⟩, ⟨1, none, 1⟩], [mainAt 3]⟩

/-- The range up to 3 is that up to 2 and then that from 2 to 3. -/
theorem linear_cut : ∃ earlier later, [1, 2, 3] = earlier ++ later ∧
    (∃ rounds, resolveRange linear 0 2 rounds = some (.ok earlier)) ∧
    ∃ rounds, resolveRange linear 2 3 rounds = some (.ok later) := by
  have resolved : resolveRange linear 0 3 5 = some (.ok [1, 2, 3]) := by decide +kernel
  refine resolveRange_cut resolved (by decide) ?_
  rintro ⟨⟨r, member, isTxn, -⟩, -⟩
  obtain rfl := List.mem_singleton.mp member
  cases isTxn

end Sqe.Catalog.IncrementalRange
