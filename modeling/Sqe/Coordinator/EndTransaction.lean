/- GID: Sqe/Coordinator/EndTransaction
   generality: G
   digest: COMMIT and ROLLBACK of one transaction, and what their answers say of `main`. -/

import Sqe.Catalog.TxnSteps

/-!
`end_transaction` on top of the transactions and their catalog, for the statements that carry one
transaction's id. The registry forgets an ended id after a day; such a replay is left out.
-/

set_option autoImplicit false

namespace Sqe.Coordinator.EndTransaction

open Sqe.Catalog List Option
open Sqe.Library.Transition (Reachable follow)

inductive Registered
  | unused
  | opened
  | ended
  deriving DecidableEq

inductive Statement
  | commit
  | rollback
  deriving DecidableEq

inductive ReplyCode
  | publish (code : Txn.SqeErrorCode)
  /-- The session is not in the manager. -/
  | executionFailed
  deriving DecidableEq

inductive Reply
  | ok
  | error (code : ReplyCode)
  deriving DecidableEq

structure State (τ ι : Type) where
  world : Txn.State τ ι
  registered : Registered
  /-- The statement that is in `publish` or `discard`. -/
  running : Option Statement
  answers : List (Statement × Reply)

inductive Event (τ ι : Type)
  /-- The catalog or a transaction takes a step. -/
  | world (e : Txn.Event τ ι)
  /-- The first statement of the transaction creates its scope. -/
  | scope
  /-- COMMIT or ROLLBACK is sent; `known` tells that the manager knows the session. -/
  | endTransaction (statement : Statement) (known : Bool)
  /-- `publish` or `discard` is back. -/
  | finish (known : Bool)
  /-- The transaction was idle or open for too long. -/
  | sweep

variable {τ ι : Type} [DecidableEq τ] [DecidableEq ι]

/-- `set_session_transaction(None)?`, and then the answer. -/
def afterSession (known : Bool) (reply : Reply) : Reply :=
  if known then reply else .error .executionFailed

def alreadyEnded : Statement → Reply
  | .commit => .error (.publish .transactionConflict)
  | .rollback => .ok

def Statement.enters : Statement → Txn.TxnEvent τ
  | .commit => .publish
  | .rollback => .rollback

/-- The steps of the transaction itself: its writes run while it is open, the calls of `publish`
and `discard` while a statement ends it. -/
def allowed (s : State τ ι) : Txn.TxnEvent τ → Bool
  | .claim _ => s.registered = .opened
  | .createBranch _ _ => s.registered = .opened
  | .write _ _ => s.registered = .opened
  | .load => s.running.isSome
  | .loadFails _ _ => s.running.isSome
  | .answer _ _ => s.running.isSome
  | .drop _ => s.running.isSome
  | .publish => false
  | .rollback => false
  | .reopen => false

def permitted (t : ι) (s : State τ ι) : Txn.Event τ ι → Bool
  | .txn u e => u ≠ t || allowed s e
  | _ => true

def State.answer (s : State τ ι) (statement : Statement) (reply : Reply) : State τ ι :=
  { s with running := none, answers := s.answers ++ [(statement, reply)] }

def step (t : ι) (s : State τ ι) : Event τ ι → Option (State τ ι)
  | .world e => if permitted t s e then
      (Txn.step s.world e).map fun world => { s with world := world } else none
  | .scope => match s.registered with
      | .unused => some { s with registered := .opened }
      | _ => none
  | .endTransaction statement known => match s.running, s.registered with
      | none, .opened => (Txn.step s.world (.txn t statement.enters)).map fun world =>
        { s with world := world, registered := .ended, running := some statement }
      | none, .unused => some
          ({ s with registered := .ended }.answer statement (afterSession known .ok))
      | none, .ended => some (s.answer statement (afterSession known (alreadyEnded statement)))
      | _, _ => none
  | .finish known => match s.running, (s.world.txns t).point with
      | some statement, .ended .committed => some (s.answer statement (afterSession known .ok))
      | some statement, .ended .rolledBack => some (s.answer statement (afterSession known .ok))
      | some statement, .ended (.failed .transactionConflict) => some
          (s.answer statement (afterSession known (.error (.publish .transactionConflict))))
      | some statement, .ended (.failed code) =>
        (Txn.step s.world (.txn t .reopen)).map fun world =>
          { s with world := world, registered := .opened }.answer statement
            (.error (.publish code))
      | _, _ => none
  | .sweep => match s.registered with
      | .opened => some { s with registered := .ended }
      | _ => none

/-- No statement was sent under the id. -/
structure Unused (t : ι) (s : State τ ι) : Prop where
  registered : s.registered = .unused
  running : s.running = none
  answers : s.answers = []
  point : (s.world.txns t).point = .idle
  log : ∀ e ∈ s.world.log, e.change.publisher ≠ some t

def Published (t : ι) (s : State τ ι) : Prop := ∃ e ∈ s.world.log, e.change.publisher = some t

def Denied (s : State τ ι) : Prop :=
  (.commit, .error (.publish .transactionConflict)) ∈ s.answers ∨ (.rollback, .ok) ∈ s.answers

/-- The catalog does not answer an applied publish commit of the transaction with an error, and no
statement is sent under its id once its COMMIT is through. -/
def Truthful (t : ι) (s : State τ ι) : Event τ ι → Prop
  | .world (.txn u (.answer (.lost _) _)) => u ≠ t
  | .endTransaction _ _ => (s.world.txns t).point ≠ .ended .committed
  | _ => True

inductive RollingBack : Txn.Point τ → Prop
  | discard {rest : List (Txn.TxnTable τ)} : RollingBack (.discard rest .rolledBack)
  | ended : RollingBack (.ended .rolledBack)

structure Sound (t : ι) (s : State τ ι) : Prop where
  published : Published t s → (s.world.txns t).point = .ended .committed ∧ ¬ Denied s
  denied : Denied s → s.registered = .ended ∧ s.running = none
  running : s.running ≠ none → s.registered = .ended
  rollback : s.running = some .rollback → RollingBack (s.world.txns t).point

section World

variable {t : ι} {w w' : Txn.State τ ι}

omit [DecidableEq τ] [DecidableEq ι] in
theorem answered_publishes {catalog : τ → Txn.TableMetadata ι} {x x' : Txn.TxnScope τ}
    {commits : List (Txn.TableCommit τ)} {answer : Txn.Answer}
    {onError : Txn.IcebergError → Txn.Point τ} {change : Txn.Change τ ι}
    (taken : Txn.answered t catalog x commits answer onError = some (some change, x')) :
    change.publisher = some t ∧
      ((∃ e, answer = .lost e) ∨ x'.point = .ended .committed) := by
  unfold Txn.answered at taken
  cases answer <;> grind [Txn.Change.publisher]

variable {e : Txn.TxnEvent τ}

omit [DecidableEq ι] in
theorem next_publishes {catalog : τ → Txn.TableMetadata ι} {x x' : Txn.TxnScope τ}
    {change : Txn.Change τ ι} (taken : x.next t catalog e = some (some change, x')) {u : ι}
    (publishes : change.publisher = some u) :
    u = t ∧ ∃ answer again, e = .answer answer again ∧
      ((∃ error, answer = .lost error) ∨ x'.point = .ended .committed) := by
  cases e with
  | answer answer again =>
    have found : change.publisher = some t ∧
        ((∃ e, answer = .lost e) ∨ x'.point = .ended .committed) := by
      simp only [Txn.TxnScope.next] at taken
      split at taken
      · exact answered_publishes taken
      · exact answered_publishes taken
      · cases taken
    exact ⟨some.inj (publishes.symm.trans found.1), answer, again, rfl, found.2⟩
  | claim | createBranch | write | publish | load | loadFails | drop | rollback | reopen =>
    unfold Txn.TxnScope.next at taken
    grind [Txn.Change.publisher]

theorem step_txn (taken : Txn.step w (.txn t e) = some w') :
    ∃ c x', (w.txns t).next t w.catalog e = some (c, x') ∧ w' = (w.commit? c).setTxn t x' := by
  obtain ⟨⟨c, x'⟩, next, rfl⟩ := map_eq_some_iff.mp taken
  exact ⟨c, x', next, rfl⟩

theorem step_publishes {e : Txn.Event τ ι} (taken : Txn.step w e = some w') {entry : Txn.Entry τ ι}
    (logged : entry ∈ w'.log) (publishes : entry.change.publisher = some t) :
    entry ∈ w.log ∨ ∃ answer again, e = .txn t (.answer answer again) ∧
      ((∃ error, answer = .lost error) ∨ (w'.txns t).point = .ended .committed) := by
  have other {change : Txn.Change τ ι} (same : w' = w.commit change)
      (silent : change.publisher = none) : entry ∈ w.log := by
    subst same
    rcases mem_cons.mp logged with rfl | before
    · rw [silent] at publishes
      cases publishes
    · exact before
  cases e with
  | append table | touch table | dropBranch u table =>
    exact .inl (other (some.inj taken).symm rfl)
  | setCurrentSnapshot table id =>
    simp only [Txn.step] at taken
    split at taken
    · exact .inl (other (some.inj taken).symm rfl)
    · cases taken
  | txn u e =>
    obtain ⟨c, x', next, rfl⟩ := step_txn taken
    cases c with
    | none => exact .inl logged
    | some change =>
      rcases mem_cons.mp logged with rfl | before
      · obtain ⟨rfl, answer, again, rfl, outcome⟩ := next_publishes next publishes
        refine .inr ⟨answer, again, rfl, outcome.imp_right fun ends => ?_⟩
        simpa [Txn.State.setTxn] using ends
      · exact .inl before

theorem step_others {e : Txn.Event τ ι} (taken : Txn.step w e = some w')
    (other : ∀ own, e ≠ .txn t own) : w'.txns t = w.txns t := by
  cases e with
  | txn u e =>
    obtain ⟨c, -, _, rfl⟩ := step_txn taken
    have apart : t ≠ u := fun same => other e (same ▸ rfl)
    cases c <;> simp [Txn.State.setTxn, Txn.State.commit?, Txn.State.commit, apart]
  | append table | touch table | dropBranch u table =>
    cases taken
    rfl
  | setCurrentSnapshot table id =>
    simp only [Txn.step] at taken
    split at taken
    · cases taken
      rfl
    · cases taken

theorem step_committed (ends : (w.txns t).point = .ended .committed) (e : Txn.TxnEvent τ) :
    Txn.step w (.txn t e) = none := by
  have stuck : (w.txns t).next t w.catalog e = none := by
    cases e <;> simp only [Txn.TxnScope.next, ends]
  simp only [Txn.step, stuck, map_none]

theorem step_rollingBack (taken : Txn.step w (.txn t e) = some w')
    (rolling : RollingBack (w.txns t).point) : RollingBack (w'.txns t).point := by
  obtain ⟨c, x', next, rfl⟩ := step_txn taken
  have kept : RollingBack x'.point := by
    generalize at_ : (w.txns t).point = point at rolling
    cases rolling with
    | ended => cases e <;> simp [Txn.TxnScope.next, at_] at next
    | @discard rest =>
      cases rest with
      | nil => cases e <;> simp [Txn.TxnScope.next, at_] at next
      | cons table rest =>
        cases e <;> simp only [Txn.TxnScope.next, at_] at next <;> try cases next
        cases rest with
        | nil => exact .ended
        | cons => exact .discard
  simpa [Txn.State.setTxn] using kept

end World

section Steps

variable {t : ι} {s s' : State τ ι}

omit [DecidableEq τ] [DecidableEq ι] in
theorem sound_of_unused (unused : Unused t s) : Sound t s where
  published := fun ⟨e, logged, publishes⟩ => (unused.log e logged publishes).elim
  denied := by simp [Denied, unused.answers]
  running := fun runs => (runs unused.running).elim
  rollback := by simp [unused.running]

omit [DecidableEq τ] [DecidableEq ι] in
theorem Sound.answer (sound : Sound t s) (statement : Statement) (reply : Reply)
    (registered : s.registered = .ended ∨ ¬ Denied s ∧ reply ≠ .ok ∧
      reply ≠ .error (.publish .transactionConflict))
    (honest : Published t s → (statement, reply) ≠ (.rollback, .ok) ∧
      (statement, reply) ≠ (.commit, .error (.publish .transactionConflict))) :
    Sound t (s.answer statement reply) := by
  have denied : Denied (s.answer statement reply) → Denied s ∨
      (statement, reply) = (.commit, .error (.publish .transactionConflict)) ∨
      (statement, reply) = (.rollback, .ok) := by
    simp only [Denied, State.answer, mem_append, mem_singleton]
    rintro ((before | here) | (before | here))
    · exact .inl (.inl before)
    · exact .inr (.inl here.symm)
    · exact .inl (.inr before)
    · exact .inr (.inr here.symm)
  refine ⟨fun published => ?_, fun denies => ?_, fun runs => (runs rfl).elim,
    by simp [State.answer]⟩
  · obtain ⟨ends, undenied⟩ := sound.published published
    refine ⟨ends, fun denies => ?_⟩
    rcases denied denies with before | here | here
    · exact undenied before
    · exact (honest published).2 here
    · exact (honest published).1 here
  · refine ⟨?_, rfl⟩
    rcases registered with ends | ⟨undenied, notOk, notConflict⟩
    · exact ends
    · rcases denied denies with before | here | here
      · exact (undenied before).elim
      · exact (notConflict (Prod.mk.inj here).2).elim
      · exact (notOk (Prod.mk.inj here).2).elim

variable {world : Txn.State τ ι}

theorem sound_world (sound : Sound t s) {e : Txn.Event τ ι}
    (meets : Truthful t s (.world e)) (allows : permitted t s e = true)
    (taken : Txn.step s.world e = some world) : Sound t { s with world := world } := by
  refine ⟨?_, sound.denied, sound.running, fun rolls => ?_⟩
  · rintro ⟨entry, logged, publishes⟩
    rcases step_publishes taken logged publishes with before | ⟨answer, again, rfl, outcome⟩
    · obtain ⟨ends, undenied⟩ := sound.published ⟨entry, before, publishes⟩
      refine ⟨?_, undenied⟩
      have others : ∀ own, e ≠ .txn t own := by
        rintro own rfl
        rw [step_committed ends own] at taken
        cases taken
      show (world.txns t).point = _
      rw [step_others taken others, ends]
    · rcases outcome with ⟨error, rfl⟩ | ends
      · exact (meets rfl).elim
      · refine ⟨ends, fun denies => ?_⟩
        have idle := (sound.denied denies).2
        simp [permitted, allowed, idle] at allows
  · have rolling := sound.rollback rolls
    by_cases own : ∃ e', e = .txn t e'
    · obtain ⟨e', rfl⟩ := own
      exact step_rollingBack taken rolling
    · show RollingBack (world.txns t).point
      rw [step_others taken fun e' same => own ⟨e', same⟩]
      exact rolling

theorem unpublished_step {e : Txn.TxnEvent τ} (taken : Txn.step s.world (.txn t e) = some world)
    (silent : ∀ answer again, e ≠ .answer answer again) (unpublished : ¬ Published t s)
    {entry : Txn.Entry τ ι} (logged : entry ∈ world.log) : entry.change.publisher ≠ some t := by
  intro publishes
  rcases step_publishes taken logged publishes with before | ⟨answer, again, same, _⟩
  · exact unpublished ⟨entry, before, publishes⟩
  · cases same
    exact silent answer again rfl

theorem rollingBack_enters
    (taken : Txn.step s.world (.txn t (Statement.rollback.enters)) = some world) :
    RollingBack (world.txns t).point := by
  obtain ⟨c, x', next, rfl⟩ := step_txn taken
  have rolls : RollingBack x'.point := by
    simp only [Statement.enters, Txn.TxnScope.next] at next
    split at next
    · cases next
      split
      · cases (s.world.txns t).tables with
        | nil => exact .ended
        | cons => exact .discard
      · exact .ended
    · cases next
  simpa [Txn.State.setTxn] using rolls

theorem sound_step {e : Event τ ι} (sound : Sound t s) (meets : Truthful t s e)
    (taken : step t s e = some s') : Sound t s' := by
  have unpublished (goes : (s.world.txns t).point ≠ .ended .committed) : ¬ Published t s :=
    fun published => goes (sound.published published).1
  revert taken
  -- the steps that are taken, in the order of `step`
  fun_cases step t s e <;> intro taken
  all_goals try cases taken
  next allows =>
    obtain ⟨world, next, rfl⟩ := map_eq_some_iff.mp taken
    exact sound_world sound meets allows next
  next unused =>
    refine ⟨sound.published, fun denies => ?_, fun runs => ?_, sound.rollback⟩
    · cases unused.symm.trans (sound.denied denies).1
    · cases unused.symm.trans (sound.running runs)
  next statement known opened idle =>
    obtain ⟨world, next, rfl⟩ := map_eq_some_iff.mp taken
    have silent : ∀ answer again, (statement.enters : Txn.TxnEvent τ) ≠ .answer answer again := by
      cases statement <;> simp [Statement.enters]
    refine ⟨?_, fun denies => ?_, fun _ => rfl, fun rolls => ?_⟩
    · rintro ⟨entry, logged, publishes⟩
      exact (unpublished_step next silent (unpublished meets) logged publishes).elim
    · cases opened.symm.trans (sound.denied denies).1
    · cases some.inj rolls
      exact rollingBack_enters next
  · have ends : Sound t { s with registered := .ended } :=
      ⟨sound.published, fun denies => ⟨rfl, (sound.denied denies).2⟩, fun _ => rfl, sound.rollback⟩
    exact ends.answer _ _ (.inl rfl) fun published => (unpublished meets published).elim
  next ended _ =>
    exact sound.answer _ _ (.inl ended) fun published => (unpublished meets published).elim
  next known statement ends runs =>
    refine sound.answer _ _ (.inl (sound.running (by simp [runs]))) fun _ => ⟨fun same => ?_, ?_⟩
    · have rolling := sound.rollback (by rw [runs, (Prod.mk.inj same).1])
      rw [ends] at rolling
      cases rolling
    · cases known <;> simp [afterSession]
  next ends runs =>
    exact sound.answer _ _ (.inl (sound.running (by simp [runs]))) fun published =>
      (unpublished (by simp [ends]) published).elim
  next ends runs =>
    exact sound.answer _ _ (.inl (sound.running (by simp [runs]))) fun published =>
      (unpublished (by simp [ends]) published).elim
  next statement code other ends runs =>
    have undenied : ¬ Denied s := fun denies => by
      cases runs.symm.trans (sound.denied denies).2
    obtain ⟨world, next, rfl⟩ := map_eq_some_iff.mp taken
    have silent : ¬ Published t { s with world := world } := fun ⟨_, logged, publishes⟩ =>
      unpublished_step next (by simp) (unpublished (by simp [ends])) logged publishes
    have calm : Sound t { s with world := world, registered := .opened, running := none } :=
      ⟨fun published => (silent published).elim, fun denies => (undenied denies).elim,
        fun runs => (runs rfl).elim, by simp⟩
    exact calm.answer statement _ (.inr ⟨undenied, by simp, by simpa using other⟩)
      fun published => (silent published).elim
  · exact ⟨sound.published, fun denies => ⟨rfl, (sound.denied denies).2⟩, fun _ => rfl,
      sound.rollback⟩

/-- As long as the catalog answers truthfully and nothing is sent after a COMMIT is through, a
COMMIT that reports a conflict or a ROLLBACK that succeeds means that no commit of the transaction
ever moved `main` of a table. -/
theorem denied_never_moves_main (reached : Reachable (Unused t) (step t) (Truthful t) s)
    (denies : Denied s) :
    ∀ e ∈ s.world.log, ∀ call, e.change.By t call → ∀ table, ¬ e.Moves table := by
  have sound : Sound t s := reached.invariant (fun _ => sound_of_unused)
    fun _ _ _ sound meets taken => sound_step sound meets taken
  intro e logged call own table moves
  refine moves (e.change.main_kept e.fresh e.before own (fun commits publishes => ?_) table)
  exact (sound.published ⟨e, logged, by rw [publishes]; rfl⟩).2 denies

end Steps

instance (t : ι) (s : State τ ι) (e : Event τ ι) : Decidable (Truthful t s e) := by
  unfold Truthful
  split <;> infer_instance

def ledger : State Nat Nat where
  world := ⟨fun _ => ⟨0, some 0, fun _ => none⟩, fun _ => .new, 1, []⟩
  registered := .unused
  running := none
  answers := []

theorem ledger_unused : Unused 0 ledger := ⟨rfl, rfl, rfl, rfl, by simp [ledger]⟩

/-- The transaction writes a snapshot to its branch of the table. -/
def writes : List (Event Nat Nat) :=
  [.scope, .world (.txn 0 (.claim 0)), .world (.txn 0 (.createBranch .ok false)),
    .world (.txn 0 (.write 0 .ok))]

/-- COMMIT up to the commit it sends. -/
def commits : List (Event Nat Nat) :=
  [.endTransaction .commit true, .world (.txn 0 .load), .world (.txn 0 .load)]

theorem conflict_moves_nothing : ∃ s : State Nat Nat,
    (.commit, .error (.publish .transactionConflict)) ∈ s.answers ∧
    ∀ e ∈ s.world.log, ∀ call, e.change.By 0 call → ∀ table, ¬ e.Moves table := by
  obtain ⟨s, followed⟩ : ∃ s, follow (step 0) (Truthful 0) ledger
      (writes ++ [.world (.append 0)] ++ commits ++ [.world (.txn 0 (.drop true)), .finish true]) =
        some s := ⟨_, rfl⟩
  have conflict : (.commit, .error (.publish .transactionConflict)) ∈ s.answers := by
    cases followed
    decide
  refine ⟨s, conflict, denied_never_moves_main ?_ (.inl conflict)⟩
  exact (Reachable.start ledger_unused).follow _ followed

/-- The commit is applied and its answer is a timeout: the retry finds the branch gone and reports
a conflict. Without a retry the transaction stays open, and ROLLBACK succeeds. -/
theorem lost_answer_is_denied :
    (∃ s : State Nat Nat, Reachable (Unused 0) (step 0) (fun _ _ => True) s ∧
      (.commit, .error (.publish .transactionConflict)) ∈ s.answers ∧
      ∃ e ∈ s.world.log, e.change.publisher = some 0 ∧ e.Moves 0) ∧
    ∃ s : State Nat Nat, Reachable (Unused 0) (step 0) (fun _ _ => True) s ∧
      (.rollback, .ok) ∈ s.answers ∧
      ∃ e ∈ s.world.log, e.change.publisher = some 0 ∧ e.Moves 0 := by
  constructor
  · obtain ⟨s, followed⟩ : ∃ s, follow (step 0) (fun _ _ => True) ledger (writes ++ commits ++
        [.world (.txn 0 (.answer (.lost ⟨.unexpected, true⟩) true)), .world (.txn 0 .load),
          .world (.txn 0 (.drop false)), .finish true]) = some s := ⟨_, rfl⟩
    refine ⟨s, (Reachable.start ledger_unused).follow _ followed, ?_⟩
    cases followed
    exact ⟨by decide, _, mem_cons_self, rfl, by decide⟩
  · obtain ⟨s, followed⟩ : ∃ s, follow (step 0) (fun _ _ => True) ledger (writes ++ commits ++
        [.world (.txn 0 (.answer (.lost ⟨.unexpected, false⟩) false)), .finish true,
          .endTransaction .rollback true, .world (.txn 0 (.drop false)), .finish true]) = some s :=
      ⟨_, rfl⟩
    refine ⟨s, (Reachable.start ledger_unused).follow _ followed, ?_⟩
    cases followed
    exact ⟨by decide, _, mem_cons_self, rfl, by decide⟩

end Sqe.Coordinator.EndTransaction
