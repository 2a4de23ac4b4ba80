/- GID: Sqe/Coordinator/TxnRegistry
   generality: G
   digest: Whether a transaction that a session end or a shutdown rolls back stays rolled back. -/

import Mathlib.Logic.Function.Basic
import Sqe.Library.Transition

/-!
The registry under one lock, with the statements that hold a transaction outside of it. The ids are
the texts that `validate_id` and `is_local_txn_id` accept; the others never reach the maps. Times
are in seconds.
-/

set_option autoImplicit false

namespace Sqe.Coordinator.TxnRegistry

open Function (update update_of_ne)
open Sqe.Library.Transition List

def idleTimeout : Nat := 30 * 60

def maxLifetime : Nat := 24 * 60 * 60

def endedRetention : Nat := 24 * 60 * 60

inductive Outcome
  | committed
  | rolledBack
  | conflict
  | idleTimeout
  | lifetime
  | sessionEnded
  | shutdown
deriving DecidableEq

def Outcome.label : Outcome → String
  | .committed => "committed"
  | .rolledBack => "rolled_back"
  | .conflict => "conflict"
  | .idleTimeout => "idle_timeout"
  | .lifetime => "lifetime"
  | .sessionEnded => "session_ended"
  | .shutdown => "shutdown"

/-- What the closures held for the end are called with. -/
def Outcome.unpublished (outcome : Outcome) : Option String :=
  if outcome ≠ .committed then some outcome.label else none

/-- `Open`, with its number among the transactions of its id and those of its closures. -/
structure Open where
  nth : Nat
  opened : Nat
  atEnd : List Nat
deriving DecidableEq

structure Entry (ω : Type) where
  owner : ω
  txn : Open
  lastUsed : Nat
deriving DecidableEq

/-- What the statement that holds a transaction does: a COMMIT goes on to publish it. -/
inductive Stage
  | rollback
  | commit
  | publishing
deriving DecidableEq

/-- A transaction that `end` handed to a COMMIT or ROLLBACK. -/
structure Held (ι ω : Type) where
  id : ι
  owner : ω
  txn : Open
  stage : Stage
deriving DecidableEq

/-- What became of the transactions of an id: how many there were, the calls of `record_end` for
each, the transaction of each closure that `at_end` took, and the calls of each closure. -/
structure Ledger where
  count : Nat
  recorded : Nat → List Outcome
  accepted : List Nat
  ran : Nat → List (Option String)

def Ledger.recordEnd (l : Ledger) (txn : Open) (outcome : Outcome) : Ledger :=
  { l with
    recorded := update l.recorded txn.nth (outcome :: l.recorded txn.nth)
    ran := fun f => List.replicate (txn.atEnd.count f) outcome.unpublished ++ l.ran f }

structure State (ι ω : Type) where
  clock : Nat
  opened : ι → Option (Entry ω)
  ended : ι → Option Nat
  held : List (Held ι ω)
  ledger : ι → Ledger

inductive Event (ι ω : Type)
  | tick (seconds : Nat)
  | scope (id : ι) (owner : ω)
  /-- COMMIT or ROLLBACK calls `end`. -/
  | endTransaction (id : ι) (owner : ω) (commit : Bool)
  | atEnd (id : ι)
  | publish (held : Held ι ω)
  | finish (held : Held ι ω) (outcome : Outcome)
  /-- A publish fails without a conflict. -/
  | reopen (held : Held ι ω)
  | abandon (id : ι) (owner : ω)
  | abortAll

section

variable {ι ω : Type} [DecidableEq ι] [DecidableEq ω]

namespace State

variable (s : State ι ω)

/-- The open transactions that are given an outcome end. -/
def rollBack (ends : ι → Entry ω → Option Outcome) : State ι ω :=
  { s with
    opened := fun id => (s.opened id).filter fun entry => (ends id entry).isNone
    ended := fun id => if ((s.opened id).bind (ends id)).isSome then some s.clock else s.ended id
    ledger := fun id => ((s.opened id).bind fun entry =>
      (ends id entry).map ((s.ledger id).recordEnd entry.txn)).getD (s.ledger id) }

def expiry (entry : Entry ω) : Option Outcome :=
  if maxLifetime ≤ s.clock - entry.txn.opened then some .lifetime
  else if idleTimeout ≤ s.clock - entry.lastUsed then some .idleTimeout
  else none

def forget : State ι ω :=
  { s with
    ended := fun id => (s.ended id).filter fun at_ => decide (s.clock - at_ < endedRetention) }

def sweep : State ι ω := s.forget.rollBack fun _ => s.expiry

def setOpen (id : ι) (entry : Option (Entry ω)) : State ι ω :=
  { s with opened := update s.opened id entry }

def setEnded (id : ι) : State ι ω :=
  { s with ended := update s.ended id (some s.clock) }

/-- `scope`, and whether it succeeds. -/
def scope (id : ι) (owner : ω) : State ι ω × Bool :=
  let s := s.sweep
  if (s.ended id).isSome then (s, false)
  else match s.opened id with
    | some entry =>
      if entry.owner ≠ owner then (s, false)
      else (s.setOpen id (some { entry with lastUsed := s.clock }), true)
    | none =>
      let l := s.ledger id
      ({ s.setOpen id (some ⟨owner, ⟨l.count, s.clock, []⟩, s.clock⟩) with
        ledger := update s.ledger id { l with count := l.count + 1 } }, true)

def endTransaction (id : ι) (owner : ω) (commit : Bool) : State ι ω :=
  let s := s.sweep
  match s.opened id with
  | some entry =>
    if entry.owner ≠ owner then s
    else { (s.setOpen id none).setEnded id with
      held := ⟨id, owner, entry.txn, if commit then .commit else .rollback⟩ :: s.held }
  | none => if (s.ended id).isSome then s else s.setEnded id

/-- `at_end`, which hands the closure back if the id is not open. -/
def atEnd (id : ι) : State ι ω :=
  match s.opened id with
  | some entry =>
    let l := s.ledger id
    let txn := { entry.txn with atEnd := entry.txn.atEnd ++ [l.accepted.length] }
    { s.setOpen id (some { entry with txn := txn }) with
      ledger := update s.ledger id { l with accepted := l.accepted ++ [txn.nth] } }
  | none => s

def finish (h : Held ι ω) (outcome : Outcome) : State ι ω :=
  { s with
    held := s.held.erase h
    ledger := update s.ledger h.id ((s.ledger h.id).recordEnd h.txn outcome) }

def reopen (h : Held ι ω) : State ι ω :=
  { s with
    ended := update s.ended h.id none
    opened := update s.opened h.id (some ⟨h.owner, h.txn, s.clock⟩)
    held := s.held.erase h }

def abandon (id : ι) (owner : ω) : State ι ω :=
  s.rollBack fun x entry => if x = id ∧ entry.owner = owner then some .sessionEnded else none

def abortAll : State ι ω := s.rollBack fun _ _ => some .shutdown

end State

variable (s : State ι ω)

def step : Event ι ω → Option (State ι ω)
  | .tick seconds => some { s with clock := s.clock + seconds }
  | .scope id owner => some (s.scope id owner).1
  | .endTransaction id owner commit => some (s.endTransaction id owner commit)
  | .atEnd id => some (s.atEnd id)
  | .publish h =>
    if h ∈ s.held ∧ h.stage = .commit then
      some { s with held := { h with stage := .publishing } :: s.held.erase h }
    else none
  | .finish h outcome => if h ∈ s.held then some (s.finish h outcome) else none
  | .reopen h => if h ∈ s.held then some (s.reopen h) else none
  | .abandon id owner => some (s.abandon id owner)
  | .abortAll => some s.abortAll

/-- `end_transaction` reopens only what it has begun to publish. -/
def Publishing (_ : State ι ω) (e : Event ι ω) : Prop := ∀ h, e = .reopen h → h.stage = .publishing

def Later : State ι ω → Prop := Reachable (· = s) step Publishing

/-- The id is not open, no statement can use it, and no publish of its transaction starts. -/
def Refused (x : ι) : Prop :=
  s.opened x = none ∧ (∀ owner, (s.scope x owner).2 = false) ∧
    ∀ h, (step s (.publish h)).isSome = true → h.id ≠ x

/-- Until the retention of the ended id has passed, these texts are refused. -/
def StaysEnded (id : ι) (texts : ι → Prop) : Prop :=
  ∀ s', Later s s' → s'.clock < (s.ended id).getD s.clock + endedRetention →
    ∀ x, texts x → Refused s' x

/-- The text is recorded as ended, and no COMMIT holds its transaction. -/
structure Gone (x : ι) (at_ : Nat) : Prop where
  ended : s.ended x = some at_
  opened : s.opened x = none
  unheld : ∀ h ∈ s.held, h.id = x → h.stage = .rollback

end

section

variable {ι ω : Type} [DecidableEq ι] [DecidableEq ω] {s s' : State ι ω} {x : ι} {at_ : Nat}

omit [DecidableEq ι] [DecidableEq ω] in
private theorem Gone.rollBack (gone : Gone s x at_) (ends : ι → Entry ω → Option Outcome) :
    Gone (s.rollBack ends) x at_ :=
  ⟨by simp [State.rollBack, gone.opened, gone.ended], by simp [State.rollBack, gone.opened],
    gone.unheld⟩

omit [DecidableEq ι] [DecidableEq ω] in
private theorem Gone.sweep (gone : Gone s x at_) (early : s.clock < at_ + endedRetention) :
    Gone s.sweep x at_ := by
  have kept : s.clock - at_ < endedRetention := by
    have : 0 < endedRetention := by decide
    omega
  have forgot : Gone s.forget x at_ :=
    ⟨by simp [State.forget, gone.ended, kept], gone.opened, gone.unheld⟩
  exact forgot.rollBack _

private theorem Gone.refused (gone : Gone s x at_) (early : s.clock < at_ + endedRetention) :
    Refused s x := by
  refine ⟨gone.opened, fun owner => ?_, fun h starts same => ?_⟩
  · simp [State.scope, (gone.sweep early).ended]
  · simp only [step] at starts
    split at starts
    next holds => cases (gone.unheld h holds.1 same).symm.trans holds.2
    next => cases starts

omit [DecidableEq ι] [DecidableEq ω] in
private theorem Gone.other (gone : Gone s x at_) (ended : s'.ended x = s.ended x)
    (opened : s'.opened x = s.opened x)
    (held : ∀ h ∈ s'.held, h ∈ s.held ∨ h.id ≠ x) : Gone s' x at_ := by
  refine ⟨ended.trans gone.ended, opened.trans gone.opened, fun h member same => ?_⟩
  exact (held h member).elim (gone.unheld h · same) (absurd same)

private theorem gone_step {e : Event ι ω} (gone : Gone s x at_)
    (early : s.clock < at_ + endedRetention)
    (publishes : Publishing s e) (taken : step s e = some s') : Gone s' x at_ := by
  have swept := gone.sweep early
  have unended {id : ι} (fresh : ¬ (s.sweep.ended id).isSome = true) : x ≠ id := by
    rintro rfl
    simp [swept.ended] at fresh
  revert taken
  -- the steps that are taken, in the order of `step`
  fun_cases step s e <;> rintro ⟨⟩
  · exact gone.other rfl rfl fun h => .inl
  next id owner =>
    fun_cases State.scope s id owner
    · exact swept
    · exact swept
    next fresh _ _ _ =>
      exact swept.other rfl (update_of_ne (unended fresh) ..) fun h => .inl
    next fresh _ _ =>
      exact swept.other rfl (update_of_ne (unended fresh) ..) fun h => .inl
  next id owner commit =>
    fun_cases State.endTransaction s id owner commit
    · exact swept
    next found _ _ =>
      have apart : x ≠ id := by
        rintro rfl
        cases swept.opened.symm.trans found
      refine swept.other (update_of_ne apart ..) (update_of_ne apart ..) ?_
      intro h member
      rcases mem_cons.mp member with rfl | before
      · exact .inr (Ne.symm apart)
      · exact .inl before
    · exact swept
    next fresh =>
      exact swept.other (update_of_ne (unended fresh) ..) rfl fun h => .inl
  next id =>
    fun_cases State.atEnd s id
    next found _ _ _ =>
      have apart : x ≠ id := by
        rintro rfl
        cases gone.opened.symm.trans found
      exact gone.other rfl (update_of_ne apart ..) fun h => .inl
    · exact gone
  next h holds =>
    refine gone.other rfl rfl fun g member => ?_
    rcases mem_cons.mp member with rfl | before
    · refine .inr fun same => ?_
      cases (gone.unheld h holds.1 same).symm.trans holds.2
    · exact .inl (mem_of_mem_erase before)
  · exact gone.other rfl rfl fun g member => .inl (mem_of_mem_erase member)
  next h holds =>
    have apart : x ≠ h.id := fun same => by
      cases (gone.unheld h holds same.symm).symm.trans (publishes h rfl)
    exact gone.other (update_of_ne apart ..) (update_of_ne apart ..)
      fun g member => .inl (mem_of_mem_erase member)
  · exact gone.rollBack _
  · exact gone.rollBack _

private theorem clock_step {e : Event ι ω} (taken : step s e = some s') : s.clock ≤ s'.clock := by
  have swept : s.sweep.clock = s.clock := rfl
  revert taken
  fun_cases step s e <;> rintro ⟨⟩
  · exact Nat.le_add_right _ _
  · unfold State.scope; grind [State.setOpen]
  · unfold State.endTransaction; grind [State.setOpen, State.setEnded]
  · unfold State.atEnd; split <;> exact Nat.le_refl _
  all_goals exact Nat.le_refl _

private theorem gone_later (gone : Gone s x at_) (later : Later s s')
    (early : s'.clock < at_ + endedRetention) : Gone s' x at_ := by
  induction later with
  | start here => exact here ▸ gone
  | next earlier publishes taken ih =>
    have before := Nat.lt_of_le_of_lt (clock_step taken) early
    exact gone_step (ih before) before publishes taken

private theorem ended_of_refused {owner : ω} (opened : s.opened x = none)
    (refused : (s.scope x owner).2 = false) :
    ∃ t, s.ended x = some t ∧ s.clock < t + endedRetention := by
  have swept : s.sweep.opened x = none := by
    simp [State.sweep, State.rollBack, State.forget, opened]
  cases recorded : s.sweep.ended x with
  | none => simp [State.scope, recorded, swept] at refused
  | some t =>
    simp only [State.sweep, State.rollBack, State.forget, opened, Option.bind_none,
      Option.isSome_none, Bool.false_eq_true, if_false, Option.filter_eq_some_iff,
      decide_eq_true_eq] at recorded
    exact ⟨t, recorded.1, by omega⟩

private theorem staysEnded_iff [Nonempty ω] (s : State ι ω) (id : ι) (texts : ι → Prop) :
    StaysEnded s id texts ↔
      (s.clock < (s.ended id).getD s.clock + endedRetention →
        ∀ x, texts x → ∃ t ≥ (s.ended id).getD s.clock, Gone s x t) := by
  have self : Later s s := .start rfl
  constructor
  · intro stays early x text
    obtain ⟨opened, refuses, unpublished⟩ := stays s self early x text
    obtain ⟨owner⟩ := ‹Nonempty ω›
    obtain ⟨t, ended, kept⟩ := ended_of_refused opened (refuses owner)
    refine ⟨t, ?_, ended, opened, fun h member same => ?_⟩
    · -- the record of the text is forgotten first
      by_contra sooner
      let s' := { s with clock := s.clock + (t + endedRetention - s.clock) }
      have later : Later s s' := self.next (e := .tick _) (by rintro _ ⟨⟩) rfl
      have clock : s'.clock = t + endedRetention := by
        change s.clock + _ = _
        omega
      obtain ⟨-, refuses, -⟩ := stays s' later (by omega) x text
      obtain ⟨t', ended', kept'⟩ := ended_of_refused (s := s') opened (refuses owner)
      cases ended.symm.trans ended'
      omega
    · cases stage : h.stage with
      | rollback => rfl
      | commit => exact absurd same (unpublished h (by simp [step, member, stage]))
      | publishing =>
        have taken : step s (.reopen h) = some (s.reopen h) := if_pos member
        have later := self.next (by rintro _ ⟨⟩; exact stage) taken
        obtain ⟨opened, -⟩ := stays _ later early x text
        simp [State.reopen, same] at opened
  · intro gone s' later early x text
    have before : s.clock ≤ s'.clock := by
      clear early gone
      induction later with
      | start here => exact here ▸ Nat.le_refl _
      | next _ _ taken ih => exact Nat.le_trans ih (clock_step taken)
    obtain ⟨t, after, gone⟩ := gone (Nat.lt_of_le_of_lt before early) x text
    have early : s'.clock < t + endedRetention := by omega
    exact (gone_later gone later early).refused early

/-- The session of the owner ends, or the coordinator shuts down. -/
def rolledBack (s : State ι ω) (id : ι) : Option ω → State ι ω
  | some owner => s.abandon id owner
  | none => s.abortAll

/-- Whether the call ends the open transaction of a text: a session end that of its own id, a
shutdown every one. -/
def ends (s : State ι ω) (id : ι) (call : Option ω) (x : ι) : Bool :=
  match s.opened x, call with
  | some entry, some owner => x = id ∧ entry.owner = owner
  | some _, none => true
  | none, _ => false

private theorem opened_rolledBack (s : State ι ω) (id : ι) (call : Option ω) (x : ι) :
    (rolledBack s id call).opened x = if ends s id call x then none else s.opened x := by
  cases call <;> cases opened : s.opened x <;>
    simp only [rolledBack, State.abandon, State.abortAll, State.rollBack, ends, opened] <;> grind

private theorem ended_rolledBack (s : State ι ω) (id : ι) (call : Option ω) (x : ι) :
    (rolledBack s id call).ended x = if ends s id call x then some s.clock else s.ended x := by
  cases call <;> cases opened : s.opened x <;>
    simp only [rolledBack, State.abandon, State.abortAll, State.rollBack, ends, opened] <;> grind

private theorem held_rolledBack (s : State ι ω) (id : ι) (call : Option ω) :
    (rolledBack s id call).held = s.held := by
  cases call <;> rfl

private theorem clock_rolledBack (s : State ι ω) (id : ι) (call : Option ω) :
    (rolledBack s id call).clock = s.clock := by
  cases call <;> rfl

/-- When the transaction of a text ends: with the call, or before it. -/
inductive EndedAt (s : State ι ω) (id : ι) (call : Option ω) (x : ι) : Nat → Prop
  | now : ends s id call x = true → EndedAt s id call x s.clock
  | before {t : Nat} : s.opened x = none → s.ended x = some t → EndedAt s id call x t

/-- No COMMIT has taken a transaction of the text out of the registry. -/
def Unheld (s : State ι ω) (x : ι) : Prop := ∀ h ∈ s.held, h.id = x → h.stage = .rollback

private theorem gone_rolledBack {id : ι} {call : Option ω} :
    Gone (rolledBack s id call) x at_ ↔ EndedAt s id call x at_ ∧ Unheld s x := by
  constructor
  · rintro ⟨ended, opened, unheld⟩
    rw [held_rolledBack] at unheld
    rw [ended_rolledBack] at ended
    rw [opened_rolledBack] at opened
    refine ⟨?_, unheld⟩
    split at ended
    next now => cases ended; exact .now now
    next spared => exact .before (by rwa [if_neg spared] at opened) ended
  · rintro ⟨now | ⟨closed, recorded⟩, unheld⟩
    · refine ⟨?_, ?_, held_rolledBack s id call ▸ unheld⟩
      · rw [ended_rolledBack, if_pos now]
      · rw [opened_rolledBack, if_pos now]
    · have spared : ends s id call x = false := by simp only [ends, closed]
      refine ⟨?_, ?_, held_rolledBack s id call ▸ unheld⟩
      · rw [ended_rolledBack, spared]; exact recorded
      · rw [opened_rolledBack, spared]; exact closed

/-- From when the id is kept as ended: from the call, unless its transaction had ended before. -/
def since (s : State ι ω) (id : ι) (call : Option ω) : Nat :=
  if ends s id call id then s.clock else (s.ended id).getD s.clock

private theorem since_rolledBack {id : ι} {call : Option ω} :
    ((rolledBack s id call).ended id).getD s.clock = since s id call := by
  rw [ended_rolledBack, since]
  split <;> rfl

/-- Once a transaction is rolled back by its owner's session end or a shutdown, its id stays
refused in every spelling exactly if the call ends the transactions of all of them, or they had
ended before it, none of them before the id's own, and no COMMIT holds one; the text itself stays
refused exactly if the call ends it, or it had ended before, and no COMMIT holds it. -/
theorem rolled_back_stays_iff {υ : Type} (uuid : ι → υ) (s : State ι ω) (id : ι) (owner : ω)
    (call : Option ω) :
    (StaysEnded (rolledBack s id call) id (uuid · = uuid id) ↔
      (s.clock < since s id call + endedRetention → ∀ x, uuid x = uuid id →
        (∃ t ≥ since s id call, EndedAt s id call x t) ∧ Unheld s x)) ∧
    (StaysEnded (rolledBack s id call) id (· = id) ↔
      (s.clock < since s id call + endedRetention →
        (∃ t, EndedAt s id call id t) ∧ Unheld s id)) := by
  have : Nonempty ω := ⟨owner⟩
  simp only [staysEnded_iff, since_rolledBack, clock_rolledBack, gone_rolledBack, ← and_assoc,
    exists_and_right, forall_eq, true_and]
  refine imp_congr_right fun _ => and_congr_left fun _ => ?_
  constructor
  · rintro ⟨t, -, ended⟩
    exact ⟨t, ended⟩
  · rintro ⟨t, ended⟩
    refine ⟨t, ?_, ended⟩
    rw [since]
    cases ended with
    | now now => exact Nat.le_of_eq (if_pos now)
    | before closed recorded =>
      have spared : ends s id call id = false := by simp only [ends, closed]
      rw [spared, recorded]
      exact Nat.le_refl _

end

inductive Spelling
  | lower
  | upper
deriving DecidableEq

def oneOpen : State Spelling Unit where
  clock := 0
  opened := fun id => if id = .lower then some ⟨(), ⟨0, 0, []⟩, 0⟩ else none
  ended := fun _ => none
  held := []
  ledger := fun _ => ⟨1, fun _ => [], [], fun _ => []⟩

/-- A COMMIT whose publish fails after the session has ended opens the transaction again, and the
id of an abandoned transaction is accepted in the other spelling. -/
theorem rolled_back_comes_back :
    (∃ s s', follow step (fun _ _ => True) oneOpen
        [.endTransaction .lower () true, .publish ⟨.lower, (), ⟨0, 0, []⟩, .commit⟩] = some s ∧
      follow step (fun _ _ => True) (rolledBack s .lower (some ()))
        [.reopen ⟨.lower, (), ⟨0, 0, []⟩, .publishing⟩] = some s' ∧
          (s'.opened .lower).isSome = true) ∧
    ((rolledBack oneOpen .lower (some ())).ended .lower = some 0 ∧
      ((rolledBack oneOpen .lower (some ())).scope .upper ()).2 = true) :=
  ⟨⟨_, _, rfl, rfl, rfl⟩, rfl, rfl⟩

end Sqe.Coordinator.TxnRegistry
