/- GID: Sqe/Coordinator/MaintenanceLease
   generality: I
   digest: The maintenance lease of a job that has a lease row excludes. -/

import Mathlib.Algebra.Order.Ring.Int
import Sqe.Library.Transition

/-!
The ledger rows of one job key. A call reads the rows in one step and commits in another; a commit
is applied only if all the files it deletes are live. A lease is the claim a commit wrote, whatever
handles there are to it.
-/

set_option autoImplicit false

namespace Sqe.Coordinator.MaintenanceLease

open List Option

variable {Holder : Type} [DecidableEq Holder]

/-- A live row, by the file that holds it. -/
structure LeaseState (Holder : Type) where
  claimPath : Nat
  holderId : Holder
  acquiredAt : Int
  expiresAt : Int
  released : Bool
  deriving DecidableEq

inductive AcquireDecision (Holder : Type)
  | acquirable (stolenFrom : Option Holder)
  | heldByOther (holderId : Holder) (expiresAt : Int)
  | ownLive

def leaseAcquirable (latest : Option (LeaseState Holder)) (holderId : Holder) (now : Int) :
    AcquireDecision Holder :=
  match latest with
  | none => .acquirable none
  | some state =>
    if state.released then .acquirable none
    else if state.expiresAt ≤ now then .acquirable (some state.holderId)
    else if state.holderId = holderId then .ownLive
    else .heldByOther state.holderId state.expiresAt

/-- `max_by_key` keeps the last of the greatest. -/
def latestState (rows : List (LeaseState Holder)) : Option (LeaseState Holder) :=
  rows.foldl
    (fun best row => if best.any (row.acquiredAt < ·.acquiredAt) then best else some row) none

/-- An operation with the claim path of the handle it is given. -/
inductive Operation
  | tryAcquire
  | renew (claimPath : Nat)
  | release (claimPath : Nat)
  deriving DecidableEq

def Operation.handle : Operation → Option Nat
  | .tryAcquire => none
  | .renew path | .release path => some path

structure Call (Holder : Type) where
  operation : Operation
  holderId : Holder
  ttlSecs : UInt64
  now : Int

def saturate (n : Int) : Int := max (-2 ^ 63) (min n (2 ^ 63 - 1))

def expiresAt (now : Int) (ttlSecs : UInt64) : Int :=
  saturate (now + saturate (ttlSecs.toInt64.toInt * 1000))

/-- The row a call commits: a claim, or a tombstone. -/
def Call.row (call : Call Holder) (path : Nat) : LeaseState Holder :=
  match call.operation with
  | .release _ => ⟨path, call.holderId, call.now, call.now, true⟩
  | _ => ⟨path, call.holderId, call.now, expiresAt call.now call.ttlSecs, false⟩

/-- Whether the call goes on to a commit. -/
def Call.proceeds (call : Call Holder) (rows : List (LeaseState Holder)) : Bool :=
  match call.operation with
  | .tryAcquire =>
    match leaseAcquirable (latestState rows) call.holderId call.now with
    | .acquirable _ => true
    | _ => false
  | .renew path | .release path =>
    (rows.find? fun row => row.claimPath = path && !row.released).any
      (·.holderId = call.holderId)

inductive Phase (Holder : Type)
  | load (attempt : Nat)
  | commit (attempt : Nat) (targets : List (LeaseState Holder))
  | done

/-- A claim from the commit that wrote it on, and when it was renewed or released. -/
structure Lease (Holder : Type) where
  claim : LeaseState Holder
  start : Int
  stop : Option Int

def Lease.Covers (lease : Lease Holder) (t : Int) : Prop :=
  lease.start ≤ t ∧ t < lease.claim.expiresAt ∧ ∀ stop ∈ lease.stop, t < stop

structure State (Holder : Type) where
  rows : List (LeaseState Holder)
  nextPath : Nat
  time : Int
  calls : List (Call Holder × Phase Holder)
  granted : List (Lease Holder)

/-- What becomes of a commit; one that answers is applied if its files are live. -/
inductive Outcome
  | answers
  | lost
  | transient
  | fails

inductive Event (Holder : Type)
  | tick (time : Int)
  | call (call : Call Holder)
  | load (i : Nat)
  | commit (i : Nat) (outcome : Outcome)

def maxLeaseAttempts : Nat := 5

variable (s : State Holder)

def State.enter (i : Nat) (call : Call Holder) (phase : Phase Holder) : State Holder :=
  { s with calls := s.calls.set i (call, phase) }

/-- A commit through a handle ends the lease that the handle is of. -/
def Call.ends (call : Call Holder) (time : Int) (lease : Lease Holder) : Lease Holder :=
  if call.operation.handle = some lease.claim.claimPath ∧ call.holderId = lease.claim.holderId ∧
      lease.stop = none then
    { lease with stop := some time }
  else lease

def State.apply (i : Nat) (call : Call Holder)
    (targets : List (LeaseState Holder)) : State Holder :=
  let row := call.row s.nextPath
  { s.enter i call .done with
    rows := s.rows.filter (· ∉ targets) ++ [row]
    nextPath := s.nextPath + 1
    granted := s.granted.map (call.ends s.time) ++
      if row.released then [] else [⟨row, s.time, none⟩] }

def step : Event Holder → Option (State Holder)
  | .tick time => if s.time ≤ time then some { s with time := time } else none
  | .call call =>
    if call.now ≤ s.time then some { s with calls := s.calls ++ [(call, .load 1)] } else none
  | .load i => match s.calls[i]? with
    | some (call, .load attempt) =>
      some (s.enter i call (if call.proceeds s.rows then .commit attempt s.rows else .done))
    | _ => none
  | .commit i outcome => match s.calls[i]? with
    | some (call, .commit attempt targets) => match outcome with
      | .answers =>
        some (if targets.all (· ∈ s.rows) then s.apply i call targets else s.enter i call .done)
      | .transient => some (s.enter i call
          (if attempt < maxLeaseAttempts then .load (attempt + 1) else .done))
      | .lost | .fails => some (s.enter i call .done)
    | _ => none

/-- The key has a row; if it is the only one, its claim may count as granted. -/
def Starts : Prop :=
  s.rows ≠ [] ∧ (∀ row ∈ s.rows, row.claimPath < s.nextPath) ∧ s.calls = [] ∧
    (s.granted = [] ∨ ∃ row start, s.rows = [row] ∧ row.released = false ∧
      s.granted = [⟨row, start, none⟩])

def Lease.OverBy (lease : Lease Holder) (t : Int) : Prop :=
  lease.claim.expiresAt ≤ t ∨ ∃ stop ∈ lease.stop, stop ≤ t

/-- The lease is over, or its claim is the live row. -/
def Lease.Known (time : Int) (row : LeaseState Holder) (lease : Lease Holder) : Prop :=
  lease.OverBy time ∨ lease.claim = row ∧ lease.stop = none ∧ row.released = false

/-- The rows a call has read are the live ones, or one of them is gone. -/
structure CallSound (c : Call Holder × Phase Holder) : Prop where
  past : c.1.now ≤ s.time
  read : ∀ attempt targets, c.2 = .commit attempt targets → c.1.proceeds targets = true ∧
    (∀ row ∈ targets, row.claimPath < s.nextPath) ∧
      (targets = s.rows ∨ ∃ row ∈ targets, row ∉ s.rows)

structure Sound : Prop where
  rows : s.rows ≠ []
  fresh : ∀ row ∈ s.rows, row.claimPath < s.nextPath
  calls : ∀ c ∈ s.calls, CallSound s c
  current : s.granted ≠ [] → ∃ row, s.rows = [row] ∧ ∀ lease ∈ s.granted, lease.Known s.time row
  ordered : s.granted.Pairwise fun l m => l.OverBy m.start

section Leases

variable {lease : Lease Holder} {row : LeaseState Holder} {call : Call Holder} {t time : Int}

theorem Call.start_ends : (call.ends time lease).start = lease.start := by
  unfold Call.ends
  split <;> rfl

theorem Call.over_ends (finished : lease.OverBy t) : (call.ends time lease).OverBy t := by
  unfold Call.ends
  split
  next ended =>
    rcases finished with expired | ⟨stop, is, -⟩
    · exact .inl expired
    · rw [ended.2.2] at is
      cases is
  · exact finished

theorem own_of_proceeds (handle : call.operation ≠ .tryAcquire)
    (proceeds : call.proceeds [row] = true) :
    call.operation.handle = some row.claimPath ∧ call.holderId = row.holderId := by
  unfold Call.proceeds at proceeds
  split at proceeds
  next is => exact absurd is handle
  all_goals
    next path is =>
    by_cases same : row.claimPath = path
    · cases gone : row.released
      · simp_all [Operation.handle]
      · simp [gone] at proceeds
    · simp [same] at proceeds

theorem over_of_proceeds (proceeds : call.proceeds [row] = true) (past : call.now ≤ time)
    (known : lease.Known time row) : (call.ends time lease).OverBy time := by
  rcases known with finished | ⟨rfl, running, live⟩
  · exact Call.over_ends finished
  by_cases acquires : call.operation = .tryAcquire
  · refine Call.over_ends (.inl ?_)
    by_contra late
    have valid : ¬ lease.claim.expiresAt ≤ call.now := fun expired =>
      late (Int.le_trans expired past)
    unfold Call.proceeds leaseAcquirable at proceeds
    by_cases own : lease.claim.holderId = call.holderId <;>
      simp [acquires, latestState, live, valid, own] at proceeds
  · obtain ⟨path, holder⟩ := own_of_proceeds acquires proceeds
    rw [Call.ends, if_pos ⟨path, holder, running⟩]
    exact .inr ⟨time, rfl, Int.le_refl _⟩

end Leases

section Steps

variable {s s' : State Holder} {i : Nat} {call : Call Holder} {phase : Phase Holder}

theorem sound_enter (sound : Sound s) (next : CallSound s (call, phase)) :
    Sound (s.enter i call phase) where
  rows := sound.rows
  fresh := sound.fresh
  calls c listed := by
    rcases mem_or_eq_of_mem_set listed with earlier | rfl
    · exact ⟨(sound.calls c earlier).past, (sound.calls c earlier).read⟩
    · exact ⟨next.past, next.read⟩
  current := sound.current
  ordered := sound.ordered

theorem sound_apply (sound : Sound s) (past : call.now ≤ s.time)
    (proceeds : call.proceeds s.rows = true) : Sound (s.apply i call s.rows) := by
  have alone : (s.apply i call s.rows).rows = [call.row s.nextPath] := by simp [State.apply]
  have path : (call.row s.nextPath).claimPath = s.nextPath := by
    unfold Call.row
    split <;> rfl
  have finished : ∀ lease ∈ s.granted.map (call.ends s.time), lease.OverBy s.time := by
    intro lease listed
    obtain ⟨earlier, member, rfl⟩ := mem_map.mp listed
    obtain ⟨row, single, known⟩ := sound.current (ne_nil_of_mem member)
    exact over_of_proceeds (single ▸ proceeds) past (known earlier member)
  refine ⟨by simp [alone], ?_, fun c listed => ?_, fun _ => ⟨_, alone, fun lease listed => ?_⟩, ?_⟩
  · rw [alone]
    exact forall_mem_singleton.mpr (Nat.lt_succ_of_le (Nat.le_of_eq path))
  · have ended : CallSound s (call, .done) := ⟨past, nofun⟩
    have known := (sound_enter (i := i) sound ended).calls c listed
    refine ⟨known.past, fun attempt targets is => ?_⟩
    obtain ⟨goes, below, seen⟩ := known.read attempt targets is
    refine ⟨goes, fun row read => Nat.lt_succ_of_lt (below row read), .inr ?_⟩
    obtain ⟨row, read⟩ : ∃ row, row ∈ targets := by
      rcases seen with rfl | ⟨row, read, -⟩
      · exact exists_mem_of_ne_nil _ sound.rows
      · exact ⟨row, read⟩
    refine ⟨row, read, ?_⟩
    rw [alone, mem_singleton]
    rintro rfl
    exact absurd path (Nat.ne_of_lt (below _ read))
  · rcases mem_append.mp listed with earlier | new
    · exact .inl (finished lease earlier)
    · split at new
      · cases new
      next claim =>
        obtain rfl := mem_singleton.mp new
        exact .inr ⟨rfl, rfl, Bool.eq_false_iff.mpr claim⟩
  · refine pairwise_append.mpr ⟨pairwise_map.mpr (sound.ordered.imp fun before => ?_),
      by split <;> simp, fun l earlier m new => ?_⟩
    · rw [Call.start_ends]
      exact Call.over_ends before
    · split at new
      · cases new
      · obtain rfl := mem_singleton.mp new
        exact finished l earlier

theorem commit_cases (sound : Sound s) {outcome : Outcome}
    (at_ : s.calls[i]? = some (call, phase)) (taken : step s (.commit i outcome) = some s') :
    (∃ next, s' = s.enter i call next ∧ ∀ attempt targets, next ≠ .commit attempt targets) ∨
      call.proceeds s.rows = true ∧ s' = s.apply i call s.rows := by
  have known := (sound.calls _ (mem_of_getElem? at_)).read
  simp only [step, at_] at taken
  cases phase with
  | load | done => cases taken
  | commit attempt targets =>
    cases outcome with
    | lost | fails => exact .inl ⟨.done, (some.inj taken).symm, nofun⟩
    | transient =>
      refine .inl ⟨_, (some.inj taken).symm, fun attempt targets => ?_⟩
      split <;> exact nofun
    | answers =>
      simp only at taken
      split at taken
      next live =>
        obtain ⟨proceeds, -, rfl | ⟨row, read, gone⟩⟩ := known _ _ rfl
        · exact .inr ⟨proceeds, (some.inj taken).symm⟩
        · exact absurd (of_decide_eq_true (all_eq_true.mp live row read)) gone
      · exact .inl ⟨.done, (some.inj taken).symm, nofun⟩

theorem sound_step {e : Event Holder} (sound : Sound s) (taken : step s e = some s') :
    Sound s' := by
  cases e with
  | tick time =>
    obtain ⟨later, ended⟩ := ite_none_right_eq_some.mp taken
    cases ended
    refine ⟨sound.rows, sound.fresh, fun c listed => ?_, fun some_ => ?_, sound.ordered⟩
    · exact ⟨Int.le_trans (sound.calls c listed).past later, (sound.calls c listed).read⟩
    · obtain ⟨row, single, known⟩ := sound.current some_
      refine ⟨row, single, fun lease listed => (known lease listed).imp_left ?_⟩
      exact Or.imp (Int.le_trans · later)
        fun ⟨stop, is, past⟩ => ⟨stop, is, Int.le_trans past later⟩
  | call call =>
    obtain ⟨past, ended⟩ := ite_none_right_eq_some.mp taken
    cases ended
    exact ⟨sound.rows, sound.fresh, forall_mem_append.mpr
      ⟨fun c earlier => ⟨(sound.calls c earlier).past, (sound.calls c earlier).read⟩,
        forall_mem_singleton.mpr ⟨past, nofun⟩⟩, sound.current, sound.ordered⟩
  | load i =>
    simp only [step] at taken
    split at taken <;> cases taken
    next call attempt at_ =>
    refine sound_enter sound ⟨(sound.calls _ (mem_of_getElem? at_)).past, fun _ _ is => ?_⟩
    split at is <;> cases is
    next proceeds => exact ⟨proceeds, sound.fresh, .inl rfl⟩
  | commit i outcome =>
    cases at_ : s.calls[i]? with
    | none => simp [step, at_] at taken
    | some c =>
      have past := (sound.calls _ (mem_of_getElem? at_)).past
      rcases commit_cases sound at_ taken with ⟨next, rfl, idle⟩ | ⟨proceeds, rfl⟩
      · exact sound_enter sound ⟨past, fun attempt targets is => absurd is (idle _ _)⟩
      · exact sound_apply sound past proceeds

theorem sound_of_starts (starts : Starts s) : Sound s := by
  obtain ⟨rows, fresh, idle, none | ⟨row, start, single, live, one⟩⟩ := starts
  · exact ⟨rows, fresh, by simp [idle], fun some_ => absurd none some_, by simp [none]⟩
  · refine ⟨rows, fresh, by simp [idle], fun _ => ⟨row, single, ?_⟩, by simp [one]⟩
    rw [one]
    exact forall_mem_singleton.mpr (.inr ⟨rfl, rfl, live⟩)

end Steps

end Sqe.Coordinator.MaintenanceLease
