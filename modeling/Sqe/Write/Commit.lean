/- GID: Sqe/Write/Commit
   generality: G
   digest: The commit loop of a write against a catalog that may lose its answers. -/

import Sqe.Library.Transition

/-!
One call of `commit_with_retry`, interleaved with the other writers of the table and with its own
commits whose outcome the catalog did not report. The delays between attempts are left out: every
event may come at any time.
-/

set_option autoImplicit false

namespace Sqe.Write

/-- `iceberg::Error`: its text, whether it is tagged retryable, and its HTTP status if any. -/
structure IcebergError where
  text : String
  retryable : Bool
  httpStatus : Option Nat
  deriving DecidableEq

def containsChars (part : List Char) : List Char → Bool
  | [] => part.isEmpty
  | c :: rest => part.isPrefixOf (c :: rest) || containsChars part rest

def contains (text part : String) : Bool := containsChars part.toList text.toList

section Classification

variable (toLowercase : String → String)

def commitOutcomeUnknown (text : String) : Bool :=
  contains (toLowercase text) "commit state is unknown"

variable (e : IcebergError)

def isUnknownOutcome : Bool := commitOutcomeUnknown toLowercase e.text

def hasHttpStatus (msg : String) (codes : List Nat) : Bool :=
  match e.httpStatus with
  | some status => codes.contains status
  | none => codes.any fun code => contains msg s!"status: {code}"

def isTransientLoadError : Bool :=
  e.retryable || hasHttpStatus e (toLowercase e.text) [401, 500, 502, 503, 504]

def isConflictMessage (msg : String) : Bool :=
  let lower := toLowercase msg
  ["commitconflict", "commit conflict", "stale snapshot", "rowdelta conflict", "retryable"].any
    (contains lower)

def commitAttemptIsRetryable : Bool :=
  let msg := toLowercase e.text
  if contains msg "commit state is unknown" then false
  else e.retryable || isConflictMessage toLowercase msg || hasHttpStatus e msg [401] ||
    (contains msg "failed to load table" && isTransientLoadError toLowercase e)

end Classification

/-- Every commit writes a metadata file under a name of its own, so the locations of a table are
numbered in the order of its commits. -/
abbrev Location := Nat

structure UnknownOutcome where
  base : Option Location
  error : IcebergError
  deriving DecidableEq

/-- The reloaded table shows the location the attempt was built on. -/
def UnknownOutcome.tableUnchanged (u : UnknownOutcome) (reloaded : Option Location) : Bool :=
  u.base.isSome && reloaded == u.base

def maxAttempts : Nat := 4

def loadAttempts : Nat := 3

inductive Point
  /-- The reload that opens an attempt, at its n-th try. -/
  | reload (attempt tries : Nat) (unknown : Option UnknownOutcome)
  /-- In `build_and_commit`, before its own reload. -/
  | build (attempt : Nat) (unknown : Option UnknownOutcome) (base : Option Location)
  /-- The action is prepared against the location and about to be posted. -/
  | post (attempt : Nat) (unknown : Option UnknownOutcome) (base : Option Location)
      (against : Location)
  | returned (result : Except IcebergError Unit)

/-- The call, the location of the table, how often the action took effect, and the locations that
its commits of unknown outcome may still replace. -/
structure CommitState where
  point : Point
  location : Location
  applied : Nat
  pending : List Location

inductive CommitEvent
  /-- The catalog answers the opening reload, with the table's location or without one. -/
  | load (located : Bool)
  | loadFails (e : IcebergError)
  | rebase
  /-- The inner reload or the preparation of the action fails: nothing is posted. -/
  | rebaseFails (e : IcebergError)
  /-- The compare-and-swap is applied and answered. -/
  | accept
  /-- It is refused, by a conflict or an authentication failure, and not applied. -/
  | refuse (e : IcebergError)
  /-- Its outcome is unknown: it may take effect later. -/
  | lose (e : IcebergError)
  | otherCommit
  | lands (base : Location)

section Step

variable (toLowercase : String → String)

/-- The error that matters: that of an earlier unknown outcome, if there was one. -/
def reported (unknown : Option UnknownOutcome) (e : IcebergError) : IcebergError :=
  (unknown.map UnknownOutcome.error).getD e

/-- What the loop does with an error of `build_and_commit`. -/
def afterError (attempt : Nat) (unknown : Option UnknownOutcome) (base : Option Location)
    (e : IcebergError) : Point :=
  if isUnknownOutcome toLowercase e && decide (attempt < maxAttempts) then
    -- A second unknown outcome keeps the first one's base.
    .reload (attempt + 1) 1 (some (unknown.getD ⟨base, e⟩))
  else if !commitAttemptIsRetryable toLowercase e || attempt == maxAttempts then
    .returned (.error (reported unknown e))
  else .reload (attempt + 1) 1 unknown

def afterLoad (attempt : Nat) (unknown : Option UnknownOutcome) (shown : Option Location) : Point :=
  match unknown with
  | none => .build attempt none shown
  | some u => if u.tableUnchanged shown then .build attempt (some u) shown
      else .returned (.error u.error)

def step (s : CommitState) : CommitEvent → Option CommitState
  | .load located => match s.point with
      | .reload attempt _ unknown =>
        let shown := if located then some s.location else none
        some { s with point := afterLoad attempt unknown shown }
      | _ => none
  | .loadFails e => match s.point with
      | .reload attempt tries unknown => some { s with
          point := if decide (tries < loadAttempts) && isTransientLoadError toLowercase e then
              .reload attempt (tries + 1) unknown
            else .returned (.error (reported unknown e)) }
      | _ => none
  | .rebase => match s.point with
      | .build attempt unknown base => some { s with
          point := .post attempt unknown base s.location }
      | _ => none
  | .rebaseFails e => match s.point with
      | .build attempt unknown base => some { s with
          point := afterError toLowercase attempt unknown base e }
      | _ => none
  | .accept => match s.point with
      | .post _ _ _ against => if s.location = against then some { s with
            point := .returned (.ok ())
            location := s.location + 1
            applied := s.applied + 1 }
          else none
      | _ => none
  | .refuse e => match s.point with
      | .post attempt unknown base _ => if isUnknownOutcome toLowercase e then none
          else some { s with point := afterError toLowercase attempt unknown base e }
      | _ => none
  | .lose e => match s.point with
      | .post attempt unknown base against => if isUnknownOutcome toLowercase e then some { s with
            point := afterError toLowercase attempt unknown base e
            pending := against :: s.pending }
          else none
      | _ => none
  | .otherCommit => some { s with location := s.location + 1 }
  | .lands base => if base ∈ s.pending ∧ base = s.location then some { s with
        location := s.location + 1
        applied := s.applied + 1
        pending := s.pending.erase base }
      else none

end Step

def Begins (s : CommitState) : Prop :=
  s.point = .reload 1 1 none ∧ s.applied = 0 ∧ s.pending = []

/-- No location that a pending commit replaces, or that the unchanged table is told by, lies above
the mark, and the action has not taken effect unless the table moved past the mark. -/
structure Bounded (s : CommitState) (unknown : Option UnknownOutcome) (mark : Location) : Prop where
  pending : ∀ b ∈ s.pending, b ≤ mark
  base : ∀ u b, unknown = some u → u.base = some b → b ≤ mark
  reached : mark ≤ s.location
  applied : s.applied = 0 ∨ s.applied = 1 ∧ mark < s.location

variable (toLowercase : String → String)

/-- Without an unknown outcome nothing is pending; an unknown outcome has an error that says so. -/
structure Traced (s : CommitState) (unknown : Option UnknownOutcome) : Prop where
  quiet : unknown = none → s.applied = 0 ∧ s.pending = []
  lost : ∀ u, unknown = some u → isUnknownOutcome toLowercase u.error = true

def Consistent (s : CommitState) : Prop :=
  match s.point with
  | .reload _ _ unknown => Traced toLowercase s unknown ∧ ∃ mark, Bounded s unknown mark
  | .build _ unknown base => Traced toLowercase s unknown ∧ Bounded s unknown s.location ∧
      s.applied = 0 ∧ ∀ b, base = some b → b ≤ s.location
  | .post _ unknown base against => Traced toLowercase s unknown ∧ Bounded s unknown against ∧
      ∀ b, base = some b → b ≤ against
  | .returned (.ok _) => s.applied = 1 ∧ ∃ mark, Bounded s none mark
  | .returned (.error e) => (∃ mark, Bounded s none mark) ∧
      (isUnknownOutcome toLowercase e = false → s.applied = 0 ∧ s.pending = [])

/-- No commit of the call takes effect between the reload that opens an attempt and the reload the
attempt is built on. -/
def LandsApart (s : CommitState) (e : CommitEvent) : Prop := match e, s.point with
  | .lands _, .build .. => False
  | _, _ => True

instance (s : CommitState) (e : CommitEvent) : Decidable (LandsApart s e) := by
  unfold LandsApart
  split <;> infer_instance

section Steps

variable {toLowercase : String → String} {s : CommitState} {unknown : Option UnknownOutcome}
  {mark : Location}

theorem Bounded.at (bounded : Bounded s unknown mark) (point : Point) :
    Bounded { s with point := point } unknown mark :=
  ⟨bounded.pending, bounded.base, bounded.reached, bounded.applied⟩

theorem Traced.at (traced : Traced toLowercase s unknown) (point : Point) :
    Traced toLowercase { s with point := point } unknown :=
  ⟨traced.quiet, traced.lost⟩

section

variable (bounded : Bounded s unknown mark)
include bounded

theorem Bounded.forget : Bounded s none mark :=
  ⟨bounded.pending, by simp, bounded.reached, bounded.applied⟩

theorem Bounded.untouched (low : s.location ≤ mark) : s.applied = 0 := by
  rcases bounded.applied with zero | ⟨-, past⟩
  · exact zero
  · exact absurd (Nat.lt_of_lt_of_le past low) (Nat.lt_irrefl mark)

theorem Bounded.otherCommit : Bounded { s with location := s.location + 1 } unknown mark := by
  refine ⟨bounded.pending, bounded.base, ?_, ?_⟩
  · exact Nat.le_succ_of_le bounded.reached
  · rcases bounded.applied with zero | ⟨one, past⟩
    · exact Or.inl zero
    · exact Or.inr ⟨one, Nat.lt_succ_of_lt past⟩

/-- A pending commit lands only on the mark itself, before any effect, and moves the table past
it. -/
theorem Bounded.lands {base : Location} (member : base ∈ s.pending) (here : base = s.location) :
    s.applied = 0 ∧ Bounded { s with
      location := s.location + 1
      applied := s.applied + 1
      pending := s.pending.erase base } unknown mark := by
  have below := bounded.pending base member
  have reached := bounded.reached
  have untouched := bounded.untouched (here ▸ below)
  refine ⟨untouched, fun b inside => bounded.pending b (List.mem_of_mem_erase inside), bounded.base,
    ?_, Or.inr ⟨?_, ?_⟩⟩
  · exact Nat.le_succ_of_le reached
  · rw [untouched]
  · exact Nat.lt_succ_of_le reached

end

/-- The error the call ends with is that of a commit of unknown outcome, if there was one. -/
theorem unknown_reported {e : IcebergError}
    (lost : ∀ u, unknown = some u → isUnknownOutcome toLowercase u.error = true)
    (known : isUnknownOutcome toLowercase (reported unknown e) = false) :
    unknown = none ∧ isUnknownOutcome toLowercase e = false := by
  cases unknown with
  | none => exact ⟨rfl, known⟩
  | some u =>
    have told := lost u rfl
    rw [show reported (some u) e = u.error from rfl, told] at known
    cases known

theorem afterError_cases (toLowercase : String → String) (attempt : Nat)
    (unknown : Option UnknownOutcome) (base : Option Location) (e : IcebergError) :
    (isUnknownOutcome toLowercase e = true ∧ afterError toLowercase attempt unknown base e =
        .reload (attempt + 1) 1 (some (unknown.getD ⟨base, e⟩))) ∨
    afterError toLowercase attempt unknown base e = .returned (.error (reported unknown e)) ∨
    (isUnknownOutcome toLowercase e = false ∧
      afterError toLowercase attempt unknown base e = .reload (attempt + 1) 1 unknown) := by
  unfold afterError
  split
  next retried => exact Or.inl ⟨(Bool.and_eq_true_iff.mp retried).1, rfl⟩
  · split
    · exact Or.inr (Or.inl rfl)
    next retryable =>
      cases known : isUnknownOutcome toLowercase e with
      | false => exact Or.inr (Or.inr ⟨rfl, rfl⟩)
      | true =>
        rw [isUnknownOutcome, commitOutcomeUnknown] at known
        simp [commitAttemptIsRetryable, known] at retryable

theorem consistent_afterError {attempt : Nat} {base : Option Location} {e : IcebergError}
    (lost : ∀ u, unknown = some u → isUnknownOutcome toLowercase u.error = true)
    (quiet : isUnknownOutcome toLowercase e = false → unknown = none →
      s.applied = 0 ∧ s.pending = [])
    (bounded : Bounded s unknown mark) (below : ∀ b, base = some b → b ≤ mark) :
    Consistent toLowercase { s with point := afterError toLowercase attempt unknown base e } := by
  rcases afterError_cases toLowercase attempt unknown base e with
    ⟨unknownOutcome, is⟩ | is | ⟨known, is⟩ <;> rw [is]
  · -- From here on the table is told unchanged by the base of the first unknown outcome.
    have kept : ∀ u, some (unknown.getD ⟨base, e⟩) = some u →
        isUnknownOutcome toLowercase u.error = true ∧ ∀ b, u.base = some b → b ≤ mark := by
      intro u same
      obtain rfl := Option.some.inj same
      cases unknown with
      | none => exact ⟨unknownOutcome, below⟩
      | some first => exact ⟨lost first rfl, fun b => bounded.base first b rfl⟩
    exact ⟨⟨by simp, fun u same => (kept u same).1⟩, mark, bounded.pending,
      fun u b same => (kept u same).2 b, bounded.reached, bounded.applied⟩
  · refine ⟨⟨mark, (bounded.at _).forget⟩, fun known => ?_⟩
    obtain ⟨none, isKnown⟩ := unknown_reported lost known
    exact quiet isKnown none
  · exact ⟨⟨quiet known, lost⟩, mark, bounded.at _⟩

/-- Only a table that stands where the first unknown outcome was built is built on again: nothing
has taken effect then. -/
theorem consistent_afterLoad {attempt : Nat} (traced : Traced toLowercase s unknown)
    (bounded : Bounded s unknown mark) {shown : Option Location}
    (truthful : ∀ b, shown = some b → b = s.location) :
    Consistent toLowercase { s with point := afterLoad attempt unknown shown } := by
  have below : ∀ b, shown = some b → b ≤ s.location := fun b is => Nat.le_of_eq (truthful b is)
  unfold afterLoad
  split
  · obtain ⟨zero, none⟩ := traced.quiet rfl
    exact ⟨traced.at _, ⟨by simp [none], by simp, Nat.le_refl _, Or.inl zero⟩, zero, below⟩
  next u =>
    split
    next unchanged =>
      rw [UnknownOutcome.tableUnchanged, Bool.and_eq_true, beq_iff_eq] at unchanged
      obtain ⟨b, base⟩ := Option.isSome_iff_exists.mp unchanged.1
      have here : b = s.location := truthful b (unchanged.2.trans base)
      have low := bounded.base u b rfl base
      have zero := bounded.untouched (here ▸ low)
      refine ⟨traced.at _, ⟨fun b member => ?_, fun u b is at_ => ?_, Nat.le_refl _, Or.inl zero⟩,
        zero, below⟩
      · exact Nat.le_trans (bounded.pending b member) bounded.reached
      · exact Nat.le_trans (bounded.base u b is at_) bounded.reached
    · refine ⟨⟨mark, (bounded.at _).forget⟩, fun known => ?_⟩
      rw [traced.lost u rfl] at known
      cases known

theorem consistent_step {e : CommitEvent} {s' : CommitState} (consistent : Consistent toLowercase s)
    (apart : LandsApart s e) (taken : step toLowercase s e = some s') :
    Consistent toLowercase s' := by
  unfold Consistent at consistent
  revert taken
  -- the steps that are taken, in the order of `step`
  fun_cases step toLowercase s e <;> rintro ⟨⟩
  next located attempt _ unknown at_ shown =>
    rw [at_] at consistent
    obtain ⟨traced, mark, bounded⟩ := consistent
    refine consistent_afterLoad traced bounded fun b is => ?_
    cases located with
    | true => exact (Option.some.inj is).symm
    | false => exact nomatch (is : none = some b)
  next at_ =>
    rw [at_] at consistent
    obtain ⟨traced, mark, bounded⟩ := consistent
    split
    · exact ⟨traced.at _, mark, bounded.at _⟩
    · refine ⟨⟨mark, (bounded.at _).forget⟩, fun known => ?_⟩
      exact traced.quiet (unknown_reported traced.lost known).1
  next at_ =>
    rw [at_] at consistent
    obtain ⟨traced, bounded, -, below⟩ := consistent
    exact ⟨traced.at _, bounded.at _, below⟩
  next at_ =>
    rw [at_] at consistent
    obtain ⟨traced, bounded, -, below⟩ := consistent
    exact consistent_afterError traced.lost (fun _ => traced.quiet) bounded below
  next at_ =>
    rw [at_] at consistent
    obtain ⟨-, bounded, -⟩ := consistent
    have zero := bounded.untouched (Nat.le_refl _)
    refine ⟨by rw [zero], s.location, bounded.pending, by simp, ?_, Or.inr ⟨by rw [zero], ?_⟩⟩
    · exact Nat.le_succ _
    · exact Nat.lt_succ_self _
  next at_ _ =>
    rw [at_] at consistent
    obtain ⟨traced, bounded, below⟩ := consistent
    exact consistent_afterError traced.lost (fun _ => traced.quiet) bounded below
  next unknown base against at_ unknownOutcome =>
    rw [at_] at consistent
    obtain ⟨traced, bounded, below⟩ := consistent
    have more : Bounded { s with pending := against :: s.pending } unknown against :=
      ⟨List.forall_mem_cons.mpr ⟨Nat.le_refl _, bounded.pending⟩, bounded.base, bounded.reached,
        bounded.applied⟩
    refine consistent_afterError traced.lost (fun known => ?_) more below
    rw [unknownOutcome] at known
    cases known
  · unfold Consistent
    dsimp only
    split at consistent
    · obtain ⟨traced, mark, bounded⟩ := consistent
      exact ⟨⟨traced.quiet, traced.lost⟩, mark, bounded.otherCommit⟩
    · obtain ⟨traced, bounded, zero, below⟩ := consistent
      refine ⟨⟨traced.quiet, traced.lost⟩, ⟨fun b member => ?_, fun u b is at_ => ?_,
        Nat.le_refl _, Or.inl zero⟩, zero, fun b is => ?_⟩
      · exact Nat.le_succ_of_le (bounded.pending b member)
      · exact Nat.le_succ_of_le (bounded.base u b is at_)
      · exact Nat.le_succ_of_le (below b is)
    · obtain ⟨traced, bounded, below⟩ := consistent
      exact ⟨⟨traced.quiet, traced.lost⟩, bounded.otherCommit, below⟩
    · obtain ⟨once, mark, bounded⟩ := consistent
      exact ⟨once, mark, bounded.otherCommit⟩
    · obtain ⟨⟨mark, bounded⟩, quiet⟩ := consistent
      exact ⟨⟨mark, bounded.otherCommit⟩, quiet⟩
  next there =>
    have some : s.pending ≠ [] := List.ne_nil_of_mem there.1
    unfold Consistent
    dsimp only
    unfold LandsApart at apart
    split at consistent
    · obtain ⟨traced, mark, bounded⟩ := consistent
      refine ⟨⟨fun none => absurd (traced.quiet none).2 some, traced.lost⟩, mark, ?_⟩
      exact (bounded.lands there.1 there.2).2
    next at_ =>
      rw [at_] at apart
      cases apart
    · obtain ⟨traced, bounded, below⟩ := consistent
      refine ⟨⟨fun none => absurd (traced.quiet none).2 some, traced.lost⟩, ?_, below⟩
      exact (bounded.lands there.1 there.2).2
    · obtain ⟨once, mark, bounded⟩ := consistent
      rw [(bounded.lands there.1 there.2).1] at once
      cases once
    · obtain ⟨⟨mark, bounded⟩, quiet⟩ := consistent
      refine ⟨⟨mark, (bounded.lands there.1 there.2).2⟩, fun known => ?_⟩
      exact absurd (quiet known).2 some

end Steps

theorem consistent_of_begins {toLowercase : String → String} {s : CommitState} (begins : Begins s) :
    Consistent toLowercase s := by
  obtain ⟨point, zero, none⟩ := begins
  unfold Consistent
  rw [point]
  exact ⟨⟨fun _ => ⟨zero, none⟩, by simp⟩, s.location, by simp [none], by simp, Nat.le_refl _,
    Or.inl zero⟩

open Library.Transition in
/-- In every run in which the call's own commits land outside the gap between an attempt's two
reloads, the action takes effect at most once, exactly once when the call returns `Ok`, and never
when it returns an error that is not an unknown outcome. -/
theorem commitWithRetry_applies_once (toLowercase : String → String) (s : CommitState)
    (reached : Reachable Begins (step toLowercase) LandsApart s) :
    s.applied ≤ 1 ∧ (s.point = .returned (.ok ()) → s.applied = 1) ∧
      ∀ e, s.point = .returned (.error e) → isUnknownOutcome toLowercase e = false →
        s.applied = 0 := by
  have consistent : Consistent toLowercase s :=
    reached.invariant (fun _ => consistent_of_begins) fun _ _ _ => consistent_step
  have once {unknown : Option UnknownOutcome} {mark : Location} (bounded : Bounded s unknown mark) :
      s.applied ≤ 1 := by
    rcases bounded.applied with zero | ⟨one, -⟩
    · exact zero ▸ Nat.zero_le 1
    · exact Nat.le_of_eq one
  unfold Consistent at consistent
  split at consistent
  next at_ =>
    obtain ⟨-, mark, bounded⟩ := consistent
    exact ⟨once bounded, by simp [at_], by simp [at_]⟩
  next at_ => exact ⟨once consistent.2.1, by simp [at_], by simp [at_]⟩
  next at_ => exact ⟨once consistent.2.1, by simp [at_], by simp [at_]⟩
  next at_ => exact ⟨Nat.le_of_eq consistent.1, fun _ => consistent.1, by simp [at_]⟩
  next e at_ =>
    obtain ⟨⟨mark, bounded⟩, quiet⟩ := consistent
    refine ⟨once bounded, by simp [at_], fun e' is known => ?_⟩
    rw [at_] at is
    cases is
    exact (quiet known).1

def serverError : IcebergError := ⟨"the commit state is unknown", false, none⟩

def freshCall : CommitState := ⟨.reload 1 1 none, 7, 0, []⟩

open Library.Transition in
/-- The lost commit lands while the call waits: the next reload shows it and the call stops. -/
theorem applies_once_after_lost_answer : ∃ s,
    Reachable Begins (step id) LandsApart s ∧ s.point = .returned (.error serverError) ∧
      s.applied = 1 ∧ s.applied ≤ 1 := by
  have reached : Reachable Begins (step id) LandsApart
      ⟨.returned (.error serverError), 8, 1, []⟩ :=
    (Reachable.start (s := freshCall) ⟨rfl, rfl, rfl⟩).follow
      [.load true, .rebase, .lose serverError, .lands 7, .load true] rfl
  exact ⟨_, reached, rfl, rfl, (commitWithRetry_applies_once id _ reached).1⟩

open Library.Transition in
/-- The lost commit lands between the two reloads of the second attempt, which is then built on top
of it: the call returns `Ok` and the action has taken effect twice. -/
theorem applies_twice_between_reloads : ∃ s,
    Reachable Begins (step id) (fun _ _ => True) s ∧ s.point = .returned (.ok ()) ∧
      s.applied = 2 :=
  ⟨⟨.returned (.ok ()), 9, 2, []⟩, (Reachable.start (s := freshCall) ⟨rfl, rfl, rfl⟩).follow
      [.load true, .rebase, .lose serverError, .load true, .lands 7, .rebase, .accept] rfl,
    rfl, rfl⟩

end Sqe.Write
