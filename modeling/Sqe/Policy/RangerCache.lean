/- GID: Sqe/Policy/RangerCache
   generality: G
   digest: The two caches of the Ranger store under concurrent calls and invalidations. -/

import Sqe.Library.Transition
import Mathlib.Data.List.Basic

/-!
Every access to a shared field (a cache, the generation, the version, the download lock) is one
step, so calls interleave between any two of them. Each step takes place at its own time. The
time a download started is kept with its bundle, and the times that later calls have to respect
with the state; no step of the store reads either.
-/

set_option autoImplicit false

namespace Sqe.Policy.RangerCache

open List Option

variable {Key Content Policy : Type}

structure Bundle (Content : Type) where
  content : Content
  policyVersion : Option Int
  started : Nat
  deriving DecidableEq

/-- A resolved policy, with the bundle it was computed from. -/
structure CachedPolicy (Content Policy : Type) where
  policy : Policy
  bundle : Bundle Content
  deriving DecidableEq

/-- Who asks for the bundle: a `resolve` of a user's table, or another reader. -/
inductive Caller (Key : Type)
  | resolve (key : Key)
  | other
  deriving DecidableEq

/-- A running call, with the times of the invalidations that were complete and of the version
changes that were made when it started. -/
structure Call (Key : Type) where
  caller : Caller Key
  since : List Nat
  deriving DecidableEq

/-- Where a call stands, named by what it does next. -/
inductive Task (Key Content Policy : Type)
  /-- `resolve` looks the key up. -/
  | lookup (key : Key) (since : List Nat)
  /-- `cached_bundle` looks the bundle up. -/
  | bundleGet (call : Call Key)
  /-- The cached bundle is due for a refresh. -/
  | tryLock (call : Call Key) (cached : Bundle Content)
  | lock (call : Call Key)
  /-- With the lock: look the bundle up again. -/
  | bundleGetAgain (call : Call Key)
  /-- `download_and_cache` reads the generation. -/
  | generation (call : Call Key) (cached : Option (Bundle Content))
  | fetch (call : Call Key) (cached : Option (Bundle Content)) (generation started : Nat)
  /-- `drop_resolved_if_bundle_changed` looks at the version. -/
  | swapVersion (call : Call Key) (bundle : Bundle Content) (generation : Nat)
  | dropResolved (call : Call Key) (bundle : Bundle Content) (generation : Nat)
  | checkGeneration (call : Call Key) (bundle : Bundle Content) (generation : Nat)
  | insertBundle (call : Call Key) (bundle : Bundle Content)
  /-- `resolve` has computed its policy. -/
  | insertPolicy (key : Key) (since : List Nat) (bundle : Bundle Content)
  | returned (key : Key) (since : List Nat) (result : CachedPolicy Content Policy)
  | finished
  /-- The three steps of `invalidate_all`. -/
  | invalidateCache (begun : Nat)
  | bumpGeneration (begun : Nat)
  | invalidateBundle (begun : Nat)

/-- The store and its running calls. The last four fields only record what happened: the version
of the last bundle that had one, and the times that entries of the two caches are held against (of
the invalidations and downloads that have dropped the resolved policies, of the invalidations that
are complete, and of the downloads that changed the version). -/
structure Store (Key Content Policy : Type) where
  clock : Nat
  cache : List (Key × CachedPolicy Content Policy)
  bundleCache : Option (Bundle Content)
  bundleGeneration : Nat
  lastPolicyVersion : Int
  bundleFetch : Bool
  tasks : List (Task Key Content Policy)
  seenVersion : Option Int
  dropped : List Nat
  emptied : List Nat
  changed : List Nat

inductive Event (Key Content : Type)
  | call (caller : Caller Key)
  | invalidateAll
  /-- A call takes its next step. `fresh` says whether a cached bundle is still fresh, `fetched`
  what the download brings. -/
  | advance (task : Nat) (fresh : Bool) (fetched : Option (Content × Option Int))

section Step

variable [DecidableEq Key] (resolveFromBundleWith : Content → Key → Policy)

def withBundle (call : Call Key) (bundle : Bundle Content) : Task Key Content Policy :=
  match call.caller with
  | .resolve key => .insertPolicy key call.since bundle
  | .other => .finished

/-- The next step of a call, over the store without it: its effect and what the call does then. -/
def advance (s : Store Key Content Policy) (fresh : Bool)
    (fetched : Option (Content × Option Int)) :
    Task Key Content Policy → Option (Store Key Content Policy × Task Key Content Policy)
  | .lookup key since => match s.cache.find? fun entry => entry.1 == key with
      | some entry => some (s, .returned key since entry.2)
      | none => some (s, .bundleGet ⟨.resolve key, since⟩)
  | .bundleGet call => match s.bundleCache with
      | some cached => some (s, if fresh then withBundle call cached else .tryLock call cached)
      | none => some (s, .lock call)
  | .tryLock call cached =>
    if s.bundleFetch then some (s, withBundle call cached)
    else some ({ s with bundleFetch := true }, .generation call (some cached))
  | .lock call =>
    if s.bundleFetch then none else some ({ s with bundleFetch := true }, .bundleGetAgain call)
  | .bundleGetAgain call => match s.bundleCache with
      | some cached => some ({ s with bundleFetch := false }, withBundle call cached)
      | none => some (s, .generation call none)
  | .generation call cached => some (s, .fetch call cached s.bundleGeneration s.clock)
  | .fetch call cached generation started => match fetched with
      | some (content, version) =>
        some (s, .swapVersion call ⟨content, version, started⟩ generation)
      | none => some ({ s with bundleFetch := false }, match cached with
          | some bundle => withBundle call bundle
          | none => .finished)
  | .swapVersion call bundle generation => match bundle.policyVersion with
      | some version =>
        let previous := s.lastPolicyVersion
        some ({ s with
          lastPolicyVersion := version
          seenVersion := some version
          changed := if s.seenVersion.any fun seen => seen != version then
              bundle.started :: s.changed
            else s.changed },
          if previous ≠ 0 ∧ previous ≠ version then .dropResolved call bundle generation
          else .checkGeneration call bundle generation)
      | none => some (s, .dropResolved call bundle generation)
  | .dropResolved call bundle generation =>
    some ({ s with cache := [], dropped := bundle.started :: s.dropped },
      .checkGeneration call bundle generation)
  | .checkGeneration call bundle generation =>
    if s.bundleGeneration = generation then some (s, .insertBundle call bundle)
    else some ({ s with bundleFetch := false }, withBundle call bundle)
  | .insertBundle call bundle =>
    some ({ s with bundleCache := some bundle, bundleFetch := false }, withBundle call bundle)
  | .insertPolicy key since bundle =>
    let result := ⟨resolveFromBundleWith bundle.content key, bundle⟩
    some ({ s with cache := (key, result) :: s.cache.filter fun entry => entry.1 != key },
      .returned key since result)
  | .invalidateCache begun =>
    some ({ s with cache := [], dropped := begun :: s.dropped }, .bumpGeneration begun)
  | .bumpGeneration begun =>
    some ({ s with bundleGeneration := s.bundleGeneration + 1 }, .invalidateBundle begun)
  | .invalidateBundle begun =>
    some ({ s with bundleCache := none, emptied := begun :: s.emptied }, .finished)
  | .returned .. | .finished => none

def step (s : Store Key Content Policy) : Event Key Content → Option (Store Key Content Policy)
  | .call caller =>
    let since := s.emptied ++ s.changed
    let task := match caller with
      | .resolve key => .lookup key since
      | .other => .bundleGet ⟨.other, since⟩
    some { s with clock := s.clock + 1, tasks := s.tasks ++ [task] }
  | .invalidateAll =>
    some { s with clock := s.clock + 1, tasks := s.tasks ++ [.invalidateCache s.clock] }
  | .advance i fresh fetched => do
    let task ← s.tasks[i]?
    let (s', task') ← advance resolveFromBundleWith s fresh fetched task
    return { s' with clock := s.clock + 1, tasks := s.tasks.set i task' }

end Step

variable (s : Store Key Content Policy)

/-- A store that nothing has been asked of. -/
def Fresh : Prop :=
  s.cache = [] ∧ s.bundleCache = none ∧ s.lastPolicyVersion = 0 ∧ s.seenVersion = none ∧
    s.tasks = [] ∧ s.dropped = [] ∧ s.emptied = [] ∧ s.changed = []

/-- The bundle's download started at none of the times or after them. -/
def Newer (bundle : Bundle Content) (times : List Nat) : Prop := ∀ t ∈ times, t ≤ bundle.started

instance (bundle : Bundle Content) (times : List Nat) : Decidable (Newer bundle times) :=
  inferInstanceAs (Decidable (∀ t ∈ times, t ≤ bundle.started))

/-- The download of that time has stored a changed version and not yet dropped the resolved
policies. -/
def awaitsDrop (started : Nat) : Task Key Content Policy → Bool
  | .dropResolved _ bundle _ => bundle.started == started
  | _ => false

/-- The condition on the next step of a call: nothing older than a drop is put back into the cache
it was dropped from, no lookup comes between a changed version and the drop it calls for, and no
version is the number that stands for none. -/
def TimelyTask (fetched : Option (Content × Option Int)) :
    Task Key Content Policy → Prop
  | .lookup .. => ∀ task ∈ s.tasks, ∀ t ∈ s.changed, awaitsDrop t task = false
  | .bundleGet _ | .bundleGetAgain _ => ∀ cached ∈ s.bundleCache, Newer cached s.changed
  | .fetch .. => fetched.bind Prod.snd ≠ some 0
  | .insertBundle _ bundle => Newer bundle s.emptied
  | .insertPolicy _ _ bundle => Newer bundle s.dropped
  | _ => True

instance (s : Store Key Content Policy) (fetched : Option (Content × Option Int))
    (task : Task Key Content Policy) : Decidable (TimelyTask s fetched task) := by
  cases task <;> dsimp only [TimelyTask] <;> infer_instance

def Timely : Event Key Content → Prop
  | .advance i _ fetched => ∀ task ∈ s.tasks[i]?, TimelyTask s fetched task
  | _ => True

instance (s : Store Key Content Policy) (e : Event Key Content) : Decidable (Timely s e) := by
  cases e <;> dsimp only [Timely] <;> infer_instance

/-- The times a call has to respect are recorded, and what it holds respects them. -/
def TaskSound (resolveFromBundleWith : Content → Key → Policy) (s : Store Key Content Policy) :
    Task Key Content Policy → Prop
  | .lookup _ since => since ⊆ s.emptied ++ s.changed
  | .bundleGet call | .lock call | .bundleGetAgain call => call.since ⊆ s.emptied ++ s.changed
  | .tryLock call cached => call.since ⊆ s.emptied ++ s.changed ∧ Newer cached call.since
  | .generation call cached => call.since ⊆ s.emptied ++ s.changed ∧
      ∀ bundle, cached = some bundle → Newer bundle call.since
  | .fetch call cached _ started => (∀ t ∈ call.since, t ≤ started) ∧ started ≤ s.clock ∧
      ∀ bundle, cached = some bundle → Newer bundle call.since
  | .swapVersion call bundle _ => Newer bundle call.since ∧ bundle.started ≤ s.clock ∧
      bundle.policyVersion ≠ some 0
  | .dropResolved call bundle _ => Newer bundle call.since ∧ bundle.started ≤ s.clock
  | .checkGeneration call bundle _ | .insertBundle call bundle => Newer bundle call.since
  | .insertPolicy _ since bundle => Newer bundle since
  | .returned key since result => result.policy = resolveFromBundleWith result.bundle.content key ∧
      Newer result.bundle since
  | .finished => True
  | .invalidateCache begun => begun ≤ s.clock
  | .bumpGeneration begun | .invalidateBundle begun => begun ∈ s.dropped

structure StoreSound (resolveFromBundleWith : Content → Key → Policy)
    (s : Store Key Content Policy) : Prop where
  cache : ∀ entry ∈ s.cache, entry.2.policy = resolveFromBundleWith entry.2.bundle.content entry.1 ∧
    Newer entry.2.bundle s.dropped
  bundleCache : ∀ bundle, s.bundleCache = some bundle → Newer bundle s.emptied
  emptied : s.emptied ⊆ s.dropped
  past : ∀ t ∈ s.dropped ++ s.changed, t ≤ s.clock
  version : s.lastPolicyVersion = s.seenVersion.getD 0 ∧ s.seenVersion ≠ some 0

structure Sound (resolveFromBundleWith : Content → Key → Policy)
    (s : Store Key Content Policy) : Prop where
  store : StoreSound resolveFromBundleWith s
  changed : ∀ t ∈ s.changed, t ∈ s.dropped ∨ ∃ task ∈ s.tasks, awaitsDrop t task = true
  tasks : ∀ task ∈ s.tasks, TaskSound resolveFromBundleWith s task

/-- Time passes and what happened stays recorded. -/
structure Later (s s' : Store Key Content Policy) : Prop where
  clock : s.clock ≤ s'.clock
  dropped : s.dropped ⊆ s'.dropped
  emptied : s.emptied ⊆ s'.emptied
  changed : s.changed ⊆ s'.changed

theorem Later.marks {s s' : Store Key Content Policy} (later : Later s s') :
    s.emptied ++ s.changed ⊆ s'.emptied ++ s'.changed := by
  intro t member
  rcases mem_append.mp member with inside | inside
  · exact mem_append_left _ (later.emptied inside)
  · exact mem_append_right _ (later.changed inside)

section Invariant

variable {resolveFromBundleWith : Content → Key → Policy} {s s' : Store Key Content Policy}
  {task task' : Task Key Content Policy}

theorem TaskSound.later (later : Later s s')
    (sound : TaskSound resolveFromBundleWith s task) : TaskSound resolveFromBundleWith s' task := by
  have marks := later.marks
  cases task with
  | lookup | bundleGet | lock | bundleGetAgain => exact fun t member => marks (sound member)
  | tryLock | generation => exact ⟨fun t member => marks (sound.1 member), sound.2⟩
  | fetch | swapVersion => exact ⟨sound.1, Nat.le_trans sound.2.1 later.clock, sound.2.2⟩
  | dropResolved => exact ⟨sound.1, Nat.le_trans sound.2 later.clock⟩
  | checkGeneration | insertBundle | insertPolicy | returned => exact sound
  | finished => trivial
  | invalidateCache => exact Nat.le_trans sound later.clock
  | bumpGeneration | invalidateBundle => exact later.dropped sound

theorem StoreSound.marks_past (sound : StoreSound resolveFromBundleWith s) {t : Nat}
    (member : t ∈ s.emptied ++ s.changed) : t ≤ s.clock := by
  rcases mem_append.mp member with emptied | changed
  · exact sound.past t (mem_append_left _ (sound.emptied emptied))
  · exact sound.past t (mem_append_right _ changed)

theorem taskSound_withBundle {call : Call Key} {bundle : Bundle Content}
    (newer : Newer bundle call.since) :
    TaskSound resolveFromBundleWith s (withBundle call bundle) := by
  unfold withBundle
  split
  · exact newer
  · trivial

structure Advanced (resolveFromBundleWith : Content → Key → Policy)
    (s : Store Key Content Policy) (task : Task Key Content Policy)
    (s' : Store Key Content Policy) (task' : Task Key Content Policy) : Prop where
  store : StoreSound resolveFromBundleWith s'
  later : Later s s'
  clock : s'.clock = s.clock
  next : TaskSound resolveFromBundleWith s' task'
  changed : ∀ t ∈ s'.changed, t ∈ s.changed ∨ awaitsDrop t task' = true
  awaited : ∀ t, awaitsDrop t task = true → t ∈ s'.dropped

theorem advanced_lock (store : StoreSound resolveFromBundleWith s) (bundleFetch : Bool)
    (idle : ∀ t, awaitsDrop t task = false)
    (next : TaskSound resolveFromBundleWith s task') :
    Advanced resolveFromBundleWith s task { s with bundleFetch := bundleFetch } task' := by
  have later : Later s { s with bundleFetch := bundleFetch } :=
    ⟨Nat.le_refl _, fun _ => id, fun _ => id, fun _ => id⟩
  refine ⟨⟨store.cache, store.bundleCache, store.emptied, store.past, store.version⟩, later, rfl,
    next.later later, fun t => Or.inl, fun t awaits => ?_⟩
  rw [idle t] at awaits
  cases awaits

theorem storeSound_drop (store : StoreSound resolveFromBundleWith s) {t : Nat}
    (past : t ≤ s.clock) :
    StoreSound resolveFromBundleWith { s with cache := [], dropped := t :: s.dropped } := by
  exact ⟨by simp, store.bundleCache, subset_cons_of_subset _ store.emptied,
    forall_mem_cons.mpr ⟨past, store.past⟩, store.version⟩

theorem later_drop (s : Store Key Content Policy) (t : Nat) :
    Later s { s with cache := [], dropped := t :: s.dropped } :=
  ⟨Nat.le_refl _, fun _ => mem_cons_of_mem _, fun _ => id, fun _ => id⟩

theorem advanced_swapVersion (store : StoreSound resolveFromBundleWith s) {call : Call Key}
    {bundle : Bundle Content} {generation : Nat}
    (sound : TaskSound resolveFromBundleWith s (.swapVersion call bundle generation))
    {version : Int} (versioned : bundle.policyVersion = some version) :
    Advanced resolveFromBundleWith s (.swapVersion call bundle generation)
      { s with
        lastPolicyVersion := version
        seenVersion := some version
        changed := if s.seenVersion.any fun seen => seen != version then
            bundle.started :: s.changed
          else s.changed }
      (if s.lastPolicyVersion ≠ 0 ∧ s.lastPolicyVersion ≠ version then
        .dropResolved call bundle generation
      else .checkGeneration call bundle generation) := by
  obtain ⟨newer, past, nonzero⟩ := sound
  have marks : ∀ t ∈ (if s.seenVersion.any fun seen => seen != version then
      bundle.started :: s.changed else s.changed), t ∈ s.changed ∨
        (t = bundle.started ∧ s.seenVersion.any (fun seen => seen != version) = true) := by
    intro t member
    split at member
    next differs =>
      rcases mem_cons.mp member with rfl | earlier
      · exact Or.inr ⟨rfl, differs⟩
      · exact Or.inl earlier
    · exact Or.inl member
  refine ⟨⟨store.cache, store.bundleCache, store.emptied, fun t member => ?_, rfl, ?_⟩,
    ⟨Nat.le_refl _, fun _ => id, fun _ => id, fun t member => ?_⟩, rfl, ?_, fun t member => ?_,
    fun t awaits => by cases awaits⟩
  · rcases mem_append.mp member with dropped | changed
    · exact store.past t (mem_append_left _ dropped)
    · rcases marks t changed with earlier | ⟨rfl, -⟩
      · exact store.past t (mem_append_right _ earlier)
      · exact past
  · rw [← versioned]
    exact nonzero
  · dsimp only
    split
    · exact mem_cons_of_mem _ member
    · exact member
  · by_cases drops : s.lastPolicyVersion ≠ 0 ∧ s.lastPolicyVersion ≠ version
    · rw [if_pos drops]
      exact ⟨newer, past⟩
    · rw [if_neg drops]
      exact newer
  · rcases marks t member with earlier | ⟨rfl, differs⟩
    · exact Or.inl earlier
    · obtain ⟨last, known⟩ := store.version
      cases seen : s.seenVersion with
      | none =>
        rw [seen] at differs
        cases differs
      | some previous =>
        rw [seen] at differs last known
        have other : previous ≠ version := by simpa using differs
        have some : previous ≠ 0 := fun zero => known (congrArg _ zero)
        rw [if_pos ⟨last ▸ some, last ▸ other⟩]
        exact Or.inr (beq_self_eq_true bundle.started)

theorem advanced_of_timely [DecidableEq Key] (sound : Sound resolveFromBundleWith s) {fresh : Bool}
    {fetched : Option (Content × Option Int)}
    (running : TaskSound resolveFromBundleWith s task) (timely : TimelyTask s fetched task)
    (taken : advance resolveFromBundleWith s fresh fetched task = some (s', task')) :
    Advanced resolveFromBundleWith s task s' task' := by
  have store := sound.store
  have held {call : Call Key} {cached : Bundle Content}
      (since : call.since ⊆ s.emptied ++ s.changed) (found : s.bundleCache = some cached)
      (current : Newer cached s.changed) : Newer cached call.since := fun t member =>
    (mem_append.mp (since member)).elim (store.bundleCache cached found t) (current t)
  have stays {task task' : Task Key Content Policy} (idle : ∀ t, awaitsDrop t task = false)
      (next : TaskSound resolveFromBundleWith s task') :=
    advanced_lock store s.bundleFetch idle next
  revert taken
  -- the steps that are taken, in the order of `advance`
  fun_cases advance resolveFromBundleWith s fresh fetched task <;> rintro ⟨⟩
  next entry found =>
    obtain ⟨computed, newer⟩ := store.cache entry (mem_of_find?_eq_some found)
    have is := by simpa using find?_some found
    refine stays (fun _ => rfl) ⟨is ▸ computed, fun t member => ?_⟩
    -- A change of the version has already dropped what was resolved before it.
    refine newer t ?_
    rcases mem_append.mp (running member) with emptied | changed
    · exact store.emptied emptied
    · rcases sound.changed t changed with dropped | ⟨other, inside, awaits⟩
      · exact dropped
      · rw [timely other inside t changed] at awaits
        cases awaits
  · exact stays (fun _ => rfl) running
  next cached found =>
    have newer := held running found (timely cached found)
    refine stays (fun _ => rfl) ?_
    split
    · exact taskSound_withBundle newer
    · exact ⟨running, newer⟩
  · exact stays (fun _ => rfl) running
  · exact stays (fun _ => rfl) (taskSound_withBundle running.2)
  · refine advanced_lock store true (fun _ => rfl) ⟨running.1, fun bundle is => ?_⟩
    cases is
    exact running.2
  · exact advanced_lock store true (fun _ => rfl) running
  next cached found =>
    exact advanced_lock store false (fun _ => rfl)
      (taskSound_withBundle (held running found (timely cached found)))
  · exact stays (fun _ => rfl) ⟨running, by simp⟩
  · exact stays (fun _ => rfl)
      ⟨fun t member => store.marks_past (running.1 member), Nat.le_refl _, running.2⟩
  · exact stays (fun _ => rfl) ⟨running.1, running.2.1, timely⟩
  · refine advanced_lock store false (fun _ => rfl) ?_
    split
    next bundle => exact taskSound_withBundle (running.2.2 bundle rfl)
    · trivial
  next versioned previous => exact advanced_swapVersion store running versioned
  · exact stays (fun _ => rfl) ⟨running.1, running.2.1⟩
  next bundle generation =>
    refine ⟨storeSound_drop store running.2, later_drop s _, rfl, running.1, fun t => Or.inl,
      fun t awaits => ?_⟩
    have is : bundle.started = t := by simpa [awaitsDrop] using awaits
    exact is ▸ mem_cons_self
  · exact stays (fun _ => rfl) running
  · exact advanced_lock store false (fun _ => rfl) (taskSound_withBundle running)
  · refine ⟨⟨store.cache, fun b is => ?_, store.emptied, store.past, store.version⟩,
      ⟨Nat.le_refl _, fun _ => id, fun _ => id, fun _ => id⟩, rfl, taskSound_withBundle running,
      fun t => Or.inl, fun t awaits => by cases awaits⟩
    cases is
    exact timely
  · refine ⟨⟨forall_mem_cons.mpr ⟨⟨rfl, timely⟩, fun entry earlier => ?_⟩, store.bundleCache,
      store.emptied, store.past, store.version⟩,
      ⟨Nat.le_refl _, fun _ => id, fun _ => id, fun _ => id⟩, rfl, ⟨rfl, running⟩,
      fun t => Or.inl, fun t awaits => by cases awaits⟩
    exact store.cache entry (mem_filter.mp earlier).1
  · exact ⟨storeSound_drop store running, later_drop s _, rfl, mem_cons_self,
      fun t => Or.inl, fun t awaits => by cases awaits⟩
  · exact ⟨⟨store.cache, store.bundleCache, store.emptied, store.past, store.version⟩,
      ⟨Nat.le_refl _, fun _ => id, fun _ => id, fun _ => id⟩, rfl, running, fun t => Or.inl,
      fun t awaits => by cases awaits⟩
  · exact ⟨⟨store.cache, by simp, cons_subset.mpr ⟨running, store.emptied⟩, store.past,
      store.version⟩, ⟨Nat.le_refl _, fun _ => id, fun _ => mem_cons_of_mem _, fun _ => id⟩,
      rfl, trivial, fun t => Or.inl, fun t awaits => by cases awaits⟩

theorem storeSound_tick (store : StoreSound resolveFromBundleWith s) {clock : Nat}
    (later : s.clock ≤ clock) (tasks : List (Task Key Content Policy)) :
    StoreSound resolveFromBundleWith { s with clock := clock, tasks := tasks } :=
  ⟨store.cache, store.bundleCache, store.emptied,
    fun t member => Nat.le_trans (store.past t member) later, store.version⟩

theorem sound_append (sound : Sound resolveFromBundleWith s)
    (begins : TaskSound resolveFromBundleWith
      { s with clock := s.clock + 1, tasks := s.tasks ++ [task] } task) :
    Sound resolveFromBundleWith { s with clock := s.clock + 1, tasks := s.tasks ++ [task] } := by
  have later : Later s { s with clock := s.clock + 1, tasks := s.tasks ++ [task] } :=
    ⟨Nat.le_succ _, fun _ => id, fun _ => id, fun _ => id⟩
  refine ⟨storeSound_tick sound.store (Nat.le_succ _) _, fun t member => ?_, fun other inside => ?_⟩
  · exact (sound.changed t member).imp_right fun ⟨waiting, inside, awaits⟩ =>
      ⟨waiting, mem_append_left _ inside, awaits⟩
  · rcases mem_append.mp inside with earlier | last
    · exact (sound.tasks other earlier).later later
    · exact mem_singleton.mp last ▸ begins

theorem sound_step [DecidableEq Key] {e : Event Key Content} (sound : Sound resolveFromBundleWith s)
    (timely : Timely s e) (taken : step resolveFromBundleWith s e = some s') :
    Sound resolveFromBundleWith s' := by
  cases e with
  | call caller =>
    cases taken
    refine sound_append sound ?_
    cases caller with
    | resolve key => exact fun t => id
    | other => exact fun t => id
  | invalidateAll =>
    cases taken
    exact sound_append sound (Nat.le_succ s.clock)
  | advance i fresh fetched =>
    simp only [step, bind_eq_bind, bind_eq_some_iff] at taken
    obtain ⟨task, found, ⟨store, task'⟩, advances, is⟩ := taken
    cases is
    have member : task ∈ s.tasks := mem_of_getElem? found
    have advanced := advanced_of_timely sound (sound.tasks task member) (timely task found) advances
    have tick : Later store { store with clock := s.clock + 1, tasks := s.tasks.set i task' } :=
      ⟨advanced.clock ▸ Nat.le_succ _, fun _ => id, fun _ => id, fun _ => id⟩
    have bound : i < s.tasks.length := (List.getElem?_eq_some_iff.mp found).1
    refine ⟨storeSound_tick advanced.store (advanced.clock ▸ Nat.le_succ _) _, fun t changed => ?_,
      fun other inside => ?_⟩
    · rcases advanced.changed t changed with earlier | awaits
      · rcases sound.changed t earlier with dropped | ⟨waiting, inside, awaits⟩
        · exact Or.inl (advanced.later.dropped dropped)
        · -- The call that was to drop them has taken this step, or is still waiting.
          obtain ⟨j, at_⟩ := mem_iff_getElem?.mp inside
          by_cases same : i = j
          · subst same
            rw [found] at at_
            cases at_
            exact Or.inl (advanced.awaited t awaits)
          · refine Or.inr ⟨waiting, ?_, awaits⟩
            refine mem_iff_getElem?.mpr ⟨j, ?_⟩
            rw [getElem?_set_ne same, at_]
      · exact Or.inr ⟨task', mem_set bound task', awaits⟩
    · rcases mem_or_eq_of_mem_set inside with earlier | rfl
      · exact ((sound.tasks other earlier).later advanced.later).later tick
      · exact advanced.next.later tick

theorem sound_of_fresh (fresh : Fresh s) : Sound resolveFromBundleWith s := by
  obtain ⟨cache, bundleCache, version, seen, tasks, dropped, emptied, changed⟩ := fresh
  refine ⟨⟨by simp [cache], by simp [bundleCache], by simp [emptied], by simp [dropped, changed],
    by simp [version, seen]⟩, by simp [changed], by simp [tasks]⟩

end Invariant

open Library.Transition in
/-- In every run of timely steps, what a `resolve` returns is computed from a bundle whose download
started no earlier than any invalidation that was complete, and any version change that was made,
when the call started. -/
theorem resolve_returns_current [DecidableEq Key] (resolveFromBundleWith : Content → Key → Policy)
    (s : Store Key Content Policy)
    (reached : Reachable Fresh (step resolveFromBundleWith) Timely s) (key : Key) (since : List Nat)
    (result : CachedPolicy Content Policy) (returned : .returned key since result ∈ s.tasks) :
    result.policy = resolveFromBundleWith result.bundle.content key ∧
      ∀ t ∈ since, t ≤ result.bundle.started := by
  have sound : Sound resolveFromBundleWith s :=
    reached.invariant (fun _ => sound_of_fresh) fun _ _ _ => sound_step
  exact sound.tasks _ returned

/-- Policies that show which bundle and key they were computed from. -/
def exampleResolve (content : Nat) (key : String) : Nat × String := (content, key)

def emptyStore : Store String Nat (Nat × String) where
  clock := 0
  cache := []
  bundleCache := none
  bundleGeneration := 0
  lastPolicyVersion := 0
  bundleFetch := false
  tasks := []
  seenVersion := none
  dropped := []
  emptied := []
  changed := []

def go (task : Nat) : Event String Nat := .advance task true none

/-- A `resolve` that misses both caches and downloads bundle number `content`, up to the insertion
of its policy. -/
def downloads (task content : Nat) : List (Event String Nat) :=
  [.call (.resolve "ann"), go task, go task, go task, go task, go task,
    .advance task true (some (content, some 7)), go task, go task, go task]

/-- An invalidation between two calls: the second one downloads the bundle anew. -/
def invalidatedBetween : List (Event String Nat) :=
  downloads 0 1 ++ [go 0, .invalidateAll, go 1, go 1, go 1] ++ downloads 2 2 ++ [go 2]

/-- An invalidation before the first call has inserted its policy. -/
def invalidatedBeforeInsert : List (Event String Nat) :=
  downloads 0 1 ++ [.invalidateAll, go 1, go 1, go 1, go 0, .call (.resolve "ann"), go 2]

open Library.Transition in
theorem resolves_anew_after_invalidation : ∃ s, ∃ result : CachedPolicy Nat (Nat × String),
    Reachable Fresh (step exampleResolve) Timely s ∧
      s.tasks[2]? = some (.returned "ann" [11] result) ∧ result.policy = (2, "ann") ∧
        11 ≤ result.bundle.started := by
  have found : ((follow (step exampleResolve) Timely emptyStore invalidatedBetween).bind
      fun s => s.tasks[2]?) = some (.returned "ann" [11] ⟨(2, "ann"), ⟨2, some 7, 20⟩⟩) := rfl
  obtain ⟨s, followed, task⟩ := bind_eq_some_iff.mp found
  have reached : Reachable Fresh (step exampleResolve) Timely s :=
    (Reachable.start (s := emptyStore) ⟨rfl, rfl, rfl, rfl, rfl, rfl, rfl, rfl⟩).follow _ followed
  have current := resolve_returns_current exampleResolve s reached _ _ _ (mem_of_getElem? task)
  exact ⟨s, _, reached, task, rfl, current.2 11 mem_cons_self⟩

open Library.Transition in
/-- The first call puts its policy back into the cache after the invalidation; the second call
starts after it and is served the old policy. -/
theorem resolve_returns_stale_policy : ∃ s, ∃ result : CachedPolicy Nat (Nat × String),
    Reachable Fresh (step exampleResolve) (fun _ _ => True) s ∧
      s.tasks[2]? = some (.returned "ann" [10] result) ∧ result.bundle.started < 10 := by
  have found : ((follow (step exampleResolve) (fun _ _ => True) emptyStore
      invalidatedBeforeInsert).bind fun s => s.tasks[2]?) =
        some (.returned "ann" [10] ⟨(1, "ann"), ⟨1, some 7, 5⟩⟩) := rfl
  obtain ⟨s, followed, task⟩ := bind_eq_some_iff.mp found
  have reached : Reachable Fresh (step exampleResolve) (fun _ _ => True) s :=
    (Reachable.start (s := emptyStore) ⟨rfl, rfl, rfl, rfl, rfl, rfl, rfl, rfl⟩).follow _ followed
  exact ⟨s, _, reached, task, by decide⟩

end Sqe.Policy.RangerCache
