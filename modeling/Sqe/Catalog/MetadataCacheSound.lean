/- GID: Sqe/Catalog/MetadataCacheSound
   generality: G
   digest: Loads are fenced and bounded in age while no write straddles a change. -/

import Sqe.Catalog.MetadataCacheInvariant

set_option autoImplicit false

namespace Sqe.Catalog.MetadataCache

open Function (update update_self update_of_ne)
open Sqe.Library.Transition List

variable {Warehouse Table Token Task : Type}

private theorem not_boundsAge {softTtl : Nat} {s : State Warehouse Table Token Task}
    {r : Result Warehouse Table Token} (listed : r ∈ s.results)
    (replaced : r.version ≠ s.current r.key.place)
    (late : s.ended r.key.place r.version + softTtl < r.startedClock) : ¬ BoundsAge softTtl s := by
  intro bounds
  obtain ⟨time, current, young⟩ := bounds r listed
  have ended := current.lasted.resolve_left replaced
  omega

section Invariant

variable {softTtl : Nat} {jitter : Key Warehouse Table Token → Nat}
variable {key : Task → Key Warehouse Table Token} {scope : Task → Scope Warehouse Table Token}
variable {s s' : State Warehouse Table Token Task} {task : Task}

/-- No generation that loads read is lowered. -/
structure NoLower (gens gens' : Generations Warehouse Table Token) : Prop where
  global : gens.global ≤ gens'.global
  table : ∀ t, gens.ofTable t ≤ gens'.ofTable t

variable {gens : Generations Warehouse Table Token}
variable {cache : List (Key Warehouse Table Token × Entry)}
variable {now : Invalidation Warehouse Table Token} {sc : Scope Warehouse Table Token} {stamp : Nat}

private theorem Raised.mono {gens' : Generations Warehouse Table Token}
    (raised : Raised gens stamp sc) (noLower : NoLower gens gens') : Raised gens' stamp sc := by
  cases sc with
  | allTokens t => exact Nat.le_trans raised (noLower.table t)
  | all => exact Nat.le_trans raised noLower.global
  | key _ => trivial

private theorem NoLower.refl (gens : Generations Warehouse Table Token) : NoLower gens gens :=
  ⟨Nat.le_refl _, fun _ => Nat.le_refl _⟩

private theorem NoLower.floor
    (above : gens.pruneFloor ≤ stamp) : NoLower gens { gens with pruneFloor := stamp } := by
  refine ⟨Nat.le_refl _, fun t => ?_⟩
  simp only [Generations.ofTable]
  cases gens.tables t with
  | none => exact above
  | some g => exact Nat.le_refl _

private theorem NoLower.clear (below : sc.BelowFloor gens) : NoLower gens (gens.clear sc) := by
  cases sc with
  | allTokens _ =>
    refine ⟨Nat.le_refl _, fun t => ?_⟩
    simp only [Generations.clear, Generations.ofTable, Option.getD_none]
    cases has : gens.tables t with
    | none => exact Nat.le_refl _
    | some g => exact below t g has
  | all => exact .refl gens
  | key _ => exact ⟨Nat.le_refl _, fun _ => Nat.le_refl _⟩

private theorem Bounded.clear (bounded : Bounded gens)
    (sc : Scope Warehouse Table Token) : Bounded (gens.clear sc) := by
  cases sc with
  | allTokens _ => exact ⟨bounded.global, bounded.floor, by rintro _ _ ⟨⟩⟩
  | all => exact bounded
  | key _ => exact ⟨bounded.global, bounded.floor, bounded.tables⟩

/-- Before the first step: versions are counted from the one the catalog has then. -/
def begins : State Warehouse Table Token Task where
  clock := 0
  steps := 0
  current _ := 0
  ended _ _ := 0
  gens := ⟨0, 0, fun _ => none, fun _ => none, 0⟩
  cache := []
  load _ := ⟨.idle, 0, 0⟩
  invalidation _ := ⟨.idle, 0, 0⟩
  results := []

private theorem begins_invariant : Invariant softTtl key scope begins where
  bounded := ⟨Nat.le_refl _, Nat.le_refl _, by rintro _ _ ⟨⟩⟩
  stamped := by rintro _ _ ⟨⟩
  started _ := Nat.le_refl _
  raised := by rintro _ _ ⟨⟩
  begun _ := ⟨Nat.le_refl _, Nat.le_refl _⟩
  phase _ := trivial
  cache := by rintro _ _ ⟨⟩
  results := by rintro _ ⟨⟩
  history _ _ less := absurd less (Nat.not_lt_zero _)

section

variable (inv : Invariant softTtl key scope s)
include inv

private theorem Invariant.world {clock : Nat}
    {current : Warehouse × Table → Nat} {ended : Warehouse × Table → Nat → Nat}
    (later : Later s { s with
      clock := clock, current := current, ended := ended, steps := s.steps + 1 })
    (history : ∀ p v, v < current p → ended p v ≤ clock ∧
      ∀ earlier ≤ v, ended p earlier ≤ ended p v) :
    Invariant softTtl key scope { s with
      clock := clock, current := current, ended := ended, steps := s.steps + 1 } :=
  ⟨inv.bounded, inv.stamped, fun i => Nat.le_succ_of_le (inv.started i), inv.raised,
    fun t => ⟨Nat.le_succ_of_le (inv.begun t).1, Nat.le_trans (inv.begun t).2 later.clock⟩,
    fun t => (inv.phase t).later later (inv.begun t).1, inv.cache.later later rfl,
    fun r listed => (inv.results r listed).later later, history⟩

private theorem Invariant.tick (seconds : Nat) :
    Invariant softTtl key scope { s with clock := s.clock + seconds, steps := s.steps + 1 } := by
  refine inv.world ⟨Nat.le_refl _, Nat.le_succ _, Nat.le_add_right _ _, fun _ => Nat.le_refl _,
    fun _ _ _ => rfl, fun _ less => absurd less (Nat.lt_irrefl _), fun _ _ has => .inl ⟨has, rfl⟩,
    fun _ _ has => .inl ⟨has, rfl⟩⟩ fun p v older => ?_
  obtain ⟨past, ordered⟩ := inv.history p v older
  exact ⟨Nat.le_add_right_of_le past, ordered⟩

private theorem Invariant.commit [DecidableEq Warehouse] [DecidableEq Table]
    (p : Warehouse × Table) :
    Invariant softTtl key scope { s with
      current := update s.current p (s.current p + 1)
      ended := update s.ended p (update (s.ended p) (s.current p) s.clock)
      steps := s.steps + 1 } := by
  have unchanged : ∀ q v, v < s.current q →
      update s.ended p (update (s.ended p) (s.current p) s.clock) q v =
        s.ended q v := by
    intro q v older
    by_cases same : q = p
    · subst same
      rw [update_self, update_of_ne (Nat.ne_of_lt older)]
    · rw [update_of_ne same]
  have newest : update s.ended p (update (s.ended p) (s.current p) s.clock) p
      (s.current p) = s.clock := by
    rw [update_self, update_self]
  refine inv.world ⟨Nat.le_refl _, Nat.le_succ _, Nat.le_refl _, fun q => ?_, unchanged,
    fun q grown => ?_, fun _ _ has => .inl ⟨has, rfl⟩, fun _ _ has => .inl ⟨has, rfl⟩⟩
    fun q v older => ?_
  · simp only
    by_cases same : q = p
    · subst same
      rw [update_self]
      exact Nat.le_succ _
    · rw [update_of_ne same]
  · by_cases same : q = p
    · subst same
      exact Nat.le_of_eq newest.symm
    · simp only [update_of_ne same] at grown
      exact absurd grown (Nat.lt_irrefl _)
  · -- Every version but the one just replaced ended as before.
    have known : v < s.current q ∨ q = p ∧ v = s.current p := by
      by_cases same : q = p
      · subst same
        rw [update_self] at older
        exact (Nat.lt_or_eq_of_le (Nat.le_of_lt_succ older)).imp_right fun last => ⟨rfl, last⟩
      · rw [update_of_ne same] at older
        exact .inl older
    rcases known with past | ⟨rfl, rfl⟩
    · obtain ⟨before, ordered⟩ := inv.history q v past
      refine ⟨by rwa [unchanged q v past], fun earlier le => ?_⟩
      rw [unchanged q v past, unchanged q earlier (by omega)]
      exact ordered earlier le
    · refine ⟨Nat.le_of_eq newest, fun earlier le => ?_⟩
      rcases Nat.lt_or_eq_of_le le with less | rfl
      · rw [newest, unchanged q earlier less]
        exact (inv.history q earlier less).1
      · exact Nat.le_refl _

private theorem Invariant.fencesLoads : FencesLoads scope s := by
  intro r listed i stamp covers returned before
  have ok := inv.results r listed
  exact ok.dated.after i stamp (by rw [returned]; rfl) (ok.fenced i stamp covers returned before)

private theorem Invariant.boundsAge : BoundsAge softTtl s := by
  intro r listed
  have ok := inv.results r listed
  rcases Nat.lt_or_eq_of_le ok.known with older | current
  · obtain ⟨past, ordered⟩ := inv.history _ _ older
    have since := ok.since.resolve_left (Nat.ne_of_lt older)
    exact ⟨s.ended r.key.place r.version, ⟨ok.known, past,
      fun earlier less => ordered earlier (Nat.le_of_lt less), .inr (Nat.le_refl _)⟩, by omega⟩
  · have past := ok.past
    refine ⟨s.clock, ⟨ok.known, Nat.le_refl _, fun earlier less => ?_, .inl current⟩, by omega⟩
    exact (inv.history _ earlier (by omega)).1

variable (had : (s.invalidation task).stage.stamp? = some stamp)
include had

private theorem Invariant.keeps_stamp (counter : s.gens.counter ≤ gens.counter)
    (startedAt : now.startedAt = (s.invalidation task).startedAt)
    (has : now.stage.stamp? = some stamp) :
    ∀ stamp', now.stage.stamp? = some stamp' → stamp' ≤ gens.counter ∧
      ((s.invalidation task).stage.stamp? = some stamp' ∧
        now.startedAt = (s.invalidation task).startedAt ∨ s.gens.counter < stamp') := by
  intro stamp' has'
  cases has.symm.trans has'
  exact ⟨Nat.le_trans (inv.stamped task stamp had) counter, .inl ⟨had, startedAt⟩⟩

end

section

variable [DecidableEq Task]

section

variable (s : State Warehouse Table Token Task) (task : Task)
  (gens : Generations Warehouse Table Token) (cache : List (Key Warehouse Table Token × Entry))
  (now : Invalidation Warehouse Table Token)

def State.moved : State Warehouse Table Token Task :=
  { s with
    gens := gens
    cache := cache
    invalidation := update s.invalidation task now
    steps := s.steps + 1 }

private theorem State.invalidation_moved (i : Task) :
    i = task ∧ (s.moved task gens cache now).invalidation i = now ∨
      (s.moved task gens cache now).invalidation i = s.invalidation i := by
  by_cases same : i = task
  · exact .inl ⟨same, same ▸ update_self ..⟩
  · exact .inr (update_of_ne same ..)

end

private theorem Invariant.moved (inv : Invariant softTtl key scope s) (bounded : Bounded gens)
    (counter : s.gens.counter ≤ gens.counter) (noLower : NoLower s.gens gens)
    (started : now.startedAt ≤ s.steps)
    (stamped : ∀ stamp, now.stage.stamp? = some stamp → stamp ≤ gens.counter ∧
      ((s.invalidation task).stage.stamp? = some stamp ∧
        now.startedAt = (s.invalidation task).startedAt ∨ s.gens.counter < stamp))
    (raised : ∀ stamp, now.stage.bumped? = some stamp → Raised gens stamp (scope task))
    (returned : ∀ stamp, now.stage = .returned stamp → now.returnedAt = s.steps := by rintro _ ⟨⟩)
    (fewer : ∀ entry ∈ cache, entry ∈ s.cache := by exact fun _ => id)
    (evicted : ∀ k e, (k, e) ∈ cache → (scope task).Covers k → Evicted k e now.stage := by
      exact fun _ _ _ _ => trivial) :
    Invariant softTtl key scope (s.moved task gens cache now) := by
  have place := s.invalidation_moved task gens cache now
  have later : Later s (s.moved task gens cache now) := by
    refine ⟨counter, Nat.le_succ _, Nat.le_refl _, fun _ => Nat.le_refl _, fun _ _ _ => rfl,
      fun _ less => absurd less (Nat.lt_irrefl _), fun i stamp has => ?_, fun i stamp has => ?_⟩
    all_goals rcases place i with ⟨rfl, here⟩ | here <;> rw [here] at has ⊢
    · exact (stamped stamp has).2
    · exact .inl ⟨has, rfl⟩
    · exact .inr (Nat.le_of_eq (returned stamp has).symm)
    · exact .inl ⟨has, rfl⟩
  refine ⟨bounded, fun i stamp has => ?_, fun i => ?_, fun i stamp has => ?_,
    fun t => ⟨Nat.le_succ_of_le (inv.begun t).1, (inv.begun t).2⟩,
    fun t => (inv.phase t).later later (inv.begun t).1, fun k e cached => ?_,
    fun r listed => (inv.results r listed).later later, inv.history⟩
  · rcases place i with ⟨rfl, here⟩ | here <;> rw [here] at has
    · exact (stamped stamp has).1
    · exact Nat.le_trans (inv.stamped i stamp has) counter
  · rcases place i with ⟨rfl, here⟩ | here <;> rw [here]
    · exact Nat.le_succ_of_le started
    · exact Nat.le_succ_of_le (inv.started i)
  · rcases place i with ⟨rfl, here⟩ | here <;> rw [here] at has
    · exact raised stamp has
    · exact (inv.raised i stamp has).mono noLower
  · obtain ⟨kept, others⟩ := inv.cache k e (fewer _ cached)
    refine ⟨kept.later later, fun i covers => ?_⟩
    rcases place i with ⟨rfl, here⟩ | here <;> rw [here]
    · exact evicted k e cached covers
    · exact others i covers

private theorem Invariant.evicts (inv : Invariant softTtl key scope s)
    (had : (s.invalidation task).stage.bumped? = some stamp)
    (startedAt : now.startedAt = (s.invalidation task).startedAt)
    (has : now.stage.bumped? = some stamp)
    (returned : ∀ stamp, now.stage = .returned stamp → now.returnedAt = s.steps)
    (fewer : ∀ entry ∈ cache, entry ∈ s.cache)
    (evicted : ∀ k e, (k, e) ∈ cache → (scope task).Covers k → Evicted k e now.stage) :
    Invariant softTtl key scope (s.moved task s.gens cache now) := by
  have stamp_of : ∀ {stage : Stage Warehouse Table Token}, stage.bumped? = some stamp →
      stage.stamp? = some stamp := by
    rintro (_ | _ | _ | _ | _ | _ | _ | _) bumped <;> cases bumped <;> rfl
  refine inv.moved inv.bounded (Nat.le_refl _) (.refl _) (startedAt ▸ inv.started task)
    (inv.keeps_stamp (stamp_of had) (Nat.le_refl _) startedAt (stamp_of has))
    (fun stamp' has' => ?_) returned fewer evicted
  cases has.symm.trans has'
  exact inv.raised task stamp had

private theorem Invariant.loads (inv : Invariant softTtl key scope s) {now : Load}
    {cache : List (Key Warehouse Table Token × Entry)}
    {results : List (Result Warehouse Table Token)}
    (begun : now.startedAt ≤ s.steps ∧ now.startedClock ≤ s.clock)
    (ok : PhaseOk scope s (key task) now.startedAt now.phase) (cached : CacheOk scope s cache)
    (given : ∀ r ∈ results, ResultOk softTtl scope s r) :
    Invariant softTtl key scope { s with
      cache := cache, load := update s.load task now, results := results
      steps := s.steps + 1 } := by
  have later := Later.of_load (s := s) cache (update s.load task now) results
  refine ⟨inv.bounded, inv.stamped, fun i => Nat.le_succ_of_le (inv.started i), inv.raised,
    fun other => ?_, fun other => ?_, cached.later later rfl,
    fun r listed => (given r listed).later later, inv.history⟩
  all_goals simp only
  all_goals by_cases same : other = task
  · subst same
    rw [update_self]
    exact ⟨Nat.le_succ_of_le begun.1, begun.2⟩
  · rw [update_of_ne same]
    exact ⟨Nat.le_succ_of_le (inv.begun other).1, (inv.begun other).2⟩
  · subst same
    rw [update_self]
    exact ok.later later begun.1
  · rw [update_of_ne same]
    exact (inv.phase other).later later (inv.begun other).1

end

variable [DecidableEq Warehouse] [DecidableEq Table] [DecidableEq Token]

private theorem NoLower.put (inOrder : sc.InOrder gens stamp) : NoLower gens
    (gens.put stamp sc) := by
  cases sc with
  | allTokens t =>
    refine ⟨Nat.le_refl _, fun t' => ?_⟩
    by_cases same : t' = t
    · subst same
      have order : gens.ofTable t' ≤ stamp := inOrder
      simpa [Generations.put, Generations.ofTable] using order
    · simp [Generations.put, Generations.ofTable, update_of_ne same]
  | all => exact ⟨inOrder, fun _ => Nat.le_refl _⟩
  | key k => exact ⟨Nat.le_refl _, fun _ => Nat.le_refl _⟩

private theorem Raised.put (gens : Generations Warehouse Table Token) (stamp : Nat)
    (sc : Scope Warehouse Table Token) : Raised (gens.put stamp sc) stamp sc := by
  cases sc with
  | allTokens t => simp [Raised, Generations.put, Generations.ofTable]
  | all => exact Nat.le_refl _
  | key k => trivial

private theorem Bounded.put (bounded : Bounded gens) (drawn : stamp ≤ gens.counter)
    (sc : Scope Warehouse Table Token) : Bounded (gens.put stamp sc) := by
  cases sc with
  | allTokens t =>
    refine ⟨bounded.global, bounded.floor, fun t' g has => ?_⟩
    by_cases same : t' = t
    · subst same
      simp only [Generations.put, update_self, Option.some.injEq] at has
      exact has ▸ drawn
    · simp only [Generations.put, update_of_ne same] at has
      exact bounded.tables t' g has
  | all => exact ⟨drawn, bounded.floor, bounded.tables⟩
  | key k => exact ⟨bounded.global, bounded.floor, bounded.tables⟩

variable [DecidableEq Task]

private theorem Invariant.bumps (inv : Invariant softTtl key scope s)
    (had : (s.invalidation task).stage.stamp? = some stamp)
    (inOrder : (scope task).InOrder s.gens stamp) :
    Invariant softTtl key scope (s.moved task (s.gens.put stamp (scope task)) s.cache
      { s.invalidation task with stage := .bumped stamp }) := by
  have drawn := inv.stamped task stamp had
  have counter : s.gens.counter ≤ (s.gens.put stamp (scope task)).counter := by
    cases scope task <;> exact Nat.le_refl _
  refine inv.moved (inv.bounded.put drawn _) counter (.put inOrder) (inv.started task)
    (inv.keeps_stamp had counter rfl rfl) ?_
  rintro _ ⟨⟩
  exact .put _ _ _

private theorem proceed_invariant (inv : Invariant softTtl key scope s) {full : Bool}
    (clear : Clear key scope s (.proceed task full))
    (taken : proceed scope s task full = some s') :
    Invariant softTtl key scope { s' with steps := s.steps + 1 } := by
  have left {stamp : Nat} {keys : List (Key Warehouse Table Token)}
      (at_ : (s.invalidation task).stage = .evicting stamp keys) :
      ∀ k e, (k, e) ∈ s.cache → (scope task).Covers k → stamp ≤ e.drawn ∨ k ∈ keys := by
    intro k e cached covers
    have evicted := (inv.cache k e cached).2 task covers
    rwa [at_] at evicted
  dsimp only [Clear] at clear
  revert taken
  -- the steps that are taken, in the order of `proceed`
  fun_cases proceed scope s task full <;> rintro ⟨⟩
  · have grown : Bounded { s.gens with counter := s.gens.counter + 1 } :=
      ⟨Nat.le_succ_of_le inv.bounded.global, Nat.le_succ_of_le inv.bounded.floor,
        fun t g has => Nat.le_succ_of_le (inv.bounded.tables t g has)⟩
    refine inv.moved grown (Nat.le_succ _) ⟨Nat.le_refl _, fun _ => Nat.le_refl _⟩
      (inv.started task) ?_ (by rintro _ ⟨⟩)
    rintro _ ⟨⟩
    exact ⟨Nat.le_refl _, .inr (Nat.lt_succ_self _)⟩
  next at_ prunes =>
    rw [at_, Stage.Clear, if_pos prunes] at clear
    have had := congrArg Stage.stamp? at_
    exact inv.moved ⟨inv.bounded.global, inv.stamped task _ had, inv.bounded.tables⟩
      (Nat.le_refl _) (.floor clear) (inv.started task)
      (inv.keeps_stamp had (Nat.le_refl _) rfl rfl) (by rintro _ ⟨⟩)
  next at_ kept =>
    rw [at_, Stage.Clear, if_neg kept] at clear
    exact inv.bumps (congrArg Stage.stamp? at_) clear
  next at_ =>
    rw [at_] at clear
    have counter : s.gens.counter ≤ (s.gens.clear (scope task)).counter := by
      cases scope task <;> exact Nat.le_refl _
    exact inv.moved (inv.bounded.clear _) counter (.clear clear) (inv.started task)
      (inv.keeps_stamp (congrArg Stage.stamp? at_) counter rfl rfl) (by rintro _ ⟨⟩)
  next at_ =>
    rw [at_] at clear
    exact inv.bumps (congrArg Stage.stamp? at_) clear
  next at_ t sc =>
    refine inv.evicts (congrArg Stage.bumped? at_) rfl rfl (by rintro _ ⟨⟩) (fun _ => id)
      fun k e cached covers => ?_
    rw [sc] at covers
    refine .inr (mem_filter.mpr ⟨mem_map_of_mem cached, ?_⟩)
    exact beq_iff_eq.mpr covers
  next at_ _ =>
    exact inv.evicts (congrArg Stage.bumped? at_) rfl rfl (fun _ _ => rfl) (by rintro _ ⟨⟩)
      (by rintro _ _ ⟨⟩)
  next at_ k sc =>
    refine inv.evicts (congrArg Stage.bumped? at_) rfl rfl (fun _ _ => rfl)
      (fun _ cached => (mem_filter.mp cached).1) fun k e _ covers => ?_
    rw [sc] at covers
    exact covers.elim
  next at_ =>
    exact inv.evicts (congrArg Stage.bumped? at_) rfl rfl (fun _ _ => rfl) (fun _ => id)
      fun k e cached covers => (left at_ k e cached covers).resolve_right (not_mem_nil)
  next at_ =>
    refine inv.evicts (congrArg Stage.bumped? at_) rfl rfl (by rintro _ ⟨⟩)
      (fun _ cached => (mem_filter.mp cached).1) fun k e cached covers => ?_
    obtain ⟨cached, other⟩ := mem_filter.mp cached
    exact (left at_ k e cached covers).imp_right fun listed =>
      (mem_cons.mp listed).resolve_left (bne_iff_ne.mp other)

private theorem step_invariant (inv : Invariant softTtl key scope s)
    {e : Event Warehouse Table Token Task} (clear : Clear key scope s e)
    (taken : step softTtl jitter key scope s e = some s') :
    Invariant softTtl key scope s' := by
  obtain ⟨mid, went, rfl⟩ := Option.map_eq_some_iff.mp taken
  cases e with
  | tick seconds => cases went; exact inv.tick seconds
  | commit p => cases went; exact inv.commit p
  | evict k =>
    cases went
    have later := Later.of_load (s := s) (invalidate s.cache k) s.load s.results
    exact ⟨inv.bounded, inv.stamped, fun i => Nat.le_succ_of_le (inv.started i), inv.raised,
      fun t => ⟨Nat.le_succ_of_le (inv.begun t).1, (inv.begun t).2⟩,
      fun t => (inv.phase t).later later (inv.begun t).1,
      (inv.cache.invalidate k).later later rfl,
      fun r listed => (inv.results r listed).later later, inv.history⟩
  | beginLoad task =>
    simp only at went
    split at went
    · cases went
      exact inv.loads ⟨Nat.le_refl _, Nat.le_refl _⟩ trivial inv.cache inv.results
    · cases went
  | advance task answer =>
    obtain ⟨phase, cache, results, rfl, ok, cached, given⟩ := advance_moves inv clear went
    exact inv.loads (inv.begun task) ok cached given
  | beginInvalidation task =>
    simp only at went
    split at went
    · cases went
      exact inv.moved inv.bounded (Nat.le_refl _) (.refl _) (Nat.le_refl _) (by rintro _ ⟨⟩)
        (by rintro _ ⟨⟩)
    · cases went
  | proceed task full => exact proceed_invariant inv clear went

/-- In every run in which stamps land in order and no write straddles a change of what it rests
on, loads are fenced by invalidations and return nothing older than the soft TTL allows. -/
theorem loads_bounded (softTtl : Nat) (jitter : Key Warehouse Table Token → Nat)
    (key : Task → Key Warehouse Table Token) (scope : Task → Scope Warehouse Table Token)
    (s : State Warehouse Table Token Task)
    (reached : Reachable (· = begins) (step softTtl jitter key scope) (Clear key scope) s) :
    FencesLoads scope s ∧ BoundsAge softTtl s := by
  have inv : Invariant softTtl key scope s := reached.invariant
    (fun _ here => here ▸ begins_invariant)
    fun _ _ _ inv clear taken => step_invariant inv clear taken
  exact ⟨inv.fencesLoads, inv.boundsAge⟩

end Invariant

/-- One principal's key of one table, whatever the task. -/
def onlyKey (_ : Nat) : Key Unit Unit Unit := ⟨(), (), ()⟩

/-- A load takes its snapshot, or compares it with the generations again. -/
def reads (task : Nat) : List (Event Unit Unit Unit Nat) :=
  List.replicate 5 (.advance task .failed)

/-- A load that finds nothing fetches the table, without an ETag, and may store it. -/
def fetches (task : Nat) : List (Event Unit Unit Unit Nat) :=
  .beginLoad task :: reads task ++
    [.advance task .failed, .advance task .failed, .advance task (.changed false)] ++ reads task

/-- An invalidation of the table that finds no entry. -/
def invalidates (task : Nat) : List (Event Unit Unit Unit Nat) :=
  .beginInvalidation task :: List.replicate 4 (.proceed task false)

/-- The table is committed to and invalidated after a load fetched it and before it stores it. A
second load is given the entry before the first removes it. Separately: the background request
attaches the ETag of a version committed since, and a later load is told that it is current. -/
theorem bounds_exceeded :
    (∃ s, Reachable (· = begins) (step 60 (fun _ => 0) onlyKey fun _ => .allTokens ())
        (fun _ _ => True) s ∧ ¬ FencesLoads (fun _ => .allTokens ()) s) ∧
      ∃ s, Reachable (· = begins) (step 60 (fun _ => 0) onlyKey fun _ => .allTokens ())
        (fun _ _ => True) s ∧ ¬ BoundsAge 60 s := by
  constructor
  · refine ⟨_, Reachable.follow (.start rfl)
      (fetches 0 ++ [.commit ((), ())] ++ invalidates 0 ++ [.advance 0 .failed, .beginLoad 1] ++
        reads 1) rfl, fun fenced => ?_⟩
    have bad := fenced _ (.head _) 0 1 rfl rfl (by decide)
    exact absurd bad (by decide)
  · refine ⟨_, Reachable.follow (.start rfl) (fetches 0 ++ [.advance 0 .failed] ++ reads 0 ++
        [.commit ((), ()), .advance 0 (.changed true)] ++ reads 0 ++
        [.advance 0 .failed, .advance 0 .failed, .tick 61, .beginLoad 1] ++ reads 1 ++
        [.advance 1 .failed, .advance 1 .failed, .advance 1 .notModified]) rfl, ?_⟩
    exact not_boundsAge (.head _) (by decide) (by decide)

/-- The table is invalidated, fetched, stored and read from the cache within its soft TTL. -/
theorem loads_bounded_hit :
    ∃ s : State Unit Unit Unit Nat, s.results.length = 2 ∧
      FencesLoads (fun _ => .allTokens ()) s ∧ BoundsAge 60 s := by
  refine ⟨_, ?_, loads_bounded 60 (fun _ => 0) onlyKey (fun _ => .allTokens ()) _
    (Reachable.follow (.start rfl)
      (invalidates 0 ++ [.beginLoad 0] ++ List.replicate 6 (.advance 0 .failed) ++
        [.advance 0 (.changed false)] ++ List.replicate 5 (.advance 0 .failed) ++
        [.tick 59, .beginLoad 1] ++ reads 1) rfl)⟩
  rfl

end Sqe.Catalog.MetadataCache
