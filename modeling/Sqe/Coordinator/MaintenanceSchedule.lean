/- GID: Sqe/Coordinator/MaintenanceSchedule
   generality: G
   digest: Which clock readings of the maintenance scheduler find a scheduled fire due. -/

import Mathlib.Algebra.Order.Ring.Int
import Mathlib.Data.List.Chain

set_option autoImplicit false

namespace Sqe.Coordinator.MaintenanceSchedule

open List

/-- A parsed cron: its fire instants in milliseconds, and the search for the latest of them. -/
structure Cron where
  fires : Int → Prop
  findPreviousOccurrence : Int → Option Int
  latest : ∀ now fire, findPreviousOccurrence now = some fire ↔
    fires fire ∧ fire ≤ now ∧ ∀ later, fires later → later ≤ now → later ≤ fire

/-- FNV-1a of the table's name, reduced to the jitter. -/
def jitterOffsetSecs (ident : String) (jitterSecs : Nat) : Nat :=
  if jitterSecs = 0 then 0
  else (ident.toUTF8.toList.foldl (fun hash byte => (hash ^^^ byte.toUInt64) * 0x100000001b3)
    (0xcbf29ce484222325 : UInt64)).toNat % jitterSecs

structure SchedulerConfig where
  tickSecs : Nat
  jitterSecs : Nat

/-- One pass of the tick: how long it takes before and after it reads the clock, in milliseconds,
and whether it succeeds. -/
structure Tick where
  before : Nat
  after : Nat
  succeeds : Bool

/-- What the wall clock shows, which never goes back. -/
structure Clock where
  shows : Int → Int
  mono : ∀ {t u : Int}, t ≤ u → shows t ≤ shows u

/-- The clock readings of the successful ticks. A tick fires at its deadline, or once the loop is
ready; one that is late by more than 5 ms skips the deadlines it has missed. -/
def readings (clock : Clock) (period : Int) : Int → Int → List Tick → List Int
  | _, _, [] => []
  | deadline, ready, tick :: ticks =>
    let fired := max deadline ready
    let read := fired + tick.before
    let next := if fired ≤ deadline + 5 then deadline + period
      else fired + period - (fired - deadline) % period
    let later := readings clock period next (read + tick.after) ticks
    if tick.succeeds then clock.shows read :: later else later

def spawn (clock : Clock) (cfg : SchedulerConfig) (start : Int) : List Tick → List Int :=
  readings clock (max cfg.tickSecs 1 * 1000) start start

variable (fromStr : String → Option Cron) (cfg : SchedulerConfig) (ident schedule : String)

/-- The most recent fire at or before the jitter-adjusted clock, and that adjusted clock. -/
def previousFireMs (nowMs : Int) : Option (Int × Int) := do
  let cron ← fromStr schedule
  let adjustedNowMs := nowMs - jitterOffsetSecs ident cfg.jitterSecs * 1000
  let prevFire ← cron.findPreviousOccurrence adjustedNowMs
  return (prevFire, adjustedNowMs)

def tableDue (nowMs : Int) : Bool :=
  match previousFireMs fromStr cfg ident schedule nowMs with
  | none => false
  | some (prevFireMs, adjustedNowMs) => adjustedNowMs - cfg.tickSecs * 1000 < prevFireMs

def scheduleWindowStartMs (nowMs : Int) : Option Int :=
  (previousFireMs fromStr cfg ident schedule nowMs).map Prod.fst

/-- The table is due at this reading, and due for this fire. -/
def findsDue (fire nowMs : Int) : Bool :=
  tableDue fromStr cfg ident schedule nowMs &&
    scheduleWindowStartMs fromStr cfg ident schedule nowMs == some fire

def effectiveFire (fire : Int) : Int := fire + jitterOffsetSecs ident cfg.jitterSecs * 1000

/-- The reading comes less than a tick after the fire and before the next one. -/
def Fresh (cron : Cron) (fire nowMs : Int) : Prop :=
  nowMs < effectiveFire cfg ident fire + cfg.tickSecs * 1000 ∧
    ∀ later, cron.fires later → fire < later → nowMs < effectiveFire cfg ident later

/-- Every effective fire between the first and the latest reading is found due exactly once. -/
def CoveredOnce (clock : List Int) : Prop :=
  ∀ cron, fromStr schedule = some cron → ∀ fire, cron.fires fire →
    (∃ reading ∈ clock, reading ≤ effectiveFire cfg ident fire) →
    (∃ reading ∈ clock, effectiveFire cfg ident fire ≤ reading) →
    clock.countP (findsDue fromStr cfg ident schedule fire) = 1

variable {fromStr cfg ident schedule} {cron : Cron} {fire : Int}

private theorem findsDue_iff (parsed : fromStr schedule = some cron) (fires : cron.fires fire)
    (nowMs : Int) : findsDue fromStr cfg ident schedule fire nowMs = true ↔
      effectiveFire cfg ident fire ≤ nowMs ∧ Fresh cfg ident cron fire nowMs := by
  unfold findsDue tableDue scheduleWindowStartMs previousFireMs Fresh effectiveFire
  generalize (jitterOffsetSecs ident cfg.jitterSecs : Int) * 1000 = offset
  rw [parsed]
  have previous := cron.latest (nowMs - offset) fire
  refine Iff.trans (b := cron.findPreviousOccurrence (nowMs - offset) = some fire ∧
    nowMs - offset - cfg.tickSecs * 1000 < fire) ?_ ?_
  · cases found : cron.findPreviousOccurrence (nowMs - offset) with
    | none => simp [found]
    | some last =>
      simp only [found, Option.bind_eq_bind, Option.bind_some, Option.pure_def, Option.map_some,
        Bool.and_eq_true, decide_eq_true_eq, beq_iff_eq, Option.some.injEq]
      constructor
      · rintro ⟨early, rfl⟩
        exact ⟨rfl, early⟩
      · rintro ⟨rfl, early⟩
        exact ⟨early, rfl⟩
  rw [previous]
  constructor
  · rintro ⟨⟨-, reached, last⟩, early⟩
    refine ⟨by omega, by omega, ?_⟩
    intro later firesLater after
    by_contra passed
    have := last later firesLater (by omega)
    omega
  · rintro ⟨reached, early, none⟩
    refine ⟨⟨fires, by omega, ?_⟩, by omega⟩
    intro later firesLater passed
    by_contra after
    have := none later firesLater (by omega)
    omega

private theorem Fresh.earlier {now now' : Int} (fresh : Fresh cfg ident cron fire now')
    (earlier : now ≤ now') : Fresh cfg ident cron fire now := by
  obtain ⟨early, none⟩ := fresh
  refine ⟨by omega, ?_⟩
  intro later firesLater after
  have := none later firesLater after
  omega

private theorem readings_ordered (clock : Clock) (period deadline ready : Int) (ticks : List Tick) :
    (clock.shows ready :: readings clock period deadline ready ticks).Pairwise (· ≤ ·) := by
  induction ticks generalizing deadline ready with
  | nil => simp [readings]
  | cons tick ticks ih =>
    rw [readings]
    -- The loop is ready again after the reading, and the reading came after it was ready.
    generalize (if max deadline ready ≤ deadline + 5 then deadline + period else _) = next
    have rest := ih next (max deadline ready + tick.before + tick.after)
    have read : clock.shows ready ≤ clock.shows (max deadline ready + tick.before) :=
      clock.mono (by omega)
    have done : clock.shows (max deadline ready + tick.before) ≤
      clock.shows (max deadline ready + tick.before + tick.after) := clock.mono (by omega)
    rw [pairwise_cons] at rest
    obtain ⟨late, ordered⟩ := rest
    have later : ∀ reading ∈ readings clock period next
        (max deadline ready + tick.before + tick.after) ticks,
        clock.shows (max deadline ready + tick.before) ≤ reading :=
      fun reading member => done.trans (late reading member)
    split
    · refine pairwise_cons.mpr ⟨?_, pairwise_cons.mpr ⟨later, ordered⟩⟩
      exact forall_mem_cons.mpr ⟨read, fun reading member => read.trans (later reading member)⟩
    · exact pairwise_cons.mpr ⟨fun reading member => read.trans (later reading member), ordered⟩

section Hits

variable {hits : Int → Bool} {due : Int} {near : Int → Prop}

/-- In an ordered list the hits from some value on stand together, so there is one exactly when the
first element from that value on is a hit and the next is not. -/
private theorem countP_eq_one_iff (found : ∀ x, hits x = true ↔ due ≤ x ∧ near x)
    (down : ∀ x y, near y → x ≤ y → near x) {l : List Int} (ordered : l.Pairwise (· ≤ ·)) :
    ((∃ x ∈ l, due ≤ x) → l.countP hits = 1) ↔
      ∀ first rest, l.dropWhile (· < due) = first :: rest →
        near first ∧ ∀ second ∈ rest.head?, ¬ near second := by
  induction l with
  | nil => simp
  | cons x l ih =>
    obtain ⟨after, later⟩ := pairwise_cons.mp ordered
    by_cases early : x < due
    · have missed : ¬ hits x = true := fun hit => not_le.mpr early ((found x).mp hit).1
      rw [countP_cons_of_neg missed, dropWhile_cons_of_pos (by simpa using early)]
      refine Iff.trans ?_ (ih later)
      simp [not_le.mpr early]
    have late := not_lt.mp early
    have reached : ∀ y ∈ x :: l, due ≤ y :=
      forall_mem_cons.mpr ⟨late, fun y member => late.trans (after y member)⟩
    have hit : ∀ y ∈ x :: l, hits y = true ↔ near y := by
      intro y member
      rw [found, and_iff_right (reached y member)]
    have none : l.countP hits = 0 ↔ ∀ second ∈ l.head?, ¬ near second := by
      rw [countP_eq_zero]
      cases l with
      | nil => simp
      | cons y l =>
        have rest := (pairwise_cons.mp later).1
        simp only [forall_mem_cons, hit y (by simp), head?_cons, Option.mem_some_iff, forall_eq']
        refine and_iff_left_of_imp fun missed z member => ?_
        rw [hit z (by simp [member])]
        exact fun last => missed (down y z last (rest z member))
    have once : (x :: l).countP hits = 1 ↔ near x ∧ ∀ second ∈ l.head?, ¬ near second := by
      rw [← none, ← hit x mem_cons_self, countP_cons]
      by_cases first : hits x = true
      · simp [first]
      · have zero : l.countP hits = 0 := by
          refine none.mpr fun second is last => first ?_
          have member := mem_of_head? is
          exact (hit x mem_cons_self).mpr (down x second last (after second member))
        simp [first, zero]
    rw [dropWhile_cons_of_neg (by simpa using early), once]
    constructor
    · rintro one first rest ⟨⟩
      exact one ⟨x, mem_cons_self, late⟩
    · exact fun one _ => one x l rfl

end Hits

/-- Each fire is found once exactly when the first reading from it on comes within a tick of it and
before the next fire, and the reading after that one does not. -/
theorem coveredOnce_iff (clock : Clock) (start : Int) (ticks : List Tick) :
    CoveredOnce fromStr cfg ident schedule (spawn clock cfg start ticks) ↔
      ∀ cron, fromStr schedule = some cron → ∀ fire, cron.fires fire →
        (∃ reading ∈ spawn clock cfg start ticks, reading ≤ effectiveFire cfg ident fire) →
        ∀ first rest, (spawn clock cfg start ticks).dropWhile
            (· < effectiveFire cfg ident fire) = first :: rest →
          Fresh cfg ident cron fire first ∧
            ∀ second ∈ rest.head?, ¬ Fresh cfg ident cron fire second := by
  have ordered := (readings_ordered clock (max cfg.tickSecs 1 * 1000) start start ticks).of_cons
  refine forall_congr' fun cron => forall_congr' fun parsed => forall_congr' fun fire =>
    forall_congr' fun fires => forall_congr' fun _ => ?_
  exact countP_eq_one_iff (findsDue_iff parsed fires) (fun _ _ => Fresh.earlier) ordered

/-- Midnight every day. -/
def daily : Cron where
  fires t := t % 86400000 = 0
  findPreviousOccurrence now := some (now - now % 86400000)
  latest now fire := by
    rw [Option.some.injEq]
    constructor
    · rintro rfl
      exact ⟨by omega, by omega, by omega⟩
    · rintro ⟨fires, reached, last⟩
      have := last (now - now % 86400000) (by omega) (by omega)
      omega

/-- Ticks a minute apart around midnight: when the second takes 70 seconds before it reads the
clock the day's fire is never found, and when it takes 50 seconds the fire is found twice. -/
theorem slow_tick_misses_fire :
    (spawn ⟨id, id⟩ ⟨60, 0⟩ (-30000) [⟨0, 0, true⟩, ⟨70000, 0, true⟩] = [-30000, 100000] ∧
      ¬ CoveredOnce (fun _ => some daily) ⟨60, 0⟩ "t" "0 0 * * *" [-30000, 100000]) ∧
    spawn ⟨id, id⟩ ⟨60, 0⟩ (-90000) [⟨0, 0, true⟩, ⟨50000, 0, true⟩, ⟨0, 0, true⟩] =
      [-90000, 20000, 30000] ∧
    ¬ CoveredOnce (fun _ => some daily) ⟨60, 0⟩ "t" "0 0 * * *" [-90000, 20000, 30000] := by
  refine ⟨⟨rfl, ?_⟩, rfl, ?_⟩
  · intro covered
    have once := covered daily rfl 0 rfl (by decide) (by decide)
    revert once
    decide
  · intro covered
    have twice := covered daily rfl 0 rfl (by decide) (by decide)
    revert twice
    decide

section Prompt

variable {clock : Clock} {skew delay period deadline ready : Int} {ticks : List Tick}

/-- Each tick succeeds, reads the clock after the same delay and is done before the next
deadline. -/
def Prompt (delay period : Int) (ticks : List Tick) : Prop :=
  ∀ tick ∈ ticks, tick.succeeds = true ∧ tick.before = delay ∧ delay + tick.after ≤ period

private theorem readings_even (steady : ∀ t, clock.shows t = t + skew)
    (prompt : Prompt delay period ticks)
    (before : ready ≤ deadline) :
    (readings clock period deadline ready ticks).IsChain (fun x y => y = x + period) ∧
      ∀ x ∈ (readings clock period deadline ready ticks).head?, x = deadline + delay + skew := by
  induction ticks generalizing deadline ready with
  | nil => exact ⟨.nil, nofun⟩
  | cons tick ticks ih =>
    obtain ⟨⟨succeeds, delayed, done⟩, later⟩ := forall_mem_cons.mp prompt
    have fired : max deadline ready = deadline := by omega
    rw [readings, fired, if_pos succeeds, if_pos (by omega), steady, delayed]
    obtain ⟨chain, first⟩ := ih later
      (show deadline + delay + tick.after ≤ deadline + period by omega)
    refine ⟨isChain_cons.mpr ⟨fun y second => ?_, chain⟩, by simp⟩
    rw [first y second]
    omega

/-- Of evenly spaced readings from before a fire on, the first from it on comes within a period. -/
private theorem dropWhile_even {l : List Int} {due : Int}
    (even : l.IsChain (fun x y => y = x + period))
    (early : ∀ x ∈ l.head?, x < due + period) {first : Int} {rest : List Int}
    (split : l.dropWhile (· < due) = first :: rest) :
    first < due + period ∧ ∀ second ∈ rest.head?, due + period ≤ second := by
  induction l with
  | nil => cases split
  | cons x l ih =>
    obtain ⟨next, even⟩ := isChain_cons.mp even
    by_cases passed : x < due
    · rw [dropWhile_cons_of_pos (by simpa using passed)] at split
      refine ih even (fun y second => ?_) split
      rw [next y second]
      omega
    · rw [dropWhile_cons_of_neg (by simpa using passed)] at split
      obtain ⟨rfl, rfl⟩ := List.cons.inj split
      refine ⟨early x rfl, fun second is => ?_⟩
      rw [next second is]
      omega

/-- With prompt ticks and a steady clock, a schedule whose fires are a tick or more apart is covered
once. -/
theorem prompt_coveredOnce (steady : ∀ t, clock.shows t = t + skew) (positive : 0 < cfg.tickSecs)
    (prompt : Prompt delay (cfg.tickSecs * 1000) ticks)
    (apart : ∀ cron, fromStr schedule = some cron → ∀ fire later, cron.fires fire →
      cron.fires later → fire < later → fire + cfg.tickSecs * 1000 ≤ later) (start : Int) :
    CoveredOnce fromStr cfg ident schedule (spawn clock cfg start ticks) := by
  have period : (max cfg.tickSecs 1 * 1000 : Int) = cfg.tickSecs * 1000 := by omega
  have ordered := (readings_ordered clock (cfg.tickSecs * 1000) start start ticks).of_cons
  have even := (readings_even steady prompt (Int.le_refl start)).1
  rintro cron parsed fire fires ⟨reading, member, early⟩
  rw [spawn, period] at member ⊢
  refine (countP_eq_one_iff (findsDue_iff parsed fires) (fun _ _ => Fresh.earlier) ordered).mpr
    fun first rest split => ?_
  have head : ∀ x ∈ (readings clock (cfg.tickSecs * 1000) start start ticks).head?,
      x < effectiveFire cfg ident fire + cfg.tickSecs * 1000 := by
    intro x is
    obtain ⟨l, shape⟩ := head?_eq_some_iff.mp is
    rw [shape] at member ordered
    have before : x ≤ reading := by
      rcases mem_cons.mp member with rfl | later
      · exact Int.le_refl _
      · exact rel_of_pairwise_cons ordered later
    omega
  obtain ⟨soon, late⟩ := dropWhile_even even head split
  refine ⟨⟨soon, fun later firesLater follows => ?_⟩, fun second is fresh => ?_⟩
  · have := apart cron parsed fire later fires firesLater follows
    unfold effectiveFire at soon ⊢
    omega
  · have := late second is
    have := fresh.1
    omega

theorem daily_covered : CoveredOnce (fun _ => some daily) ⟨60, 0⟩ "t" "0 0 * * *"
    (spawn ⟨id, id⟩ ⟨60, 0⟩ (-30000) [⟨0, 0, true⟩, ⟨0, 0, true⟩]) := by
  have steady (t : Int) : t = t + 0 := (Int.add_zero t).symm
  have prompt : Prompt 0 60000 [⟨0, 0, true⟩, ⟨0, 0, true⟩] := by simp [Prompt]
  refine prompt_coveredOnce steady (by decide) prompt ?_ _
  rintro _ ⟨⟩ fire later fires firesLater follows
  change fire % 86400000 = 0 at fires
  change later % 86400000 = 0 at firesLater
  dsimp only
  omega

end Prompt

end Sqe.Coordinator.MaintenanceSchedule
