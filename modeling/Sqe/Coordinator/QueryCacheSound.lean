/- GID: Sqe/Coordinator/QueryCacheSound
   generality: G
   digest: In an orderly run a cache hit is of the last write and of the policy in force. -/

import Sqe.Coordinator.QueryCache

/-!
The invariant follows a cached key through the index: under each of its names it is in the index,
or a store has yet to put it there, or the write that took the bucket away has yet to evict it.
-/

set_option autoImplicit false

namespace Sqe.Coordinator.QueryCache

open List Option
open Function (update update_self update_of_ne)

variable {τ κ φ σ ω : Type}

abbrev Cache (τ κ φ : Type) := κ → Option (CachedResult τ φ)

/-- A write took the bucket away and has yet to evict the key. -/
def Doomed (writes : ω → WritePoint τ κ) (key : κ) (bucket : Text) : Prop :=
  ∃ w table version keys todo, writes w = .evicting table version bucket keys todo ∧ key ∈ todo

def PointSound (cache : Cache τ κ φ) : WritePoint τ κ → Prop
  | .evicting table version _ keys todo => (∀ key ∈ keys, key ∈ todo ∨ cache key = none) ∧
      ∀ key cached, cache key = some cached → table ∈ cached.reads →
        version ≤ cached.versions table ∨ key ∈ todo
  | .clearing _ _ => ∀ key, cache key = none
  | .invalidated table version => ∀ key cached, cache key = some cached → table ∈ cached.reads →
      version ≤ cached.versions table
  | _ => True

structure Sound (toLowercase : Text → Text) (s : State τ κ φ σ ω) : Prop where
  fresh : ∀ key cached, s.cache key = some cached → ∀ t ∈ cached.reads,
    s.returned t ≤ cached.versions t
  stamped : ∀ key cached, s.cache key = some cached →
    cached.policyFingerprint = cached.computedUnder
  indexed : ∀ key cached, s.cache key = some cached → ∀ name ∈ cached.tablesTouched,
    key ∈ s.tableIndex (canonicalTableKey toLowercase name) ∨ Pending s.selects key name ∨
      Doomed s.writes key (canonicalTableKey toLowercase name)
  points : ∀ w, PointSound s.cache (s.writes w)

variable {cache : Cache τ κ φ} {point : WritePoint τ κ} {key : κ} {w : ω} {version : Nat} {q : σ}
variable {table : τ} {bucket : Text}

private theorem of_inserted [DecidableEq κ] {key' : κ} {new cached : CachedResult τ φ}
    (found : update cache key (some new) key' = some cached) :
    key' = key ∧ cached = new ∨ key' ≠ key ∧ cache key' = some cached := by
  by_cases same : key' = key
  · rw [same, update_self] at found
    exact .inl ⟨same, (some.inj found).symm⟩
  · rw [update_of_ne same] at found
    exact .inr ⟨same, found⟩

private theorem of_evicted [DecidableEq κ] {key' : κ} {cached : CachedResult τ φ}
    (found : update cache key none key' = some cached) :
    key' ≠ key ∧ cache key' = some cached := by
  by_cases same : key' = key
  · rw [same, update_self] at found
    cases found
  · rw [update_of_ne same] at found
    exact ⟨same, found⟩

private theorem Pending.update [DecidableEq σ] {selects : σ → SelectPoint τ κ φ} {name : Text}
    (idle : ∀ key rest, selects q ≠ .indexing key rest) (point : SelectPoint τ κ φ)
    (pending : Pending selects key name) : Pending (update selects q point) key name := by
  obtain ⟨q', rest, at', member⟩ := pending
  refine ⟨q', rest, (update_of_ne ?_ _ _).trans at', member⟩
  rintro rfl
  exact idle _ _ at'

private theorem Doomed.update [DecidableEq ω] {writes : ω → WritePoint τ κ}
    (spared : ∀ table version keys todo,
      writes w = .evicting table version bucket keys todo → key ∉ todo)
    (point : WritePoint τ κ) (doomed : Doomed writes key bucket) :
    Doomed (update writes w point) key bucket := by
  obtain ⟨w', table, version, keys, todo, at', member⟩ := doomed
  refine ⟨w', table, version, keys, todo, (update_of_ne ?_ _ _).trans at', member⟩
  rintro rfl
  exact spared _ _ _ _ at' member

private theorem PointSound.shrink {cache' : Cache τ κ φ}
    (less : ∀ key cached, cache' key = some cached → cache key = some cached)
    (sound : PointSound cache point) : PointSound cache' point := by
  have gone {key : κ} (empty : cache key = none) : cache' key = none := by
    cases found : cache' key with
    | none => rfl
    | some cached => rw [less key cached found] at empty; cases empty
  cases point with
  | idle => trivial
  | committed => trivial
  | evicting table version bucket keys todo =>
    exact ⟨fun key member => (sound.1 key member).imp_right gone,
      fun key cached found => sound.2 key cached (less key cached found)⟩
  | clearing => exact fun key => gone (sound key)
  | invalidated => exact fun key cached found => sound key cached (less key cached found)

private theorem points_update [DecidableEq ω] {writes : ω → WritePoint τ κ}
    (points : ∀ w, PointSound cache (writes w))
    (sound : PointSound cache point) : ∀ w', PointSound cache (update writes w point w') := by
  intro w'
  by_cases same : w' = w
  · subst same
    rwa [update_self]
  · rw [update_of_ne same]
    exact points w'

variable {toLowercase : Text → Text} {s : State τ κ φ σ ω}

private theorem mem_unlisted [DecidableEq κ] {key' : κ} (other : key' ≠ key)
    (listed : key' ∈ s.tableIndex bucket) :
    key' ∈ s.unlisted toLowercase key bucket := by
  unfold State.unlisted
  split
  · exact listed
  · split
    · exact mem_filter.mpr ⟨listed, by simpa using other⟩
    · exact listed

section

variable (sound : Sound toLowercase s)
include sound

private theorem Sound.setSelect [DecidableEq σ]
    (idle : ∀ key rest, s.selects q ≠ .indexing key rest) (point : SelectPoint τ κ φ) :
    Sound toLowercase (s.setSelect q point) where
  fresh := sound.fresh
  stamped := sound.stamped
  indexed key cached found name member :=
    (sound.indexed key cached found name member).imp_right (.imp_left (.update idle point))
  points := sound.points

private theorem Sound.insert [DecidableEq κ] [DecidableEq σ] {plan : Plan τ}
    {versions : τ → Option Nat} {policy : φ}
    (at' : s.selects q = .running key plan versions (some policy))
    (complete : (reads plan).all (fun t => (versions t).isSome) = true)
    (inTime : StoresInTime s (s.selects q)) :
    Sound toLowercase { s with
      cache := update s.cache key (some (cachedResult plan versions policy s.policy))
      tableIndex := s.unlisted toLowercase key
      selects := update s.selects q (.indexing key (tablesTouched plan)) } := by
  rw [at'] at inTime
  obtain ⟨same, current, apart⟩ := inTime
  have known {t : τ} (member : t ∈ reads plan) : ∃ version, versions t = some version :=
    isSome_iff_exists.mp (all_eq_true.mp complete t member)
  have idle : ∀ key' rest, s.selects q ≠ .indexing key' rest := by simp [at']
  refine ⟨fun key' cached found t member => ?_, fun key' cached found => ?_,
    fun key' cached found name member => ?_, fun w => ?_⟩
  · rcases of_inserted found with ⟨rfl, rfl⟩ | ⟨-, old⟩
    · obtain ⟨version, read⟩ := known member
      simpa [cachedResult, read] using (current t member version read).1
    · exact sound.fresh key' cached old t member
  · rcases of_inserted found with ⟨rfl, rfl⟩ | ⟨-, old⟩
    · exact (some.inj same).symm
    · exact sound.stamped key' cached old
  · rcases of_inserted found with ⟨rfl, rfl⟩ | ⟨other, old⟩
    · exact .inr (.inl ⟨q, _, update_self .., member⟩)
    · exact (sound.indexed key' cached old name member).imp (mem_unlisted other)
        (.imp_left (.update idle _))
  · -- the new entry is not older than any invalidation that has begun
    have point := sound.points w
    have newest {t : τ} (member : t ∈ reads plan) (v : Nat)
        (begun : (s.writes w).begun = some (t, v)) :
        v ≤ (cachedResult plan versions policy s.policy).versions t := by
      obtain ⟨version, read⟩ := known member
      simpa [cachedResult, read] using (current t member version read).2 w v begun
    obtain ⟨kept, whole⟩ := apart w
    dsimp only
    cases shape : s.writes w with
    | idle => trivial
    | committed => trivial
    | evicting table version bucket keys todo =>
      rw [shape] at point kept
      refine ⟨fun key' member => ?_, fun key' cached found reading => ?_⟩
      · have distinct : key' ≠ key := fun same => kept (same ▸ member)
        exact (point.1 key' member).imp_right fun empty => by rwa [update_of_ne distinct]
      · rcases of_inserted found with ⟨rfl, rfl⟩ | ⟨-, old⟩
        · exact .inl (newest reading version (by rw [shape]; rfl))
        · exact point.2 key' cached old reading
    | clearing table version =>
      rw [shape] at whole
      cases whole
    | invalidated table version =>
      rw [shape] at point
      intro key' cached found reading
      rcases of_inserted found with ⟨rfl, rfl⟩ | ⟨-, old⟩
      · exact newest reading version (by rw [shape]; rfl)
      · exact point key' cached old reading

private theorem Sound.index [DecidableEq σ] {name : Text} {rest : List Text}
    (at' : s.selects q = .indexing key (name :: rest)) :
    Sound toLowercase { s with
      tableIndex := update s.tableIndex (canonicalTableKey toLowercase name)
        (key :: s.tableIndex (canonicalTableKey toLowercase name))
      selects := update s.selects q (.indexing key rest) } where
  fresh := sound.fresh
  stamped := sound.stamped
  indexed key' cached found name' member := by
    dsimp only
    rcases sound.indexed key' cached found name' member with
      there | ⟨q', rest', at'', later⟩ | doomed
    · left
      by_cases same : canonicalTableKey toLowercase name' = canonicalTableKey toLowercase name
      · rw [same, update_self]
        exact mem_cons_of_mem _ (same ▸ there)
      · rwa [update_of_ne same]
    · by_cases same : q' = q
      · subst same
        obtain ⟨rfl, rfl⟩ := SelectPoint.indexing.inj (at''.symm.trans at')
        rcases mem_cons.mp later with rfl | later
        · exact .inl (by rw [update_self]; exact mem_cons_self)
        · exact .inr (.inl ⟨q', rest, update_self .., later⟩)
      · exact .inr (.inl ⟨q', rest', (update_of_ne same _ _).trans at'', later⟩)
    · exact .inr (.inr doomed)
  points := sound.points

private theorem Sound.indexDone [DecidableEq σ] (at' : s.selects q = .indexing key []) :
    Sound toLowercase (s.setSelect q .idle) where
  fresh := sound.fresh
  stamped := sound.stamped
  indexed key' cached found name member := by
    refine (sound.indexed key' cached found name member).imp_right (.imp_left ?_)
    rintro ⟨q', rest, at'', later⟩
    refine ⟨q', rest, (update_of_ne ?_ _ _).trans at'', later⟩
    rintro rfl
    obtain ⟨-, rfl⟩ := SelectPoint.indexing.inj (at''.symm.trans at')
    cases later
  points := sound.points

private theorem Sound.shrink [DecidableEq ω]
    (less : ∀ key cached, cache key = some cached → s.cache key = some cached)
    {index : Text → List κ} (listed : ∀ key cached, cache key = some cached → ∀ bucket,
      key ∈ s.tableIndex bucket → key ∈ index bucket)
    (achieved : PointSound cache point)
    (spared : ∀ key cached, cache key = some cached → ∀ table version bucket keys todo,
      s.writes w = .evicting table version bucket keys todo → key ∈ todo →
      Doomed (update s.writes w point) key bucket) :
    Sound toLowercase { s with
      cache := cache, tableIndex := index, writes := update s.writes w point } where
  fresh key cached found := sound.fresh key cached (less key cached found)
  stamped key cached found := sound.stamped key cached (less key cached found)
  indexed key cached found name member := by
    refine (sound.indexed key cached (less key cached found) name member).imp
      (listed key cached found _) (.imp_right fun doomed => ?_)
    obtain ⟨w', table, version, keys, todo, at', later⟩ := doomed
    by_cases same : w' = w
    · subst same
      exact spared key cached found table version _ keys todo at' later
    · exact ⟨w', table, version, keys, todo, (update_of_ne same _ _).trans at', later⟩
  points := points_update (fun w => (sound.points w).shrink less) achieved

private theorem Sound.removeBucket [DecidableEq ω]
    {text : Text} (at' : s.writes w = .committed table version (some text))
    (finds : FindsReaders toLowercase s (s.writes w)) :
    let bucket := canonicalTableKey toLowercase text
    Sound toLowercase { s with
      tableIndex := update s.tableIndex bucket []
      writes := update s.writes w
        (.evicting table version bucket (s.tableIndex bucket) (s.tableIndex bucket)) } := by
  rw [at'] at finds
  obtain ⟨named, stored, alone⟩ := finds
  have outside : ∀ key (bucket : Text) table version keys todo,
      s.writes w = .evicting table version bucket keys todo → key ∉ todo := by simp [at']
  refine ⟨sound.fresh, sound.stamped, fun key cached found name member => ?_,
    points_update sound.points ⟨fun key member => .inl member, fun key cached found reading => ?_⟩⟩
  · dsimp only
    rcases sound.indexed key cached found name member with there | pending | doomed
    · by_cases same : canonicalTableKey toLowercase name = canonicalTableKey toLowercase text
      · rw [same] at there ⊢
        exact .inr (.inr ⟨w, table, version, _, _, update_self .., there⟩)
      · exact .inl (by rwa [update_of_ne same])
    · exact .inr (.inl pending)
    · exact .inr (.inr (doomed.update (outside key _) _))
  · -- a reader of the table is in the bucket: no store and no other write stands in between
    obtain ⟨name, member, same⟩ := named key cached found reading
    rcases sound.indexed key cached found name member with there | pending | doomed
    · exact .inr (same ▸ there)
    · exact absurd same (stored key name pending)
    · obtain ⟨w', t, v, keys, todo, there, -⟩ := doomed
      refine absurd ?_ (alone w')
      rw [there, same]
      rfl

private theorem Sound.evict [DecidableEq κ] [DecidableEq ω] {keys todo : List κ}
    (at' : s.writes w = .evicting table version bucket keys (key :: todo)) :
    Sound toLowercase { s with
      cache := update s.cache key none
      tableIndex := s.unlisted toLowercase key
      writes := update s.writes w (.evicting table version bucket keys todo) } := by
  have point := sound.points w
  rw [at'] at point
  have less (key' : κ) (cached) (found : update s.cache key none key' = some cached) :
      s.cache key' = some cached := (of_evicted found).2
  refine sound.shrink less (fun _ _ found _ => mem_unlisted (of_evicted found).1)
    ⟨fun key' member => ?_, fun key' cached found reading => ?_⟩ ?_
  · by_cases same : key' = key
    · exact .inr (by rw [same, update_self])
    · rw [update_of_ne same]
      exact (point.1 key' member).imp_left fun listed => (mem_cons.mp listed).resolve_left same
  · obtain ⟨distinct, old⟩ := of_evicted found
    exact (point.2 key' cached old reading).imp_right
      fun listed => (mem_cons.mp listed).resolve_left distinct
  · intro key' cached found table' version' bucket' keys' todo' at'' listed
    obtain ⟨rfl, rfl, rfl, rfl, rfl⟩ := WritePoint.evicting.inj (at''.symm.trans at')
    exact ⟨w, _, _, _, _, update_self .., (mem_cons.mp listed).resolve_left (of_evicted found).1⟩

private theorem Sound.retain [DecidableEq κ] [DecidableEq ω]
    {keys : List κ} (at' : s.writes w = .evicting table version bucket keys []) :
    Sound toLowercase { s with
      tableIndex := fun name => (s.tableIndex name).filter fun key => key ∉ keys
      writes := update s.writes w (.invalidated table version) } := by
  have point := sound.points w
  rw [at'] at point
  refine ⟨sound.fresh, sound.stamped, fun key cached found name member => ?_,
    points_update sound.points fun key cached found reading =>
      (point.2 key cached found reading).resolve_right (not_mem_nil)⟩
  rcases sound.indexed key cached found name member with there | pending | doomed
  · -- the keys that leave the index have all been evicted
    refine .inl (mem_filter.mpr ⟨there, ?_⟩)
    simp only [decide_eq_true_eq]
    intro gone
    rw [(point.1 key gone).resolve_left (not_mem_nil)] at found
    cases found
  · exact .inr (.inl pending)
  · refine .inr (.inr (doomed.update ?_ _))
    intro table' version' keys' todo' at'' listed
    obtain ⟨-, -, -, -, rfl⟩ := WritePoint.evicting.inj (at''.symm.trans at')
    cases listed

private theorem Sound.clearIndex [DecidableEq ω] (at' : s.writes w = .clearing table version) :
    Sound toLowercase { s with
      tableIndex := fun _ => []
      writes := update s.writes w (.invalidated table version) } := by
  have empty := sound.points w
  rw [at'] at empty
  have none {key : κ} {cached : CachedResult τ φ} (found : s.cache key = some cached) : False := by
    rw [empty key] at found
    cases found
  exact ⟨sound.fresh, sound.stamped, fun key cached found => (none found).elim,
    points_update sound.points fun key cached found => (none found).elim⟩

private theorem Sound.success [DecidableEq τ] [DecidableEq ω]
    (at' : s.writes w = .invalidated table version) :
    Sound toLowercase { s with
      returned := update s.returned table (max (s.returned table) version)
      writes := update s.writes w .idle } := by
  have current := sound.points w
  rw [at'] at current
  refine ⟨fun key cached found t member => ?_, sound.stamped,
    fun key cached found name member => ?_,
    points_update sound.points trivial⟩
  · dsimp only
    have before := sound.fresh key cached found t member
    by_cases same : t = table
    · subst same
      rw [update_self]
      exact Nat.max_le.mpr ⟨before, current key cached found member⟩
    · rwa [update_of_ne same]
  · refine (sound.indexed key cached found name member).imp_right (.imp_right (.update ?_ _))
    simp [at']

private theorem sound_step [DecidableEq τ] [DecidableEq κ] [DecidableEq σ] [DecidableEq ω]
    {e : Event τ κ φ σ ω} {s' : State τ κ φ σ ω}
    (orderly : Orderly toLowercase s e) (taken : step toLowercase s e = some s') :
    Sound toLowercase s' := by
  revert taken
  -- the steps that are taken, in the order of `step`
  fun_cases step toLowercase s e <;> rintro ⟨⟩
  next at' => exact sound.setSelect (by simp [at']) _
  next at' _ => exact sound.setSelect (by simp [at']) _
  next at' => exact sound.setSelect (by simp [at']) _
  next at' complete => exact sound.insert at' complete orderly
  next at' => exact sound.index at'
  next at' => exact sound.indexDone at'
  next at' => exact sound.setSelect (by simp [at']) _
  next at' =>
    exact ⟨sound.fresh, sound.stamped, fun key cached found name member =>
      (sound.indexed key cached found name member).imp_right
        (.imp_right (.update (by simp [at']) _)), points_update sound.points trivial⟩
  next at' _ => exact sound.removeBucket at' orderly
  next at' => exact sound.evict at'
  next at' => exact sound.retain at'
  · have gone (key : κ) (cached) (found : (none : Option (CachedResult τ φ)) = some cached) :
        s.cache key = some cached := nomatch found
    exact sound.shrink gone (fun key cached found => nomatch found) (fun key => rfl)
      (fun key cached found => nomatch found)
  next at' => exact sound.clearIndex at'
  next at' => exact sound.success at'
  · exact ⟨sound.fresh, sound.stamped, sound.indexed, sound.points⟩
  · exact ⟨fun key' cached found => sound.fresh key' cached (of_evicted found).2,
      fun key' cached found => sound.stamped key' cached (of_evicted found).2,
      fun key' cached found name member =>
        (sound.indexed key' cached (of_evicted found).2 name member).imp_left
          (mem_unlisted (of_evicted found).1),
      fun w => (sound.points w).shrink fun _ _ found => (of_evicted found).2⟩

end

private theorem sound_of_start (start : Start s) : Sound toLowercase s := by
  obtain ⟨empty, -, -, idle, -⟩ := start
  have none {key : κ} {cached : CachedResult τ φ} (found : s.cache key = some cached) : False := by
    rw [empty key] at found
    cases found
  refine ⟨fun _ _ found => (none found).elim, fun _ _ found => (none found).elim,
    fun _ _ found => (none found).elim, fun w => ?_⟩
  rw [idle w]
  trivial

/-- In an orderly run a cache hit returns rows of no version older than a write that has returned,
for every table the SELECT reads, and rows computed under the policy in force. -/
theorem cache_hit_current [DecidableEq τ] [DecidableEq κ] [DecidableEq φ] [DecidableEq σ]
    [DecidableEq ω] (toLowercase : Text → Text)
    (reached : Library.Transition.Reachable Start (step toLowercase) (Orderly toLowercase) s)
    (key : κ) (policy : φ)
    (cached : CachedResult τ φ) (hit : lookupBound s key policy = some cached) :
    (∀ t ∈ cached.reads, s.returned t ≤ cached.versions t) ∧ cached.computedUnder = policy := by
  have sound : Sound toLowercase s := reached.invariant (fun _ => sound_of_start)
    fun _ _ _ sound orderly taken => sound_step sound orderly taken
  obtain ⟨found, stamp⟩ := filter_eq_some_iff.mp hit
  refine ⟨sound.fresh key cached found, ?_⟩
  rw [← sound.stamped key cached found]
  simpa using stamp

section Samples

def orders : Scan Unit := { tableName := "iceberg.public.orders".toList, table := () }

/-- A SELECT that scans the table, and one that reads it in a subquery expression. -/
def scanOrders : Plan Unit := .node (.tableScan orders) []

def filterByOrders : Plan Unit := .node (.other [orders]) []

def asciiLowercase (text : Text) : Text := text.map Char.toLower

def insertOrders : Statement := .insert "orders".toList

/-- One table, one key, one SELECT and one write at a time; the policy is told by a flag. -/
def begin : State Unit Unit Bool Unit Unit where
  head _ := 0
  policy := false
  cache _ := none
  tableIndex _ := []
  selects _ := .idle
  writes _ := .idle
  returned _ := 0

def run (plan : Plan Unit) : List (Event Unit Unit Bool Unit Unit) :=
  [.start () () plan, .read () () 0, .enforce ()]

def store (plan : Plan Unit) : List (Event Unit Unit Bool Unit Unit) :=
  .insert () :: (extractTableNames plan).map (fun _ => .index ()) ++ [.index ()]

/-- A write that finds no key in its bucket. -/
def write (statement : Statement) : List (Event Unit Unit Bool Unit Unit) :=
  [.commit () () statement, .removeBucket (), .retain (), .success ()]

/-- The hit of a lookup after the events: the version it was computed from and the last version
returned, the policy it was computed under and the one in force. -/
def served (events : List (Event Unit Unit Bool Unit Unit)) : Option (Nat × Nat × Bool × Bool) := do
  let s ← Library.Transition.follow (step asciiLowercase) (fun _ _ => True) begin events
  let cached ← lookupBound s () s.policy
  return (cached.versions (), s.returned (), cached.computedUnder, s.policy)

/-- Rows older than a write are served after it: it ran between the read and the store, its text
has an alias, a quote or is a whole DROP statement, or the table was read in a subquery. And rows
are served under a policy that changed before they were stored. -/
theorem superseded_result_served :
    served (run scanOrders ++ write insertOrders ++ store scanOrders) =
      some (0, 1, false, false) ∧
    served (run scanOrders ++ store scanOrders ++
      write (.delete "orders AS o".toList)) = some (0, 1, false, false) ∧
    served (run scanOrders ++ store scanOrders ++
      write (.insert "\"orders\"".toList)) = some (0, 1, false, false) ∧
    served (run scanOrders ++ store scanOrders ++ write (.drop "DROP TABLE orders".toList)) =
      some (0, 1, false, false) ∧
    served (run filterByOrders ++ store filterByOrders ++ write insertOrders) =
      some (0, 1, false, false) ∧
    served (run scanOrders ++ [.setPolicy true] ++ store scanOrders) =
      some (0, 0, false, true) := by
  refine ⟨?_, ?_, ?_, ?_, ?_, ?_⟩ <;> decide +kernel

/-- A SELECT that starts after a write has returned is served from the cache, and is current. -/
theorem later_result_served : ∃ s : State Unit Unit Bool Unit Unit, s.returned () = 1 ∧
    ∃ cached, lookupBound s () false = some cached ∧
      (∀ t ∈ cached.reads, s.returned t ≤ cached.versions t) ∧ cached.computedUnder = false := by
  have first : Library.Transition.Reachable Start (step asciiLowercase)
      (Orderly asciiLowercase) begin :=
    .start ⟨fun _ => rfl, fun _ => rfl, fun _ => rfl, fun _ => rfl, fun _ => rfl⟩
  have committed := first.follow_free [.commit () () insertOrders] (by simp [Orderly]) rfl
  have removed := committed.next (e := .removeBucket ())
    (by exact ⟨by simp [begin], by simp [Pending, begin], by simp [WritePoint.bucket]⟩) rfl
  have ran := removed.follow_free
    [.retain (), .success (), .start () () scanOrders, .read () () 1, .enforce ()]
    (by simp [Orderly]) rfl
  have current : ∀ version, some 1 = some version → 1 ≤ version :=
    fun version read => Nat.le_of_eq (some.inj read)
  have inserted := ran.next (e := .insert ())
    (by exact ⟨rfl, fun ⟨⟩ _ version read =>
      ⟨current version read, fun ⟨⟩ v begun => nomatch begun⟩,
      fun ⟨⟩ => ⟨not_mem_nil, rfl⟩⟩) rfl
  have stored := inserted.follow_free [.index (), .index ()] (by simp [Orderly]) rfl
  exact ⟨_, rfl, _, rfl, cache_hit_current asciiLowercase stored () false _ rfl⟩

end Samples

end Sqe.Coordinator.QueryCache
