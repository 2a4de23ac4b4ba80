/- GID: Sqe/Coordinator/RateLimiter
   generality: I
   digest: The bounded keyed rate limiter decides as one token bucket per identity. -/

import Mathlib.Algebra.Order.Ring.Nat
import Mathlib.Data.List.Induction

/-!
Times are nanoseconds. A call is decided at the one time it is made. A bucket is taken to follow
its quota exactly.
-/

set_option autoImplicit false

namespace Sqe.Coordinator.RateLimiter

open List

structure Quota where
  replenishInterval : Nat
  burstSize : Nat

/-- `Duration::MAX`. -/
def durationMax : Nat := (2 ^ 64 - 1) * 10 ^ 9 + 999999999

def rateLimitPruneInterval : Nat := 60 * 10 ^ 9

variable (quota : Quota)

/-- The product saturates. -/
def Quota.idleRetention : Nat :=
  max (min (quota.replenishInterval * quota.burstSize) durationMax) rateLimitPruneInterval

/-- A bucket is the time at which it is full again. A refusal leaves it as it is. -/
def Quota.check (now bucket : Nat) : Bool × Nat :=
  let next := max bucket now + quota.replenishInterval
  if next ≤ now + quota.replenishInterval * quota.burstSize then (true, next) else (false, bucket)

/-- A text by its bytes; it is shorter than the address space. -/
abbrev Part := { bytes : List UInt8 // bytes.length < 2 ^ 64 }

def toBeBytes (n : Nat) : List UInt8 := [7, 6, 5, 4, 3, 2, 1, 0].map fun i => .ofNat (n / 256 ^ i)

/-- What is hashed: each part behind its length. -/
def encode (parts : List Part) : List UInt8 :=
  parts.flatMap fun part => toBeBytes part.1.length ++ part.1

structure Call where
  parts : List Part
  now : UInt64
  /-- A call panicked with the lock held. -/
  poisoned : Bool

inductive Decision
  | allowed
  | quota
  | capacity
  deriving DecidableEq

def ofAllowed (allowed : Bool) : Decision := if allowed then .allowed else .quota

section Limiter

variable {Key : Type} [DecidableEq Key]

structure KeyBucket where
  limiter : Nat
  lastSeen : Nat

/-- The map of buckets, by its keys and what each of them has. -/
structure KeyedBuckets (Key : Type) where
  keys : List Key
  bucket : Key → KeyBucket
  lastPrune : Nat

structure BoundedKeyedLimiter (Key : Type) where
  quota : Quota
  maxKeys : Nat
  sha256 : List UInt8 → Key

variable (limiter : BoundedKeyedLimiter Key)

def prune (now : Nat) (state : KeyedBuckets Key) : KeyedBuckets Key :=
  if rateLimitPruneInterval ≤ now - state.lastPrune then
    { state with
      keys := state.keys.filter fun key =>
        decide (now - (state.bucket key).lastSeen < limiter.quota.idleRetention)
      lastPrune := now }
  else state

def KeyedBuckets.insert (state : KeyedBuckets Key) (key : Key) (bucket : KeyBucket) :
    KeyedBuckets Key :=
  { state with
    keys := if key ∈ state.keys then state.keys else key :: state.keys
    bucket := Function.update state.bucket key bucket }

def checkParts (state : KeyedBuckets Key) (call : Call) : Decision × KeyedBuckets Key :=
  if call.poisoned then (.capacity, state)
  else
    let key := limiter.sha256 (encode call.parts)
    let now := call.now.toNat
    let state := prune limiter now state
    if key ∉ state.keys ∧ limiter.maxKeys ≤ state.keys.length then (.capacity, state)
    else
      -- a bucket that was never used is full
      let state := if key ∈ state.keys then state else state.insert key ⟨0, now⟩
      let checked := limiter.quota.check now (state.bucket key).limiter
      (ofAllowed checked.1, state.insert key ⟨checked.2, now⟩)

/-- The calls made so far with what was decided on each, and the state they lead to. -/
def run (start : Nat) (calls : List Call) : List (Call × Decision) × KeyedBuckets Key :=
  calls.foldl
    (fun reached call =>
      let done := checkParts limiter reached.2 call
      (reached.1 ++ [(call, done.1)], done.2))
    ([], ⟨[], fun _ => ⟨0, 0⟩, start⟩)

/-- A bucket of its own for one identity of the parts, from the start on. A call that is refused
for capacity is not put to it. -/
def idealBucket {Id : Type} [DecidableEq Id] (identity : List Part → Id) (own : Id)
    (history : List (Call × Decision)) : Nat :=
  history.foldl
    (fun bucket entry =>
      if identity entry.1.parts = own ∧ entry.2 ≠ .capacity then
        (quota.check entry.1.now.toNat bucket).2
      else bucket)
    0

def idealDecision (history : List (Call × Decision)) (call : Call) : Decision :=
  ofAllowed (quota.check call.now.toNat (idealBucket quota id call.parts history)).1

end Limiter

private theorem toBeBytes_inj {m n : Nat} (small : m < 2 ^ 64) (small' : n < 2 ^ 64)
    (same : toBeBytes m = toBeBytes n) : m = n := by
  simp only [toBeBytes, map_cons, map_nil, List.cons.injEq, and_true,
    UInt8.ofNat_eq_iff_mod_eq_toNat, UInt8.toNat_ofNat'] at same
  omega

private theorem encode_injective : Function.Injective encode := by
  intro parts
  induction parts with
  | nil =>
    intro other same
    cases other with
    | nil => rfl
    | cons => simp [encode, toBeBytes] at same
  | cons part rest ih =>
    intro other same
    cases other with
    | nil => simp [encode, toBeBytes] at same
    | cons part' rest' =>
      simp only [encode, flatMap_cons, append_assoc] at same
      obtain ⟨header, same⟩ := append_inj same rfl
      have length := toBeBytes_inj part.2 part'.2 header
      obtain ⟨text, later⟩ := append_inj same length
      rw [Subtype.ext text, ih later]

section Check

variable {quota : Quota} {now a b : Nat}

private theorem check_le : (quota.check now a).2 ≤
    max a (now + quota.replenishInterval * quota.burstSize) := by
  fun_cases Quota.check quota now a <;> grind

variable (quota) in
private theorem check_alike (alike : max a now = max b now) :
    (quota.check now a).1 = (quota.check now b).1 ∧
      max (quota.check now a).2 now = max (quota.check now b).2 now := by
  simp only [Quota.check, alike]
  split <;> simp [alike]

end Check

section Limiter

variable {Key : Type} [DecidableEq Key] {limiter : BoundedKeyedLimiter Key}
  {history : List (Call × Decision)} {state : KeyedBuckets Key} {time now : Nat} {call : Call}

private theorem idealBucket_snoc (identity : List Part → Key) (own : Key) (decision : Decision) :
    idealBucket quota identity own (history ++ [(call, decision)]) =
      if identity call.parts = own ∧ decision ≠ .capacity then
        (quota.check call.now.toNat (idealBucket quota identity own history)).2
      else idealBucket quota identity own history := by
  simp [idealBucket]

private theorem idealBucket_injective {identity : List Part → Key}
    (injective : Function.Injective identity) (parts : List Part) :
    idealBucket quota identity (identity parts) history = idealBucket quota id parts history := by
  simp [idealBucket, injective.eq_iff]

variable (limiter) in
abbrev hashed (parts : List Part) : Key := limiter.sha256 (encode parts)

/-- The bucket of a key, a new one where none is stored. -/
def KeyedBuckets.current (state : KeyedBuckets Key) (key : Key) : Nat :=
  if key ∈ state.keys then (state.bucket key).limiter else 0

variable (limiter history state) in
/-- From the time on, the current buckets decide as the ideal ones. -/
structure Tracks (time : Nat) : Prop where
  bounded : state.keys.length ≤ limiter.maxKeys
  alike : ∀ key, max (state.current key) time =
    max (idealBucket limiter.quota (hashed limiter) key history) time
  /-- A bucket is full one burst after it was last used. -/
  idle : ∀ key ∈ state.keys, (state.bucket key).lastSeen ≤ time ∧ (state.bucket key).limiter ≤
    (state.bucket key).lastSeen + limiter.quota.replenishInterval * limiter.quota.burstSize

private theorem Tracks.later (tracks : Tracks limiter history state time) (after : time ≤ now) :
    Tracks limiter history state now := by
  refine ⟨tracks.bounded, fun key => ?_, fun key stored => ?_⟩
  · have alike := tracks.alike key
    omega
  · exact (tracks.idle key stored).imp_left (Nat.le_trans · after)

private theorem Tracks.prune (tracks : Tracks limiter history state now) (early : now < 2 ^ 64) :
    Tracks limiter history (RateLimiter.prune limiter now state) now := by
  fun_cases RateLimiter.prune limiter now state
  case case2 => exact tracks
  refine ⟨Nat.le_trans (length_filter_le ..) tracks.bounded, fun key => ?_,
    fun key stored => tracks.idle key (mem_filter.mp stored).1⟩
  rw [← tracks.alike key]
  simp only [KeyedBuckets.current, mem_filter, decide_eq_true_eq]
  by_cases stored : key ∈ state.keys
  · simp only [stored, true_and, if_true]
    split
    next => rfl
    next old =>
      -- what is dropped was not used for the retention, and so for a whole burst
      have filled := (tracks.idle _ stored).2
      have large : 2 ^ 64 ≤ durationMax := by decide
      simp only [Quota.idleRetention, rateLimitPruneInterval] at old
      omega
  · simp [stored]

private theorem Tracks.refused (tracks : Tracks limiter history state now) :
    Tracks limiter (history ++ [(call, .capacity)]) state now :=
  ⟨tracks.bounded, fun key => by simpa [idealBucket_snoc] using tracks.alike key, tracks.idle⟩

private theorem current_insert (key other : Key) (bucket : KeyBucket) :
    (state.insert key bucket).current other =
      if other = key then bucket.limiter else state.current other := by
  by_cases own : other = key
  · simp only [KeyedBuckets.current, KeyedBuckets.insert, own]
    split <;> simp_all
  · simp only [KeyedBuckets.current, KeyedBuckets.insert, Function.update_of_ne own, if_neg own]
    split <;> simp [own]

private theorem Tracks.insert (tracks : Tracks limiter history state now) {key : Key}
    {bucket : KeyBucket} {history' : List (Call × Decision)}
    (room : key ∈ state.keys ∨ state.keys.length < limiter.maxKeys)
    (alike : ∀ other, max (if other = key then bucket.limiter else state.current other) now =
      max (idealBucket limiter.quota (hashed limiter) other history') now)
    (idle : bucket.lastSeen ≤ now ∧ bucket.limiter ≤ bucket.lastSeen +
      limiter.quota.replenishInterval * limiter.quota.burstSize) :
    Tracks limiter history' (state.insert key bucket) now := by
  refine ⟨?_, fun other => by rw [current_insert, alike other], fun other stored => ?_⟩
  · simp only [KeyedBuckets.insert]
    split
    next => exact tracks.bounded
    next absent => exact room.resolve_left absent
  · by_cases own : other = key
    · simpa [KeyedBuckets.insert, own] using idle
    · have earlier : other ∈ state.keys := by
        simp only [KeyedBuckets.insert] at stored
        split at stored <;> simp_all
      simpa [KeyedBuckets.insert, Function.update_of_ne own] using tracks.idle other earlier

private theorem checkParts_ideal (tracks : Tracks limiter history state call.now.toNat) :
    ((checkParts limiter state call).1 = .capacity ∨ (checkParts limiter state call).1 =
      ofAllowed (limiter.quota.check call.now.toNat
        (idealBucket limiter.quota (hashed limiter) (hashed limiter call.parts) history)).1) ∧
      Tracks limiter (history ++ [(call, (checkParts limiter state call).1)])
        (checkParts limiter state call).2 call.now.toNat := by
  have pruned := tracks.prune call.now.toNat_lt
  fun_cases checkParts limiter state call
  case case1 => exact ⟨.inl rfl, tracks.refused⟩
  case case2 => exact ⟨.inl rfl, pruned.refused⟩
  case case3 key now kept room state' checked =>
    have admitted : Tracks limiter history state' now ∧ key ∈ state'.keys := by
      simp only [state']
      split
      next stored => exact ⟨pruned, stored⟩
      next absent =>
        refine ⟨pruned.insert (.inr ?_) (fun other => ?_) ⟨Nat.le_refl _, Nat.zero_le _⟩, ?_⟩
        · exact Nat.lt_of_not_le fun crowded => room ⟨absent, crowded⟩
        · rw [← pruned.alike other]
          split
          next own => rw [own, KeyedBuckets.current, if_neg absent]
          next => rfl
        · simp [KeyedBuckets.insert, absent]
    obtain ⟨tracks, stored⟩ := admitted
    have alike := tracks.alike key
    rw [KeyedBuckets.current, if_pos stored] at alike
    obtain ⟨same, next⟩ := check_alike limiter.quota alike
    refine ⟨.inr (by rw [← same]), tracks.insert (.inl stored) (fun other => ?_) ?_⟩
    · have decided : ofAllowed checked.1 ≠ .capacity := by cases checked.1 <;> nofun
      rw [idealBucket_snoc]
      by_cases own : hashed limiter call.parts = other
      · subst own
        simpa [decided, key] using next
      · have apart : other ≠ key := fun same => own same.symm
        simpa [own, apart] using tracks.alike other
    · obtain ⟨seen, filled⟩ := tracks.idle key stored
      refine ⟨Nat.le_refl _, Nat.le_trans check_le ?_⟩
      simp only
      omega

variable (limiter) in
private theorem tracks_run (start : Nat) {calls : List Call}
    (ordered : calls.Pairwise fun a b => a.now ≤ b.now)
    (after : ∀ c ∈ calls, c.now.toNat ≤ now) :
    Tracks limiter (run limiter start calls).1 (run limiter start calls).2 now := by
  induction calls using List.reverseRecOn generalizing now with
  | nil => exact ⟨Nat.zero_le _, fun _ => rfl, nofun⟩
  | append_singleton calls call ih =>
    obtain ⟨earlier, -, last⟩ := pairwise_append.mp ordered
    rw [run, foldl_append]
    have before := ih earlier fun c made => last c made call mem_cons_self
    exact (checkParts_ideal before).2.later (after call (by simp))

/-- Every call is refused for capacity or decided as a bucket decides that its parts have had to
themselves since the start. No more keys are stored than allowed, and no two lists of parts share
one. -/
theorem limiter_never_forgives (limiter : BoundedKeyedLimiter Key)
    (injective : Function.Injective limiter.sha256) (start : Nat) (calls : List Call) (call : Call)
    (ordered : (calls ++ [call]).Pairwise fun a b => a.now ≤ b.now) :
    ((checkParts limiter (run limiter start calls).2 call).1 = .capacity ∨
      (checkParts limiter (run limiter start calls).2 call).1 =
        idealDecision limiter.quota (run limiter start calls).1 call) ∧
      (checkParts limiter (run limiter start calls).2 call).2.keys.length ≤ limiter.maxKeys ∧
      ∀ parts parts', parts ≠ parts' →
        limiter.sha256 (encode parts) ≠ limiter.sha256 (encode parts') := by
  obtain ⟨earlier, -, last⟩ := pairwise_append.mp ordered
  have hashes : Function.Injective (hashed limiter) := injective.comp encode_injective
  obtain ⟨decided, tracks⟩ := checkParts_ideal
    (tracks_run limiter start earlier fun c made => last c made call mem_cons_self)
  rw [idealBucket_injective _ hashes] at decided
  exact ⟨decided, tracks.bounded, fun _ _ => hashes.ne⟩

/-- A limiter of one call a second, with room for one key. -/
def oneASecond : BoundedKeyedLimiter (List UInt8) := ⟨⟨10 ^ 9, 1⟩, 1, id⟩

def alice : Part := ⟨[97], by decide⟩

def bob : Part := ⟨[98], by decide⟩

/-- The second call is over the quota, and there is no room for the third. -/
def crowded : List Call := [⟨[alice], 1, false⟩, ⟨[alice], 2, false⟩, ⟨[bob], 3, false⟩]

/-- A minute after its last call the first key is dropped, and the other user is let in. -/
theorem second_call_refused :
    (run oneASecond 0 crowded).1.map (·.2) = [.allowed, .quota, .capacity] ∧
      (checkParts oneASecond (run oneASecond 0 crowded).2 ⟨[bob], 60000000002, false⟩).1 =
        .allowed ∧
      (checkParts oneASecond (run oneASecond 0 crowded).2
        ⟨[bob], 60000000002, false⟩).2.keys.length ≤ oneASecond.maxKeys :=
  ⟨by decide, by decide, (limiter_never_forgives oneASecond Function.injective_id 0 crowded
    ⟨[bob], 60000000002, false⟩ (by decide)).2.1⟩

/-- How many calls of the parts were allowed between two times. -/
def allowedWithin (parts : List Part) (first last : Nat) (history : List (Call × Decision)) : Nat :=
  history.countP fun entry => entry.1.parts = parts ∧ first ≤ entry.1.now.toNat ∧
    entry.1.now.toNat ≤ last ∧ entry.2 = .allowed

/-- Each of them keeps the bucket from being full for an interval more. -/
def Filled (identity : List Part → Key) (parts : List Part) (first last : Nat)
    (history : List (Call × Decision)) : Prop :=
  allowedWithin parts first last history = 0 ∨
    first + quota.replenishInterval * allowedWithin parts first last history ≤
      min (idealBucket quota identity (identity parts) history)
        (last + quota.replenishInterval * quota.burstSize)

private theorem Filled.snoc {identity : List Part → Key} {parts : List Part} {first last : Nat}
    {decision : Decision} (filled : Filled quota identity parts first last history)
    (decided : decision = .capacity ∨ decision = ofAllowed
      (quota.check call.now.toNat (idealBucket quota identity (identity call.parts) history)).1) :
    Filled quota identity parts first last (history ++ [(call, decision)]) := by
  unfold Filled at filled ⊢
  rw [idealBucket_snoc, allowedWithin, countP_append, ← allowedWithin, countP_singleton]
  generalize allowedWithin parts first last history = count at filled ⊢
  -- an allowed call moves the bucket on, from its own time at least; others lower none
  simp only [Quota.check, ofAllowed] at decided ⊢
  grind

/-- In no span of time are the parts allowed more calls than a burst and one for each interval,
however the keys are pruned and whatever else is called, under the same hash too. -/
theorem allowedWithin_le (limiter : BoundedKeyedLimiter Key) (start : Nat) (calls : List Call)
    (ordered : calls.Pairwise fun a b => a.now ≤ b.now) (parts : List Part) (first last : Nat) :
    limiter.quota.replenishInterval * allowedWithin parts first last (run limiter start calls).1 ≤
      last - first + limiter.quota.replenishInterval * limiter.quota.burstSize := by
  have filled :
      Filled limiter.quota (hashed limiter) parts first last (run limiter start calls).1 := by
    induction calls using List.reverseRecOn with
    | nil => exact .inl rfl
    | append_singleton calls call ih =>
      obtain ⟨earlier, -, latest⟩ := pairwise_append.mp ordered
      have tracks := tracks_run limiter start earlier fun c made => latest c made call mem_cons_self
      rw [run, foldl_append]
      exact (ih earlier).snoc _ (checkParts_ideal tracks).1
  rcases filled with none | filled
  · rw [none]
    exact Nat.zero_le _
  · omega

theorem oneASecond_allows_two :
    oneASecond.quota.replenishInterval * allowedWithin [alice] 0 (10 ^ 9)
      (run oneASecond 0 crowded).1 ≤ 2 * 10 ^ 9 :=
  allowedWithin_le oneASecond 0 crowded (by decide) [alice] 0 (10 ^ 9)

end Limiter

end Sqe.Coordinator.RateLimiter
