/- GID: Sqe/Policy/AccessMonotone
   generality: I
   digest: What a change of a Ranger bundle can do to an access decision. -/

import Sqe.Policy.RangerStore

/-!
Access is granted when no policy blocks it and some policy opens it. A change of one policy is
judged by these two answers alone: what blocks more or opens less never turns a denial into a
grant.
-/

set_option autoImplicit false

namespace Sqe.Policy.RangerStore

open List

section Decision

variable (host : Host) (user : SessionUser) (database table accessType : String)
  (lastComponentFallback : Bool)

/-- The policy is an enabled access policy on the whole table. -/
def covers (fallback : Bool) (p : RangerPolicy) : Bool :=
  p.isEnabled && p.policyType == policyTypeAccess &&
    (policyMatchesTableWith host p database table fallback && columnResourceCoversTable p)

/-- The policy denies on its own. -/
def blocks (p : RangerPolicy) : Bool :=
  covers host database table lastComponentFallback p && denies host user accessType p

/-- The policy grants, if nothing denies. -/
def opens (p : RangerPolicy) : Bool :=
  covers host database table false p && allows host user accessType p

theorem accessGrantsTableType_iff (bundle : List RangerPolicy) :
    accessGrantsTableType host bundle user database table accessType lastComponentFallback = true ↔
      bundle.any (blocks host user database table accessType lastComponentFallback) = false ∧
        bundle.any (opens host user database table accessType) = true := by
  rw [accessGrantsTableType, matchingAccess, matchingAccess, Bool.and_eq_true, Bool.not_eq_true',
    any_filter, any_filter]
  rfl

end Decision

section Change

variable {host : Host} {user : SessionUser} {database table accessType : String}
  {lastComponentFallback : Bool} {p : RangerPolicy} {items : List AccessPolicyItem}

/-- Policies that block what the other ones block and open no more than they do. -/
structure Narrows (host : Host) (user : SessionUser) (accessType : String) (p q : RangerPolicy) :
    Prop where
  covers : ∀ database table fallback,
    RangerStore.covers host database table fallback q =
      RangerStore.covers host database table fallback p
  denies : denies host user accessType p = true → denies host user accessType q = true
  allows : allows host user accessType q = true → allows host user accessType p = true

theorem Narrows.grants {q : RangerPolicy} (narrows : Narrows host user accessType p q)
    (front back : List RangerPolicy)
    (granted : accessGrantsTableType host (front ++ q :: back) user database table accessType
      lastComponentFallback = true) :
    accessGrantsTableType host (front ++ p :: back) user database table accessType
      lastComponentFallback = true := by
  have blocked : blocks host user database table accessType lastComponentFallback p = true →
      blocks host user database table accessType lastComponentFallback q = true := by
    simp only [blocks, narrows.covers, Bool.and_eq_true]
    exact And.imp_right narrows.denies
  have opened : opens host user database table accessType q = true →
      opens host user database table accessType p = true := by
    simp only [opens, narrows.covers, Bool.and_eq_true]
    exact And.imp_right narrows.allows
  rw [accessGrantsTableType_iff] at granted ⊢
  grind

theorem applies_mono {more : List AccessPolicyItem} (added : items.Sublist more)
    (applied : applies user accessType items = true) : applies user accessType more = true := by
  obtain ⟨item, listed, holds⟩ := any_eq_true.mp applied
  exact any_eq_true.mpr ⟨item, added.subset listed, holds⟩

theorem widens_mono {more : List AccessPolicyItem} (added : items.Sublist more)
    (widened : widens user accessType items = true) : widens user accessType more = true := by
  obtain ⟨item, listed, holds⟩ := any_eq_true.mp widened
  exact any_eq_true.mpr ⟨item, added.subset listed, holds⟩

/-- The same items, some of them with further conditions. -/
def Conditioned (items conditioned : List AccessPolicyItem) : Prop :=
  Forall₂ (fun item item' : AccessPolicyItem => ∃ conditions,
    item.conditions.Sublist conditions ∧ item' = { item with conditions }) items conditioned

theorem Conditioned.applies {conditioned : List AccessPolicyItem}
    (attached : Conditioned items conditioned) :
    RangerStore.applies user accessType conditioned =
      RangerStore.applies user accessType items := by
  induction attached with
  | nil => rfl
  | cons head _ ih =>
    obtain ⟨-, -, rfl⟩ := head
    exact congrArg (_ || ·) ih

theorem Conditioned.widens {conditioned : List AccessPolicyItem}
    (attached : Conditioned items conditioned)
    (widened : RangerStore.widens user accessType conditioned = true) :
    RangerStore.widens user accessType items = true := by
  induction attached with
  | nil => exact widened
  | @cons item _ _ _ head _ ih =>
    obtain ⟨conditions, kept, rfl⟩ := head
    simp only [RangerStore.widens, any_cons, Bool.or_eq_true] at widened ih ⊢
    refine widened.imp (fun here => ?_) ih
    rw [Bool.and_eq_true, List.isEmpty_iff] at here
    rw [here.2, sublist_nil] at kept
    rw [Bool.and_eq_true, List.isEmpty_iff]
    exact ⟨here.1, kept⟩

/-- What becomes of a policy when one of its schedules can no longer be evaluated: it may become
unknown, and never active or inactive. -/
theorem policyScheduleActive_unevaluable {front back : List ValiditySchedule}
    {s s' : ValiditySchedule} (schedules : p.validitySchedules = front ++ s :: back)
    (unevaluable : scheduleCovers host s' = none) :
    policyScheduleActive host { p with validitySchedules := front ++ s' :: back } =
        policyScheduleActive host p ∨
      policyScheduleActive host { p with validitySchedules := front ++ s' :: back } = none := by
  by_cases elsewhere : (some true) ∈ (front ++ back).map (scheduleCovers host)
  · left
    have covered (s : ValiditySchedule) :
        ((front ++ s :: back).map (scheduleCovers host)).contains (some true) = true := by
      simp only [map_append, map_cons, contains_iff_mem, mem_append, mem_cons] at elsewhere ⊢
      exact elsewhere.imp_right .inr
    simp only [policyScheduleActive, schedules, covered, if_true]
  · right
    have inactive : ¬ ((front ++ s' :: back).map (scheduleCovers host)).contains (some true)
        = true := by
      simp only [map_append, mem_append, map_cons, contains_iff_mem,
        mem_cons, unevaluable] at elsewhere ⊢
      rintro (here | impossible | there)
      · exact elsewhere (.inl here)
      · cases impossible
      · exact elsewhere (.inr there)
    have unknown : ((front ++ s' :: back).map (scheduleCovers host)).contains none = true := by
      simp [unevaluable]
    simp only [policyScheduleActive]
    rw [if_neg inactive, unknown, if_neg (by simp)]

theorem narrows_of_items {q : RangerPolicy}
    (same : ∀ database table fallback, covers host database table fallback q =
      covers host database table fallback p)
    (schedules : q.validitySchedules = p.validitySchedules)
    (denyItems : applies user accessType p.denyPolicyItems = true →
      applies user accessType q.denyPolicyItems = true)
    (denyExceptions : widens user accessType q.denyExceptions = true →
      widens user accessType p.denyExceptions = true)
    (items : widens user accessType q.policyItems = true →
      widens user accessType p.policyItems = true)
    (exceptions : applies user accessType p.allowExceptions = true →
      applies user accessType q.allowExceptions = true) :
    Narrows host user accessType p q where
  covers := same
  denies denied := by
    simp only [denies, policyScheduleActive, schedules, Bool.and_eq_true, Bool.not_eq_true'] at *
    refine ⟨denied.1, denyItems denied.2.1, ?_⟩
    rw [Bool.eq_false_iff] at *
    exact fun lifted => denied.2.2 (denyExceptions lifted)
  allows allowed := by
    simp only [allows, policyScheduleActive, schedules, Bool.and_eq_true, Bool.not_eq_true'] at *
    refine ⟨allowed.1, items allowed.2.1, ?_⟩
    rw [Bool.eq_false_iff] at *
    exact fun excepted => allowed.2.2 (exceptions excepted)

theorem narrows_of_schedule {front back : List ValiditySchedule}
    {s s' : ValiditySchedule} (schedules : p.validitySchedules = front ++ s :: back)
    (unevaluable : scheduleCovers host s' = none) :
    Narrows host user accessType p { p with validitySchedules := front ++ s' :: back } where
  covers _ _ _ := rfl
  denies denied := by
    rcases policyScheduleActive_unevaluable schedules unevaluable with same | unknown
    · simp only [denies, same] at denied ⊢
      exact denied
    · simp only [denies, unknown, Bool.and_eq_true] at denied ⊢
      exact ⟨rfl, denied.2⟩
  allows allowed := by
    rcases policyScheduleActive_unevaluable schedules unevaluable with same | unknown
    · simp only [allows, same] at allowed ⊢
      exact allowed
    · simp only [allows, unknown, Bool.and_eq_true] at allowed
      cases allowed.1

end Change

/-- Deny items and allow exceptions never open access, allow items and deny exceptions never close
it, conditions never open it, and neither does a schedule that can no longer be evaluated. -/
theorem access_deny_dominant (host : Host) (user : SessionUser)
    (database table accessType : String) (lastComponentFallback : Bool) (p : RangerPolicy)
    (front back : List RangerPolicy) :
    let grants := fun bundle => accessGrantsTableType host bundle user database table accessType
      lastComponentFallback = true
    -- a policy of deny items and allow exceptions, or more of them in a policy
    (p.policyItems = [] → p.denyExceptions = [] →
      grants (front ++ p :: back) → grants (front ++ back)) ∧
    (∀ denyPolicyItems allowExceptions, p.denyPolicyItems.Sublist denyPolicyItems →
      p.allowExceptions.Sublist allowExceptions →
      grants (front ++ { p with denyPolicyItems, allowExceptions } :: back) →
        grants (front ++ p :: back)) ∧
    -- a policy of allow items and deny exceptions, or more of them in a policy
    (p.denyPolicyItems = [] → p.allowExceptions = [] →
      grants (front ++ back) → grants (front ++ p :: back)) ∧
    (∀ policyItems denyExceptions, p.policyItems.Sublist policyItems →
      p.denyExceptions.Sublist denyExceptions → grants (front ++ p :: back) →
        grants (front ++ { p with policyItems, denyExceptions } :: back)) ∧
    -- further conditions on any of the items
    (∀ policyItems denyPolicyItems allowExceptions denyExceptions,
      Conditioned p.policyItems policyItems → Conditioned p.denyPolicyItems denyPolicyItems →
      Conditioned p.allowExceptions allowExceptions → Conditioned p.denyExceptions denyExceptions →
      grants (front ++
        { p with policyItems, denyPolicyItems, allowExceptions, denyExceptions } :: back) →
        grants (front ++ p :: back)) ∧
    -- a schedule that can no longer be evaluated
    (∀ before after s s', p.validitySchedules = before ++ s :: after →
      scheduleCovers host s' = none →
      grants (front ++ { p with validitySchedules := before ++ s' :: after } :: back) →
        grants (front ++ p :: back)) := by
  intro grants
  refine ⟨?_, ?_, ?_, ?_, ?_, ?_⟩
  · intro noItems _ granted
    have shut : allows host user accessType p = false := by simp [allows, widens, noItems]
    simp only [grants, accessGrantsTableType_iff] at granted ⊢
    simp_all [opens]
  · intro denyItems exceptions moreDenies moreExceptions granted
    have narrows : Narrows host user accessType p
        { p with denyPolicyItems := denyItems, allowExceptions := exceptions } :=
      narrows_of_items (fun _ _ _ => rfl) rfl (applies_mono moreDenies) id id
        (applies_mono moreExceptions)
    exact narrows.grants front back granted
  · intro noItems _ granted
    have harmless : denies host user accessType p = false := by simp [denies, applies, noItems]
    have free : blocks host user database table accessType lastComponentFallback p = false := by
      rw [blocks, harmless, Bool.and_false]
    simp only [grants, accessGrantsTableType_iff] at granted ⊢
    grind
  · intro items exceptions moreItems moreExceptions granted
    have narrows : Narrows host user accessType
        { p with policyItems := items, denyExceptions := exceptions } p :=
      narrows_of_items (fun _ _ _ => rfl) rfl id (widens_mono moreExceptions)
        (widens_mono moreItems) id
    exact narrows.grants front back granted
  · intro items denyItems allowExceptions denyExceptions onItems onDenies onAllowed onDenied granted
    have narrows : Narrows host user accessType p { p with
        policyItems := items
        denyPolicyItems := denyItems
        allowExceptions := allowExceptions
        denyExceptions := denyExceptions } :=
      narrows_of_items (fun _ _ _ => rfl) rfl (fun applied => onDenies.applies.trans applied)
        onDenied.widens onItems.widens (fun applied => onAllowed.applies.trans applied)
    exact narrows.grants front back granted
  · intro before after s s' schedules unevaluable granted
    exact (narrows_of_schedule schedules unevaluable).grants front back granted

def plainHost : Host where
  toLowercase := id
  parseSqlPredicate _ := none
  Zone := Unit
  utc := ()
  parseZone _ := none
  instant _ _ := none
  now := 0

/-- Items of one user that name the access type `select`. -/
def selectItem (user : String) (conditions : List String) : AccessPolicyItem :=
  ⟨⟨[user], [], []⟩, [⟨"select", true⟩], conditions⟩

/-- An access policy on every table, open at all times. -/
def accessPolicy (items denies : List AccessPolicyItem) : RangerPolicy where
  policyType := 0
  policyPriority := 0
  isEnabled := true
  database := some ⟨["*"], false⟩
  table := some ⟨["*"], false⟩
  column := none
  dataMaskPolicyItems := []
  rowFilterPolicyItems := []
  policyItems := items
  denyPolicyItems := denies
  allowExceptions := []
  denyExceptions := []
  validitySchedules := [⟨none, none, none, []⟩, ⟨none, none, none, []⟩]

def annReads (bundle : List RangerPolicy) : Bool :=
  accessGrantsTableType plainHost bundle ⟨"ann", [], []⟩ "sales" "orders" "select" true

theorem access_deny_dominant_select : let ann := selectItem "ann" []
    let bob := selectItem "bob" []
    annReads [accessPolicy [ann] []] = true ∧ annReads [accessPolicy [ann, ann] []] = true ∧
      annReads [accessPolicy [ann] [], accessPolicy [bob] []] = true ∧
      annReads [accessPolicy [bob, ann] []] = true ∧ annReads [accessPolicy [ann, bob] []] = true ∧
      annReads [accessPolicy [ann] [bob]] = true := by
  intro ann bob
  have whole := access_deny_dominant plainHost ⟨"ann", [], []⟩ "sales" "orders" "select" true
  refine ⟨?_, ?_, ?_, ?_, ?_, ?_⟩
  · exact (whole (accessPolicy [] [bob]) [accessPolicy [ann] []] []).1 rfl rfl (by decide +kernel)
  · exact (whole (accessPolicy [ann, ann] []) [] []).2.1 [bob] [] (nil_sublist _) (.refl _)
      (by decide +kernel)
  · exact (whole (accessPolicy [bob] []) [accessPolicy [ann] []] []).2.2.1 rfl rfl
      (by decide +kernel)
  · exact (whole (accessPolicy [ann] []) [] []).2.2.2.1 [bob, ann] [] (sublist_cons_self _ _)
      (.refl _) (by decide +kernel)
  · exact (whole (accessPolicy [ann, bob] []) [] []).2.2.2.2.1 [ann, selectItem "bob" ["ip"]] [] []
      [] (.cons ⟨[], .refl _, rfl⟩ (.cons ⟨["ip"], nil_sublist _, rfl⟩ .nil)) .nil .nil .nil
      (by decide +kernel)
  · exact (whole (accessPolicy [ann] [bob]) [] []).2.2.2.2.2 [⟨none, none, none, []⟩] []
      ⟨none, none, none, []⟩ ⟨none, none, none, ["daily"]⟩ rfl rfl (by decide +kernel)

end Sqe.Policy.RangerStore
