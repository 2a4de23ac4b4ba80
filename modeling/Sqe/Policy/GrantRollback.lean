/- GID: Sqe/Policy/GrantRollback
   generality: I
   digest: A GRANT that fails below its outer levels, and the revokes that take those back. -/

import Sqe.Policy.GrantProfile
import Sqe.Policy.PolicyStore

/-!
A grant writes one policy for each level of its plan, outermost first. When a level is refused, the
levels written before are revoked again, innermost first. A call that is answered with an error, as
by a proxy that times out, may have been carried out nevertheless.
-/

set_option autoImplicit false

namespace Sqe.Policy.RangerGrants

open List

/-- The policies of a grant, outermost first, each at a resource of its own. -/
structure LevelledPlan where
  policies : List PlannedPolicy
  distinct : (policies.map PlannedPolicy.resource).Nodup

/-- Which calls of a statement succeed: at each level the read of what is held, the grant, and the
revoke that takes it back; and which of those that do not are carried out all the same. -/
structure Answers where
  read : Resource → Bool
  grant : Resource → Bool
  revoke : Resource → Bool
  lands : Op → Resource → Bool

/-- `held_access_types_at`: a disabled policy, like one that cannot be read, answers nothing. -/
def heldAt (answers : Answers) (store : Store) (r : Resource) (g : Grantee) :
    Option (List String) :=
  if answers.read r then
    (store r).bind fun policy =>
      if policy.isEnabled then heldAccessTypesAt (allowSide store) r g else none
  else none

def addStoredLabel (store : Store) (r : Resource) (label : List Char) : Store :=
  match store r with
  | none => store
  | some policy =>
    if policy.policyLabels.contains label then store
    else Function.update store r
      (some { policy with policyLabels := policy.policyLabels ++ [label] })

inductive GrantResult
  | granted (store : Store)
  /-- The store afterwards, the levels that had been written, and whether all were taken back. -/
  | failed (store : Store) (outerLevels : Nat) (rolledBack : Bool)

/-- What a call that is answered with an error leaves. -/
def failedCall (answers : Answers) (op : Op) (store : Store) (body : GrantRevokeRequest) : Store :=
  if answers.lands op body.resource then applyStored op store body else store

/-- `compensate`, over the written levels with the innermost first. -/
def compensate (answers : Answers) (store : Store) : List GrantRevokeRequest → Store × Bool
  | [] => (store, true)
  | body :: rest =>
    if answers.revoke body.resource then
      compensate answers (applyStored .revoke store body) rest
    else ((compensate answers (failedCall answers .revoke store body) rest).1, false)

/-- A traversal level the grantee already holds is not written. -/
def alreadyHeld (answers : Answers) (store : Store) (g : Grantee) (policy : PlannedPolicy)
    (deeper : List PlannedPolicy) : Bool :=
  !deeper.isEmpty && (heldAt answers store policy.resource g).any fun held =>
    policy.accessTypes.all held.contains

def grantLevels (backend : Backend) (answers : Answers) (stmt : Statement)
    (withGrantOption : Bool) (grantor : String) (written : List GrantRevokeRequest)
    (store : Store) : List PlannedPolicy → GrantResult
  | [] => .granted store
  | policy :: deeper =>
    let isPrimary := deeper.isEmpty
    let body := requestFor policy stmt.grantee (isPrimary && withGrantOption)
    if alreadyHeld answers store stmt.grantee policy deeper then
      grantLevels backend answers stmt withGrantOption grantor written store deeper
    else if answers.grant policy.resource then
      let store := applyStored .grant store body
      let store :=
        if isPrimary then
          addStoredLabel (addStoredLabel store policy.resource
            (grantLabelFor backend.spelling stmt.grantee stmt.object stmt.privilege))
            policy.resource (grantorLabel stmt.grantee grantor)
        else store
      grantLevels backend answers stmt withGrantOption grantor (written ++ [body]) store deeper
    else
      let (store, rolledBack) :=
        compensate answers (failedCall answers .grant store body) written.reverse
      .failed store written.length rolledBack

section Level

variable {g : Grantee} {body : GrantRevokeRequest} {store : Store} {field : Field}
  {name t : String} {items : List PolicyItem}

private theorem own_filter (some_ : ownAccesses g items ≠ []) :
    others g (items.filter fun item => !item.accesses.isEmpty) =
        (others g items).filter (fun item => !item.accesses.isEmpty) ∧
      ownAccesses g (items.filter fun item => !item.accesses.isEmpty) = ownAccesses g items := by
  rcases own_cases g items with none | ⟨front, own, back, rfl, is, before⟩
  · exact absurd (ownAccesses_of_none none) some_
  · rw [ownAccesses_of_first is before] at some_ ⊢
    have kept : (!own.accesses.isEmpty) = true := by simpa using some_
    have before' : ∀ item ∈ front.filter (fun item => !item.accesses.isEmpty),
        isOwn g item = false := fun item listed => before item (mem_of_mem_filter listed)
    rw [filter_append, filter_cons, if_pos kept, others_of_first is before,
      others_of_first is before', ownAccesses_of_first is before', filter_append]
    exact ⟨rfl, rfl⟩

private theorem own_applyStored_grant (store : Store) (made : MadeFor g body)
    (some_ : body.accessTypes ≠ []) :
    (∀ field name t,
        Confers (others g (itemsAt (applyStored .grant store body) body.resource)) field name t ↔
          Confers (others g (itemsAt store body.resource)) field name t) ∧
      ∀ t, t ∈ ownAccesses g (itemsAt (applyStored .grant store body) body.resource) ↔
        t ∈ ownAccesses g (itemsAt store body.resource) ∨ t ∈ body.accessTypes := by
  obtain ⟨same, own⟩ := mergeItems_own made .grant (itemsAt store body.resource)
  have some' : ownAccesses g (mergeItems .grant body (itemsAt store body.resource)) ≠ [] := by
    obtain ⟨t, given⟩ := exists_mem_of_ne_nil _ some_
    exact ne_nil_of_mem ((own t).mpr (.inr given))
  have filtered : itemsAt (applyStored .grant store body) body.resource =
      (mergeItems .grant body (itemsAt store body.resource)).filter
        fun item => !item.accesses.isEmpty := by
    cases present : store body.resource with
    | some policy => simp only [itemsAt, applyStored, present, Function.update_self]
    | none =>
      have kept : (!(buildAllowItem body).accesses.isEmpty) = true := by
        simpa [buildAllowItem] using some_
      simp only [itemsAt, applyStored, present, Function.update_self, mergeItems]
      rw [filter_cons, if_pos kept, filter_nil]
  obtain ⟨rest, mine⟩ := own_filter some'
  rw [filtered, rest, mine, same]
  exact ⟨fun field name t => confers_filter _, own⟩

private theorem confers_revoke_grant (made : MadeFor g body) :
    Confers (itemsAt (applyStored .revoke (applyStored .grant store body) body) body.resource)
        field name t ↔
      (field = allowField g ∧ name = g.name) ∧
          (t ∈ ownAccesses g (itemsAt store body.resource) ∧ t ∉ body.accessTypes) ∨
        Confers (others g (itemsAt store body.resource)) field name t := by
  rw [confers_applyStored made .revoke]
  by_cases nothing : body.accessTypes = []
  · simp only [changed, nothing, not_mem_nil, not_false_eq_true, and_true]
    rw [← confers_iff_own_or_others g, confers_applyStored made .grant]
    simp only [changed, nothing, not_mem_nil, or_false]
  · obtain ⟨rest, own⟩ := own_applyStored_grant store made nothing
    rw [rest]
    simp only [changed, own]
    tauto

private theorem applyStored_congr (op : Op) {store other : Store} {r : Resource}
    (same : store r = other r)
    (body : GrantRevokeRequest) : applyStored op store body r = applyStored op other body r := by
  by_cases here : r = body.resource
  · subst here
    cases present : store body.resource <;> rw [same] at present <;> cases op <;>
      simp only [applyStored, same, present, Function.update_self]
  · rw [applyStored_of_ne op store here, applyStored_of_ne op other here, same]

variable {bodies : List GrantRevokeRequest}

private theorem foldl_applyStored_of_notMem (op : Op) {r : Resource}
    (elsewhere : r ∉ bodies.map GrantRevokeRequest.resource) (store : Store) :
    bodies.foldl (applyStored op) store r = store r := by
  induction bodies generalizing store with
  | nil => rfl
  | cons first bodies ih =>
    rw [map_cons, mem_cons, not_or] at elsewhere
    rw [foldl_cons, ih elsewhere.2, applyStored_of_ne op store elsewhere.1]

private theorem foldl_applyStored_congr (op : Op) {store other : Store} {r : Resource}
    (same : store r = other r) :
    bodies.foldl (applyStored op) store r = bodies.foldl (applyStored op) other r := by
  induction bodies generalizing store other with
  | nil => exact same
  | cons first bodies ih => exact ih (applyStored_congr op same first)

private theorem foldl_applyStored_of_mem (op : Op)
    (distinct : (bodies.map GrantRevokeRequest.resource).Nodup) (listed : body ∈ bodies)
    (store : Store) :
    bodies.foldl (applyStored op) store body.resource =
      applyStored op store body body.resource := by
  induction bodies generalizing store with
  | nil => cases listed
  | cons first bodies ih =>
    rw [map_cons, nodup_cons] at distinct
    rw [foldl_cons]
    rcases mem_cons.mp listed with rfl | later
    · rw [foldl_applyStored_of_notMem op distinct.1]
    · have other : body.resource ≠ first.resource := fun same =>
        distinct.1 (same ▸ mem_map_of_mem later)
      rw [ih distinct.2 later]
      exact applyStored_congr op (applyStored_of_ne op store other) body

private theorem foldl_revoke_grant
    (distinct : (bodies.map GrantRevokeRequest.resource).Nodup) (listed : body ∈ bodies)
    (store : Store) :
    bodies.reverse.foldl (applyStored .revoke) (bodies.foldl (applyStored .grant) store)
        body.resource =
      applyStored .revoke (applyStored .grant store body) body body.resource := by
  have backwards : (bodies.reverse.map GrantRevokeRequest.resource).Nodup := by
    rwa [map_reverse, nodup_reverse]
  rw [foldl_applyStored_of_mem .revoke backwards (mem_reverse.mpr listed)]
  exact applyStored_congr .revoke (foldl_applyStored_of_mem .grant distinct listed store) body

end Level

/-- The levels that are written before one is refused: those the grantee does not hold already. -/
def writes (answers : Answers) (store : Store) (g : Grantee) :
    List PlannedPolicy → List PlannedPolicy
  | [] => []
  | policy :: deeper =>
    if alreadyHeld answers store g policy deeper then writes answers store g deeper
    else if answers.grant policy.resource then policy :: writes answers store g deeper
    else []

/-- The level that is refused. -/
def refused (answers : Answers) (store : Store) (g : Grantee) :
    List PlannedPolicy → Option PlannedPolicy
  | [] => none
  | policy :: deeper =>
    if alreadyHeld answers store g policy deeper then refused answers store g deeper
    else if answers.grant policy.resource then refused answers store g deeper
    else some policy

section Plan

variable {answers : Answers} {store store' : Store} {g : Grantee} {policy : PlannedPolicy}

private theorem compensate_ok {bodies : List GrantRevokeRequest}
    (done : compensate answers store bodies = (store', true)) :
    store' = bodies.foldl (applyStored .revoke) store := by
  induction bodies generalizing store with
  | nil => cases done; rfl
  | cons body bodies ih =>
    rw [compensate] at done
    split at done
    next => exact ih done
    next => cases done

private theorem grantLevels_failed {backend : Backend} {stmt : Statement} {option rolledBack : Bool}
    {grantor : String} {written : List GrantRevokeRequest} {current : Store} {levels : Nat}
    {plan : List PlannedPolicy}
    (distinct : (plan.map PlannedPolicy.resource).Nodup)
    (untouched : ∀ policy ∈ plan, current policy.resource = store policy.resource)
    (failed : grantLevels backend answers stmt option grantor written current plan =
      .failed store' levels rolledBack) :
    ∃ last delegateAdmin, refused answers store stmt.grantee plan = some last ∧
      (store', rolledBack) = compensate answers
        (failedCall answers .grant
          (((writes answers store stmt.grantee plan).map
            (requestFor · stmt.grantee false)).foldl (applyStored .grant) current)
          (requestFor last stmt.grantee delegateAdmin))
        (written ++ (writes answers store stmt.grantee plan).map
          (requestFor · stmt.grantee false)).reverse := by
  induction plan generalizing written current with
  | nil => cases failed
  | cons policy deeper ih =>
    rw [map_cons, nodup_cons] at distinct
    have here := untouched policy mem_cons_self
    have below : ∀ p ∈ deeper, current p.resource = store p.resource :=
      fun p listed => untouched p (mem_cons_of_mem _ listed)
    have held : alreadyHeld answers current stmt.grantee policy deeper =
        alreadyHeld answers store stmt.grantee policy deeper := by
      simp only [alreadyHeld, heldAt, heldAccessTypesAt, allowSide, here]
    rw [grantLevels, held] at failed
    rw [writes, refused]
    split at failed
    next held =>
      rw [if_pos held, if_pos held]
      exact ih distinct.2 below failed
    next missing =>
      rw [if_neg missing, if_neg missing]
      split at failed
      next accepted =>
        rw [if_pos accepted, if_pos accepted]
        cases deeper with
        | nil => cases failed
        | cons next later =>
          have apart : ∀ p ∈ next :: later,
              applyStored .grant current (requestFor policy stmt.grantee false) p.resource =
                store p.resource := by
            intro p listed
            have other : p.resource ≠ policy.resource := fun same =>
              distinct.1 (same ▸ mem_map_of_mem listed)
            rw [applyStored_of_ne .grant current other, below p listed]
          obtain ⟨last, delegateAdmin, is, rest⟩ := ih distinct.2 apart failed
          rw [append_assoc] at rest
          exact ⟨last, delegateAdmin, is, rest⟩
      next not =>
        rw [if_neg not, if_neg not]
        cases failed
        rw [map_nil, append_nil]
        exact ⟨policy, _, rfl, rfl⟩

/-- Every access type that a written level gives and the grantee's own item had, another item
gives too. -/
def Undoable (answers : Answers) (store : Store) (g : Grantee) (plan : LevelledPlan) : Prop :=
  ∀ policy ∈ writes answers store g plan.policies, ∀ t ∈ policy.accessTypes,
    t ∈ ownAccesses g (itemsAt store policy.resource) →
      Confers (others g (itemsAt store policy.resource)) (allowField g) g.name t

/-- The call at the refused level had no effect, or would have given what the grantee had. -/
def Harmless (answers : Answers) (store : Store) (g : Grantee) (plan : LevelledPlan) : Prop :=
  ∀ policy ∈ refused answers store g plan.policies, answers.lands .grant policy.resource = true →
    ∀ t ∈ policy.accessTypes, Confers (itemsAt store policy.resource) (allowField g) g.name t

variable (answers store g) in
private theorem writes_refused_sublist (plan : List PlannedPolicy) :
    (writes answers store g plan ++ (refused answers store g plan).toList).Sublist plan := by
  induction plan with
  | nil => exact .slnil
  | cons first deeper ih =>
    rw [writes, refused]
    split
    next => exact ih.cons _
    next =>
      split
      next => exact ih.cons_cons _
      next => exact (nil_sublist _).cons_cons _

private theorem confers_failedCall {body : GrantRevokeRequest} (made : MadeFor g body)
    (field : Field) (name t : String) :
    Confers (itemsAt (failedCall answers .grant store body) body.resource) field name t ↔
      Confers (itemsAt store body.resource) field name t ∨
        (field = allowField g ∧ name = g.name) ∧
          answers.lands .grant body.resource = true ∧ t ∈ body.accessTypes := by
  rw [failedCall]
  split
  next lands =>
    rw [confers_applyStored made, confers_iff_own_or_others g (itemsAt store body.resource)]
    simp only [changed, lands, true_and]
    tauto
  next inert => simp only [inert, Bool.false_eq_true, false_and, and_false, or_false]

private theorem failedCall_of_ne {op : Op} {body : GrantRevokeRequest} {r : Resource}
    (elsewhere : r ≠ body.resource) : failedCall answers op store body r = store r := by
  rw [failedCall]
  split
  next => exact applyStored_of_ne op store elsewhere
  next => rfl

private theorem failedCall_congr {op : Op} {other : Store} {r : Resource} (same : store r = other r)
    (body : GrantRevokeRequest) :
    failedCall answers op store body r = failedCall answers op other body r := by
  rw [failedCall, failedCall]
  split
  next => exact applyStored_congr op same body
  next => exact same

/-- The store after a failed grant whose written levels were all taken back, level by level. -/
structure RolledBack (answers : Answers) (store store' : Store) (g : Grantee)
    (plan : LevelledPlan) : Prop where
  written : ∀ policy ∈ writes answers store g plan.policies, ∀ field name t,
    Confers (itemsAt store' policy.resource) field name t ↔
      (field = allowField g ∧ name = g.name) ∧
          (t ∈ ownAccesses g (itemsAt store policy.resource) ∧ t ∉ policy.accessTypes) ∨
        Confers (others g (itemsAt store policy.resource)) field name t
  refused : ∀ policy ∈ refused answers store g plan.policies, ∀ field name t,
    Confers (itemsAt store' policy.resource) field name t ↔
      Confers (itemsAt store policy.resource) field name t ∨
        (field = allowField g ∧ name = g.name) ∧
          answers.lands .grant policy.resource = true ∧ t ∈ policy.accessTypes
  other : ∀ policy ∈ plan.policies, policy ∉ writes answers store g plan.policies →
    policy ∉ RangerGrants.refused answers store g plan.policies →
      store' policy.resource = store policy.resource

private theorem rolledBack_of_failed {backend : Backend} {stmt : Statement} {option : Bool}
    {grantor : String} {plan : LevelledPlan} {levels : Nat}
    (failed : grantLevels backend answers stmt option grantor [] store plan.policies =
      .failed store' levels true) :
    RolledBack answers store store' stmt.grantee plan := by
  obtain ⟨last, delegateAdmin, is, ran⟩ :=
    grantLevels_failed plan.distinct (fun _ _ => rfl) failed
  rw [nil_append] at ran
  have restored := compensate_ok ran.symm
  have within := writes_refused_sublist answers store stmt.grantee plan.policies
  rw [is, Option.toList_some] at within
  obtain ⟨distinct, -, apart⟩ :=
    nodup_append.mp (map_append ▸ (within.map PlannedPolicy.resource).nodup plan.distinct)
  -- No request is at a level that was not written.
  have unwritten : ∀ r, r ∉ (writes answers store stmt.grantee plan.policies).map
        PlannedPolicy.resource →
      store' r =
        failedCall answers .grant store (requestFor last stmt.grantee delegateAdmin) r := by
    intro r elsewhere
    have none : r ∉ ((writes answers store stmt.grantee plan.policies).map
        (requestFor · stmt.grantee false)).map GrantRevokeRequest.resource := by
      rwa [map_map]
    rw [restored, foldl_applyStored_of_notMem .revoke (by rwa [map_reverse, mem_reverse])]
    exact failedCall_congr (foldl_applyStored_of_notMem .grant none store) _
  refine ⟨fun policy listed field name t => ?_, fun policy listed field name t => ?_, ?_⟩
  · have other : policy.resource ≠ last.resource :=
      apart _ (mem_map_of_mem listed) _ (mem_singleton_self _)
    have there : store' policy.resource =
        applyStored .revoke (applyStored .grant store (requestFor policy stmt.grantee false))
          (requestFor policy stmt.grantee false) policy.resource := by
      rw [restored, foldl_applyStored_congr .revoke (failedCall_of_ne other)]
      exact foldl_revoke_grant (by rwa [map_map])
        (mem_map_of_mem (f := (requestFor · stmt.grantee false)) listed) store
    rw [itemsAt_congr there]
    exact confers_revoke_grant (madeFor_requestFor policy stmt.grantee false)
  · obtain rfl := Option.some.inj (is.symm.trans listed)
    rw [itemsAt_congr (unwritten _ fun met => apart _ met _ (mem_singleton_self _) rfl)]
    exact confers_failedCall (madeFor_requestFor last stmt.grantee delegateAdmin) field name t
  · intro policy listed unwritten' unrefused
    have one : ∀ q ∈ plan.policies, q.resource = policy.resource → q = policy :=
      fun q listed' same => inj_on_of_nodup_map plan.distinct listed' listed same
    rw [unwritten, failedCall_of_ne]
    · intro same
      have met := one last (within.subset (mem_append_right _ (mem_singleton_self _))) same.symm
      exact unrefused (met ▸ is)
    · intro met
      obtain ⟨q, wrote, same⟩ := mem_map.mp met
      exact unwritten' (one q (within.subset (mem_append_left _ wrote)) same ▸ wrote)

end Plan

def GrantResult.store : GrantResult → Store
  | .granted store | .failed store _ _ => store

def GrantResult.takenBack : GrantResult → Option Nat
  | .failed _ outerLevels true => some outerLevels
  | _ => none

private theorem GrantResult.eq_failed {result : GrantResult} {levels : Nat}
    (is : result.takenBack = some levels) : result = .failed result.store levels true := by
  match result, is with
  | .failed _ _ true, rfl => rfl

def catalogOfSales : Resource := ⟨none, "wh", none, none⟩

def viewOfSales : Resource := ⟨none, "wh", some "sales", some "v"⟩

/-- `GRANT SELECT ON VIEW wh.sales.v TO dave`. -/
def selectView : Statement :=
  ⟨"SELECT", some "wh", some "sales", some "v", .user "dave", some "root", .view, by decide⟩

private theorem planFor_view : planFor vendored selectView.object "SELECT" "wh" (some "sales")
      (some "v") =
    .ok [⟨catalogOfSales, ["namespace-list"]⟩,
      ⟨sales, ["namespace-list", "namespace-properties-read", "view-list"]⟩,
      ⟨viewOfSales, ["view-list", "view-properties-read"]⟩] := by
  decide +kernel

def planOfView : LevelledPlan := ⟨_, planFor_vendored_distinct (fun _ => rfl) planFor_view⟩

/-- The service answers the grant on the view with an error, and nothing else. -/
def refusesView (lands : Bool) : Answers :=
  ⟨fun _ => true, fun r => r != viewOfSales, fun _ => true, fun _ _ => lands⟩

def viewGranted (lands : Bool) (store : Store) : GrantResult :=
  grantLevels vendored (refusesView lands) selectView false "root" [] store planOfView.policies

/-- A store after `GRANT privilege TO dave` on `sales`, or on its catalog. -/
def holding (privilege : String) (notAll : isAllPrivileges privilege = false)
    (namespaceName : Option String) : Store :=
  match planFor vendored .table privilege "wh" namespaceName none with
  | .error _ => fun _ => none
  | .ok plan =>
    (grantLevels vendored (refusesView false)
      ⟨privilege, some "wh", namespaceName, none, .user "dave", some "root", .table, notAll⟩
      false "root" [] (fun _ => none) plan).store

def holdingSelect : Store := holding "SELECT" (by decide) (some "sales")

def holdingCreate : Store := holding "CREATE NAMESPACE" (by decide) none

end Sqe.Policy.RangerGrants
