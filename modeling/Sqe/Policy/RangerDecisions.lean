/- GID: Sqe/Policy/RangerDecisions
   generality: I
   digest: Which policy of a Ranger bundle decides a column, and what the fallback changes. -/

import Sqe.Library.FirstWins
import Sqe.Policy.RangerStore

/-!
The resolution loop keeps its decisions under the exact spelling a policy uses, the lookups of
the resolved policy ignore case. The loop is summed up as one table of spellings and decisions,
in the order of evaluation, where the first entry of a spelling is final.
-/

set_option autoImplicit false

namespace Sqe.Policy.RangerStore

open Sqe.DataFusion Sqe.Library List

section Loop

variable (host : Host) (user : SessionUser)

def decisionsOf (p : RangerPolicy) : List (String × Decision) :=
  if p.policyType = policyTypeDatamask then
    match p.column with
    | none => []
    | some colRes =>
      if colRes.isExcludes then []
      else
        match decidingItem user p with
        | none => []
        | some item => colRes.values.map fun column => (column, itemDecision host item column)
  else []

def filtersOf (p : RangerPolicy) : List Expr :=
  if p.policyType = policyTypeDatamask then
    match p.column with
    | some colRes => if colRes.isExcludes then [lit false] else []
    | none => []
  else if p.policyType = policyTypeRowfilter then
    (decidingRowFilterItems user p.rowFilterPolicyItems).map fun text => (parsedFilter host text).1
  else []

/-- The decision that stands for a spelling after the given policies. -/
def decisionFor (policies : List RangerPolicy) (spelling : String) : Option Decision :=
  policies.findSome? fun p => (decisionsOf host user p).lookup spelling

/-- The state of the loop after a table of decisions and a list of filters. -/
structure Records (st : Resolving) (table : List (String × Decision)) (filters : List Expr) :
    Prop where
  decided : ∀ s, s ∈ st.decidedColumns ↔ (table.lookup s).isSome = true
  restricted : ∀ s, s ∈ st.policy.restrictedColumns ↔ table.lookup s = some .restricted
  masked : ∀ s m, (s, m) ∈ st.policy.columnMasks ↔
    ∃ mask : Mask, table.lookup s = some (.masked mask) ∧ mask.1 = m
  rowFilters : st.policy.rowFilters = filters

variable {host user} {st : Resolving} {table : List (String × Decision)} {filters : List Expr}

private theorem Records.pushFilter (records : Records st table filters)
    (f : { e : Expr // isPlain e = true }) :
    Records { st with policy := RangerStore.pushFilter st.policy f } table (filters ++ [f.1]) where
  decided := records.decided
  restricted := records.restricted
  masked := records.masked
  rowFilters := congrArg (· ++ [f.1]) records.rowFilters

private theorem lookup_snoc (s s' : String) (decision : Decision) :
    (table ++ [(s, decision)]).lookup s' =
      (table.lookup s').or (if s' = s then some decision else none) := by
  rw [lookup_append, lookup_cons]
  by_cases same : s' = s
  · rw [if_pos same, beq_iff_eq.mpr same]
  · rw [if_neg same, beq_eq_false_iff_ne.mpr same]
    rfl

section

variable (records : Records st table filters)
include records

private theorem Records.decideColumn (s : String)
    (decision : Decision) :
    Records (RangerStore.decideColumn st s decision) (table ++ [(s, decision)]) filters := by
  unfold RangerStore.decideColumn
  split
  next already =>
    -- The spelling has an entry, so the new one is never reached.
    rw [contains_iff_mem, records.decided] at already
    have same (s' : String) : (table ++ [(s, decision)]).lookup s' = table.lookup s' := by
      rw [lookup_snoc]
      split
      next is =>
        obtain ⟨earlier, found⟩ := Option.isSome_iff_exists.mp already
        rw [is, found]; rfl
      next => exact Option.or_none
    refine ⟨fun s' => ?_, fun s' => ?_, fun s' m => ?_, records.rowFilters⟩ <;> rw [same s']
    · exact records.decided s'
    · exact records.restricted s'
    · exact records.masked s' m
  next fresh =>
    rw [contains_iff_mem, records.decided, Bool.not_eq_true, Option.isSome_eq_false_iff,
      Option.isNone_iff_eq_none] at fresh
    have notRestricted : s ∉ st.policy.restrictedColumns := by
      rw [records.restricted, fresh]; nofun
    have notMasked (m : MaskType) : (s, m) ∉ st.policy.columnMasks := by
      rw [records.masked, fresh]
      rintro ⟨_, ⟨⟩, -⟩
    refine ⟨fun s' => ?_, fun s' => ?_, fun s' m => ?_, ?_⟩
    · rw [mem_cons, lookup_snoc, records.decided s']
      by_cases is : s' = s <;> simp [is, fresh]
    · rw [lookup_snoc]
      by_cases is : s' = s
      · cases decision <;> simp [is, fresh, restrict, insertMask, notRestricted]
      · cases decision <;> simp [is, restrict, insertMask, notRestricted, records.restricted]
    · rw [lookup_snoc]
      by_cases is : s' = s
      · cases decision <;> simp [is, fresh, restrict, insertMask, notRestricted, notMasked, eq_comm]
      · cases decision <;> simp [is, restrict, insertMask, notRestricted, records.masked]
    · cases decision <;> simp [restrict, insertMask, notRestricted, records.rowFilters]

private theorem Records.decideColumns (columns : List String)
    (decide : String → Decision) :
    Records (columns.foldl (fun st column => RangerStore.decideColumn st column (decide column)) st)
      (table ++ columns.map fun column => (column, decide column)) filters := by
  induction columns generalizing st table with
  | nil => simpa using records
  | cons column later ih =>
    have next := ih (records.decideColumn column (decide column))
    rwa [append_assoc] at next

private theorem Records.pushFilters (texts : List String)
    (parsed : String → { e : Expr // isPlain e = true }) :
    Records (texts.foldl
        (fun st text => { st with policy := RangerStore.pushFilter st.policy (parsed text) }) st)
      table (filters ++ texts.map fun text => (parsed text).1) := by
  induction texts generalizing st filters with
  | nil => simpa using records
  | cons text later ih =>
    have next := ih (records.pushFilter (parsed text))
    rwa [append_assoc] at next

end

variable (host user) in
private theorem Records.resolvePolicy (records : Records st table filters) (p : RangerPolicy) :
    Records (RangerStore.resolvePolicy host user st p) (table ++ decisionsOf host user p)
      (filters ++ filtersOf host user p) := by
  unfold RangerStore.resolvePolicy decisionsOf filtersOf
  split
  next =>
    cases p.column with
    | none => simpa using records
    | some colRes =>
      cases excludes : colRes.isExcludes with
      | true =>
        simpa [excludes] using records.pushFilter ⟨lit false, isPlain_lit false⟩
      | false =>
        cases decidingItem user p with
        | none => simpa [excludes] using records
        | some item =>
          simpa [excludes] using records.decideColumns colRes.values (itemDecision host item)
  next =>
    split
    next => simpa using records.pushFilters _ (parsedFilter host)
    next => simpa using records

variable (host user) in
private theorem records_foldl (policies : List RangerPolicy) (records : Records st table filters) :
    Records (policies.foldl (resolvePolicy host user) st)
      (table ++ policies.flatMap (decisionsOf host user))
      (filters ++ policies.flatMap (filtersOf host user)) := by
  induction policies generalizing st table filters with
  | nil => simpa using records
  | cons p later ih =>
    have next := ih (records.resolvePolicy host user p)
    rwa [append_assoc, append_assoc] at next

private theorem records_empty : Records ⟨emptyPolicy, []⟩ [] [] where
  decided _ := by simp
  restricted _ := by simp [emptyPolicy]
  masked _ _ := by simp [emptyPolicy]
  rowFilters := rfl

end Loop

inductive Treatment
  | restricted
  | unmasked
  | masked (mask : MaskType)

def Decision.treatment : Decision → Treatment
  | .restricted => .restricted
  | .exempt => .unmasked
  | .masked mask => .masked mask.1

/-- `is_restricted`, then `mask_for`. -/
def treatment (host : Host) (policy : ResolvedPolicy) (column : String) : Treatment :=
  if policy.isRestricted host.toLowercase column then .restricted
  else
    match policy.maskFor host.toLowercase column with
    | some mask => .masked mask
    | none => .unmasked

/-- The order in which `mask_for` takes the spellings of a column: its own first, then the one
that sorts first. -/
def Preferred (column a b : String) : Prop := a = column ∨ (b ≠ column ∧ a ≤ b)

theorem Preferred.antisymm {column a b : String} (one : Preferred column a b)
    (other : Preferred column b a) : a = b := by
  rcases one with rfl | ⟨notOwn, le⟩
  · rcases other with rfl | ⟨notOwn, -⟩
    · rfl
    · exact absurd rfl notOwn
  · rcases other with own | ⟨-, ge⟩
    · exact absurd own notOwn
    · exact le_antisymm le ge

theorem foldl_firstKey_le (entry : String × MaskType) (entries : List (String × MaskType)) :
    ∀ e ∈ entry :: entries, (entries.foldl ResolvedPolicy.firstKey entry).1 ≤ e.1 := by
  induction entries generalizing entry with
  | nil => exact forall_mem_singleton.mpr (le_refl _)
  | cons next entries ih =>
    obtain ⟨start, later⟩ := forall_mem_cons.mp (ih (ResolvedPolicy.firstKey entry next))
    have least : (ResolvedPolicy.firstKey entry next).1 ≤ entry.1 ∧
        (ResolvedPolicy.firstKey entry next).1 ≤ next.1 := by
      unfold ResolvedPolicy.firstKey
      split
      next smaller => exact ⟨le_of_lt smaller, le_refl _⟩
      next larger => exact ⟨le_refl _, not_lt.mp larger⟩
    exact forall_mem_cons.mpr ⟨le_trans start least.1,
      forall_mem_cons.mpr ⟨le_trans start least.2, later⟩⟩

section MaskFor

variable {policy : ResolvedPolicy} {toLowercase : String → String} {column : String}

private theorem maskFor_some {mask : MaskType}
    (found : policy.maskFor toLowercase column = some mask) :
    ∃ s, (s, mask) ∈ policy.columnMasks ∧ toLowercase s = toLowercase column ∧
      ∀ s' m', (s', m') ∈ policy.columnMasks → toLowercase s' = toLowercase column →
        Preferred column s s' := by
  revert found
  fun_cases policy.maskFor toLowercase column <;> rintro ⟨⟩
  next entry exactly =>
    have own : entry.1 = column := by simpa using find?_some exactly
    exact ⟨entry.1, mem_of_find?_eq_some exactly, by rw [own], fun _ _ _ _ => .inl own⟩
  next noExact entry entries folded =>
    have listed := foldl_firstKey_mem entry entries
    have least := foldl_firstKey_le entry entries
    rw [← folded] at listed least
    obtain ⟨listed, same⟩ := mem_filter.mp listed
    refine ⟨_, listed, beq_iff_eq.mp same, fun s' m' listed' same' => .inr ⟨?_, ?_⟩⟩
    · intro own
      exact find?_eq_none.mp noExact _ listed' (beq_iff_eq.mpr own)
    · exact least (s', m') (mem_filter.mpr ⟨listed', beq_iff_eq.mpr same'⟩)

theorem maskFor_none (missing : policy.maskFor toLowercase column = none) {s : String}
    {m : MaskType} (listed : (s, m) ∈ policy.columnMasks) :
    toLowercase s ≠ toLowercase column := by
  revert missing
  fun_cases policy.maskFor toLowercase column <;> rintro ⟨⟩ same
  next none => exact filter_eq_nil_iff.mp none _ listed (beq_iff_eq.mpr same)

end MaskFor

section Deciding

variable (host : Host) (user : SessionUser) (column : String)

def spellings (p : RangerPolicy) : List String :=
  match p.column with
  | none => []
  | some colRes =>
    if colRes.isExcludes then []
    else colRes.values.filter fun v => host.toLowercase v == host.toLowercase column

def decidesColumn (p : RangerPolicy) : Bool :=
  p.policyType == policyTypeDatamask && !(spellings host column p).isEmpty &&
    (decidingItem user p).isSome

/-- A treatment the policy's first matching item gives the column. -/
def Gives (p : RangerPolicy) (t : Treatment) : Prop :=
  ∃ item s, decidingItem user p = some item ∧ s ∈ spellings host column p ∧
    t = (itemDecision host item s).treatment

variable {host user column} {p : RangerPolicy} {policies : List RangerPolicy} {s : String}
  {d : Decision}

private theorem mem_spellings : s ∈ spellings host column p ↔
    ∃ colRes, p.column = some colRes ∧ colRes.isExcludes = false ∧ s ∈ colRes.values ∧
      host.toLowercase s = host.toLowercase column := by
  unfold spellings
  cases p.column with
  | none => simp
  | some colRes => cases excludes : colRes.isExcludes <;> simp [excludes]

private theorem lookup_decisionsOf (same : host.toLowercase s = host.toLowercase column) :
    (decisionsOf host user p).lookup s = some d ↔
      p.policyType = policyTypeDatamask ∧ s ∈ spellings host column p ∧
        ∃ item, decidingItem user p = some item ∧ itemDecision host item s = d := by
  rw [mem_spellings]
  unfold decisionsOf
  by_cases datamask : p.policyType = policyTypeDatamask
  · rw [if_pos datamask]
    cases p.column with
    | none => simp
    | some colRes =>
      cases excludes : colRes.isExcludes with
      | true => simp [excludes]
      | false =>
        cases decidingItem user p with
        | none => simp
        | some item => simp [excludes, FirstWins.lookup_map, datamask, same]
  · simp [datamask]

private theorem decidesColumn_of_lookup (same : host.toLowercase s = host.toLowercase column)
    (found : (decisionsOf host user p).lookup s = some d) :
    decidesColumn host user column p = true := by
  obtain ⟨datamask, spelled, item, has, -⟩ := (lookup_decisionsOf same).mp found
  simpa [decidesColumn, datamask, has] using ne_nil_of_mem spelled

private theorem decisionFor_eq_none (none : policies.find? (decidesColumn host user column) = none)
    (same : host.toLowercase s = host.toLowercase column) :
    decisionFor host user policies s = .none := by
  rw [decisionFor, findSome?_eq_none_iff]
  intro p listed
  by_contra found
  obtain ⟨d, found⟩ := Option.ne_none_iff_exists'.mp found
  exact find?_eq_none.mp none p listed (decidesColumn_of_lookup same found)

private theorem decisionFor_first {first : RangerPolicy} {item : DataMaskPolicyItem}
    (found : policies.find? (decidesColumn host user column) = some first)
    (has : decidingItem user first = some item) (spelled : s ∈ spellings host column first) :
    decisionFor host user policies s = some (itemDecision host item s) := by
  obtain ⟨decides, front, back, whole, silent⟩ := find?_eq_some_iff_append.mp found
  obtain ⟨-, -, -, -, same⟩ := mem_spellings.mp spelled
  refine findSome?_eq_some_iff.mpr ⟨front, first, back, whole, ?_, ?_⟩
  · rw [lookup_decisionsOf same]
    have datamask : first.policyType = policyTypeDatamask := by
      simp only [decidesColumn, Bool.and_eq_true, beq_iff_eq] at decides
      exact decides.1.1
    exact ⟨datamask, spelled, item, has, rfl⟩
  · intro earlier listed
    by_contra answer
    obtain ⟨d, answer⟩ := Option.ne_none_iff_exists'.mp answer
    simpa [decidesColumn_of_lookup same answer] using silent earlier listed

private theorem exists_gives {first : RangerPolicy}
    (found : policies.find? (decidesColumn host user column) = some first) :
    ∃ item s, decidingItem user first = some item ∧ s ∈ spellings host column first := by
  have decides := find?_some found
  simp only [decidesColumn, Bool.and_eq_true, Bool.not_eq_true', isEmpty_eq_false_iff]
    at decides
  obtain ⟨⟨-, spelled⟩, has⟩ := decides
  obtain ⟨item, has⟩ := Option.isSome_iff_exists.mp has
  obtain ⟨s, spelled⟩ := exists_mem_of_ne_nil _ spelled
  exact ⟨item, s, has, spelled⟩

variable (host user column policies) in
/-- A decision on a spelling the first policy does not list leaves the first decision standing:
it exempts, or decides alike, or a restriction is in force anyway, or it masks and the mask of
another spelling is taken before it. -/
def Yields (first : RangerPolicy) (s : String) (d : Decision) : Prop :=
  d = .exempt ∨ Gives host user column first d.treatment ∨
    Gives host user column first .restricted ∨
    (d ≠ .restricted ∧ ∃ s' mask, host.toLowercase s' = host.toLowercase column ∧
      decisionFor host user policies s' = some (.masked mask) ∧
      Gives host user column first (.masked mask.1) ∧ Preferred column s' s)

/-- The policy a run of the loop over the policies ends with. -/
structure Resolves (host : Host) (user : SessionUser) (policies : List RangerPolicy)
    (policy : ResolvedPolicy) : Prop where
  restricted : ∀ s, s ∈ policy.restrictedColumns ↔
    decisionFor host user policies s = some .restricted
  masked : ∀ s m, (s, m) ∈ policy.columnMasks ↔
    ∃ mask : Mask, decisionFor host user policies s = some (.masked mask) ∧ mask.1 = m
  rowFilters : policy.rowFilters = policies.flatMap (filtersOf host user)

variable {policy : ResolvedPolicy}

section

variable (resolves : Resolves host user policies policy)
include resolves

private theorem Resolves.isRestricted_iff :
    policy.isRestricted host.toLowercase column = true ↔
      ∃ s, host.toLowercase s = host.toLowercase column ∧
        decisionFor host user policies s = some .restricted := by
  simp only [ResolvedPolicy.isRestricted, any_eq_true, beq_iff_eq, resolves.restricted]
  exact exists_congr fun s => and_comm

private theorem Resolves.maskFor_some {m : MaskType}
    (found : policy.maskFor host.toLowercase column = some m) :
    ∃ s mask, host.toLowercase s = host.toLowercase column ∧
      decisionFor host user policies s = some (.masked mask) ∧ mask.1 = m ∧
      ∀ s' mask', host.toLowercase s' = host.toLowercase column →
        decisionFor host user policies s' = some (.masked mask') → Preferred column s s' := by
  obtain ⟨s, listed, same, least⟩ := RangerStore.maskFor_some found
  obtain ⟨mask, decided, is⟩ := (resolves.masked s m).mp listed
  refine ⟨s, mask, same, decided, is, fun s' mask' same' decided' => ?_⟩
  exact least s' mask'.1 ((resolves.masked s' _).mpr ⟨mask', decided', rfl⟩) same'

private theorem Resolves.maskFor_none
    (missing : policy.maskFor host.toLowercase column = none) {mask : Mask}
    (same : host.toLowercase s = host.toLowercase column) :
    decisionFor host user policies s ≠ some (.masked mask) := fun decided =>
  RangerStore.maskFor_none missing ((resolves.masked s _).mpr ⟨mask, decided, rfl⟩) same

private theorem Resolves.treatment_of_none
    (none : policies.find? (decidesColumn host user column) = none) :
    treatment host policy column = .unmasked := by
  unfold treatment
  split
  next restricted =>
    obtain ⟨s, same, decided⟩ := resolves.isRestricted_iff.mp restricted
    rw [decisionFor_eq_none none same] at decided
    cases decided
  next =>
    split
    next m found =>
      obtain ⟨s, mask, same, decided, -⟩ := resolves.maskFor_some found
      rw [decisionFor_eq_none none same] at decided
      cases decided
    next => rfl

private theorem Resolves.gives_treatment_iff
    {first : RangerPolicy} (found : policies.find? (decidesColumn host user column) = some first) :
    Gives host user column first (treatment host policy column) ↔
      ∀ s d, host.toLowercase s = host.toLowercase column → s ∉ spellings host column first →
        decisionFor host user policies s = some d → Yields host user column policies first s d := by
  obtain ⟨item, s₀, has, spelled₀⟩ := exists_gives found
  -- A decision on a spelling is the first policy's own, or on a spelling it does not list.
  have own : ∀ {s d}, s ∈ spellings host column first →
      decisionFor host user policies s = some d → Gives host user column first d.treatment := by
    intro s d spelled decided
    rw [decisionFor_first found has spelled] at decided
    cases decided
    exact ⟨item, s, has, spelled, rfl⟩
  unfold treatment
  split
  next restricted =>
    constructor
    · exact fun gives s d _ _ _ => .inr (.inr (.inl gives))
    · intro yields
      obtain ⟨s, same, decided⟩ := resolves.isRestricted_iff.mp restricted
      by_cases spelled : s ∈ spellings host column first
      · exact own spelled decided
      · rcases yields s _ same spelled decided with exempt | gives | gives | ⟨not, -⟩
        · cases exempt
        · exact gives
        · exact gives
        · exact absurd rfl not
  next notRestricted =>
    have unrestricted {s : String} (same : host.toLowercase s = host.toLowercase column) :
        decisionFor host user policies s ≠ some .restricted := fun decided =>
      notRestricted (resolves.isRestricted_iff.mpr ⟨s, same, decided⟩)
    split
    next m maskFound =>
      obtain ⟨s, mask, same, decided, rfl, least⟩ := resolves.maskFor_some maskFound
      constructor
      · intro gives s' d same' _ decided'
        cases d with
        | restricted => exact absurd decided' (unrestricted same')
        | exempt => exact .inl rfl
        | masked mask' =>
          exact .inr (.inr (.inr
            ⟨nofun, s, mask, same, decided, gives, least s' mask' same' decided'⟩))
      · intro yields
        by_cases spelled : s ∈ spellings host column first
        · exact own spelled decided
        · rcases yields s _ same spelled decided with
            exempt | gives | ⟨item', s', has', spelled', is⟩ |
              ⟨-, s', mask', same', decided', gives, before⟩
          · cases exempt
          · exact gives
          · obtain ⟨-, -, -, -, same'⟩ := mem_spellings.mp spelled'
            have restricts : itemDecision host item' s' = .restricted := by
              cases decision : itemDecision host item' s' <;> rw [decision] at is <;> trivial
            exact absurd (restricts ▸ decisionFor_first found has' spelled') (unrestricted same')
          · have is := before.antisymm (least s' mask' same' decided')
            rw [is, decided] at decided'
            cases decided'
            exact gives
    next maskMissing =>
      have exempt {s : String} {d : Decision} (same : host.toLowercase s = host.toLowercase column)
          (decided : decisionFor host user policies s = some d) : d = .exempt := by
        cases d with
        | restricted => exact absurd decided (unrestricted same)
        | exempt => rfl
        | masked mask => exact absurd decided (resolves.maskFor_none maskMissing same)
      refine iff_of_true ⟨item, s₀, has, spelled₀, ?_⟩ fun s d same _ decided =>
        .inl (exempt same decided)
      obtain ⟨-, -, -, -, same⟩ := mem_spellings.mp spelled₀
      rw [exempt same (decisionFor_first found has spelled₀)]
      rfl

end

end Deciding

section Whole

variable (host : Host) (bundle : List RangerPolicy) (user : SessionUser)
  (table namespaceName : String) (requireAccessGrant catalogScoped : Bool)

def evaluated : List RangerPolicy :=
  matchingFineGrainedPolicies host bundle (hiveDatabase namespaceName) table (!catalogScoped)

def gateDenies : Bool :=
  requireAccessGrant &&
    !accessGrantsTable host bundle user (hiveDatabase namespaceName) table (!catalogScoped)

section First

variable (column : String)

/-- An enabled policy on the table that decides the column for the user. -/
def inForce (p : RangerPolicy) : Bool :=
  p.isEnabled && policyMatchesTableWith host p (hiveDatabase namespaceName) table (!catalogScoped)
    && decidesColumn host user column p

/-- The first by descending priority, ties in the order of the bundle. -/
def IsFirst (first : RangerPolicy) : Prop :=
  FirstWins.FirstBy (fun p q => q.policyPriority ≤ p.policyPriority)
    (inForce host user table namespaceName catalogScoped column) bundle first

/-- The treatment is that of the first policy that decides the column. -/
def DecidedByFirst (t : Treatment) : Prop :=
  (∀ p ∈ bundle, inForce host user table namespaceName catalogScoped column p = false) ∧
      t = .unmasked ∨
    ∃ first, IsFirst host bundle user table namespaceName catalogScoped column first ∧
      Gives host user column first t

end First

instance total_policyPriority :
    Std.Total fun p q : RangerPolicy => q.policyPriority ≤ p.policyPriority :=
  ⟨fun p q => le_total q.policyPriority p.policyPriority⟩

instance isTrans_policyPriority :
    IsTrans RangerPolicy fun p q => q.policyPriority ≤ p.policyPriority :=
  ⟨fun _ _ _ first second => le_trans second first⟩

variable {host bundle user table namespaceName requireAccessGrant catalogScoped}

private theorem find?_evaluated (column : String) :
    (evaluated host bundle table namespaceName catalogScoped).find?
        (decidesColumn host user column) =
      (bundle.insertionSort fun p q => q.policyPriority ≤ p.policyPriority).find?
        (inForce host user table namespaceName catalogScoped column) := by
  rw [evaluated, matchingFineGrainedPolicies, ← FirstWins.filter_insertionSort, find?_filter]
  congr 1
  funext p
  rw [Bool.eq_iff_iff, decide_eq_true_eq]
  simp only [inForce, decidesColumn, Bool.and_eq_true, Bool.or_eq_true]
  constructor
  · rintro ⟨⟨⟨enabled, -⟩, covers⟩, decides⟩
    exact ⟨⟨enabled, covers⟩, decides⟩
  · rintro ⟨⟨enabled, covers⟩, ⟨⟨datamask, spelled⟩, has⟩⟩
    exact ⟨⟨⟨enabled, .inl datamask⟩, covers⟩, ⟨datamask, spelled⟩, has⟩

private theorem decidedByFirst_iff {column : String} {t : Treatment} :
    DecidedByFirst host bundle user table namespaceName catalogScoped column t ↔
      match (evaluated host bundle table namespaceName catalogScoped).find?
        (decidesColumn host user column) with
      | none => t = .unmasked
      | some first => Gives host user column first t := by
  unfold DecidedByFirst IsFirst
  simp only [← FirstWins.find?_insertionSort_iff, find?_evaluated]
  split
  next none =>
    have nobody := find?_eq_none.mp none
    simp only [mem_insertionSort, Bool.not_eq_true] at nobody
    simp only [none, reduceCtorEq, false_and, exists_false, or_false, and_iff_right nobody]
  next first found =>
    have has := find?_some found
    have member := mem_of_find?_eq_some found
    rw [mem_insertionSort] at member
    constructor
    · rintro (⟨nobody, -⟩ | ⟨other, same, gives⟩)
      · rw [nobody first member] at has
        cases has
      · rw [found] at same
        cases same
        exact gives
    · exact fun gives => .inr ⟨first, found, gives⟩

private theorem resolve_denied
    (denies : gateDenies host bundle user table namespaceName requireAccessGrant catalogScoped
      = true) :
    resolveFromBundleWith host bundle user table namespaceName requireAccessGrant catalogScoped =
      pushFilter emptyPolicy ⟨lit false, isPlain_lit false⟩ := if_pos denies

private theorem resolves_resolveFromBundleWith
    (passes : gateDenies host bundle user table namespaceName requireAccessGrant catalogScoped
      = false) :
    Resolves host user (evaluated host bundle table namespaceName catalogScoped)
      (resolveFromBundleWith host bundle user table namespaceName requireAccessGrant
        catalogScoped) := by
  have whole : resolveFromBundleWith host bundle user table namespaceName requireAccessGrant
      catalogScoped = ((evaluated host bundle table namespaceName catalogScoped).foldl
        (resolvePolicy host user) ⟨emptyPolicy, []⟩).policy :=
    if_neg (by rw [Bool.not_eq_true]; exact passes)
  rw [whole]
  have records := records_foldl host user
    (evaluated host bundle table namespaceName catalogScoped) records_empty
  rw [nil_append, nil_append] at records
  refine ⟨fun s => ?_, fun s m => ?_, records.rowFilters⟩
  · rw [records.restricted, FirstWins.lookup_flatMap]; rfl
  · rw [records.masked, FirstWins.lookup_flatMap]; rfl

/-- A host that lowers ASCII letters and parses nothing. -/
def asciiHost : Host where
  toLowercase s := String.ofList (s.toList.map Char.toLower)
  parseSqlPredicate _ := none
  Zone := Unit
  utc := ()
  parseZone _ := none
  instant _ _ := none
  now := 0

/-- A datamask policy on one spelling of a column of `orders`, for everyone. -/
def everyoneMask (priority : Int) (database spelling maskType : String) : RangerPolicy where
  policyType := policyTypeDatamask
  policyPriority := priority
  isEnabled := true
  database := some ⟨[database], false⟩
  table := some ⟨["orders"], false⟩
  column := some ⟨[spelling], false⟩
  dataMaskPolicyItems := [⟨⟨[], [], ["public"]⟩, ⟨maskType, none⟩, []⟩]
  rowFilterPolicyItems := []
  policyItems := []
  denyPolicyItems := []
  allowExceptions := []
  denyExceptions := []
  validitySchedules := []

def alice : SessionUser := ⟨"alice", [], []⟩

private theorem maskFor_of_treatment {policy : ResolvedPolicy} {column : String} {host : Host}
    (is : treatment host policy column = .unmasked) :
    (policy.maskFor host.toLowercase column).isSome = false := by
  revert is
  fun_cases treatment host policy column <;> rintro ⟨⟩
  next missing => rw [missing]; rfl

def Decision.Protects : Decision → Prop
  | .exempt => False
  | _ => True

/-- Some policy's decision on the spelling protects the column. -/
def ProtectedBy (host : Host) (user : SessionUser) (policies : List RangerPolicy) (s : String) :
    Prop :=
  ∃ d, decisionFor host user policies s = some d ∧ d.Protects

private theorem Resolves.governs_iff {host : Host} {user : SessionUser}
    {policies : List RangerPolicy}
    {policy : ResolvedPolicy} (resolves : Resolves host user policies policy) (column : String) :
    policy.governs host.toLowercase column = true ↔
      ∃ s, host.toLowercase s = host.toLowercase column ∧ ProtectedBy host user policies s := by
  rw [ResolvedPolicy.governs, Bool.or_eq_true, resolves.isRestricted_iff]
  constructor
  · rintro (⟨s, same, decided⟩ | found)
    · exact ⟨s, same, .restricted, decided, trivial⟩
    · obtain ⟨m, found⟩ := Option.isSome_iff_exists.mp found
      obtain ⟨s, mask, same, decided, -⟩ := resolves.maskFor_some found
      exact ⟨s, same, .masked mask, decided, trivial⟩
  · rintro ⟨s, same, d, decided, protects⟩
    cases d with
    | restricted => exact .inl ⟨s, same, decided⟩
    | exempt => exact protects.elim
    | masked mask =>
      right
      by_contra missing
      rw [Bool.not_eq_true, Option.isSome_eq_false_iff, Option.isNone_iff_eq_none] at missing
      exact resolves.maskFor_none missing same decided

/-- Every row filter of the other policy is there, and every column the other masks or restricts
is masked or restricted. -/
structure Covers (host : Host) (policy other : ResolvedPolicy) : Prop where
  filters : ∀ f ∈ other.rowFilters, f ∈ policy.rowFilters
  columns : ∀ column, other.governs host.toLowercase column = true →
    policy.governs host.toLowercase column = true

/-- A policy that denies the table is as restrictive as any other. -/
def AtLeastAsRestrictive (host : Host) (policy other : ResolvedPolicy) : Prop :=
  lit false ∈ policy.rowFilters ∨ Covers host policy other

private theorem policyMatchesTableWith_mono {p : RangerPolicy} {database : String}
    (covered : policyMatchesTableWith host p database table false = true) (fallback : Bool) :
    policyMatchesTableWith host p database table fallback = true := by
  unfold policyMatchesTableWith at covered ⊢
  cases named : p.database with
  | none => rw [named] at covered; cases covered
  | some r =>
    rw [named] at covered
    simp only [databaseMatches, Bool.false_and, Bool.or_false, Bool.and_eq_true] at covered ⊢
    exact ⟨by rw [covered.1, Bool.true_or], covered.2⟩

private theorem evaluated_scoped : evaluated host bundle table namespaceName true =
    (evaluated host bundle table namespaceName false).filter fun p =>
      policyMatchesTableWith host p (hiveDatabase namespaceName) table false := by
  unfold evaluated matchingFineGrainedPolicies
  rw [FirstWins.filter_insertionSort, filter_filter]
  congr 1
  refine filter_congr fun p _ => ?_
  cases covered : policyMatchesTableWith host p (hiveDatabase namespaceName) table false with
  | false => simp [covered]
  | true => simp [policyMatchesTableWith_mono covered]

private theorem matchingAccess_mono {database : String} {p : RangerPolicy}
    (listed : p ∈ matchingAccess host bundle database table false) (fallback : Bool) :
    p ∈ matchingAccess host bundle database table fallback := by
  simp only [matchingAccess, mem_filter, Bool.and_eq_true] at listed ⊢
  obtain ⟨member, typed, covered, whole⟩ := listed
  exact ⟨member, typed, policyMatchesTableWith_mono covered fallback, whole⟩

private theorem gateDenies_fallback
    (denies : gateDenies host bundle user table namespaceName requireAccessGrant true = true) :
    gateDenies host bundle user table namespaceName requireAccessGrant false = true := by
  simp only [gateDenies, accessGrantsTable, accessGrantsTableType, Bool.and_eq_true,
    Bool.not_eq_true', Bool.and_eq_false_iff, Bool.not_eq_false', Bool.not_true, Bool.not_false]
    at denies ⊢
  refine ⟨denies.1, denies.2.imp ?_ id⟩
  intro denied
  obtain ⟨p, listed, denied⟩ := any_eq_true.mp denied
  exact any_eq_true.mpr ⟨p, matchingAccess_mono listed true, denied⟩

variable (host bundle user table namespaceName) in
/-- With the fallback, the first policy that decides the spelling exempts it, and it matches the
last component of the namespace only. -/
def PreEmpted (s : String) : Prop :=
  ∃ p ∈ evaluated host bundle table namespaceName false,
    policyMatchesTableWith host p (hiveDatabase namespaceName) table false = false ∧
      (decisionsOf host user p).lookup s = some .exempt ∧
      decisionFor host user (evaluated host bundle table namespaceName false) s = some .exempt

private theorem protected_or_preEmpted {s : String}
    (shielded : ProtectedBy host user (evaluated host bundle table namespaceName true) s) :
    ProtectedBy host user (evaluated host bundle table namespaceName false) s ∨
      PreEmpted host bundle user table namespaceName s := by
  obtain ⟨d, decided, protects⟩ := shielded
  rw [evaluated_scoped] at decided
  have answered : ∃ d', decisionFor host user (evaluated host bundle table namespaceName false) s =
      some d' := by
    obtain ⟨p, listed, answer⟩ := exists_of_findSome?_eq_some decided
    refine Option.isSome_iff_exists.mp (findSome?_isSome_iff.mpr ⟨p, mem_of_mem_filter listed, ?_⟩)
    rw [answer]; rfl
  obtain ⟨d', decided'⟩ := answered
  cases d' with
  | restricted => exact .inl ⟨_, decided', trivial⟩
  | masked mask => exact .inl ⟨_, decided', trivial⟩
  | exempt =>
    right
    have other : ((evaluated host bundle table namespaceName false).filter fun p =>
        policyMatchesTableWith host p (hiveDatabase namespaceName) table false).findSome?
          (fun p => (decisionsOf host user p).lookup s) ≠ some .exempt := by
      intro same
      have is : some d = some Decision.exempt := decided.symm.trans same
      cases is
      exact protects
    obtain ⟨p, listed, answer, only⟩ := FirstWins.findSome?_filter _ _ decided' other
    exact ⟨p, listed, only, by rw [← answer]; exact decided', decided'⟩

variable (host bundle user table namespaceName requireAccessGrant) in
/-- The fallback makes the policy no laxer, exactly when the table is denied with it or every
spelling whose protection an exemption reached through the fallback pre-empts belongs to a column
that stays protected under another spelling. -/
theorem fallback_restricts_iff :
    AtLeastAsRestrictive host
        (resolveFromBundleWith host bundle user table namespaceName requireAccessGrant false)
        (resolveFromBundleWith host bundle user table namespaceName requireAccessGrant true) ↔
      gateDenies host bundle user table namespaceName requireAccessGrant false = true ∨
      lit false ∈ (evaluated host bundle table namespaceName false).flatMap (filtersOf host user) ∨
      ∀ s, ProtectedBy host user (evaluated host bundle table namespaceName true) s →
        PreEmpted host bundle user table namespaceName s →
        ∃ s', host.toLowercase s' = host.toLowercase s ∧
          ProtectedBy host user (evaluated host bundle table namespaceName false) s' := by
  cases gate : gateDenies host bundle user table namespaceName requireAccessGrant false with
  | true =>
    rw [resolve_denied gate]
    exact iff_of_true (.inl mem_cons_self) (.inl rfl)
  | false =>
    have gate' : gateDenies host bundle user table namespaceName requireAccessGrant true =
        false := by
      refine Bool.eq_false_iff.mpr fun denies => ?_
      rw [gateDenies_fallback denies] at gate
      cases gate
    have loose := resolves_resolveFromBundleWith gate
    have strict := resolves_resolveFromBundleWith gate'
    rw [AtLeastAsRestrictive, loose.rowFilters]
    simp only [Bool.false_eq_true, false_or]
    refine or_congr_right ?_
    constructor
    · intro covers s shielded _
      have governed := covers.columns s ((strict.governs_iff s).mpr ⟨s, rfl, shielded⟩)
      exact (loose.governs_iff s).mp governed
    · intro stays
      refine ⟨?_, fun column governed => ?_⟩
      · intro f listed
        rw [strict.rowFilters, evaluated_scoped] at listed
        rw [loose.rowFilters]
        obtain ⟨p, member, adds⟩ := mem_flatMap.mp listed
        exact mem_flatMap.mpr ⟨p, mem_of_mem_filter member, adds⟩
      · obtain ⟨s, same, shielded⟩ := (strict.governs_iff column).mp governed
        rw [loose.governs_iff]
        rcases protected_or_preEmpted shielded with kept | preEmpted
        · exact ⟨s, same, kept⟩
        · obtain ⟨s', same', kept⟩ := stays s shielded preEmpted
          exact ⟨s', same'.trans same, kept⟩

/-- A policy written for `sales` exempts the `ssn` that the policy of `eu.sales` masks. -/
theorem fallback_unmasks :
    ¬ AtLeastAsRestrictive asciiHost
      (resolveFromBundleWith asciiHost
        [everyoneMask 0 "sales" "ssn" "MASK_NONE", everyoneMask 0 "eu.sales" "ssn" "MASK_NULL"]
        alice "orders" "eu.sales" false false)
      (resolveFromBundleWith asciiHost
        [everyoneMask 0 "sales" "ssn" "MASK_NONE", everyoneMask 0 "eu.sales" "ssn" "MASK_NULL"]
        alice "orders" "eu.sales" false true) := by
  rintro (denied | covers)
  · exact absurd (length_pos_of_mem denied) (by decide +kernel)
  · exact absurd (covers.columns "ssn" (by decide +kernel)) (by decide +kernel)

end Whole

end Sqe.Policy.RangerStore
