/- GID: Sqe/Policy/RangerStore
   generality: I
   digest: Resolving a table's policy from a downloaded Ranger bundle. -/

import Sqe.Library.Dotted
import Sqe.Policy.Resolved
import Mathlib.Data.List.Sort
import Mathlib.Data.String.Basic

/-!
A bundle is the list of its resource policies. Of a policy's resource map the three keys the
store reads are fields. Conditions and recurrences are never looked into, only counted, so they
stand as texts. Log lines are left out.
-/

set_option autoImplicit false

namespace Sqe.Policy.RangerStore

open Sqe.DataFusion List

structure SessionUser where
  username : String
  roles : List String
  groups : List String
  deriving DecidableEq

structure RangerResource where
  values : List String
  isExcludes : Bool
  deriving DecidableEq

structure RangerAccess where
  accessType : String
  isAllowed : Bool
  deriving DecidableEq

structure Binding where
  users : List String
  roles : List String
  groups : List String
  deriving DecidableEq

structure AccessPolicyItem extends Binding where
  accesses : List RangerAccess
  conditions : List String
  deriving DecidableEq

structure DataMaskInfo where
  dataMaskType : String
  valueExpr : Option String
  deriving DecidableEq

structure DataMaskPolicyItem extends Binding where
  dataMaskInfo : DataMaskInfo
  conditions : List String
  deriving DecidableEq

structure RowFilterPolicyItem extends Binding where
  filterExpr : Option String
  conditions : List String
  deriving DecidableEq

structure ValiditySchedule where
  startTime : Option String
  endTime : Option String
  timeZone : Option String
  recurrences : List String
  deriving DecidableEq

structure RangerPolicy where
  policyType : Int
  policyPriority : Int
  isEnabled : Bool
  database : Option RangerResource
  table : Option RangerResource
  column : Option RangerResource
  dataMaskPolicyItems : List DataMaskPolicyItem
  rowFilterPolicyItems : List RowFilterPolicyItem
  policyItems : List AccessPolicyItem
  denyPolicyItems : List AccessPolicyItem
  allowExceptions : List AccessPolicyItem
  denyExceptions : List AccessPolicyItem
  validitySchedules : List ValiditySchedule
  deriving DecidableEq

def policyTypeAccess : Int := 0

def policyTypeDatamask : Int := 1

def policyTypeRowfilter : Int := 2

def publicGroup : String := "public"

/-- What the store takes from elsewhere: Rust's `to_lowercase`, the SQL parser behind
`parse_sql_predicate` (for the user's identity), and the time library. -/
structure Host where
  toLowercase : String → String
  parseSqlPredicate : String → Option { e : Expr // isPlain e = true }
  Zone : Type
  utc : Zone
  parseZone : String → Option Zone
  /-- A local time of a zone, as an instant. -/
  instant : Zone → String → Option Int
  now : Int

/-- Where the loop of `wildcard_match` stands: the rest of the pattern and of the text, the
pattern after the last star, and the text its next try resumes at. -/
structure Scan (size : Nat) where
  pattern : List Char
  text : List Char
  star : Option (List Char)
  resume : List Char
  ahead : text.length ≤ resume.length
  within : pattern.length ≤ size
  starWithin : ∀ s, star = some s → s.length ≤ size

def wildcardLoop {size : Nat} (scan : Scan size) : Bool :=
  let ⟨pattern, text, star, resume, ahead, within, starWithin⟩ := scan
  -- Backtrack: let the last star swallow one more character.
  let backtrack (_ : 0 < resume.length) : Bool :=
    match star, starWithin with
    | some s, starWithin =>
      wildcardLoop ⟨s, resume.tail, some s, resume.tail, Nat.le_refl _, starWithin s rfl,
        starWithin⟩
    | none, _ => false
  match text, ahead with
  -- Trailing stars may match nothing.
  | [], _ => pattern.all (· == '*')
  | c :: rest, ahead =>
    have left : 0 < resume.length := Nat.lt_of_lt_of_le (Nat.succ_pos _) ahead
    match pattern, within with
    | q :: ps, within =>
      have shorter : ps.length ≤ size := Nat.le_of_succ_le within
      if q = '?' ∨ q = c then
        wildcardLoop ⟨ps, rest, star, resume, Nat.le_of_succ_le ahead, shorter, starWithin⟩
      else if q = '*' then
        wildcardLoop ⟨ps, c :: rest, some ps, c :: rest, Nat.le_refl _, shorter,
          fun s same => by cases same; exact shorter⟩
      else backtrack left
    | [], _ => backtrack left
termination_by scan.resume.length * (size + 1) + scan.pattern.length
decreasing_by
  · have bound := starWithin s rfl
    obtain ⟨n, is⟩ : ∃ n, resume.length = n + 1 := ⟨resume.length - 1, by omega⟩
    simp only [length_tail, is, Nat.add_sub_cancel, Nat.add_mul]
    omega
  · simp only [length_cons]; omega
  · have fewer := Nat.mul_le_mul_right (size + 1) ahead
    simp only [length_cons] at fewer ⊢
    omega

variable (host : Host)

/-- A star stands for any run of characters, a question mark for one. -/
def wildcardMatch (pattern target : String) : Bool :=
  let p := (host.toLowercase pattern).toList
  let t := (host.toLowercase target).toList
  wildcardLoop ⟨p, t, none, t, Nat.le_refl _, Nat.le_refl _, nofun⟩

def hiveDatabase (namespaceName : String) : String := namespaceName

def resourceMatches (res : RangerResource) (target : String) : Bool :=
  (res.values.any fun v => wildcardMatch host v target) ^^ res.isExcludes

def lastComponent (database : String) : String :=
  match (Library.Dotted.pieces '.' database.toList).getLast? with
  | some last => String.ofList last
  | none => database

def databaseMatches (r : RangerResource) (database : String)
    (lastComponentFallback : Bool) : Bool :=
  resourceMatches host r database ||
    (lastComponentFallback && lastComponent database != database &&
      resourceMatches host r (lastComponent database))

def policyMatchesTableWith (p : RangerPolicy) (database table : String)
    (lastComponentFallback : Bool) : Bool :=
  (match p.database with
    | some r => databaseMatches host r database lastComponentFallback
    | none => false) &&
  match p.table with
    | some r => resourceMatches host r table
    | none => false

def itemMatches (item : Binding) (user : SessionUser) : Bool :=
  (item.users.any fun u => u == user.username) ||
    (item.roles.any fun r => user.roles.contains r) ||
    item.groups.any fun g => g == publicGroup || user.groups.contains g

def eqIgnoreAsciiCase (a b : String) : Bool :=
  a.toList.map Char.toLower == b.toList.map Char.toLower

def itemGrantsAccess (item : AccessPolicyItem) (accessType : String) : Bool :=
  item.accesses.any fun a => a.isAllowed &&
    (eqIgnoreAsciiCase a.accessType accessType || eqIgnoreAsciiCase a.accessType "all")

def columnResourceCoversTable (p : RangerPolicy) : Bool :=
  match p.column with
  | none => true
  | some res => !res.isExcludes && res.values.any fun v => v == "*"

/-- A bound of a schedule: unreadable, open, or an instant. -/
def scheduleBound (zone : host.Zone) (text : Option String) : Option (Option Int) :=
  match text.filter fun t => !t.isEmpty with
  | none => some none
  | some t => (host.instant zone t).map some

def scheduleCovers (s : ValiditySchedule) : Option Bool :=
  if !s.recurrences.isEmpty then none
  else do
    let zone ← match s.timeZone.filter fun z => !z.isEmpty with
      | some z => host.parseZone z
      | none => some host.utc
    let start ← scheduleBound host zone s.startTime
    let finish ← scheduleBound host zone s.endTime
    return (start.all fun t => decide (t ≤ host.now)) &&
      finish.all fun t => decide (host.now < t)

def policyScheduleActive (p : RangerPolicy) : Option Bool :=
  let covers := p.validitySchedules.map (scheduleCovers host)
  if covers.contains (some true) then some true
  else if p.validitySchedules.isEmpty || !covers.contains none then
    some p.validitySchedules.isEmpty
  else none

section AccessGate

variable (host : Host) (bundle : List RangerPolicy) (user : SessionUser) (database table : String)
  (accessType : String)

def matchingAccess (fallback : Bool) : List RangerPolicy :=
  bundle.filter fun p => p.isEnabled && p.policyType == policyTypeAccess &&
    (policyMatchesTableWith host p database table fallback && columnResourceCoversTable p)

def applies (items : List AccessPolicyItem) : Bool :=
  items.any fun i => itemGrantsAccess i accessType && itemMatches i.toBinding user

/-- Items that widen access do not count when they carry conditions. -/
def widens (items : List AccessPolicyItem) : Bool :=
  items.any fun i => itemGrantsAccess i accessType && itemMatches i.toBinding user &&
    i.conditions.isEmpty

/-- A deny item of the policy matches and no deny exception lifts it. -/
def denies (p : RangerPolicy) : Bool :=
  policyScheduleActive host p != some false &&
    (applies user accessType p.denyPolicyItems && !widens user accessType p.denyExceptions)

def allows (p : RangerPolicy) : Bool :=
  policyScheduleActive host p == some true &&
    (widens user accessType p.policyItems && !applies user accessType p.allowExceptions)

def accessGrantsTableType (lastComponentFallback : Bool) : Bool :=
  !((matchingAccess host bundle database table lastComponentFallback).any
      (denies host user accessType)) &&
    (matchingAccess host bundle database table false).any (allows host user accessType)

def accessGrantsTable (lastComponentFallback : Bool) : Bool :=
  accessGrantsTableType host bundle user database table "select" lastComponentFallback

end AccessGate

def Mask : Type := { m : MaskType // ∀ e, m = .custom e → isPlain e = true }

def normalizeMaskType (maskType : String) : String :=
  match maskType.toList with
  | 'h' :: 'i' :: 'v' :: 'e' :: ':' :: rest => String.ofList rest
  | _ => maskType

def Mask.ofPlain (m : MaskType) (plain : ∀ e, m ≠ .custom e) : Mask :=
  ⟨m, fun e same => absurd same (plain e)⟩

theorem custom_plain (e : { e : Expr // isPlain e = true }) (e' : Expr)
    (same : MaskType.custom e.1 = .custom e') : isPlain e' = true := by
  cases same
  exact e.2

variable (host : Host)

/-- `none`: not supported. `some none`: the explicit exemption. -/
def mapMask (info : DataMaskInfo) (column : String) : Option (Option Mask) :=
  match normalizeMaskType info.dataMaskType with
  | "MASK_NULL" => some (some (.ofPlain .nullify nofun))
  | "MASK_NONE" => some none
  | "MASK_HASH" => some (some (.ofPlain .hash nofun))
  | "CUSTOM" => do
    let exprStr ← info.valueExpr
    let e ← host.parseSqlPredicate (exprStr.replace "\x7bcol\x7d" column)
    return some ⟨.custom e.1, custom_plain e⟩
  | "MASK" => some (some (.ofPlain (.partialMask 0 0 'X' 'x' 'n') nofun))
  | "MASK_SHOW_LAST_4" => some (some (.ofPlain (.partialMask 0 4 'x' 'x' 'x') nofun))
  | "MASK_SHOW_FIRST_4" => some (some (.ofPlain (.partialMask 4 0 'x' 'x' 'x') nofun))
  | "MASK_DATE_SHOW_YEAR" => some (some (.ofPlain .dateShowYear nofun))
  | _ => none

inductive Decision
  | restricted
  | exempt
  | masked (mask : Mask)

/-- Conditions and unsupported masks restrict the column. -/
def itemDecision (item : DataMaskPolicyItem) (column : String) : Decision :=
  if !item.conditions.isEmpty then .restricted
  else
    match mapMask host item.dataMaskInfo column with
    | some (some mask) => .masked mask
    | some none => .exempt
    | none => .restricted

def lit (b : Bool) : Expr := .literal (.boolean (some b))

theorem isPlain_lit (b : Bool) : isPlain (lit b) = true := by cases b <;> rfl

variable (policy : ResolvedPolicy)

def pushFilter (f : { e : Expr // isPlain e = true }) : ResolvedPolicy where
  rowFilters := policy.rowFilters ++ [f.1]
  columnMasks := policy.columnMasks
  restrictedColumns := policy.restrictedColumns
  plainFilters := by
    intro e listed
    rcases mem_append.mp listed with old | new
    · exact policy.plainFilters e old
    · rw [mem_singleton.mp new]; exact f.2
  plainMasks := policy.plainMasks

def insertMask (column : String) (mask : Mask) : ResolvedPolicy where
  rowFilters := policy.rowFilters
  columnMasks := (policy.columnMasks.filter fun entry => entry.1 != column) ++ [(column, mask.1)]
  restrictedColumns := policy.restrictedColumns
  plainFilters := policy.plainFilters
  plainMasks := by
    intro name e listed
    rcases mem_append.mp listed with old | new
    · exact policy.plainMasks name e (mem_filter.mp old).1
    · have same := congrArg Prod.snd (mem_singleton.mp new)
      exact mask.2 e same.symm

def restrict (column : String) : ResolvedPolicy :=
  if policy.restrictedColumns.contains column then policy
  else { policy with restrictedColumns := policy.restrictedColumns ++ [column] }

def emptyPolicy : ResolvedPolicy := ⟨[], [], [], plainFilters_nil, plainMasks_nil⟩

/-- The policy so far, and the columns some earlier policy decided. -/
structure Resolving where
  policy : ResolvedPolicy
  decidedColumns : List String

/-- One column of a datamask policy; the spelling is compared exactly. -/
def decideColumn (st : Resolving) (column : String) (decision : Decision) : Resolving :=
  if st.decidedColumns.contains column then st
  else
    { policy := match decision with
        | .restricted => restrict st.policy column
        | .exempt => st.policy
        | .masked mask => insertMask st.policy column mask
      decidedColumns := column :: st.decidedColumns }

/-- The filter texts of a policy that apply to the user: those of the first matching item, and
of the later ones too for as long as they carry conditions. -/
def decidingRowFilterItems (user : SessionUser) : List RowFilterPolicyItem → List String
  | [] => []
  | item :: later =>
    if itemMatches item.toBinding user then
      let own := match item.filterExpr with
        | some text =>
          let trimmed := Library.Text.trimEnd (text.toList.dropWhile Library.Text.isWhitespace)
          if trimmed.isEmpty then [] else [String.ofList trimmed]
        | none => []
      if item.conditions.isEmpty then own else own ++ decidingRowFilterItems user later
    else decidingRowFilterItems user later

/-- An unparseable row filter denies. -/
def parsedFilter (text : String) : { e : Expr // isPlain e = true } :=
  match host.parseSqlPredicate text with
  | some e => e
  | none => ⟨lit false, isPlain_lit false⟩

/-- The item of a datamask policy that decides for the user: the first that matches. -/
def decidingItem (user : SessionUser) (p : RangerPolicy) : Option DataMaskPolicyItem :=
  p.dataMaskPolicyItems.find? fun item => itemMatches item.toBinding user

def resolvePolicy (user : SessionUser) (st : Resolving) (p : RangerPolicy) : Resolving :=
  if p.policyType = policyTypeDatamask then
    match p.column with
    | none => st
    | some colRes =>
      if colRes.isExcludes then
        { st with policy := pushFilter st.policy ⟨lit false, isPlain_lit false⟩ }
      else
        match decidingItem user p with
        | none => st
        | some item =>
          colRes.values.foldl
            (fun st column => decideColumn st column (itemDecision host item column)) st
  else if p.policyType = policyTypeRowfilter then
    (decidingRowFilterItems user p.rowFilterPolicyItems).foldl
      (fun st text => { st with policy := pushFilter st.policy (parsedFilter host text) }) st
  else st

/-- Override priority first, then bundle order. -/
def matchingFineGrainedPolicies (bundle : List RangerPolicy)
    (database table : String) (lastComponentFallback : Bool) : List RangerPolicy :=
  (bundle.filter fun p => p.isEnabled &&
    (p.policyType == policyTypeDatamask || p.policyType == policyTypeRowfilter) &&
    policyMatchesTableWith host p database table lastComponentFallback).insertionSort
      fun p q => q.policyPriority ≤ p.policyPriority

def resolveFromBundleWith (bundle : List RangerPolicy) (user : SessionUser)
    (table namespaceName : String) (requireAccessGrant catalogScoped : Bool) : ResolvedPolicy :=
  let database := hiveDatabase namespaceName
  let lastComponentFallback := !catalogScoped
  if requireAccessGrant &&
      !accessGrantsTable host bundle user database table lastComponentFallback then
    pushFilter emptyPolicy ⟨lit false, isPlain_lit false⟩
  else
    ((matchingFineGrainedPolicies host bundle database table lastComponentFallback).foldl
      (resolvePolicy host user) ⟨emptyPolicy, []⟩).policy

end Sqe.Policy.RangerStore
