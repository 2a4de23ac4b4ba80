/- GID: Sqe/Policy/RangerGrants
   generality: I
   digest: GRANT and REVOKE as edits of Ranger policies and their provenance labels. -/

import Mathlib.Algebra.GroupWithZero.Nat
import Mathlib.Data.List.Sort
import Mathlib.Data.String.Basic
import Sqe.Library.Dotted

/-!
A Ranger service keeps one policy for each exact resource, so it is a map from resources. Every
call to it succeeds and reads back what was written. Deny items, the delegated transport and
`ALL PRIVILEGES` are left out: no statement here writes the first, and the last is a statement of
its own. Labels are character lists.
-/

set_option autoImplicit false

namespace Sqe.Policy.RangerGrants

open List

inductive Level
  | catalogLevel
  | namespaceLevel
  | tableLevel
  deriving DecidableEq

def Level.depth : Level → Nat
  | .catalogLevel => 0
  | .namespaceLevel => 1
  | .tableLevel => 2

structure LevelPlan where
  level : Level
  seeds : List String
  /-- Subtracted after expansion. -/
  exclude : List String
  deriving DecidableEq

/-- The vendored profile. Its plans list the levels outermost first and start at the catalog; its
privilege names are plain words. -/
structure GrantProfile where
  privileges : List (String × List LevelPlan)
  aliases : List (String × String)
  implied : List (String × List String)
  outermostFirst : ∀ entry ∈ privileges, entry.2.Pairwise fun a b => a.level.depth ≤ b.level.depth
  fromCatalog : ∀ entry ∈ privileges, ∃ first rest, entry.2 = first :: rest ∧
    first.level = .catalogLevel
  plainNames : ∀ name, (privileges.lookup name).isSome = true ∨
    (aliases.lookup name).isSome = true →
    name ≠ "" ∧ ':' ∉ name.toList

/-- Rust's text functions on privilege words: `normalise` collapses white space and upper-cases,
`upperTrim` trims and upper-cases. -/
structure Spelling where
  normalise : String → String
  upperTrim : String → String
  normalise_normalise : ∀ s, normalise (normalise s) = normalise s
  upperTrim_normalise : ∀ s, upperTrim (normalise s) = normalise s
  normalise_selectView : normalise "SELECT VIEW" = "SELECT VIEW"
  normalise_dropView : normalise "DROP VIEW" = "DROP VIEW"
  upperTrim_user : upperTrim "USER" = "USER"
  upperTrim_role : upperTrim "ROLE" = "ROLE"

/-- A Ranger resource map, by its four keys. -/
structure Resource where
  root : Option String
  catalog : String
  namespaceName : Option String
  table : Option String
  deriving DecidableEq

structure PlannedPolicy where
  resource : Resource
  accessTypes : List String
  deriving DecidableEq

inductive GrantError
  | noCatalog
  | emptyIdentifier (what : String)
  | invalidCharacter (what value : String) (bad : Char)
  | noPlan (privilege : String)
  | emptyPlan (privilege : String)
  | tooDeep (privilege : String) (deepest named : Level)
  | noPolicies (privilege : String)
  | noGrantor (op : String)
  | grantOption
  deriving DecidableEq

variable (spelling : Spelling)

variable (profile : GrantProfile)

def canonicalPrivilege (sqlPriv : String) : String :=
  (profile.aliases.lookup (spelling.normalise sqlPriv)).getD (spelling.normalise sqlPriv)

def pending (implied : List (String × List String)) (out : List String) : Nat :=
  ((implied.filter fun entry => !out.contains entry.1).map fun entry => entry.2.length).sum

theorem pending_cons (implied : List (String × List String)) {out : List String} {t : String}
    (fresh : out.contains t = false) :
    pending implied (t :: out) + ((implied.lookup t).getD []).length ≤ pending implied out := by
  induction implied with
  | nil => exact Nat.le_refl _
  | cons entry implied ih =>
    obtain ⟨key, -⟩ := entry
    unfold pending at ih ⊢
    by_cases same : key = t
    · subst same
      have dropped : (!(key :: out).contains key) = false := by simp
      have kept : (!out.contains key) = true := by rw [fresh]; rfl
      simp only [filter_cons, dropped, kept, Bool.false_eq_true, if_false, if_true,
        map_cons, sum_cons, lookup_cons, beq_self_eq_true, Option.getD_some]
      omega
    · have other : (t == key) = false := beq_eq_false_iff_ne.mpr (Ne.symm same)
      have alike : (!(t :: out).contains key) = !out.contains key := by
        simp [same]
      simp only [filter_cons, alike, lookup_cons, other]
      split
      · simp only [map_cons, sum_cons]; omega
      · exact ih

/-- The loop of `expand_access_types`: pop, keep what is new, push what it implies. -/
def expandLoop (implied : List (String × List String)) (out stack : List String) : List String :=
  match stack with
  | [] => out
  | t :: stack =>
    if _seen : out.contains t = true then expandLoop implied out stack
    else expandLoop implied (t :: out) (((implied.lookup t).getD []).reverse ++ stack)
termination_by pending implied out + stack.length
decreasing_by
  · simp only [length_cons]; omega
  · have fewer := pending_cons implied (Bool.eq_false_iff.mpr _seen)
    simp only [length_append, length_reverse, length_cons]
    omega

def expandAccessTypes (seeds : List String) : List String :=
  (expandLoop profile.implied [] seeds.reverse).insertionSort (· ≤ ·)

def namedLevel (namespaceName table : Option String) : Level :=
  match namespaceName, table with
  | _, some _ => .tableLevel
  | some _, none => .namespaceLevel
  | none, none => .catalogLevel

def levelResource (realm catalog : String) (namespaceName table : Option String) (level : Level) :
    Resource where
  root := if realm.isEmpty then none else some realm
  catalog := catalog
  namespaceName := if level = .catalogLevel then none else namespaceName
  table := if level = .tableLevel then table else none

def levelAccessTypes (lp : LevelPlan) : List String :=
  (expandAccessTypes profile lp.seeds).filter fun t => !lp.exclude.contains t

/-- Every policy a GRANT has to write, outermost first: truncated at the level the statement
names, refused when it names something deeper than the privilege binds to. -/
def planGrant (sqlPriv realm catalog : String)
    (namespaceName table : Option String) : Except GrantError (List PlannedPolicy) :=
  match profile.privileges.lookup (canonicalPrivilege spelling profile sqlPriv) with
  | none => .error (.noPlan sqlPriv)
  | some levels =>
    match levels.getLast? with
    | none => .error (.emptyPlan (canonicalPrivilege spelling profile sqlPriv))
    | some last =>
      let named := namedLevel namespaceName table
      if last.level.depth < named.depth then .error (.tooDeep sqlPriv last.level named)
      else .ok ((levels.takeWhile fun lp => lp.level.depth ≤ named.depth).map fun lp =>
        ⟨levelResource realm catalog namespaceName table lp.level, levelAccessTypes profile lp⟩)

inductive GrantObjectKind
  | table
  | view
  deriving DecidableEq

inductive Grantee
  | user (name : String)
  | role (name : String)
  | group (name : String)
  deriving DecidableEq

def Grantee.name : Grantee → String
  | .user n | .role n | .group n => n

/-- The profile has no view axis: a view privilege is a name of its own. -/
def profilePrivilege (object : GrantObjectKind) (sqlPriv : String) : String :=
  let canonical := spelling.normalise sqlPriv
  match object with
  | .view =>
    if canonical = "SELECT" then "SELECT VIEW"
    else if canonical = "DROP" then "DROP VIEW" else canonical
  | .table => canonical

def trim (text : String) : String :=
  String.ofList (Library.Text.trimEnd (text.toList.dropWhile Library.Text.isWhitespace))

def isAllPrivileges (privilege : String) : Bool :=
  let p := (trim privilege).toList.map Char.toUpper
  p == "ALL".toList || p == "ALL PRIVILEGES".toList

/-- What GRANT and REVOKE have in common. `ALL PRIVILEGES` is another statement. -/
structure Statement where
  privilege : String
  catalog : Option String
  namespaceName : Option String
  table : Option String
  grantee : Grantee
  grantor : Option String
  object : GrantObjectKind
  notAll : isAllPrivileges privilege = false
  deriving DecidableEq

structure Backend where
  spelling : Spelling
  profile : GrantProfile
  realm : String

def isControl (c : Char) : Bool := c.toNat < 32 || (127 ≤ c.toNat && c.toNat < 160)

def validateIdentifier (value what : String) : Except GrantError Unit :=
  if value.isEmpty then .error (.emptyIdentifier what)
  else
    match value.toList.find? fun c =>
        ['/', '?', '#', '%', '\\'].contains c || Library.Text.isWhitespace c || isControl c with
    | some bad => .error (.invalidCharacter what value bad)
    | none => .ok ()

def validateOptional (value : Option String) (what : String) : Except GrantError Unit :=
  match value with
  | some v => validateIdentifier v what
  | none => .ok ()

def validatedCatalog (stmt : Statement) : Except GrantError String :=
  match stmt.catalog with
  | none => .error .noCatalog
  | some catalog => do
    validateIdentifier catalog "catalog"
    validateOptional stmt.namespaceName "namespace"
    validateOptional stmt.table "table"
    validateIdentifier stmt.grantee.name "grantee"
    return catalog

def requiredGrantor (stmt : Statement) (op : String) : Except GrantError String :=
  match stmt.grantor with
  | none => .error (.noGrantor op)
  | some g => do
    validateIdentifier g "grantor"
    return g

structure PolicyItem where
  users : List String
  groups : List String
  roles : List String
  accesses : List String
  delegateAdmin : Bool
  deriving DecidableEq

structure AccessPolicy where
  policyItems : List PolicyItem
  policyLabels : List (List Char)
  deriving DecidableEq

/-- The policies of the service, by their exact resource. -/
abbrev Service : Type := Resource → Option AccessPolicy

structure GrantRevokeRequest where
  resource : Resource
  users : List String
  groups : List String
  roles : List String
  accessTypes : List String
  delegateAdmin : Bool
  deriving DecidableEq

/-- A group is a Ranger role of the same name. -/
def granteeToFields : Grantee → List String × List String
  | .user n => ([n], [])
  | .role n | .group n => ([], [n])

def requestFor (policy : PlannedPolicy) (grantee : Grantee) (delegateAdmin : Bool) :
    GrantRevokeRequest where
  resource := policy.resource
  users := (granteeToFields grantee).1
  groups := []
  roles := (granteeToFields grantee).2
  accessTypes := policy.accessTypes
  delegateAdmin := delegateAdmin

def buildAllowItem (body : GrantRevokeRequest) : PolicyItem :=
  ⟨body.users, body.groups, body.roles, body.accessTypes, body.delegateAdmin⟩

/-- Sorted, so that ordering never decides whether two items are of the same grantee. -/
def itemGrantees (item : PolicyItem) : List String × List String × List String :=
  (item.users.insertionSort (· ≤ ·), item.groups.insertionSort (· ≤ ·),
    item.roles.insertionSort (· ≤ ·))

inductive Op
  | grant
  | revoke
  deriving DecidableEq

/-- The grantee's item, after a grant the union, after a revoke the difference. -/
def mergeItem (op : Op) (body : GrantRevokeRequest) (item : PolicyItem) : PolicyItem :=
  match op with
  | .grant =>
    { item with
      accesses := item.accesses ++ body.accessTypes.filter fun t => !item.accesses.contains t
      delegateAdmin := item.delegateAdmin || body.delegateAdmin }
  | .revoke => { item with accesses := item.accesses.filter fun t => !body.accessTypes.contains t }

/-- The first item of the grantee is edited; a grant adds one where there is none. -/
def mergeItems (op : Op) (body : GrantRevokeRequest) : List PolicyItem → List PolicyItem
  | [] =>
    match op with
    | .grant => [buildAllowItem body]
    | .revoke => []
  | item :: items =>
    if itemGrantees item = itemGrantees (buildAllowItem body) then
      mergeItem op body item :: items
    else item :: mergeItems op body items

/-- The access types a grantee already holds at exactly this resource. -/
def heldAccessTypesAt (service : Service) (resource : Resource) (grantee : Grantee) :
    Option (List String) :=
  (service resource).map fun policy =>
    (policy.policyItems.filter fun item =>
      ((granteeToFields grantee).1.any fun u => item.users.contains u) ||
        (granteeToFields grantee).2.any fun r => item.roles.contains r).flatMap (·.accesses)

def labelPrefix : List Char := "chm:".toList

def granteeKind : Grantee → String
  | .user _ => "USER"
  | .role _ | .group _ => "ROLE"

variable (grantee : Grantee)

def grantLabel (privilege : String) : List Char :=
  labelPrefix ++ ((granteeKind grantee).toList ++ ':' :: (grantee.name.toList ++
    ':' :: (spelling.upperTrim privilege).toList))

def grantLabelFor (object : GrantObjectKind) (privilege : String) : List Char :=
  grantLabel spelling grantee (profilePrivilege spelling object privilege)

def grantorLabel (grantor : String) : List Char :=
  "chm-grantor:".toList ++ ((granteeKind grantee).toList ++ ':' :: (grantee.name.toList ++
    ':' :: grantor.toList))

def splitOnce (mark : Char) : List Char → Option (List Char × List Char)
  | [] => none
  | c :: rest =>
    if c = mark then some ([], rest)
    else (splitOnce mark rest).map fun parts => (c :: parts.1, parts.2)

def rsplitOnce (mark : Char) (text : List Char) : Option (List Char × List Char) :=
  (splitOnce mark text.reverse).map fun parts => (parts.2.reverse, parts.1.reverse)

/-- Kind, name and privilege of a provenance label; anything else is not one. -/
def parseGrantLabel (backend : Backend) (label : List Char) : Option (String × String × String) :=
  match label.dropPrefix? labelPrefix with
  | none => none
  | some rest =>
    match splitOnce ':' rest with
    | none => none
    | some (kindText, rest) =>
      let kind := backend.spelling.upperTrim (String.ofList kindText)
      if kind != "USER" && kind != "ROLE" then none
      else
        match rsplitOnce ':' rest with
        | none => none
        | some (name, privilegeText) =>
          if name.isEmpty || privilegeText.isEmpty then none
          else
            let privilege := backend.spelling.upperTrim (String.ofList privilegeText)
            match backend.profile.privileges.lookup
                (canonicalPrivilege backend.spelling backend.profile privilege) with
            | none => none
            | some levels =>
              if levels.isEmpty then none else some (kind, String.ofList name, privilege)

section Backend

variable (backend : Backend)

variable (object : GrantObjectKind) (privilege catalog : String)
  (namespaceName table : Option String)

def planFor : Except GrantError (List PlannedPolicy) :=
  planGrant backend.spelling backend.profile (profilePrivilege backend.spelling object privilege)
    backend.realm catalog namespaceName table

def deepestPolicy : Except GrantError PlannedPolicy := do
  let plan ← planFor backend object privilege catalog namespaceName table
  match plan.getLast? with
  | some policy => return policy
  | none => throw (.noPolicies privilege)

end Backend

/-- What a request makes of one access type of its principal. -/
def changed (op : Op) (body : GrantRevokeRequest) (t : String) (before : Prop) : Prop :=
  match op with
  | .grant => before ∨ t ∈ body.accessTypes
  | .revoke => before ∧ t ∉ body.accessTypes

theorem mem_mergeItem (op : Op) (body : GrantRevokeRequest) (item : PolicyItem) (t : String) :
    t ∈ (mergeItem op body item).accesses ↔ changed op body t (t ∈ item.accesses) := by
  cases op with
  | grant =>
    simp only [mergeItem, changed, mem_append, mem_filter, Bool.not_eq_true',
      contains_eq_mem, decide_eq_false_iff_not]
    tauto
  | revoke => simp [mergeItem, changed]

end Sqe.Policy.RangerGrants
