/- GID: Sqe/Coordinator/PurgeOrphans
   generality: I
   digest: The prefixes a purge of orphan locations deletes, and the tables they meet. -/

import Mathlib.Algebra.Order.BigOperators.Group.List
import Mathlib.Algebra.Order.Ring.Nat
import Sqe.Library.Slashes

/-!
A purge takes the parent of the first table's location for the base of the namespace, lists one
level under it, and deletes every entry that is not the location of a table of that namespace.
Locations are lists of characters here.
-/

set_option autoImplicit false

namespace Sqe.Coordinator.PurgeOrphans

open Sqe.Library.Slashes List

abbrev Uri := List Char

def schemeMark : Uri := [':', '/', '/']

def toAsciiLowercase (text : Uri) : Uri := text.map Char.toLower

def assemble (scheme authority path : Uri) : Uri :=
  scheme ++ schemeMark ++ (authority ++ if path = [] then [] else '/' :: path)

def canonicalizeUri (s : Uri) : Uri :=
  let trimmed := trimSlashes s
  match splitOnce schemeMark trimmed with
  | none => collapseSlashes trimmed
  | some (scheme, rest) =>
    let (authority, path) := (splitOnce ['/'] rest).getD (rest, [])
    assemble (toAsciiLowercase scheme) (toAsciiLowercase authority) (collapseSlashes path)

/-- The candidate lies below the base, as locations. -/
def isStrictlyUnder (candidate base : Uri) : Bool :=
  let start := canonicalizeUri base ++ ['/']
  start.isPrefixOf (canonicalizeUri candidate) &&
    decide (start.length < (canonicalizeUri candidate).length)

def locationsOverlap (a b : Uri) : Bool :=
  canonicalizeUri a == canonicalizeUri b || isStrictlyUnder a b || isStrictlyUnder b a

def stripTrailingSlash (s : Uri) : Uri :=
  if s.getLast? = some '/' then s.dropLast else s

def parent (s : Uri) : Option Uri :=
  (splitOnce ['/'] s.reverse).map fun parts => parts.2.reverse

/-- A table of the catalog, with the error of loading it if there is one. -/
structure RegisteredTable where
  namespaceParts : List String
  name : String
  location : Uri
  loadError : Option String

inductive Kind
  | orphan
  | outOfScope

inductive Action
  | skippedOutsideNs
  | wouldDelete
  | deleted
  | deleteFailed (error : String)

structure Finding where
  path : Uri
  kind : Kind
  action : Action

inductive PurgeError
  | emptyNamespace
  | unloadable (table : String) (error : String)
  | noBase (probe : Uri)
  | unlistable (base : Uri) (error : String)

section Purge

variable (catalog : List RegisteredTable) (namespaceParts : List String)

def tablesOf : List RegisteredTable :=
  catalog.filter fun t => t.namespaceParts == namespaceParts

def registeredLocations : List Uri :=
  (tablesOf catalog namespaceParts).map fun t => canonicalizeUri t.location

/-- The base that is derived from the first table, once every table of the namespace loads. -/
def namespaceBase : Except PurgeError Uri :=
  match tablesOf catalog namespaceParts with
  | [] => .error .emptyNamespace
  | probe :: rest => match (probe :: rest).find? fun t => t.loadError.isSome with
      | some t => .error (.unloadable t.name (t.loadError.getD ""))
      | none => match parent (stripTrailingSlash probe.location) with
          | some base => .ok base
          | none => .error (.noBase (stripTrailingSlash probe.location))

variable (dryRun : Bool) (deletePrefix : Uri → Except String Unit)

def judge (registered : List Uri) (base : Uri) (entry : Uri) : Option Finding :=
  let path := stripTrailingSlash entry
  if !isStrictlyUnder path (canonicalizeUri base) then some ⟨path, .outOfScope, .skippedOutsideNs⟩
  else if registered.contains (canonicalizeUri path) then none
  else some ⟨path, .orphan, if dryRun then .wouldDelete else match deletePrefix path with
    | .ok _ => .deleted
    | .error e => .deleteFailed e⟩

def purgeOrphanLocations (list : Uri → Except String (List Uri)) :
    Except PurgeError (List Finding) :=
  match namespaceBase catalog namespaceParts with
  | .error e => .error e
  | .ok base => match list (base ++ ['/']) with
      | .error e => .error (.unlistable base e)
      | .ok entries => .ok (entries.filterMap
          (judge dryRun deletePrefix (registeredLocations catalog namespaceParts) base))

end Purge

/-- `delete_prefix` was called on the path, whether or not it came to its end. -/
def Finding.deletes (f : Finding) : Bool := match f.action with
  | .deleted | .deleteFailed _ => true
  | _ => false

/-- The path of an entry one level under the base. -/
def child (base name : Uri) : Uri := canonicalizeUri base ++ '/' :: name

def IsName (name : Uri) : Prop := name ≠ [] ∧ '/' ∉ name

/-- The listing is of one level under the base. -/
def Truthful (base : Uri) (list : Uri → Except String (List Uri)) : Prop :=
  ∀ entries, list (base ++ ['/']) = .ok entries → ∀ entry ∈ entries, ∃ name, IsName name ∧
    canonicalizeUri (stripTrailingSlash entry) = child base name

/-- No prefix that a purge deletes overlaps the location of a registered table, whatever the
storage lists. -/
def SparesTables (deletePrefix : Uri → Except String Unit) (catalog : List RegisteredTable)
    (namespaceParts : List String) : Prop :=
  ∀ base, namespaceBase catalog namespaceParts = .ok base → ∀ list, Truthful base list →
    ∀ findings, purgeOrphanLocations catalog namespaceParts false deletePrefix list = .ok findings →
      ∀ f ∈ findings, f.deletes = true → ∀ t ∈ catalog, locationsOverlap f.path t.location = false

/-- No registered table lies at or above the base of the namespace, and one that lies below it lies
in the location of a table of the namespace, one level under the base. -/
def Enclosed (catalog : List RegisteredTable) (namespaceParts : List String) : Prop :=
  ∀ base, namespaceBase catalog namespaceParts = .ok base → ∀ t ∈ catalog,
    canonicalizeUri t.location ≠ canonicalizeUri base ∧
    ¬ canonicalizeUri t.location ++ ['/'] <+: canonicalizeUri base ∧
    ∀ name, IsName name →
      canonicalizeUri t.location = child base name ∨
        child base name ++ ['/'] <+: canonicalizeUri t.location →
      child base name ∈ registeredLocations catalog namespaceParts

theorem toLower_cases (c : Char) :
    c.toLower = c ∨ 65 ≤ c.toNat ∧ c.toNat ≤ 90 ∧ c.toLower.toNat = c.toNat + 32 := by
  unfold Char.toLower
  split
  next upper =>
    have low : (65 : UInt32) ≤ c.val := upper.1
    have high : c.val ≤ (90 : UInt32) := upper.2
    have high : c.toNat ≤ 90 := high
    refine .inr ⟨low, high, ?_⟩
    change (c.toNat + 32) % 2 ^ 32 = c.toNat + 32
    omega
  next => exact .inl rfl

theorem toLower_toLower (c : Char) : c.toLower.toLower = c.toLower := by
  rcases toLower_cases c with same | ⟨low, -, moved⟩
  · rw [same, same]
  · rcases toLower_cases c.toLower with same | ⟨-, high', -⟩
    · exact same
    · omega

theorem toLower_eq_iff (c : Char) {m : Char} (mark : m ∈ schemeMark) : c.toLower = m ↔ c = m := by
  have small : m.toNat < 65 := by
    simp only [schemeMark, mem_cons, not_mem_nil, or_false] at mark
    rcases mark with rfl | rfl | rfl <;> decide
  rcases toLower_cases c with same | ⟨low, -, moved⟩
  · rw [same]
  · constructor
    · rintro rfl
      omega
    · rintro rfl
      omega

theorem slash_not_mem_lowercase {text : Uri} (plain : '/' ∉ text) :
    '/' ∉ toAsciiLowercase text := by
  intro listed
  obtain ⟨c, member, same⟩ := mem_map.mp listed
  exact plain ((toLower_eq_iff c (by decide)).mp same ▸ member)

theorem lowercase_lowercase (text : Uri) :
    toAsciiLowercase (toAsciiLowercase text) = toAsciiLowercase text := by
  unfold toAsciiLowercase
  rw [map_map]
  exact map_congr_left fun c _ => toLower_toLower c

/-- A location with a scheme, in canonical form. -/
structure Parts (scheme authority path : Uri) : Prop where
  first : ∃ rest, splitOnce schemeMark (scheme ++ schemeMark ++ rest) = some (scheme, rest)
  schemeLower : toAsciiLowercase scheme = scheme
  authorityLower : toAsciiLowercase authority = authority
  plain : '/' ∉ authority
  single : Single false path
  untrailed : Untrailed path
  nonempty : path = [] → authority ≠ []

def IsCanonical (u : Uri) : Prop :=
  Single false u ∧ Untrailed u ∨ ∃ scheme authority path, Parts scheme authority path ∧
    u = assemble scheme authority path

theorem splitOnce_of_single {u : Uri} (single : Single false u) :
    splitOnce schemeMark u = none := by
  cases split : splitOnce schemeMark u with
  | none => rfl
  | some parts =>
    have whole : u = parts.1 ++ schemeMark ++ parts.2 := eq_of_splitOnce split
    rw [whole] at single
    have doubled : parts.1 ++ schemeMark ++ parts.2 =
        (parts.1 ++ [':']) ++ '/' :: '/' :: parts.2 := by simp [schemeMark]
    exact (Single.not_doubled (doubled ▸ single)).elim

theorem untrailed_assemble {scheme authority path : Uri} (parts : Parts scheme authority path) :
    Untrailed (assemble scheme authority path) := by
  unfold assemble
  split
  next empty =>
    rw [append_nil]
    exact untrailed_append _ (parts.nonempty empty) (untrailed_of_plain parts.plain)
  next nonempty =>
    refine untrailed_append _ (by simp) (untrailed_append _ (by simp) ?_)
    exact untrailed_append ['/'] nonempty parts.untrailed

theorem canonicalizeUri_of_isCanonical {u : Uri} (canonical : IsCanonical u) :
    canonicalizeUri u = u := by
  rcases canonical with ⟨single, untrailed⟩ | ⟨scheme, authority, path, parts, rfl⟩
  · unfold canonicalizeUri
    simp only [trimSlashes_of_untrailed untrailed, splitOnce_of_single single,
      collapseSlashes_of_single single untrailed]
  · obtain ⟨rest, first⟩ := parts.first
    have split := splitOnce_replace (by decide) first
      (authority ++ if path = [] then [] else '/' :: path)
    have inner : (splitOnce ['/'] (authority ++ if path = [] then [] else '/' :: path)).getD
        (authority ++ if path = [] then [] else '/' :: path, []) = (authority, path) := by
      split
      next empty => rw [append_nil, splitOnce_char_none parts.plain, empty]; rfl
      next => rw [splitOnce_char parts.plain]; rfl
    unfold canonicalizeUri
    rw [trimSlashes_of_untrailed (untrailed_assemble parts)]
    change (match splitOnce schemeMark (scheme ++ schemeMark ++ _) with
      | none => _
      | some (scheme, rest) => _) = _
    rw [split]
    simp only [inner, parts.schemeLower, parts.authorityLower,
      collapseSlashes_of_single parts.single parts.untrailed]

theorem first_lowercase {text scheme rest : Uri}
    (split : splitOnce schemeMark text = some (scheme, rest)) :
    splitOnce schemeMark (toAsciiLowercase scheme ++ schemeMark ++ toAsciiLowercase rest) =
      some (toAsciiLowercase scheme, toAsciiLowercase rest) := by
  have mapped := splitOnce_map (fun c m mark => toLower_eq_iff c mark) text
  rw [split, eq_of_splitOnce split, map_append, map_append] at mapped
  exact mapped

theorem isCanonical_canonicalizeUri (s : Uri) : IsCanonical (canonicalizeUri s) := by
  unfold canonicalizeUri
  cases split : splitOnce schemeMark (trimSlashes s) with
  | none =>
    simp only [split]
    exact .inl ⟨single_collapseSlashes _, untrailed_collapseSlashes _⟩
  | some found =>
    obtain ⟨scheme, rest⟩ := found
    have whole := eq_of_splitOnce split
    have ends : Untrailed (scheme ++ schemeMark ++ rest) := whole ▸ untrailed_trimSlashes s
    simp only [split]
    have canonical {authority path : Uri} (plain : '/' ∉ authority)
        (nonempty : collapseSlashes path = [] → authority ≠ []) :
        IsCanonical (assemble (toAsciiLowercase scheme) (toAsciiLowercase authority)
          (collapseSlashes path)) :=
      .inr ⟨_, _, _, ⟨⟨_, first_lowercase split⟩, lowercase_lowercase _, lowercase_lowercase _,
        slash_not_mem_lowercase plain, single_collapseSlashes _, untrailed_collapseSlashes _,
        fun empty => mt map_eq_nil_iff.mp (nonempty empty)⟩, rfl⟩
    cases inner : splitOnce ['/'] rest with
    | none =>
      refine canonical (not_mem_of_splitOnce_char_none inner) ?_
      rintro _ rfl
      exact ends '/' (by simp [schemeMark]) rfl
    | some found =>
      obtain ⟨authority, path⟩ := found
      refine canonical (not_mem_of_splitOnce_char inner) fun empty => ?_
      rw [eq_of_splitOnce inner] at ends
      have nonempty : path ≠ [] := by
        rintro rfl
        exact ends '/' (by simp) rfl
      refine absurd empty (collapseSlashes_ne_nil nonempty fun last same => ends last ?_)
      have same : path.getLast? = some last := same
      simp [getLast?_cons, getLast?_append, same]

theorem IsCanonical.append {u name : Uri} (canonical : IsCanonical u) (isName : IsName name) :
    IsCanonical (u ++ '/' :: name) := by
  rcases canonical with ⟨single, untrailed⟩ | ⟨scheme, authority, path, parts, rfl⟩
  · refine .inl ⟨single.append (fun _ => rfl) untrailed isName.2, ?_⟩
    exact untrailed_name _ isName.1 isName.2
  · by_cases empty : path = []
    · refine .inr ⟨scheme, authority, name, ⟨parts.first, parts.schemeLower, parts.authorityLower,
        parts.plain, single_of_plain _ isName.2, untrailed_of_plain isName.2,
        fun none => absurd none isName.1⟩, ?_⟩
      simp [assemble, empty, isName.1]
    · refine .inr ⟨scheme, authority, path ++ '/' :: name, ⟨parts.first, parts.schemeLower,
        parts.authorityLower, parts.plain, parts.single.append (fun _ => rfl) parts.untrailed
        isName.2, ?_, by simp⟩, ?_⟩
      · exact untrailed_name _ isName.1 isName.2
      · simp [assemble, empty]

theorem canonicalizeUri_child (base : Uri) {name : Uri} (isName : IsName name) :
    canonicalizeUri (child base name) = child base name :=
  canonicalizeUri_of_isCanonical ((isCanonical_canonicalizeUri base).append isName)

theorem stripTrailingSlash_child (base : Uri) {name : Uri} (isName : IsName name) :
    stripTrailingSlash (child base name) = child base name := by
  have untrailed : Untrailed (child base name) := untrailed_name _ isName.1 isName.2
  exact if_neg fun ends => untrailed '/' ends rfl

theorem IsCanonical.ends {u : Uri} (canonical : IsCanonical u) : Untrailed u := by
  rcases canonical with ⟨-, untrailed⟩ | ⟨scheme, authority, path, parts, rfl⟩
  · exact untrailed
  · exact untrailed_assemble parts

theorem isStrictlyUnder_iff {candidate base : Uri} : isStrictlyUnder candidate base = true ↔
    canonicalizeUri base ++ ['/'] <+: canonicalizeUri candidate := by
  simp only [isStrictlyUnder, Bool.and_eq_true, isPrefixOf_iff_prefix, decide_eq_true_eq]
  refine ⟨And.left, fun inside => ⟨inside, ?_⟩⟩
  refine lt_of_le_of_ne inside.length_le fun same => ?_
  -- a path of that length would end in the slash
  have whole := inside.eq_of_length same
  exact (isCanonical_canonicalizeUri candidate).ends '/' (by simp [← whole]) rfl

theorem locationsOverlap_iff {a b : Uri} : locationsOverlap a b = true ↔
    canonicalizeUri a = canonicalizeUri b ∨ canonicalizeUri b ++ ['/'] <+: canonicalizeUri a ∨
      canonicalizeUri a ++ ['/'] <+: canonicalizeUri b := by
  simp only [locationsOverlap, Bool.or_eq_true, beq_iff_eq, isStrictlyUnder_iff, or_assoc]

section Deletes

variable {deletePrefix : Uri → Except String Unit} {catalog : List RegisteredTable}
  {namespaceParts : List String} {base : Uri}

theorem judge_deletes {registered : List Uri} {entry : Uri} {f : Finding}
    (judged : judge false deletePrefix registered base entry = some f)
    (deletes : f.deletes = true) :
    f.path = stripTrailingSlash entry ∧ canonicalizeUri f.path ∉ registered := by
  revert judged
  fun_cases judge false deletePrefix registered base entry <;> rintro ⟨⟩
  · cases deletes
  next unregistered => exact ⟨rfl, by simpa using unregistered⟩

theorem judge_child (deletePrefix : Uri → Except String Unit) {registered : List Uri} {name : Uri}
    (isName : IsName name) (unregistered : child base name ∉ registered) :
    ∃ f, judge false deletePrefix registered base (child base name) = some f ∧
      f.path = child base name ∧ f.deletes = true := by
  have under : isStrictlyUnder (child base name) (canonicalizeUri base) = true := by
    rw [isStrictlyUnder_iff, canonicalizeUri_of_isCanonical (isCanonical_canonicalizeUri base),
      canonicalizeUri_child base isName]
    exact ⟨name, by simp [child]⟩
  have absent : registered.contains (child base name) = false := by simpa using unregistered
  refine ⟨⟨child base name, .orphan, match deletePrefix (child base name) with
    | .ok _ => .deleted
    | .error e => .deleteFailed e⟩, ?_, rfl, ?_⟩
  · simp only [judge, stripTrailingSlash_child base isName, canonicalizeUri_child base isName,
      under, absent, Bool.not_true, Bool.false_eq_true, if_false]
  · unfold Finding.deletes
    dsimp only
    cases deletePrefix (child base name) <;> rfl

theorem spared_child (spares : SparesTables deletePrefix catalog namespaceParts)
    (derived : namespaceBase catalog namespaceParts = .ok base) {name : Uri} (isName : IsName name)
    (unregistered : child base name ∉ registeredLocations catalog namespaceParts)
    {t : RegisteredTable} (registered : t ∈ catalog) :
    locationsOverlap (child base name) t.location = false := by
  obtain ⟨f, judged, path, deletes⟩ := judge_child deletePrefix isName unregistered
  rw [← path]
  refine spares base derived (fun _ => .ok [child base name]) ?_ [f] ?_ f (by simp) deletes t
    registered
  · rintro entries listed entry member
    obtain rfl := Except.ok.inj listed
    obtain rfl := mem_singleton.mp member
    rw [stripTrailingSlash_child base isName]
    exact ⟨name, isName, canonicalizeUri_child base isName⟩
  · simp only [purgeOrphanLocations, derived, filterMap_cons, judged, filterMap_nil]

theorem exists_fresh (base : Uri) (registered : List Uri) :
    ∃ name, IsName name ∧ child base name ∉ registered := by
  let longest := (registered.map List.length).sum
  refine ⟨List.replicate (longest + 1) 'a', ⟨by simp [replicate_succ], ?_⟩, fun listed => ?_⟩
  · intro slash
    exact absurd (eq_of_mem_replicate slash) (by decide)
  · have bound : (child base (List.replicate (longest + 1) 'a')).length ≤ longest :=
      single_le_sum (by simp) _ (mem_map_of_mem listed)
    simp only [child, length_append, length_cons, length_replicate] at bound
    omega

end Deletes

/-- A purge of orphans deletes no prefix that overlaps a registered table, exactly if the tables of
the other namespaces are out of the way of the base that it derives. -/
theorem purge_spares_tables_iff (deletePrefix : Uri → Except String Unit)
    (catalog : List RegisteredTable) (namespaceParts : List String) :
    SparesTables deletePrefix catalog namespaceParts ↔ Enclosed catalog namespaceParts := by
  constructor
  · intro spares base derived t registered
    obtain ⟨fresh, isFresh, unregistered⟩ :=
      exists_fresh base (registeredLocations catalog namespaceParts)
    have spared := spared_child spares derived isFresh unregistered registered
    rw [Bool.eq_false_iff, Ne, locationsOverlap_iff, canonicalizeUri_child base isFresh] at spared
    refine ⟨fun same => spared (.inr (.inl ⟨fresh, ?_⟩)), fun above => spared (.inr (.inl ?_)), ?_⟩
    · simp [same, child]
    · exact above.trans (prefix_append _ _)
    · intro name isName overlap
      by_contra unregistered
      have spared := spared_child spares derived isName unregistered registered
      rw [Bool.eq_false_iff, Ne, locationsOverlap_iff, canonicalizeUri_child base isName] at spared
      exact spared (overlap.imp Eq.symm .inr)
  · intro enclosed base derived list truthful findings purged f found deletes t registered
    obtain ⟨distinct, above, below⟩ := enclosed base derived t registered
    rw [Bool.eq_false_iff, Ne, locationsOverlap_iff]
    simp only [purgeOrphanLocations, derived] at purged
    cases listed : list (base ++ ['/']) with
    | error e => simp [listed] at purged
    | ok entries =>
      rw [listed] at purged
      obtain rfl := Except.ok.inj purged
      obtain ⟨entry, member, judged⟩ := mem_filterMap.mp found
      obtain ⟨path, unregistered⟩ := judge_deletes judged deletes
      obtain ⟨name, isName, canonical⟩ := truthful entries listed entry member
      rw [← path] at canonical
      rw [canonical] at unregistered ⊢
      rintro (same | outside | inside)
      · exact unregistered (below name isName (.inl same.symm))
      · rcases slash_prefix_child isName.2 outside with same | within
        · exact distinct same
        · exact above within
      · exact unregistered (below name isName (.inr inside))

/-- A table of the namespace `a` and one of the namespace `a.c` inside it. -/
def nested : List RegisteredTable :=
  [⟨["a"], "t", "s3://b/wh/a/t".toList, none⟩, ⟨["a", "c"], "u", "s3://b/wh/a/c/u".toList, none⟩]

/-- A purge of `a` takes the prefix of `a.c` for an orphan and deletes it, with the table in it. -/
theorem nested_namespace_purged :
    (purgeOrphanLocations nested ["a"] false (fun _ => .ok ()) fun _ =>
      .ok ["s3://b/wh/a/t/".toList, "s3://b/wh/a/c/".toList]).toOption.map
        (List.map fun f => (f.path, f.deletes)) = some [("s3://b/wh/a/c".toList, true)] ∧
    locationsOverlap "s3://b/wh/a/c".toList "s3://b/wh/a/c/u".toList = true ∧
    ¬ SparesTables (fun _ => .ok ()) nested ["a"] := by
  refine ⟨by decide +kernel, by decide +kernel, fun spares => ?_⟩
  have isName : IsName ['c'] := ⟨by decide, by decide⟩
  have derived : namespaceBase nested ["a"] = .ok "s3://b/wh/a".toList := by rfl
  have spared := spared_child spares derived isName (by decide +kernel)
    (mem_cons_of_mem _ mem_cons_self)
  exact absurd spared (by decide +kernel)

end Sqe.Coordinator.PurgeOrphans
