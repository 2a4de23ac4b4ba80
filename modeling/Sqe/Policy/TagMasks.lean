/- GID: Sqe/Policy/TagMasks
   generality: I
   digest: Tag masks merged into a resolved policy: what they protect, and in which order. -/

import Mathlib.Data.String.Basic
import Sqe.Library.Reorder
import Sqe.Policy.RangerDecisions

/-!
The tags of a table come as a map from column names to tags, and the merge goes through it in the
map's own order. Names are looked up in the policy without regard to case, so a column that the map
lists under two spellings meets, at its second entry, what the first one left.
-/

set_option autoImplicit false

namespace Sqe.Policy.TagMasks

open Sqe.DataFusion Sqe.Policy.RangerStore List Option

/-- A mask, or a template that takes the name of its column. -/
inductive TagMaskSpec
  | ready (mask : Mask)
  | custom (template : String)

inductive MaskPrecedence
  | tag
  | resource
deriving DecidableEq

structure TagRules where
  tagMasksByTag : String → Option TagMaskSpec
  tagFilters : List { e : Expr // isPlain e = true }
  unmappableTags : List String
  precedence : MaskPrecedence

structure ColumnTags where
  entries : List (String × List String)
  distinct : (entries.map Prod.fst).Nodup

section Merge

variable (host : Host) (rules : TagRules) (policy : ResolvedPolicy)

def pushRestricted (column : String) : ResolvedPolicy :=
  { policy with restrictedColumns := policy.restrictedColumns ++ [column] }

def customMask (template column : String) : Option Mask :=
  (host.parseSqlPredicate (template.replace "\x7bcol\x7d" column)).map fun e =>
    ⟨.custom e.1, custom_plain e⟩

/-- The loop over the tags of a column: the first one with a mask ends it. -/
def applyTags (policy : ResolvedPolicy) (column : String) (resourceMasked : Bool) :
    List String → ResolvedPolicy
  | [] => policy
  | tag :: tags =>
    match rules.tagMasksByTag tag with
    | some (.ready mask) => insertMask policy column mask
    | some (.custom template) =>
      match customMask host template column with
      | some mask => insertMask policy column mask
      | none => if resourceMasked then policy else pushRestricted policy column
    | none => applyTags policy column resourceMasked tags

def mergeColumn (entry : String × List String) : ResolvedPolicy :=
  let (column, tags) := entry
  if policy.isRestricted host.toLowercase column then policy
  else
    let resourceMasked := (policy.maskFor host.toLowercase column).isSome
    if resourceMasked && rules.precedence = .resource then policy
    else if !resourceMasked && tags.any rules.unmappableTags.contains then
      pushRestricted policy column
    else applyTags host rules policy column resourceMasked tags

/-- `merge_tag_masks`, over the entries in the order the map gives them. -/
def mergeTagMasks (order : List (String × List String)) : ResolvedPolicy :=
  rules.tagFilters.foldl pushFilter (order.foldl (mergeColumn host rules) policy)

end Merge

variable {host : Host} {rules : TagRules} {policy other : ResolvedPolicy}
  {fold : String → String} {column name : String}

def look (policy : ResolvedPolicy) (name : String) : Option MaskType :=
  (policy.columnMasks.find? fun entry => entry.1 == name).map Prod.snd

open ResolvedPolicy (firstKey)

theorem foldl_firstKey_first (entry : String × MaskType) (entries : List (String × MaskType)) :
    (entry :: entries).find? (fun x => x.1 == (entries.foldl firstKey entry).1) =
      some (entries.foldl firstKey entry) := by
  induction entries generalizing entry with
  | nil => simp
  | cons next entries ih =>
    have found := ih (firstKey entry next)
    have bound := foldl_firstKey_le (firstKey entry next) entries _
      mem_cons_self
    rw [foldl_cons]
    generalize entries.foldl firstKey (firstKey entry next) = r at *
    rw [firstKey] at found bound
    by_cases before : next.1 < entry.1
    · rw [if_pos before] at found bound
      have under : entry.1 ≠ r.1 := (lt_of_le_of_lt bound before).ne'
      rwa [find?_cons_of_neg (by simpa using under)]
    · rw [if_neg before] at found bound
      by_cases same : entry.1 = r.1
      · rw [find?_cons_of_pos (by simpa using same)] at found ⊢
        exact found
      · have skipped : next.1 ≠ r.1 := fun is =>
          same (le_antisymm (is ▸ not_lt.mp before) bound)
        rw [find?_cons_of_neg (by simpa using same)] at found ⊢
        rwa [find?_cons_of_neg (by simpa using skipped)]

theorem look_isSome :
    (look policy name).isSome = true ↔ ∃ mask, (name, mask) ∈ policy.columnMasks := by
  simp only [look, isSome_map, find?_isSome, beq_iff_eq]
  constructor
  · rintro ⟨⟨_, mask⟩, listed, rfl⟩
    exact ⟨mask, listed⟩
  · rintro ⟨mask, listed⟩
    exact ⟨_, listed, rfl⟩

theorem look_least {entry : String × MaskType} {entries : List (String × MaskType)}
    (spelled : (policy.columnMasks.filter fun x => fold x.1 == fold column) = entry :: entries) :
    fold (entries.foldl firstKey entry).1 = fold column ∧
      look policy (entries.foldl firstKey entry).1 =
        some (entries.foldl firstKey entry).2 := by
  have listed := foldl_firstKey_mem entry entries
  have found := foldl_firstKey_first entry entries
  generalize entries.foldl firstKey entry = r at *
  rw [← spelled] at listed found
  have folded : fold r.1 = fold column := by simpa using (mem_filter.mp listed).2
  have every : (fun x : String × MaskType =>
      decide ((fold x.1 == fold column) = true ∧ (x.1 == r.1) = true)) = fun x => x.1 == r.1 := by
    funext x
    by_cases same : x.1 = r.1 <;> simp [same, folded]
  rw [find?_filter, every] at found
  exact ⟨folded, by rw [look, found, map_some]⟩

theorem maskFor_preferred {mask : MaskType} (masked : policy.maskFor fold column = some mask) :
    ∃ key, fold key = fold column ∧ look policy key = some mask ∧
      ∀ key', fold key' = fold column → (look policy key').isSome = true →
        Preferred column key key' := by
  unfold ResolvedPolicy.maskFor at masked
  split at masked
  next entry own =>
    cases masked
    exact ⟨column, rfl, by rw [look, own, map_some], fun _ _ _ => .inl rfl⟩
  next noExact =>
    split at masked
    next => cases masked
    next entry entries spelled =>
      cases masked
      obtain ⟨folded, found⟩ := look_least spelled
      refine ⟨_, folded, found, fun key' folded' present => .inr ⟨?_, ?_⟩⟩
      · rintro rfl
        rw [look, noExact] at present
        cases present
      · obtain ⟨mask, listed⟩ := look_isSome.mp present
        refine foldl_firstKey_le entry entries (key', mask) ?_
        rw [← spelled]
        exact mem_filter.mpr ⟨listed, by simpa using folded'⟩

theorem maskFor_isSome_iff :
    (policy.maskFor fold column).isSome = true ↔
      ∃ key, fold key = fold column ∧ (look policy key).isSome = true := by
  constructor
  · intro masked
    obtain ⟨mask, is⟩ := isSome_iff_exists.mp masked
    obtain ⟨key, folded, found, -⟩ := maskFor_preferred is
    exact ⟨key, folded, by rw [found]; rfl⟩
  · rintro ⟨key, folded, present⟩
    obtain ⟨mask, listed⟩ := look_isSome.mp present
    by_contra missing
    rw [not_isSome_iff_eq_none] at missing
    exact maskFor_none missing listed folded

theorem maskFor_eq_of_only {mask : MaskType} (present : look policy name = some mask)
    (folded : fold name = fold column)
    (only : ∀ key, fold key = fold column → (look policy key).isSome = true → key = name) :
    policy.maskFor fold column = some mask := by
  have masked := maskFor_isSome_iff.mpr ⟨name, folded, by rw [present]; rfl⟩
  obtain ⟨found, is⟩ := isSome_iff_exists.mp masked
  obtain ⟨key, folded', looked, -⟩ := maskFor_preferred is
  rw [only key folded' (by rw [looked]; rfl), present] at looked
  rw [is, looked]

theorem maskFor_congr (same : ∀ key, fold key = fold column → look policy key = look other key) :
    policy.maskFor fold column = other.maskFor fold column := by
  have both : (policy.maskFor fold column).isSome = (other.maskFor fold column).isSome := by
    rw [Bool.eq_iff_iff, maskFor_isSome_iff, maskFor_isSome_iff]
    exact exists_congr fun key => and_congr_right fun folded => by rw [same key folded]
  cases masked : policy.maskFor fold column with
  | none =>
    rw [masked] at both
    exact (isSome_eq_false_iff.mp both.symm |> isNone_iff_eq_none.mp).symm
  | some mask =>
    rw [masked] at both
    obtain ⟨mask', masked'⟩ := isSome_iff_exists.mp both.symm
    obtain ⟨key, folded, found, first⟩ := maskFor_preferred masked
    obtain ⟨key', folded', found', first'⟩ := maskFor_preferred masked'
    have one : key = key' :=
      (first key' folded' (by rw [same key' folded', found']; rfl)).antisymm
        (first' key folded (by rw [← same key folded, found]; rfl))
    rw [masked', ← found, same key folded, one, found']

section

variable (host : Host) (rules : TagRules) (entry : String × List String)

/-- What the first tag with a mask gives on a column; `some none` is a template that fails. -/
def offer : Option (Option Mask) :=
  (entry.2.findSome? rules.tagMasksByTag).map fun
    | .ready mask => some mask
    | .custom template => customMask host template entry.1

inductive Effect
  | leave
  | restrict
  | mask (mask : Mask)

def Effect.on (policy : ResolvedPolicy) (column : String) : Effect → ResolvedPolicy
  | .leave => policy
  | .restrict => pushRestricted policy column
  | .mask given => insertMask policy column given

/-- The effect of an entry, from what the policy says of its column. -/
def effect (restricted masked : Bool) (entry : String × List String) : Effect :=
  if restricted || masked && rules.precedence = .resource then .leave
  else if !masked && entry.2.any rules.unmappableTags.contains then .restrict
  else
    match offer host rules entry with
    | none => .leave
    | some (some mask) => .mask mask
    | some none => if masked then .leave else .restrict

def effectOn (policy : ResolvedPolicy) (entry : String × List String) : Effect :=
  effect host rules (policy.isRestricted host.toLowercase entry.1)
    (policy.maskFor host.toLowercase entry.1).isSome entry

/-- An untouched column is restricted: by a tag that has no mask, or by a template that fails. -/
def Barred : Prop :=
  entry.2.any rules.unmappableTags.contains = true ∨ offer host rules entry = some none

def Offers (mask : Mask) : Prop :=
  entry.2.any rules.unmappableTags.contains = false ∧ offer host rules entry = some (some mask)

end

section Effects

variable {entry : String × List String} {mask : Mask} {restricted masked : Bool}

theorem applyTags_eq (tags : List String) :
    applyTags host rules policy column masked tags =
      match offer host rules (column, tags) with
      | none => policy
      | some (some mask) => insertMask policy column mask
      | some none => if masked then policy else pushRestricted policy column := by
  induction tags with
  | nil => rfl
  | cons tag tags ih =>
    rw [applyTags, offer, findSome?_cons]
    cases found : rules.tagMasksByTag tag with
    | none => exact ih
    | some spec =>
      cases spec with
      | ready mask => rfl
      | custom template =>
        simp only [map_some]
        cases customMask host template column <;> rfl

theorem mergeColumn_eq :
    mergeColumn host rules policy entry = (effectOn host rules policy entry).on policy entry.1 := by
  obtain ⟨column, -⟩ := entry
  rw [mergeColumn, effectOn, effect]
  cases policy.isRestricted host.toLowercase column with
  | true => rfl
  | false =>
    simp only [Bool.false_eq_true, if_false, Bool.false_or]
    split
    next => rfl
    next =>
      split
      next => rfl
      next =>
        rw [applyTags_eq]
        split <;> try rfl
        split <;> rfl

theorem effect_open_of_barred (barred : Barred host rules entry) :
    effect host rules false false entry = .restrict := by
  rcases barred with listed | broken
  · simp only [effect, listed, Bool.false_and, Bool.or_self, Bool.false_eq_true, if_false,
      Bool.not_false, Bool.and_self, if_true]
  · simp only [effect, broken, Bool.false_and, Bool.or_self, Bool.false_eq_true, if_false, ite_self]

theorem effect_open_of_offers (offers : Offers host rules entry mask) :
    effect host rules false false entry = .mask mask := by
  simp only [effect, offers.1, offers.2, Bool.false_and, Bool.or_self, Bool.and_false,
    Bool.false_eq_true, if_false]

theorem effect_of_none (free : entry.2.any rules.unmappableTags.contains = false)
    (none : offer host rules entry = none) :
    effect host rules restricted masked entry = .leave := by
  simp only [effect, free, none, Bool.and_false, Bool.false_eq_true, if_false, ite_self]

theorem barred_or_offers_of_offer {given : Option Mask} (is : offer host rules entry = some given) :
    Barred host rules entry ∨ ∃ mask, Offers host rules entry mask := by
  by_cases listed : entry.2.any rules.unmappableTags.contains = true
  · exact .inl (.inl listed)
  · cases given with
    | none => exact .inl (.inr is)
    | some mask => exact .inr ⟨mask, Bool.eq_false_iff.mpr listed, is⟩

theorem barred_or_offers (host : Host) (rules : TagRules) (entry : String × List String) :
    Barred host rules entry ∨ (∃ mask, Offers host rules entry mask) ∨
      ∀ restricted masked, effect host rules restricted masked entry = .leave := by
  cases given : offer host rules entry with
  | some => exact (barred_or_offers_of_offer given).imp_right .inl
  | none =>
    by_cases listed : entry.2.any rules.unmappableTags.contains = true
    · exact .inl (.inl listed)
    · exact .inr (.inr fun _ _ => effect_of_none (Bool.eq_false_iff.mpr listed) given)

theorem effect_masked_ne_restrict : effect host rules restricted true entry ≠ .restrict := by
  unfold effect
  split
  next => nofun
  next =>
    simp only [Bool.not_true, Bool.false_and, Bool.false_eq_true, if_false, if_true]
    split <;> nofun

theorem effect_masked_resource (resource : rules.precedence = .resource) :
    effect host rules restricted true entry = .leave := by
  simp only [effect, resource, Bool.true_and, decide_true, Bool.or_true, if_true]

theorem effect_masked_of_offers (tagged : rules.precedence = .tag)
    (offers : Offers host rules entry mask) :
    effect host rules false true entry = .mask mask := by
  simp only [effect, offers.2, tagged, Bool.not_true, Bool.false_and, reduceCtorEq, decide_false,
    Bool.and_false, Bool.or_self, Bool.false_eq_true, if_false]

end Effects

section On

variable {mask : Mask} {e : Effect} {x : String}

theorem isRestricted_pushRestricted :
    (pushRestricted policy column).isRestricted fold x =
      (policy.isRestricted fold x || fold column == fold x) := by
  simp only [ResolvedPolicy.isRestricted, pushRestricted, any_append, any_cons,
    any_nil, Bool.or_false]

theorem look_insertMask :
    look (insertMask policy column mask) name =
      if name = column then some mask.1 else look policy name := by
  simp only [look, insertMask, find?_append, find?_filter]
  by_cases own : name = column
  · have gone : policy.columnMasks.find? (fun x =>
        decide ((x.1 != column) = true ∧ (x.1 == name) = true)) = none :=
      find?_eq_none.mpr fun x _ => by simp [own]
    rw [gone, if_pos own, own]
    simp
  · have kept : (fun x : String × MaskType =>
        decide ((x.1 != column) = true ∧ (x.1 == name) = true)) = fun x => x.1 == name := by
      funext x
      by_cases same : x.1 = name <;> simp [same, own]
    rw [kept, if_neg own, find?_cons_of_neg (by simpa using Ne.symm own), find?_nil, or_none]

theorem isRestricted_on :
    (e.on policy column).isRestricted fold x = true ↔
      policy.isRestricted fold x = true ∨ e = .restrict ∧ fold column = fold x := by
  cases e with
  | leave => simp [Effect.on]
  | restrict => simp [Effect.on, isRestricted_pushRestricted]
  | mask mask => simp [Effect.on, insertMask, ResolvedPolicy.isRestricted]

theorem maskFor_insertMask_apart (apart : fold column ≠ fold x) :
    (insertMask policy column mask).maskFor fold x = policy.maskFor fold x := by
  refine maskFor_congr fun key folded => ?_
  rw [look_insertMask, if_neg]
  rintro rfl
  exact apart folded

theorem maskFor_insertMask_open (fresh : policy.maskFor fold column = none)
    (folded : fold column = fold x) :
    (insertMask policy column mask).maskFor fold x = some mask.1 := by
  have absent : ∀ key, fold key = fold column → (look policy key).isSome = false := by
    intro key same
    by_contra present
    have masked := maskFor_isSome_iff.mpr ⟨key, same, (Bool.not_eq_false _).mp present⟩
    rw [fresh] at masked
    cases masked
  have own : look (insertMask policy column mask) column = some mask.1 := by
    rw [look_insertMask, if_pos rfl]
  refine maskFor_eq_of_only own folded fun key same present => ?_
  by_contra other
  rw [look_insertMask, if_neg other, absent key (same.trans folded.symm)] at present
  cases present

theorem isSome_maskFor_on (masked : (policy.maskFor fold x).isSome = true) :
    ((e.on policy column).maskFor fold x).isSome = true := by
  cases e with
  | leave => exact masked
  | restrict => exact masked
  | mask mask =>
    obtain ⟨key, folded, present⟩ := maskFor_isSome_iff.mp masked
    refine maskFor_isSome_iff.mpr ⟨key, folded, ?_⟩
    rw [Effect.on, look_insertMask]
    split
    next => rfl
    next => exact present

end On

end Sqe.Policy.TagMasks
