/- GID: Sqe/Policy/TagMasksOrder
   generality: I
   digest: When the order of the columns does not matter to the merge of tag masks. -/

import Sqe.Policy.TagMasks

set_option autoImplicit false

namespace Sqe.Policy.TagMasks

open Sqe.DataFusion Sqe.Policy.RangerStore Sqe.Library.Reorder List Option ResolvedPolicy

variable {host : Host} {rules : TagRules} {policy other : ResolvedPolicy}
  {fold : String → String} {column name : String}

/-- The same columns restricted, the same masks; where tags win, under the same keys. -/
structure Alike (host : Host) (rules : TagRules) (policy other : ResolvedPolicy) : Prop where
  restricted : ∀ x, policy.isRestricted host.toLowercase x = other.isRestricted host.toLowercase x
  masks : ∀ x, policy.maskFor host.toLowercase x = other.maskFor host.toLowercase x
  looks : rules.precedence = .tag → ∀ x, look policy x = look other x

theorem alike_equivalence (host : Host) (rules : TagRules) : Equivalence (Alike host rules) where
  refl _ := ⟨fun _ => rfl, fun _ => rfl, fun _ _ => rfl⟩
  symm alike := ⟨fun x => (alike.restricted x).symm, fun x => (alike.masks x).symm,
    fun tag x => (alike.looks tag x).symm⟩
  trans one next := ⟨fun x => (one.restricted x).trans (next.restricted x),
    fun x => (one.masks x).trans (next.masks x),
    fun tag x => (one.looks tag x).trans (next.looks tag x)⟩

theorem Alike.of_eq (same : policy = other) : Alike host rules policy other :=
  same ▸ (alike_equivalence host rules).refl policy

theorem alike_of_looks
    (restricted : ∀ x, policy.isRestricted host.toLowercase x =
      other.isRestricted host.toLowercase x)
    (looks : ∀ x, look policy x = look other x) : Alike host rules policy other :=
  ⟨restricted, fun _ => maskFor_congr fun key _ => looks key, fun _ => looks⟩

theorem look_on {e : Effect} :
    look (e.on policy column) name =
      match e with
      | .mask mask => if name = column then some mask.1 else look policy name
      | _ => look policy name := by
  cases e with
  | leave => rfl
  | restrict => rfl
  | mask mask => exact look_insertMask

theorem on_commute {e e' : Effect} {column' : String} (apart : column ≠ column') :
    Alike host rules (e'.on (e.on policy column) column') (e.on (e'.on policy column') column) := by
  refine alike_of_looks (fun x => ?_) fun x => ?_
  · rw [Bool.eq_iff_iff, isRestricted_on, isRestricted_on, isRestricted_on, isRestricted_on]
    tauto
  · simp only [look_on]
    cases e <;> cases e' <;> try rfl
    next mask mask' =>
      by_cases own : x = column
      · simp only [own, apart, if_true, if_false]
      · simp only [own, if_false]

theorem effectOn_alike (alike : Alike host rules policy other) (entry : String × List String) :
    effectOn host rules policy entry = effectOn host rules other entry := by
  rw [effectOn, effectOn, alike.restricted, alike.masks]

theorem mergeColumn_alike (policy other : ResolvedPolicy) (entry : String × List String)
    (alike : Alike host rules policy other) :
    Alike host rules (mergeColumn host rules policy entry)
      (mergeColumn host rules other entry) := by
  have looks : rules.precedence = .tag → ∀ x, look (mergeColumn host rules policy entry) x =
      look (mergeColumn host rules other entry) x := by
    intro tagged x
    rw [mergeColumn_eq, mergeColumn_eq, effectOn_alike alike, look_on, look_on,
      alike.looks tagged x]
  refine ⟨fun x => ?_, fun x => ?_, looks⟩
  · rw [mergeColumn_eq, mergeColumn_eq, effectOn_alike alike, Bool.eq_iff_iff, isRestricted_on,
      isRestricted_on, alike.restricted]
  · cases precedence : rules.precedence with
    | tag => exact maskFor_congr fun key _ => looks precedence key
    | resource =>
      rw [mergeColumn_eq, mergeColumn_eq, ← effectOn_alike alike]
      cases what : effectOn host rules policy entry with
      | leave => exact alike.masks x
      | restrict => exact alike.masks x
      | mask mask =>
        have fresh : policy.maskFor host.toLowercase entry.1 = none := by
          cases masked : policy.maskFor host.toLowercase entry.1 with
          | none => rfl
          | some _ =>
            rw [effectOn, masked, isSome_some, effect_masked_resource precedence] at what
            cases what
        by_cases folded : host.toLowercase entry.1 = host.toLowercase x
        · rw [Effect.on, Effect.on, maskFor_insertMask_open fresh folded,
            maskFor_insertMask_open (alike.masks _ ▸ fresh) folded]
        · rw [Effect.on, Effect.on, maskFor_insertMask_apart folded,
            maskFor_insertMask_apart folded, alike.masks]

/-- No two entries of one column that the policy leaves open disagree: one restricting it and one
masking it or, where the first mask stays, two masking it differently. -/
def Unambiguous (host : Host) (rules : TagRules) (policy : ResolvedPolicy)
    (entries : List (String × List String)) : Prop :=
  ∀ a ∈ entries, ∀ b ∈ entries, host.toLowercase a.1 = host.toLowercase b.1 →
    policy.governs host.toLowercase a.1 = false → ∀ mask, Offers host rules b mask →
      ¬ Barred host rules a ∧
        (rules.precedence = .resource → ∀ mask', Offers host rules a mask' → mask' = mask)

def Commute (host : Host) (rules : TagRules) (policy : ResolvedPolicy)
    (a b : String × List String) : Prop :=
  Alike host rules (mergeColumn host rules (mergeColumn host rules policy a) b)
    (mergeColumn host rules (mergeColumn host rules policy b) a)

section Pair

variable {a b : String × List String} {x : String}

section

variable (folded : fold name = fold column)
include folded

theorem isRestricted_fold :
    policy.isRestricted fold name = policy.isRestricted fold column := by
  simp only [isRestricted, folded]

theorem isSome_maskFor_fold :
    (policy.maskFor fold name).isSome = (policy.maskFor fold column).isSome := by
  rw [Bool.eq_iff_iff, maskFor_isSome_iff, maskFor_isSome_iff, folded]

theorem governs_fold :
    policy.governs fold name = policy.governs fold column := by
  rw [governs, isRestricted_fold folded, isSome_maskFor_fold folded, governs]

end

theorem isRestricted_mergeColumn :
    (mergeColumn host rules policy a).isRestricted host.toLowercase x = true ↔
      policy.isRestricted host.toLowercase x = true ∨
        effectOn host rules policy a = .restrict ∧
          host.toLowercase a.1 = host.toLowercase x := by
  rw [mergeColumn_eq, isRestricted_on]

theorem maskFor_mergeColumn_apart (apart : host.toLowercase a.1 ≠ host.toLowercase x) :
    (mergeColumn host rules policy a).maskFor host.toLowercase x =
      policy.maskFor host.toLowercase x := by
  rw [mergeColumn_eq]
  cases effectOn host rules policy a with
  | leave => rfl
  | restrict => rfl
  | mask mask => exact maskFor_insertMask_apart apart

theorem isRestricted_mergeColumn_apart (apart : host.toLowercase a.1 ≠ host.toLowercase x) :
    (mergeColumn host rules policy a).isRestricted host.toLowercase x =
      policy.isRestricted host.toLowercase x := by
  rw [Bool.eq_iff_iff, isRestricted_mergeColumn]
  exact or_iff_left fun restricts => apart restricts.2

theorem mergeColumn_leave (leaves : effectOn host rules policy a = .leave) :
    mergeColumn host rules policy a = policy := by
  rw [mergeColumn_eq, leaves]
  rfl

theorem mergeColumn_commute_of_steady (apart : a.1 ≠ b.1)
    (steady : effectOn host rules (mergeColumn host rules policy a) b =
      effectOn host rules policy b)
    (steady' : effectOn host rules (mergeColumn host rules policy b) a =
      effectOn host rules policy a) :
    Commute host rules policy a b := by
  rw [Commute, mergeColumn_eq, steady, mergeColumn_eq, mergeColumn_eq, steady', mergeColumn_eq]
  exact on_commute apart

theorem effectOn_apart (apart : host.toLowercase a.1 ≠ host.toLowercase b.1) :
    effectOn host rules (mergeColumn host rules policy a) b = effectOn host rules policy b := by
  rw [effectOn, isRestricted_mergeColumn_apart apart, maskFor_mergeColumn_apart apart]
  rfl

theorem mergeColumn_masked (rules : TagRules) (a : String × List String)
    (open_ : policy.isRestricted host.toLowercase x = false)
    (masked : (policy.maskFor host.toLowercase x).isSome = true) :
    (mergeColumn host rules policy a).isRestricted host.toLowercase x = false ∧
      ((mergeColumn host rules policy a).maskFor host.toLowercase x).isSome = true := by
  constructor
  · rw [← Bool.not_eq_true, isRestricted_mergeColumn]
    rintro (restricted | ⟨restricts, folded⟩)
    · rw [open_] at restricted
      cases restricted
    · rw [effectOn, isSome_maskFor_fold folded, masked] at restricts
      exact effect_masked_ne_restrict restricts
  · rw [mergeColumn_eq]
    exact isSome_maskFor_on masked

theorem mergeColumn_offers {mask : Mask}
    (open_ : policy.governs host.toLowercase a.1 = false) (offers : Offers host rules a mask)
    (folded : host.toLowercase a.1 = host.toLowercase x) :
    (mergeColumn host rules policy a).isRestricted host.toLowercase x = false ∧
      (mergeColumn host rules policy a).maskFor host.toLowercase x = some mask.1 := by
  obtain ⟨unrestricted, unmasked⟩ := Bool.or_eq_false_iff.mp open_
  have what : effectOn host rules policy a = .mask mask := by
    rw [effectOn, unrestricted, unmasked]
    exact effect_open_of_offers offers
  constructor
  · rw [← Bool.not_eq_true, isRestricted_mergeColumn, what]
    rintro (restricted | ⟨restricts, -⟩)
    · rw [← isRestricted_fold folded, unrestricted] at restricted
      cases restricted
    · cases restricts
  · rw [mergeColumn_eq, what]
    refine maskFor_insertMask_open ?_ folded
    rwa [isSome_eq_false_iff, isNone_iff_eq_none] at unmasked

theorem mergeColumn_barred (open_ : policy.governs host.toLowercase a.1 = false)
    (barred : Barred host rules a) :
    mergeColumn host rules policy a = pushRestricted policy a.1 := by
  obtain ⟨unrestricted, unmasked⟩ := Bool.or_eq_false_iff.mp open_
  rw [mergeColumn_eq, effectOn, unrestricted, unmasked, effect_open_of_barred barred]
  rfl

theorem mergeColumn_commute_of_idle
    (idle : ∀ restricted masked, effect host rules restricted masked a = .leave) :
    mergeColumn host rules (mergeColumn host rules policy a) b =
      mergeColumn host rules (mergeColumn host rules policy b) a := by
  rw [mergeColumn_leave (idle _ _), mergeColumn_leave (idle _ _)]

section

variable (folded : host.toLowercase a.1 = host.toLowercase b.1)
  (open_ : policy.governs host.toLowercase a.1 = false)
include folded open_

theorem mergeColumn_twice_barred (barred : Barred host rules a) :
    mergeColumn host rules (mergeColumn host rules policy a) b = pushRestricted policy a.1 := by
  have restricted : (pushRestricted policy a.1).isRestricted host.toLowercase b.1 = true := by
    rw [isRestricted_pushRestricted, folded, beq_self_eq_true, Bool.or_true]
  rw [mergeColumn_barred open_ barred]
  refine mergeColumn_leave ?_
  rw [effectOn, restricted]
  rfl

theorem effectOn_after_offers {mask mask' : Mask} (offers : Offers host rules a mask)
    (offers' : Offers host rules b mask') :
    effectOn host rules (mergeColumn host rules policy a) b = effect host rules false true b ∧
      effectOn host rules policy b = .mask mask' := by
  obtain ⟨unrestricted, masked⟩ := mergeColumn_offers open_ offers folded
  rw [governs_fold folded] at open_
  obtain ⟨free, bare⟩ := Bool.or_eq_false_iff.mp open_
  refine ⟨by rw [effectOn, unrestricted, masked]; rfl, ?_⟩
  rw [effectOn, free, bare]
  exact effect_open_of_offers offers'

end

section

variable (apart : a.1 ≠ b.1) (folded : host.toLowercase a.1 = host.toLowercase b.1)
  (open_ : policy.governs host.toLowercase a.1 = false)
include apart folded open_

theorem mergeColumn_commute_of_offers {mask mask' : Mask}
    (offers : Offers host rules a mask) (offers' : Offers host rules b mask')
    (same : rules.precedence = .resource → mask = mask') :
    Commute host rules policy a b := by
  have open' := (governs_fold folded).symm.trans open_
  obtain ⟨afterA, atB⟩ := effectOn_after_offers folded open_ offers offers'
  obtain ⟨afterB, atA⟩ := effectOn_after_offers folded.symm open' offers' offers
  cases precedence : rules.precedence with
  | tag =>
    refine mergeColumn_commute_of_steady apart ?_ ?_
    · rw [afterA, atB, effect_masked_of_offers precedence offers']
    · rw [afterB, atA, effect_masked_of_offers precedence offers]
  | resource =>
    rw [effect_masked_resource precedence] at afterA afterB
    rw [Commute, mergeColumn_leave afterA, mergeColumn_leave afterB]
    refine ⟨fun x => ?_, fun x => ?_, fun tagged => by rw [precedence] at tagged; cases tagged⟩
    · rw [Bool.eq_iff_iff, isRestricted_mergeColumn, isRestricted_mergeColumn, atA, atB]
      simp
    · by_cases ours : host.toLowercase a.1 = host.toLowercase x
      · rw [(mergeColumn_offers open_ offers ours).2,
          (mergeColumn_offers open' offers' (folded.symm.trans ours)).2, same precedence]
      · rw [maskFor_mergeColumn_apart ours,
          maskFor_mergeColumn_apart fun is => ours (folded.trans is)]

theorem mergeColumn_commute_open
    (clear : ∀ mask, Offers host rules b mask → ¬ Barred host rules a ∧
      (rules.precedence = .resource → ∀ mask', Offers host rules a mask' → mask' = mask))
    (clear' : ∀ mask, Offers host rules a mask → ¬ Barred host rules b) :
    Commute host rules policy a b := by
  have open' := (governs_fold folded).symm.trans open_
  rcases barred_or_offers host rules a with barred | ⟨mask, offers⟩ | idle
  · rcases barred_or_offers host rules b with barred' | ⟨mask', offers'⟩ | idle'
    · rw [Commute, mergeColumn_twice_barred folded open_ barred,
        mergeColumn_twice_barred folded.symm open' barred']
      refine alike_of_looks (fun x => ?_) fun _ => rfl
      rw [isRestricted_pushRestricted, isRestricted_pushRestricted, folded]
    · exact absurd barred (clear mask' offers').1
    · exact .of_eq (mergeColumn_commute_of_idle idle').symm
  · rcases barred_or_offers host rules b with barred' | ⟨mask', offers'⟩ | idle'
    · exact absurd barred' (clear' mask offers)
    · exact mergeColumn_commute_of_offers apart folded open_ offers offers'
        fun resource => (clear mask' offers').2 resource mask offers
    · exact .of_eq (mergeColumn_commute_of_idle idle').symm
  · exact .of_eq (mergeColumn_commute_of_idle idle)

end

theorem mergeColumn_commute {entries : List (String × List String)}
    (clear : Unambiguous host rules policy entries) (listed : a ∈ entries) (listed' : b ∈ entries)
    (apart : a.1 ≠ b.1) :
    Commute host rules policy a b := by
  by_cases folded : host.toLowercase a.1 = host.toLowercase b.1
  · cases restricted : policy.isRestricted host.toLowercase a.1 with
    | true =>
      -- Neither entry touches a restricted column.
      have leaves : effectOn host rules policy a = .leave := by rw [effectOn, restricted]; rfl
      have leaves' : effectOn host rules policy b = .leave := by
        rw [effectOn, ← isRestricted_fold folded, restricted]
        rfl
      rw [Commute, mergeColumn_leave leaves, mergeColumn_leave leaves', mergeColumn_leave leaves]
      exact .of_eq rfl
    | false =>
      cases masked : (policy.maskFor host.toLowercase a.1).isSome with
      | true =>
        have restricted' := (isRestricted_fold folded).symm.trans restricted
        have masked' := (isSome_maskFor_fold folded).symm.trans masked
        have after := mergeColumn_masked rules a restricted' masked'
        have after' := mergeColumn_masked rules b restricted masked
        refine mergeColumn_commute_of_steady apart ?_ ?_
        · rw [effectOn, after.1, after.2, effectOn, restricted', masked']
        · rw [effectOn, after'.1, after'.2, effectOn, restricted, masked]
      | false =>
        have open_ : policy.governs host.toLowercase a.1 = false := by
          rw [governs, restricted, masked]
          rfl
        have open' := (governs_fold folded).symm.trans open_
        exact mergeColumn_commute_open apart folded open_
          (clear a listed b listed' folded open_)
          fun mask offers => (clear b listed' a listed folded.symm open' mask offers).1
  · exact mergeColumn_commute_of_steady apart (effectOn_apart folded)
      (effectOn_apart (Ne.symm folded))

end Pair

section Run

variable {entries : List (String × List String)} {x : String}

theorem governs_mergeColumn (entry : String × List String)
    (governed : policy.governs host.toLowercase x = true) :
    (mergeColumn host rules policy entry).governs host.toLowercase x = true := by
  rcases Bool.or_eq_true_iff.mp governed with restricted | masked
  · exact Bool.or_eq_true_iff.mpr (.inl (isRestricted_mergeColumn.mpr (.inl restricted)))
  · refine Bool.or_eq_true_iff.mpr (.inr ?_)
    rw [mergeColumn_eq]
    exact isSome_maskFor_on masked

theorem unambiguous_mergeColumn (entry : String × List String)
    (clear : Unambiguous host rules policy entries) :
    Unambiguous host rules (mergeColumn host rules policy entry) entries := by
  intro a listed b listed' folded open_
  refine clear a listed b listed' folded ?_
  by_contra governed
  rw [governs_mergeColumn entry ((Bool.not_eq_false _).mp governed)] at open_
  cases open_

variable {order : List (String × List String)}

theorem foldl_mergeColumn_alike (columns : ColumnTags)
    (clear : Unambiguous host rules policy columns.entries)
    (perm : order.Perm columns.entries) :
    Alike host rules (order.foldl (mergeColumn host rules) policy)
      (columns.entries.foldl (mergeColumn host rules) policy) := by
  refine foldl_perm_related (alike_equivalence host rules)
    (fun p => Unambiguous host rules p columns.entries) mergeColumn_alike
    (fun p a _ clear => unambiguous_mergeColumn a clear) (fun p clear a listed b listed' => ?_)
    perm (fun a listed => perm.mem_iff.mp listed) clear
  by_cases same : a.1 = b.1
  · have one : a = b := inj_on_of_nodup_map columns.distinct listed listed' same
    exact .of_eq (by rw [one])
  · exact mergeColumn_commute clear listed listed' same

theorem barred_or_offers_of_tagged (host : Host) {entry : String × List String}
    (tagged : ∃ tag ∈ entry.2, tag ∈ rules.unmappableTags ∨
      (rules.tagMasksByTag tag).isSome = true) :
    Barred host rules entry ∨ ∃ mask, Offers host rules entry mask := by
  obtain ⟨tag, carried, unmappable | masked⟩ := tagged
  · exact .inl (.inl (any_eq_true.mpr ⟨tag, carried, by simpa using unmappable⟩))
  · have found : (entry.2.findSome? rules.tagMasksByTag).isSome = true :=
      findSome?_isSome_iff.mpr ⟨tag, carried, masked⟩
    obtain ⟨spec, is⟩ := isSome_iff_exists.mp found
    exact barred_or_offers_of_offer (by rw [offer, is]; rfl)

theorem governs_of_tagged {entry : String × List String}
    (tagged : ∃ tag ∈ entry.2, tag ∈ rules.unmappableTags ∨
      (rules.tagMasksByTag tag).isSome = true) :
    (mergeColumn host rules policy entry).governs host.toLowercase entry.1 = true := by
  cases governed : policy.governs host.toLowercase entry.1 with
  | true => exact governs_mergeColumn entry governed
  | false =>
    rcases barred_or_offers_of_tagged host tagged with barred | ⟨mask, offers⟩
    · rw [mergeColumn_barred governed barred, governs, isRestricted_pushRestricted,
        beq_self_eq_true, Bool.or_true, Bool.true_or]
    · rw [governs, (mergeColumn_offers governed offers rfl).2]
      exact Bool.or_true _

theorem governs_foldl (governed : policy.governs host.toLowercase x = true) :
    (order.foldl (mergeColumn host rules) policy).governs host.toLowercase x = true :=
  foldl_kept (fun p : ResolvedPolicy => p.governs host.toLowercase x = true)
    (fun _ entry _ => governs_mergeColumn entry) governed

theorem isRestricted_foldl (restricted : policy.isRestricted host.toLowercase x = true) :
    (order.foldl (mergeColumn host rules) policy).isRestricted host.toLowercase x = true :=
  foldl_kept (fun p : ResolvedPolicy => p.isRestricted host.toLowercase x = true)
    (fun _ _ _ kept => isRestricted_mergeColumn.mpr (.inl kept)) restricted

theorem foldl_pushFilter (policy : ResolvedPolicy)
    (filters : List { e : Expr // isPlain e = true }) :
    (filters.foldl pushFilter policy).rowFilters =
        policy.rowFilters ++ filters.map Subtype.val ∧
      (filters.foldl pushFilter policy).columnMasks = policy.columnMasks ∧
      (filters.foldl pushFilter policy).restrictedColumns = policy.restrictedColumns := by
  induction filters generalizing policy with
  | nil => simp
  | cons f filters ih =>
    obtain ⟨rows, masks, restricted⟩ := ih (pushFilter policy f)
    rw [foldl_cons]
    refine ⟨?_, masks, restricted⟩
    rw [rows, pushFilter, map_cons, append_assoc, singleton_append]

variable (order : List (String × List String))

theorem rowFilters_foldl :
    (order.foldl (mergeColumn host rules) policy).rowFilters = policy.rowFilters := by
  refine foldl_kept (fun p : ResolvedPolicy => p.rowFilters = policy.rowFilters) ?_ rfl
  intro p entry _ kept
  rw [mergeColumn_eq]
  cases effectOn host rules p entry with
  | leave => exact kept
  | restrict => exact kept
  | mask mask => exact kept

theorem maskFor_mergeTagMasks :
    (mergeTagMasks host rules policy order).maskFor host.toLowercase x =
      (order.foldl (mergeColumn host rules) policy).maskFor host.toLowercase x := by
  obtain ⟨-, masks, -⟩ := foldl_pushFilter (order.foldl (mergeColumn host rules) policy)
    rules.tagFilters
  rw [mergeTagMasks, maskFor, masks, maskFor]

theorem isRestricted_mergeTagMasks :
    (mergeTagMasks host rules policy order).isRestricted host.toLowercase x =
      (order.foldl (mergeColumn host rules) policy).isRestricted host.toLowercase x := by
  obtain ⟨-, -, restricted⟩ :=
    foldl_pushFilter (order.foldl (mergeColumn host rules) policy) rules.tagFilters
  rw [mergeTagMasks, isRestricted, restricted, isRestricted]

theorem governs_mergeTagMasks :
    (mergeTagMasks host rules policy order).governs host.toLowercase x =
      (order.foldl (mergeColumn host rules) policy).governs host.toLowercase x := by
  rw [governs, isRestricted_mergeTagMasks, maskFor_mergeTagMasks, governs]

end Run

/-- Restrictions and masks stay, tags with a rule protect their column, and the filters are the
policy's and then those of the tags. -/
structure Protects (host : Host) (rules : TagRules) (policy : ResolvedPolicy)
    (columns : ColumnTags) (merged : ResolvedPolicy) : Prop where
  restricted : ∀ x, policy.isRestricted host.toLowercase x = true →
    merged.isRestricted host.toLowercase x = true
  masked : ∀ x, (policy.maskFor host.toLowercase x).isSome = true →
    merged.governs host.toLowercase x = true
  tagged : ∀ entry ∈ columns.entries,
    (∃ tag ∈ entry.2, tag ∈ rules.unmappableTags ∨ (rules.tagMasksByTag tag).isSome = true) →
      merged.governs host.toLowercase entry.1 = true
  rowFilters : merged.rowFilters = policy.rowFilters ++ rules.tagFilters.map Subtype.val

/-- Every order of the map's entries gives every column one treatment. -/
def OrderFree (host : Host) (rules : TagRules) (policy : ResolvedPolicy) (columns : ColumnTags) :
    Prop :=
  ∀ order order', order.Perm columns.entries → order'.Perm columns.entries → ∀ x,
    (mergeTagMasks host rules policy order).isRestricted host.toLowercase x =
        (mergeTagMasks host rules policy order').isRestricted host.toLowercase x ∧
      (mergeTagMasks host rules policy order).maskFor host.toLowercase x =
        (mergeTagMasks host rules policy order').maskFor host.toLowercase x

theorem mergeTagMasks_protects (columns : ColumnTags) {order : List (String × List String)}
    (perm : order.Perm columns.entries) :
    Protects host rules policy columns (mergeTagMasks host rules policy order) where
  restricted x restricted := by
    rw [isRestricted_mergeTagMasks]
    exact isRestricted_foldl restricted
  masked x masked := by
    rw [governs_mergeTagMasks]
    exact governs_foldl (Bool.or_eq_true_iff.mpr (.inr masked))
  tagged entry listed tagged := by
    rw [governs_mergeTagMasks]
    obtain ⟨-, -, rfl⟩ := append_of_mem (perm.mem_iff.mpr listed)
    rw [foldl_append, foldl_cons]
    exact governs_foldl (governs_of_tagged tagged)
  rowFilters := by
    rw [mergeTagMasks, (foldl_pushFilter _ rules.tagFilters).1, rowFilters_foldl]

section First

variable {columns : ColumnTags} {a b : String × List String} {mask : Mask} {x : String}

theorem exists_order_first (listed : a ∈ columns.entries) :
    ∃ later, (a :: later).Perm columns.entries :=
  ⟨columns.entries.erase a, (perm_cons_erase listed).symm⟩

theorem unrestricted_of_offers_first (open_ : policy.governs host.toLowercase b.1 = false)
    (offers : Offers host rules b mask) (folded : host.toLowercase b.1 = host.toLowercase x)
    (later : List (String × List String)) :
    ((b :: later).foldl (mergeColumn host rules) policy).isRestricted host.toLowercase x =
      false := by
  obtain ⟨unrestricted, masked⟩ := mergeColumn_offers open_ offers folded
  have kept := foldl_kept (fun p : ResolvedPolicy => p.isRestricted host.toLowercase x = false ∧
      (p.maskFor host.toLowercase x).isSome = true)
    (fun p entry (_ : entry ∈ later) kept => mergeColumn_masked rules entry kept.1 kept.2)
    ⟨unrestricted, by rw [masked]; rfl⟩
  exact kept.1

theorem maskFor_of_offers_first (resource : rules.precedence = .resource)
    (open_ : policy.governs host.toLowercase b.1 = false) (offers : Offers host rules b mask)
    (folded : host.toLowercase b.1 = host.toLowercase x) (later : List (String × List String)) :
    ((b :: later).foldl (mergeColumn host rules) policy).maskFor host.toLowercase x =
      some mask.1 := by
  have kept := foldl_kept (fun p : ResolvedPolicy =>
      p.maskFor host.toLowercase x = some mask.1) (l := later) (f := mergeColumn host rules) ?_
    (mergeColumn_offers open_ offers folded).2
  · exact kept
  · intro p entry _ masked
    by_cases ours : host.toLowercase entry.1 = host.toLowercase x
    · have leaves : effectOn host rules p entry = .leave := by
        rw [effectOn, isSome_maskFor_fold ours, masked]
        exact effect_masked_resource resource
      rwa [mergeColumn_leave leaves]
    · rwa [maskFor_mergeColumn_apart ours]

theorem unambiguous_of_orderFree (free : OrderFree host rules policy columns) :
    Unambiguous host rules policy columns.entries := by
  intro a listed b listed' folded open_ mask offers
  have open' := (governs_fold folded).symm.trans open_
  obtain ⟨later, perm⟩ := exists_order_first listed
  obtain ⟨later', perm'⟩ := exists_order_first listed'
  obtain ⟨restricted, masks⟩ := free _ _ perm perm' a.1
  rw [isRestricted_mergeTagMasks, isRestricted_mergeTagMasks,
    unrestricted_of_offers_first open' offers folded.symm] at restricted
  rw [maskFor_mergeTagMasks, maskFor_mergeTagMasks] at masks
  constructor
  · intro barred
    have first : (mergeColumn host rules policy a).isRestricted host.toLowercase a.1 = true := by
      rw [mergeColumn_barred open_ barred, isRestricted_pushRestricted, beq_self_eq_true,
        Bool.or_true]
    rw [foldl_cons, isRestricted_foldl first] at restricted
    cases restricted
  · intro resource mask' offers'
    rw [maskFor_of_offers_first resource open_ offers' rfl,
      maskFor_of_offers_first resource open' offers folded.symm] at masks
    exact Subtype.ext (some.inj masks)

end First

/-- A merge protects in every order of the map; the orders agree exactly when no two entries of one
open column disagree. -/
theorem merge_protects_iff (host : Host) (rules : TagRules) (policy : ResolvedPolicy)
    (columns : ColumnTags) :
    (∀ order, order.Perm columns.entries →
      Protects host rules policy columns (mergeTagMasks host rules policy order)) ∧
    (OrderFree host rules policy columns ↔ Unambiguous host rules policy columns.entries) := by
  refine ⟨fun order perm => mergeTagMasks_protects columns perm,
    unambiguous_of_orderFree, fun clear order order' perm perm' x => ?_⟩
  have alike := (alike_equivalence host rules).trans (foldl_mergeColumn_alike columns clear perm)
    ((alike_equivalence host rules).symm (foldl_mergeColumn_alike columns clear perm'))
  rw [isRestricted_mergeTagMasks, isRestricted_mergeTagMasks, maskFor_mergeTagMasks,
    maskFor_mergeTagMasks]
  exact ⟨alike.restricted x, alike.masks x⟩

theorem hash_plain (e : Expr) : MaskType.hash ≠ .custom e := nofun

theorem nullify_plain (e : Expr) : MaskType.nullify ≠ .custom e := nofun

/-- `pii` hashes and `secret` nullifies; there is no mask for `sealed`. -/
def emailRules (precedence : MaskPrecedence) : TagRules where
  tagMasksByTag := fun
    | "pii" => some (.ready (.ofPlain .hash hash_plain))
    | "secret" => some (.ready (.ofPlain .nullify nullify_plain))
    | _ => none
  tagFilters := []
  unmappableTags := ["sealed"]
  precedence := precedence

def isHash : Option MaskType → Bool
  | some .hash => true
  | _ => false

/-- The order of the map decides whether `email` is hashed or nullified, and whether it is masked
or restricted. -/
theorem spelling_order_decides :
    ¬ OrderFree asciiHost (emailRules .resource) emptyPolicy
        ⟨[("email", ["pii"]), ("Email", ["secret"])], by decide⟩ ∧
      ¬ OrderFree asciiHost (emailRules .tag) emptyPolicy
        ⟨[("email", ["pii"]), ("Email", ["sealed"])], by decide⟩ := by
  constructor
  · intro free
    have same := (free _ [("Email", ["secret"]), ("email", ["pii"])] (.refl _)
      (.swap _ _ _) "email").2
    have hashes := congrArg isHash same
    exact absurd hashes (by decide +kernel)
  · intro free
    have same := (free _ [("Email", ["sealed"]), ("email", ["pii"])] (.refl _)
      (.swap _ _ _) "email").1
    exact absurd same (by decide +kernel)

end Sqe.Policy.TagMasks
