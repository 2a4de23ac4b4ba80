/- GID: Sqe/Write/ColumnTags
   generality: I
   digest: Column tags under SET and UNSET TAG and under added, dropped and renamed columns. -/

import Sqe.Library.Transition
import Sqe.Write.AlterSchema

/-!
The `sqe.column-tags` property is a map from names to tags; a name it does not have maps to no
tags. It is read back as it was written. After an `ALTER TABLE` the last column id is at least the
highest id of the columns.
-/

set_option autoImplicit false

namespace Sqe.Write.ColumnTags

open Function (update update_self update_apply update_of_ne)
open Library.Transition AlterSchema List

variable {V : Type}

abbrev TagMap : Type := String → List String

inductive TagAction
  | set
  /-- Without tags it removes all of them. -/
  | unset
  deriving DecidableEq

/-- The column is named as the statement writes it. -/
structure ColumnTagOp where
  column : String
  tags : List String
  action : TagAction
  deriving DecidableEq

def union (entry tags : List String) : List String :=
  tags.foldl (fun entry t => if entry.contains t then entry else entry ++ [t]) entry

theorem mem_union {entry tags : List String} {t : String} :
    t ∈ union entry tags ↔ t ∈ entry ∨ t ∈ tags := by
  unfold union
  induction tags generalizing entry with
  | nil => simp
  | cons tag tags ih =>
    rw [foldl_cons, ih, mem_cons]
    split
    next already =>
      rw [contains_iff_mem] at already
      have own : t = tag → t ∈ entry := fun is => is ▸ already
      grind
    next => rw [mem_append, mem_singleton, or_assoc]

def applyTagOp (map : TagMap) (op : ColumnTagOp) : TagMap :=
  match op.action with
  | .set => update map op.column (union (map op.column) op.tags)
  | .unset =>
    if op.tags.isEmpty then update map op.column []
    else update map op.column ((map op.column).filter fun t => !op.tags.contains t)

/-- A rename onto a name with tags unites them. -/
def rewriteTagKey (map : TagMap) : TagKeyChange → TagMap
  | .rename old new =>
    if old = new then map
    else update (update map old []) new (union (map new) (map old))
  | .drop column => update map column []

def rewriteTagKeys (current : TagMap) (changes : List TagKeyChange) : TagMap :=
  changes.foldl rewriteTagKey current

structure Table (V : Type) where
  fields : List (NestedField V)
  lastColumnId : Nat
  columnTags : TagMap

def alterTable (builds : List (NestedField V) → Bool) (table : Table V) (ops : List (AlterOp V)) :
    Option (Table V) :=
  (alterTableSchema builds table.fields table.lastColumnId ops).map fun w =>
    ⟨w.fields, max table.lastColumnId (highestFieldId w.fields),
      rewriteTagKeys table.columnTags w.tagKeyChanges⟩

def setColumnTags (table : Table V) (ops : List ColumnTagOp) : Table V :=
  { table with columnTags := ops.foldl applyTagOp table.columnTags }

section Runs

variable (fold : String → String) (fields : List (NestedField V))

/-- The columns a tag statement names: that of the very name, else those that differ by case. -/
def targets (column : String) : List (NestedField V) :=
  let exactly := fields.filter fun f => f.name == column
  if exactly.isEmpty then fields.filter fun f => fold f.name == fold column else exactly

/-- The tags set on each column id and not unset since, and all that were ever set, on a column
id or on a name no column had. No statement reads either. -/
structure History where
  held : List (Nat × String)
  ever : List (Option Nat × String)

def noteTagOp (history : History) (op : ColumnTagOp) : History :=
  let named := targets fold fields op.column
  match op.action with
  | .set =>
    { held := history.held ++ named.flatMap fun f => op.tags.map fun t => (f.id, t)
      ever := history.ever ++
        if named.isEmpty then op.tags.map fun t => (none, t)
        else named.flatMap fun f => op.tags.map fun t => (some f.id, t) }
  | .unset =>
    { history with
      held := history.held.filter fun entry =>
        !((named.any fun f => f.id == entry.1) && (op.tags.isEmpty || op.tags.contains entry.2)) }

structure State (V : Type) where
  table : Table V
  history : History

inductive Statement (V : Type)
  | tags (ops : List ColumnTagOp)
  | alter (ops : List (AlterOp V))

def step (builds : List (NestedField V) → Bool) (s : State V) : Statement V → Option (State V)
  | .tags ops =>
    some ⟨setColumnTags s.table ops, ops.foldl (noteTagOp fold s.table.fields) s.history⟩
  | .alter ops => (alterTable builds s.table ops).map fun table => ⟨table, s.history⟩

def Found (map : TagMap) (name t : String) : Prop :=
  ∃ key, fold key = fold name ∧ t ∈ map key

/-- Every tag set on a column and not unset since is found for it, and no tag is found that was
only ever set on columns dropped since. -/
structure TagsFollow (s : State V) : Prop where
  kept : ∀ f ∈ s.table.fields, ∀ t, (f.id, t) ∈ s.history.held →
    Found fold s.table.columnTags f.name t
  fresh : ∀ f ∈ s.table.fields, ∀ t, Found fold s.table.columnTags f.name t →
    ∃ owner, (owner, t) ∈ s.history.ever ∧
      ∀ id, owner = some id → ∃ g ∈ s.table.fields, g.id = id

def Alone (name : String) : Prop :=
  (fields.filter fun f => fold f.name == fold name).length ≤ 1

def SpeltAlike (map : TagMap) (name : String) : Prop :=
  ∀ key, fold key = fold name → key ≠ name → map key = []

/-- A name may leave the schema: one column has it and the map spells it that way. -/
def MayLeave (w : Working V) (map : TagMap) (name : String) : Prop :=
  Alone fold w.fields name ∧ SpeltAlike fold (rewriteTagKeys map w.tagKeyChanges) name

def ClearDrops (w : Working V) (map : TagMap) (ifExists : Bool) : List Ident → Prop
  | [] => True
  | name :: names =>
    MayLeave fold w map (foldUnquotedIdent name) ∧
      ∀ w', dropOne w (foldUnquotedIdent name) ifExists = some w' →
        ClearDrops w' map ifExists names

def ClearOp (w : Working V) (map : TagMap) : AlterOp V → Prop
  | .addColumn _ _ _ _ => True
  | .dropColumn names ifExists => ClearDrops fold w map ifExists names
  | .renameColumn old _ => MayLeave fold w map (foldUnquotedIdent old)
  | .alterColumn _ _ => True

def ClearOps (w : Working V) (map : TagMap) : List (AlterOp V) → Prop
  | [] => True
  | op :: ops => ClearOp fold w map op ∧ ∀ w', alterOp w op = some w' → ClearOps w' map ops

/-- A column is dropped or renamed, or its tags unset, only under a name that no other column
has up to case, and dropped or renamed only when the map has no other spelling of the name. -/
def Clear (s : State V) : Statement V → Prop
  | .tags ops => ∀ op ∈ ops, op.action = .unset → Alone fold s.table.fields op.column
  | .alter ops => ClearOps fold ⟨s.table.fields, s.table.lastColumnId, []⟩ s.table.columnTags ops

/-- What holds of the columns, the map and the history after every operation. -/
structure Follows (lastId : Nat) (map : TagMap) (history : History) : Prop where
  distinct : (fields.map NestedField.id).Nodup
  bounded : ∀ f ∈ fields, f.id ≤ lastId
  past : ∀ entry ∈ history.held, entry.1 ≤ lastId
  kept : ∀ f ∈ fields, ∀ t, (f.id, t) ∈ history.held → Found fold map f.name t
  owned : ∀ key, ∀ t ∈ map key, ∃ owner, (owner, t) ∈ history.ever ∧
    ∀ id, owner = some id → ∃ g ∈ fields, g.id = id ∧ fold g.name = fold key

variable {fold}

variable {s : State V} {fields : List (NestedField V)} {lastId : Nat} {map : TagMap}
  {history : History} {column : String} {f : NestedField V}

theorem Follows.owner (follows : Follows fold fields lastId map history) {key t : String}
    (tagged : t ∈ map key) {Live : Nat → Prop}
    (live : ∀ g ∈ fields, fold g.name = fold key → Live g.id) :
    ∃ owner, (owner, t) ∈ history.ever ∧ ∀ id, owner = some id → Live id := by
  obtain ⟨owner, noted, lives⟩ := follows.owned key t tagged
  refine ⟨owner, noted, fun id is => ?_⟩
  obtain ⟨g, member, rfl, named⟩ := lives id is
  exact live g member named

theorem Follows.tagsFollow
    (follows : Follows fold s.table.fields lastId s.table.columnTags s.history) :
    TagsFollow fold s where
  kept := follows.kept
  fresh f _ t found := by
    obtain ⟨key, -, tagged⟩ := found
    exact follows.owner tagged fun g member _ => ⟨g, member, rfl⟩

theorem mem_targets
    (named : f ∈ targets fold fields column) : f ∈ fields ∧ fold f.name = fold column := by
  simp only [targets] at named
  split at named <;> obtain ⟨member, same⟩ := mem_filter.mp named
  · exact ⟨member, beq_iff_eq.mp same⟩
  · exact ⟨member, by rw [beq_iff_eq.mp same]⟩

theorem targets_ne_nil
    (member : f ∈ fields) (same : fold f.name = fold column) : targets fold fields column ≠ [] := by
  simp only [targets]
  split
  · exact ne_nil_of_mem (mem_filter.mpr ⟨member, beq_iff_eq.mpr same⟩)
  next found => simpa [List.isEmpty_iff] using found

section Step

variable {name : String} {fields' : List (NestedField V)}

theorem alone_split {before after : List (NestedField V)}
    (alone : Alone fold (before ++ f :: after) name) (same : fold f.name = fold name) :
    ∀ g ∈ before ++ after, fold g.name ≠ fold name := by
  unfold Alone at alone
  rw [filter_append, filter_cons_of_pos (by simp [same]), length_append, length_cons] at alone
  have none : (before ++ after).filter (fun f => fold f.name == fold name) = [] := by
    refine eq_nil_of_length_eq_zero ?_
    rw [filter_append, length_append]
    omega
  intro g member clash
  exact filter_eq_nil_iff.mp none g member (beq_iff_eq.mpr clash)

theorem alone_eq (alone : Alone fold fields name) {g : NestedField V}
    (member : f ∈ fields) (member' : g ∈ fields) (same : fold f.name = fold name)
    (same' : fold g.name = fold name) : f = g := by
  obtain ⟨before, after, rfl⟩ := append_of_mem member
  by_contra differs
  refine alone_split alone same g ?_ same'
  simpa [Ne.symm differs] using member'

theorem SpeltAlike.eq (alike : SpeltAlike fold map name) {key t : String}
    (same : fold key = fold name) (tagged : t ∈ map key) : key = name := by
  by_contra other
  rw [alike key same other] at tagged
  cases tagged

theorem Follows.tagOp (follows : Follows fold fields lastId map history) {op : ColumnTagOp}
    (clear : op.action = .unset → Alone fold fields op.column) :
    Follows fold fields lastId (applyTagOp map op) (noteTagOp fold fields history op) := by
  cases action : op.action with
  | set =>
    have tags : ∀ key t, t ∈ applyTagOp map op key ↔
        t ∈ map key ∨ (key = op.column ∧ t ∈ op.tags) := by
      intro key t
      simp only [applyTagOp, action]
      by_cases here : key = op.column
      · subst here
        rw [update_self, mem_union]
        simp
      · rw [update_of_ne here]
        simp [here]
    have held : ∀ id t, (id, t) ∈ (noteTagOp fold fields history op).held ↔
        (id, t) ∈ history.held ∨
          ((∃ f ∈ targets fold fields op.column, f.id = id) ∧ t ∈ op.tags) := by
      intro id t
      simp only [noteTagOp, action, mem_append, mem_flatMap, mem_map, Prod.mk.injEq]
      refine or_congr_right ⟨?_, ?_⟩
      · rintro ⟨f, named, t', listed, rfl, rfl⟩
        exact ⟨⟨f, named, rfl⟩, listed⟩
      · rintro ⟨⟨f, named, rfl⟩, listed⟩
        exact ⟨f, named, t, listed, rfl, rfl⟩
    have ever : ∀ owner t, (owner, t) ∈ history.ever →
        (owner, t) ∈ (noteTagOp fold fields history op).ever := by
      intro owner t noted
      simp only [noteTagOp, action]
      exact mem_append_left _ noted
    refine ⟨follows.distinct, follows.bounded, ?_, ?_, ?_⟩
    · rintro ⟨id, t⟩ noted
      rcases (held id t).mp noted with old | ⟨⟨f, named, rfl⟩, -⟩
      · exact follows.past _ old
      · exact follows.bounded f (mem_targets named).1
    · intro f member t noted
      rcases (held f.id t).mp noted with old | ⟨⟨g, named, same⟩, listed⟩
      · obtain ⟨key, alike, tagged⟩ := follows.kept f member t old
        exact ⟨key, alike, (tags key t).mpr (.inl tagged)⟩
      · obtain ⟨member', alike⟩ := mem_targets named
        have is : g = f := inj_on_of_nodup_map follows.distinct member' member same
        rw [is] at alike
        exact ⟨op.column, alike.symm, (tags _ t).mpr (.inr ⟨rfl, listed⟩)⟩
    · intro key t tagged
      rcases (tags key t).mp tagged with old | ⟨rfl, listed⟩
      · obtain ⟨owner, noted, live⟩ := follows.owned key t old
        exact ⟨owner, ever owner t noted, live⟩
      · cases named : targets fold fields op.column with
        | nil =>
          refine ⟨none, ?_, nofun⟩
          simp only [noteTagOp, action, named, isEmpty_nil, if_true, mem_append]
          exact .inr (mem_map.mpr ⟨t, listed, rfl⟩)
        | cons f rest =>
          obtain ⟨member, alike⟩ := mem_targets (named ▸ mem_cons_self :
            f ∈ targets fold fields op.column)
          refine ⟨some f.id, ?_, fun id is => ⟨f, member, Option.some.inj is, alike⟩⟩
          simp only [noteTagOp, action, named, isEmpty_cons, Bool.false_eq_true, if_false,
            mem_append, mem_flatMap]
          exact .inr ⟨f, mem_cons_self, mem_map.mpr ⟨t, listed, rfl⟩⟩
  | unset =>
    have alone := clear action
    have tags : ∀ key t, t ∈ applyTagOp map op key ↔ t ∈ map key ∧
        ¬ (key = op.column ∧ (op.tags.isEmpty = true ∨ t ∈ op.tags)) := by
      intro key t
      simp only [applyTagOp, action]
      by_cases here : key = op.column
      · subst here
        split
        next all => simp [all]
        next some => simp [some]
      · split <;> simp [here]
    have held : ∀ entry, entry ∈ (noteTagOp fold fields history op).held ↔
        entry ∈ history.held ∧ ¬ ((∃ f ∈ targets fold fields op.column, f.id = entry.1) ∧
          (op.tags.isEmpty = true ∨ entry.2 ∈ op.tags)) := by
      intro entry
      simp only [noteTagOp, action, mem_filter, Bool.not_eq_true', ← Bool.not_eq_true,
        Bool.and_eq_true, any_eq_true, beq_iff_eq, Bool.or_eq_true, contains_iff_mem]
    refine ⟨follows.distinct, follows.bounded, ?_, ?_, ?_⟩
    · exact fun entry noted => follows.past entry ((held entry).mp noted).1
    · intro f member t noted
      obtain ⟨old, spared⟩ := (held _).mp noted
      obtain ⟨key, alike, tagged⟩ := follows.kept f member t old
      refine ⟨key, alike, (tags key t).mpr ⟨tagged, ?_⟩⟩
      rintro ⟨rfl, removed⟩
      -- The column is the only one the statement can name.
      obtain ⟨g, named⟩ := exists_mem_of_ne_nil _ (targets_ne_nil member alike.symm)
      obtain ⟨member', alike'⟩ := mem_targets named
      have is : g = f := alone_eq alone member' member alike' alike.symm
      exact spared ⟨⟨g, named, by rw [is]⟩, removed⟩
    · intro key t tagged
      obtain ⟨owner, noted, live⟩ := follows.owned key t ((tags key t).mp tagged).1
      refine ⟨owner, ?_, live⟩
      simpa only [noteTagOp, action] using noted

theorem eraseP_alone (alone : Alone fold fields name) (there : ∃ f ∈ fields, f.name = name) :
    (fields.eraseP fun f => f.name == name) =
      fields.filter fun f => !(fold f.name == fold name) := by
  obtain ⟨g, member, is⟩ := there
  obtain ⟨f, before, after, -, own, rfl, erased⟩ :=
    exists_of_eraseP (p := fun f => f.name == name) member (beq_iff_eq.mpr is)
  have same : fold f.name = fold name := by rw [beq_iff_eq.mp own]
  have others := alone_split alone same
  rw [erased, filter_append, filter_cons_of_neg (by simp [same]), ← filter_append]
  exact (filter_eq_self.mpr fun g member => by simp [others g member]).symm

theorem updateFirst_alone {old new : String} (alone : Alone fold fields old)
    (updated : updateFirst old (fun f => some (renamed new f)) fields = some fields') :
    fields' = fields.map fun f => if fold f.name = fold old then renamed new f else f := by
  obtain ⟨before, f, -, after, rfl, ⟨⟩, found, rfl⟩ := updateFirst_eq_some updated
  have own : f.name = old := by simpa using find?_some found
  have others := alone_split alone (by rw [own])
  rw [forall_mem_append] at others
  have kept {part : List (NestedField V)} (apart : ∀ g ∈ part, fold g.name ≠ fold old) :
      (part.map fun f => if fold f.name = fold old then renamed new f else f) = part := by
    rw [map_congr_left fun g member => if_neg (apart g member), map_id']
  rw [map_append, map_cons, kept others.1, kept others.2, if_pos (by rw [own])]

section

variable (follows : Follows fold fields lastId map history)
include follows

theorem Follows.drop (alone : Alone fold fields name) (alike : SpeltAlike fold map name)
    (there : ∃ f ∈ fields, f.name = name) :
    Follows fold (fields.eraseP fun f => f.name == name) lastId
      (rewriteTagKey map (.drop name)) history := by
  rw [eraseP_alone alone there]
  have others : ∀ f, f ∈ (fields.filter fun f => !(fold f.name == fold name)) ↔
      f ∈ fields ∧ fold f.name ≠ fold name := by
    intro f
    simp
  refine ⟨follows.distinct.sublist (List.Sublist.map _ filter_sublist), ?_, follows.past, ?_, ?_⟩
  · exact fun f member => follows.bounded f ((others f).mp member).1
  · intro f member t noted
    obtain ⟨member, other⟩ := (others f).mp member
    obtain ⟨key, same, tagged⟩ := follows.kept f member t noted
    refine ⟨key, same, ?_⟩
    rw [rewriteTagKey, update_of_ne]
    · exact tagged
    · rintro rfl
      exact other same.symm
  · intro key t tagged
    by_cases here : key = name
    · subst here
      rw [rewriteTagKey, update_self] at tagged
      cases tagged
    · rw [rewriteTagKey, update_of_ne here] at tagged
      refine follows.owner tagged fun g member named =>
        ⟨g, (others g).mpr ⟨member, fun clash => ?_⟩, rfl, named⟩
      exact here (alike.eq (named.symm.trans clash) tagged)

theorem Follows.rename {old new : String}
    (alone : Alone fold fields old) (alike : SpeltAlike fold map old)
    (updated : updateFirst old (fun f => some (renamed new f)) fields = some fields') :
    Follows fold fields' lastId (rewriteTagKey map (.rename old new)) history := by
  rw [updateFirst_alone alone updated]
  have tags : ∀ key t, t ∈ rewriteTagKey map (.rename old new) key ↔
      (key = new ∧ t ∈ map old) ∨ ((key = new ∨ key ≠ old) ∧ t ∈ map key) := by
    intro key t
    rw [rewriteTagKey]
    split
    next same =>
      subst same
      by_cases here : key = old <;> simp [here]
    next differ =>
      by_cases here : key = new
      · simp [here, mem_union, or_comm]
      · by_cases left : key = old <;> simp [here, left, differ]
  refine ⟨?_, ?_, follows.past, ?_, ?_⟩
  · rw [map_map, map_congr_left (g := NestedField.id)]
    · exact follows.distinct
    · intro f _
      dsimp only [Function.comp_apply]
      split <;> rfl
  · intro f member
    obtain ⟨g, here, rfl⟩ := mem_map.mp member
    split <;> exact follows.bounded g here
  · intro f member t noted
    obtain ⟨g, here, rfl⟩ := mem_map.mp member
    split at noted
    next same =>
      rw [if_pos same]
      obtain ⟨key, spelt, tagged⟩ := follows.kept g here t noted
      exact ⟨new, rfl, (tags new t).mpr (.inl ⟨rfl, alike.eq (spelt.trans same) tagged ▸ tagged⟩)⟩
    next other =>
      rw [if_neg other]
      obtain ⟨key, spelt, tagged⟩ := follows.kept g here t noted
      refine ⟨key, spelt, (tags key t).mpr (.inr ⟨.inr ?_, tagged⟩)⟩
      rintro rfl
      exact other spelt.symm
  · intro key t tagged
    rcases (tags key t).mp tagged with ⟨rfl, moved⟩ | ⟨stays, tagged⟩
    · exact follows.owner moved fun g member named =>
        ⟨_, mem_map.mpr ⟨g, member, if_pos named⟩, rfl, rfl⟩
    · refine follows.owner tagged fun g member named => ?_
      by_cases renamed : fold g.name = fold old
      · refine ⟨_, mem_map.mpr ⟨g, member, if_pos renamed⟩, rfl, ?_⟩
        rcases stays with rfl | left
        · rfl
        · exact absurd (alike.eq (named.symm.trans renamed) tagged) left
      · exact ⟨g, mem_map.mpr ⟨g, member, if_neg renamed⟩, rfl, named⟩

theorem Follows.same
    (same : (fields'.map fun f => (f.id, f.name)) = fields.map fun f => (f.id, f.name)) :
    Follows fold fields' lastId map history := by
  have ids : fields'.map NestedField.id = fields.map NestedField.id := by
    simpa only [map_map, Function.comp_def] using congrArg (List.map Prod.fst) same
  have mem : ∀ {xs ys : List (NestedField V)},
      (xs.map fun f => (f.id, f.name)) = (ys.map fun f => (f.id, f.name)) →
        ∀ f ∈ xs, ∃ g ∈ ys, g.id = f.id ∧ g.name = f.name := by
    intro xs ys equal f member
    have listed := mem_map_of_mem (f := fun f : NestedField V => (f.id, f.name)) member
    obtain ⟨g, found, is⟩ := mem_map.mp (equal ▸ listed)
    exact ⟨g, found, (Prod.mk.inj is).1, (Prod.mk.inj is).2⟩
  refine ⟨ids ▸ follows.distinct, ?_, follows.past, ?_, ?_⟩
  · intro f member
    obtain ⟨g, found, id, -⟩ := mem same f member
    exact id ▸ follows.bounded g found
  · intro f member t noted
    obtain ⟨g, found, id, name⟩ := mem same f member
    exact name ▸ follows.kept g found t (id ▸ noted)
  · intro key t tagged
    refine follows.owner tagged fun g member named => ?_
    obtain ⟨f, found, id', name⟩ := mem same.symm g member
    exact ⟨f, found, id', name ▸ named⟩

theorem Follows.add (fresh : f.id = lastId + 1) {highest : Nat} (positive : 0 < highest) :
    Follows fold (fields ++ [f]) (lastId + highest) map history := by
  refine ⟨?_, ?_, fun entry noted => Nat.le_trans (follows.past entry noted) (by omega), ?_, ?_⟩
  · rw [map_append, map_singleton, nodup_append]
    refine ⟨follows.distinct, nodup_singleton _, fun id listed id' is clash => ?_⟩
    obtain ⟨g, member, rfl⟩ := mem_map.mp listed
    have low := follows.bounded g member
    have new := mem_singleton.mp is
    omega
  · exact forall_mem_append.mpr
      ⟨fun g here => Nat.le_trans (follows.bounded g here) (by omega),
        forall_mem_singleton.mpr (by omega)⟩
  · refine forall_mem_append.mpr
      ⟨follows.kept, forall_mem_singleton.mpr fun t noted => ?_⟩
    have low : f.id ≤ lastId := follows.past _ noted
    omega
  · intro key t tagged
    exact follows.owner tagged fun g member named =>
      ⟨g, mem_append_left _ member, rfl, named⟩

end

end Step

/-- The invariant in the middle of an `ALTER TABLE`. -/
def FollowsIn (fold : String → String) (w : Working V) (map : TagMap) (history : History) : Prop :=
  Follows fold w.fields w.maxFieldId (rewriteTagKeys map w.tagKeyChanges) history

section Alter

variable {w w' : Working V}

theorem rewriteTagKeys_snoc (map : TagMap) (changes : List TagKeyChange) (c : TagKeyChange) :
    rewriteTagKeys map (changes ++ [c]) = rewriteTagKey (rewriteTagKeys map changes) c := by
  rw [rewriteTagKeys, foldl_append]
  rfl

theorem followsIn_dropOne (follows : FollowsIn fold w map history) {name : String}
    {ifExists : Bool} (clear : MayLeave fold w map name)
    (done : dropOne w name ifExists = some w') : FollowsIn fold w' map history := by
  revert done
  fun_cases dropOne w name ifExists <;> rintro ⟨⟩
  next found =>
    unfold FollowsIn
    dsimp only
    rw [rewriteTagKeys_snoc]
    exact follows.drop clear.1 clear.2 (by simpa using found)
  · exact follows

theorem followsIn_dropAll {ifExists : Bool} {names : List Ident}
    (follows : FollowsIn fold w map history) (clear : ClearDrops fold w map ifExists names)
    (done : dropAll w ifExists names = some w') : FollowsIn fold w' map history := by
  induction names generalizing w with
  | nil => exact Option.some.inj done ▸ follows
  | cons name names ih =>
    obtain ⟨middle, dropped, rest⟩ := Option.bind_eq_some_iff.mp done
    exact ih (followsIn_dropOne follows clear.1 dropped) (clear.2 middle dropped) rest

theorem alterColumn_same {f g : NestedField V} {op : AlterColumnOp}
    (changed : alterColumn f op = some g) : g.id = f.id ∧ g.name = f.name := by
  revert changed
  fun_cases alterColumn f op <;> rintro ⟨⟩ <;> exact ⟨rfl, rfl⟩

theorem followsIn_alterOp {op : AlterOp V} (follows : FollowsIn fold w map history)
    (clear : ClearOp fold w map op) (done : alterOp w op = some w') :
    FollowsIn fold w' map history := by
  cases op with
  | addColumn name type notNull default =>
    obtain rfl := Option.some.inj done
    exact follows.add rfl type.positive
  | dropColumn names ifExists => exact followsIn_dropAll follows clear done
  | renameColumn old new =>
    obtain ⟨fields, updated, rfl⟩ := Option.map_eq_some_iff.mp done
    unfold FollowsIn
    dsimp only
    rw [rewriteTagKeys_snoc]
    exact follows.rename clear.1 clear.2 updated
  | alterColumn name op =>
    obtain ⟨fields, updated, rfl⟩ := Option.map_eq_some_iff.mp done
    obtain ⟨before, f, g, rest, columns, changed, -, rfl⟩ := updateFirst_eq_some updated
    refine Follows.same follows ?_
    obtain ⟨id, name⟩ := alterColumn_same changed
    simp only [columns, map_append, map_cons, id, name]

theorem followsIn_alterOps {ops : List (AlterOp V)} (follows : FollowsIn fold w map history)
    (clear : ClearOps fold w map ops) (done : alterOps w ops = some w') :
    FollowsIn fold w' map history := by
  induction ops generalizing w with
  | nil => exact Option.some.inj done ▸ follows
  | cons op ops ih =>
    obtain ⟨middle, altered, rest⟩ := Option.bind_eq_some_iff.mp done
    exact ih (followsIn_alterOp follows clear.1 altered) (clear.2 middle altered) rest

end Alter

theorem follows_tagOps {fields : List (NestedField V)} {lastId : Nat} {map : TagMap}
    {history : History} {ops : List ColumnTagOp} (follows : Follows fold fields lastId map history)
    (clear : ∀ op ∈ ops, op.action = .unset → Alone fold fields op.column) :
    Follows fold fields lastId (ops.foldl applyTagOp map)
      (ops.foldl (noteTagOp fold fields) history) := by
  induction ops generalizing map history with
  | nil => exact follows
  | cons op ops ih =>
    exact ih (follows.tagOp (clear op mem_cons_self))
      fun op listed => clear op (mem_cons_of_mem _ listed)

def State.Follows (fold : String → String) (s : State V) : Prop :=
  ColumnTags.Follows fold s.table.fields s.table.lastColumnId s.table.columnTags s.history

theorem follows_step {builds : List (NestedField V) → Bool} {s' : State V} {statement : Statement V}
    (follows : s.Follows fold) (clear : Clear fold s statement)
    (taken : step fold builds s statement = some s') : s'.Follows fold := by
  cases statement with
  | tags ops =>
    obtain rfl := Option.some.inj taken
    exact follows_tagOps follows clear
  | alter ops =>
    obtain ⟨table, altered, rfl⟩ := Option.map_eq_some_iff.mp taken
    obtain ⟨w', changed, rfl⟩ := Option.map_eq_some_iff.mp altered
    obtain ⟨w, done, built⟩ := Option.bind_eq_some_iff.mp changed
    split at built
    next =>
      obtain rfl := Option.some.inj built
      have after : FollowsIn fold w s.table.columnTags s.history := followsIn_alterOps
        (w := ⟨s.table.fields, s.table.lastColumnId, []⟩) follows clear done
      refine ⟨after.distinct, fun f member => ?_, fun entry noted => ?_, after.kept, after.owned⟩
      · exact Nat.le_trans (id_le_highestFieldId member) (Nat.le_max_right _ _)
      · exact Nat.le_trans (follows.past entry noted) (Nat.le_max_left _ _)
    next => cases built

/-- A table as created: distinct column ids up to the last one given, and no tags yet. -/
structure Created (s : State V) : Prop where
  distinct : (s.table.fields.map NestedField.id).Nodup
  bounded : ∀ f ∈ s.table.fields, f.id ≤ s.table.lastColumnId
  untagged : ∀ key, s.table.columnTags key = []
  blank : s.history = ⟨[], []⟩

theorem Created.follows (created : Created s) : s.Follows fold := by
  refine ⟨created.distinct, created.bounded, ?_, ?_, ?_⟩ <;>
    simp [created.blank, created.untagged]

/-- In a run of clear statements the tags follow the columns in every state reached. -/
theorem tags_follow {builds : List (NestedField V) → Bool} {s : State V}
    (reached : Reachable Created (step fold builds) (Clear fold) s) : TagsFollow fold s := by
  have follows : s.Follows fold := reached.invariant (fun _ created => created.follows)
    fun _ _ _ follows clear taken => follows_step follows clear taken
  exact follows.tagsFollow

end Runs

def textColumn (name : String) : NestedField Unit :=
  .new 1 name (.primitive (.other "string")) false

/-- A table with one column, not tagged yet. -/
def oneColumn : State Unit := ⟨⟨[textColumn "ssn"], 1, fun _ => []⟩, ⟨[], []⟩⟩

theorem oneColumn_created : Created oneColumn where
  distinct := by decide
  bounded := by decide
  untagged _ := rfl
  blank := rfl

/-- `ALTER TABLE t RENAME COLUMN ssn TO tax_id`. -/
def renameSsn : Statement Unit := .alter [.renameColumn ⟨"ssn", false⟩ ⟨"tax_id", false⟩]

variable (column : String)

/-- After `SET TAG` on the only column, under the name as written. -/
def taggedAs : State Unit :=
  ⟨setColumnTags oneColumn.table [⟨column, ["pii"], .set⟩], ⟨[(1, "pii")], [(some 1, "pii")]⟩⟩

def renamedAfter : State Unit :=
  ⟨⟨[textColumn "tax_id"], 1,
    rewriteTagKeys (taggedAs column).table.columnTags [.rename "ssn" "tax_id"]⟩,
    (taggedAs column).history⟩

theorem step_tag (named : toAsciiLowercase column = "ssn") :
    step toAsciiLowercase (fun _ => true) oneColumn (.tags [⟨column, ["pii"], .set⟩]) =
      some (taggedAs column) := by
  have lower : toAsciiLowercase "ssn" = "ssn" := by decide +kernel
  have target : targets toAsciiLowercase [textColumn "ssn"] column = [textColumn "ssn"] := by
    by_cases same : "ssn" = column
    · simp [targets, textColumn, NestedField.new, same]
    · simp [targets, textColumn, NestedField.new, same, named, lower]
  simp [step, oneColumn, taggedAs, noteTagOp, target]
  rfl

theorem step_rename :
    step toAsciiLowercase (fun _ => true) (taggedAs column) renameSsn =
      some (renamedAfter column) := by
  have old : foldUnquotedIdent ⟨"ssn", false⟩ = "ssn" := by decide +kernel
  have new : foldUnquotedIdent ⟨"tax_id", false⟩ = "tax_id" := by decide +kernel
  simp [step, renameSsn, alterTable, alterTableSchema, alterOps, alterOp, taggedAs, oneColumn,
    setColumnTags, renamedAfter, updateFirst, renamed, textColumn, NestedField.new, highestFieldId,
    fieldsIds, fieldsAttributes, fieldAttributes, typeAttributes, old, new]

theorem tags_follow_rename :
    Reachable Created (step toAsciiLowercase fun _ => true) (Clear toAsciiLowercase)
        (renamedAfter "ssn") ∧
      TagsFollow toAsciiLowercase (renamedAfter "ssn") := by
  have tagged : Reachable Created (step toAsciiLowercase fun _ => true) (Clear toAsciiLowercase)
      (taggedAs "ssn") := by
    refine (Reachable.start oneColumn_created).next ?_ (step_tag "ssn" (by decide +kernel))
    intro op listed action
    rw [mem_singleton.mp listed] at action
    cases action
  have reached := tagged.next (e := renameSsn) ?_ (step_rename "ssn")
  · exact ⟨reached, tags_follow reached⟩
  · have old : foldUnquotedIdent ⟨"ssn", false⟩ = "ssn" := by decide +kernel
    refine ⟨⟨?_, fun key _ other => ?_⟩, fun _ _ => trivial⟩
    · exact length_filter_le _ _
    · rw [old] at other
      exact update_of_ne other _ _

/-- The tag was set under another spelling of the name, and the rename leaves it there. -/
theorem rename_loses_tag : Reachable Created (step toAsciiLowercase fun _ => true) (fun _ _ => True)
        (renamedAfter "SSN") ∧
      ¬ TagsFollow toAsciiLowercase (renamedAfter "SSN") := by
  constructor
  · exact ((Reachable.start oneColumn_created).next trivial
      (step_tag "SSN" (by decide +kernel))).next (e := renameSsn) trivial (step_rename "SSN")
  · intro follow
    obtain ⟨key, alike, tagged⟩ := follow.kept (textColumn "tax_id") mem_cons_self "pii"
      mem_cons_self
    have other : key ≠ "SSN" := by
      rintro rfl
      exact absurd alike (by decide +kernel)
    have none : (renamedAfter "SSN").table.columnTags key = [] := by
      simp [renamedAfter, rewriteTagKeys, rewriteTagKey, taggedAs, setColumnTags, applyTagOp,
        oneColumn, update_apply, other, union]
    rw [none] at tagged
    cases tagged

end Sqe.Write.ColumnTags
