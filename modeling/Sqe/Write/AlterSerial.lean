/- GID: Sqe/Write/AlterSerial
   generality: I
   digest: When interleaved metadata statements leave what some serial order of them leaves. -/

import Sqe.Library.Serial
import Sqe.Write.AlterCommit
import Mathlib.Data.List.Flatten

set_option autoImplicit false

namespace Sqe.Write.AlterCommit

open Function (update update_self update_of_ne)
open AlterSchema Library.Serial Library.Transition Option
open ColumnTags (TagMap)
open List

variable {V : Type}

def keepsNames : AlterOp V → Bool
  | .dropColumn _ _ => false
  | .renameColumn _ _ => false
  | _ => true

/-- The table still has what the statement loaded of it and its requirements do not check. -/
def Fresh (loaded m : Metadata V) : Statement V → Prop
  | .alterTableSchema ops => ops.all keepsNames = true ∨ m.columnTags = loaded.columnTags
  | .dropNestedColumn _ _ _ => True
  | .applyPartitionEvolution _ =>
    m.currentSchemaId = loaded.currentSchemaId ∧ m.defaultSpec = loaded.defaultSpec ∧
      m.lastPartitionId = loaded.lastPartitionId
  | .applyIdentifierFields _ _ => True
  | .setColumnTags _ => m.columnTags = loaded.columnTags

section Plans

variable {backend : Backend V} {loaded m m' : Metadata V} {schema : Schema V} {c : Commit V}

private theorem currentSchema_eq (known : loaded.schemas <+: m.schemas)
    (same : m.currentSchemaId = loaded.currentSchemaId)
    (current : loaded.currentSchema = some schema) : m.currentSchema = some schema := by
  obtain ⟨tail, is⟩ := known
  rw [Metadata.currentSchema] at current ⊢
  rw [← is, same, getElem?_append_left (List.getElem?_eq_some_iff.mp current).1]
  exact current

private theorem holds_schemaRequirements (planned : c.requirements = schemaRequirements loaded)
    (holds : c.holds m = true) :
    m.lastColumnId = loaded.lastColumnId ∧ m.currentSchemaId = loaded.currentSchemaId := by
  simpa [Commit.holds, planned, schemaRequirements, TableRequirement.holds] using holds

private theorem alterOps_keepsNames {w w' : Working V} {ops : List (AlterOp V)}
    (keeps : ops.all keepsNames = true) (done : alterOps w ops = some w') :
    w'.tagKeyChanges = w.tagKeyChanges := by
  induction ops generalizing w with
  | nil => rw [some.inj done]
  | cons op ops ih =>
    obtain ⟨middle, first, rest⟩ := bind_eq_some_iff.mp done
    rw [all_cons, Bool.and_eq_true] at keeps
    obtain ⟨here, later⟩ := keeps
    rw [ih later rest]
    cases op with
    | addColumn name type notNull default => rw [← some.inj first]
    | alterColumn name op =>
      obtain ⟨-, -, rfl⟩ := map_eq_some_iff.mp first
      rfl
    | dropColumn names ifExists => cases here
    | renameColumn old new => cases here

section

variable (known : loaded.schemas <+: m.schemas)
include known

private theorem runAlone_alter {ops : List (AlterOp V)}
    (current : loaded.currentSchema = some schema)
    (planned : planAlter backend loaded schema ops = .commit c) (holds : c.holds m = true)
    (fresh : Fresh loaded m (.alterTableSchema ops)) :
    runAlone backend (.alterTableSchema ops) m = some (applyCommit backend c m) := by
  revert planned
  fun_cases planAlter backend loaded schema ops <;> rintro ⟨⟩
  next w done =>
    obtain ⟨ids, same⟩ := holds_schemaRequirements rfl holds
    have tags : changedTagKeys m.columnTags w.tagKeyChanges =
        changedTagKeys loaded.columnTags w.tagKeyChanges := by
      rcases fresh with keeps | same
      · obtain ⟨w', altered, built⟩ := bind_eq_some_iff.mp done
        split at built
        · obtain rfl := some.inj built
          rw [alterOps_keepsNames keeps altered]
          rfl
        · cases built
      · rw [same]
    simp only [runAlone, plan, currentSchema_eq known same current, planAlter, ids, done, tags]
    rfl

private theorem runAlone_dropNested {top : String} {rest : List String} {ifExists : Bool}
    (current : loaded.currentSchema = some schema)
    (planned : planDropNested backend loaded schema top rest ifExists = .commit c)
    (holds : c.holds m = true) :
    runAlone backend (.dropNestedColumn top rest ifExists) m = some (applyCommit backend c m) := by
  revert planned
  fun_cases planDropNested backend loaded schema top rest ifExists <;> rintro ⟨⟩
  next fields done =>
    obtain ⟨-, same⟩ := holds_schemaRequirements rfl holds
    simp only [runAlone, plan, currentSchema_eq known same current, planDropNested, done]
    rfl

private theorem selectSchema_now {target : Schema V}
    (inside : loaded.currentSchemaId < loaded.schemas.length)
    (same : m.currentSchemaId = loaded.currentSchemaId)
    (planned : selectSchema backend loaded target = .commit c) :
    ∃ c', selectSchema backend m target = .commit c' ∧
      applyCommit backend c' m = applyCommit backend c m := by
  obtain ⟨tail, is⟩ := known
  revert planned
  fun_cases selectSchema backend loaded target <;> rintro ⟨⟩
  next id found other =>
    rw [← same] at other
    rw [selectSchema, ← is, findIdx?_append, found, some_or]
    exact ⟨_, if_neg other, rfl⟩
  next missing =>
    have now : (m.schemas.findIdx? fun s => backend.same s target) =
        (tail.findIdx? fun s => backend.same s target).map (· + loaded.schemas.length) := by
      rw [← is, findIdx?_append, missing, none_or]
    rw [selectSchema, now]
    cases later : tail.findIdx? fun s => backend.same s target with
    | none => exact ⟨_, rfl, rfl⟩
    | some place =>
      have other : place + loaded.schemas.length ≠ m.currentSchemaId := by omega
      refine ⟨_, if_neg other, ?_⟩
      simp only [applyCommit, foldl_cons, foldl_nil, applyUpdate, now, later,
        map_some, some_or, none_or]

private theorem runAlone_identifiers {set : Bool} {columns : List String}
    (current : loaded.currentSchema = some schema)
    (planned : planIdentifiers backend loaded schema set columns = .commit c)
    (holds : c.holds m = true) :
    runAlone backend (.applyIdentifierFields set columns) m = some (applyCommit backend c m) := by
  revert planned
  fun_cases planIdentifiers backend loaded schema set columns <;> intro planned
  · cases planned
  next ids asked built =>
    have required : c.requirements = schemaRequirements loaded := by
      revert planned
      fun_cases selectSchema backend loaded ⟨schema.fields, ids⟩ <;> rintro ⟨⟩ <;> rfl
    obtain ⟨-, same⟩ := holds_schemaRequirements required holds
    obtain ⟨c', selected, is⟩ := selectSchema_now known
      (List.getElem?_eq_some_iff.mp current).1 same planned
    simp only [runAlone, plan, currentSchema_eq known same current, planIdentifiers, asked,
      if_pos built, selected, is]
  · cases planned

private theorem runAlone_evolution {evolution : PartitionEvolution}
    (current : loaded.currentSchema = some schema)
    (planned : planEvolution loaded schema evolution = .commit c)
    (fresh : Fresh loaded m (.applyPartitionEvolution evolution)) :
    runAlone backend (.applyPartitionEvolution evolution) m =
      some (applyCommit backend c m) := by
  obtain ⟨same, spec, last⟩ := fresh
  have fields : evolvedFields m schema evolution = evolvedFields loaded schema evolution := by
    cases evolution <;> simp only [evolvedFields, spec, last]
  have now : planEvolution m schema evolution = .commit c := by
    rw [← planned, planEvolution, planEvolution, fields]
  simp only [runAlone, plan, currentSchema_eq known same current, now]

/-- A commit whose requirements hold, of a statement that is still fresh, does what the statement
would do now. -/
private theorem runAlone_of_fresh {statement : Statement V}
    (planned : plan backend loaded statement = .commit c) (holds : c.holds m = true)
    (fresh : Fresh loaded m statement) (present : m.currentSchema.isSome = true) :
    runAlone backend statement m = some (applyCommit backend c m) := by
  revert planned
  fun_cases plan backend loaded statement <;> intro planned
  · cases planned
  next current _ => exact runAlone_alter known current planned holds fresh
  next current _ _ _ => exact runAlone_dropNested known current planned holds
  next current _ => exact runAlone_evolution known current planned fresh
  next current _ _ => exact runAlone_identifiers known current planned holds
  next ops =>
    obtain rfl := Plan.commit.inj planned
    obtain ⟨schema, current⟩ := isSome_iff_exists.mp present
    have same : m.columnTags = loaded.columnTags := fresh
    simp only [runAlone, plan, current, planTags, same]

end

/-- The current schema is there, and no partition field id stands for two fields. -/
structure Valid (m : Metadata V) : Prop where
  current : m.currentSchemaId < m.schemas.length
  listed : ∀ f ∈ m.defaultSpec, f ∈ m.specs.flatten
  bounded : ∀ f ∈ m.specs.flatten, f.fieldId ≤ m.lastPartitionId
  unique : ∀ f ∈ m.specs.flatten, ∀ g ∈ m.specs.flatten, f.fieldId = g.fieldId → f = g

private theorem Valid.of_specs (valid : Valid m) (current : m'.currentSchemaId < m'.schemas.length)
    (specs : m'.specs = m.specs) (spec : m'.defaultSpec = m.defaultSpec)
    (last : m'.lastPartitionId = m.lastPartitionId) : Valid m' where
  current := current
  listed := by rw [spec, specs]; exact valid.listed
  bounded := by rw [specs, last]; exact valid.bounded
  unique := by rw [specs]; exact valid.unique

private theorem lt_nextFieldId (last : Int) : last < nextFieldId last := by
  unfold nextFieldId
  split <;> omega

private theorem evolvedFields_cases {evolution : PartitionEvolution} {fields : List PartitionField}
    (evolved : evolvedFields m schema evolution = some fields) :
    ∃ new : Option PartitionField, (∀ f ∈ fields, f ∈ m.defaultSpec ∨ new = some f) ∧
      ∀ f, new = some f → f.fieldId = nextFieldId m.lastPartitionId := by
  have resolved : ∀ {sql field},
      resolveTransform schema.fields (nextFieldId m.lastPartitionId) sql = some field →
        ∀ f, some field = some f → f.fieldId = nextFieldId m.lastPartitionId := by
    intro sql field is f same
    obtain ⟨g, -, rfl⟩ := map_eq_some_iff.mp is
    rw [← some.inj same]
  have appended {kept : List PartitionField} {field : PartitionField}
      (old : kept ⊆ m.defaultSpec) :
      ∀ f ∈ kept ++ [field], f ∈ m.defaultSpec ∨ some field = some f :=
    fun f member => (mem_append.mp member).imp (old ·)
      fun new => congrArg some (mem_singleton.mp new).symm
  cases evolution with
  | addField new =>
    obtain ⟨field, is, rest⟩ := bind_eq_some_iff.mp evolved
    split at rest
    · cases rest
    · obtain rfl := some.inj rest
      exact ⟨some field, appended (List.Subset.refl _), resolved is⟩
  | dropField old =>
    rw [evolvedFields] at evolved
    split at evolved
    · obtain rfl := some.inj evolved
      exact ⟨none, fun f member => .inl (mem_of_mem_eraseP member), nofun⟩
    · cases evolved
  | replaceField old new =>
    rw [evolvedFields] at evolved
    split at evolved
    · obtain ⟨field, is, rest⟩ := bind_eq_some_iff.mp evolved
      split at rest
      · cases rest
      · dsimp only at rest
        split at rest
        · cases rest
        · obtain rfl := some.inj rest
          exact ⟨some field, appended fun f => mem_of_mem_eraseP, resolved is⟩
    · cases evolved

private theorem le_foldr_max (fields : List PartitionField) (last : Int) :
    last ≤ fields.foldr (fun f id => max f.fieldId id) last ∧
      ∀ f ∈ fields, f.fieldId ≤ fields.foldr (fun f id => max f.fieldId id) last := by
  induction fields with
  | nil => simp
  | cons f fields ih =>
    rw [foldr_cons, forall_mem_cons]
    refine ⟨by omega, by omega, fun g member => ?_⟩
    have below := ih.2 g member
    omega

private theorem Valid.addSpec (valid : Valid m) {fields : List PartitionField}
    {new : Option PartitionField} (old : ∀ f ∈ fields, f ∈ m.defaultSpec ∨ new = some f)
    (fresh : ∀ f, new = some f → f.fieldId = nextFieldId m.lastPartitionId) :
    Valid (applyCommit backend ⟨[.addSpec fields], []⟩ m) := by
  have mem : ∀ f, f ∈ (m.specs ++ [fields]).flatten → f ∈ m.specs.flatten ∨ new = some f := by
    intro f member
    rw [flatten_append, mem_append] at member
    rcases member with before | here
    · exact .inl before
    · exact (old f (by simpa using here)).imp_left (valid.listed f)
  have bound := le_foldr_max fields m.lastPartitionId
  have apart : ∀ f ∈ m.specs.flatten, ∀ g, new = some g → f.fieldId ≠ g.fieldId := by
    intro f member g is clash
    have low := valid.bounded f member
    have high := lt_nextFieldId m.lastPartitionId
    rw [fresh g is] at clash
    omega
  refine ⟨valid.current, fun f member => ?_, fun f member => ?_, fun f member g member' same => ?_⟩
  · exact mem_flatten.mpr ⟨fields, mem_append_right _ mem_cons_self, member⟩
  · obtain ⟨spec, listed, inside⟩ := mem_flatten.mp member
    rcases mem_append.mp listed with before | here
    · exact Int.le_trans (valid.bounded f (mem_flatten.mpr ⟨spec, before, inside⟩)) bound.1
    · rw [mem_singleton.mp here] at inside
      exact bound.2 f inside
  · rcases mem f member with oldF | newF <;> rcases mem g member' with oldG | newG
    · exact valid.unique f oldF g oldG same
    · exact absurd same (apart f oldF g newG)
    · exact absurd same.symm (apart g oldG f newF)
    · exact some.inj (newF.symm.trans newG)

private theorem Valid.addSchema (valid : Valid m) (target : Schema V) (tags : Option TagMap)
    (requirements : List TableRequirement) :
    Valid (applyCommit backend ⟨[.addSchema target, .setCurrentSchema none] ++
        tags.toList.map .setProperties, requirements⟩ m) ∧
      m.schemas <+: (applyCommit backend ⟨[.addSchema target, .setCurrentSchema none] ++
        tags.toList.map .setProperties, requirements⟩ m).schemas := by
  have reached : ∃ m₀ : Metadata V, (∃ id, (applyUpdate backend (applyUpdate backend (m, none)
        (.addSchema target)) (.setCurrentSchema none)) = (m₀, id)) ∧ Valid m₀ ∧
      m.schemas <+: m₀.schemas := by
    simp only [applyUpdate]
    cases found : m.schemas.findIdx? fun s => backend.same s target with
    | some id =>
      obtain ⟨inside, -⟩ := findIdx?_eq_some_iff_getElem.mp found
      exact ⟨_, ⟨_, rfl⟩, valid.of_specs inside rfl rfl rfl, prefix_refl _⟩
    | none =>
      refine ⟨_, ⟨_, rfl⟩, valid.of_specs ?_ rfl rfl rfl, prefix_append _ _⟩
      simp
  obtain ⟨m₀, ⟨id, is⟩, valid₀, longer⟩ := reached
  cases tags with
  | none =>
    simp only [applyCommit, toList_none, map_nil, append_nil, foldl_cons, foldl_nil, is]
    exact ⟨valid₀, longer⟩
  | some tags =>
    simp only [applyCommit, toList_some, map_cons, map_nil, cons_append,
      nil_append, foldl_cons, foldl_nil, is]
    exact ⟨valid₀.of_specs valid₀.current rfl rfl rfl, longer⟩

private theorem Valid.runAlone (valid : Valid m) {statement : Statement V}
    (runs : AlterCommit.runAlone backend statement m = some m') :
    Valid m' ∧ m.schemas <+: m'.schemas := by
  revert runs
  fun_cases AlterCommit.runAlone backend statement m <;> rintro ⟨⟩
  · exact ⟨valid, prefix_refl _⟩
  next c planned =>
    revert planned
    fun_cases plan backend m statement <;> intro planned
    · cases planned
    next schema _ ops =>
      revert planned
      fun_cases planAlter backend m schema ops <;> rintro ⟨⟩
      exact valid.addSchema _ _ _
    next schema _ top rest ifExists =>
      revert planned
      fun_cases planDropNested backend m schema top rest ifExists <;> rintro ⟨⟩
      exact valid.addSchema _ none _
    next schema _ evolution =>
      revert planned
      fun_cases planEvolution m schema evolution <;> rintro ⟨⟩
      next evolved _ =>
        obtain ⟨new, old, fresh⟩ := evolvedFields_cases evolved
        exact ⟨valid.addSpec old fresh, prefix_refl _⟩
    next schema _ set columns =>
      revert planned
      fun_cases planIdentifiers backend m schema set columns <;> intro planned
      · cases planned
      next ids _ _ =>
        revert planned
        fun_cases selectSchema backend m ⟨schema.fields, ids⟩ <;> rintro ⟨⟩
        next found _ =>
          obtain ⟨inside, -⟩ := findIdx?_eq_some_iff_getElem.mp found
          exact ⟨valid.of_specs inside rfl rfl rfl, prefix_refl _⟩
        · exact valid.addSchema _ none _
      · cases planned
    next ops =>
      obtain rfl := Plan.commit.inj planned
      exact ⟨valid.of_specs valid.current rfl rfl rfl, prefix_refl _⟩

end Plans

section Runs

variable {Task : Type} [DecidableEq Task] (backend : Backend V) (job : Task → Job V)
variable (m₀ : Metadata V) (s : State Task V)

structure Starts : Prop where
  table : s.table = m₀
  versions : s.versions = [m₀]
  phase : ∀ t, s.phase t = .waiting
  lock : ∀ coordinator, s.lock coordinator = none

/-- A commit is applied only while its statement is fresh and no earlier send of it was. -/
def Clear : Event Task → Prop
  | .load _ _ => True
  | .send t reply => reply.applies = true →
      ∀ loaded c attempt landed, s.phase t = .sending loaded c attempt landed →
        landed = false ∧ Fresh loaded s.table (job t).statement

/-- The table is what some of the statements leave one after another, each at most once and every
successful one among them, and no partition field id was given to two fields. -/
def Serialised : Prop :=
  (∃ order : List Task, order.Nodup ∧ (∀ t, s.phase t = .succeeded → t ∈ order) ∧
    (∀ t ∈ order, s.phase t ≠ .waiting) ∧
    order.foldlM (fun m t => runAlone backend (job t).statement m) m₀ = some s.table) ∧
  ∀ f ∈ s.table.specs.flatten, ∀ g ∈ s.table.specs.flatten, f.fieldId = g.fieldId → f = g

def Phase.Counts : Phase V → Prop
  | .waiting => False
  | .sending _ _ _ landed => landed = true
  | _ => True

structure Ordered (trace : List (Task × Metadata V)) : Prop where
  chain : Chain (fun t => runAlone backend (job t).statement) m₀ trace s.table
  seen : ∀ v ∈ s.versions, v ∈ visited m₀ trace
  once : (trace.map Prod.fst).Nodup
  successes : ∀ t, s.phase t = .succeeded → t ∈ trace.map Prod.fst
  counted : ∀ t ∈ trace.map Prod.fst, (s.phase t).Counts

structure Known : Prop where
  newest : s.table ∈ s.versions
  valid : ∀ v ∈ s.versions, Valid v ∧ v.schemas <+: s.table.schemas
  planned : ∀ t loaded c attempt landed, s.phase t = .sending loaded c attempt landed →
    loaded ∈ s.versions ∧ plan backend loaded (job t).statement = .commit c

def Consistent : Prop :=
  Known backend job s ∧ ∃ trace, Ordered backend job m₀ s trace

variable {backend job} {m₀ : Metadata V} {s s' : State Task V} {t : Task} {p : Phase V}
  {trace : List (Task × Metadata V)}

private theorem Ordered.rephase (ordered : Ordered backend job m₀ s trace)
    (table : s'.table = s.table)
    (versions : s'.versions = s.versions) (phase : s'.phase = update s.phase t p)
    (succeeds : p = .succeeded → t ∈ trace.map Prod.fst)
    (counts : t ∈ trace.map Prod.fst → p.Counts) : Ordered backend job m₀ s' trace := by
  refine ⟨table ▸ ordered.chain, versions ▸ ordered.seen, ordered.once, fun u is => ?_,
    fun u listed => ?_⟩
  · by_cases same : u = t
    · subst same
      rw [phase, update_self] at is
      exact succeeds is
    · rw [phase, update_of_ne same] at is
      exact ordered.successes u is
  · by_cases same : u = t
    · subst same
      rw [phase, update_self]
      exact counts listed
    · rw [phase, update_of_ne same]
      exact ordered.counted u listed

private theorem Known.rephase (known : Known backend job s) (table : s'.table = s.table)
    (versions : s'.versions = s.versions) (phase : s'.phase = update s.phase t p)
    (sending : ∀ loaded c attempt landed, p = .sending loaded c attempt landed →
      loaded ∈ s.versions ∧ plan backend loaded (job t).statement = .commit c) :
    Known backend job s' := by
  refine ⟨by rw [table, versions]; exact known.newest, by rw [table, versions]; exact known.valid,
    fun u loaded c attempt landed is => ?_⟩
  rw [versions]
  by_cases same : u = t
  · subst same
    rw [phase, update_self] at is
    exact sending loaded c attempt landed is
  · rw [phase, update_of_ne same] at is
    exact known.planned u loaded c attempt landed is

private theorem consistent_load {version : Metadata V} (consistent : Consistent backend job m₀ s)
    (waiting : s.phase t = .waiting) (shown : version ∈ s.versions) :
    Consistent backend job m₀ (loadStep backend job s t version) := by
  obtain ⟨known, trace, ordered⟩ := consistent
  have new : t ∉ trace.map Prod.fst := by
    intro listed
    have counts := ordered.counted t listed
    rw [waiting] at counts
    exact counts
  unfold loadStep
  split
  next =>
    exact ⟨known.rephase rfl rfl rfl nofun, trace,
      ordered.rephase rfl rfl rfl nofun fun listed => absurd listed new⟩
  next planned =>
    have idle : runAlone backend (job t).statement version = some version := by
      rw [runAlone, planned]
    obtain ⟨trace', chain, perm⟩ := ordered.chain.insert (t := t) (ordered.seen version shown) idle
    have ids : (trace'.map Prod.fst).Perm (t :: trace.map Prod.fst) := perm.map Prod.fst
    have inserted : Ordered backend job m₀
        { s with phase := update s.phase t .succeeded } trace' := by
      refine ⟨chain, fun v listed => ?_, ?_, fun u is => ?_, fun u listed => ?_⟩
      · rcases mem_cons.mp (ordered.seen v listed) with first | later
        · exact first ▸ mem_cons_self
        · refine mem_cons_of_mem _ ((perm.map Prod.snd).mem_iff.mpr ?_)
          exact mem_cons_of_mem _ later
      · exact ids.nodup_iff.mpr (nodup_cons.mpr ⟨new, ordered.once⟩)
      · rw [ids.mem_iff, mem_cons]
        by_cases same : u = t
        · exact .inl same
        · dsimp only at is
          rw [update_of_ne same] at is
          exact .inr (ordered.successes u is)
      · dsimp only
        by_cases same : u = t
        · rw [same, update_self]
          trivial
        · rw [update_of_ne same]
          rcases mem_cons.mp (ids.mem_iff.mp listed) with is | old
          · exact absurd is same
          · exact ordered.counted u old
    exact ⟨known.rephase rfl rfl rfl nofun, trace', inserted⟩
  next c planned =>
    refine ⟨known.rephase rfl rfl rfl ?_, trace,
      ordered.rephase rfl rfl rfl nofun fun listed => absurd listed new⟩
    rintro loaded c' attempt landed is
    obtain ⟨rfl, rfl, -, -⟩ := Phase.sending.inj is
    exact ⟨shown, planned⟩

private theorem sendStep_cases (backend : Backend V) (job : Task → Job V) (s : State Task V)
    (t : Task)
    (loaded : Metadata V) (c : Commit V) (attempt : Nat) (landed : Bool) (reply : Reply) :
    ∃ p, (sendStep backend job s t loaded c attempt landed reply).table =
        (s.answer backend c reply).table ∧
      (sendStep backend job s t loaded c attempt landed reply).versions =
        (s.answer backend c reply).versions ∧
      (sendStep backend job s t loaded c attempt landed reply).phase =
        update s.phase t p ∧
      (p = .succeeded → reply = .success) ∧
      ((landed || reply.applies) = true → p.Counts) ∧
      ∀ loaded' c' attempt' landed', p = .sending loaded' c' attempt' landed' →
        loaded' = loaded ∧ c' = c := by
  have phases : (s.answer backend c reply).phase = s.phase := by
    unfold State.answer
    split <;> rfl
  unfold sendStep
  dsimp only
  split
  next success =>
    exact ⟨.succeeded, rfl, rfl, by rw [State.finish, phases], fun _ => success,
      fun _ => trivial, nofun⟩
  next =>
    split
    · refine ⟨_, rfl, rfl, rfl, nofun, fun counts => counts, fun _ _ _ _ is => ?_⟩
      obtain ⟨rfl, rfl, -, -⟩ := Phase.sending.inj is
      exact ⟨rfl, rfl⟩
    · exact ⟨.failed, rfl, rfl, by rw [State.finish, phases], nofun, fun _ => trivial, nofun⟩

private theorem consistent_send {loaded : Metadata V} {c : Commit V} {attempt : Nat} {landed : Bool}
    {reply : Reply} (consistent : Consistent backend job m₀ s)
    (sending : s.phase t = .sending loaded c attempt landed)
    (clear : Clear job s (.send t reply))
    (allowed : reply.applies = true → c.holds s.table = true) :
    Consistent backend job m₀ (sendStep backend job s t loaded c attempt landed reply) := by
  obtain ⟨known, trace, ordered⟩ := consistent
  obtain ⟨shown, planned⟩ := known.planned t loaded c attempt landed sending
  obtain ⟨p, table, versions, phase, succeeds, counts, sends⟩ :=
    sendStep_cases backend job s t loaded c attempt landed reply
  cases applies : reply.applies with
  | false =>
    have same : s.answer backend c reply = s := by rw [State.answer, applies]; rfl
    rw [same] at table versions
    refine ⟨known.rephase table versions phase ?_, trace,
      ordered.rephase table versions phase ?_ ?_⟩
    · intro loaded' c' attempt' landed' is
      obtain ⟨rfl, rfl⟩ := sends _ _ _ _ is
      exact ⟨shown, planned⟩
    · intro is
      rw [succeeds is] at applies
      cases applies
    · intro listed
      have counted := ordered.counted t listed
      rw [sending] at counted
      exact counts (by rw [counted]; rfl)
  | true =>
    obtain ⟨first, fresh⟩ := clear applies loaded c attempt landed sending
    have now := known.valid s.table known.newest
    have runs : runAlone backend (job t).statement s.table =
        some (applyCommit backend c s.table) := by
      refine runAlone_of_fresh (known.valid loaded shown).2 planned (allowed applies) fresh ?_
      rw [Metadata.currentSchema, getElem?_eq_getElem now.1.current]
      rfl
    obtain ⟨valid, longer⟩ := now.1.runAlone runs
    have applied : s.answer backend c reply = { s with
        table := applyCommit backend c s.table
        versions := applyCommit backend c s.table :: s.versions } := by
      rw [State.answer, applies]
      rfl
    rw [applied] at table versions
    dsimp only at table versions
    have counts := counts (by rw [applies, Bool.or_true])
    have new : t ∉ trace.map Prod.fst := by
      intro listed
      have counted := ordered.counted t listed
      rw [sending, first] at counted
      cases counted
    refine ⟨⟨?_, ?_, ?_⟩, trace ++ [(t, applyCommit backend c s.table)], ⟨?_, ?_, ?_, ?_, ?_⟩⟩
    · rw [table, versions]
      exact mem_cons_self
    · rw [table, versions]
      exact forall_mem_cons.mpr ⟨⟨valid, prefix_refl _⟩,
        fun v old => ⟨(known.valid v old).1, (known.valid v old).2.trans longer⟩⟩
    · intro u loaded' c' attempt' landed' is
      rw [versions]
      rw [phase] at is
      by_cases same : u = t
      · subst same
        rw [update_self] at is
        obtain ⟨rfl, rfl⟩ := sends _ _ _ _ is
        exact ⟨mem_cons_of_mem _ shown, planned⟩
      · rw [update_of_ne same] at is
        obtain ⟨listed, planned⟩ := known.planned u _ _ _ _ is
        exact ⟨mem_cons_of_mem _ listed, planned⟩
    · rw [table]
      exact ordered.chain.snoc runs
    · rw [versions]
      intro v listed
      rw [visited, map_append, ← cons_append, mem_append]
      rcases mem_cons.mp listed with rfl | old
      · exact .inr (mem_singleton_self _)
      · exact .inl (ordered.seen v old)
    · rw [map_append, nodup_append]
      refine ⟨ordered.once, nodup_singleton _, fun u listed u' is same => new ?_⟩
      have own : u' = t := mem_singleton.mp is
      rwa [← own, ← same]
    · intro u is
      rw [map_append, mem_append]
      rw [phase] at is
      by_cases same : u = t
      · exact .inr (mem_singleton.mpr same)
      · rw [update_of_ne same] at is
        exact .inl (ordered.successes u is)
    · intro u listed
      rw [phase]
      by_cases same : u = t
      · rw [same, update_self]
        exact counts
      · rw [update_of_ne same]
        rw [map_append, mem_append] at listed
        rcases listed with old | is
        · exact ordered.counted u old
        · exact absurd (mem_singleton.mp is) same

private theorem consistent_step {e : Event Task} (consistent : Consistent backend job m₀ s)
    (clear : Clear job s e) (taken : step backend job s e = some s') :
    Consistent backend job m₀ s' := by
  cases e with
  | load t age =>
    simp only [step] at taken
    split at taken
    next version waiting shown =>
      split at taken
      · cases taken
      · obtain rfl := some.inj taken
        exact consistent_load consistent waiting (mem_of_getElem? shown)
    next => cases taken
  | send t reply =>
    simp only [step] at taken
    split at taken
    next loaded c attempt landed sending =>
      split at taken
      · cases taken
      next allowed =>
        obtain rfl := some.inj taken
        refine consistent_send consistent sending clear fun applies => ?_
        simpa [applies] using allowed
    next => cases taken

omit [DecidableEq Task] in
private theorem Starts.consistent (valid : Valid m₀) (starts : Starts m₀ s) :
    Consistent backend job m₀ s := by
  refine ⟨⟨?_, ?_, ?_⟩, [], ?_, ?_, nodup_nil, ?_, nofun⟩
  · rw [starts.table, starts.versions]
    exact mem_cons_self
  · rw [starts.table, starts.versions]
    intro v listed
    rw [mem_singleton.mp listed]
    exact ⟨valid, prefix_refl _⟩
  · intro t loaded c attempt landed is
    rw [starts.phase t] at is
    cases is
  · exact starts.table.symm
  · rw [starts.versions]
    exact fun v listed => listed
  · intro t is
    rw [starts.phase t] at is
    cases is

/-- In a run whose commits are all clear every state reached is that of a serial order. -/
theorem alters_serialise (valid : Valid m₀)
    (reached : Reachable (Starts m₀) (step backend job) (Clear job) s) :
    Serialised backend job m₀ s := by
  obtain ⟨known, trace, ordered⟩ : Consistent backend job m₀ s :=
    reached.invariant (fun _ starts => starts.consistent valid)
      fun _ _ _ consistent clear taken => consistent_step consistent clear taken
  refine ⟨⟨trace.map Prod.fst, ordered.once, ordered.successes, fun t listed waits => ?_,
    ordered.chain.foldlM⟩, (known.valid s.table known.newest).1.unique⟩
  have counted := ordered.counted t listed
  rw [waits] at counted
  exact counted

end Runs

def anyBackend : Backend Unit := ⟨fun _ => true, fun _ _ => false, fun _ _ => none⟩

def twoColumns : Metadata Unit where
  schemas := [⟨[.new 1 "a" (.primitive .int) false, .new 2 "b" (.primitive .int) false], []⟩]
  currentSchemaId := 0
  lastColumnId := 2
  specs := [[]]
  defaultSpec := []
  lastPartitionId := 999
  columnTags := fun _ => []

private theorem twoColumns_valid : Valid twoColumns := by
  refine ⟨by decide, nofun, ?_, ?_⟩
  · intro f member
    cases member
  · intro f member
    cases member

/-- `ALTER TABLE t ADD PARTITION FIELD a` on one coordinator and `b` on another. -/
def addPartitionField (second : Bool) : Job Unit :=
  if second then ⟨.applyPartitionEvolution (.addField ⟨"b", "b", .known "identity"⟩), 1⟩
  else ⟨.applyPartitionEvolution (.addField ⟨"a", "a", .known "identity"⟩), 0⟩

def idle : State Bool Unit := ⟨twoColumns, [twoColumns], fun _ => .waiting, fun _ => none⟩

private theorem idle_starts : Starts twoColumns idle := ⟨rfl, rfl, fun _ => rfl, fun _ => rfl⟩

/-- Both statements, the second loading the table after the first has committed. -/
theorem alters_serialise_both :
    ∃ s, Reachable (Starts twoColumns) (step anyBackend addPartitionField)
        (Clear addPartitionField) s ∧
      s.table.defaultSpec =
        [⟨1, 1000, "a", .known "identity"⟩, ⟨2, 1001, "b", .known "identity"⟩] ∧
      Serialised anyBackend addPartitionField twoColumns s := by
  have loaded : Reachable (Starts twoColumns) (step anyBackend addPartitionField)
      (Clear addPartitionField) (loadStep anyBackend addPartitionField idle false twoColumns) :=
    (Reachable.start idle_starts).next (e := .load false 0) trivial rfl
  have sent := loaded.next (e := .send false .success) ?_ rfl
  have loadedNext := sent.next (e := Event.load true 0) (by exact trivial) rfl
  have sentNext := loadedNext.next (e := .send true .success) ?_ rfl
  · exact ⟨_, sentNext, rfl, alters_serialise twoColumns_valid sentNext⟩
  -- either commit finds the table as it was loaded
  all_goals
    intro _ version c attempt landed sending
    obtain ⟨rfl, -, -, rfl⟩ := Phase.sending.inj sending
    exact ⟨rfl, rfl, rfl, rfl⟩

/-- Both load the table before either commits: one field is lost, and both have the same id. -/
theorem evolutions_clash :
    ∃ s, Reachable (Starts twoColumns) (step anyBackend addPartitionField) (fun _ _ => True) s ∧
      ¬ Serialised anyBackend addPartitionField twoColumns s := by
  have taken : ∃ s, follow (step anyBackend addPartitionField) (fun _ _ => True) idle
      [.load false 0, .load true 0, .send false .success, .send true .success] = some s ∧
        s.table.specs = [[], [⟨1, 1000, "a", .known "identity"⟩],
          [⟨2, 1000, "b", .known "identity"⟩]] := ⟨_, rfl, rfl⟩
  obtain ⟨s, followed, specs⟩ := taken
  refine ⟨s, (Reachable.start idle_starts).follow _ followed, fun serial => ?_⟩
  have same := serial.2 ⟨1, 1000, "a", .known "identity"⟩ (by rw [specs]; decide)
    ⟨2, 1000, "b", .known "identity"⟩ (by rw [specs]; decide) rfl
  exact absurd same (by decide)

end Sqe.Write.AlterCommit
