/- GID: Sqe/Catalog/SortOrder
   generality: I
   digest: The orderings the Iceberg scan declares, and when its partitions keep them. -/

import Sqe.Catalog.ScanWork
import Sqe.Library.SortKeys

/-!
The scan declares an order from the table's metadata alone. A row gives each field id its value. A
file may have been written under any partition spec, so nothing is assumed about the values of a
partition column.
-/

set_option autoImplicit false

namespace Sqe.Catalog.SortOrder

open Sqe.Catalog.ScanWork Sqe.Library.Interleave Sqe.Library.SortKeys Sqe.Library.Tiling List

variable {V : Type}

/-- The identity, or a function of the column (bucket, truncate, year and so on). -/
inductive Transform (V : Type)
  | identity
  | derived (apply : Option V → Option V)

def Transform.apply : Transform V → Option V → Option V
  | .identity => id
  | .derived apply => apply

def Transform.isIdentity : Transform V → Bool
  | .identity => true
  | .derived _ => false

inductive SortDirection
  | ascending
  | descending
deriving DecidableEq

inductive NullOrder
  | first
  | last
deriving DecidableEq

structure SortField (V : Type) where
  sourceId : Nat
  transform : Transform V
  direction : SortDirection
  nullOrder : NullOrder

def SortField.options (field : SortField V) : SortOptions where
  descending := !decide (field.direction = .ascending)
  nullsFirst := decide (field.nullOrder = .first)

structure TableMetadata (V : Type) where
  /-- The fields of the current schema, nested ones too, by id with their own names. -/
  currentSchema : List (Nat × String)
  defaultSortOrder : List (SortField V)
  /-- Source id and transform of each field of the default partition spec. -/
  defaultPartitionSpec : List (Nat × Transform V)

def TableMetadata.fieldById (table : TableMetadata V) (id : Nat) : Option String :=
  table.currentSchema.lookup id

/-- The columns of the scan: names, with the field ids of the scanned snapshot's schema. -/
abbrev ProjectedSchema := List (String × Nat)

/-- A column of the projected schema with its sort options. -/
structure PhysicalSortExpr where
  name : String
  index : Nat
  options : SortOptions
deriving DecidableEq

def PhysicalSortExpr.display (expr : PhysicalSortExpr) : String :=
  expr.name ++ "@" ++ toString expr.index

/-- The loop over the sort fields, which stops at the first one it cannot convert. -/
def convertFields (table : TableMetadata V) (projected : ProjectedSchema) :
    List (SortField V) → List PhysicalSortExpr
  | [] => []
  | field :: rest =>
    if field.transform.isIdentity then
      match table.fieldById field.sourceId with
      | none => []
      | some name =>
        match projected.findIdx? fun column => column.1 == name with
        | none => []
        | some index => ⟨name, index, field.options⟩ :: convertFields table projected rest
    else []

section

variable (table : TableMetadata V) (projected : ProjectedSchema)

def icebergSortToPhysical : Option (List PhysicalSortExpr) :=
  if table.defaultSortOrder.isEmpty then none
  else
    let exprs := convertFields table projected table.defaultSortOrder
    if exprs.isEmpty then none else some exprs

def partitionCols (table : TableMetadata V) : List String :=
  (table.defaultPartitionSpec.filter fun field => field.2.isIdentity).filterMap fun field =>
    table.fieldById field.1

def equivalenceWithSort (exprs : List PhysicalSortExpr) : List (List PhysicalSortExpr) :=
  if exprs.isEmpty then [] else [exprs]

/-- What a new scan declares: sort columns whose printed form names a partition column. -/
def newOrderings : List (List PhysicalSortExpr) :=
  match icebergSortToPhysical table projected with
  | some exprs => equivalenceWithSort
      (exprs.filter fun expr => (partitionCols table).contains expr.display)
  | none => []

def declaredOrderings (trust : Bool) : List (List PhysicalSortExpr) :=
  if trust then
    match icebergSortToPhysical table projected with
    | some exprs => equivalenceWithSort exprs
    | none => newOrderings table projected
  else newOrderings table projected

end

abbrev Row (V : Type) := Nat → Option V

/-- The row as the scan emits it, by the place of the column. -/
def output (projected : ProjectedSchema) (row : Row V) : Nat → Option V := fun index =>
  projected[index]?.bind fun column => row column.2

def orderingKeys (ordering : List PhysicalSortExpr) : List (SortKey Nat) :=
  ordering.map fun expr => (expr.index, expr.options)

section Order

variable [LinearOrder V]

def compareSortField (field : SortField V) (a b : Row V) : Ordering :=
  compareValues field.options (field.transform.apply (a field.sourceId))
    (field.transform.apply (b field.sourceId))

def compareSortOrder : List (SortField V) → Row V → Row V → Ordering
  | [], _, _ => .eq
  | field :: rest, a, b => (compareSortField field a b).then (compareSortOrder rest a b)

/-- `filter_concurrency` where filters are pushed into the scan; without any, the batches pass one
by one. -/
structure FilterStage where
  inFlight : Nat
  positive : 0 < inFlight

/-- The direct path filters while it decodes, the reader path filters the decoded batches, which
may be cut anywhere. -/
def FilterStage.Delivers {R : Type} (stage : FilterStage) (cfg : ScanConfig)
    (plan : StaticScanPlan) (surviving emitted : List R) : Prop :=
  if cfg.useDirect plan then emitted = surviving
  else ∃ batches completed : List (List R), surviving = batches.flatten ∧
    Buffered stage.inFlight [] batches completed ∧ emitted = completed.flatten

/-- The batches leave the filter stage as they enter it. -/
def FilterStage.InOrder (stage : FilterStage) (cfg : ScanConfig) (plan : StaticScanPlan) : Prop :=
  cfg.useDirect plan = true ∨ stage.inFlight = 1

instance (stage : FilterStage) (cfg : ScanConfig) (plan : StaticScanPlan) :
    Decidable (stage.InOrder cfg plan) :=
  inferInstanceAs (Decidable (_ ∨ _))

private theorem FilterStage.InOrder.delivers {R : Type} {stage : FilterStage} {cfg : ScanConfig}
    {plan : StaticScanPlan} {surviving emitted : List R} (ordered : stage.InOrder cfg plan)
    (delivered : stage.Delivers cfg plan surviving emitted) : emitted = surviving := by
  rw [FilterStage.Delivers] at delivered
  split at delivered
  next => exact delivered
  next reader =>
    obtain ⟨batches, completed, rfl, buffered, rfl⟩ := delivered
    rw [ordered.resolve_left reader] at buffered
    rw [buffered.in_order (Nat.zero_le 1)]
    rfl

private theorem FilterStage.Delivers.perm {R : Type} {stage : FilterStage} {cfg : ScanConfig}
    {plan : StaticScanPlan} {surviving emitted : List R}
    (delivered : stage.Delivers cfg plan surviving emitted) : emitted.Perm surviving := by
  rw [FilterStage.Delivers] at delivered
  split at delivered
  · exact .of_eq delivered
  · obtain ⟨batches, completed, rfl, buffered, rfl⟩ := delivered
    exact buffered.perm.flatten

def FilesSorted (table : TableMetadata V) (plan : StaticScanPlan) (contents : Contents (Row V)) :
    Prop :=
  ∀ file ∈ plan.files, (contents file).rows.Pairwise fun a b =>
    compareSortOrder table.defaultSortOrder a b ≠ .gt

/-- Whatever the sorted files hold, in whatever order their reads complete, whichever rows the
filters drop and in whatever order the filtered batches complete, each partition keeps every
declared ordering. -/
def OrderingsHold (table : TableMetadata V) (projected : ProjectedSchema) (trust : Bool)
    (cfg : ScanConfig) (plan : StaticScanPlan) (stage : FilterStage) : Prop :=
  ∀ contents : Contents (Row V), FilesSorted table plan contents →
    ∀ partition < cfg.totalPartitions, ∀ decoded, cfg.Emits plan contents partition decoded →
      ∀ surviving emitted : List (Row V), surviving.Sublist decoded →
        stage.Delivers cfg plan surviving emitted →
          ∀ ordering ∈ declaredOrderings table projected trust,
            Sorted (orderingKeys ordering) (emitted.map (output projected))

end Order

/-- The columns of the leading identity fields of a sort order. -/
def leadingKeys : List (SortField V) → List (SortKey Nat)
  | [] => []
  | field :: rest =>
    if field.transform.isIdentity then (field.sourceId, field.options) :: leadingKeys rest
    else []

def columnId (projected : ProjectedSchema) (index : Nat) : Nat :=
  (projected[index]?.map Prod.snd).getD 0

def orderingIds (projected : ProjectedSchema) (ordering : List PhysicalSortExpr) :
    List (SortKey Nat) :=
  ordering.map fun expr => (columnId projected expr.index, expr.options)

section

variable (table : TableMetadata V) (projected : ProjectedSchema)

def LeadsSortOrder (ordering : List PhysicalSortExpr) : Prop :=
  distinctKeys (orderingIds projected ordering) <+:
    distinctKeys (leadingKeys table.defaultSortOrder)

instance (table : TableMetadata V) (projected : ProjectedSchema)
    (ordering : List PhysicalSortExpr) : Decidable (LeadsSortOrder table projected ordering) :=
  inferInstanceAs (Decidable (_ <+: _))

/-- The field id under which the scan finds a sort column by its name. -/
def boundId (id : Nat) : Nat :=
  match table.fieldById id with
  | none => 0
  | some name =>
    match projected.findIdx? fun column => column.1 == name with
    | none => 0
    | some index => columnId projected index

private theorem convertFields_spec (fields : List (SortField V)) :
    ∀ expr ∈ convertFields table projected fields, expr.index < projected.length ∧
      ∃ id ∈ (leadingKeys fields).map Prod.fst,
        columnId projected expr.index = boundId table projected id := by
  intro expr listed
  fun_induction convertFields table projected fields with
  | case4 field rest identity name known index found ih =>
    rw [leadingKeys, if_pos identity]
    rcases mem_cons.mp listed with rfl | later
    · have inside := (findIdx?_eq_some_iff_getElem.mp found).1
      refine ⟨inside, field.sourceId, mem_cons_self, ?_⟩
      simp only [boundId, known, found]
    · obtain ⟨inside, id, leading, bound⟩ := ih later
      exact ⟨inside, id, mem_cons_of_mem _ leading, bound⟩
  | _ => cases listed

end

section Declared

variable {table : TableMetadata V} {projected : ProjectedSchema} {trust : Bool}
  {ordering : List PhysicalSortExpr} (declared : ordering ∈ declaredOrderings table projected trust)

include declared in
private theorem declaredOrderings_spec :
    ordering ≠ [] ∧
      ordering.Sublist (convertFields table projected table.defaultSortOrder) := by
  have given {exprs : List PhysicalSortExpr} (listed : ordering ∈ equivalenceWithSort exprs) :
      ordering ≠ [] ∧ ordering = exprs := by
    revert listed
    fun_cases equivalenceWithSort exprs
    · nofun
    next nonempty =>
      intro listed
      obtain rfl := mem_singleton.mp listed
      exact ⟨by simpa using nonempty, rfl⟩
  have converted {exprs} (result : icebergSortToPhysical table projected = some exprs) :
      exprs = convertFields table projected table.defaultSortOrder := by
    revert result
    fun_cases icebergSortToPhysical table projected <;> intro result
    case case3 => exact (Option.some.inj result).symm
    all_goals cases result
  have fresh (listed : ordering ∈ newOrderings table projected) : ordering ≠ [] ∧
      ordering.Sublist (convertFields table projected table.defaultSortOrder) := by
    rw [newOrderings] at listed
    split at listed
    next exprs result =>
      obtain ⟨nonempty, rfl⟩ := given listed
      exact ⟨nonempty, converted result ▸ filter_sublist⟩
    next => cases listed
  revert declared
  fun_cases declaredOrderings table projected trust
  next exprs result =>
    intro declared
    obtain ⟨nonempty, rfl⟩ := given declared
    exact ⟨nonempty, converted result ▸ .refl _⟩
  all_goals exact fresh

include declared in
private theorem orderingIds_ne_nil : orderingIds projected ordering ≠ [] := fun none =>
  (declaredOrderings_spec declared).1 (map_eq_nil_iff.mp none)

include declared in
private theorem orderingIds_length_le :
    (distinctKeys (orderingIds projected ordering)).length ≤
      (distinctKeys (leadingKeys table.defaultSortOrder)).length := by
  have bound : (distinctKeys (orderingIds projected ordering)).map Prod.fst ⊆
      ((distinctKeys (leadingKeys table.defaultSortOrder)).map Prod.fst).map
        (boundId table projected) := by
    intro column listed
    obtain ⟨key, distinct, rfl⟩ := mem_map.mp listed
    obtain ⟨expr, kept, rfl⟩ := mem_map.mp ((distinctKeys_sublist _).subset distinct)
    obtain ⟨-, id, leading, same⟩ := convertFields_spec table projected table.defaultSortOrder
      expr ((declaredOrderings_spec declared).2.subset kept)
    exact mem_map.mpr ⟨id, mem_distinctKeys _ leading, same.symm⟩
  simpa using (subperm_of_subset (distinctKeys_nodup _) bound).length_le

section Order

variable [LinearOrder V]

private theorem compareSortOrder_then (fields : List (SortField V)) (a b : Row V) :
    ∃ later, compareSortOrder fields a b = (compareRows (leadingKeys fields) a b).then later := by
  induction fields with
  | nil => exact ⟨.eq, rfl⟩
  | cons field rest ih =>
    obtain ⟨later, eq⟩ := ih
    rw [leadingKeys, compareSortOrder, compareSortField]
    cases field.transform with
    | derived apply => exact ⟨_, rfl⟩
    | identity => exact ⟨later, by rw [eq, ← Ordering.then_assoc]; rfl⟩

include declared in
private theorem compareRows_output (a b : Row V) :
    compareRows (orderingKeys ordering) (output projected a) (output projected b) =
      compareRows (orderingIds projected ordering) a b := by
  have ids : orderingIds projected ordering =
      (orderingKeys ordering).map fun key => (columnId projected key.1, key.2) := by
    rw [orderingKeys, map_map]
    rfl
  rw [ids, compareRows_map]
  refine compareRows_congr fun key listed => ?_
  obtain ⟨expr, kept, rfl⟩ := mem_map.mp listed
  have inside := (convertFields_spec table projected table.defaultSortOrder expr
    ((declaredOrderings_spec declared).2.subset kept)).1
  simp [output, columnId, getElem?_eq_getElem inside]

end Order

end Declared

/-- Row groups that put each row at its place, given in rising order. -/
def plant {R : Type} : Nat → List (Nat × R) → List (RowGroup R)
  | _, [] => []
  | offset, entry :: rest =>
    ⟨entry.1 - offset, []⟩ :: ⟨0, [entry.2]⟩ :: plant entry.1 rest

section Plant

variable {R : Type}

private theorem plant_fits (size offset : Nat) (entries : List (Nat × R)) (begins : offset < size)
    (rising : (offset :: entries.map Prod.fst).Pairwise (· ≤ ·))
    (inside : ∀ entry ∈ entries, entry.1 < size) :
    offset + ((plant offset entries).map RowGroup.compressedSize).sum < size := by
  induction entries generalizing offset with
  | nil => simpa [plant] using begins
  | cons entry rest ih =>
    obtain ⟨after, later⟩ := pairwise_cons.mp rising
    have step := after entry.1 mem_cons_self
    have rest := ih entry.1 (inside entry mem_cons_self) later
      fun other listed => inside other (mem_cons_of_mem _ listed)
    simp only [plant, map_cons, sum_cons]
    omega

private theorem plant_rows (offset : Nat) (entries : List (Nat × R)) :
    (plant offset entries).flatMap RowGroup.rows = entries.map Prod.snd := by
  induction entries generalizing offset with
  | nil => rfl
  | cons entry rest ih => simp [plant, ih]

private theorem plant_filter (range : Nat × Nat) (offset : Nat) (entries : List (Nat × R))
    (rising : (offset :: entries.map Prod.fst).Pairwise (· ≤ ·)) :
    (((midpoints offset (plant offset entries)).filter fun group =>
      within range group.1).map Prod.snd).flatMap RowGroup.rows =
      (entries.filter fun entry => within range entry.1).map Prod.snd := by
  induction entries generalizing offset with
  | nil => rfl
  | cons entry rest ih =>
    obtain ⟨after, later⟩ := pairwise_cons.mp rising
    have place : offset + (entry.1 - offset) = entry.1 :=
      Nat.add_sub_cancel' (after entry.1 mem_cons_self)
    simp only [plant, midpoints, place, Nat.zero_div, Nat.add_zero, filter_cons]
    cases within range (offset + (entry.1 - offset) / 2) <;>
      cases within range entry.1 <;> simp [ih entry.1 later]

structure Mark (R : Type) where
  file : DataFile
  place : Nat
  row : R

/-- Marks lie behind the magic header of their files, and rise in each file. -/
structure Plantable (marks : List (Mark R)) : Prop where
  inside : ∀ mark ∈ marks, 4 ≤ mark.place ∧ mark.place < mark.file.size
  rising : marks.Pairwise fun first second => first.file = second.file → first.place ≤ second.place

def entriesOf (marks : List (Mark R)) (file : DataFile) : List (Nat × R) :=
  (marks.filter fun mark => mark.file = file).map fun mark => (mark.place, mark.row)

variable {marks : List (Mark R)}

private theorem Plantable.rising_in (plantable : Plantable marks)
    (file : DataFile) : (4 :: (entriesOf marks file).map Prod.fst).Pairwise (· ≤ ·) := by
  rw [entriesOf, map_map]
  refine pairwise_cons.mpr ⟨fun place listed => ?_, pairwise_map.mpr ?_⟩
  · obtain ⟨mark, kept, rfl⟩ := mem_map.mp listed
    exact (plantable.inside mark (mem_filter.mp kept).1).1
  · refine List.Pairwise.imp_of_mem (fun {first second} here there rises => ?_)
      (plantable.rising.filter _)
    have firstHere := (mem_filter.mp here).2
    have secondHere := (mem_filter.mp there).2
    simp only [decide_eq_true_eq] at firstHere secondHere
    exact rises (firstHere.trans secondHere.symm)

/-- The files hold the marked rows and nothing else. -/
def planted (plantable : Plantable marks) : Contents R := fun file =>
  ⟨plant 4 (entriesOf marks file), plant_fits file.size 4 _ file.room (plantable.rising_in file)
    fun entry listed => by
      obtain ⟨mark, kept, rfl⟩ := mem_map.mp listed
      obtain ⟨member, here⟩ := mem_filter.mp kept
      rw [← of_decide_eq_true here]
      exact (plantable.inside mark member).2⟩

private theorem planted_rows (plantable : Plantable marks) (file : DataFile) :
    ((planted plantable file).rows).Sublist (marks.map Mark.row) := by
  have rows : (planted plantable file).rows =
      (marks.filter fun mark => mark.file = file).map Mark.row := by
    rw [Layout.rows, planted, plant_rows, entriesOf, map_map]
    rfl
  rw [rows]
  exact filter_sublist.map _

private theorem planted_rowsIn (plantable : Plantable marks) (file : DataFile)
    {start length : Nat} (proper : length ≠ 0) :
    (planted plantable file).rowsIn start length =
      ((marks.filter fun mark => mark.file = file).filter fun mark =>
        within (start, start + length) mark.place).map Mark.row := by
  rw [Layout.rowsIn, if_pos (by simp [proper]), Layout.filterRowGroupsByByteRange, planted,
    plant_filter _ _ _ (plantable.rising_in file), entriesOf, filter_map, map_map]
  rfl

end Plant

private theorem chunkRanges_reach {size target : Nat} (room : 4 < size) (large : 8 ≤ target) :
    ∀ range ∈ chunkRanges size target, 4 < range.1 + range.2 := by
  intro range listed
  have tiles := tiles_chunkRanges size target (by omega) (by omega)
  have some := divCeil_pos size target (by omega) (by omega)
  have long : 4 < divCeil size (divCeil size target) := by
    by_contra short
    have covered := (divCeil_le_iff size (divCeil size target) 4 some).mp (by omega)
    have fewer : ¬ size ≤ (divCeil size target - 1) * target := fun all => by
      have fewer := (divCeil_le_iff size target _ (by omega)).mpr all
      omega
    have many : (divCeil size target - 1) * 8 ≤ (divCeil size target - 1) * target :=
      Nat.mul_le_mul_left _ large
    omega
  obtain ⟨i, -, rfl⟩ := mem_map.mp listed
  cases i with
  | zero => omega
  | succ i =>
    omega

private theorem fileByteSplits_reach {size target : Nat} (room : 4 < size)
    (large : target = 0 ∨ 8 ≤ target) :
    ∀ range ∈ fileByteSplits size target, range.2 ≠ 0 ∧ 4 < range.1 + range.2 := by
  intro range listed
  have forward := (tiles_fileByteSplits size target (by omega)).bounds _
    (mem_map_of_mem listed)
  refine ⟨by dsimp only at forward; omega, ?_⟩
  rw [fileByteSplits] at listed
  split at listed
  next =>
    obtain rfl := mem_singleton.mp listed
    omega
  next kept =>
    simp only [Bool.or_eq_true, beq_iff_eq, not_or] at kept
    exact chunkRanges_reach room (large.resolve_left kept.1) range listed

/-- A byte of the unit behind the magic header. -/
def placeIn (unit : FileScanTask) : Nat := max unit.start 4

private theorem place_spec {cfg : ScanConfig} {plan : StaticScanPlan} {file : DataFile}
    {unit : FileScanTask} (large : 8 ≤ cfg.splitTarget) (piece : unit ∈ cfg.pieces plan file) :
    (4 ≤ placeIn unit ∧ placeIn unit < unit.file.size) ∧ unit.length ≠ 0 ∧
      within (unit.start, unit.start + unit.length) (placeIn unit) = true := by
  obtain ⟨rfl, ends⟩ := ScanConfig.pieces_spec piece
  have room := unit.file.room
  have proper : unit.length ≠ 0 ∧ 4 < unit.start + unit.length := by
    rw [ScanConfig.pieces] at piece
    split at piece
    next =>
      rw [mem_singleton.mp piece]
      exact ⟨by simp only [FileScanTask.whole]; omega, by simpa [FileScanTask.whole] using room⟩
    next =>
      rw [splitFileScanTask_whole] at piece
      obtain ⟨range, split, same⟩ := mem_map.mp piece
      have sized : (if unit.file.isParquet then cfg.splitTarget else 0) = 0 ∨
          8 ≤ if unit.file.isParquet then cfg.splitTarget else 0 := by
        split
        · exact .inr large
        · exact .inl rfl
      rw [← same]
      exact fileByteSplits_reach room sized range split
  rw [placeIn, within]
  refine ⟨by omega, proper.1, ?_⟩
  simp only [Bool.and_eq_true, decide_eq_true_eq]
  omega

section Holds

variable [LinearOrder V] {table : TableMetadata V} {projected : ProjectedSchema} {trust : Bool}
  {cfg : ScanConfig} {plan : StaticScanPlan} {stage : FilterStage}

private theorem filesSorted_planted {a b : Row V} {first second : Mark (Row V)}
    (plantable : Plantable [first, second]) (rows : first.row = a ∧ second.row = b)
    (below : compareRows (leadingKeys table.defaultSortOrder) a b = .lt) :
    FilesSorted table plan (planted plantable) := by
  intro file _
  refine List.Pairwise.sublist (planted_rows plantable file) ?_
  have ordered : compareSortOrder table.defaultSortOrder first.row second.row ≠ .gt := by
    obtain ⟨later, eq⟩ := compareSortOrder_then table.defaultSortOrder a b
    rw [rows.1, rows.2, eq, below]
    exact nofun
  simpa using ordered

variable {partition : Nat} {ordering : List PhysicalSortExpr}

omit [LinearOrder V] in
private theorem mem_unitRows_planted {marks : List (Mark (Row V))} (plantable : Plantable marks)
    {unit : FileScanTask} {mark : Mark (Row V)} (large : 8 ≤ cfg.splitTarget)
    (inside : partition < cfg.totalPartitions) (assigned : unit ∈ cfg.workUnits plan partition)
    (listed : mark ∈ marks) (file : mark.file = unit.file) (place : mark.place = placeIn unit) :
    mark.row ∈ cfg.unitRows plan (planted plantable) unit := by
  obtain ⟨owner, -, piece⟩ := ScanConfig.mem_workUnits inside assigned
  obtain ⟨-, proper, covered⟩ := place_spec large piece
  rw [ScanConfig.unitRows_eq_rowsIn _ piece, planted_rowsIn plantable unit.file proper]
  refine mem_map_of_mem (mem_filter.mpr ⟨mem_filter.mpr ⟨listed, ?_⟩, ?_⟩)
  · exact decide_eq_true file
  · rw [place]
    exact covered

omit [LinearOrder V] in
private theorem FilterStage.delivers_self {R : Type} (stage : FilterStage) (cfg : ScanConfig)
    (plan : StaticScanPlan) (rows : List R) : stage.Delivers cfg plan rows rows := by
  rw [Delivers]
  split
  · rfl
  · refine ⟨[rows], [rows], by simp, .begin stage.positive ?_, by simp⟩
    exact .complete [] .nil

private theorem OrderingsHold.pair (hold : OrderingsHold table projected trust cfg plan stage)
    {contents : Contents (Row V)} (sorted : FilesSorted table plan contents)
    (inside : partition < cfg.totalPartitions) {decoded : List (Row V)}
    (emits : cfg.Emits plan contents partition decoded) {a b : Row V}
    (pair : [a, b].Sublist decoded)
    (declared : ordering ∈ declaredOrderings table projected trust) :
    compareRows (orderingIds projected ordering) a b ≠ .gt := by
  have kept := hold contents sorted partition inside decoded emits [a, b] [a, b] pair
    (stage.delivers_self cfg plan [a, b]) ordering declared
  rwa [Sorted, map_cons, map_singleton, pairwise_pair, compareRows_output declared] at kept

private theorem exists_workUnit (cfg : ScanConfig) (plan : StaticScanPlan)
    (some : plan.files ≠ []) :
    ∃ partition < cfg.totalPartitions, ∃ unit, unit ∈ cfg.workUnits plan partition := by
  obtain ⟨file, rest, files⟩ := exists_cons_of_ne_nil some
  have room := file.room
  have cut : cfg.pieces plan file ≠ [] := by
    rw [ScanConfig.pieces]
    split
    · exact cons_ne_nil _ _
    · rw [splitFileScanTask_whole]
      intro none
      have tiles := tiles_fileByteSplits file.size
        (if file.isParquet then cfg.splitTarget else 0) (by omega)
      rw [map_eq_nil_iff.mp none] at tiles
      have empty := tiles.eq_of_nil
      omega
  obtain ⟨piece, later, pieces⟩ := exists_cons_of_ne_nil cut
  have listed : piece ∈ plan.files.flatMap (cfg.pieces plan) :=
    mem_flatMap.mpr ⟨file, files ▸ mem_cons_self, pieces ▸ mem_cons_self⟩
  obtain ⟨partition, inside, assigned⟩ :=
    mem_flatMap.mp ((cfg.workUnits_perm plan).mem_iff.mpr listed)
  exact ⟨partition, mem_range.mp inside, piece, assigned⟩

/-- Some partition reads two rows that a file may hold in this order. -/
private theorem exists_contents_with (cfg : ScanConfig) {a b : Row V} (large : 8 ≤ cfg.splitTarget)
    (some : plan.files ≠ []) (below : compareRows (leadingKeys table.defaultSortOrder) a b = .lt) :
    ∃ partition < cfg.totalPartitions, ∃ contents, FilesSorted table plan contents ∧
      [a, b].Sublist (cfg.reads plan contents partition).flatten := by
  obtain ⟨partition, inside, unit, assigned⟩ := exists_workUnit cfg plan some
  obtain ⟨file, -, piece⟩ := ScanConfig.mem_workUnits inside assigned
  obtain ⟨bounds, proper, covered⟩ := place_spec large piece
  have plantable : Plantable (R := Row V)
      [⟨unit.file, placeIn unit, a⟩, ⟨unit.file, placeIn unit, b⟩] :=
    ⟨by simpa using bounds, by simp⟩
  have rows : cfg.unitRows plan (planted plantable) unit = [a, b] := by
    rw [ScanConfig.unitRows_eq_rowsIn _ piece, planted_rowsIn plantable unit.file proper]
    simp [covered]
  refine ⟨partition, inside, planted plantable, filesSorted_planted plantable ⟨rfl, rfl⟩ below, ?_⟩
  rw [← rows]
  exact sublist_flatten_of_mem (mem_map_of_mem assigned)

private theorem pair_sublist_append {R : Type} {a b : R} {before after : List R}
    (first : b ∈ before) (second : a ∈ after) : [b, a].Sublist (before ++ after) :=
  (singleton_sublist.mpr first).append (singleton_sublist.mpr second)

section Hold

variable [Nontrivial V] (hold : OrderingsHold table projected trust cfg plan stage)
  (large : 8 ≤ cfg.splitTarget) (declared : ordering ∈ declaredOrderings table projected trust)
include hold large declared

private theorem OrderingsHold.leads (some : plan.files ≠ []) :
    LeadsSortOrder table projected ordering := by
  by_contra parted
  obtain ⟨a, b, below, above⟩ := exists_rows_against (V := V) (orderingIds_length_le declared)
    parted
  obtain ⟨partition, inside, contents, sorted, pair⟩ :=
    exists_contents_with cfg large some below
  exact hold.pair sorted inside (cfg.emits_flatten plan _ partition) pair declared above

private theorem OrderingsHold.single (inside : partition < cfg.totalPartitions) :
    (cfg.workUnits plan partition).length ≤ 1 := by
  by_contra several
  obtain ⟨first, second, rest, units⟩ : ∃ first second rest,
      cfg.workUnits plan partition = first :: second :: rest := by
    match found : cfg.workUnits plan partition with
    | [] => rw [found] at several; exact absurd (Nat.zero_le 1) several
    | [_] => rw [found] at several; exact absurd (Nat.le_refl 1) several
    | first :: second :: rest => exact ⟨first, second, rest, rfl⟩
  have firstIn : first ∈ cfg.workUnits plan partition := units ▸ mem_cons_self
  have secondIn : second ∈ cfg.workUnits plan partition :=
    units ▸ mem_cons_of_mem _ mem_cons_self
  obtain ⟨file, listed, -⟩ := ScanConfig.mem_workUnits inside firstIn
  have leads := hold.leads large declared (ne_nil_of_mem listed)
  obtain ⟨a, b, below, above⟩ := exists_rows_along (V := V) (orderingIds_ne_nil declared) leads
  have reads : ∀ contents : Contents (Row V), cfg.reads plan contents partition =
      cfg.unitRows plan contents first :: cfg.unitRows plan contents second ::
        rest.map (cfg.unitRows plan contents) := fun contents => by
    rw [ScanConfig.reads, units]
    rfl
  -- a unit that holds the smaller row must not be able to complete after the other
  have clash {low high : FileScanTask} (lowIn : low ∈ cfg.workUnits plan partition)
      (highIn : high ∈ cfg.workUnits plan partition)
      (rises : low.file = high.file → placeIn low ≤ placeIn high)
      (completes : ∀ contents : Contents (Row V), ∃ decoded,
        cfg.Emits plan contents partition decoded ∧ ∀ a ∈ cfg.unitRows plan contents low,
          ∀ b ∈ cfg.unitRows plan contents high, [b, a].Sublist decoded) : False := by
    obtain ⟨_, -, lowPiece⟩ := ScanConfig.mem_workUnits inside lowIn
    obtain ⟨_, -, highPiece⟩ := ScanConfig.mem_workUnits inside highIn
    have plantable : Plantable (R := Row V)
        [⟨low.file, placeIn low, a⟩, ⟨high.file, placeIn high, b⟩] :=
      ⟨by simpa using ⟨(place_spec large lowPiece).1, (place_spec large highPiece).1⟩,
        by simpa using rises⟩
    obtain ⟨decoded, emits, pair⟩ := completes (planted plantable)
    refine hold.pair (filesSorted_planted plantable ⟨rfl, rfl⟩ below) inside emits
      (pair a ?_ b ?_) declared above
    · exact mem_unitRows_planted plantable large inside lowIn mem_cons_self rfl rfl
    · exact mem_unitRows_planted plantable large inside highIn
        (mem_cons_of_mem _ mem_cons_self) rfl rfl
  by_cases order : first.file = second.file ∧ first.start < second.start
  · refine clash firstIn secondIn (fun _ => by simp only [placeIn]; omega) fun contents =>
      ⟨_, cfg.emits_rotated plan _ (reads contents), fun a low b high => ?_⟩
    exact pair_sublist_append (mem_append_left _ high) low
  · refine clash secondIn firstIn (fun same => ?_) fun contents =>
      ⟨_, cfg.emits_flatten plan contents partition, fun a low b high => ?_⟩
    · have after : ¬ first.start < second.start := fun before => order ⟨same.symm, before⟩
      simp only [placeIn]
      omega
    · rw [reads]
      exact pair_sublist_append high (mem_append_left _ low)

/-- Two batches that are filtered at the same time may complete in either order. -/
private theorem OrderingsHold.in_order (some : plan.files ≠ []) : stage.InOrder cfg plan := by
  by_contra unordered
  obtain ⟨reader, several⟩ := not_or.mp unordered
  obtain ⟨a, b, below, above⟩ := exists_rows_along (V := V) (orderingIds_ne_nil declared)
    (hold.leads large declared some)
  obtain ⟨partition, inside, contents, sorted, pair⟩ :=
    exists_contents_with cfg large some below
  have two : 2 ≤ stage.inFlight := by
    have positive := stage.positive
    omega
  have swapped : stage.Delivers cfg plan [a, b] [b, a] := by
    rw [FilterStage.Delivers, if_neg reader]
    exact ⟨[[a], [b]], [[b], [a]], rfl, .swapped two [a] [b], rfl⟩
  have kept := hold contents sorted partition inside _ (cfg.emits_flatten plan _ partition) [a, b]
    [b, a] pair swapped ordering declared
  rw [Sorted, map_cons, map_singleton, pairwise_pair, compareRows_output declared] at kept
  exact kept above

end Hold

omit [LinearOrder V] in
private theorem emits_single {contents : Contents (Row V)} {decoded : List (Row V)}
    (inside : partition < cfg.totalPartitions)
    (single : (cfg.workUnits plan partition).length ≤ 1)
    (emits : cfg.Emits plan contents partition decoded) :
    decoded = [] ∨ ∃ file ∈ plan.files, decoded.Sublist (contents file).rows := by
  match units : cfg.workUnits plan partition with
  | [] =>
    left
    have all := emits.perm
    rw [ScanConfig.reads, units] at all
    exact perm_nil.mp all
  | [unit] =>
    right
    have assigned : unit ∈ cfg.workUnits plan partition := units ▸ mem_cons_self
    obtain ⟨file, listed, piece⟩ := ScanConfig.mem_workUnits inside assigned
    refine ⟨file, listed, ?_⟩
    have all : decoded = cfg.unitRows plan contents unit := by
      rw [ScanConfig.Emits, ScanConfig.reads, units] at emits
      split at emits
      · obtain ⟨completed, order, rfl⟩ := emits
        rw [perm_singleton.mp order]
        simp
      · exact emits.eq_of_singleton
    rw [all, ScanConfig.unitRows_eq_rowsIn contents piece, (ScanConfig.pieces_spec piece).1]
    exact (contents file).rowsIn_sublist _ _
  | _ :: _ :: _ =>
    rw [units] at single
    simp at single

private theorem orderingsHold_of_single
    (single : ∀ partition < cfg.totalPartitions, (cfg.workUnits plan partition).length ≤ 1)
    (leads : plan.files = [] ∨ stage.InOrder cfg plan ∧
      ∀ ordering ∈ declaredOrderings table projected trust,
        LeadsSortOrder table projected ordering) :
    OrderingsHold table projected trust cfg plan stage := by
  intro contents sorted partition inside decoded emits surviving emitted part delivered ordering
    declared
  rcases emits_single inside (single partition inside) emits with rfl | ⟨file, listed, within⟩
  · obtain rfl := sublist_nil.mp part
    rw [perm_nil.mp delivered.perm]
    exact List.Pairwise.nil
  · obtain ⟨ordered, leading⟩ := leads.resolve_left (ne_nil_of_mem listed)
    obtain rfl := ordered.delivers delivered
    have leading := leading ordering declared
    have stored := List.Pairwise.sublist (part.trans within) (sorted file listed)
    refine pairwise_map.mpr (stored.imp fun {a b} ordered => ?_)
    rw [compareRows_output declared]
    obtain ⟨later, eq⟩ := compareSortOrder_then table.defaultSortOrder a b
    refine compareRows_ne_gt_of_leading leading fun above => ordered ?_
    rw [eq, above]
    rfl

end Holds

/-- The declared orderings are kept exactly if there are none, or no partition reads more than one
file or byte range, no filter stage reorders its batches and each ordering lists the first columns
of the table's sort order. -/
theorem orderings_hold_iff [LinearOrder V] [Nontrivial V] (table : TableMetadata V)
    (projected : ProjectedSchema) (trust : Bool) (smallFileThreshold targetPartitions : Nat)
    (plan : StaticScanPlan) (stage : FilterStage) :
    OrderingsHold table projected trust
        (.withTargetPartitions smallFileThreshold targetPartitions) plan stage ↔
      declaredOrderings table projected trust = [] ∨
        (∀ partition < max targetPartitions 1, ((ScanConfig.withTargetPartitions smallFileThreshold
          targetPartitions).workUnits plan partition).length ≤ 1) ∧
        (plan.files = [] ∨
          stage.InOrder (.withTargetPartitions smallFileThreshold targetPartitions) plan ∧
            ∀ ordering ∈ declaredOrderings table projected trust,
              LeadsSortOrder table projected ordering) := by
  have large : 8 ≤ (ScanConfig.withTargetPartitions smallFileThreshold targetPartitions).splitTarget
      := show 8 ≤ defaultScanSplitTargetSize by decide
  constructor
  · intro hold
    match declared : declaredOrderings table projected trust with
    | [] => exact .inl rfl
    | first :: rest =>
      have listed : first ∈ declaredOrderings table projected trust :=
        declared ▸ mem_cons_self
      refine .inr ⟨fun partition inside => hold.single large listed inside, ?_⟩
      by_cases none : plan.files = []
      · exact .inl none
      · exact .inr ⟨hold.in_order large listed none,
          fun ordering member => hold.leads large (declared ▸ member) none⟩
  · rintro (none | ⟨single, leads⟩)
    · intro contents _ partition _ decoded _ surviving emitted _ _ ordering declared
      rw [none] at declared
      cases declared
    · exact orderingsHold_of_single single leads

/-- A table sorted by its only column. -/
def sortedTable : TableMetadata Int where
  currentSchema := [(1, "k")]
  defaultSortOrder := [⟨1, .identity, .ascending, .first⟩]
  defaultPartitionSpec := []

private theorem room_of_hundred : 4 < 100 := by decide

def oneFile : StaticScanPlan where
  files := [⟨"a.parquet", 100, true, room_of_hundred⟩]
  distinct := by decide
  hasDeletes := false

def twoFiles : StaticScanPlan where
  files := [⟨"a.parquet", 100, true, room_of_hundred⟩, ⟨"b.parquet", 100, true, room_of_hundred⟩]
  distinct := by decide
  hasDeletes := false

/-- A single file above the threshold, so that the reader path takes it. -/
def oneLargeFile : StaticScanPlan where
  files := [⟨"c.parquet", 5000, true, by decide⟩]
  distinct := by decide
  hasDeletes := false

def eightThreads : FilterStage := ⟨8, by decide⟩

def keyed (k : Int) : Row Int := fun id => if id = 1 then some k else none

def twoFileContents : Contents (Row Int) := fun file =>
  ⟨[⟨0, if file.path = "a.parquet" then [keyed 1, keyed 5] else [keyed 2, keyed 3]⟩],
    by simpa using file.room⟩

/-- A single small file is emitted in the trusted order, also with a filter. -/
theorem single_file_sorted :
    declaredOrderings sortedTable [("k", 1)] true = [[⟨"k", 0, ⟨false, true⟩⟩]] ∧
      OrderingsHold sortedTable [("k", 1)] true (.withTargetPartitions 1000 1) oneFile
        eightThreads :=
  ⟨by decide, (orderings_hold_iff sortedTable [("k", 1)] true 1000 1 oneFile eightThreads).mpr
    (.inr ⟨by decide, .inr (by decide)⟩)⟩

/-- Two sorted files that follow each other are not sorted, nor are two batches of a sorted file
that pass the filter stage in the other order. -/
theorem trusted_order_broken :
    declaredOrderings sortedTable [("k", 1)] true = [[⟨"k", 0, ⟨false, true⟩⟩]] ∧
      FilesSorted sortedTable twoFiles twoFileContents ∧
      (ScanConfig.withTargetPartitions 1000 1).Emits twoFiles twoFileContents 0
        [keyed 1, keyed 5, keyed 2, keyed 3] ∧
      ¬ Sorted (orderingKeys [⟨"k", 0, ⟨false, true⟩⟩])
        ([keyed 1, keyed 5, keyed 2, keyed 3].map (output [("k", 1)])) ∧
      FilesSorted sortedTable oneLargeFile twoFileContents ∧
      (ScanConfig.withTargetPartitions 1000 1).Emits oneLargeFile twoFileContents 0
        [keyed 2, keyed 3] ∧
      eightThreads.Delivers (.withTargetPartitions 1000 1) oneLargeFile [keyed 2, keyed 3]
        [keyed 3, keyed 2] ∧
      ¬ Sorted (orderingKeys [⟨"k", 0, ⟨false, true⟩⟩])
        ([keyed 3, keyed 2].map (output [("k", 1)])) := by
  refine ⟨by decide, by unfold FilesSorted; decide, ?_, by unfold Sorted; decide,
    by unfold FilesSorted; decide, ?_, ?_, by unfold Sorted; decide⟩
  · exact ScanConfig.emits_flatten (.withTargetPartitions 1000 1) twoFiles twoFileContents 0
  · exact ScanConfig.emits_flatten (.withTargetPartitions 1000 1) oneLargeFile twoFileContents 0
  · exact ⟨[[keyed 2], [keyed 3]], [[keyed 3], [keyed 2]], rfl, .swapped (by decide) _ _, rfl⟩

end Sqe.Catalog.SortOrder
