/- GID: Sqe/Policy/Resolved
   generality: G
   digest: Resolved policies, the mask expressions, and the governed view of a table. -/

import Sqe.DataFusion.Plan

set_option autoImplicit false

namespace Sqe.Policy

open Sqe.DataFusion List

inductive MaskType
  | nullify
  | redact (value : String)
  | hash
  | custom (expr : Expr)
  | partialMask (showFirst showLast : Nat) (upper lower digit : Char)
  | dateShowYear

/-- Policy expressions are parsed without a schema: no subqueries, no outer references. -/
def isPlain (e : Expr) : Bool := e.subexprs.all fun
  | .outerReferenceColumn _ => false
  | x => !x.isSubquery

/-- The filters, masks and restrictions of a table for a user. The masks are a map. -/
structure ResolvedPolicy where
  rowFilters : List Expr
  columnMasks : List (String × MaskType)
  restrictedColumns : List String
  plainFilters : ∀ f ∈ rowFilters, isPlain f = true
  plainMasks : ∀ name e, (name, MaskType.custom e) ∈ columnMasks → isPlain e = true

theorem plainFilters_nil : ∀ f ∈ ([] : List Expr), isPlain f = true := nofun

theorem plainMasks_nil : ∀ name e, (name, MaskType.custom e) ∈ ([] : List (String × MaskType)) →
    isPlain e = true := nofun

namespace ResolvedPolicy

variable (policy : ResolvedPolicy) (toLowercase : String → String)

def isEmpty : Bool :=
  policy.rowFilters.isEmpty && policy.columnMasks.isEmpty && policy.restrictedColumns.isEmpty

/-- Entries are compared without regard to case. -/
def isRestricted (column : String) : Bool :=
  policy.restrictedColumns.any fun c => toLowercase c == toLowercase column

/-- Of two entries the one whose key sorts first. -/
def firstKey (a b : String × MaskType) : String × MaskType := if b.1 < a.1 then b else a

/-- The mask of a column: an exact key first, else the one that sorts first among the keys that
differ only by case. -/
def maskFor (column : String) : Option MaskType :=
  match policy.columnMasks.find? fun entry => entry.1 == column with
  | some entry => some entry.2
  | none =>
    match policy.columnMasks.filter fun entry => toLowercase entry.1 == toLowercase column with
    | [] => none
    | entry :: entries => some (entries.foldl firstKey entry).2

def governs (column : String) : Bool :=
  policy.isRestricted toLowercase column || (policy.maskFor toLowercase column).isSome

end ResolvedPolicy

theorem foldl_firstKey_mem (entry : String × MaskType) (entries : List (String × MaskType)) :
    entries.foldl ResolvedPolicy.firstKey entry ∈ entry :: entries := by
  induction entries generalizing entry with
  | nil => exact mem_cons_self
  | cons next entries ih =>
    rcases mem_cons.mp (ih (ResolvedPolicy.firstKey entry next)) with is | later
    · rw [foldl_cons, is, ResolvedPolicy.firstKey]
      split <;> simp
    · exact mem_cons_of_mem _ (mem_cons_of_mem _ later)

def typedNull (type : DataType) : Expr := .literal (.nullOf type)

def maskHashUdfName : String := "__sqe_mask_sha256"

/-- `sha256_udf`: an HMAC under the key, the plain hash without one. -/
def sha256Udf (maskKey : Option (List Nat)) : ScalarUdf where
  name := maskHashUdfName
  state := match maskKey with
    | none => []
    | some key => 1 :: key

def maskPartialUdf (showFirst showLast : Nat) (upper lower digit : Char) : ScalarUdf :=
  ⟨"sqe_mask_partial", [showFirst, showLast, upper.toNat, lower.toNat, digit.toNat]⟩

/-- `apply_mask`, over the reference the column is read by. -/
def applyMask (reference : Column) (type : DataType) (mask : MaskType)
    (maskKey : Option (List Nat)) : Expr :=
  match mask with
  | .nullify => typedNull type
  | .redact value =>
    let text := Expr.literal (.utf8 (some value))
    if type = .utf8 ∨ type = .largeUtf8 then text else .cast text type
  | .hash =>
    let hash := Expr.scalarFunction (sha256Udf maskKey) [.column reference]
    if type = .utf8 ∨ type = .largeUtf8 then hash else .cast hash type
  | .custom expr => expr
  | .partialMask showFirst showLast upper lower digit =>
    let mask := fun inner =>
      Expr.scalarFunction (maskPartialUdf showFirst showLast upper lower digit) [inner]
    match type with
    | .utf8 => mask (.column reference)
    | .largeUtf8 | .utf8View => .cast (mask (.cast (.column reference) .utf8)) type
    -- A char-class mask of a column that is no string: hide the value.
    | _ => typedNull type
  | .dateShowYear => match type with
      | .date32 | .date64 | .timestamp _ _ =>
        .cast (.scalarFunction ⟨"date_trunc", []⟩
          [.literal (.utf8 (some "year")), .column reference]) type
      | _ => typedNull type

/-- What the resolved policies are applied with: the folding of names, the key of the hash masks,
and the policy of each scanned table by the text of its reference. -/
structure Governance where
  toLowercase : String → String
  maskKey : Option (List Nat)
  tablePolicies : List (String × ResolvedPolicy)

namespace Governance

variable (gov : Governance) (k : Kernels)

def policyOf (tableName : TableReference) : Option ResolvedPolicy :=
  ((gov.tablePolicies.find? fun entry => entry.1 == tableName.toString).map Prod.snd).filter
    fun policy => !policy.isEmpty

/-- The environment of policy expressions on one raw row of a table. -/
def policyEnv (tableName : TableReference) (source : SourceSchema) (row : SourceRow) : RowEnv :=
  sourceEnv tableName source row (fun _ => .null) []

section View

variable (policy : ResolvedPolicy) (tableName : TableReference) (source : SourceSchema)

def admits (row : SourceRow) : Bool :=
  policy.rowFilters.all fun f => Holds k (policyEnv tableName source row) f

/-- The governed value of a column: NULL when restricted, its mask of the raw row when masked. -/
def governedValue (row : SourceRow) (field : String × DataType) : ScalarValue :=
  if policy.isRestricted gov.toLowercase field.1 then .nullOf field.2
  else match policy.maskFor gov.toLowercase field.1 with
    | some mask => valueOf k (policyEnv tableName source row)
        (applyMask ⟨none, field.1⟩ field.2 mask gov.maskKey)
    | none => row field.1

/-- The governed row, over the fields the table's provider reports. -/
def governRow (row : SourceRow) : SourceRow := fun name =>
  match source.find? fun field => field.1 == name with
  | some field => gov.governedValue k policy tableName source row field
  | none => row name

end View

def govern (db : Database) : Database := fun tableName source =>
  match gov.policyOf tableName with
  | none => db tableName source
  | some policy => ((db tableName source).filter (admits k policy tableName source)).map
      (gov.governRow k policy tableName source)

end Governance

end Sqe.Policy
