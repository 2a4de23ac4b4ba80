/- GID: Sqe/Write/AlterSchema
   generality: I
   digest: Schema changes of ALTER TABLE on nested Iceberg fields. -/

import Mathlib.Data.List.Nodup

/-!
A statement that fails gives nothing; error texts are left out. Conversions from SQL types and
`DEFAULT` literals stand before the model: an added column comes with its Iceberg type, numbered
as the only column of a schema of its own, and its literal. What the schema builder accepts is a
parameter.
-/

set_option autoImplicit false

namespace Sqe.Write.AlterSchema

open List

structure Ident where
  value : String
  quoted : Bool
  deriving DecidableEq

def toAsciiLowercase (s : String) : String := String.ofList (s.toList.map Char.toLower)

def foldUnquotedIdent (ident : Ident) : String :=
  if ident.quoted then ident.value else toAsciiLowercase ident.value

/-- The primitive types; those without a rule of promotion go by their name. -/
inductive PrimitiveType
  | unknown
  | int
  | long
  | float
  | double
  | decimal (precision scale : Nat)
  | other (name : String)
  deriving DecidableEq

/-- A value, with the members of a struct by field id. A primitive value is held by what it
denotes, which promotion to a wider type leaves as it is. -/
inductive Value (V : Type)
  | null
  | primitive (v : V)
  | struct (members : List (Nat × Value V))
  | list (items : List (Value V))
  | map (entries : List (Value V × Value V))

structure Literal (V : Type) where
  value : Value V
  present : value ≠ .null

mutual

inductive FieldType (V : Type)
  | primitive (p : PrimitiveType)
  | variant
  | struct (fields : List (NestedField V))
  | list (element : NestedField V)
  | map (key value : NestedField V)

structure NestedField (V : Type) where
  id : Nat
  name : String
  type : FieldType V
  required : Bool
  doc : Option String
  initialDefault : Option (Literal V)
  writeDefault : Option (Literal V)

end

variable {V : Type}

/-- A field without doc and defaults, as `NestedField::new` builds it. -/
def NestedField.new (id : Nat) (name : String) (type : FieldType V) (required : Bool) :
    NestedField V :=
  ⟨id, name, type, required, none, none, none⟩

/-- What a field is besides its name, doc and type. -/
structure Attributes (V : Type) where
  id : Nat
  required : Bool
  initialDefault : Option (Literal V)
  writeDefault : Option (Literal V)

variable (f : NestedField V)

mutual

def typeAttributes : FieldType V → List (Attributes V)
  | .primitive _ => []
  | .variant => []
  | .struct fields => fieldsAttributes fields
  | .list element => fieldAttributes element
  | .map key value => fieldAttributes key ++ fieldAttributes value

def fieldAttributes : NestedField V → List (Attributes V)
  | ⟨id, _, type, required, _, initialDefault, writeDefault⟩ =>
    ⟨id, required, initialDefault, writeDefault⟩ :: typeAttributes type

def fieldsAttributes : List (NestedField V) → List (Attributes V)
  | [] => []
  | f :: fields => fieldAttributes f ++ fieldsAttributes fields

end

variable (fields : List (NestedField V))

theorem fieldsAttributes_eq : fieldsAttributes fields = fields.flatMap fieldAttributes := by
  induction fields with
  | nil => rw [fieldsAttributes, flatMap_nil]
  | cons f fields ih => rw [fieldsAttributes, flatMap_cons, ih]

def fieldIds : List Nat := (fieldAttributes f).map Attributes.id

def typeIds (type : FieldType V) : List Nat := (typeAttributes type).map Attributes.id

def fieldsIds : List Nat :=
  (fieldsAttributes fields).map Attributes.id

def highestFieldId : Nat := (fieldsIds fields).foldr max 0

theorem id_mem_fieldIds : f.id ∈ fieldIds f := by
  cases f
  exact mem_cons_self

theorem fieldsIds_eq : fieldsIds fields = fields.flatMap fieldIds := by
  rw [fieldsIds, fieldsAttributes_eq, map_flatMap]
  rfl

theorem id_le_highestFieldId {fields : List (NestedField V)} {f : NestedField V}
    (member : f ∈ fields) : f.id ≤ highestFieldId fields := by
  have listed : f.id ∈ fieldsIds fields :=
    fieldsIds_eq fields ▸ mem_flatMap.mpr ⟨f, member, id_mem_fieldIds f⟩
  unfold highestFieldId
  generalize fieldsIds fields = ids at listed
  induction ids with
  | nil => cases listed
  | cons id ids ih =>
    rcases mem_cons.mp listed with is | later
    · exact is ▸ Nat.le_max_left _ _
    · exact Nat.le_trans (ih later) (Nat.le_max_right _ _)

def checkTypePromotion : PrimitiveType → PrimitiveType → Bool
  | .unknown, _ => true
  | .int, .long => true
  | .float, .double => true
  | .decimal p s, .decimal p' s' => (p == p' || p' > p) && s' == s
  | old, new => old == new

mutual

def shiftFieldIds (amount : Nat) : FieldType V → FieldType V
  | .primitive p => .primitive p
  | .variant => .variant
  | .struct fields => .struct (shiftFields amount fields)
  | .list element => .list (shiftField amount element)
  | .map key value => .map (shiftField amount key) (shiftField amount value)

def shiftField (amount : Nat) : NestedField V → NestedField V
  | ⟨id, name, type, required, doc, initialDefault, writeDefault⟩ =>
    ⟨id + amount, name, shiftFieldIds amount type, required, doc, initialDefault, writeDefault⟩

def shiftFields (amount : Nat) : List (NestedField V) → List (NestedField V)
  | [] => []
  | f :: fields => shiftField amount f :: shiftFields amount fields

end

/-- The type of a column, converted as the only column of a schema: the column has id 1 there and
the fields inside it the ids up to the highest. -/
structure ColumnType (V : Type) where
  type : FieldType V
  highest : Nat
  positive : 0 < highest
  distinct : (typeIds type).Nodup
  within : ∀ id ∈ typeIds type, 1 < id ∧ id ≤ highest

inductive AlterColumnOp
  | setNotNull
  | dropNotNull
  | setDataType (p : PrimitiveType)
  deriving DecidableEq

inductive AlterOp (V : Type)
  | addColumn (name : Ident) (type : ColumnType V) (notNull : Bool) (default : Option (Literal V))
  | dropColumn (names : List Ident) (ifExists : Bool)
  | renameColumn (old new : Ident)
  | alterColumn (name : Ident) (op : AlterColumnOp)

/-- A change of a column name that the column tags are to follow. -/
inductive TagKeyChange
  | rename (old new : String)
  | drop (column : String)
  deriving DecidableEq

structure Working (V : Type) where
  fields : List (NestedField V)
  maxFieldId : Nat
  tagKeyChanges : List TagKeyChange

def updateFirst (name : String) (update : NestedField V → Option (NestedField V)) :
    List (NestedField V) → Option (List (NestedField V))
  | [] => none
  | f :: fields =>
    if f.name = name then (update f).map (· :: fields)
    else (updateFirst name update fields).map (f :: ·)

theorem updateFirst_eq_some {name : String} {update : NestedField V → Option (NestedField V)}
    {fields fields' : List (NestedField V)}
    (updated : updateFirst name update fields = some fields') :
    ∃ before f g rest, fields = before ++ f :: rest ∧ update f = some g ∧
      (fields.find? fun f => f.name == name) = some f ∧ fields' = before ++ g :: rest := by
  induction fields generalizing fields' with
  | nil => cases updated
  | cons f fields ih =>
    rw [updateFirst] at updated
    split at updated
    next named =>
      obtain ⟨g, is, rfl⟩ := Option.map_eq_some_iff.mp updated
      exact ⟨[], f, g, fields, rfl, is, by simp [named], rfl⟩
    next other =>
      obtain ⟨tail, later, rfl⟩ := Option.map_eq_some_iff.mp updated
      obtain ⟨before, h, g, rest, rfl, is, found, rfl⟩ := ih later
      refine ⟨f :: before, h, g, rest, rfl, is, ?_, rfl⟩
      rw [find?_cons_of_neg (by simpa using other)]
      exact found

def renamed (new : String) (f : NestedField V) : NestedField V :=
  .new f.id new f.type f.required

def alterColumn : AlterColumnOp → Option (NestedField V)
  | .setNotNull => some (.new f.id f.name f.type true)
  | .dropNotNull => some (.new f.id f.name f.type false)
  | .setDataType p =>
    match f.type with
    | .primitive old =>
      if checkTypePromotion old p then some (.new f.id f.name (.primitive p) f.required)
      else none
    | _ => none

/-- A column with the next free id; the fields inside it take the ids after. -/
def addedColumn (maxFieldId : Nat) (name : String) (type : ColumnType V) (notNull : Bool)
    (default : Option (Literal V)) : NestedField V :=
  ⟨maxFieldId + 1, name, shiftFieldIds maxFieldId type.type, notNull, none, default, default⟩

def dropOne (w : Working V) (column : String) (ifExists : Bool) : Option (Working V) :=
  if w.fields.any fun f => f.name == column then
    some { w with
      fields := w.fields.eraseP fun f => f.name == column
      tagKeyChanges := w.tagKeyChanges ++ [.drop column] }
  else if ifExists then some w else none

def dropAll (w : Working V) (ifExists : Bool) : List Ident → Option (Working V)
  | [] => some w
  | name :: names =>
    (dropOne w (foldUnquotedIdent name) ifExists).bind fun w => dropAll w ifExists names

def alterOp (w : Working V) : AlterOp V → Option (Working V)
  | .addColumn name type notNull default =>
    some { w with
      fields := w.fields ++
        [addedColumn w.maxFieldId (foldUnquotedIdent name) type notNull default]
      maxFieldId := w.maxFieldId + type.highest }
  | .dropColumn names ifExists => dropAll w ifExists names
  | .renameColumn old new =>
    (updateFirst (foldUnquotedIdent old) (fun f => some (renamed (foldUnquotedIdent new) f))
      w.fields).map fun fields =>
        { w with
          fields := fields
          tagKeyChanges := w.tagKeyChanges ++
            [.rename (foldUnquotedIdent old) (foldUnquotedIdent new)] }
  | .alterColumn name op =>
    (updateFirst (foldUnquotedIdent name) (fun f => alterColumn f op) w.fields).map fun fields =>
      { w with fields := fields }

def alterOps (w : Working V) : List (AlterOp V) → Option (Working V)
  | [] => some w
  | op :: ops => (alterOp w op).bind fun w => alterOps w ops

variable (builds : List (NestedField V) → Bool) (fields : List (NestedField V))

/-- The columns and name changes that the statement commits. -/
def alterTableSchema (lastColumnId : Nat) (ops : List (AlterOp V)) : Option (Working V) :=
  (alterOps ⟨fields, lastColumnId, []⟩ ops).bind fun w =>
    if builds w.fields then some w else none

/-- Put the pieces that a visit of each field leaves together. A visit that finds nothing to do
under `IF EXISTS` ends the loop. -/
def rebuildFields (visit : NestedField V → Option (Option (List (NestedField V)))) :
    List (NestedField V) → Option (Option (List (NestedField V)))
  | [] => some (some [])
  | f :: fields =>
    match visit f with
    | none => none
    | some none => some none
    | some (some piece) => (rebuildFields visit fields).map (·.map (piece ++ ·))

/-- The fields of a struct without the one at the path; nothing to do if there is none and
`IF EXISTS` is given. -/
def removeStructSubfield (ifExists : Bool) :
    List String → List (NestedField V) → Option (Option (List (NestedField V)))
  | [], _ => none
  | head :: rest, fields =>
    if fields.any fun f => f.name == head then
      rebuildFields (fun f =>
        if f.name = head then
          if rest.isEmpty then some (some [])
          else
            match f.type with
            | .struct inner =>
              (removeStructSubfield ifExists rest inner).map (·.map fun inner' =>
                [.new f.id f.name (.struct inner') f.required])
            | _ => none
        else some (some [f])) fields
    else if ifExists then some none else none

/-- `DROP COLUMN top.rest`: the columns to commit, unless `IF EXISTS` leaves nothing to do. -/
def dropNestedColumn (top : String) (rest : List String) (ifExists : Bool) :
    Option (Option (List (NestedField V))) :=
  match fields.find? fun f => f.name == top with
  | none => if ifExists then some none else none
  | some f =>
    match f.type with
    | .struct inner =>
      match removeStructSubfield ifExists rest inner with
      | none => none
      | some none => some none
      | some (some inner') =>
        (updateFirst top (fun f => some (.new f.id f.name (.struct inner') f.required))
          fields).bind fun fields => if builds fields then some (some fields) else none
    | _ => none

end Sqe.Write.AlterSchema
