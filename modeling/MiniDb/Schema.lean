import MiniDb.PageLsn

/-!
Schemas and rows. Strings are lists of bytes. A row is checked against its schema
value by value, and a NULL only against the nullability of its column.
-/
namespace MiniDb.Sql
open Outcome

inductive DataType
  | uint32
  | int64
  | boolean
  | varchar
  deriving DecidableEq, Repr

inductive Value
  | null
  | uint32 (value : UInt32)
  | int64 (value : Int64)
  | boolean (value : Bool)
  | varchar (value : List UInt8)
  deriving DecidableEq

abbrev RowValues := List Value

structure ColumnDefinition where
  name : List UInt8
  type : DataType
  nullable : Bool
  primaryKey : Bool
  varcharMaxBytes : Nat
  deriving DecidableEq

structure Schema where
  columns : List ColumnDefinition

def isIdentifierStart (value : UInt8) : Bool :=
  (65 ≤ value && value ≤ 90) || (97 ≤ value && value ≤ 122) || value = 95

def isIdentifierContinue (value : UInt8) : Bool :=
  isIdentifierStart value || (48 ≤ value && value ≤ 57)

def maxIdentifierBytes : Nat := 63

def normalizeIdentifier (identifier : List UInt8) : Result (List UInt8) := do
  require (identifier ≠ [] ∧ identifier.length ≤ maxIdentifierBytes)
    (.invalidArgument "Identifier length is outside supported limits.")
  require (identifier.head?.any isIdentifierStart)
    (.invalidArgument "Identifier has an invalid first character.")
  require (identifier.all isIdentifierContinue)
    (.invalidArgument "Identifier contains a non-ASCII or invalid character.")
  return identifier.map fun value => if 65 ≤ value ∧ value ≤ 90 then value - 65 + 97 else value

def maxSchemaColumns : Nat := 1024

def maxVarcharBytes : Nat := 4000

def validateColumnType (column : ColumnDefinition) : Result Unit :=
  match column.type with
  | .uint32 | .int64 | .boolean =>
    require (column.varcharMaxBytes = 0)
      (.invalidArgument "Only VARCHAR columns may specify a maximum byte length.")
  | .varchar =>
    require (column.varcharMaxBytes ≠ 0 ∧ column.varcharMaxBytes ≤ maxVarcharBytes)
      (.invalidArgument "VARCHAR maximum byte length is outside supported limits.")

namespace Schema

def validatePrimaryKey (accepted : List ColumnDefinition) (column : ColumnDefinition) :
    Result Unit :=
  if column.primaryKey then do
    require (accepted.all (!·.primaryKey))
      (.invalidArgument "Schema contains more than one primary key.")
    require (!column.nullable) (.invalidArgument "Primary-key column cannot be nullable.")
    require (column.type = .uint32)
      (.invalidArgument "Milestone 5B primary keys must use UINT32.")
  else .ok ()

/-- One round of the loop of `create`, with the columns it has accepted. -/
def addColumn (accepted : List ColumnDefinition) (column : ColumnDefinition) :
    Result (List ColumnDefinition) := do
  let name ← normalizeIdentifier column.name
  require (accepted.all (·.name ≠ name))
    (.invalidArgument "Schema contains duplicate normalized column names.")
  validateColumnType column
  validatePrimaryKey accepted column
  return accepted ++ [{ column with name := name }]

def create (columns : List ColumnDefinition) : Result Schema := do
  require (columns ≠ [] ∧ columns.length ≤ maxSchemaColumns ∧ columns.length ≤ 2 ^ 16 - 1)
    (.invalidArgument "Schema column count is outside supported limits.")
  return ⟨← columns.foldlM addColumn []⟩

def column (schema : Schema) (index : Nat) : Result ColumnDefinition :=
  match schema.columns[index]? with
  | none => .error (.outOfRange "Schema column index is out of range.")
  | some column => .ok column

def findColumn (schema : Schema) (name : List UInt8) : Result (Option Nat) := do
  let normalized ← normalizeIdentifier name
  return schema.columns.findIdx? (·.name = normalized)

def primaryKeyColumn (schema : Schema) : Option Nat := schema.columns.findIdx? (·.primaryKey)

/-- One round of the loop of `validateValues`. -/
def validateValue (column : ColumnDefinition) (value : Value) : Result Unit :=
  match column.type, value with
  | _, .null =>
    require column.nullable (.invalidArgument "NULL supplied for a non-nullable column.")
  | .varchar, .varchar bytes =>
    require (bytes.length ≤ column.varcharMaxBytes)
      (.invalidArgument "VARCHAR value exceeds its declared byte limit.")
  | .uint32, .uint32 _ | .int64, .int64 _ | .boolean, .boolean _ => .ok ()
  | _, _ => .error (.invalidArgument "Logical value type does not match its column.")

def validateValues (schema : Schema) (values : RowValues) : Result Unit := do
  require (values.length = schema.columns.length)
    (.invalidArgument "Logical row value count does not match its schema.")
  (schema.columns.zip values).forM fun (column, value) => validateValue column value

theorem length_addColumns {given accepted columns : List ColumnDefinition}
    (h : given.foldlM addColumn accepted = .ok columns) :
    columns.length = accepted.length + given.length := by
  induction given generalizing accepted with
  | nil =>
    cases h
    rfl
  | cons col given ih =>
    simp only [List.foldlM_cons, addColumn, ok_iff] at h
    obtain ⟨_, ⟨_, _, _, _, _, _, _, _, rfl⟩, h⟩ := h
    rw [ih h, List.length_append, List.length_singleton, List.length_cons]
    omega

theorem create_columnCount {columns : List ColumnDefinition} {sch : Schema}
    (h : create columns = .ok sch) : sch.columns.length ≤ maxSchemaColumns := by
  simp only [create, ok_iff] at h
  obtain ⟨_, ⟨_, hle, _⟩, accepted, hf, rfl⟩ := h
  rw [length_addColumns hf, List.length_nil, zero_add]
  exact hle

theorem column_ok {sch : Schema} {ix : Nat} {col : ColumnDefinition} :
    sch.column ix = .ok col ↔ sch.columns[ix]? = some col := by
  unfold Schema.column
  cases sch.columns[ix]? with
  | none => simp
  | some other => simp

theorem validateValues_ok {sch : Schema} {row : RowValues} :
    sch.validateValues row = .ok () ↔ row.length = sch.columns.length ∧
      ∀ ent ∈ sch.columns.zip row, validateValue ent.1 ent.2 = .ok () := by
  simp only [validateValues, ok_iff, forM_ok, exists_const]

/-- A row that is accepted has a value for each column, of the column's type. -/
theorem validateValues_get {sch : Schema} {row : RowValues} {ix : Nat} {col : ColumnDefinition}
    (h : sch.validateValues row = .ok ()) (hc : sch.column ix = .ok col) :
    ∃ v, row[ix]? = some v ∧ validateValue col v = .ok () := by
  obtain ⟨hl, ha⟩ := validateValues_ok.mp h
  rw [column_ok] at hc
  obtain ⟨hlt, _⟩ := List.getElem?_eq_some_iff.mp hc
  have hr : row[ix]? = some row[ix] := List.getElem?_eq_getElem (hl ▸ hlt)
  refine ⟨_, hr, ha (col, _) (List.mem_of_getElem? (i := ix) ?_)⟩
  rw [List.getElem?_zip_eq_some]
  exact ⟨hc, hr⟩

end Schema

end MiniDb.Sql
