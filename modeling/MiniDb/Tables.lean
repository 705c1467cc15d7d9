import MiniDb.Foundation.SortedMap
import MiniDb.SqlExpressions
import MiniDb.WalCodec

/-!
Tables as the executor reads them. The heap is the list of its tuples in the order
of a scan, each under its own record id, and the primary index a map from keys to
record ids. Every row that leaves the table was decoded against the schema, and the
decoder checks the values last.
-/
namespace MiniDb.Sql
open Outcome

/-! Logical tuples. -/

def maxTupleSize : Nat := 4040

def tupleHeaderSize : Nat := 24

def tupleMagic : List UInt8 := [77, 68, 66, 84, 85, 80, 76, 69]

def nullBitmapSize (columnCount : Nat) : Nat := (columnCount + 7) / 8

def requireRange (bytes : List UInt8) (offset width : Nat) : Result Unit :=
  require (offset ≤ bytes.length ∧ width ≤ bytes.length - offset)
    (.runtimeError "Persistent byte sequence is truncated.")

def isNull (bytes : List UInt8) (index : Nat) : Bool :=
  (bytes.getD (tupleHeaderSize + index / 8) 0).toNat.testBit (index % 8)

/-- The switch of the decoder: a value and the offset behind it. -/
def decodeValue (bytes : List UInt8) (column : ColumnDefinition) (cursor : Nat) :
    Result (Nat × Value) :=
  match column.type with
  | .uint32 => do
    requireRange bytes cursor 4
    return (cursor + 4, .uint32 (UInt32.ofNat (Wal.readUint32 bytes cursor)))
  | .int64 => do
    requireRange bytes cursor 8
    return (cursor + 8, .int64 (UInt64.ofNat (Wal.readUint64 bytes cursor)).toInt64)
  | .boolean => do
    requireRange bytes cursor 1
    require (bytes.getD cursor 0 ≤ 1) (.runtimeError "Encoded BOOLEAN is neither zero nor one.")
    return (cursor + 1, .boolean (bytes.getD cursor 0 = 1))
  | .varchar => do
    requireRange bytes cursor 4
    let length := Wal.readUint32 bytes cursor
    require (length ≤ column.varcharMaxBytes)
      (.runtimeError "Encoded VARCHAR exceeds its schema byte limit.")
    requireRange bytes (cursor + 4) length
    return (cursor + 4 + length, .varchar ((bytes.drop (cursor + 4)).take length))

def decodeColumn (bytes : List UInt8) (state : Nat × RowValues) (entry : ColumnDefinition × Nat) :
    Result (Nat × RowValues) :=
  if isNull bytes entry.2 then do
    require entry.1.nullable
      (.runtimeError "Encoded tuple contains NULL in a non-nullable column.")
    return (state.1, state.2 ++ [.null])
  else do
    let (cursor, value) ← decodeValue bytes entry.1 state.1
    return (cursor, state.2 ++ [value])

/-- `TupleCodec::decode`. -/
def decodeTuple (schema : Schema) (bytes : List UInt8) : Result RowValues := do
  require (tupleHeaderSize ≤ bytes.length ∧ bytes.length ≤ maxTupleSize ∧ bytes.take 8 = tupleMagic)
    (.runtimeError "Invalid logical tuple magic or size.")
  require (Wal.readUint32 bytes 8 = 1)
    (.runtimeError "Unsupported logical tuple encoding version.")
  let columnCount := schema.columns.length
  let bitmapSize := Wal.readUint16 bytes 18
  require (Wal.readUint32 bytes 12 = tupleHeaderSize ∧ Wal.readUint16 bytes 16 = columnCount ∧
      bitmapSize = nullBitmapSize columnCount ∧ Wal.readUint32 bytes 20 = bytes.length)
    (.runtimeError "Logical tuple header does not match its schema or byte size.")
  requireRange bytes tupleHeaderSize bitmapSize
  let unusedBits := bitmapSize * 8 - columnCount
  require (unusedBits = 0 ∨
      (bytes.getD (tupleHeaderSize + bitmapSize - 1) 0).toNat < 2 ^ (8 - unusedBits))
    (.runtimeError "Logical tuple null bitmap has nonzero unused bits.")
  let (cursor, values) ← schema.columns.zipIdx.foldlM (decodeColumn bytes)
    (tupleHeaderSize + bitmapSize, [])
  require (cursor = bytes.length)
    (.runtimeError "Logical tuple contains trailing unexplained bytes.")
  match schema.validateValues values with
  | .ok () => return values
  | .error (.invalidArgument message) =>
    .error (.runtimeError ("Decoded tuple is invalid: " ++ message))
  | .error error => .error error

theorem decodeTuple_valid {sch : Schema} {bs : List UInt8} {values : RowValues}
    (h : decodeTuple sch bs = .ok values) : sch.validateValues values = .ok () := by
  simp only [decodeTuple, bind_ok] at h
  obtain ⟨_, _, _, _, _, _, _, _, _, _, ⟨_, fd⟩, _, _, _, h⟩ := h
  split at h
  · rename_i hv
    rw [pure_ok] at h
    exact h ▸ hv
  · cases h
  · cases h

/-! Tables. -/

structure RecordId where
  pageId : Nat
  slotId : Nat
  deriving DecidableEq

structure TableRow where
  recordId : RecordId
  values : RowValues
  deriving DecidableEq

/-- A heap by its scan: a page is visited once, and a slot of it once. -/
structure TupleStore where
  tuples : List (RecordId × List UInt8)
  distinct : (tuples.map Prod.fst).Nodup

/-- A record id that names no tuple; its page tells the source which of its checks fails. -/
def TupleStore.get (heap : TupleStore) (recordId : RecordId) : Result (List UInt8) :=
  match heap.tuples.find? (·.1 = recordId) with
  | none => .error (.runtimeError "Slotted-page slot is not occupied.")
  | some tuple => .ok tuple.2

structure Table where
  schema : Schema
  heap : TupleStore
  primaryIndex : Option (SortedMap RecordId)

namespace Table

def primaryKeyOf (table : Table) (values : RowValues) : SqlResult UInt32 :=
  match table.schema.primaryKeyColumn with
  | none => .error (.database (.logicError "Table has no primary key."))
  | some index =>
    match values[index]? with
    | some (.uint32 key) => .ok key
    | _ => .error .badVariantAccess

def requirePrimaryIndex (table : Table) : SqlResult (SortedMap RecordId) :=
  match table.primaryIndex with
  | none => .error (.database (.logicError "Operation requires a primary-key index."))
  | some index => .ok index

def get (table : Table) (recordId : RecordId) : SqlResult RowValues :=
  fromDatabase do decodeTuple table.schema (← table.heap.get recordId)

def findByPrimaryKey (table : Table) (key : UInt32) : SqlResult (Option TableRow) := do
  let index ← table.requirePrimaryIndex
  match index.find? key.toNat with
  | none => return none
  | some recordId => do
    let values ← table.get recordId
    let found ← table.primaryKeyOf values
    require (found = key)
      (.database (.runtimeError "Primary index key disagrees with its tuple."))
    return some ⟨recordId, values⟩

/-- One round of the loop of `scan`. -/
def rowOf (table : Table) (tuple : RecordId × List UInt8) : SqlResult TableRow := do
  let values ← fromDatabase (decodeTuple table.schema tuple.2)
  return ⟨tuple.1, values⟩

def scan (table : Table) : SqlResult (List TableRow) := table.heap.tuples.mapM table.rowOf

end Table

end MiniDb.Sql
