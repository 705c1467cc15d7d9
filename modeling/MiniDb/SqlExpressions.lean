import MiniDb.Foundation.Digits
import MiniDb.Schema

/-!
WHERE expressions. The binder resolves names, checks types and converts a literal
that is compared with a column to the column's type. The evaluator reads columns
and variants unchecked: what the source's `at` and `get` throw is an error here.
-/
namespace MiniDb.Sql
open Outcome

structure SourceLocation where
  offset : Nat := 0
  line : Nat := 1
  column : Nat := 1
  deriving DecidableEq

structure SourceSpan where
  begin : SourceLocation := {}
  stop : SourceLocation := {}
  deriving DecidableEq

/-- A magnitude is a string of digits, most significant first. -/
structure IntegerLiteral where
  negative : Bool
  magnitude : List (Fin 10)
  deriving DecidableEq

inductive LiteralValue
  | null
  | boolean (value : Bool)
  | integer (value : IntegerLiteral)
  | string (value : List UInt8)
  deriving DecidableEq

structure SqlLiteral where
  span : SourceSpan
  value : LiteralValue
  deriving DecidableEq

inductive BinaryOperator
  | equal
  | notEqual
  | less
  | lessEqual
  | greater
  | greaterEqual
  | and
  | or
  deriving DecidableEq

/-- The one unary operator is NOT. -/
inductive Expression
  | identifier (span : SourceSpan) (name : List UInt8)
  | literal (span : SourceSpan) (literal : SqlLiteral)
  | unary (span : SourceSpan) (operand : Expression)
  | binary (span : SourceSpan) (op : BinaryOperator) (left right : Expression)

inductive SqlExecutionErrorKind
  | semantic
  | constraint
  | execution
  deriving DecidableEq

/-- `SqlExecutionError`, `std::bad_variant_access`, and the exceptions of the layers below. -/
inductive SqlFailure
  | sql (kind : SqlExecutionErrorKind) (message : String) (span : SourceSpan)
  | badVariantAccess
  | database (error : DbError)
  deriving DecidableEq

abbrev SqlResult := Except SqlFailure

def fromDatabase {α : Type} (x : Result α) : SqlResult α := x.mapError .database

def text (bytes : List UInt8) : String :=
  String.ofList (bytes.map fun byte => Char.ofNat byte.toNat)

inductive TruthValue
  | false
  | true
  | unknown
  deriving DecidableEq

def truthNot : TruthValue → TruthValue
  | .false => .true
  | .true => .false
  | .unknown => .unknown

def truthAnd (left right : TruthValue) : TruthValue :=
  if left = .false ∨ right = .false then .false
  else if left = .true ∧ right = .true then .true
  else .unknown

def truthOr (left right : TruthValue) : TruthValue :=
  if left = .true ∨ right = .true then .true
  else if left = .false ∧ right = .false then .false
  else .unknown

/-! Literals. -/

def DataType.typeName : DataType → String
  | .uint32 => "UINT32"
  | .int64 => "INT64"
  | .boolean => "BOOLEAN"
  | .varchar => "VARCHAR"

/-- One round of the loop of `accumulateMagnitude`. -/
def accumulateDigit (maximum : Nat) (literal : SqlLiteral) (typeName : String) (value : Nat)
    (digit : Fin 10) : SqlResult Nat := do
  require (value ≤ (maximum - digit) / 10)
    (.sql .constraint ("integer literal is out of range for " ++ typeName) literal.span)
  return value * 10 + digit

def accumulateMagnitude (digits : List (Fin 10)) (maximum : Nat) (literal : SqlLiteral)
    (typeName : String) : SqlResult Nat :=
  digits.foldlM (accumulateDigit maximum literal typeName) 0

def convertInteger (integer : IntegerLiteral) (literal : SqlLiteral) (column : ColumnDefinition) :
    SqlResult Value :=
  match column.type with
  | .uint32 => do
    require (integer.negative = false)
      (.sql .constraint "negative integer literal is out of range for UINT32" literal.span)
    let magnitude ← accumulateMagnitude integer.magnitude (2 ^ 32 - 1) literal "UINT32"
    return .uint32 (UInt32.ofNat magnitude)
  | .int64 => do
    let magnitude ← accumulateMagnitude integer.magnitude
      (if integer.negative then 2 ^ 63 else 2 ^ 63 - 1) literal "INT64"
    if integer.negative = false then return .int64 (Int64.ofNat magnitude)
    else if magnitude = 2 ^ 63 then return .int64 Int64.minValue
    else return .int64 (-Int64.ofNat magnitude)
  | type =>
    .error (.sql .semantic ("integer literal is incompatible with " ++ type.typeName ++
      " column '" ++ text column.name ++ "'") literal.span)

def convertLiteral (literal : SqlLiteral) (column : ColumnDefinition) : SqlResult Value :=
  match literal.value with
  | .null => do
    require column.nullable
      (.sql .constraint ("column '" ++ text column.name ++ "' cannot be NULL") literal.span)
    return .null
  | .boolean value => do
    require (column.type = .boolean)
      (.sql .semantic ("BOOLEAN literal is incompatible with " ++ column.type.typeName ++
        " column '" ++ text column.name ++ "'") literal.span)
    return .boolean value
  | .string value => do
    require (column.type = .varchar)
      (.sql .semantic ("string literal is incompatible with " ++ column.type.typeName ++
        " column '" ++ text column.name ++ "'") literal.span)
    require (value.length ≤ column.varcharMaxBytes)
      (.sql .constraint ("value for column '" ++ text column.name ++ "' exceeds VARCHAR(" ++
        toString column.varcharMaxBytes ++ ")") literal.span)
    return .varchar value
  | .integer integer => convertInteger integer literal column

/-! Binding. -/

inductive BoundType
  | null
  | uint32
  | int64
  | boolean
  | varchar
  | integer
  deriving DecidableEq

inductive BoundScalar
  | null
  | uint32 (value : UInt32)
  | int64 (value : Int64)
  | boolean (value : Bool)
  | varchar (value : List UInt8)
  | integer (value : IntegerLiteral)
  deriving DecidableEq

inductive BoundExpression
  | column (span : SourceSpan) (type : BoundType) (index : Nat)
  | literal (span : SourceSpan) (type : BoundType) (value : BoundScalar)
  | unary (span : SourceSpan) (type : BoundType) (operand : BoundExpression)
  | binary (span : SourceSpan) (type : BoundType) (op : BinaryOperator)
      (left right : BoundExpression)

def BoundExpression.span : BoundExpression → SourceSpan
  | .column span .. | .literal span .. | .unary span .. | .binary span .. => span

def BoundExpression.type : BoundExpression → BoundType
  | .column _ type _ | .literal _ type _ | .unary _ type _ | .binary _ type .. => type

def boundType : DataType → BoundType
  | .uint32 => .uint32
  | .int64 => .int64
  | .boolean => .boolean
  | .varchar => .varchar

def BinaryOperator.isOrdering (op : BinaryOperator) : Bool :=
  op = .less || op = .lessEqual || op = .greater || op = .greaterEqual

def resolveColumn (schema : Schema) (name : List UInt8) (span : SourceSpan) : SqlResult Nat :=
  match schema.findColumn name with
  | .ok (some index) => .ok index
  | .ok none => .error (.sql .semantic ("column '" ++ text name ++ "' does not exist") span)
  | .error (.invalidArgument message) => .error (.sql .semantic message span)
  | .error error => .error (.database error)

def literalType : LiteralValue → BoundType
  | .null => .null
  | .boolean _ => .boolean
  | .string _ => .varchar
  | .integer _ => .integer

def literalScalar : LiteralValue → BoundScalar
  | .null => .null
  | .boolean value => .boolean value
  | .string value => .varchar value
  | .integer value => .integer value

def valueScalar : Value → BoundScalar
  | .null => .null
  | .uint32 value => .uint32 value
  | .int64 value => .int64 value
  | .boolean value => .boolean value
  | .varchar value => .varchar value

def convertContextualLiteral (literalExpression : BoundExpression) (literal : SqlLiteral)
    (column : ColumnDefinition) : SqlResult BoundExpression :=
  if literal.value = .null then .ok literalExpression
  else do
    let converted ← convertLiteral literal column
    match literalExpression with
    | .literal span _ _ => return .literal span (boundType column.type) (valueScalar converted)
    | _ => .error .badVariantAccess

/-- The column of a bound identifier, `std::get<BoundColumn>`. -/
def BoundExpression.boundColumn (schema : Schema) : BoundExpression → SqlResult ColumnDefinition
  | .column _ _ index => fromDatabase (schema.column index)
  | _ => .error .badVariantAccess

def convertOperands (left right : BoundExpression) (syntaxLeft syntaxRight : Expression)
    (schema : Schema) : SqlResult (BoundExpression × BoundExpression) :=
  match syntaxLeft, syntaxRight with
  | .identifier .., .literal _ literal => do
    let column ← left.boundColumn schema
    return (left, ← convertContextualLiteral right literal column)
  | .literal _ literal, .identifier .. => do
    let column ← right.boundColumn schema
    return (← convertContextualLiteral left literal column, right)
  | _, _ => .ok (left, right)

def validateComparisonTypes (op : BinaryOperator) (left right : BoundExpression)
    (syntaxLeft syntaxRight : Expression) (schema : Schema) (span : SourceSpan) :
    SqlResult (BoundExpression × BoundExpression) := do
  require (¬ ((left.type = .boolean ∨ right.type = .boolean) ∧ op.isOrdering))
    (.sql .semantic "BOOLEAN supports only equality and inequality comparisons" span)
  if left.type = .null ∨ right.type = .null then return (left, right)
  else do
    let operands ← convertOperands left right syntaxLeft syntaxRight schema
    require (operands.1.type = operands.2.type)
      (.sql .semantic "comparison operands have incompatible types" span)
    return operands

def requireBoolean (expression : BoundExpression) : SqlResult Unit :=
  require (expression.type = .boolean ∨ expression.type = .null)
    (.sql .semantic "WHERE logical operand must be BOOLEAN" expression.span)

def bindExpression (schema : Schema) : Expression → SqlResult BoundExpression
  | .identifier span name => do
    let index ← resolveColumn schema name span
    let column ← fromDatabase (schema.column index)
    return .column span (boundType column.type) index
  | .literal span literal =>
    .ok (.literal span (literalType literal.value) (literalScalar literal.value))
  | .unary span operand => do
    let operand ← bindExpression schema operand
    requireBoolean operand
    return .unary span .boolean operand
  | .binary span op left right => do
    let boundLeft ← bindExpression schema left
    let boundRight ← bindExpression schema right
    if op = .and ∨ op = .or then do
      requireBoolean boundLeft
      requireBoolean boundRight
      return .binary span .boolean op boundLeft boundRight
    else do
      let operands ← validateComparisonTypes op boundLeft boundRight left right schema span
      return .binary span .boolean op operands.1 operands.2

/-! Evaluation. -/

def IntegerLiteral.normalized (literal : IntegerLiteral) : Bool × List (Fin 10) :=
  let magnitude := Digits.normalized literal.magnitude
  (literal.negative && magnitude ≠ [0], magnitude)

def compareMagnitudes (left right : List (Fin 10)) : Int :=
  if left.length ≠ right.length then if left.length < right.length then -1 else 1
  else if left ≠ right then if left < right then -1 else 1
  else 0

def compareIntegerLiterals (left right : IntegerLiteral) : Int :=
  if left.normalized.1 ≠ right.normalized.1 then if left.normalized.1 then -1 else 1
  else if left.normalized.1 then -compareMagnitudes left.normalized.2 right.normalized.2
  else compareMagnitudes left.normalized.2 right.normalized.2

def threeWay {α : Type} [LT α] [DecidableLT α] (left right : α) : Int :=
  if left < right then -1 else if right < left then 1 else 0

def compareScalars : BoundScalar → BoundScalar → SqlResult Int
  | .uint32 left, .uint32 right => .ok (threeWay left right)
  | .int64 left, .int64 right => .ok (threeWay left right)
  | .boolean left, .boolean right => .ok (if left = right then 0 else if left then 1 else -1)
  | .varchar left, .varchar right => .ok (threeWay left right)
  | .integer left, .integer right => .ok (compareIntegerLiterals left right)
  | _, _ => .error .badVariantAccess

/-- The switch on the operator of a comparison. -/
def BinaryOperator.decides (op : BinaryOperator) (comparison : Int) : SqlResult Bool :=
  match op with
  | .equal => .ok (comparison = 0)
  | .notEqual => .ok (comparison ≠ 0)
  | .less => .ok (comparison < 0)
  | .lessEqual => .ok (comparison ≤ 0)
  | .greater => .ok (comparison > 0)
  | .greaterEqual => .ok (comparison ≥ 0)
  | .and | .or => .error (.database (.logicError "Logical operator reached scalar comparison."))

def truthOfBool (value : Bool) : TruthValue := if value then .true else .false

def compareTruth (op : BinaryOperator) (left right : BoundScalar) : SqlResult TruthValue :=
  if left = .null ∨ right = .null then .ok .unknown
  else do
    let comparison ← compareScalars left right
    let result ← op.decides comparison
    return truthOfBool result

def truthOfScalar : BoundScalar → SqlResult TruthValue
  | .null => .ok .unknown
  | .boolean value => .ok (truthOfBool value)
  | _ => .error .badVariantAccess

/-- `evaluateScalar` with the truth of the expression, which it reads of operators only. -/
def scalarFrom (truth : SqlResult TruthValue) (row : RowValues) :
    BoundExpression → SqlResult BoundScalar
  | .column _ _ index =>
    match row[index]? with
    | none => .error (.database (.outOfRange "vector::_M_range_check"))
    | some value => .ok (valueScalar value)
  | .literal _ _ value => .ok value
  | .unary .. | .binary .. => do
    match ← truth with
    | .unknown => return .null
    | .true => return .boolean Bool.true
    | .false => return .boolean Bool.false

def evaluateTruth (row : RowValues) : BoundExpression → SqlResult TruthValue
  | .unary _ _ operand => do return truthNot (← evaluateTruth row operand)
  | .binary _ _ .and left right => do
    let truth ← evaluateTruth row left
    if truth = .false then return .false
    else return truthAnd truth (← evaluateTruth row right)
  | .binary _ _ .or left right => do
    let truth ← evaluateTruth row left
    if truth = .true then return .true
    else return truthOr truth (← evaluateTruth row right)
  | .binary _ _ op left right => do
    let leftScalar ← scalarFrom (evaluateTruth row left) row left
    let rightScalar ← scalarFrom (evaluateTruth row right) row right
    compareTruth op leftScalar rightScalar
  | .column span type index => do
    truthOfScalar (← scalarFrom (.ok .unknown) row (.column span type index))
  | .literal _ _ value => truthOfScalar value

def evaluateScalar (row : RowValues) (expression : BoundExpression) : SqlResult BoundScalar :=
  scalarFrom (evaluateTruth row expression) row expression

end MiniDb.Sql
