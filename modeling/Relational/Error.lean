import Relational.Expr.Op
import Relational.Integer
import Relational.Plan.Kind
import Relational.Value

/-!
# Errors

An error is its cause. Wording is kept apart, in `Error.message`.
-/
namespace Relational

inductive ShapeFault
  | literalType (value : Value) (type : SqlType)
  | columnIndex (index width : Nat)
  | reference (index width : Nat)
  | referenceType (index : Nat) (declared actual : DataType) (field : String)
  | tableReference
  | operandCount (op : Op) (expected got : Nat)
  | incomparable (left right : DataType)
  | arithmeticOperands (left right : DataType)
  | tooFewOperands (op : Op)
  | noCandidates
  | candidate (candidate probe : DataType)
  | caseOperands (count : Nat)
  | noAlternatives
  | booleanOperand (type : DataType) (expr : String)
  | noCommonType (left right : DataType)
  | argumentCount (function : String) (got : Nat)
  | numericArgument (function : String) (type : DataType)
  | booleanArgument (function : String) (type : DataType)
  | aggregateArgument (index width : Nat)
  | inputCount (kind : Plan.Kind) (expected got : Nat)
  | duplicateNode (id : Nat)
  | unreadable
  | rejected (fault : ShapeFault)
  | projectNames (exprs names : Nat)
  | sortKey (index width : Nat)
  | distributionKey (index width : Nat)
  | rowWidth (row got expected : Nat)
  | rowValue (row : Nat) (value : Value) (field : String) (type : DataType)
  | notBoolean (what : String) (type : DataType)
  | noGroupingSet
  | groupingColumn (index width : Nat)
  | callArgument (function : String) (index width : Nat)
  | filterArgument (index width : Nat)
  | filterArgumentType (index : Nat) (type : DataType)
  | noInput (kind : Plan.Kind)
  | inputWidth (kind : Plan.Kind) (input got expected : Nat)
  | inputType (kind : Plan.Kind) (input column : Nat) (got expected : DataType)
  | compiledColumn (index width : Nat)
  | compiledTableReference
  | compiledOperands (op : Op) (got : Nat)
  | aggregateWidth (got expected : Nat)
  | callColumn (call : String) (index width : Nat)
  | nonNumeric (function : String) (type : DataType)
  | nonBoolean (function : String) (type : DataType)
  | compiledArgument (index : Nat)

namespace ShapeFault

private def outOf (what : String) (index width : Nat) : String :=
  s!"{what}{index} out of range for row of {width} fields"

def message : ShapeFault → String
  | literalType v t => s!"literal {v.describe} does not have type {t.text}"
  | columnIndex i w => outOf "column index " i w
  | reference i w => outOf "input reference $" i w
  | referenceType i declared actual field =>
    s!"input reference ${i} typed {declared.name} but input field '{field}' is {actual.name}"
  | tableReference => "table input references cannot appear inside a plan"
  | operandCount op expected got => s!"{op.symbol} expects {expected} operand(s), got {got}"
  | incomparable l r => s!"cannot compare types {l.name} and {r.name}"
  | arithmeticOperands l r => s!"arithmetic requires numeric operands, got {l.name} and {r.name}"
  | tooFewOperands op => s!"{op.symbol} expects at least 2 operands"
  | noCandidates => "IN expects a value and at least one candidate"
  | candidate c p => s!"IN candidate of type {c.name} is not comparable with {p.name}"
  | caseOperands n =>
    s!"CASE expects when/then pairs followed by an else branch, got {n} operands"
  | noAlternatives => "COALESCE expects at least one operand"
  | booleanOperand t e => s!"expected boolean operand, got {t.name} in {e}"
  | noCommonType l r => s!"type mismatch: cannot unify {l.name} and {r.name}"
  | argumentCount f got => s!"{f} expects exactly one argument, got {got}"
  | numericArgument f t => s!"{f} requires a numeric argument, got {t.name}"
  | booleanArgument f t => s!"{f} requires a boolean argument, got {t.name}"
  | aggregateArgument i w => outOf "aggregate argument $" i w
  | inputCount k expected got => s!"{k.name} expects {expected} input(s), got {got}"
  | duplicateNode id => s!"node id #{id} appears more than once in the plan"
  | unreadable => "plan json: not the document of a plan"
  | rejected fault => s!"plan json: invalid plan shape: {fault.message}"
  | projectNames e n => s!"project has {e} expressions but {n} names"
  | sortKey i w => outOf "sort key $" i w
  | distributionKey i w => outOf "distribution key $" i w
  | rowWidth r got expected => s!"values row {r} has {got} fields, expected {expected}"
  | rowValue r v field t =>
    s!"values row {r}: {v.describe} does not fit column '{field}' of type {t.name}"
  | notBoolean what t => s!"{what} must be boolean, got {t.name}"
  | noGroupingSet => "aggregate needs at least one grouping set"
  | groupingColumn i w => outOf "grouping column $" i w
  | callArgument f i w => outOf s!"{f} argument $" i w
  | filterArgument i w => outOf "filter argument $" i w
  | filterArgumentType i t => s!"filter argument ${i} must be boolean, got {t.name}"
  | noInput k => s!"{k.name} needs at least one input"
  | inputWidth k i got expected => s!"{k.name} input {i} has {got} fields, expected {expected}"
  | inputType k i c got expected =>
    s!"{k.name} input {i} column {c} is {got.name}, expected {expected.name}"
  | compiledColumn i w => outOf "column $" i w
  | compiledTableReference => "table input references cannot be evaluated"
  | compiledOperands op got => s!"{op.symbol} called with {got} operand(s)"
  | aggregateWidth got expected => s!"aggregate row shape has {got} fields, expected {expected}"
  | callColumn c i w => s!"aggregate {c} references ${i} of a {w}-column input"
  | nonNumeric f t => s!"{f} over non-numeric type {t.name}"
  | nonBoolean f t => s!"{f} over non-boolean type {t.name}"
  | compiledArgument i => s!"aggregate argument ${i} out of range"

end ShapeFault

inductive PlanningFault
  | castTarget
  | resultType (function : String)
  | unknownTableId (id : Nat)
  | unknownTable (name : String)
  | unknownAggregate (name : String)
  | userArguments (name : String) (got : Nat)
  | raised (text : String)

def PlanningFault.message : PlanningFault → String
  | castTarget => "CAST needs a target type; build it with ScalarExpr::cast"
  | resultType f => s!"user-defined aggregate '{f}' needs an explicit result type"
  | unknownTableId id => s!"unknown table id: {id}"
  | unknownTable name => s!"unknown table: {name}"
  | unknownAggregate name => s!"unknown aggregate function '{name}'"
  | userArguments name got =>
    s!"user-defined aggregate '{name}' takes exactly one argument, got {got}"
  | raised text => text

inductive ConfigFault
  | unreadable
  | noCapacity
  | scanRows (value : Binary64)
  | noSplits
  | noColumns (table : String)
  | repeatedColumn (table column : String)
  | unknownColumn (table column : String)
  | sharedColumnId (id : Nat) (table other : String)
  | rowWidth (row : Nat) (table : String) (got expected : Nat)
  | rowValue (row : Nat) (table value : String) (type : DataType) (column : String)
  | rowNull (row : Nat) (table column : String)

def ConfigFault.message : ConfigFault → String
  | unreadable => "not a readable document"
  | noCapacity => "channel_capacity must be at least 1"
  | scanRows x => s!"default_scan_row_count must be a finite non-negative number, got {x.text}"
  | noSplits => "default_split_count must be at least 1"
  | noColumns t => s!"table {t} has no columns"
  | repeatedColumn t c => s!"table {t} declares column '{c}' twice"
  | unknownColumn t c => s!"table {t} has no column '{c}'"
  | sharedColumnId id t other => s!"column id {id} of {t} is already used by {other}"
  | rowWidth r t got expected => s!"row {r} of {t} has {got} values, expected {expected}"
  | rowValue r t v type c => s!"row {r} of {t}: {v} is not a valid {type.name} for column '{c}'"
  | rowNull r t c => s!"row {r} of {t}: null in non-nullable column '{c}'"

inductive ExecutionFault
  | cast (value : Value) (target : DataType)
  | missingColumn (index width : Nat)
  | notBoolean (what : String) (value : Value)
  | incomparable (left right : Value)
  | divisionByZero
  | notNumeric (op : Arithmetic) (left right : Value)
  | notIntegral (op : Arithmetic)
  | overflow (op : Arithmetic) (left right : Int)
  | filterValue (index : Nat) (value : Value)
  | filterMissing (index width : Nat)
  | argumentMissing (index width : Nat)
  | groupingMissing (index width : Nat)
  | aggregateRow (expected got : Nat)
  | tableRow (table : String) (got expected : Nat)
  | receiverGone
  | nullInBatch (column : String)
  | emptyBatch
  | raised (text : String)

def ExecutionFault.message : ExecutionFault → String
  | cast v t => s!"cannot cast {v.describe} to {t.name}"
  | missingColumn i w => s!"row of {w} values has no column ${i}"
  | notBoolean what v => s!"{what} expects boolean, got {v.describe}"
  | incomparable l r => s!"cannot compare {l.describe} with {r.describe}"
  | divisionByZero => "division by zero"
  | notNumeric op l r => s!"{op.symbol} needs numeric operands, got {l.describe} and {r.describe}"
  | notIntegral op => s!"{op.name} is not integral arithmetic"
  | overflow op l r => s!"integer overflow in {l} {op.symbol} {r}"
  | filterValue i v => s!"aggregate filter column ${i} holds non-boolean {v.describe}"
  | filterMissing i w => s!"aggregate filter column ${i} missing from row of {w} values"
  | argumentMissing i w => s!"aggregate argument ${i} missing from row of {w} values"
  | groupingMissing i w => s!"grouping column ${i} missing from row of {w} values"
  | aggregateRow expected got => s!"aggregate expected rows of {expected} values, got {got}"
  | tableRow t got expected =>
    s!"table {t} produced a row of {got} values, expected {expected}"
  | receiverGone => "row channel closed: send failed because receiver is gone"
  | nullInBatch c => "record batch: Invalid argument error: "
    ++ s!"Column '{c}' is declared as non-nullable but contains null values"
  | emptyBatch => "record batch: Invalid argument error: "
    ++ "must either specify a row count or at least one column"
  | raised text => text

inductive AccumulatorFault
  | unexpected (function : String) (value : Value)
  | sumOverflow (value : Value)
  | incomparable (value best : Value)
  | differentAggregates
  | raised (text : String)

def AccumulatorFault.message : AccumulatorFault → String
  | unexpected f v => s!"{f} received unexpected value {v.describe}"
  | sumOverflow v => s!"SUM overflow adding {v.text}"
  | incomparable v best => s!"cannot compare {v.describe} with {best.describe}"
  | differentAggregates => "cannot merge accumulators of different aggregates"
  | raised text => text

inductive UnsupportedFault
  | cast (target : DataType)
  | arithmetic (type : DataType)
  | correlation (id : Nat)
  | noProgram (function : String)
  | notExecutable (kind : Plan.Kind) (id : Nat)
  | batchColumn (type : DataType)
  | raised (text : String)

def UnsupportedFault.message : UnsupportedFault → String
  | cast t => s!"cast to {t.name} is not supported"
  | arithmetic t => s!"arithmetic producing {t.name}"
  | correlation id =>
    s!"correlation variable $cor{id} cannot be evaluated outside a correlated subquery"
  | noProgram f => s!"{f} has no compiled accumulator"
  | notExecutable k id => s!"{k.name} #{id} cannot be executed by the pipeline interpreter"
  | batchColumn t => s!"record batch column of type {t.name}"
  | raised text => text

inductive MetadataFault
  | foreignNode (id : Nat) (kind : Plan.Kind) (root : Nat)
  | raised (text : String)

def MetadataFault.message : MetadataFault → String
  | foreignNode id k root =>
    s!"node #{id} ({k.name}) does not belong to the plan rooted at #{root}"
  | raised text => text

inductive Error
  | invalidConfig (fault : ConfigFault)
  | invalidShape (fault : ShapeFault)
  | planning (fault : PlanningFault)
  | metadata (fault : MetadataFault)
  | execution (fault : ExecutionFault)
  | accumulator (fault : AccumulatorFault)
  | userStep (function step : String) (cause : Error)
  | unsupported (fault : UnsupportedFault)
  | cancelled
  | missingFile
  /-- A number left the range of a machine word. This ends the program, and nothing handles it. -/
  | overflow

namespace Error

def message : Error → String
  | invalidConfig f => s!"invalid configuration: {f.message}"
  | invalidShape f => s!"invalid plan shape: {f.message}"
  | planning f => s!"planning error: {f.message}"
  | metadata f => s!"metadata error: {f.message}"
  | execution f => s!"execution error: {f.message}"
  | accumulator f => s!"accumulator error: {f.message}"
  | userStep function step cause => s!"accumulator error: {function}.{step}: {cause.message}"
  | unsupported f => s!"unsupported: {f.message}"
  | cancelled => "execution cancelled"
  | missingFile => "io error: No such file or directory (os error 2)"
  | overflow => "arithmetic overflow"

end Error

def wordSized (n : Nat) : Except Error Nat :=
  if n < Integer.wordCount then .ok n else .error .overflow

theorem wordSized_of_lt {n : Nat} (h : n < Integer.wordCount) : wordSized n = .ok n := if_pos h

theorem wordSized_of_le {n : Nat} (h : Integer.wordCount ≤ n) : wordSized n = .error .overflow :=
  if_neg (Nat.not_lt.2 h)

def require (condition : Bool) (fault : ShapeFault) : Except Error Unit :=
  if condition then .ok () else .error (.invalidShape fault)

theorem require_eq_ok {condition : Bool} {fault : ShapeFault} {u : Unit} :
    require condition fault = .ok u ↔ condition = true := by
  cases condition <;> simp [require]

end Relational
