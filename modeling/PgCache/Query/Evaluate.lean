/- source: query/evaluate.rs
   digest: Local evaluation of a WHERE clause on the text image of one row. -/
import PgCache.Query.Cast

set_option autoImplicit false

namespace PgCache.Query.Evaluate

open Catalog Literal Resolved.Ast Cast

/-- What the evaluator takes from the standard library's doubles. -/
structure Doubles where
  /-- `str::parse::<f64>`; `none` when the text is no number or is a NaN. -/
  parse : String → Option F64
  /-- `(a - b).abs()`; `none` when the difference is a NaN. -/
  gap : F64 → F64 → Option F64

def epsilon : F64 := .fin (1 / 2 ^ 52)

def orderingSatisfiesOp (ordering : Ordering) (op : BinaryOp) : Bool :=
  op.holds ordering

def literalAsBool : LiteralValue → Option Bool
  | .boolean b => some b
  | .string s => boolLiteralParse s
  | .integer i => if i = 1 then some true else if i = 0 then some false else none
  | _ => none

def literalOrdering : LiteralValue → LiteralValue → Option Ordering
  | .integer a, .integer b => some (compare a.toInt b.toInt)
  | .integer a, .string s => (parseI64 s).map fun b => compare a.toInt b.toInt
  | .string s, .integer b => (parseI64 s).map fun a => compare a.toInt b.toInt
  | .string a, .string b => some (compare a b)
  | .string a, .stringWithCast b _ => some (compare a b)
  | .stringWithCast a _, .string b => some (compare a b)
  | _, _ => none

/-- `literal_compare`: two literals that both read as booleans are compared as booleans. -/
def literalCompare (left : LiteralValue) (op : BinaryOp) (right : LiteralValue) : Bool :=
  match literalAsBool left, literalAsBool right with
  | some a, some b =>
    match op with
    | .equal => a == b
    | .notEqual => a != b
    | _ => false
  | _, _ => (literalOrdering left right).any fun ordering => orderingSatisfiesOp ordering op

def boolWireTextParse (text : String) : Option Bool :=
  if text = "t" ∨ text = "true" then some true
  else if text = "f" ∨ text = "false" then some false
  else none

section Doubles

variable (doubles : Doubles)

def floatTextCompare (rowValue : String) (filter : F64) (op : BinaryOp) : Bool :=
  (doubles.parse rowValue).any fun rowFloat =>
    match op with
    | .equal => (doubles.gap rowFloat filter).any fun gap => gap.cmp epsilon = .lt
    | .notEqual => (doubles.gap rowFloat filter).any fun gap => gap.cmp epsilon ≠ .lt
    | _ => op.holds (rowFloat.cmp filter)

def boolTextCompare (rowValue : String) (filter : Bool) (op : BinaryOp) : Bool :=
  match boolWireTextParse rowValue, op with
  | some rowBool, .equal => rowBool == filter
  | some rowBool, .notEqual => rowBool != filter
  | _, _ => false

def whereValueCompareString (filterValue : LiteralValue) (rowValue : String) (op : BinaryOp) :
    Bool :=
  match filterValue with
  | .string filter | .stringWithCast filter _ => orderingSatisfiesOp (compare rowValue filter) op
  | .integer filter =>
    (parseI64 rowValue).any fun rowInt =>
      orderingSatisfiesOp (compare rowInt.toInt filter.toInt) op
  | .float filter => floatTextCompare doubles rowValue filter op
  | .boolean filter => boolTextCompare rowValue filter op
  | .null | .nullWithCast _ | .parameter _ | .array _ _ => false

inductive ColumnRowValue where
  | present (text : String)
  | null
  | notInTable
  deriving DecidableEq

def columnRowValueGet (column : ResolvedColumnNode) (row : RowData) (tableName : String) :
    ColumnRowValue :=
  if column.table ≠ tableName then .notInTable
  else
    match row[column.columnMetadata.index]? with
    | some (some text) => .present text
    | some none => .null
    | none => .notInTable

/-- `column_value_get`: NULL and a column of another table are both `none`. -/
def columnValueGet (column : ResolvedColumnNode) (row : RowData) (tableName : String) :
    Option String :=
  if column.table ≠ tableName then none else (row[column.columnMetadata.index]?).join

def exprComparisonEvaluate (op : BinaryOp) (lexpr rexpr : ResolvedWhereExpr) (row : RowData)
    (tableName : String) : Bool :=
  match canonicalizeComparison op lexpr rexpr with
  | none => false
  | some ⟨column, target, op, value⟩ =>
    match target, columnRowValueGet column row tableName with
    | none, .present text => whereValueCompareString doubles value text op
    | some target, .present text =>
      (castTargetCoerceText target text).any fun coerced => literalCompare coerced op value
    | target, .null => target.isNone && op = .equal && value = .null
    | _, .notInTable => false

/-- The value `unary_expr_evaluate` tests: that of a bare column, and `none` for every other
operand. -/
def unaryOperandValue (expr : ResolvedWhereExpr) (row : RowData) (tableName : String) :
    Option String :=
  match expr with
  | .scalar (.column column) => columnValueGet column row tableName
  | _ => none

def whereExprEvaluate (row : RowData) (tableName : String) : ResolvedWhereExpr → Bool
  | .binary op lexpr rexpr =>
    match op with
    | .and => whereExprEvaluate row tableName lexpr && whereExprEvaluate row tableName rexpr
    | .or => whereExprEvaluate row tableName lexpr || whereExprEvaluate row tableName rexpr
    | .equal | .notEqual | .lessThan | .lessThanOrEqual | .greaterThan
    | .greaterThanOrEqual => exprComparisonEvaluate doubles op lexpr rexpr row tableName
    | .like | .iLike | .notLike | .notILike => false
  | .unary op expr =>
    let value := unaryOperandValue expr row tableName
    match op with
    | .not => !whereExprEvaluate row tableName expr
    | .isNull => value.isNone
    | .isNotNull => value.isSome
    | .isTrue => value = some "t" ∨ value = some "true"
    | .isNotTrue => ¬(value = some "t" ∨ value = some "true")
    | .isFalse => value = some "f" ∨ value = some "false"
    | .isNotFalse => ¬(value = some "f" ∨ value = some "false")
  | .scalar _ | .multi _ _ | .subquery .. => false

end Doubles

def literalIsCanonicalDate : LiteralValue → Bool
  | .string s | .stringWithCast s _ => isCanonicalDateLiteral s
  | _ => false

def isSimpleComparison (op : BinaryOp) (lexpr rexpr : ResolvedWhereExpr) : Bool :=
  match canonicalizeComparison op lexpr rexpr with
  | none => false
  | some ⟨_, none, _, _⟩ => true
  | some ⟨column, some target, _, value⟩ =>
    castTargetIsCoercionSupported target column.columnMetadata.dataType &&
      (target ≠ .date || literalIsCanonicalDate value)

def resolvedWhereExprSupported : ResolvedWhereExpr → Bool
  | .scalar (.column _) | .scalar (.literal _) => true
  | .scalar _ => false
  | .binary op lexpr rexpr =>
    match op with
    | .and | .or => resolvedWhereExprSupported lexpr && resolvedWhereExprSupported rexpr
    | .equal | .notEqual | .lessThan | .lessThanOrEqual | .greaterThan
    | .greaterThanOrEqual => isSimpleComparison op lexpr rexpr
    | .like | .iLike | .notLike | .notILike => false
  | .unary _ expr => resolvedWhereExprSupported expr
  | .multi _ _ | .subquery .. => false

end PgCache.Query.Evaluate
