/- source: query/predicate.rs
   digest: The compiled WHERE clause of a locally evaluated query. -/
import PgCache.Query.Evaluate

set_option autoImplicit false

namespace PgCache.Query.Predicate

open Catalog Literal Resolved.Ast Cast Evaluate

inductive CompiledPredicate where
  | and (left right : CompiledPredicate)
  | or (left right : CompiledPredicate)
  | not (inner : CompiledPredicate)
  | nullCheck (op : UnaryOp) (col : Option Nat)
  | compare (col : Nat) (inTable : Bool) (target : Option CastTarget) (op : BinaryOp)
      (value : LiteralValue)
  | constFalse
  deriving DecidableEq

def columnPositionInTable (expr : ResolvedWhereExpr) (tableName : String) : Option Nat :=
  match expr with
  | .scalar (.column column) =>
    if column.table = tableName then some column.columnMetadata.index else none
  | _ => none

def compile (tableName : String) : ResolvedWhereExpr → CompiledPredicate
  | .binary op lexpr rexpr =>
    match op with
    | .and => .and (compile tableName lexpr) (compile tableName rexpr)
    | .or => .or (compile tableName lexpr) (compile tableName rexpr)
    | .equal | .notEqual | .lessThan | .lessThanOrEqual | .greaterThan
    | .greaterThanOrEqual =>
      match canonicalizeComparison op lexpr rexpr with
      | some ⟨column, target, op, value⟩ =>
        .compare column.columnMetadata.index (column.table = tableName) target op value
      | none => .constFalse
    | .like | .iLike | .notLike | .notILike => .constFalse
  | .unary op expr =>
    match op with
    | .not => .not (compile tableName expr)
    | _ => .nullCheck op (columnPositionInTable expr tableName)
  | .scalar _ | .multi _ _ | .subquery .. => .constFalse

def CompiledPredicate.eval (doubles : Doubles) (row : RowData) : CompiledPredicate → Bool
  | .and left right => left.eval doubles row && right.eval doubles row
  | .or left right => left.eval doubles row || right.eval doubles row
  | .not inner => !inner.eval doubles row
  | .nullCheck op col =>
    let value := col.bind fun pos => (row[pos]?).join
    match op with
    | .isNull => value.isNone
    | .isNotNull => value.isSome
    | .isTrue => value = some "t" ∨ value = some "true"
    | .isNotTrue => ¬(value = some "t" ∨ value = some "true")
    | .isFalse => value = some "f" ∨ value = some "false"
    | .isNotFalse => ¬(value = some "f" ∨ value = some "false")
    | .not => false
  | .compare col inTable target op value =>
    if !inTable then false
    else
      match row[col]? with
      | none => false
      | some none => target.isNone && op = .equal && value = .null
      | some (some text) =>
        match target with
        | none => whereValueCompareString doubles value text op
        | some target =>
          (castTargetCoerceText target text).any fun coerced =>
            literalCompare coerced op value
  | .constFalse => false

section Agreement

variable (doubles : Doubles) (row : RowData) (tableName : String)

private theorem join_columnPositionInTable (e : ResolvedWhereExpr) :
    ((columnPositionInTable e tableName).bind fun pos => (row[pos]?).join) =
      unaryOperandValue e row tableName := by
  unfold columnPositionInTable
  split
  case h_1 column =>
    by_cases hw : column.table = tableName <;> simp [unaryOperandValue, columnValueGet, hw]
  case h_2 => simp [unaryOperandValue]

private theorem eval_compile_comparison (op : BinaryOp) (lexpr rexpr : ResolvedWhereExpr) :
    (match canonicalizeComparison op lexpr rexpr with
      | some ⟨c, tg, op, v⟩ =>
        CompiledPredicate.compare c.columnMetadata.index (c.table = tableName) tg op v
      | none => .constFalse).eval doubles row =
      exprComparisonEvaluate doubles op lexpr rexpr row tableName := by
  unfold exprComparisonEvaluate
  rcases canonicalizeComparison op lexpr rexpr with _ | ⟨c, tg, op, v⟩
  · rfl
  · simp only [CompiledPredicate.eval, columnRowValueGet]
    by_cases hw : c.table = tableName
    · rcases row[c.columnMetadata.index]? with _ | _ | text <;> cases tg <;> simp [hw]
    · cases tg <;> simp [hw]

/-- `CompiledPredicate` decides what `where_expr_evaluate` decides. -/
theorem eval_compile_eq_whereExprEvaluate (expr : ResolvedWhereExpr) :
    (compile tableName expr).eval doubles row = whereExprEvaluate doubles row tableName expr := by
  -- only `and`, `or` and NOT descend; every other node is decided at the node itself
  fun_induction whereExprEvaluate doubles row tableName expr
  case case1 lexpr rexpr left right => simp only [compile, CompiledPredicate.eval, left, right]
  case case2 lexpr rexpr left right => simp only [compile, CompiledPredicate.eval, left, right]
  case case13 expr inner => simp only [compile, CompiledPredicate.eval, inner]
  case case3 | case4 | case5 | case6 | case7 | case8 =>
    exact eval_compile_comparison doubles row tableName _ _ _
  case case14 | case15 | case16 | case17 | case18 | case19 =>
    simp only [compile, CompiledPredicate.eval, join_columnPositionInTable]
    rfl
  all_goals rfl

end Agreement

end PgCache.Query.Predicate
