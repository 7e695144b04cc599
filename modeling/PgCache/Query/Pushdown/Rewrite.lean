/- source: query/transform/pushdown.rs
   digest: Conjuncts of an outer WHERE moved into the derived table they read. -/
import PgCache.Query.Resolved.Traverse

set_option autoImplicit false

namespace PgCache.Query.Pushdown.Rewrite

open Resolved.Ast Resolved.Traverse

mutual

def scalarHasQuery : ResolvedScalarExpr → Bool
  | .column _ | .identifier _ | .literal _ => false
  | .subquery .. => true
  | .function call => callHasQuery call
  | .case arg whens default =>
    optionalHasQuery arg || whensHaveQuery whens || optionalHasQuery default
  | .arithmetic left _ right => scalarHasQuery left || scalarHasQuery right
  | .array elements => scalarsHaveQuery elements
  | .typeCast expr _ => scalarHasQuery expr

def optionalHasQuery : Option ResolvedScalarExpr → Bool
  | none => false
  | some expr => scalarHasQuery expr

def scalarsHaveQuery : List ResolvedScalarExpr → Bool
  | [] => false
  | expr :: exprs => scalarHasQuery expr || scalarsHaveQuery exprs

def callHasQuery : ResolvedFunctionCall → Bool
  | ⟨_, args, _, _, aggOrder, aggFilter, overSpec⟩ =>
    scalarsHaveQuery args || ordersHaveQuery aggOrder || clauseHasQuery aggFilter ||
      overHasQuery overSpec

def overHasQuery : Option ResolvedWindowSpec → Bool
  | none => false
  | some ⟨partitionBy, orderBy, frame⟩ =>
    scalarsHaveQuery partitionBy || ordersHaveQuery orderBy || frameHasQuery frame

def frameHasQuery : Option ResolvedWindowFrame → Bool
  | none => false
  | some ⟨_, start, stop, _⟩ => boundHasQuery start || boundHasQuery stop

def boundHasQuery : ResolvedFrameBound → Bool
  | .offsetPreceding offset | .offsetFollowing offset => scalarHasQuery offset
  | .unboundedPreceding | .currentRow | .unboundedFollowing => false

def ordersHaveQuery : List ResolvedOrderByClause → Bool
  | [] => false
  | ⟨expr, _, _⟩ :: clauses => scalarHasQuery expr || ordersHaveQuery clauses

def whensHaveQuery : List ResolvedCaseWhen → Bool
  | [] => false
  | ⟨condition, result⟩ :: whens =>
    whereHasQuery condition || scalarHasQuery result || whensHaveQuery whens

def whereHasQuery : ResolvedWhereExpr → Bool
  | .scalar expr => scalarHasQuery expr
  | .unary _ expr => whereHasQuery expr
  | .binary _ lexpr rexpr => whereHasQuery lexpr || whereHasQuery rexpr
  | .multi _ exprs => wheresHaveQuery exprs
  | .subquery .. => true

def clauseHasQuery : Option ResolvedWhereExpr → Bool
  | none => false
  | some expr => whereHasQuery expr

def wheresHaveQuery : List ResolvedWhereExpr → Bool
  | [] => false
  | expr :: exprs => whereHasQuery expr || wheresHaveQuery exprs

end

def predicateTargetsSubquery (expr : ResolvedWhereExpr) (aliasName : String) : Bool :=
  let nodes := whereNodes columns expr
  !nodes.isEmpty && nodes.all fun column => column.schema.isEmpty && column.table = aliasName

mutual

def bodyOutputColumnNames : ResolvedQueryBody → List String
  | .select node => node.columns.filterMap outputName
  | .setOp _ _ left _ => subqueryOutputColumnNames left
  | .values _ => []

def subqueryOutputColumnNames : ResolvedQueryExpr → List String
  | ⟨body, _, _⟩ => bodyOutputColumnNames body

end

/-- `name_to_position`: the position a name has in the list, the last one of a repeated name. -/
def nameToPosition (names : List String) (name : String) : Option Nat :=
  names.zipIdx.reverse.lookup name

def branchPushdownIsSafe (select : ResolvedSelectNode) : Bool :=
  select.groupBy.isEmpty && select.having.isNone &&
    select.columns.all fun column =>
      match column.expr with
      | .function call => call.overSpec.isNone
      | _ => true

abbrev NameToColumn := List (String × ResolvedColumnNode)

mutual

def scalarExprColumnsRemap (nameToColumn : NameToColumn) :
    ResolvedScalarExpr → Option ResolvedScalarExpr
  | .column column => (nameToColumn.lookup column.column).map .column
  | .literal value => some (.literal value)
  | .array elements => (scalarsColumnsRemap nameToColumn elements).map .array
  | .identifier _ | .function _ | .case .. | .arithmetic .. | .subquery .. | .typeCast .. => none

def scalarsColumnsRemap (nameToColumn : NameToColumn) :
    List ResolvedScalarExpr → Option (List ResolvedScalarExpr)
  | [] => some []
  | expr :: exprs => do
      let first ← scalarExprColumnsRemap nameToColumn expr
      let rest ← scalarsColumnsRemap nameToColumn exprs
      return first :: rest

end

mutual

def whereExprColumnsRemap (nameToColumn : NameToColumn) :
    ResolvedWhereExpr → Option ResolvedWhereExpr
  | .scalar expr => (scalarExprColumnsRemap nameToColumn expr).map .scalar
  | .unary op expr => (whereExprColumnsRemap nameToColumn expr).map (.unary op)
  | .binary op lexpr rexpr => do
      let left ← whereExprColumnsRemap nameToColumn lexpr
      let right ← whereExprColumnsRemap nameToColumn rexpr
      return .binary op left right
  | .multi op exprs => (wheresColumnsRemap nameToColumn exprs).map (.multi op)
  | .subquery .. => none

def wheresColumnsRemap (nameToColumn : NameToColumn) :
    List ResolvedWhereExpr → Option (List ResolvedWhereExpr)
  | [] => some []
  | expr :: exprs => do
      let first ← whereExprColumnsRemap nameToColumn expr
      let rest ← wheresColumnsRemap nameToColumn exprs
      return first :: rest

end

section Push

variable (predicate : ResolvedWhereExpr) (position : String → Option Nat)

def branchColumn (select : ResolvedSelectNode) (name : String) :
    Option (String × ResolvedColumnNode) := do
  let index ← position name
  let column ← select.columns[index]?
  match column.expr with
  | .column node => return (name, node)
  | _ => none

def predicatePushIntoSelect (select : ResolvedSelectNode) : Option ResolvedSelectNode := do
  guard (branchPushdownIsSafe select)
  let names := (whereNodes columns predicate).map fun column => column.column
  let nameToColumn ← names.mapM (branchColumn position select)
  let remapped ← whereExprColumnsRemap nameToColumn predicate
  let newWhere := match select.whereClause with
    | some existing => .binary .and existing remapped
    | none => remapped
  return { select with whereClause := some newWhere }

mutual

def predicatePushIntoBody : ResolvedQueryBody → Option ResolvedQueryBody
  | .select select => (predicatePushIntoSelect predicate position select).map .select
  | .setOp op all left right => do
      let newLeft ← predicatePushIntoQuery left
      let newRight ← predicatePushIntoQuery right
      return .setOp op all newLeft newRight
  | .values _ => none

/-- `predicate_push_into_query`, with `predicate_push_into_set_op` in its body. -/
def predicatePushIntoQuery : ResolvedQueryExpr → Option ResolvedQueryExpr
  | ⟨body, orderBy, limit⟩ => (predicatePushIntoBody body).map fun newBody =>
    ⟨newBody, orderBy, limit⟩

end

end Push

/-- Whether the loop of `select_node_pushdown_apply` tries to push a conjunct. -/
def conjunctPushable (aliasName : String) (conjunct : ResolvedWhereExpr) : Bool :=
  predicateTargetsSubquery conjunct aliasName && !whereHasQuery conjunct

def conjunctPush (aliasName : String) (position : String → Option Nat)
    (state : ResolvedQueryExpr × List ResolvedWhereExpr) (conjunct : ResolvedWhereExpr) :
    ResolvedQueryExpr × List ResolvedWhereExpr :=
  if conjunctPushable aliasName conjunct then
    match predicatePushIntoQuery conjunct position state.1 with
    | some newQuery => (newQuery, state.2)
    | none => (state.1, state.2 ++ [conjunct])
  else (state.1, state.2 ++ [conjunct])

def selectNodePushdownApply (select : ResolvedSelectNode) : ResolvedSelectNode :=
  match select.sources, select.whereClause with
  | [.subquery query tableAlias kind], some whereClause =>
    if query.limit.isSome then select
    else
      let position := nameToPosition (subqueryOutputColumnNames query)
      let (newQuery, remaining) := (conjunctsSplit whereClause).foldl
        (conjunctPush tableAlias.name position) (query, [])
      { select with
        sources := [.subquery newQuery tableAlias kind]
        whereClause := conjunctsJoin remaining }
  | _, _ => select

mutual

def bodyPushdownApply : ResolvedQueryBody → ResolvedQueryBody
  | .select select => .select (selectNodePushdownApply select)
  | .setOp op all left right =>
    .setOp op all (predicatePushdownApply left) (predicatePushdownApply right)
  | .values rows => .values rows

def predicatePushdownApply : ResolvedQueryExpr → ResolvedQueryExpr
  | ⟨body, orderBy, limit⟩ => ⟨bodyPushdownApply body, orderBy, limit⟩

end

end PgCache.Query.Pushdown.Rewrite
