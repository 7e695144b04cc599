/- source: query/resolved/mod.rs, query/ast/types/
   digest: The resolved query tree. -/
import PgCache.Catalog
import PgCache.Query.Literal

set_option autoImplicit false

namespace PgCache.Query.Resolved.Ast

open Catalog Literal

inductive UnaryOp where
  | not
  | isNull
  | isNotNull
  | isTrue
  | isNotTrue
  | isFalse
  | isNotFalse
  deriving DecidableEq

inductive MultiOp where
  | isIn
  | notIn
  | between
  | notBetween
  | betweenSymmetric
  | notBetweenSymmetric
  | any (comparison : BinaryOp)
  | all (comparison : BinaryOp)
  deriving DecidableEq

inductive ArithmeticOp where
  | add
  | subtract
  | multiply
  | divide
  | modulo
  deriving DecidableEq

inductive SubLinkType where
  | exists
  | any
  | all
  | expr
  deriving DecidableEq

inductive JoinType where
  | inner
  | left
  | right
  | full
  deriving DecidableEq

inductive SetOpType where
  | union
  | intersect
  | except
  deriving DecidableEq

inductive OrderDirection where
  | asc
  | desc
  deriving DecidableEq

inductive NullOrder where
  | default
  | nullsFirst
  | nullsLast
  deriving DecidableEq

inductive FrameMode where
  | rows
  | range
  | groups
  deriving DecidableEq

inductive FrameExclusion where
  | noOthers
  | currentRow
  | group
  | ties
  deriving DecidableEq

inductive SubqueryKind where
  | inclusion
  | exclusion
  | scalar
  deriving DecidableEq

inductive UpdateQuerySource where
  | fromClause
  | subquery (kind : SubqueryKind)
  | outerJoinTerminal
  | outerJoinOptional
  deriving DecidableEq

structure TableAlias where
  name : String
  columns : List String
  deriving DecidableEq

structure ResolvedTableNode where
  schema : String
  name : String
  aliasName : Option String
  relationOid : Oid
  deriving DecidableEq

structure ResolvedColumnNode where
  schema : String
  table : String
  tableAlias : Option String
  column : String
  columnMetadata : ColumnMetadata
  deriving DecidableEq

/-- `PartialEq` of `ResolvedColumnNode`: the alias takes no part in it. -/
def ResolvedColumnNode.same (a b : ResolvedColumnNode) : Bool :=
  a.schema = b.schema ∧ a.table = b.table ∧ a.column = b.column ∧
    a.columnMetadata = b.columnMetadata

structure ResolvedLimitClause where
  count : Option LiteralValue
  offset : Option LiteralValue
  deriving DecidableEq

abbrev ValuesClause := List (List LiteralValue)

mutual

inductive ResolvedScalarExpr where
  | column (column : ResolvedColumnNode)
  | identifier (name : String)
  | function (call : ResolvedFunctionCall)
  | literal (value : LiteralValue)
  | case (arg : Option ResolvedScalarExpr) (whens : List ResolvedCaseWhen)
      (default : Option ResolvedScalarExpr)
  | arithmetic (left : ResolvedScalarExpr) (op : ArithmeticOp) (right : ResolvedScalarExpr)
  | subquery (query : ResolvedQueryExpr) (outerRefs : List ResolvedColumnNode)
  | array (elements : List ResolvedScalarExpr)
  | typeCast (expr : ResolvedScalarExpr) (target : CastTarget)

structure ResolvedFunctionCall where
  name : String
  args : List ResolvedScalarExpr
  aggStar : Bool
  aggDistinct : Bool
  aggOrder : List ResolvedOrderByClause
  aggFilter : Option ResolvedWhereExpr
  overSpec : Option ResolvedWindowSpec

structure ResolvedWindowSpec where
  partitionBy : List ResolvedScalarExpr
  orderBy : List ResolvedOrderByClause
  frame : Option ResolvedWindowFrame

structure ResolvedWindowFrame where
  mode : FrameMode
  start : ResolvedFrameBound
  stop : ResolvedFrameBound
  exclusion : FrameExclusion

inductive ResolvedFrameBound where
  | unboundedPreceding
  | offsetPreceding (offset : ResolvedScalarExpr)
  | currentRow
  | offsetFollowing (offset : ResolvedScalarExpr)
  | unboundedFollowing

structure ResolvedCaseWhen where
  condition : ResolvedWhereExpr
  result : ResolvedScalarExpr

structure ResolvedOrderByClause where
  expr : ResolvedScalarExpr
  direction : OrderDirection
  nullOrder : NullOrder

inductive ResolvedWhereExpr where
  | scalar (expr : ResolvedScalarExpr)
  | unary (op : UnaryOp) (expr : ResolvedWhereExpr)
  | binary (op : BinaryOp) (lexpr rexpr : ResolvedWhereExpr)
  | multi (op : MultiOp) (exprs : List ResolvedWhereExpr)
  | subquery (query : ResolvedQueryExpr) (sublinkType : SubLinkType)
      (testExpr : Option ResolvedScalarExpr) (outerRefs : List ResolvedColumnNode)

structure ResolvedSelectColumn where
  expr : ResolvedScalarExpr
  aliasName : Option String

inductive ResolvedJoinQual where
  | on (predicate : ResolvedWhereExpr)
  | using (columns : List String) (predicate : ResolvedWhereExpr)
  | cross

inductive ResolvedTableSource where
  | table (node : ResolvedTableNode)
  | subquery (query : ResolvedQueryExpr) (tableAlias : TableAlias) (kind : SubqueryKind)
  | join (joinType : JoinType) (left right : ResolvedTableSource) (qual : ResolvedJoinQual)

/-- `ResolvedSelectNode`; an empty `columns` is the source's `ResolvedSelectColumns::None`. -/
structure ResolvedSelectNode where
  distinct : Bool
  columns : List ResolvedSelectColumn
  sources : List ResolvedTableSource
  whereClause : Option ResolvedWhereExpr
  groupBy : List ResolvedColumnNode
  having : Option ResolvedWhereExpr

inductive ResolvedQueryBody where
  | select (node : ResolvedSelectNode)
  | values (rows : ValuesClause)
  | setOp (op : SetOpType) (all : Bool) (left right : ResolvedQueryExpr)

structure ResolvedQueryExpr where
  body : ResolvedQueryBody
  orderBy : List ResolvedOrderByClause
  limit : Option ResolvedLimitClause

end

/-- `ResolvedJoinNode::predicate`: the `ON` expression, or the equality a `USING` stands for. -/
def ResolvedJoinQual.predicate : ResolvedJoinQual → Option ResolvedWhereExpr
  | .on predicate | .using _ predicate => some predicate
  | .cross => none

def ResolvedQueryExpr.asSelect (query : ResolvedQueryExpr) : Option ResolvedSelectNode :=
  match query.body with
  | .select node => some node
  | .values _ | .setOp .. => none

def ResolvedSelectNode.asQuery (node : ResolvedSelectNode) : ResolvedQueryExpr :=
  ⟨.select node, [], none⟩

end PgCache.Query.Resolved.Ast
