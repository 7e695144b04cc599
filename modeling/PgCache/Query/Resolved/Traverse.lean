/- source: query/resolved/traverse.rs, query/resolved/subquery_collect.rs,
     query/resolved/analysis.rs, query/transform/pushdown.rs
   digest: Walks over the resolved tree: every node, the SELECT branches, the direct tables. -/
import PgCache.Query.Resolved.Ast

set_option autoImplicit false

namespace PgCache.Query.Resolved.Traverse

open Literal Ast

structure Visitor (N : Type) where
  table : ResolvedTableNode → List N
  column : ResolvedColumnNode → List N
  select : ResolvedSelectNode → List N
  literal : LiteralValue → List N

section Nodes

variable {N : Type} (visit : Visitor N)

mutual

def scalarNodes : ResolvedScalarExpr → List N
  | .column column => visit.column column
  | .identifier _ => []
  | .literal value => visit.literal value
  | .function call => callNodes call
  | .case arg whens default =>
    optionalNodes arg ++ whenNodes whens ++ optionalNodes default
  | .arithmetic left _ right => scalarNodes left ++ scalarNodes right
  | .subquery query _ => queryNodes query
  | .array elements => scalarsNodes elements
  | .typeCast expr _ => scalarNodes expr

def optionalNodes : Option ResolvedScalarExpr → List N
  | none => []
  | some expr => scalarNodes expr

def scalarsNodes : List ResolvedScalarExpr → List N
  | [] => []
  | expr :: exprs => scalarNodes expr ++ scalarsNodes exprs

def callNodes : ResolvedFunctionCall → List N
  | ⟨_, args, _, _, aggOrder, aggFilter, overSpec⟩ =>
    scalarsNodes args ++ orderNodes aggOrder ++ clauseNodes aggFilter ++ overNodes overSpec

def overNodes : Option ResolvedWindowSpec → List N
  | none => []
  | some spec => windowNodes spec

def windowNodes : ResolvedWindowSpec → List N
  | ⟨partitionBy, orderBy, frame⟩ =>
    scalarsNodes partitionBy ++ orderNodes orderBy ++ frameNodes frame

def frameNodes : Option ResolvedWindowFrame → List N
  | none => []
  | some ⟨_, start, stop, _⟩ => boundNodes start ++ boundNodes stop

def boundNodes : ResolvedFrameBound → List N
  | .offsetPreceding offset | .offsetFollowing offset => scalarNodes offset
  | .unboundedPreceding | .currentRow | .unboundedFollowing => []

def whenNodes : List ResolvedCaseWhen → List N
  | [] => []
  | ⟨condition, result⟩ :: whens => whereNodes condition ++ scalarNodes result ++ whenNodes whens

def orderNodes : List ResolvedOrderByClause → List N
  | [] => []
  | ⟨expr, _, _⟩ :: clauses => scalarNodes expr ++ orderNodes clauses

def whereNodes : ResolvedWhereExpr → List N
  | .scalar expr => scalarNodes expr
  | .unary _ expr => whereNodes expr
  | .binary _ lexpr rexpr => whereNodes lexpr ++ whereNodes rexpr
  | .multi _ exprs => wheresNodes exprs
  | .subquery query _ testExpr _ =>
    queryNodes query ++ optionalNodes testExpr

def clauseNodes : Option ResolvedWhereExpr → List N
  | none => []
  | some expr => whereNodes expr

def wheresNodes : List ResolvedWhereExpr → List N
  | [] => []
  | expr :: exprs => whereNodes expr ++ wheresNodes exprs

def selectColumnsNodes : List ResolvedSelectColumn → List N
  | [] => []
  | ⟨expr, _⟩ :: columns => scalarNodes expr ++ selectColumnsNodes columns

def qualNodes : ResolvedJoinQual → List N
  | .on predicate | .using _ predicate => whereNodes predicate
  | .cross => []

def sourceNodes : ResolvedTableSource → List N
  | .table node => visit.table node
  | .subquery query _ _ => queryNodes query
  | .join _ left right qual => sourceNodes left ++ sourceNodes right ++ qualNodes qual

def sourcesNodes : List ResolvedTableSource → List N
  | [] => []
  | source :: sources => sourceNodes source ++ sourcesNodes sources

def selectNodes : ResolvedSelectNode → List N
  | ⟨distinct, columns, sources, whereClause, groupBy, having⟩ =>
    visit.select ⟨distinct, columns, sources, whereClause, groupBy, having⟩ ++
      selectColumnsNodes columns ++ sourcesNodes sources ++ clauseNodes whereClause ++
      groupBy.flatMap visit.column ++ clauseNodes having

def bodyNodes : ResolvedQueryBody → List N
  | .select node => selectNodes node
  | .values _ => []
  | .setOp _ _ left right => queryNodes left ++ queryNodes right

/-- `try_for_each_node` from a query: the kept nodes of the whole tree in walk order. -/
def queryNodes : ResolvedQueryExpr → List N
  | ⟨body, orderBy, _⟩ => bodyNodes body ++ orderNodes orderBy

end

end Nodes

def tables : Visitor ResolvedTableNode :=
  ⟨fun table => [table], fun _ => [], fun _ => [], fun _ => []⟩

def columns : Visitor ResolvedColumnNode :=
  ⟨fun _ => [], fun column => [column], fun _ => [], fun _ => []⟩

def selects : Visitor ResolvedSelectNode :=
  ⟨fun _ => [], fun _ => [], fun node => [node], fun _ => []⟩

def isSingleTableQuery (query : ResolvedQueryExpr) : Bool :=
  (queryNodes tables query).length ≤ 1

def isSingleTableSelect (node : ResolvedSelectNode) : Bool :=
  match node.sources with
  | [.table _] => true
  | _ => false

def directTables : ResolvedTableSource → List ResolvedTableNode
  | .table node => [node]
  | .subquery .. => []
  | .join _ left right _ => directTables left ++ directTables right

def directTableNodes (node : ResolvedSelectNode) : List ResolvedTableNode :=
  node.sources.flatMap directTables

def outputName (column : ResolvedSelectColumn) : Option String :=
  column.aliasName.or <| match column.expr with
    | .column node => some node.column
    | .identifier name => some name
    | _ => none

section Aggregates

variable (aggregateFunctions : String → Bool)

mutual

def hasAggregate : ResolvedScalarExpr → Bool
  | .function ⟨name, args, _, _, _, _, _⟩ => aggregateFunctions name || anyAggregate args
  | .case arg whens default =>
    (match arg with | none => false | some arg => hasAggregate arg) || anyWhenAggregate whens ||
      (match default with | none => false | some default => hasAggregate default)
  | .arithmetic left _ right => hasAggregate left || hasAggregate right
  | .array elements => anyAggregate elements
  | .typeCast expr _ => hasAggregate expr
  | .column _ | .identifier _ | .literal _ | .subquery .. => false

def anyAggregate : List ResolvedScalarExpr → Bool
  | [] => false
  | expr :: exprs => hasAggregate expr || anyAggregate exprs

def anyWhenAggregate : List ResolvedCaseWhen → Bool
  | [] => false
  | ⟨_, result⟩ :: whens => hasAggregate result || anyWhenAggregate whens

end

end Aggregates

abbrev Branch := ResolvedSelectNode × UpdateQuerySource

/-- The kind of a sublink's subquery; `NOT` around it flips the direction. -/
def sublinkKind : SubLinkType → Bool → SubqueryKind
  | .expr, _ => .scalar
  | .any, negated | .exists, negated => if negated then .exclusion else .inclusion
  | .all, negated => if negated then .inclusion else .exclusion

def derivedKind : SubqueryKind → Bool → SubqueryKind
  | .scalar, _ => .scalar
  | .inclusion, true => .exclusion
  | .exclusion, true => .inclusion
  | kind, false => kind

/-- Every subquery branch turned `Scalar`, as `subquery_nodes_collect_as_scalar` does. -/
def asScalar : List Branch → List Branch :=
  List.map fun (node, source) =>
    match source with
    | .subquery _ => (node, .subquery .scalar)
    | other => (node, other)

mutual

def scalarBranches : ResolvedScalarExpr → List Branch
  | .column _ | .identifier _ | .literal _ => []
  | .function call => callBranches call
  | .case arg whens default =>
    (match arg with | none => [] | some arg => scalarBranches arg) ++ whenBranches whens ++
      (match default with | none => [] | some default => scalarBranches default)
  | .arithmetic left _ right => scalarBranches left ++ scalarBranches right
  | .subquery query _ => queryBranches query (.subquery .scalar) false
  | .array elements => scalarsBranches elements
  | .typeCast expr _ => scalarBranches expr

def scalarsBranches : List ResolvedScalarExpr → List Branch
  | [] => []
  | expr :: exprs => scalarBranches expr ++ scalarsBranches exprs

def callBranches : ResolvedFunctionCall → List Branch
  | ⟨_, args, _, _, aggOrder, aggFilter, overSpec⟩ =>
    scalarsBranches args ++ orderBranches aggOrder ++ (match aggFilter with
        | none => []
        | some filter => asScalar (whereBranches filter false)) ++
      (match overSpec with | none => [] | some spec => windowBranches spec)

def windowBranches : ResolvedWindowSpec → List Branch
  | ⟨partitionBy, orderBy, _⟩ => scalarsBranches partitionBy ++ orderBranches orderBy

def whenBranches : List ResolvedCaseWhen → List Branch
  | [] => []
  | ⟨condition, result⟩ :: whens =>
    asScalar (whereBranches condition false) ++ scalarBranches result ++ whenBranches whens

def orderBranches : List ResolvedOrderByClause → List Branch
  | [] => []
  | ⟨expr, _, _⟩ :: clauses => scalarBranches expr ++ orderBranches clauses

def whereBranches : ResolvedWhereExpr → Bool → List Branch
  | .scalar expr, _ => scalarBranches expr
  | .unary op expr, negated => whereBranches expr (if op = .not then !negated else negated)
  | .binary _ lexpr rexpr, negated => whereBranches lexpr negated ++ whereBranches rexpr negated
  | .multi _ exprs, negated => wheresBranches exprs negated
  | .subquery query sublinkType testExpr _, negated =>
    queryBranches query (.subquery (sublinkKind sublinkType negated)) negated ++
      (match testExpr with | none => [] | some test => scalarBranches test)

def wheresBranches : List ResolvedWhereExpr → Bool → List Branch
  | [], _ => []
  | expr :: exprs, negated => whereBranches expr negated ++ wheresBranches exprs negated

def selectColumnsBranches : List ResolvedSelectColumn → List Branch
  | [] => []
  | ⟨expr, _⟩ :: columns => scalarBranches expr ++ selectColumnsBranches columns

def qualBranches : ResolvedJoinQual → Bool → List Branch
  | .on predicate, negated | .using _ predicate, negated => whereBranches predicate negated
  | .cross, _ => []

def sourceBranches : ResolvedTableSource → Bool → List Branch
  | .table _, _ => []
  | .subquery query _ kind, negated =>
    queryBranches query (.subquery (derivedKind kind negated)) negated
  | .join _ left right qual, negated =>
    sourceBranches left negated ++ sourceBranches right negated ++ qualBranches qual negated

def sourcesBranches : List ResolvedTableSource → Bool → List Branch
  | [], _ => []
  | source :: sources, negated => sourceBranches source negated ++ sourcesBranches sources negated

def innerBranches : ResolvedSelectNode → Bool → List Branch
  | ⟨_, columns, sources, whereClause, _, having⟩, negated =>
    sourcesBranches sources negated ++
      (match whereClause with | none => [] | some expr => whereBranches expr negated) ++
      (match having with | none => [] | some expr => whereBranches expr negated) ++
      selectColumnsBranches columns

def bodyBranches : ResolvedQueryBody → UpdateQuerySource → Bool → List Branch
  | .select node, outerSource, negated => (node, outerSource) :: innerBranches node negated
  | .values _, _, _ => []
  | .setOp _ _ left right, outerSource, negated =>
    queryBranches left outerSource negated ++ queryBranches right outerSource negated

def queryBranches : ResolvedQueryExpr → UpdateQuerySource → Bool → List Branch
  | ⟨body, _, _⟩, outerSource, negated => bodyBranches body outerSource negated

end

def selectNodesWithSource (query : ResolvedQueryExpr) : List Branch :=
  queryBranches query .fromClause false

def conjunctsSplit : ResolvedWhereExpr → List ResolvedWhereExpr
  | .binary .and lexpr rexpr => conjunctsSplit lexpr ++ conjunctsSplit rexpr
  | expr => [expr]

def conjunctsJoin : List ResolvedWhereExpr → Option ResolvedWhereExpr
  | [] => none
  | first :: rest => some (rest.foldl (.binary .and) first)

end PgCache.Query.Resolved.Traverse
