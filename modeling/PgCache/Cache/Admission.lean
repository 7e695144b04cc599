/- source: query/update.rs, query/transform/select_node.rs, cache/query/outer_join.rs,
     cache/admission/update_classify.rs, cache/admission/analyze.rs,
     cache/writer/registration/resolve.rs
   digest: The update queries derived from a query, and their registration. -/
import PgCache.Query.Decorrelate.Rewrite
import PgCache.Cache.Maintenance
import Mathlib.Data.List.Dedup

set_option autoImplicit false

namespace PgCache.Cache.Admission

open Catalog Data.Keyed Query.Resolved.Ast Query.Resolved.Traverse Query.Evaluate Query.Predicate
open Query.Constraints.Range Query.Constraints.Extract Query.Decorrelate.Rewrite Maintenance

def selectTrue (node : ResolvedSelectNode) : ResolvedSelectNode :=
  { node with columns := [⟨.literal (.boolean true), none⟩] }

def optionalSide : JoinType → ResolvedTableSource → ResolvedTableSource → Option ResolvedTableSource
  | .left, _, right => some right
  | .right, left, _ => some left
  | .inner, _, _ | .full, _, _ => none

def columnTableRefs (expr : ResolvedWhereExpr) : List String :=
  (whereNodes columns expr).map ResolvedColumnNode.table

def joinTerminalityWalk : ResolvedTableSource → List String → List (String × Bool)
  | .table _, _ | .subquery .., _ => []
  | .join joinType left right qual, refs =>
    let optional := ((optionalSide joinType left right).map directTables).getD []
    let childRefs := refs ++ (qual.predicate.map columnTableRefs).getD []
    optional.map (fun table => (table.name, decide (table.name ∈ refs))) ++
      joinTerminalityWalk left childRefs ++ joinTerminalityWalk right childRefs

def outerJoinOptionalTables (select : ResolvedSelectNode) : List String × List String :=
  match select.sources with
  | [.join joinType left right qual] =>
    let refs := (select.whereClause.map columnTableRefs).getD []
    let walked := joinTerminalityWalk (.join joinType left right qual) refs
    let nonTerminal := (walked.filter Prod.snd).map Prod.fst
    ((walked.map Prod.fst).filter (· ∉ nonTerminal), nonTerminal)
  | _ => ([], [])

structure TableUpdateQuery where
  table : ResolvedTableNode
  select : ResolvedSelectNode
  source : UpdateQuerySource

/-- The role of a table within its branch. -/
def effectiveSource (terminal nonTerminal : List String) (table : ResolvedTableNode)
    (source : UpdateQuerySource) : UpdateQuerySource :=
  if source = .fromClause then
    if table.name ∈ nonTerminal then .outerJoinOptional
    else if table.name ∈ terminal then .outerJoinTerminal
    else source
  else source

def branchUpdateQueries (branch : Branch) : List TableUpdateQuery :=
  let (terminal, nonTerminal) := outerJoinOptionalTables branch.1
  (directTableNodes branch.1).map fun table =>
    ⟨table, selectTrue branch.1, effectiveSource terminal nonTerminal table branch.2⟩

def queryTableUpdateQueries (resolved : ResolvedQueryExpr) : List TableUpdateQuery :=
  (selectNodesWithSource resolved).flatMap branchUpdateQueries

def updateEvalStrategyClassify (select : ResolvedSelectNode) (source : UpdateQuerySource) :
    UpdateEvalStrategy :=
  if source ≠ .fromClause then .pgEval
  else if !isSingleTableSelect select then .pgEval
  else if !select.groupBy.isEmpty || select.having.isSome then .pgEval
  else
    match select.whereClause with
    | none => .localEval
    | some whereExpr => if resolvedWhereExprSupported whereExpr then .localEval else .pgEval

def tableColumns (tableName : String) (refs : List ResolvedColumnNode) : List String :=
  ((refs.filter fun column => column.table = tableName).map ResolvedColumnNode.column).dedup

def selectAliasExprs (select : ResolvedSelectNode) (name : String) : List ResolvedScalarExpr :=
  (select.columns.filter fun column => outputName column = some name).map ResolvedSelectColumn.expr

def orderKeyRefs (select : Option ResolvedSelectNode) (clause : ResolvedOrderByClause) :
    List ResolvedColumnNode :=
  scalarNodes columns clause.expr ++ match clause.expr, select with
    | .identifier name, some select => scalarsNodes columns (selectAliasExprs select name)
    | _, _ => []

variable (resolved : ResolvedQueryExpr)

def limitWindowColumnsCollect (tableName : String) : List String :=
  let select := resolved.asSelect
  let clause := fun expr : Option ResolvedWhereExpr => (expr.map (whereNodes columns)).getD []
  tableColumns tableName <| resolved.orderBy.flatMap (orderKeyRefs select) ++
      clause (select.bind ResolvedSelectNode.whereClause) ++
      clause (select.bind ResolvedSelectNode.having)

def rowLevelWindow (select : ResolvedSelectNode) : Bool :=
  !(select.distinct || !select.groupBy.isEmpty || select.having.isSome) && !resolved.orderBy.isEmpty

def orderKeyColumn (expr : ResolvedScalarExpr) (select : ResolvedSelectNode) :
    Option ResolvedColumnNode := do
  let target ← match expr with
    | .identifier name => (selectAliasExprs select name).head?
    | expr => some expr
  match target with
  | .column column => some column
  | _ => none

def orderByKey (column : ResolvedColumnNode) (clause : ResolvedOrderByClause) : OrderByKey :=
  let descending := clause.direction = .desc
  let nullsFirst := match clause.nullOrder with
    | .nullsFirst => true
    | .nullsLast => false
    | .default => descending
  ⟨column.column, descending, nullsFirst⟩

def limitOrderKeysCollect (tableName : String) : Option (List OrderByKey) := do
  let select ← resolved.asSelect
  guard (rowLevelWindow resolved select)
  resolved.orderBy.mapM fun clause => do
    let column ← orderKeyColumn clause.expr select
    guard (column.table = tableName)
    return orderByKey column clause

def predicateColumnsCollect (select : ResolvedSelectNode) (tableName : String) : List String :=
  let clause := fun expr : Option ResolvedWhereExpr => (expr.map (whereNodes columns)).getD []
  tableColumns tableName <|
    sourcesNodes columns select.sources ++ clause select.whereClause ++ select.groupBy ++
      clause select.having

structure TableAdmission where
  relationOid : Oid
  tableName : String
  updateQuery : UpdateQuery
  subsumerEligible : Bool
  indexConstraints : List TableConstraint

def updateQueryBuild (fingerprint : Fingerprint) (hasLimit : Bool)
    (pair : TableUpdateQuery) : UpdateQuery :=
  let evalStrategy := updateEvalStrategyClassify pair.select pair.source
  let isSingleTable := isSingleTableQuery pair.select.asQuery
  { fingerprint
    resolved := pair.select.asQuery
    source := pair.source
    constraints := analyzeQueryConstraints pair.select
    hasLimit
    evalStrategy
    limitWindowColumns :=
      if hasLimit then limitWindowColumnsCollect resolved pair.table.name else []
    orderByKeys :=
      if hasLimit && isSingleTable && pair.source = .fromClause then
        limitOrderKeysCollect resolved pair.table.name
      else none
    changeDependent := false
    predicateColumns := predicateColumnsCollect pair.select pair.table.name
    isSingleTable
    compiledWhere :=
      if evalStrategy = .localEval then pair.select.whereClause.map (compile pair.table.name)
      else none }

def selfJoined (pair : TableUpdateQuery) : Bool :=
  1 < ((queryNodes tables pair.select.asQuery).filter fun table =>
    table.relationOid = pair.table.relationOid).length

def tableAdmission (fingerprint : Fingerprint) (hasLimit : Bool)
    (pair : TableUpdateQuery) : TableAdmission :=
  let built := updateQueryBuild resolved fingerprint hasLimit pair
  let updateQuery :=
    { built with changeDependent := built.updateInvalidationPossible pair.table.name }
  { relationOid := pair.table.relationOid
    tableName := pair.table.name
    updateQuery
    subsumerEligible :=
      !selfJoined pair && !hasLimit && updateQuery.constraints.whereAnalysisComplete
    indexConstraints :=
      if selfJoined pair then []
      else (updateQuery.constraints.tableConstraints.lookup pair.table.name).getD [] }

section Analyze

variable (aggregateFunctions : String → Bool)

def updateSource (resolved : ResolvedQueryExpr) : DecorrelateResult ResolvedQueryExpr := do
  let (rewritten, transformed) ← queryExprDecorrelate aggregateFunctions resolved
  return if transformed then rewritten else resolved

def queryAdmissionAnalyze (resolved : ResolvedQueryExpr) (fingerprint : Fingerprint)
    (hasLimit : Bool) : DecorrelateResult (List TableAdmission) := do
  let source ← updateSource aggregateFunctions resolved
  return (queryTableUpdateQueries source).map (tableAdmission resolved fingerprint hasLimit)

/-- One turn of the loop of `update_queries_register`. -/
def admissionRegister (updateQueries : KeyedMap Oid UpdateQueries) (admission : TableAdmission) :
    KeyedMap Oid UpdateQueries :=
  PgCache.Data.Keyed.modify admission.relationOid (.new admission.relationOid)
    (fun queries => queries.register admission.updateQuery admission.indexConstraints
      admission.subsumerEligible) updateQueries

def updateQueriesRegister (updateQueries : KeyedMap Oid UpdateQueries)
    (fingerprint : Fingerprint) (resolved : ResolvedQueryExpr) (hasLimit : Bool) :
    DecorrelateResult (KeyedMap Oid UpdateQueries) := do
  let admissions ← queryAdmissionAnalyze aggregateFunctions resolved fingerprint hasLimit
  return admissions.foldl admissionRegister updateQueries

end Analyze

end PgCache.Cache.Admission
