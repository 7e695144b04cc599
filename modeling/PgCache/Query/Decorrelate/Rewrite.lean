/- source: query/decorrelate/predicate.rs, query/decorrelate/exists.rs,
     query/decorrelate/in_subquery.rs, query/decorrelate/scalar.rs, query/decorrelate/driver.rs
   digest: Correlated subqueries turned into joins. -/
import PgCache.Query.Resolved.Traverse

set_option autoImplicit false

namespace PgCache.Query.Decorrelate.Rewrite

open Catalog Literal Resolved.Ast Resolved.Traverse

structure DecorrelateError where
  reason : String
  deriving DecidableEq

abbrev DecorrelateResult := Except DecorrelateError

structure CorrelationPredicate where
  outerColumn : ResolvedColumnNode
  innerColumn : ResolvedColumnNode
  deriving DecidableEq

structure CorrelationPredicates where
  first : CorrelationPredicate
  rest : List CorrelationPredicate

def CorrelationPredicates.toList (predicates : CorrelationPredicates) : List CorrelationPredicate :=
  predicates.first :: predicates.rest

def effectiveTable (column : ResolvedColumnNode) : String :=
  column.tableAlias.getD column.table

def columnMatchesOuterRef (outerRefs : List ResolvedColumnNode) (column : ResolvedColumnNode) :
    Bool :=
  outerRefs.any fun outer =>
    outer.schema = column.schema && effectiveTable outer = effectiveTable column &&
      outer.column = column.column

section References

variable (outerRefs : List ResolvedColumnNode)

mutual

/-- `scalar_references_outer_ref`. Window clauses, aggregate clauses and subqueries are not
looked into. -/
def scalarReferencesOuterRef : ResolvedScalarExpr → Bool
  | .column column => columnMatchesOuterRef outerRefs column
  | .function ⟨_, args, _, _, _, _, _⟩ => scalarsReferenceOuterRef args
  | .arithmetic left _ right => scalarReferencesOuterRef left || scalarReferencesOuterRef right
  | .case arg whens default =>
    (match arg with | none => false | some arg => scalarReferencesOuterRef arg) ||
      whensReferenceOuterRef whens ||
      (match default with | none => false | some default => scalarReferencesOuterRef default)
  | .array elements => scalarsReferenceOuterRef elements
  | .typeCast expr _ => scalarReferencesOuterRef expr
  | .literal _ | .identifier _ | .subquery .. => false

def scalarsReferenceOuterRef : List ResolvedScalarExpr → Bool
  | [] => false
  | expr :: exprs => scalarReferencesOuterRef expr || scalarsReferenceOuterRef exprs

def whensReferenceOuterRef : List ResolvedCaseWhen → Bool
  | [] => false
  | ⟨condition, result⟩ :: whens =>
    conjunctReferencesOuterRef condition || scalarReferencesOuterRef result ||
      whensReferenceOuterRef whens

def conjunctReferencesOuterRef : ResolvedWhereExpr → Bool
  | .scalar expr => scalarReferencesOuterRef expr
  | .unary _ expr => conjunctReferencesOuterRef expr
  | .binary _ lexpr rexpr => conjunctReferencesOuterRef lexpr || conjunctReferencesOuterRef rexpr
  | .multi _ exprs => conjunctsReferenceOuterRef exprs
  | .subquery .. => false

def conjunctsReferenceOuterRef : List ResolvedWhereExpr → Bool
  | [] => false
  | expr :: exprs => conjunctReferencesOuterRef expr || conjunctsReferenceOuterRef exprs

end

/-- What `where_clause_correlation_partition` makes of one conjunct: a correlation predicate,
a residual, or `none` for an unsupported correlation. -/
def conjunctPartition (conjunct : ResolvedWhereExpr) :
    Option (CorrelationPredicate ⊕ ResolvedWhereExpr) :=
  match conjunct with
  | .binary .equal (.scalar (.column left)) (.scalar (.column right)) =>
    let leftIsOuter := columnMatchesOuterRef outerRefs left
    let rightIsOuter := columnMatchesOuterRef outerRefs right
    if leftIsOuter && !rightIsOuter then some (.inl ⟨left, right⟩)
    else if rightIsOuter && !leftIsOuter then some (.inl ⟨right, left⟩)
    else some (.inr conjunct)
  | _ => if conjunctReferencesOuterRef outerRefs conjunct then none else some (.inr conjunct)

def whereClauseCorrelationPartition (whereClause : ResolvedWhereExpr) :
    Option (CorrelationPredicates × Option ResolvedWhereExpr) :=
  ((conjunctsSplit whereClause).mapM (conjunctPartition outerRefs)).bind fun parts =>
    match parts.filterMap Sum.getLeft? with
    | [] => none
    | first :: rest => some (⟨first, rest⟩, conjunctsJoin (parts.filterMap Sum.getRight?))

end References

def scalarColumn (column : ResolvedColumnNode) : ResolvedWhereExpr :=
  .scalar (.column column)

def equalitiesToCondition (equality : CorrelationPredicate → ResolvedWhereExpr)
    (predicates : CorrelationPredicates) : ResolvedWhereExpr :=
  predicates.rest.foldl (fun acc predicate => .binary .and acc (equality predicate))
    (equality predicates.first)

def correlationPredicatesToCondition : CorrelationPredicates → ResolvedWhereExpr :=
  equalitiesToCondition fun predicate =>
    .binary .equal (scalarColumn predicate.innerColumn) (scalarColumn predicate.outerColumn)

def fromSourcesToTableSource : List ResolvedTableSource → Option ResolvedTableSource
  | [] => none
  | first :: rest => some (rest.foldl (fun acc next => .join .inner acc next .cross) first)

def mergeWhereClauses : Option ResolvedWhereExpr → Option ResolvedWhereExpr →
    Option ResolvedWhereExpr
  | some outer, some inner => some (.binary .and outer inner)
  | some outer, none => some outer
  | none, inner => inner

mutual

def scalarExprHasCorrelation : ResolvedScalarExpr → Bool
  | .subquery _ outerRefs => !outerRefs.isEmpty
  | .function ⟨_, args, _, _, _, _, _⟩ => scalarsHaveCorrelation args
  | .case arg whens default =>
    (match arg with | none => false | some arg => scalarExprHasCorrelation arg) ||
      whensHaveCorrelation whens ||
      (match default with | none => false | some default => scalarExprHasCorrelation default)
  | .arithmetic left _ right => scalarExprHasCorrelation left || scalarExprHasCorrelation right
  | .array elements => scalarsHaveCorrelation elements
  | .typeCast expr _ => scalarExprHasCorrelation expr
  | .column _ | .identifier _ | .literal _ => false

def scalarsHaveCorrelation : List ResolvedScalarExpr → Bool
  | [] => false
  | expr :: exprs => scalarExprHasCorrelation expr || scalarsHaveCorrelation exprs

def whensHaveCorrelation : List ResolvedCaseWhen → Bool
  | [] => false
  | ⟨condition, result⟩ :: whens =>
    whereExprHasCorrelation condition || scalarExprHasCorrelation result ||
      whensHaveCorrelation whens

def whereExprHasCorrelation : ResolvedWhereExpr → Bool
  | .subquery _ _ _ outerRefs => !outerRefs.isEmpty
  | .scalar expr => scalarExprHasCorrelation expr
  | .unary _ expr => whereExprHasCorrelation expr
  | .binary _ lexpr rexpr => whereExprHasCorrelation lexpr || whereExprHasCorrelation rexpr
  | .multi _ exprs => wheresHaveCorrelation exprs

def wheresHaveCorrelation : List ResolvedWhereExpr → Bool
  | [] => false
  | expr :: exprs => whereExprHasCorrelation expr || wheresHaveCorrelation exprs

end

/-- `correlated_exists_inner_prepare` on the SELECT: GROUP BY and HAVING are dropped. The LIMIT
is dropped too, since only the SELECT is used from here on. -/
def correlatedExistsInnerPrepare (inner : ResolvedSelectNode) : ResolvedSelectNode :=
  { inner with groupBy := [], having := none }

/-- `correlated_not_exists_inner_prepare`: GROUP BY and HAVING are rejected, the LIMIT is
dropped. -/
def correlatedNotExistsInnerPrepare (inner : ResolvedSelectNode) :
    DecorrelateResult ResolvedSelectNode :=
  if !inner.groupBy.isEmpty then .error ⟨"correlated NOT EXISTS with GROUP BY"⟩
  else if inner.having.isSome then .error ⟨"correlated NOT EXISTS with HAVING"⟩
  else .ok inner

variable (select inner : ResolvedSelectNode)

def semiJoin (condition : ResolvedWhereExpr)
    (residual : Option ResolvedWhereExpr) : Option ResolvedSelectNode := do
  let right ← fromSourcesToTableSource inner.sources
  let left ← fromSourcesToTableSource select.sources
  return { select with
    distinct := true
    sources := [.join .inner left right (.on condition)]
    whereClause := mergeWhereClauses select.whereClause residual }

/-- The anti-join of NOT EXISTS and NOT IN: left join with the residual in ON, and an IS NULL
test on a column of the inner side. -/
def antiJoin (condition : ResolvedWhereExpr)
    (residual : Option ResolvedWhereExpr) (tested : ResolvedColumnNode) :
    Option ResolvedSelectNode := do
  let right ← fromSourcesToTableSource inner.sources
  let left ← fromSourcesToTableSource select.sources
  let onCondition := match residual with
    | some residual => .binary .and condition residual
    | none => condition
  return { select with
    sources := [.join .left left right (.on onCondition)]
    whereClause := mergeWhereClauses select.whereClause
      (some (.unary .isNull (scalarColumn tested))) }

variable (predicates : CorrelationPredicates) (residual : Option ResolvedWhereExpr)

def subqueryExistsDecorrelate : Option ResolvedSelectNode :=
  semiJoin select inner (correlationPredicatesToCondition predicates) residual

def subqueryNotExistsDecorrelate : Option ResolvedSelectNode :=
  antiJoin select inner (correlationPredicatesToCondition predicates) residual
    predicates.first.innerColumn

variable (testExpr : ResolvedScalarExpr) (output : ResolvedColumnNode)

def membershipCondition (predicates : CorrelationPredicates) : ResolvedWhereExpr :=
  .binary .and (.binary .equal (.scalar testExpr) (scalarColumn output))
    (correlationPredicatesToCondition predicates)

def subqueryInAnyDecorrelate : Option ResolvedSelectNode :=
  semiJoin select inner (membershipCondition testExpr output predicates) residual

def subqueryNotInAllDecorrelate : Option ResolvedSelectNode :=
  antiJoin select inner (membershipCondition testExpr output predicates) residual output

def inAnyInnerOutputColumn (inner : ResolvedSelectNode) : DecorrelateResult ResolvedColumnNode :=
  match inner.columns with
  | [] => .error ⟨"IN subquery has no output columns"⟩
  | [⟨.column column, _⟩] => .ok column
  | [_] => .error ⟨"IN subquery output is not a simple column reference"⟩
  | _ => .error ⟨"IN subquery must have exactly one output column"⟩

def partitionOrReject (whereClause : ResolvedWhereExpr) (outerRefs : List ResolvedColumnNode)
    (label : String) : DecorrelateResult (CorrelationPredicates × Option ResolvedWhereExpr) :=
  match whereClauseCorrelationPartition outerRefs whereClause with
  | some parts => .ok parts
  | none => .error ⟨"unsupported correlation pattern in " ++ label⟩

def conjunctExistsTryDecorrelate (select : ResolvedSelectNode) (query : ResolvedQueryExpr)
    (outerRefs : List ResolvedColumnNode) : DecorrelateResult (Option ResolvedSelectNode) := do
  let some inner := query.asSelect | return none
  let inner := correlatedExistsInnerPrepare inner
  let some innerWhere := inner.whereClause | return none
  let (predicates, residual) ← partitionOrReject innerWhere outerRefs "EXISTS"
  return subqueryExistsDecorrelate select inner predicates residual

def conjunctNotExistsTryDecorrelate (select : ResolvedSelectNode) (query : ResolvedQueryExpr)
    (outerRefs : List ResolvedColumnNode) : DecorrelateResult (Option ResolvedSelectNode) := do
  let some inner := query.asSelect | return none
  let inner ← correlatedNotExistsInnerPrepare inner
  let some innerWhere := inner.whereClause | return none
  let (predicates, residual) ← partitionOrReject innerWhere outerRefs "NOT EXISTS"
  return subqueryNotExistsDecorrelate select inner predicates residual

def conjunctInAnyTryDecorrelate (select : ResolvedSelectNode) (query : ResolvedQueryExpr)
    (outerRefs : List ResolvedColumnNode) (testExpr : ResolvedScalarExpr) :
    DecorrelateResult (Option ResolvedSelectNode) := do
  let some inner := query.asSelect | return none
  let inner := correlatedExistsInnerPrepare inner
  let some innerWhere := inner.whereClause | return none
  let output ← inAnyInnerOutputColumn inner
  let (predicates, residual) ← partitionOrReject innerWhere outerRefs "IN"
  return subqueryInAnyDecorrelate select inner predicates residual testExpr output

def conjunctNotInAllTryDecorrelate (select : ResolvedSelectNode) (query : ResolvedQueryExpr)
    (outerRefs : List ResolvedColumnNode) (testExpr : ResolvedScalarExpr) :
    DecorrelateResult (Option ResolvedSelectNode) := do
  let some inner := query.asSelect | return none
  let inner ← correlatedNotExistsInnerPrepare inner
  let some innerWhere := inner.whereClause | return none
  let output ← inAnyInnerOutputColumn inner
  let (predicates, residual) ← partitionOrReject innerWhere outerRefs "NOT IN"
  return subqueryNotInAllDecorrelate select inner predicates residual testExpr output

structure DecorrelateState where
  derivedTableCounter : Nat
  scalarColumnCounter : Nat
  deriving DecidableEq

def derivedAlias (counter : Nat) : String := "_dc" ++ toString counter

def scalarAlias (counter : Nat) : String := "_ds" ++ toString counter

def syntheticColumnNode (derivedAlias column : String) (columnMetadata : ColumnMetadata) :
    ResolvedColumnNode :=
  ⟨"", derivedAlias, some derivedAlias, column, columnMetadata⟩

def syntheticTextMetadata (name : String) : ColumnMetadata :=
  ⟨name, 1, .text, false⟩

structure ScalarDecorrelateResult where
  derivedTable : ResolvedTableSource
  joinCondition : ResolvedWhereExpr
  scalarColumnRef : ResolvedColumnNode

section Driver

variable (aggregateFunctions : String → Bool)

/-- `scalar_inner_prepare`: the SELECT, its one output expression and its WHERE. -/
def scalarInnerPrepare (query : ResolvedQueryExpr) :
    DecorrelateResult (ResolvedSelectNode × ResolvedScalarExpr × ResolvedWhereExpr) := do
  let some inner := query.asSelect | throw ⟨"scalar subquery is not a simple SELECT"⟩
  let [⟨scalar, _⟩] := inner.columns
    | throw ⟨"scalar subquery must have exactly one output column"⟩
  let some innerWhere := inner.whereClause | throw ⟨"scalar subquery has no WHERE clause"⟩
  if !hasAggregate aggregateFunctions scalar && query.limit.isSome then
    throw ⟨"non-aggregate scalar subquery with LIMIT"⟩
  return (inner, scalar, innerWhere)

def derivedSelect (inner : ResolvedSelectNode) (scalar : ResolvedScalarExpr)
    (predicates : CorrelationPredicates) (residual : Option ResolvedWhereExpr)
    (scalarName : String) : ResolvedSelectNode where
  distinct := false
  columns := predicates.toList.map (fun predicate => ⟨.column predicate.innerColumn, none⟩) ++
    [⟨scalar, some scalarName⟩]
  sources := inner.sources
  whereClause := residual
  groupBy :=
    if hasAggregate aggregateFunctions scalar then
      predicates.toList.map CorrelationPredicate.innerColumn
    else []
  having := none

def subqueryScalarDecorrelate (query : ResolvedQueryExpr) (outerRefs : List ResolvedColumnNode)
    (state : DecorrelateState) :
    DecorrelateResult (ScalarDecorrelateResult × DecorrelateState) := do
  let (inner, scalar, innerWhere) ← scalarInnerPrepare aggregateFunctions query
  let (predicates, residual) ← partitionOrReject innerWhere outerRefs "scalar subquery"
  let state : DecorrelateState := ⟨state.derivedTableCounter + 1, state.scalarColumnCounter + 1⟩
  let derivedName := derivedAlias state.derivedTableCounter
  let scalarName := scalarAlias state.scalarColumnCounter
  let derived := derivedSelect aggregateFunctions inner scalar predicates residual scalarName
  let equality := fun predicate : CorrelationPredicate =>
    .binary .equal (scalarColumn (syntheticColumnNode derivedName predicate.innerColumn.column
        predicate.innerColumn.columnMetadata))
      (scalarColumn predicate.outerColumn)
  return (⟨.subquery derived.asQuery ⟨derivedName, []⟩ .scalar,
    equalitiesToCondition equality predicates,
    syntheticColumnNode derivedName scalarName (syntheticTextMetadata scalarName)⟩, state)

def leftJoinDerived (sources : List ResolvedTableSource) (result : ScalarDecorrelateResult) :
    Option (List ResolvedTableSource) :=
  (fromSourcesToTableSource sources).map fun left =>
    [.join .left left result.derivedTable (.on result.joinCondition)]

structure Passed (α : Type) where
  value : α
  transformed : Bool
  sources : List ResolvedTableSource
  state : DecorrelateState

def conjunctScalarDecorrelate : ResolvedWhereExpr → List ResolvedTableSource → DecorrelateState →
    DecorrelateResult (Passed ResolvedWhereExpr)
  | .subquery query .expr testExpr outerRefs, sources, state => do
      if outerRefs.isEmpty then
        return ⟨.subquery query .expr testExpr outerRefs, false, sources, state⟩
      let (result, state) ← subqueryScalarDecorrelate aggregateFunctions query outerRefs state
      match leftJoinDerived sources result with
      | some joined => return ⟨scalarColumn result.scalarColumnRef, true, joined, state⟩
      | none => return ⟨.subquery query .expr testExpr outerRefs, false, sources, state⟩
  | .binary op lexpr rexpr, sources, state => do
      let left ← conjunctScalarDecorrelate lexpr sources state
      let right ← conjunctScalarDecorrelate rexpr left.sources left.state
      if left.transformed || right.transformed then
        return ⟨.binary op left.value right.value, true, right.sources, right.state⟩
      else return ⟨.binary op lexpr rexpr, false, right.sources, right.state⟩
  | .unary op expr, sources, state => do
      let inner ← conjunctScalarDecorrelate expr sources state
      if inner.transformed then
        return ⟨.unary op inner.value, true, inner.sources, inner.state⟩
      else return ⟨.unary op expr, false, inner.sources, inner.state⟩
  | expr, sources, state => return ⟨expr, false, sources, state⟩

def selectColumnDecorrelate (column : ResolvedSelectColumn) (sources : List ResolvedTableSource)
    (state : DecorrelateState) : DecorrelateResult (Passed ResolvedSelectColumn) := do
  match column.expr with
  | .subquery query (outer :: outerRefs) =>
    let (result, state) ←
      subqueryScalarDecorrelate aggregateFunctions query (outer :: outerRefs) state
    match leftJoinDerived sources result with
    | none => return ⟨column, false, sources, state⟩
    | some joined =>
      return ⟨⟨.column result.scalarColumnRef, column.aliasName⟩, true, joined, state⟩
  | expr =>
    if scalarExprHasCorrelation expr then
      throw ⟨"correlated subquery nested in SELECT expression"⟩
    return ⟨column, false, sources, state⟩

def selectColumnsDecorrelate : List ResolvedSelectColumn → List ResolvedTableSource →
    DecorrelateState → DecorrelateResult (Passed (List ResolvedSelectColumn))
  | [], sources, state => return ⟨[], false, sources, state⟩
  | column :: columns, sources, state => do
      let first ← selectColumnDecorrelate aggregateFunctions column sources state
      let rest ← selectColumnsDecorrelate columns first.sources first.state
      return ⟨first.value :: rest.value, first.transformed || rest.transformed, rest.sources,
        rest.state⟩

inductive JoinDecorrelation where
  | exists (query : ResolvedQueryExpr) (outerRefs : List ResolvedColumnNode)
  | notExists (query : ResolvedQueryExpr) (outerRefs : List ResolvedColumnNode)
  | inAny (query : ResolvedQueryExpr) (outerRefs : List ResolvedColumnNode)
      (test : ResolvedScalarExpr)
  | notInAll (query : ResolvedQueryExpr) (outerRefs : List ResolvedColumnNode)
      (test : ResolvedScalarExpr)

def JoinDecorrelation.tryDecorrelate (select : ResolvedSelectNode) :
    JoinDecorrelation → DecorrelateResult (Option ResolvedSelectNode)
  | .exists query outerRefs => conjunctExistsTryDecorrelate select query outerRefs
  | .notExists query outerRefs => conjunctNotExistsTryDecorrelate select query outerRefs
  | .inAny query outerRefs test => conjunctInAnyTryDecorrelate select query outerRefs test
  | .notInAll query outerRefs test => conjunctNotInAllTryDecorrelate select query outerRefs test

structure CorrelatedSubquery where
  sublinkType : SubLinkType
  query : ResolvedQueryExpr
  outerRefs : List ResolvedColumnNode
  testExpr : Option ResolvedScalarExpr

def CorrelatedSubquery.of : ResolvedWhereExpr → Option CorrelatedSubquery
  | .subquery query sublinkType testExpr outerRefs =>
    if outerRefs.isEmpty then none else some ⟨sublinkType, query, outerRefs, testExpr⟩
  | _ => none

def CorrelatedSubquery.test (subquery : CorrelatedSubquery) (label : String) :
    DecorrelateResult ResolvedScalarExpr :=
  match subquery.testExpr with
  | some test => .ok test
  | none => .error ⟨"correlated " ++ label ++ " without test expression"⟩

def negation : ResolvedWhereExpr → Bool × ResolvedWhereExpr
  | .unary .not expr => (true, expr)
  | expr => (false, expr)

def conjunctJoinClassify (conjunct : ResolvedWhereExpr) :
    DecorrelateResult (Option JoinDecorrelation) := do
  let (negated, predicate) := negation conjunct
  let some subquery := CorrelatedSubquery.of predicate | return none
  match negated, subquery.sublinkType with
  | false, .exists => return some (.exists subquery.query subquery.outerRefs)
  | true, .exists => return some (.notExists subquery.query subquery.outerRefs)
  | false, .any => return some (.inAny subquery.query subquery.outerRefs (← subquery.test "IN"))
  | true, .any | false, .all =>
    return some (.notInAll subquery.query subquery.outerRefs (← subquery.test "NOT IN"))
  | false, .expr | true, .all | true, .expr => return none

inductive Residual where
  | keep
  | scalarDecorrelate
  deriving DecidableEq

def residualClassify (conjunct : ResolvedWhereExpr) : DecorrelateResult Residual :=
  match conjunct with
  | .binary .or _ _ =>
    if whereExprHasCorrelation conjunct then .error ⟨"correlated subquery inside OR"⟩
    else .ok .keep
  | .unary .not expr =>
    if (CorrelatedSubquery.of expr).isSome then
      .error ⟨"correlated NOT-wrapped non-EXISTS subquery"⟩
    else .ok .keep
  | _ => .ok (if whereExprHasCorrelation conjunct then .scalarDecorrelate else .keep)

structure WhereDecorrelation where
  select : ResolvedSelectNode
  remaining : List ResolvedWhereExpr
  transformed : Bool
  state : DecorrelateState

variable (pass : WhereDecorrelation)

def WhereDecorrelation.joinApply (kind : JoinDecorrelation)
    (conjunct : ResolvedWhereExpr) : DecorrelateResult WhereDecorrelation := do
  let select := { pass.select with whereClause := conjunctsJoin pass.remaining }
  match ← kind.tryDecorrelate select with
  | some rewritten =>
    return { pass with
      select := { rewritten with whereClause := none }
      remaining := (rewritten.whereClause.map conjunctsSplit).getD []
      transformed := true }
  | none => return { pass with select, remaining := pass.remaining ++ [conjunct] }

def WhereDecorrelation.residualApply (conjunct : ResolvedWhereExpr) :
    DecorrelateResult WhereDecorrelation := do
  match ← residualClassify conjunct with
  | .keep => return { pass with remaining := pass.remaining ++ [conjunct] }
  | .scalarDecorrelate =>
    let passed ← conjunctScalarDecorrelate aggregateFunctions conjunct pass.select.sources
      pass.state
    return {
      select := { pass.select with sources := passed.sources }
      remaining := pass.remaining ++ [passed.value]
      transformed := pass.transformed || passed.transformed
      state := passed.state }

/-- One turn of the conjunct loop of `select_node_decorrelate`. -/
def WhereDecorrelation.step (conjunct : ResolvedWhereExpr) :
    DecorrelateResult WhereDecorrelation := do
  match ← conjunctJoinClassify conjunct with
  | some kind => pass.joinApply kind conjunct
  | none => pass.residualApply aggregateFunctions conjunct

def havingCorrelationReject (select : ResolvedSelectNode) : DecorrelateResult Unit :=
  if select.having.any whereExprHasCorrelation then
    .error ⟨"correlated subquery in HAVING clause"⟩
  else .ok ()

def selectNodeDecorrelate (select : ResolvedSelectNode) (state : DecorrelateState) :
    DecorrelateResult (ResolvedSelectNode × Bool × DecorrelateState) := do
  let columns ← selectColumnsDecorrelate aggregateFunctions select.columns select.sources state
  let current := { select with columns := columns.value, sources := columns.sources }
  havingCorrelationReject current
  match current.whereClause with
  | none => return (current, columns.transformed, columns.state)
  | some whereClause =>
    let pass ← (conjunctsSplit whereClause).foldlM (WhereDecorrelation.step aggregateFunctions)
      ⟨current, [], columns.transformed, columns.state⟩
    return ({ pass.select with whereClause := conjunctsJoin pass.remaining }, pass.transformed,
      pass.state)

mutual

def bodyDecorrelate : ResolvedQueryBody → DecorrelateState →
    DecorrelateResult (ResolvedQueryBody × Bool × DecorrelateState)
  | .select node, state => do
      let (rewritten, transformed, state) ← selectNodeDecorrelate aggregateFunctions node state
      return (.select rewritten, transformed, state)
  | .setOp op all left right, state => do
      let (left, leftTransformed, state) ← queryExprDecorrelateInner left state
      let (right, rightTransformed, state) ← queryExprDecorrelateInner right state
      return (.setOp op all left right, leftTransformed || rightTransformed, state)
  | .values rows, state => return (.values rows, false, state)

def queryExprDecorrelateInner : ResolvedQueryExpr → DecorrelateState →
    DecorrelateResult (ResolvedQueryExpr × Bool × DecorrelateState)
  | ⟨body, orderBy, limit⟩, state => do
      let (body, transformed, state) ← bodyDecorrelate body state
      return (⟨body, orderBy, limit⟩, transformed, state)

end

def queryExprDecorrelate (resolved : ResolvedQueryExpr) :
    DecorrelateResult (ResolvedQueryExpr × Bool) := do
  let (rewritten, transformed, _) ← queryExprDecorrelateInner aggregateFunctions resolved ⟨0, 0⟩
  return (rewritten, transformed)

end Driver

end PgCache.Query.Decorrelate.Rewrite
