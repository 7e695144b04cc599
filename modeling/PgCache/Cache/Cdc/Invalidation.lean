/- source: cache/writer/cdc/row_match.rs, cache/writer/cdc/invalidation.rs
   digest: Which cached queries one replicated row event invalidates. -/
import PgCache.Cache.Maintenance

set_option autoImplicit false

namespace PgCache.Cache.Cdc.Invalidation

open Catalog Query.Literal Query.Resolved.Ast Query.Cast Query.Evaluate Query.Constraints.Range
open Query.Constraints.Extract Query.Containment Maintenance

section Doubles

variable (doubles : Doubles)

def constraintValueMatches (constraint : TableConstraint) (text : String) : Bool :=
  match constraint with
  | .comparison _ op value => whereValueCompareString doubles value text op
  | .anyOf _ values => values.any fun value => whereValueCompareString doubles value text .equal
  | .castComparison _ cast op value =>
    (castTargetCoerceText cast text).any fun coerced => literalCompare coerced op value

/-- `constraint_row_matches`: a constraint on a column that the table or the row does not carry
is skipped, and NULL never matches. -/
def constraintRowMatches (constraint : TableConstraint) (table : TableMetadata)
    (row : RowData) : Bool :=
  match (table.columns.get (constraintColumn constraint)).bind fun column => row[column.index]? with
  | none => true
  | some value => value.any (constraintValueMatches doubles constraint)

def rowConstraintsMatch (constraints : QueryConstraints) (table : TableMetadata)
    (row : RowData) : Bool :=
  (constraints.tableConstraints.lookup table.name).all fun onTable =>
    onTable.all fun constraint => constraintRowMatches doubles constraint table row

def updateQueryMatchesLocally (query : UpdateQuery) (row : RowData) : Bool :=
  query.compiledWhere.all fun predicate => predicate.eval doubles row

end Doubles

def updatePkChanged (table : TableMetadata) (keyData newRow : RowData) : Bool :=
  if keyData.isEmpty then false
  else if !table.replicaIdentityFull then true
  else
    table.primaryKeyColumns.any fun pk =>
      match table.columns.get pk with
      | none => true
      | some column => keyData[column.index]? ≠ newRow[column.index]?

variable (query : UpdateQuery)

def joinMembershipUnchanged (table : TableMetadata) (keyData : Option RowData) : Bool :=
  let joinColumns := query.constraints.tableJoinColumns table.name
  keyData = some [] && !joinColumns.isEmpty &&
    joinColumns.all fun column => column ∈ table.primaryKeyColumns

def columnsChanged (columns : List String) (rowChanges : RowChanges) : Bool :=
  columns.any fun column => (rowChanges.lookup column).any ColumnChange.changed

def windowChangesAreOrderKeys (keys : List OrderByKey) (rowChanges : RowChanges) : Bool :=
  query.limitWindowColumns.all fun column =>
    !(rowChanges.lookup column).any ColumnChange.changed || keys.any fun key => key.column = column

def sortKeyMoveIsForward (key : OrderByKey) (change : ColumnChange) (newIsNull : Bool) : Bool :=
  match change.oldIsNull, newIsNull with
  | true, true => false
  | true, false => !key.nullsFirst
  | false, true => key.nullsFirst
  | false, false =>
    match change.oldLessThanNew with
    | some true => key.descending
    | some false => !key.descending
    | none => false

/-- The loop of `window_move_is_promotion`: the first key whose value changed decides. -/
def firstChangedKeyForward (table : TableMetadata) (row : RowData) (rowChanges : RowChanges) :
    List OrderByKey → Bool
  | [] => false
  | key :: keys =>
    match rowChanges.lookup key.column with
    | none => false
    | some change =>
      if !change.changed then firstChangedKeyForward table row rowChanges keys
      else
        ((table.columns.get key.column).bind fun column => row[column.index]?).any
          fun newValue => sortKeyMoveIsForward key change newValue.isNone

def windowMoveIsPromotion (table : TableMetadata) (row : RowData)
    (rowChanges : RowChanges) : Bool :=
  query.orderByKeys.any fun keys =>
    windowChangesAreOrderKeys query keys rowChanges &&
      firstChangedKeyForward table row rowChanges keys

inductive CdcOperation where
  | upsert
  | delete
  deriving DecidableEq

/-- `RowEvent`: `rowChanges` is present exactly when the row is cached under its key. -/
structure RowEvent where
  rowData : RowData
  keyData : Option RowData
  operation : CdcOperation
  rowChanges : Option RowChanges

def subqueryChangeExpands : SubqueryKind → CdcOperation → Bool
  | .scalar, _ => true
  | .inclusion, .upsert => true
  | .inclusion, .delete => false
  | .exclusion, .upsert => false
  | .exclusion, .delete => true

def joinColumnsChanged (table : TableMetadata) (rowChanges : RowChanges) : Bool :=
  (query.constraints.tableJoinColumns table.name).any fun column =>
    (rowChanges.lookup column).all ColumnChange.changed

section Doubles

variable (doubles : Doubles) (query : UpdateQuery) (table : TableMetadata) (event : RowEvent)

def rowRelevant : Bool :=
  if (query.constraints.tableConstraints.lookup table.name).isSome then
    rowConstraintsMatch doubles query.constraints table event.rowData
  else !joinMembershipUnchanged query table event.keyData

def fromClauseUncachedInvalidates : Bool :=
  if event.operation = .delete then query.hasLimit
  else !query.isSingleTable && rowRelevant doubles query table event

def rowUncachedInvalidates : Bool :=
  match query.source with
  | .fromClause => fromClauseUncachedInvalidates doubles query table event
  | .subquery kind =>
    rowRelevant doubles query table event && subqueryChangeExpands kind event.operation
  | .outerJoinTerminal => false
  | .outerJoinOptional => rowConstraintsMatch doubles query.constraints table event.rowData

def limitWindowMoveInvalidates (row : RowData) (rowChanges : RowChanges) : Bool :=
  if !query.isLimitFrom || !columnsChanged query.limitWindowColumns rowChanges then false
  else if columnsChanged query.predicateColumns rowChanges then true
  else
    rowConstraintsMatch doubles query.constraints table row &&
      !windowMoveIsPromotion query table row rowChanges

def rowCachedInvalidates (row : RowData) (rowChanges : RowChanges) : Bool :=
  query.isAlways || limitWindowMoveInvalidates doubles query table row rowChanges ||
    (joinColumnsChanged query table rowChanges &&
      rowConstraintsMatch doubles query.constraints table row)

def queryRowInvalidates : Bool :=
  match event.rowChanges with
  | some rowChanges => rowCachedInvalidates doubles query table event.rowData rowChanges
  | none => rowUncachedInvalidates doubles query table event

variable (queries : UpdateQueries)

def expandLimit (event : RowEvent) : Bool :=
  match event.operation, event.rowChanges with
  | .delete, _ => true
  | .upsert, some rowChanges => queries.limitPredicateChanged rowChanges
  | .upsert, none => false

def narrowedCandidates (event : RowEvent) (candidates : Finset Fingerprint) : Finset Fingerprint :=
  candidates ∪ queries.alwaysCheck ∪ if expandLimit queries event then queries.hasLimitFrom else ∅

def updateQueriesCheckInvalidate (table : TableMetadata)
    (event : RowEvent) (candidates : Finset Fingerprint) : Finset Fingerprint :=
  (narrowedCandidates queries event candidates).filter fun fp =>
    (queries.queries.lookup fp).any fun query => queryRowInvalidates doubles query table event

def evalCandidates (table : TableMetadata) (row : RowData) : Finset Fingerprint :=
  (queries.evalIndex.candidatesPoint (rowValueForms doubles table row)).toFinset

theorem mem_updateQueriesCheckInvalidate {queries : UpdateQueries} {table : TableMetadata}
    {event : RowEvent} {candidates : Finset Fingerprint} {fp : Fingerprint} :
    fp ∈ updateQueriesCheckInvalidate doubles queries table event candidates ↔
      (fp ∈ candidates ∨ fp ∈ queries.alwaysCheck ∨
        expandLimit queries event = true ∧ fp ∈ queries.hasLimitFrom) ∧
      ∃ query, queries.queries.lookup fp = some query ∧
        queryRowInvalidates doubles query table event = true := by
  simp only [updateQueriesCheckInvalidate, narrowedCandidates, Finset.mem_filter,
    Finset.mem_union, Option.any_eq_true, or_assoc]
  cases expandLimit queries event <;> simp

end Doubles

end PgCache.Cache.Cdc.Invalidation
