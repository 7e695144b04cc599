/- source: cache/update_query.rs, cache/writer/registration/lifecycle.rs
   digest: The update queries of a relation and the bookkeeping kept beside them. -/
import PgCache.Query.Constraints.Extract
import PgCache.Query.Containment
import PgCache.Query.Predicate
import Mathlib.Data.Finset.Basic

set_option autoImplicit false

namespace PgCache.Cache.Maintenance

open Catalog Data.Keyed Query.Resolved.Ast Query.Constraints.Range Query.Constraints.Extract
open Query.Containment Query.Predicate Data.Keyed AList

abbrev Fingerprint := Nat

inductive UpdateEvalStrategy where
  | localEval
  | pgEval
  deriving DecidableEq

structure OrderByKey where
  column : String
  descending : Bool
  nullsFirst : Bool
  deriving DecidableEq

structure ColumnChange where
  changed : Bool
  oldLessThanNew : Option Bool
  oldIsNull : Bool
  deriving DecidableEq

/-- `RowChanges`: what the cached row under the new key tells about each column. -/
abbrev RowChanges := KeyedMap String ColumnChange

structure UpdateQuery where
  fingerprint : Fingerprint
  resolved : ResolvedQueryExpr
  source : UpdateQuerySource
  constraints : QueryConstraints
  hasLimit : Bool
  evalStrategy : UpdateEvalStrategy
  limitWindowColumns : List String
  orderByKeys : Option (List OrderByKey)
  changeDependent : Bool
  predicateColumns : List String
  isSingleTable : Bool
  compiledWhere : Option CompiledPredicate

namespace UpdateQuery

/-- Sources that a row image alone cannot keep: a subquery, or a joined optional side that
other predicates read. -/
def isAlways (query : UpdateQuery) : Bool :=
  match query.source with
  | .subquery _ | .outerJoinOptional => true
  | .fromClause | .outerJoinTerminal => false

def isLimitFrom (query : UpdateQuery) : Bool :=
  query.hasLimit && query.source = .fromClause

def updateInvalidationPossible (query : UpdateQuery) (tableName : String) : Bool :=
  query.isAlways ||
    (query.source = .fromClause && query.hasLimit && !query.limitWindowColumns.isEmpty) ||
    !(query.constraints.tableJoinColumns tableName).isEmpty ||
    (query.source = .fromClause && !query.isSingleTable)

end UpdateQuery

structure UpdateQueries where
  relationOid : Oid
  queries : KeyedMap Fingerprint UpdateQuery
  subsumption : ConstraintIndex Fingerprint
  evalIndex : ConstraintIndex Fingerprint
  alwaysCheck : Finset Fingerprint
  hasLimitFrom : Finset Fingerprint
  limitPredicateColumns : KeyedMap String Nat
  limitOrderColumns : KeyedMap String Nat
  epoch : Nat
  changeDependentCount : Nat

namespace UpdateQueries

def new (relationOid : Oid) : UpdateQueries :=
  ⟨relationOid, ∅, .empty, .empty, ∅, ∅, ∅, ∅, 0, 0⟩

def columnRefcountsAccount (counts : KeyedMap String Nat) (columns : List String)
    (added : Bool) : KeyedMap String Nat :=
  columns.foldl (fun counts column =>
    if added then modify column 0 (· + 1) counts
    else retain (fun column' n =>
      if column' = column then (if n ≤ 1 then none else some (n - 1)) else some n) counts) counts

def carveoutSet (set : Finset Fingerprint) (fp : Fingerprint) (added : Bool) : Finset Fingerprint :=
  if added then insert fp set else set.erase fp

variable (qs : UpdateQueries) (fp : Fingerprint)

def carveoutAccount (query : UpdateQuery) (added : Bool) : UpdateQueries :=
  { qs with
    alwaysCheck :=
      if query.isAlways then carveoutSet qs.alwaysCheck fp added else qs.alwaysCheck
    hasLimitFrom :=
      if query.isLimitFrom then carveoutSet qs.hasLimitFrom fp added
      else qs.hasLimitFrom
    limitPredicateColumns :=
      if query.isLimitFrom then
        columnRefcountsAccount qs.limitPredicateColumns query.predicateColumns added
      else qs.limitPredicateColumns
    limitOrderColumns :=
      if query.isLimitFrom then
        columnRefcountsAccount qs.limitOrderColumns
          ((query.orderByKeys.getD []).map OrderByKey.column) added
      else qs.limitOrderColumns }

def changeDependentAccount (changeDependent added : Bool) : UpdateQueries :=
  { qs with
    changeDependentCount :=
      if !changeDependent then qs.changeDependentCount
      else if added then qs.changeDependentCount + 1
      else qs.changeDependentCount - 1 }

def unaccount (query : UpdateQuery) : UpdateQueries :=
  { (qs.changeDependentAccount query.changeDependent false).carveoutAccount fp query false
    with queries := qs.queries.erase fp }

def clear : UpdateQueries :=
  match qs.queries.lookup fp with
  | some prev => qs.unaccount fp prev
  | none => qs

/-- `UpdateQueries::query_insert`. A query already there under the fingerprint is replaced. -/
def queryInsert (query : UpdateQuery) : UpdateQueries :=
  let fp := query.fingerprint
  let cleared := qs.clear fp
  { (cleared.changeDependentAccount query.changeDependent true).carveoutAccount fp query true with
    queries := cleared.queries.insert fp query
    epoch := qs.epoch + 1 }

def queryRemove : UpdateQueries :=
  { qs.clear fp with
    epoch := if (qs.queries.lookup fp).isSome then qs.epoch + 1 else qs.epoch }

def limitPredicateChanged (rowChanges : RowChanges) : Bool :=
  any (fun column change =>
    change.changed && (qs.limitPredicateColumns.lookup column).isSome) rowChanges

def needsChangeEval : Bool :=
  qs.changeDependentCount > 0

/-- `subsumption_limit_reindex` on one relation: the `has_limit` bit is set in place, and the
query leaves or enters the subsumption index. -/
def subsumptionLimitReindex (tableName : String) (fp : Fingerprint)
    (hasLimit : Bool) : UpdateQueries :=
  match qs.queries.lookup fp with
  | none => if hasLimit then { qs with subsumption := qs.subsumption.remove fp }
      else qs
  | some query =>
    let updated := { qs with queries := qs.queries.insert fp { query with hasLimit } }
    if hasLimit then { updated with subsumption := updated.subsumption.remove fp }
    else if query.constraints.whereAnalysisComplete then
      { updated with
        subsumption := updated.subsumption.insert fp
          ((query.constraints.tableConstraints.lookup tableName).getD []) }
    else updated

/-- What `update_queries_register` does with one table admission. -/
def register (query : UpdateQuery)
    (indexConstraints : List TableConstraint) (subsumerEligible : Bool) : UpdateQueries :=
  let qs := qs.queryInsert query
  { qs with
    subsumption :=
      if subsumerEligible then qs.subsumption.insert query.fingerprint indexConstraints
      else qs.subsumption
    evalIndex := qs.evalIndex.insert query.fingerprint indexConstraints }

def evict (fp : Fingerprint) : UpdateQueries :=
  let qs := qs.queryRemove fp
  { qs with
    subsumption := qs.subsumption.remove fp
    evalIndex := qs.evalIndex.remove fp }

def Tracks (test : UpdateQuery → Bool) (set : Finset Fingerprint)
    (qs : KeyedMap Fingerprint UpdateQuery) : Prop :=
  ∀ fp, fp ∈ set ↔ ∃ query, qs.lookup fp = some query ∧ test query = true

section Tracks

variable {test : UpdateQuery → Bool} {set : Finset Fingerprint}
  {qs : KeyedMap Fingerprint UpdateQuery} {fp : Fingerprint} {query : UpdateQuery}

variable (tracks : Tracks test set qs)
include tracks

theorem Tracks.erase (hf : qs.lookup fp = some query) :
    Tracks test (if test query then carveoutSet set fp false else set) (qs.erase fp) := by
  intro fp'
  have hb := tracks fp'
  by_cases same : fp' = fp
  · subst same
    rw [hf] at hb
    simp only [lookup_erase, reduceCtorEq, false_and, exists_false, iff_false]
    split
    · simp [carveoutSet]
    · rename_i o
      rw [hb]
      simpa using o
  · simp only [lookup_erase_ne same, ← hb]
    split <;> simp [carveoutSet, same]

theorem Tracks.insert (ha : qs.lookup fp = none) (query : UpdateQuery) :
    Tracks test (if test query then carveoutSet set fp true else set) (qs.insert fp query) := by
  intro fp'
  have hb := tracks fp'
  by_cases same : fp' = fp
  · subst same
    rw [ha] at hb
    simp only [lookup_insert, Option.some.injEq, exists_eq_left']
    split
    · rename_i passes
      simp [carveoutSet, passes]
    · rename_i o
      rw [hb]
      simpa using o
  · simp only [lookup_insert_ne same, ← hb]
    split <;> simp [carveoutSet, same]

theorem Tracks.replace (hf : qs.lookup fp = some query)
    {replacement : UpdateQuery} (same : test replacement = test query) :
    Tracks test set (qs.insert fp replacement) := by
  intro fp'
  rw [tracks fp']
  by_cases here : fp' = fp
  · subst here
    simp [hf, same]
  · simp [lookup_insert_ne here]

end Tracks

section Counter

variable {qs : UpdateQueries} {fp : Fingerprint} {query : UpdateQuery}

variable (counted : qs.changeDependentCount = count UpdateQuery.changeDependent qs.queries)
include counted

theorem counted_unaccount (hf : qs.queries.lookup fp = some query) :
    (qs.unaccount fp query).changeDependentCount =
      count UpdateQuery.changeDependent (qs.queries.erase fp) := by
  change (if !query.changeDependent then qs.changeDependentCount
    else qs.changeDependentCount - 1) = _
  rw [counted, count_erase UpdateQuery.changeDependent qs.queries fp query hf]
  cases query.changeDependent <;> simp

theorem counted_account (ha : qs.queries.lookup fp = none) :
    (qs.changeDependentAccount query.changeDependent true).changeDependentCount =
      count UpdateQuery.changeDependent (qs.queries.insert fp query) := by
  change (if !query.changeDependent then qs.changeDependentCount
    else qs.changeDependentCount + 1) = _
  rw [counted, count_insert, erase_of_absent _ _ ha]
  cases query.changeDependent <;> simp

end Counter

structure Bookkept (tableName : String) (qs : UpdateQueries) : Prop where
  always : ∀ fp, fp ∈ qs.alwaysCheck ↔
    ∃ query, qs.queries.lookup fp = some query ∧ query.isAlways = true
  counted : qs.changeDependentCount = count UpdateQuery.changeDependent qs.queries
  flagged : ∀ fp query, qs.queries.lookup fp = some query →
    (query.isAlways = true ∨ query.constraints.tableJoinColumns tableName ≠ [] ∨
      query.source = .fromClause ∧ query.isSingleTable = false) →
    query.changeDependent = true

theorem bookkept_new (tableName : String) (oid : Oid) : Bookkept tableName (new oid) where
  always := by simp [new]
  counted := rfl
  flagged := by simp [new]

variable {tableName : String} {qs : UpdateQueries} {query : UpdateQuery}

private theorem bookkept_unaccount (bookkept : Bookkept tableName qs)
    {fp : Fingerprint} (found : qs.queries.lookup fp = some query) :
    Bookkept tableName (qs.unaccount fp query) where
  always := Tracks.erase bookkept.always found
  counted := counted_unaccount bookkept.counted found
  flagged fp' query' found' := by
    apply bookkept.flagged fp'
    by_cases same : fp' = fp
    · subst same
      simp [unaccount] at found'
    · rwa [unaccount, lookup_erase_ne same] at found'

private theorem bookkept_account (bookkept : Bookkept tableName qs)
    (ha : qs.queries.lookup query.fingerprint = none)
    (flag : query.changeDependent = query.updateInvalidationPossible tableName) (epoch : Nat) :
    Bookkept tableName { (qs.changeDependentAccount query.changeDependent true).carveoutAccount
          query.fingerprint query true with
        queries := qs.queries.insert query.fingerprint query, epoch } where
  always := Tracks.insert bookkept.always ha query
  counted := counted_account bookkept.counted ha
  flagged fp' query' found' possible := by
    by_cases same : fp' = query.fingerprint
    · subst same
      rw [lookup_insert, Option.some.injEq] at found'
      subst found'
      rw [flag]
      rcases possible with always | joined | ⟨fromClause, multi⟩
      · simp [UpdateQuery.updateInvalidationPossible, always]
      · have hne : (query.constraints.tableJoinColumns tableName).isEmpty = false := by
          simpa using joined
        simp [UpdateQuery.updateInvalidationPossible, hne]
      · simp [UpdateQuery.updateInvalidationPossible, fromClause, multi]
    · rw [lookup_insert_ne same] at found'
      exact bookkept.flagged fp' query' found' possible

private theorem bookkept_clear (bookkept : Bookkept tableName qs)
    (fp : Fingerprint) : Bookkept tableName (qs.clear fp) := by
  unfold clear
  split
  · rename_i prev hf
    exact bookkept_unaccount bookkept hf
  · exact bookkept

theorem lookup_clear (qs : UpdateQueries) (fp fp' : Fingerprint) :
    (qs.clear fp).queries.lookup fp' = if fp' = fp then none else qs.queries.lookup fp' := by
  unfold clear
  split
  · split
    · rename_i same
      rw [same, unaccount, lookup_erase]
    · rename_i hne
      rw [unaccount, lookup_erase_ne hne]
  · rename_i ha
    split
    · rename_i same
      rw [same, ha]
    · rfl

theorem bookkept_queryInsert (bookkept : Bookkept tableName qs)
    (flag : query.changeDependent = query.updateInvalidationPossible tableName) :
    Bookkept tableName (qs.queryInsert query) :=
  bookkept_account (bookkept_clear bookkept query.fingerprint)
    (by rw [lookup_clear, if_pos rfl]) flag (qs.epoch + 1)

theorem bookkept_queryRemove (bookkept : Bookkept tableName qs)
    (fp : Fingerprint) : Bookkept tableName (qs.queryRemove fp) :=
  have cleared := bookkept_clear bookkept fp
  ⟨cleared.always, cleared.counted, cleared.flagged⟩

private theorem bookkept_limit (bookkept : Bookkept tableName qs)
    {fp : Fingerprint} (found : qs.queries.lookup fp = some query)
    (hasLimit : Bool) :
    Bookkept tableName { qs with queries := qs.queries.insert fp { query with hasLimit } } where
  always := Tracks.replace bookkept.always found rfl
  counted := by
    change qs.changeDependentCount = _
    rw [bookkept.counted, count_insert, count_erase _ qs.queries fp query found]
  flagged fp' query' found' possible := by
    by_cases same : fp' = fp
    · subst same
      rw [lookup_insert, Option.some.injEq] at found'
      subst found'
      exact bookkept.flagged fp' query found possible
    · rw [lookup_insert_ne same] at found'
      exact bookkept.flagged fp' query' found' possible

theorem bookkept_subsumptionLimitReindex
    (bookkept : Bookkept tableName qs) (fp : Fingerprint) (hasLimit : Bool) :
    Bookkept tableName (qs.subsumptionLimitReindex tableName fp hasLimit) := by
  unfold subsumptionLimitReindex
  split
  · split
    · exact ⟨bookkept.always, bookkept.counted, bookkept.flagged⟩
    · exact bookkept
  · rename_i query hf
    have limited := bookkept_limit bookkept hf hasLimit
    split
    · exact ⟨limited.always, limited.counted, limited.flagged⟩
    · split
      · exact ⟨limited.always, limited.counted, limited.flagged⟩
      · exact limited

end UpdateQueries

inductive Registration (tableName : String) where
  | register (query : UpdateQuery) (indexConstraints : List TableConstraint)
      (subsumerEligible : Bool)
      (flag : query.changeDependent = query.updateInvalidationPossible tableName)
  | evict (fp : Fingerprint)
  | limit (fp : Fingerprint) (hasLimit : Bool)

namespace Registration

def apply {tableName : String} (qs : UpdateQueries) : Registration tableName → UpdateQueries
  | .register query indexConstraints subsumerEligible _ =>
    qs.register query indexConstraints subsumerEligible
  | .evict fp => qs.evict fp
  | .limit fp hasLimit => qs.subsumptionLimitReindex tableName fp hasLimit

def run {tableName : String} (relationOid : Oid) (history : List (Registration tableName)) :
    UpdateQueries :=
  history.foldl apply (.new relationOid)

theorem bookkept_apply {tableName : String} {qs : UpdateQueries}
    (bookkept : qs.Bookkept tableName) (step : Registration tableName) :
    (apply qs step).Bookkept tableName := by
  cases step with
  | register query indexConstraints subsumerEligible flag =>
    have hi := UpdateQueries.bookkept_queryInsert bookkept flag
    exact ⟨hi.always, hi.counted, hi.flagged⟩
  | evict fp =>
    have removed := UpdateQueries.bookkept_queryRemove bookkept fp
    exact ⟨removed.always, removed.counted, removed.flagged⟩
  | limit fp hasLimit => exact UpdateQueries.bookkept_subsumptionLimitReindex bookkept fp hasLimit

theorem bookkept_run {tableName : String} (oid : Oid) (history : List (Registration tableName)) :
    (run oid history).Bookkept tableName := by
  suffices ∀ qs : UpdateQueries, qs.Bookkept tableName →
      (history.foldl apply qs).Bookkept tableName from
    this _ (UpdateQueries.bookkept_new tableName oid)
  induction history with
  | nil => exact fun _ bookkept => bookkept
  | cons step history ih => exact fun qs bookkept => ih _ (bookkept_apply bookkept step)

end Registration

end PgCache.Cache.Maintenance
