/- source: cache/update_query.rs, cache/writer/cdc/invalidation.rs
   digest: The carve-out sets follow the stored queries through every insertion and removal, and
     with them the narrowed check invalidates what a check of every stored query would. -/
import PgCache.Cache.Cdc.Invalidation

set_option autoImplicit false

namespace PgCache.Cache.Cdc.Narrowing

open Catalog Data.Keyed Query.Evaluate Maintenance Maintenance.UpdateQueries Invalidation Data.Keyed
open UpdateQuery

/-! ### Reference counts of columns -/

def positive (n : Nat) : Option Nat :=
  if n = 0 then none else some n

variable {counts : KeyedMap String Nat}

theorem lookup_columnRefcountsAccount_added {sum : String → Nat}
    (exact_ : ∀ c, counts.lookup c = positive (sum c)) (cols : List String)
    (c : String) :
    (columnRefcountsAccount counts cols true).lookup c = positive (sum c + cols.count c) := by
  unfold columnRefcountsAccount
  simp only [if_true]
  induction cols generalizing counts sum with
  | nil => exact exact_ c
  | cons first cols ih =>
    have counted : ∀ o, (modify first 0 (· + 1) counts).lookup o =
        positive (sum o + if first = o then 1 else 0) := by
      intro o
      rw [lookup_modify, exact_ first]
      split
      case isTrue same =>
        subst same
        unfold positive
        split <;> simp_all
      case isFalse different => simpa [Ne.symm different] using exact_ o
    rw [List.foldl_cons, ih counted, List.count_cons, Nat.add_right_comm, Nat.add_assoc]
    simp

theorem lookup_columnRefcountsAccount_removed {cols : List String} {sum : String → Nat}
    (exact_ : ∀ c, counts.lookup c = positive (sum c + cols.count c))
    (c : String) :
    (columnRefcountsAccount counts cols false).lookup c = positive (sum c) := by
  unfold columnRefcountsAccount
  simp only [Bool.false_eq_true, if_false]
  induction cols generalizing counts sum with
  | nil => exact exact_ c
  | cons first cols ih =>
    rw [List.foldl_cons]
    refine ih fun o => ?_
    apply Option.ext
    intro n
    rw [lookup_retain, exact_ o, List.count_cons]
    by_cases same : o = first
    · subst same
      rw [← Nat.add_assoc]
      generalize sum o + cols.count o = rest
      cases rest <;> simp [positive]
    · simp [same, Ne.symm same]

def windowCount (columnsOf : UpdateQuery → List String) (column : String) (query : UpdateQuery) :
    Nat :=
  if query.isLimitFrom then (columnsOf query).count column else 0

def Refcounts (columnsOf : UpdateQuery → List String) (counts : KeyedMap String Nat)
    (qs : KeyedMap Fingerprint UpdateQuery) : Prop :=
  ∀ column, counts.lookup column = positive (total (windowCount columnsOf column) qs)

section Refcounts

variable {columnsOf : UpdateQuery → List String} {counts : KeyedMap String Nat}
  {qs : KeyedMap Fingerprint UpdateQuery} {fp : Fingerprint} {query : UpdateQuery}

theorem Refcounts.erase (refcounts : Refcounts columnsOf counts qs)
    (hf : qs.lookup fp = some query) :
    Refcounts columnsOf (if query.isLimitFrom then
      columnRefcountsAccount counts (columnsOf query) false else counts) (qs.erase fp) := by
  intro c
  have counted : ∀ c, counts.lookup c = positive (total (windowCount columnsOf c) (qs.erase fp) +
        windowCount columnsOf c query) := fun c => by
    rw [refcounts c, total_erase _ _ fp query hf]
  split
  case isTrue limited =>
    simp only [windowCount, limited, if_true] at counted
    exact lookup_columnRefcountsAccount_removed counted c
  case isFalse unlimited => simpa [windowCount, unlimited] using counted c

theorem Refcounts.insert (refcounts : Refcounts columnsOf counts qs)
    (ha : qs.lookup fp = none) (query : UpdateQuery) :
    Refcounts columnsOf (if query.isLimitFrom then
      columnRefcountsAccount counts (columnsOf query) true else counts)
      (qs.insert fp query) := by
  intro c
  rw [total_insert, erase_of_absent _ _ ha]
  split
  case isTrue limited =>
    rw [lookup_columnRefcountsAccount_added refcounts, windowCount, if_pos limited]
  case isFalse unlimited => rw [refcounts c, windowCount, if_neg unlimited, Nat.add_zero]

end Refcounts

def orderColumns (query : UpdateQuery) : List String :=
  (query.orderByKeys.getD []).map OrderByKey.column

structure Accounted (qs : UpdateQueries) : Prop where
  always : Tracks isAlways qs.alwaysCheck qs.queries
  limits : Tracks isLimitFrom qs.hasLimitFrom qs.queries
  predicates : Refcounts predicateColumns qs.limitPredicateColumns qs.queries
  orders : Refcounts orderColumns qs.limitOrderColumns qs.queries
  changes : qs.changeDependentCount = count changeDependent qs.queries

theorem accounted_new (oid : Oid) : Accounted (.new oid) := by
  constructor <;> simp [Tracks, Refcounts, UpdateQueries.new, positive, total, count]

section Accounts

variable {qs : UpdateQueries}

variable (accounted : Accounted qs)
include accounted

private theorem accounted_clear (fp : Fingerprint) : Accounted (qs.clear fp) := by
  unfold clear
  split
  case h_1 prev found =>
    exact ⟨accounted.always.erase found, accounted.limits.erase found,
      accounted.predicates.erase found, accounted.orders.erase found,
      counted_unaccount accounted.changes found⟩
  case h_2 => exact accounted

theorem accounted_queryInsert (query : UpdateQuery) : Accounted (qs.queryInsert query) := by
  have cleared := accounted_clear accounted query.fingerprint
  have ha : (qs.clear query.fingerprint).queries.lookup query.fingerprint = none := by
    rw [lookup_clear, if_pos rfl]
  exact ⟨cleared.always.insert ha query, cleared.limits.insert ha query,
    cleared.predicates.insert ha query, cleared.orders.insert ha query,
    counted_account cleared.changes ha⟩

theorem accounted_queryRemove (fp : Fingerprint) : Accounted (qs.queryRemove fp) :=
  { accounted_clear accounted fp with }

end Accounts

/-! ### Histories of insertions and removals -/

inductive Edit where
  | insert (query : UpdateQuery) (columns : query.predicateColumns.Nodup)
  | remove (fp : Fingerprint)

def Edit.apply (qs : UpdateQueries) : Edit → UpdateQueries
  | .insert query _ => qs.queryInsert query
  | .remove fp => qs.queryRemove fp

def edited (relationOid : Oid) (history : List Edit) : UpdateQueries :=
  history.foldl Edit.apply (.new relationOid)

def windowReads (column : String) (query : UpdateQuery) : Bool :=
  query.isLimitFrom && column ∈ query.predicateColumns

structure Carved (qs : UpdateQueries) : Prop where
  always : Tracks isAlways qs.alwaysCheck qs.queries
  limits : Tracks isLimitFrom qs.hasLimitFrom qs.queries
  columns : ∀ column, qs.limitPredicateColumns.lookup column =
    positive (count (windowReads column) qs.queries)
  distinct : ∀ fp query, qs.queries.lookup fp = some query → query.predicateColumns.Nodup

theorem accounted_edited (oid : Oid) (history : List Edit) :
    Accounted (edited oid history) ∧ ∀ fp query,
      (edited oid history).queries.lookup fp = some query → query.predicateColumns.Nodup := by
  suffices run : ∀ qs, (Accounted qs ∧ ∀ fp query,
      qs.queries.lookup fp = some query → query.predicateColumns.Nodup) →
      Accounted (history.foldl Edit.apply qs) ∧ ∀ fp query,
        (history.foldl Edit.apply qs).queries.lookup fp = some query →
          query.predicateColumns.Nodup from
    run _ ⟨accounted_new oid, by simp [UpdateQueries.new]⟩
  induction history with
  | nil => exact fun _ kept => kept
  | cons edit history ih =>
    rintro qs ⟨accounted, distinct⟩
    refine ih _ ?_
    cases edit with
    | insert query cols =>
      refine ⟨accounted_queryInsert accounted query, fun fp stored hf => ?_⟩
      by_cases same : fp = query.fingerprint
      · subst same
        rw [Edit.apply, queryInsert, AList.lookup_insert] at hf
        cases hf
        exact cols
      · rw [Edit.apply, queryInsert, AList.lookup_insert_ne same, lookup_clear, if_neg same] at hf
        exact distinct fp stored hf
    | remove fp =>
      refine ⟨accounted_queryRemove accounted fp, fun fp' stored hf => ?_⟩
      rw [Edit.apply, queryRemove, lookup_clear] at hf
      exact distinct fp' stored (Option.ite_none_left_eq_some.mp hf).2

theorem carved_edited (oid : Oid) (history : List Edit) : Carved (edited oid history) := by
  obtain ⟨accounted, distinct⟩ := accounted_edited oid history
  refine ⟨accounted.always, accounted.limits, fun c => ?_, distinct⟩
  rw [accounted.predicates c, count_eq_total]
  refine congrArg positive (total_congr fun fp query hf => ?_)
  rw [windowCount, (distinct fp query hf).count]
  cases limited : query.isLimitFrom <;> simp [windowReads, limited]

/-! ### Every way a check fires is covered -/

/-- The row event of a replication message: a DELETE has no cached row to compare with. -/
def FromMessage (event : RowEvent) : Prop :=
  event.operation = .delete → event.rowChanges = none

section Coverage

variable {doubles : Doubles} {qs : UpdateQueries} {table : TableMetadata} {event : RowEvent}
  {fp : Fingerprint} {query : UpdateQuery} {candidates : Finset Fingerprint}

theorem limitPredicateChanged_of_stored (carved : Carved qs)
    (stored : qs.queries.lookup fp = some query) (windowed : query.isLimitFrom = true)
    {rowChanges : RowChanges} (moved : columnsChanged query.predicateColumns rowChanges = true) :
    qs.limitPredicateChanged rowChanges = true := by
  obtain ⟨c, hl, changes⟩ := List.any_eq_true.mp moved
  obtain ⟨change, hf, changed⟩ := (Option.any_eq_true _ _).mp changes
  have counted : 0 < count (windowReads c) qs.queries :=
    (count_pos_iff _ _).mpr ⟨fp, query, stored, by simp [windowReads, windowed, hl]⟩
  refine (any_iff _ _).mpr ⟨c, change, hf, ?_⟩
  rw [carved.columns c, positive, if_neg (by omega), changed]
  rfl

theorem rowConstraintsMatch_of_relevant (relevant : rowRelevant doubles query table event = true) :
    rowConstraintsMatch doubles query.constraints table event.rowData = true := by
  unfold rowRelevant at relevant
  split at relevant
  case isTrue => exact relevant
  case isFalse unconstrained =>
    have ha : query.constraints.tableConstraints.lookup table.name = none := by
      simpa using unconstrained
    simp [rowConstraintsMatch, ha]

theorem covered_of_invalidates (carved : Carved qs) (message : FromMessage event)
    (stored : qs.queries.lookup fp = some query)
    (invalidates : queryRowInvalidates doubles query table event = true) :
    fp ∈ qs.alwaysCheck ∨ (expandLimit qs event = true ∧ fp ∈ qs.hasLimitFrom) ∨
      event.operation = .upsert ∧
        rowConstraintsMatch doubles query.constraints table event.rowData = true := by
  by_cases always : query.isAlways = true
  · exact .inl ((carved.always fp).mpr ⟨query, stored, always⟩)
  refine .inr ?_
  have limitFrom (windowed : query.isLimitFrom = true) : fp ∈ qs.hasLimitFrom :=
    (carved.limits fp).mpr ⟨query, stored, windowed⟩
  unfold queryRowInvalidates at invalidates
  cases changes : event.rowChanges with
  | some rowChanges =>
    have upsert : event.operation = .upsert := by
      cases operation : event.operation with
      | upsert => rfl
      | delete => cases (message operation).symm.trans changes
    rw [changes] at invalidates
    simp only [rowCachedInvalidates, always, Bool.or_eq_true, Bool.and_eq_true,
      Bool.false_eq_true, false_or] at invalidates
    rcases invalidates with moved | ⟨-, accepted⟩
    · unfold limitWindowMoveInvalidates at moved
      split at moved
      case isTrue => cases moved
      case isFalse window =>
        have windowed : query.isLimitFrom = true := by
          simp only [Bool.or_eq_true, not_or] at window
          simpa using window.1
        split at moved
        case isTrue predicate =>
          refine .inl ⟨?_, limitFrom windowed⟩
          simp only [expandLimit, upsert, changes]
          exact limitPredicateChanged_of_stored carved stored windowed predicate
        case isFalse =>
          exact .inr ⟨upsert, (Bool.and_eq_true_iff.mp moved).1⟩
    · exact .inr ⟨upsert, accepted⟩
  | none =>
    rw [changes] at invalidates
    unfold rowUncachedInvalidates at invalidates
    cases source : query.source with
    | fromClause =>
      simp only [source, fromClauseUncachedInvalidates] at invalidates
      split at invalidates
      case isTrue deletion =>
        refine .inl ⟨?_, limitFrom (by simp [isLimitFrom, source, invalidates])⟩
        simp [expandLimit, deletion]
      case isFalse written =>
        have upsert : event.operation = .upsert := by
          cases operation : event.operation with
          | upsert => rfl
          | delete => exact absurd operation written
        exact .inr ⟨upsert, rowConstraintsMatch_of_relevant (Bool.and_eq_true_iff.mp invalidates).2⟩
    | subquery kind => simp [isAlways, source] at always
    | outerJoinTerminal => simp [source] at invalidates
    | outerJoinOptional => simp [isAlways, source] at always

end Coverage

def checkEvery (doubles : Doubles) (qs : UpdateQueries) (table : TableMetadata)
    (event : RowEvent) : Finset Fingerprint :=
  qs.queries.keys.toFinset.filter fun fp =>
    (qs.queries.lookup fp).any fun query => queryRowInvalidates doubles query table event

/-- `update_queries_check_invalidate` finds what a check of every stored query finds, whatever
insertions and removals led to them, when the candidates of an INSERT or UPDATE contain each
query whose constraints accept the row. -/
theorem narrowed_check_exact (doubles : Doubles) (relationOid : Oid) (history : List Edit)
    (table : TableMetadata) (event : RowEvent) (message : FromMessage event)
    (candidates : Finset Fingerprint)
    (complete : event.operation = .upsert → ∀ fp query,
      (edited relationOid history).queries.lookup fp = some query →
      rowConstraintsMatch doubles query.constraints table event.rowData = true →
      fp ∈ candidates) :
    updateQueriesCheckInvalidate doubles (edited relationOid history) table event candidates =
      checkEvery doubles (edited relationOid history) table event := by
  ext fp
  rw [mem_updateQueriesCheckInvalidate]
  simp only [checkEvery, Finset.mem_filter, List.mem_toFinset, Option.any_eq_true]
  constructor
  · rintro ⟨-, query, stored, invalidates⟩
    exact ⟨AList.lookup_isSome.mp (by simp [stored]), query, stored, invalidates⟩
  · rintro ⟨-, query, stored, invalidates⟩
    refine ⟨?_, query, stored, invalidates⟩
    rcases covered_of_invalidates (carved_edited relationOid history) message stored invalidates
      with always | widened | ⟨upsert, accepted⟩
    · exact .inr (.inl always)
    · exact .inr (.inr widened)
    · exact .inl (complete upsert fp query stored accepted)

section Visits

private def visitsTable : TableMetadata where
  relationOid := 16500
  name := "visits"
  schema := "public"
  primaryKeyColumns := ["id"]
  columns := ⟨[⟨"id", 1, .int4, true⟩, ⟨"day", 2, .int4, false⟩], by decide⟩
  replicaIdentityFull := false

private def visitsDoubles : Doubles := ⟨fun _ => none, fun _ _ => none⟩

-- a query on `visits` with a condition on `day`, or none
private def visitsQuery (fingerprint : Fingerprint)
    (source : PgCache.Query.Resolved.Ast.UpdateQuerySource)
    (onTable : KeyedMap String (List PgCache.Query.Constraints.Range.TableConstraint))
    (hasLimit : Bool) : UpdateQuery where
  fingerprint := fingerprint
  resolved := ⟨.values [], [], none⟩
  source := source
  constraints := ⟨[], [], onTable, true⟩
  hasLimit := hasLimit
  evalStrategy := .localEval
  limitWindowColumns := if hasLimit then ["day"] else []
  orderByKeys := none
  changeDependent := true
  predicateColumns := ["day"]
  isSingleTable := true
  compiledWhere := none

private def visitsHistory : List Edit :=
  let onFifth : KeyedMap String (List PgCache.Query.Constraints.Range.TableConstraint) :=
    AList.insert "visits" [.comparison "day" .equal (.integer 5)] ∅
  [.insert (visitsQuery 1 .fromClause ∅ false) (by decide),
    .insert (visitsQuery 2 .fromClause onFifth true) (by decide),
    .insert (visitsQuery 2 .fromClause onFifth true) (by decide),
    .insert (visitsQuery 3 (.subquery .scalar) onFifth false) (by decide), .remove 9]

-- UPDATE visits SET day = 7 WHERE id = 1, on a cached row
private def visitsMoved : RowEvent where
  rowData := [some "1", some "7"]
  keyData := some []
  operation := .upsert
  rowChanges := some (AList.insert "day" ⟨true, some true, false⟩ ∅)

theorem visits_move_checked :
    updateQueriesCheckInvalidate visitsDoubles (edited 16500 visitsHistory) visitsTable visitsMoved
        {1} = checkEvery visitsDoubles (edited 16500 visitsHistory) visitsTable visitsMoved ∧
      checkEvery visitsDoubles (edited 16500 visitsHistory) visitsTable visitsMoved = {2, 3} := by
  refine ⟨narrowed_check_exact visitsDoubles 16500 visitsHistory visitsTable visitsMoved ?_ {1} ?_,
    by decide +kernel⟩
  · intro deletion
    cases deletion
  · have accepting : all (fun fp query =>
        !rowConstraintsMatch visitsDoubles query.constraints visitsTable visitsMoved.rowData ||
          fp ∈ ({1} : Finset Fingerprint)) (edited 16500 visitsHistory).queries = true := by
      decide +kernel
    intro _ fp query stored accepted
    have listed := (all_iff _ _).mp accepting fp query stored
    simpa [accepted] using listed

end Visits

end PgCache.Cache.Cdc.Narrowing
