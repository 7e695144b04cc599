/- source: cache/writer/cdc/apply.rs, cache/writer/cdc/invalidation.rs
   digest: An update that changes the key against a delete of the old row and an insert of the
     new one. -/
import PgCache.Cache.Cdc.Apply

set_option autoImplicit false

namespace PgCache.Cache.Cdc.KeyChange

open Catalog Query.Evaluate Query.Resolved.Ast Query.Constraints.Extract
open Maintenance Invalidation Apply List Option

section CacheTables

abbrev CachedRow := String → Option String

abbrev CacheTables := Oid → List CachedRow

variable (same : String → String → String → Bool)

/-- Key equality as the database decides it: by the column type's own equality, never on NULL. -/
def agrees (column : String) : Option String → Option String → Bool
  | some text, some text' => same column text text'
  | _, _ => false

def hasKey (key : List (String × Option String)) (row : CachedRow) : Bool :=
  key.all fun entry => agrees same entry.1 (row entry.1) entry.2

variable (values : List (String × Option String)) {table : TableMetadata}

def conflictKey (conflict : List String) : List (String × Option String) :=
  conflict.map fun column => (column, (values.lookup column).join)

/-- `DO UPDATE SET` on every value outside the conflict target. -/
def overwrite (conflict : List String) (row : CachedRow) : CachedRow :=
  fun column => if column ∈ conflict then row column else (values.lookup column).getD (row column)

def upsertRows (conflict : List String) (rows : List CachedRow) : List CachedRow :=
  if rows.any (hasKey same (conflictKey values conflict)) then
    rows.map fun row =>
      if hasKey same (conflictKey values conflict) row then overwrite values conflict row else row
  else rows ++ [fun column => (values.lookup column).join]

def execute (tables : CacheTables) : CacheStatement → CacheTables
  | .upsert oid values conflict =>
    Function.update tables oid (upsertRows same values conflict (tables oid))
  | .delete oid key =>
    Function.update tables oid ((tables oid).filter fun row => !hasKey same key row)

def Current (table : TableMetadata) (newRow : RowData) (row : CachedRow) : Prop :=
  ∀ column value, (rowColumns table newRow).lookup column = some value →
    column ∉ table.primaryKeyColumns → row column = value

def Clean (table : TableMetadata) (update : RelationUpdate) (rows : List CachedRow) : Prop :=
  ∀ row ∈ rows, hasKey same (pkValues table update.keyData) row = false ∧
    (hasKey same (pkValues table update.newRowData) row = true →
      Current table update.newRowData row)

theorem lookup_filterMap_columns (row : RowData) (name : String) :
    ∀ columns : List ColumnMetadata, (columns.map ColumnMetadata.name).Nodup →
      lookup name (columns.filterMap fun column =>
        row[column.index]?.map fun value => (column.name, value)) =
        (columns.find? fun column => column.name = name).bind fun column => row[column.index]?
  | [], _ => rfl
  | column :: columns, nodup => by
    rw [map_cons, nodup_cons] at nodup
    have rest := lookup_filterMap_columns row name columns nodup.2
    by_cases equal : column.name = name
    · subst equal
      have absent : columns.find? (fun other => other.name = column.name) = none := by
        rw [find?_eq_none]
        intro other inside same
        exact nodup.1 (mem_map.mpr ⟨other, inside, by simpa using same⟩)
      rw [absent] at rest
      cases value : row[column.index]? with
      | none => simp [value, rest]
      | some text => simp [value]
    · have different : (name == column.name) = false := by simpa using Ne.symm equal
      cases value : row[column.index]? with
      | none => simpa [value, equal] using rest
      | some text => simpa [value, equal, lookup_cons, different] using rest

theorem lookup_rowColumns (table : TableMetadata) (row : RowData) (name : String) :
    (rowColumns table row).lookup name = (table.columns.get name).bind fun c => row[c.index]? :=
  lookup_filterMap_columns row name table.columns.sorted table.columns.nodup

theorem conflictKey_rowColumns {row : RowData} (carries : CarriesKey table row) :
    conflictKey (rowColumns table row) table.primaryKeyColumns = pkValues table row := by
  unfold conflictKey pkValues
  rw [← filterMap_eq_map']
  apply filterMap_congr
  intro pk hm
  obtain ⟨c, text, found, v⟩ := carries.carried pk hm
  simp [lookup_rowColumns, found, v]

variable {same}

theorem current_of_mem_upsertRows {newRow : RowData}
    (carries : CarriesKey table newRow) {rows : List CachedRow} {row : CachedRow}
    (hm : row ∈ upsertRows same (rowColumns table newRow) table.primaryKeyColumns rows)
    (under : hasKey same (pkValues table newRow) row = true) : Current table newRow row := by
  rw [← conflictKey_rowColumns carries] at under
  unfold upsertRows at hm
  split at hm
  · obtain ⟨old, -, updated⟩ := mem_map.mp hm
    split at updated
    · subst updated
      intro c v stored o
      simp [overwrite, o, stored]
    · rename_i apart
      exact absurd (updated ▸ under) apart
  · rename_i ha
    rcases mem_append.mp hm with old | new
    · exact absurd (any_eq_true.mpr ⟨row, old, under⟩) ha
    · rw [mem_singleton.mp new]
      intro c v stored _
      simp [stored]

theorem clean_execute {update : RelationUpdate} {write : Write}
    (carries : CarriesKey table update.newRowData) (written : write ≠ .keep)
    (tables : CacheTables) :
    Clean same table update ((write.statements table update.newRowData ++
      Write.drop.statements table update.keyData).foldl (execute same) tables
        table.relationOid) := by
  intro row hm
  cases write with
  | keep => exact absurd rfl written
  | put =>
    simp only [Write.statements, cons_append, nil_append, foldl_cons,
      foldl_nil, cacheUpsertUnconditionalInto, execute, Function.update_self,
      mem_filter, Bool.not_eq_true'] at hm
    exact ⟨hm.2, current_of_mem_upsertRows carries hm.1⟩
  | drop =>
    simp only [Write.statements, cons_append, nil_append, foldl_cons,
      foldl_nil, execute, Function.update_self, mem_filter, Bool.not_eq_true'] at hm
    refine ⟨hm.2, fun under => ?_⟩
    rw [hm.1.2] at under
    cases under

end CacheTables

/-- The update queries of every relation come from a history of registrations. -/
def Reachable (core : WriterCore) : Prop :=
  ∀ relationOid queries, core.updateQueries.lookup relationOid = some queries →
    ∃ table, core.tables.lookup relationOid = some table ∧
      ∃ history : List (Registration table.name), queries = Registration.run relationOid history

def KeyDiffers (table : TableMetadata) (update : RelationUpdate) : Prop :=
  ∃ pk ∈ table.primaryKeyColumns, ∃ column, table.columns.get pk = some column ∧
    update.keyData[column.index]? ≠ update.newRowData[column.index]?

theorem updatePkChanged_of_keyDiffers {table : TableMetadata} {update : RelationUpdate}
    (hne : update.keyData ≠ []) (differs : KeyDiffers table update) :
    updatePkChanged table update.keyData update.newRowData = true := by
  obtain ⟨pk, hm, c, found, different⟩ := differs
  have hp : update.keyData.isEmpty = false := by simpa using hne
  unfold updatePkChanged
  rw [hp]
  cases table.replicaIdentityFull with
  | false => rfl
  | true =>
    refine any_eq_true.mpr ⟨pk, hm, ?_⟩
    simp [found, different]

section Coverage

variable (doubles : Doubles)

/-- When an update of the key does for one query what the delete and the insert would.
`rowChanges` is what the lookup under the new key found. -/
def KeyChangeCovered (queries : UpdateQueries) (table : TableMetadata) (update : RelationUpdate)
    (rowChanges : Option RowChanges) (fp : Fingerprint) (query : UpdateQuery) : Prop :=
  let relevantOld := rowRelevant doubles query table (deleteEvent update.keyData) = true
  let relevantNew := rowRelevant doubles query table (insertEvent update.newRowData) = true
  let matchesOld := rowConstraintsMatch doubles query.constraints table update.keyData = true
  let matchesNew := rowConstraintsMatch doubles query.constraints table update.newRowData = true
  let candidate := fp ∈ evalCandidates doubles queries table update.newRowData
  let windowed := fp ∈ queries.hasLimitFrom ∧ query.hasLimit = true
  let joined := candidate ∧ query.isSingleTable = false ∧ relevantNew
  let moved changes := queries.needsChangeEval = true ∧
    limitWindowMoveInvalidates doubles query table update.newRowData changes = true
  let rejoined changes := joinColumnsChanged query table changes = true ∧ matchesNew
  match query.source, rowChanges with
  | .outerJoinTerminal, _ => True
  | .subquery _, some _ => True
  | .outerJoinOptional, some _ => True
  | .subquery kind, none =>
    kind ≠ .inclusion ∧ relevantOld → kind ≠ .exclusion ∧ relevantNew
  | .outerJoinOptional, none => matchesOld → matchesNew
  | .fromClause, none => windowed → joined
  | .fromClause, some changes =>
    windowed ∨ joined →
      (candidate ∨ queries.limitPredicateChanged changes = true ∧ fp ∈ queries.hasLimitFrom) ∧
        (moved changes ∨ rejoined changes)

def KeyChangeAllCovered (core : WriterCore) (table : TableMetadata) (update : RelationUpdate)
    (rowChanges : Option RowChanges) : Prop :=
  ∀ queries, core.updateQueries.lookup update.relationOid = some queries →
    ∀ fp query, queries.queries.lookup fp = some query → fp ∉ core.frameInvalidations →
      KeyChangeCovered doubles queries table update rowChanges fp query

variable {doubles} {queries : UpdateQueries} {table : TableMetadata} {update : RelationUpdate}
  {fp : Fingerprint} {query : UpdateQuery}

variable (bookkept : queries.Bookkept table.name)
include bookkept

variable (found : queries.queries.lookup fp = some query)
include found

theorem mem_check (ev : RowEvent) (candidates : Finset Fingerprint) :
    fp ∈ updateQueriesCheckInvalidate doubles queries table ev candidates ↔
      (fp ∈ candidates ∨ query.isAlways = true ∨
        expandLimit queries ev = true ∧ fp ∈ queries.hasLimitFrom) ∧
      queryRowInvalidates doubles query table ev = true := by
  rw [mem_updateQueriesCheckInvalidate, bookkept.always fp, found]
  simp only [some.injEq, exists_eq_left']

theorem needsChangeEval_of_changeDependent (dependent : query.changeDependent = true) :
    queries.needsChangeEval = true := by
  unfold UpdateQueries.needsChangeEval
  rw [bookkept.counted, decide_eq_true_eq]
  exact (PgCache.Data.Keyed.count_pos_iff _ _).mpr ⟨fp, query, found, dependent⟩

omit bookkept found in
theorem rowRelevant_updateEvent (doubles : Doubles) (query : UpdateQuery)
    (table : TableMetadata) (hne : update.keyData ≠ []) (rowChanges : Option RowChanges) :
    rowRelevant doubles query table (updateEvent update rowChanges) =
      rowRelevant doubles query table (insertEvent update.newRowData) := by
  unfold rowRelevant updateEvent insertEvent joinMembershipUnchanged
  simp [hne]

theorem covered_iff (hne : update.keyData ≠ []) (rowChanges : Option RowChanges) :
    (fp ∈ updateQueriesCheckInvalidate doubles queries table (deleteEvent update.keyData) ∅ ∨
        fp ∈ updateQueriesCheckInvalidate doubles queries table (insertEvent update.newRowData)
          (evalCandidates doubles queries table update.newRowData) →
      queries.needsChangeEval = true ∧
        fp ∈ updateQueriesCheckInvalidate doubles queries table (updateEvent update rowChanges)
          (evalCandidates doubles queries table update.newRowData)) ↔
      KeyChangeCovered doubles queries table update rowChanges fp query := by
  have needed := needsChangeEval_of_changeDependent bookkept found
  have flagged := bookkept.flagged fp query found
  have relevant := rowRelevant_updateEvent doubles query table hne
  simp only [mem_check bookkept found]
  cases source : query.source with
  | outerJoinTerminal =>
    simp [KeyChangeCovered, source, queryRowInvalidates, rowUncachedInvalidates, deleteEvent,
      insertEvent]
  | outerJoinOptional =>
    have always : query.isAlways = true := by simp [UpdateQuery.isAlways, source]
    have needs := needed (flagged (Or.inl always))
    cases rowChanges with
    | none =>
      simp only [KeyChangeCovered, source, always, needs, queryRowInvalidates,
        rowUncachedInvalidates, deleteEvent, insertEvent, updateEvent, true_or, or_true,
        true_and]
      exact ⟨fun h old => h (Or.inl old), fun h fires => fires.elim h id⟩
    | some changes =>
      simp [KeyChangeCovered, source, always, needs, queryRowInvalidates, updateEvent,
        rowCachedInvalidates]
  | subquery kind =>
    have always : query.isAlways = true := by simp [UpdateQuery.isAlways, source]
    have needs := needed (flagged (Or.inl always))
    cases rowChanges with
    | none =>
      have same := relevant none
      simp only [updateEvent] at same
      simp only [KeyChangeCovered, source, always, needs, queryRowInvalidates,
        rowUncachedInvalidates, deleteEvent, insertEvent, updateEvent, true_or, or_true,
        true_and, same]
      cases kind with
      | inclusion => simp [subqueryChangeExpands]
      | exclusion => simp [subqueryChangeExpands]
      | scalar =>
        simp only [subqueryChangeExpands, Bool.and_true, ne_eq, reduceCtorEq,
          not_false_eq_true, true_and]
        exact ⟨fun h old => h (Or.inl old), fun h fires => fires.elim h id⟩
    | some changes =>
      simp [KeyChangeCovered, source, always, needs, queryRowInvalidates, updateEvent,
        rowCachedInvalidates]
  | fromClause =>
    have never : query.isAlways = false := by simp [UpdateQuery.isAlways, source]
    have multi := fun several : query.isSingleTable = false =>
      needed (flagged (Or.inr (Or.inr ⟨source, several⟩)))
    cases rowChanges with
    | none =>
      have same := relevant none
      simp only [updateEvent] at same
      simp [KeyChangeCovered, source, never, queryRowInvalidates, rowUncachedInvalidates,
        fromClauseUncachedInvalidates, deleteEvent, insertEvent, updateEvent, same,
        expandLimit]
      constructor
      · intro invalidates hm limited
        exact (invalidates (Or.inl ⟨hm, limited⟩)).2
      · intro covered fires
        have joined := fires.elim (fun windowed => covered windowed.1 windowed.2) id
        exact ⟨multi joined.2.1, joined⟩
    | some changes =>
      have rejoins : joinColumnsChanged query table changes = true →
          queries.needsChangeEval = true := by
        intro changed
        refine needed (flagged (Or.inr (Or.inl fun none => ?_)))
        simp [joinColumnsChanged, none] at changed
      simp [KeyChangeCovered, source, never, queryRowInvalidates, updateEvent,
        rowCachedInvalidates, rowUncachedInvalidates, fromClauseUncachedInvalidates,
        deleteEvent, insertEvent, expandLimit]
      refine imp_congr_right fun _ => ⟨?_, ?_⟩
      · rintro ⟨needs, reached, moved | rejoined⟩
        · exact ⟨reached, .inl ⟨needs, moved⟩⟩
        · exact ⟨reached, .inr rejoined⟩
      · rintro ⟨reached, ⟨needs, moved⟩ | rejoined⟩
        · exact ⟨needs, reached, .inl moved⟩
        · exact ⟨rejoins rejoined.1, reached, .inr rejoined⟩

end Coverage

theorem invalidations_subset_iff (doubles : Doubles) {core : WriterCore}
    {update : RelationUpdate} {table : TableMetadata} (reachable : Reachable core)
    (known : core.tables.lookup update.relationOid = some table) (hne : update.keyData ≠ [])
    (rowChanges : Option RowChanges) :
    core.frameInvalidations ∪
        (checkInvalidate doubles core update.relationOid (deleteEvent update.keyData) ∅ ∪
          checkInvalidate doubles core update.relationOid (insertEvent update.newRowData)
            (evalCandidatesInto doubles core update.relationOid update.newRowData)) ⊆
      core.frameInvalidations ∪ updateInvalidations doubles core update rowChanges ↔
      KeyChangeAllCovered doubles core table update rowChanges := by
  unfold KeyChangeAllCovered updateInvalidations checkInvalidate evalCandidatesInto
    WriterCore.relationNeedsChangeEval maintained
  cases stored : core.updateQueries.lookup update.relationOid with
  | none => simp
  | some queries =>
    obtain ⟨table', known', history, og⟩ := reachable _ _ stored
    rw [known, some.injEq] at known'
    subst known'
    have bookkept : queries.Bookkept table.name := og ▸ Registration.bookkept_run _ history
    simp only [known, bind_some, map_some, elim_some, any_some, some.injEq, forall_eq']
    constructor
    · intro subset fp query found fresh
      refine (covered_iff bookkept found hne rowChanges).mp fun fires => ?_
      have hm := subset (Finset.mem_union_right _ (Finset.mem_union.mpr fires))
      rcases Finset.mem_union.mp hm with hb | invalidated
      · exact absurd hb fresh
      · split at invalidated
        · rename_i needs
          exact ⟨needs, invalidated⟩
        · exact absurd invalidated (Finset.notMem_empty fp)
    · intro covered fp hm
      rw [Finset.mem_union, Finset.mem_union] at hm
      rw [Finset.mem_union, or_iff_not_imp_left]
      intro fresh
      have fires := hm.resolve_left fresh
      obtain ⟨query, found⟩ : ∃ query, queries.queries.lookup fp = some query := by
        rcases fires with fires | fires <;>
          exact (((mem_updateQueriesCheckInvalidate doubles).mp fires).2).imp fun _ => And.left
      obtain ⟨needs, invalidated⟩ := (covered_iff bookkept found hne rowChanges).mpr
        (covered fp query found fresh) fires
      rwa [if_pos needs]

/-- An update that changes the primary key, against a delete of its key tuple followed by an
insert of its new image: all three succeed; the update's own statements leave the cache table
clean whatever it held; and it invalidates all that the pair invalidates exactly when every
query over the relation is covered. -/
theorem key_change_as_delete_insert_iff {doubles : Doubles} {db : CacheDb} {core : WriterCore}
    {update : RelationUpdate} {table : TableMetadata} (reachable : Reachable core)
    (known : core.tables.lookup update.relationOid = some table)
    (carriesOld : CarriesKey table update.keyData) (carries : CarriesKey table update.newRowData)
    (differs : KeyDiffers table update) (batch insertBatch : Option BatchEvalView)
    (same : String → String → String → Bool) :
    ∃ rowChanges deleted inserted updated statements,
      core.updateRowChangesResolve db update (batch.bind BatchEvalView.rowChange) = .ok rowChanges ∧
      handleDelete doubles core ⟨update.relationOid, update.keyData⟩ = .ok deleted ∧
      handleInsert doubles db deleted ⟨update.relationOid, update.newRowData⟩ insertBatch =
        .ok inserted ∧
      handleUpdate doubles db core update batch = .ok updated ∧
      updated.frameBuf = core.frameBuf ++ statements ∧
      (inserted.frameInvalidations ⊆ updated.frameInvalidations ∧ (∀ tables, Clean same table update
            (statements.foldl (execute same) tables table.relationOid)) ↔
        KeyChangeAllCovered doubles core table update rowChanges) := by
  have nonempty : update.keyData ≠ [] := by
    intro empty
    obtain ⟨pk, rest, columns⟩ := exists_cons_of_ne_nil carriesOld.keyed
    obtain ⟨column, text, -, value⟩ :=
      carriesOld.carried pk (by rw [columns]; exact mem_cons_self)
    simp [empty] at value
  obtain ⟨rowChanges, seen⟩ := updateRowChangesResolve_ok db known carries
    (batch.bind BatchEvalView.rowChange)
  obtain ⟨deleted, deleteRun, deleteExt, -⟩ := handleDelete_wrote doubles known carriesOld
  obtain ⟨inserted, _, insertRun, ⟨insertExt, -⟩, -⟩ := handleInsert_wrote doubles db
    (show deleted.tables.lookup update.relationOid = some table from deleteExt.tables ▸ known)
    insertBatch
  obtain ⟨moved, write, updateRun, ⟨moveExt, -⟩, written, -⟩ :=
    handleUpdate_wrote doubles db known carries batch seen
  rw [if_pos (updatePkChanged_of_keyDiffers nonempty differs)] at updateRun
  obtain ⟨updated, dropRun, dropExt, -⟩ := frameCacheDelete_wrote
    (show moved.tables.lookup update.relationOid =
      some table from moveExt.tables ▸ known) carriesOld
  have updateExt := moveExt.trans dropExt
  rw [Finset.union_empty] at updateExt
  refine ⟨rowChanges, deleted, inserted, updated, _, seen, deleteRun, insertRun,
    updateRun.trans dropRun,
    updateExt.frameBuf, ?_⟩
  have pair := (deleteExt.trans insertExt).frameInvalidations
  simp only [checkInvalidate, evalCandidatesInto, deleteExt.maintained] at pair
  have subset := invalidations_subset_iff doubles reachable known nonempty rowChanges
  simp only [checkInvalidate, evalCandidatesInto] at subset
  rw [pair, updateExt.frameInvalidations, subset]
  exact and_iff_left (clean_execute carries written)

section Items

def itemsTable : TableMetadata where
  relationOid := 16384
  name := "items"
  schema := "public"
  primaryKeyColumns := ["id"]
  columns := ⟨[⟨"id", 1, .int4, true⟩, ⟨"rank", 2, .int4, false⟩], by decide⟩
  replicaIdentityFull := false

def itemsColumn (name : String) (position : Nat) (isPrimaryKey : Bool) :
    ResolvedSelectColumn :=
  ⟨.column ⟨"public", "items", none, name, ⟨name, position, .int4, isPrimaryKey⟩⟩, none⟩

def itemsSelect : ResolvedSelectNode where
  distinct := false
  columns := [itemsColumn "id" 1 true, itemsColumn "rank" 2 false]
  sources := [.table ⟨"public", "items", none, 16384⟩]
  whereClause := none
  groupBy := []
  having := none

-- SELECT id, rank FROM items ORDER BY rank LIMIT n
def itemsWindow : UpdateQuery where
  fingerprint := 7
  resolved := itemsSelect.asQuery
  source := .fromClause
  constraints := analyzeQueryConstraints itemsSelect
  hasLimit := true
  evalStrategy := .localEval
  limitWindowColumns := ["rank"]
  orderByKeys := some [⟨"rank", false, false⟩]
  changeDependent := true
  predicateColumns := []
  isSingleTable := true
  compiledWhere := none

def itemsQueries : UpdateQueries :=
  @Registration.run "items" 16384 [.register itemsWindow [] false (by decide)]

def itemsCore : WriterCore where
  tables := AList.insert 16384 itemsTable ∅
  updateQueries := AList.insert 16384 itemsQueries ∅
  frameInvalidations := ∅
  frameBuf := []
  batchDeletedPks := ∅
  frameDeletedKeys := []
  populationDeletedKeys := ∅
  mvDirtyEvalRequired := fun _ => false

def itemsDoubles : Doubles := ⟨fun _ => none, fun _ _ => none⟩

-- No row is cached under the new key.
def itemsDb : CacheDb := ⟨fun _ _ _ => false, fun _ _ => none⟩

-- UPDATE items SET id = 2, rank = 90 WHERE id = 1
def itemsUpdate : RelationUpdate := ⟨16384, [some "1", none], [some "2", some "90"]⟩

/-- A window over one table: the delete invalidates it, the update that moves the row to a fresh
key does not. -/
theorem key_change_leaves_window : ∃ deleted inserted updated,
    handleDelete itemsDoubles itemsCore ⟨16384, itemsUpdate.keyData⟩ = .ok deleted ∧
    handleInsert itemsDoubles itemsDb deleted ⟨16384, itemsUpdate.newRowData⟩ none = .ok inserted ∧
    handleUpdate itemsDoubles itemsDb itemsCore itemsUpdate none = .ok updated ∧
    7 ∈ inserted.frameInvalidations ∧ 7 ∉ updated.frameInvalidations :=
  ⟨_, _, _, rfl, rfl, rfl, by decide, by decide⟩

theorem itemsCore_reachable : Reachable itemsCore := by
  intro oid queries stored
  have only : oid = 16384 := by
    by_contra other
    rw [itemsCore, AList.lookup_insert_ne other] at stored
    cases stored
  subst only
  have same : itemsQueries = queries := some.inj stored
  exact ⟨itemsTable, rfl, _, same.symm⟩

theorem items_key_change_compared : ∃ rowChanges deleted inserted updated statements,
      itemsCore.updateRowChangesResolve itemsDb itemsUpdate none = .ok rowChanges ∧
      handleDelete itemsDoubles itemsCore ⟨16384, itemsUpdate.keyData⟩ = .ok deleted ∧
      handleInsert itemsDoubles itemsDb deleted ⟨16384, itemsUpdate.newRowData⟩ none =
        .ok inserted ∧
      handleUpdate itemsDoubles itemsDb itemsCore itemsUpdate none = .ok updated ∧
      updated.frameBuf = [] ++ statements ∧
      (inserted.frameInvalidations ⊆ updated.frameInvalidations ∧
          (∀ tables, Clean (fun _ text text' => text = text') itemsTable itemsUpdate
            (statements.foldl (execute fun _ text text' => text = text') tables 16384)) ↔
        KeyChangeAllCovered itemsDoubles itemsCore itemsTable itemsUpdate rowChanges) :=
  key_change_as_delete_insert_iff itemsCore_reachable rfl
    ⟨by decide, by simp [itemsTable, itemsUpdate, ColumnStore.get, ColumnMetadata.index]⟩
    ⟨by decide, by simp [itemsTable, itemsUpdate, ColumnStore.get, ColumnMetadata.index]⟩
    ⟨"id", by decide, ⟨"id", 1, .int4, true⟩, rfl, by decide⟩ none none _

end Items

end PgCache.Cache.Cdc.KeyChange
