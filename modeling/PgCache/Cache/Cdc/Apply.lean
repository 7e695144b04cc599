/- source: cache/writer/cdc/apply.rs, cache/writer/cdc/membership.rs, cache/writer/cdc/sql.rs,
     cache/writer/staging.rs
   digest: The decide pass over replayed row events, and the cache-table statements it buffers. -/
import PgCache.Cache.Cdc.Invalidation
import Mathlib.Data.Finset.Lattice.Lemmas

set_option autoImplicit false

namespace PgCache.Cache.Cdc.Apply

open Catalog Data.Keyed Query.Evaluate Maintenance Invalidation Finset

/-- A primary key as `pk_body_render` writes it, before quoting. -/
abbrev KeyBody := List (Option String)

inductive CacheError where
  | unknownTable
  | noPrimaryKey
  deriving DecidableEq

/-- One statement in `frame_buf`: the texts of `cache_upsert_unconditional_into` and
`cache_delete_into` as the values they carry. -/
inductive CacheStatement where
  | upsert (relationOid : Oid) (values : List (String × Option String)) (conflict : List String)
  | delete (relationOid : Oid) (key : List (String × Option String))
  deriving DecidableEq

structure RelationDeletes where
  keys : Finset KeyBody
  staleKeys : Finset KeyBody

structure BatchEvalView where
  covers : Fingerprint → Bool
  hit : Fingerprint → Bool
  rowChange : Option (Option RowChanges)

/-- Answers of the cache database: a membership predicate on a row, and the column changes
against the row cached under the same key. -/
structure CacheDb where
  hit : UpdateQuery → TableMetadata → RowData → Bool
  rowChanges : TableMetadata → RowData → Option RowChanges

/-- `WriterCore`, as far as the row handlers read and write it. -/
structure WriterCore where
  tables : KeyedMap Oid TableMetadata
  updateQueries : KeyedMap Oid UpdateQueries
  frameInvalidations : Finset Fingerprint
  frameBuf : List CacheStatement
  batchDeletedPks : Finset (Oid × KeyBody)
  frameDeletedKeys : List (Oid × KeyBody)
  populationDeletedKeys : KeyedMap Oid RelationDeletes
  mvDirtyEvalRequired : Fingerprint → Bool

structure RelationRow where
  relationOid : Oid
  rowData : RowData

structure RelationUpdate where
  relationOid : Oid
  keyData : RowData
  newRowData : RowData

variable (table : TableMetadata) (row : RowData)

def pkBodyRender : Option KeyBody :=
  (table.primaryKeyColumns.mapM fun pk =>
    (table.columns.get pk).bind fun column => row[column.index]?).filter (!·.isEmpty)

def pkValues : List (String × Option String) :=
  table.primaryKeyColumns.filterMap fun pk =>
    ((table.columns.get pk).bind fun column => row[column.index]?).map fun value => (pk, value)

def rowColumns : List (String × Option String) :=
  table.columns.sorted.filterMap fun column =>
    row[column.index]?.map fun value => (column.name, value)

def cacheUpsertUnconditionalInto : CacheStatement :=
  .upsert table.relationOid (rowColumns table row) table.primaryKeyColumns

def cacheDeleteInto : Except CacheError CacheStatement :=
  if (pkValues table row).isEmpty then .error .noPrimaryKey
  else .ok (.delete table.relationOid (pkValues table row))

namespace WriterCore

variable (core : WriterCore) (relationOid : Oid)

def tableGet : Except CacheError TableMetadata :=
  match core.tables.lookup relationOid with
  | some table => .ok table
  | none => .error .unknownTable

def invalidate (invalidated : Finset Fingerprint) : WriterCore :=
  { core with frameInvalidations := core.frameInvalidations ∪ invalidated }

def isRecording : Bool :=
  (core.populationDeletedKeys.lookup relationOid).isSome

def frameDeleteBuffer (row : RowData) (recordLostKey : Bool) : Except CacheError WriterCore := do
  let table ← core.tableGet relationOid
  let statement ← cacheDeleteInto table row
  let key := (pkBodyRender table row).map fun key => (relationOid, key)
  return { core with
    batchDeletedPks := core.batchDeletedPks ∪ key.toList.toFinset
    frameBuf := core.frameBuf ++ [statement]
    frameDeletedKeys :=
      if recordLostKey && core.isRecording relationOid then core.frameDeletedKeys ++ key.toList
      else core.frameDeletedKeys }

def frameCacheDelete (row : RowData) : Except CacheError WriterCore :=
  core.frameDeleteBuffer relationOid row true

def frameCacheUpsert (row : RowData) : Except CacheError WriterCore := do
  let table ← core.tableGet relationOid
  let key := (pkBodyRender table row).map fun key => (relationOid, key)
  return { core with
    batchDeletedPks := core.batchDeletedPks \ key.toList.toFinset
    frameBuf := core.frameBuf ++ [cacheUpsertUnconditionalInto table row] }

def keyTracked (key : KeyBody) : Bool :=
  (relationOid, key) ∈ core.frameDeletedKeys ||
    (core.populationDeletedKeys.lookup relationOid).any fun deletes =>
      key ∈ deletes.keys || key ∈ deletes.staleKeys

def populationDeletedKeyCancel (row : RowData) : Bool × WriterCore :=
  match (core.tables.lookup relationOid).bind fun table => pkBodyRender table row with
  | none => (false, core)
  | some key =>
    (core.keyTracked relationOid key, { core with
        frameDeletedKeys := core.frameDeletedKeys.filter (· ≠ (relationOid, key))
        populationDeletedKeys :=
          match core.populationDeletedKeys.lookup relationOid with
          | none => core.populationDeletedKeys
          | some deletes => core.populationDeletedKeys.insert relationOid
              ⟨deletes.keys.erase key, deletes.staleKeys.erase key⟩ })

def relationNeedsChangeEval : Bool :=
  (core.updateQueries.lookup relationOid).any UpdateQueries.needsChangeEval

def batchDeletedContains (row : RowData) : Bool :=
  ((core.tables.lookup relationOid).bind fun table => pkBodyRender table row).any fun key =>
    (relationOid, key) ∈ core.batchDeletedPks

def updateRowChangesResolve (db : CacheDb) (core : WriterCore) (update : RelationUpdate)
    (batched : Option (Option RowChanges)) : Except CacheError (Option RowChanges) := do
  if core.batchDeletedContains update.relationOid update.newRowData then return none
  match batched with
  | some rowChanges => return rowChanges
  | none =>
    let table ← core.tableGet update.relationOid
    if (pkValues table update.newRowData).isEmpty then throw .noPrimaryKey
    return db.rowChanges table update.newRowData

end WriterCore

section Handlers

variable (doubles : Doubles) (db : CacheDb) (core : WriterCore) (relationOid : Oid)

def maintained : Option (UpdateQueries × TableMetadata) :=
  (core.updateQueries.lookup relationOid).bind fun queries =>
    (core.tables.lookup relationOid).map fun table => (queries, table)

def evalCandidatesInto (row : RowData) : Finset Fingerprint :=
  (maintained core relationOid).elim ∅ fun (queries, table) =>
    evalCandidates doubles queries table row

def checkInvalidate (event : RowEvent) (candidates : Finset Fingerprint) : Finset Fingerprint :=
  (maintained core relationOid).elim ∅ fun (queries, table) =>
    updateQueriesCheckInvalidate doubles queries table event candidates

def maintainedCandidates (queries : UpdateQueries)
    (candidates : Finset Fingerprint) (strategy : UpdateEvalStrategy) : List UpdateQuery :=
  (queries.queries.entries.filter fun entry =>
    entry.1 ∈ candidates && entry.1 ∉ core.frameInvalidations &&
      entry.2.evalStrategy = strategy).map Sigma.snd

/-- `row_membership_evaluate`. Queries whose view must be marked are all asked; the others
only decide the upsert, so they are skipped after a match. -/
def rowMembershipEvaluate (row : RowData)
    (candidates : Finset Fingerprint) (batch : Option BatchEvalView) : Bool :=
  (maintained core relationOid).any fun (queries, table) =>
    let localHit := (maintainedCandidates core queries candidates .localEval).any fun query =>
      updateQueryMatchesLocally doubles query row
    let pgEval := maintainedCandidates core queries candidates .pgEval
    let covered := fun query : UpdateQuery => batch.any fun view => view.covers query.fingerprint
    let batchedHit := (pgEval.filter covered).any fun query =>
      batch.any fun view => view.hit query.fingerprint
    let (fresh, rest) := (pgEval.filter fun query => !covered query).partition fun query =>
      core.mvDirtyEvalRequired query.fingerprint
    let freshHit := fresh.any fun query => db.hit query table row
    localHit || batchedHit || freshHit || rest.any fun query => db.hit query table row

def updateQueriesExecuteBatch (row : RowData)
    (candidates : Finset Fingerprint) (batch : Option BatchEvalView) :
    Except CacheError (Bool × WriterCore) := do
  let matched := rowMembershipEvaluate doubles db core relationOid row candidates batch
  let core ← if matched then core.frameCacheUpsert relationOid row else pure core
  return (matched, core)

def insertEvent (row : RowData) : RowEvent :=
  ⟨row, none, .upsert, none⟩

def deleteEvent (row : RowData) : RowEvent :=
  ⟨row, none, .delete, none⟩

variable (update : RelationUpdate)

def updateEvent (rowChanges : Option RowChanges) : RowEvent :=
  ⟨update.newRowData, some update.keyData, .upsert, rowChanges⟩

def handleInsert (row : RelationRow) (batch : Option BatchEvalView) :
    Except CacheError WriterCore := do
  if (core.tables.lookup row.relationOid).isNone then return core
  let candidates := evalCandidatesInto doubles core row.relationOid row.rowData
  let invalidated := checkInvalidate doubles core row.relationOid (insertEvent row.rowData)
    candidates
  let core := core.invalidate invalidated
  let (matched, core) ←
    updateQueriesExecuteBatch doubles db core row.relationOid row.rowData candidates batch
  let (tracked, core) := core.populationDeletedKeyCancel row.relationOid row.rowData
  if tracked && !matched then core.frameCacheUpsert row.relationOid row.rowData
  else return core

def updateCacheWrite (matched : Bool) : Except CacheError WriterCore :=
  let cancelled := (core.populationDeletedKeyCancel update.relationOid update.newRowData).2
  if matched then .ok cancelled
  else if core.isRecording update.relationOid then
    cancelled.frameCacheUpsert update.relationOid update.newRowData
  else core.frameCacheDelete update.relationOid update.newRowData

/-- The fingerprints `handle_update` invalidates: none are looked for when no query over the
relation depends on what changed. -/
def updateInvalidationsCollect (candidates : Finset Fingerprint) (batch : Option BatchEvalView) :
    Except CacheError (Finset Fingerprint) := do
  if !core.relationNeedsChangeEval update.relationOid then return ∅
  let rowChanges ← core.updateRowChangesResolve db update (batch.bind BatchEvalView.rowChange)
  return checkInvalidate doubles core update.relationOid (updateEvent update rowChanges) candidates

def handleUpdate (batch : Option BatchEvalView) : Except CacheError WriterCore := do
  let some table := core.tables.lookup update.relationOid | return core
  let pkChanged := updatePkChanged table update.keyData update.newRowData
  let candidates := evalCandidatesInto doubles core update.relationOid update.newRowData
  let invalidated ← updateInvalidationsCollect doubles db core update candidates batch
  let core := core.invalidate invalidated
  let (matched, core) ← updateQueriesExecuteBatch doubles db core update.relationOid
    update.newRowData candidates batch
  let core ← updateCacheWrite core update matched
  if pkChanged then core.frameCacheDelete update.relationOid update.keyData else return core

def handleDelete (row : RelationRow) : Except CacheError WriterCore := do
  if (core.tables.lookup row.relationOid).isNone then return core
  let core ← core.frameCacheDelete row.relationOid row.rowData
  let invalidated := checkInvalidate doubles core row.relationOid (deleteEvent row.rowData) ∅
  return core.invalidate invalidated

end Handlers

structure CarriesKey (table : TableMetadata) (row : RowData) : Prop where
  keyed : table.primaryKeyColumns ≠ []
  carried : ∀ pk ∈ table.primaryKeyColumns, ∃ column text,
    table.columns.get pk = some column ∧ row[column.index]? = some (some text)

structure Extends (core core' : WriterCore) (invalidated : Finset Fingerprint)
    (statements : List CacheStatement) : Prop where
  tables : core'.tables = core.tables
  updateQueries : core'.updateQueries = core.updateQueries
  frameInvalidations : core'.frameInvalidations = core.frameInvalidations ∪ invalidated
  frameBuf : core'.frameBuf = core.frameBuf ++ statements

theorem Extends.trans {core core' core'' : WriterCore} {first snd : Finset Fingerprint}
    {before after : List CacheStatement} (h : Extends core core' first before)
    (h' : Extends core' core'' snd after) :
    Extends core core'' (first ∪ snd) (before ++ after) where
  tables := h'.tables.trans h.tables
  updateQueries := h'.updateQueries.trans h.updateQueries
  frameInvalidations := by
    rw [h'.frameInvalidations, h.frameInvalidations, Finset.union_assoc]
  frameBuf := by rw [h'.frameBuf, h.frameBuf, List.append_assoc]

theorem Extends.invalidate (core : WriterCore) (invalidated : Finset Fingerprint) :
    Extends core (core.invalidate invalidated) invalidated [] :=
  ⟨rfl, rfl, rfl, (List.append_nil _).symm⟩

private theorem extends_refl (core : WriterCore) : Extends core core ∅ [] :=
  ⟨rfl, rfl, (union_empty _).symm, (List.append_nil _).symm⟩

theorem Extends.maintained {core core' : WriterCore} {invalidated : Finset Fingerprint}
    {statements : List CacheStatement} (h : Extends core core' invalidated statements)
    (relationOid : Oid) : maintained core' relationOid = maintained core relationOid := by
  unfold Apply.maintained
  rw [h.tables, h.updateQueries]

theorem pkValues_nonempty {table : TableMetadata} {row : RowData}
    (carries : CarriesKey table row) : (pkValues table row).isEmpty = false := by
  obtain ⟨pk, rest, cols⟩ := List.exists_cons_of_ne_nil carries.keyed
  obtain ⟨c, text, hf, v⟩ :=
    carries.carried pk (by rw [cols]; exact List.mem_cons_self)
  simp [pkValues, cols, hf, v]

theorem cacheDeleteInto_ok {table : TableMetadata} {row : RowData}
    (carries : CarriesKey table row) :
    cacheDeleteInto table row = .ok (.delete table.relationOid (pkValues table row)) := by
  unfold cacheDeleteInto
  rw [pkValues_nonempty carries]
  rfl

inductive Write where
  | keep
  | put
  | drop
  deriving DecidableEq

namespace Write

def statements (table : TableMetadata) (row : RowData) : Write → List CacheStatement
  | .keep => []
  | .put => [cacheUpsertUnconditionalInto table row]
  | .drop => [.delete table.relationOid (pkValues table row)]

def marked (key : Option (Oid × KeyBody)) (marks : Finset (Oid × KeyBody)) :
    Write → Finset (Oid × KeyBody)
  | .keep => marks
  | .put => marks \ key.toList.toFinset
  | .drop => marks ∪ key.toList.toFinset

end Write

structure Wrote (core core' : WriterCore) (relationOid : Oid) (table : TableMetadata)
    (row : RowData) (invalidated : Finset Fingerprint) (write : Write) : Prop where
  applied : Extends core core' invalidated (write.statements table row)
  marks : core'.batchDeletedPks =
    write.marked ((pkBodyRender table row).map fun key => (relationOid, key)) core.batchDeletedPks

section Specs

variable (doubles : Doubles) (db : CacheDb) {core : WriterCore} {relationOid : Oid}
  {table : TableMetadata} (row : RowData)

private theorem wrote_nothing (core : WriterCore) : Wrote core core relationOid table row ∅ .keep :=
  ⟨extends_refl core, rfl⟩

private theorem wrote_invalidate (core : WriterCore) (invalidated : Finset Fingerprint) :
    Wrote core (core.invalidate invalidated) relationOid table row invalidated .keep :=
  ⟨Extends.invalidate core invalidated, rfl⟩

private theorem wrote_cancel (core : WriterCore) :
    Wrote core (core.populationDeletedKeyCancel relationOid row).2 relationOid table
      row ∅ .keep := by
  unfold WriterCore.populationDeletedKeyCancel
  split
  · exact wrote_nothing row core
  · exact ⟨⟨rfl, rfl, (union_empty _).symm, (List.append_nil _).symm⟩, rfl⟩

private theorem frameCacheUpsert_wrote (known : core.tables.lookup relationOid = some table) :
    ∃ core', core.frameCacheUpsert relationOid row = .ok core' ∧
      Wrote core core' relationOid table row ∅ .put := by
  simp only [WriterCore.frameCacheUpsert, WriterCore.tableGet, known]
  exact ⟨_, rfl, ⟨rfl, rfl, (union_empty _).symm, rfl⟩, rfl⟩

private theorem updateQueriesExecuteBatch_wrote
    (known : core.tables.lookup relationOid = some table) (candidates : Finset Fingerprint)
    (batch : Option BatchEvalView) :
    ∃ core', updateQueriesExecuteBatch doubles db core relationOid row candidates batch =
        .ok (rowMembershipEvaluate doubles db core relationOid row candidates batch, core') ∧
      Wrote core core' relationOid table row ∅
        (if rowMembershipEvaluate doubles db core relationOid row candidates batch then .put
          else .keep) := by
  unfold updateQueriesExecuteBatch
  cases rowMembershipEvaluate doubles db core relationOid row candidates batch with
  | false => exact ⟨core, rfl, wrote_nothing row core⟩
  | true =>
    obtain ⟨core', run, wrote⟩ := frameCacheUpsert_wrote row known
    exact ⟨core', by simp only [if_pos, run]; rfl, wrote⟩

variable {row}

private theorem wrote_keep_then {core core' core'' : WriterCore} {first snd : Finset Fingerprint}
    {write : Write} (h : Wrote core core' relationOid table row first .keep)
    (h' : Wrote core' core'' relationOid table row snd write) :
    Wrote core core'' relationOid table row (first ∪ snd) write :=
  ⟨h.applied.trans h'.applied, by rw [h'.marks, h.marks]; rfl⟩

private theorem wrote_then_keep {core core' core'' : WriterCore} {first snd : Finset Fingerprint}
    {write : Write} (h : Wrote core core' relationOid table row first write)
    (h' : Wrote core' core'' relationOid table row snd .keep) :
    Wrote core core'' relationOid table row (first ∪ snd) write := by
  refine ⟨?_, by rw [h'.marks, h.marks]; rfl⟩
  have whole := h.applied.trans h'.applied
  rwa [Write.statements, List.append_nil] at whole

theorem frameCacheDelete_wrote (known : core.tables.lookup relationOid = some table)
    (carries : CarriesKey table row) :
    ∃ core', core.frameCacheDelete relationOid row = .ok core' ∧
      Wrote core core' relationOid table row ∅ .drop := by
  simp only [WriterCore.frameCacheDelete, WriterCore.frameDeleteBuffer, WriterCore.tableGet, known]
  change ∃ core', (cacheDeleteInto table row >>= _) = _ ∧ _
  rw [cacheDeleteInto_ok carries]
  exact ⟨_, rfl, ⟨rfl, rfl, (union_empty _).symm, rfl⟩, rfl⟩

def membership (core : WriterCore) (relationOid : Oid) (row : RowData)
    (invalidated : Finset Fingerprint) (batch : Option BatchEvalView) : Bool :=
  rowMembershipEvaluate doubles db (core.invalidate invalidated) relationOid row
    (evalCandidatesInto doubles core relationOid row) batch

theorem handleDelete_wrote (known : core.tables.lookup relationOid = some table)
    (carries : CarriesKey table row) :
    ∃ core', handleDelete doubles core ⟨relationOid, row⟩ = .ok core' ∧
      Wrote core core' relationOid table row
        (checkInvalidate doubles core relationOid (deleteEvent row) ∅) .drop := by
  obtain ⟨deleted, run, wrote⟩ := frameCacheDelete_wrote known carries
  have same : checkInvalidate doubles deleted relationOid (deleteEvent row) ∅ =
      checkInvalidate doubles core relationOid (deleteEvent row) ∅ := by
    unfold checkInvalidate
    rw [wrote.applied.maintained]
  refine ⟨deleted.invalidate (checkInvalidate doubles core relationOid (deleteEvent row) ∅), ?_, ?_⟩
  · simp only [handleDelete, known, Option.isNone_some, run, ← same]
    rfl
  · have whole := wrote_then_keep wrote (wrote_invalidate row deleted
      (checkInvalidate doubles core relationOid (deleteEvent row) ∅))
    rwa [Finset.empty_union] at whole

theorem handleInsert_wrote (known : core.tables.lookup relationOid = some table)
    (batch : Option BatchEvalView) :
    ∃ core' write, handleInsert doubles db core ⟨relationOid, row⟩ batch = .ok core' ∧
      Wrote core core' relationOid table row
        (checkInvalidate doubles core relationOid (insertEvent row)
          (evalCandidatesInto doubles core relationOid row)) write ∧
      write ≠ .drop ∧
      (membership doubles db core relationOid row (checkInvalidate doubles core relationOid
        (insertEvent row) (evalCandidatesInto doubles core relationOid row)) batch = true →
          write = .put) := by
  set candidates := evalCandidatesInto doubles core relationOid row with probe
  set invalidated := checkInvalidate doubles core relationOid (insertEvent row) candidates with
    invalidations
  have first : Wrote core (core.invalidate invalidated) relationOid table row invalidated .keep :=
    wrote_invalidate row core invalidated
  obtain ⟨executed, run, snd⟩ := updateQueriesExecuteBatch_wrote doubles db row
    (show (core.invalidate invalidated).tables.lookup relationOid = some table from known)
    candidates batch
  have third : Wrote executed (executed.populationDeletedKeyCancel relationOid row).2 relationOid
      table row ∅ .keep := wrote_cancel row executed
  have whole := wrote_then_keep (wrote_keep_then first snd) third
  simp only [union_empty] at whole
  have cancelled : handleInsert doubles db core ⟨relationOid, row⟩ batch =
      if (executed.populationDeletedKeyCancel relationOid row).1 &&
          !membership doubles db core relationOid row invalidated batch then
        (executed.populationDeletedKeyCancel relationOid row).2.frameCacheUpsert relationOid row
      else .ok (executed.populationDeletedKeyCancel relationOid row).2 := by
    simp only [handleInsert, known, Option.isNone_some, ← probe, ← invalidations]
    change (updateQueriesExecuteBatch doubles db _ _ _ _ _ >>= _) = _
    rw [run]
    rfl
  rw [cancelled]
  unfold membership at *
  rw [← probe]
  cases matched : rowMembershipEvaluate doubles db (core.invalidate invalidated) relationOid row
      candidates batch with
  | true =>
    simp only [matched, if_true] at whole
    simp only [Bool.not_true, Bool.and_false, Bool.false_eq_true, if_false]
    exact ⟨_, .put, rfl, whole, by decide, fun _ => rfl⟩
  | false =>
    simp only [matched, Bool.false_eq_true, if_false] at whole
    split
    · obtain ⟨core', upserted, last⟩ := frameCacheUpsert_wrote row
        (whole.applied.tables.symm ▸ known)
      have result := wrote_keep_then whole last
      rw [union_empty] at result
      exact ⟨core', .put, upserted, result, by decide, fun h => by cases h⟩
    · exact ⟨_, .keep, rfl, whole, by decide, fun h => by cases h⟩

variable {update : RelationUpdate} {rowChanges : Option RowChanges}

variable (known : core.tables.lookup update.relationOid = some table)
include known

variable (carries : CarriesKey table update.newRowData)
include carries

theorem updateRowChangesResolve_ok (batched : Option (Option RowChanges)) :
    ∃ rowChanges, core.updateRowChangesResolve db update batched = .ok rowChanges := by
  have hp : ¬ (pkValues table update.newRowData).isEmpty = true := by
    rw [pkValues_nonempty carries]
    exact Bool.false_ne_true
  simp only [WriterCore.updateRowChangesResolve, WriterCore.tableGet, known]
  split
  · exact ⟨_, rfl⟩
  · cases batched with
    | some rowChanges => exact ⟨_, rfl⟩
    | none =>
      refine ⟨db.rowChanges table update.newRowData, ?_⟩
      change (if _ then _ else _) = _
      rw [if_neg hp]
      rfl

private theorem updateCacheWrite_wrote (matched : Bool) :
    ∃ core' write, updateCacheWrite core update matched = .ok core' ∧
      Wrote core core' update.relationOid table update.newRowData ∅ write ∧
      (matched = true ↔ write = .keep) := by
  have cancel : Wrote core (core.populationDeletedKeyCancel update.relationOid
      update.newRowData).2 update.relationOid table update.newRowData ∅ .keep :=
    wrote_cancel update.newRowData core
  unfold updateCacheWrite
  cases matched with
  | true => exact ⟨_, .keep, rfl, cancel, by decide⟩
  | false =>
    simp only [Bool.false_eq_true, if_false]
    split
    · obtain ⟨core', run, wrote⟩ := frameCacheUpsert_wrote update.newRowData
        (cancel.applied.tables.symm ▸ known)
      have whole := wrote_keep_then cancel wrote
      rw [union_empty] at whole
      exact ⟨core', .put, run, whole, by decide⟩
    · obtain ⟨core', run, wrote⟩ := frameCacheDelete_wrote known carries
      exact ⟨core', .drop, run, wrote, by decide⟩

def updateInvalidations (doubles : Doubles) (core : WriterCore) (update : RelationUpdate)
    (rowChanges : Option RowChanges) : Finset Fingerprint :=
  if core.relationNeedsChangeEval update.relationOid then
    checkInvalidate doubles core update.relationOid (updateEvent update rowChanges)
      (evalCandidatesInto doubles core update.relationOid update.newRowData)
  else ∅

omit known carries in
theorem updateInvalidationsCollect_ok {batch : Option BatchEvalView}
    (seen : core.updateRowChangesResolve db update (batch.bind BatchEvalView.rowChange) =
      .ok rowChanges) :
    updateInvalidationsCollect doubles db core update
      (evalCandidatesInto doubles core update.relationOid update.newRowData) batch =
        .ok (updateInvalidations doubles core update rowChanges) := by
  unfold updateInvalidationsCollect updateInvalidations
  rw [seen]
  cases core.relationNeedsChangeEval update.relationOid <;> rfl

theorem handleUpdate_wrote (batch : Option BatchEvalView)
    (seen : core.updateRowChangesResolve db update (batch.bind BatchEvalView.rowChange) =
      .ok rowChanges) :
    ∃ core' write, handleUpdate doubles db core update batch =
        (if updatePkChanged table update.keyData update.newRowData then
          core'.frameCacheDelete update.relationOid update.keyData else .ok core') ∧
      Wrote core core' update.relationOid table update.newRowData
        (updateInvalidations doubles core update rowChanges) write ∧
      write ≠ .keep ∧
      (membership doubles db core update.relationOid update.newRowData
        (updateInvalidations doubles core update rowChanges) batch = true → write = .put) := by
  have first : Wrote core (core.invalidate (updateInvalidations doubles core update rowChanges))
      update.relationOid table update.newRowData
      (updateInvalidations doubles core update rowChanges) .keep := wrote_invalidate _ _ _
  obtain ⟨executed, run, snd⟩ := updateQueriesExecuteBatch_wrote doubles db update.newRowData
    (first.applied.tables.symm ▸ known)
    (evalCandidatesInto doubles core update.relationOid update.newRowData) batch
  have known' : executed.tables.lookup update.relationOid = some table := by
    rw [snd.applied.tables]
    exact known
  obtain ⟨core', write, wrote, third, settled⟩ := updateCacheWrite_wrote known' carries
    (membership doubles db core update.relationOid update.newRowData
      (updateInvalidations doubles core update rowChanges) batch)
  have executedUpdate : handleUpdate doubles db core update batch =
      if updatePkChanged table update.keyData update.newRowData then
        core'.frameCacheDelete update.relationOid update.keyData else .ok core' := by
    simp only [handleUpdate, known]
    rw [updateInvalidationsCollect_ok doubles db seen]
    change (updateQueriesExecuteBatch doubles db _ _ _ _ _ >>= _) = _
    rw [run]
    change (updateCacheWrite executed update _ >>= _) = _
    unfold membership at wrote
    rw [wrote]
    rfl
  have whole := wrote_keep_then first snd
  rw [union_empty] at whole
  unfold membership at settled ⊢
  cases matched : rowMembershipEvaluate doubles db
      (core.invalidate (updateInvalidations doubles core update rowChanges)) update.relationOid
      update.newRowData (evalCandidatesInto doubles core update.relationOid update.newRowData)
      batch with
  | true =>
    rw [matched] at settled
    simp only [matched, if_true] at whole
    have written := wrote_then_keep whole (settled.mp rfl ▸ third)
    rw [union_empty] at written
    exact ⟨core', .put, executedUpdate, written, by decide, fun _ => rfl⟩
  | false =>
    rw [matched] at settled
    simp only [matched, Bool.false_eq_true, if_false] at whole
    have written := wrote_keep_then whole third
    rw [union_empty] at written
    have kept : write ≠ .keep := fun keep => Bool.false_ne_true (settled.mpr keep)
    exact ⟨core', write, executedUpdate, written, kept, fun h => by cases h⟩

end Specs

end PgCache.Cache.Cdc.Apply
