/- source: cache/writer/merge_queue/step.rs, cache/writer/registration/merge.rs,
     cache/writer/registration/pool.rs, cache/writer/cdc/frame.rs, cache/writer/publication.rs
   digest: Populations that read origin, frames that replay its changes and merges that drain the
     staged rows in chunks, in any order; and when the cache tables agree with origin. -/
import PgCache.Cache.Cdc.RowReplay
import PgCache.Data.Machine

set_option autoImplicit false

namespace PgCache.Cache.MergeRun

open Catalog Data.Keyed Data.Machine Staging Cdc.RowReplay PopulationDeletedKeys List
open Option hiding any_eq_true

variable {κ ρ : Type}

/-- Committed transactions in commit order; the LSN of a commit is its place in the log. -/
abbrev Log (κ ρ : Type) := List (List (Change κ ρ))

structure StagedRow (κ ρ : Type) where
  oid : Oid
  key : κ
  row : ρ
  readAt : Nat
  deriving DecidableEq

/-- A population in flight. `drained` is bookkeeping of the statement: the rows its merge has
taken out of staging. -/
structure Population (κ ρ : Type) where
  relationOids : List Oid
  anchorFloor : Nat
  staged : List (StagedRow κ ρ)
  drained : List (StagedRow κ ρ)
  snapshotLsn : Option Nat
  current : Bool

structure Completion (κ ρ : Type) where
  rows : List (StagedRow κ ρ)
  tables : Tables κ ρ
  appliedLsn : Nat

structure OpenFrame (κ ρ : Type) where
  replayed : List (Change κ ρ)
  remaining : List (Change κ ρ)

/-- Origin's log and the writer. A batch is open from its first replayed frame to its flush;
`tables` are the committed cache tables, the writer's working tables those of the batch. -/
structure MergeSystem (κ ρ : Type) where
  log : Log κ ρ
  appliedLsn : Nat
  replayedLsn : Nat
  batchOpen : Bool
  frame : Option (OpenFrame κ ρ)
  tables : Tables κ ρ
  writer : Cdc.RowReplay.Writer κ ρ
  populations : KeyedMap PopulationKey (Population κ ρ)
  active : Option PopulationKey
  completions : List (Completion κ ρ)

def MergeSystem.new : MergeSystem κ ρ :=
  ⟨[], 0, 0, false, none, fun _ _ => none, ⟨[], fun _ _ => none, [], [], [], .new⟩, ∅, none, []⟩

inductive MergeEvent (κ ρ : Type) where
  /-- a transaction commits at origin -/
  | commit (changes : List (Change κ ρ))
  /-- `population_dispatch`: recording starts before the worker reads -/
  | activate (pop : PopulationKey) (relationOids : List Oid) (anchorFloor : Nat)
  /-- the worker stages what one of its statements read -/
  | read (pop : PopulationKey) (rows : List (Oid × κ × ρ))
  /-- the worker is done reading, and its merge is queued -/
  | staged (pop : PopulationKey) (snapshotLsn : Nat)
  /-- `population_failed` -/
  | fail (pop : PopulationKey)
  /-- the population's query is invalidated, evicted or populated again -/
  | supersede (pop : PopulationKey)
  /-- the tombstone branch of `merge_heap_advance` -/
  | reap (pop : PopulationKey)
  | createTable (oid : Oid)
  /-- `cache_tables_drop`, once no query references the relation -/
  | dropTable (oid : Oid)
  /-- the replay comes to the next frame -/
  | frame
  | replay (matched complete : Bool)
  /-- the replay comes to the frame's boundary -/
  | boundary
  /-- `batch_flush` -/
  | flush
  /-- a batch up to an LSN ends in `frame_recover` -/
  | recover (lsn : Nat)
  /-- the release branch of `merge_heap_advance` -/
  | mergeStart (pop : PopulationKey)
  /-- `merge_in_progress_step` on one window of a relation's staging table -/
  | mergeChunk (oid : Oid) (chunk rest : List (StagedRow κ ρ))
  /-- `merge_done` -/
  | mergeFinish

section Step

variable [DecidableEq κ]

def tablesAfter (changes : List (Change κ ρ)) : Tables κ ρ :=
  changes.foldl Change.apply fun _ _ => none

def originAt (log : Log κ ρ) (lsn : Nat) : Tables κ ρ :=
  tablesAfter (log.take lsn).flatten

def changesFit (tables : Tables κ ρ) : List (Change κ ρ) → Bool
  | [] => true
  | change :: changes => change.fits tables && changesFit (change.apply tables) changes

/-- The relations with a change in the frames after `appliedLsn` up to `lsn`: `frame_relation_oids`
of a batch. -/
def batchRelations (log : Log κ ρ) (appliedLsn lsn : Nat) : List Oid :=
  ((log.take lsn).drop appliedLsn).flatten.flatMap Change.relations

/-- Populations over some of the relations are superseded: `cache_table_invalidate`. -/
def supersedeOver (oids : List Oid) (populations : KeyedMap PopulationKey (Population κ ρ)) :
    KeyedMap PopulationKey (Population κ ρ) :=
  retain (fun _ pop => some (if pop.relationOids.any (· ∈ oids) then { pop with current := false }
    else pop)) populations

def MergeSystem.populationEnd (s : MergeSystem κ ρ) (pop : PopulationKey) : MergeSystem κ ρ :=
  { s with
    writer := { s.writer with
      deletedKeys := s.writer.deletedKeys.deactivate pop }
    populations := s.populations.erase pop
    active := if s.active = some pop then none else s.active }

variable (deletedKeys : PopulationDeletedKeys κ)

def mergeKeysLost (pop : Population κ ρ) (snapshotLsn : Nat) : Bool :=
  pop.relationOids.any fun oid => deletedKeys.shouldAbort oid snapshotLsn

def mergeToastStaleHit (key : PopulationKey) (oid : Oid) (staged : List (StagedRow κ ρ)) : Bool :=
  (deletedKeys.floor oid key).any fun floor =>
    staged.any fun row => decide (row.oid = oid) && deletedKeys.staleAbove oid floor row.key

def mergeRow (tables : Tables κ ρ) (staged : StagedRow κ ρ) : Tables κ ρ :=
  if deletedKeys.filtered staged.oid staged.key || (tables staged.oid staged.key).isSome then tables
  else tables.set staged.oid staged.key (some staged.row)

def mergeChunkRun (writer : Cdc.RowReplay.Writer κ ρ) (oid : Oid)
    (chunk : List (StagedRow κ ρ)) : Tables κ ρ :=
  if oid ∈ writer.cachedRelations then chunk.foldl (mergeRow writer.deletedKeys) writer.working
  else writer.working

def populationMergeStep (s : MergeSystem κ ρ) (key : PopulationKey)
    (pop : Population κ ρ) (snapshotLsn : Nat) (oid : Oid)
    (chunk rest : List (StagedRow κ ρ)) : MergeSystem κ ρ :=
  if mergeKeysLost s.writer.deletedKeys pop snapshotLsn ||
      mergeToastStaleHit s.writer.deletedKeys key oid pop.staged then
    s.populationEnd key
  else
    let tables := mergeChunkRun s.writer oid chunk
    { s with
      tables := tables
      writer := { s.writer with working := tables }
      populations := s.populations.insert key
        { pop with staged := rest, drained := pop.drained ++ chunk } }

def frameRecover (s : MergeSystem κ ρ) (lsn : Nat) : MergeSystem κ ρ :=
  let oids := batchRelations s.log s.appliedLsn lsn
  let tables := s.tables.clear oids
  { s with
    appliedLsn := lsn
    replayedLsn := lsn
    batchOpen := false
    frame := none
    tables := tables
    writer := { s.writer with
      working := tables
      frameDeletedKeys := []
      frameToastStaleKeys := []
      frameTruncatedRelations := []
      deletedKeys := oids.foldl (fun keys oid => keys.abortBelow oid lsn) s.writer.deletedKeys }
    populations := supersedeOver oids s.populations }

variable [DecidableEq ρ]

def step (s : MergeSystem κ ρ) : MergeEvent κ ρ → Option (MergeSystem κ ρ)
  | .commit changes =>
    if changesFit (tablesAfter s.log.flatten) changes then
      some { s with log := s.log ++ [changes] }
    else none
  | .activate key relationOids anchorFloor =>
    if (s.populations.lookup key).isNone ∧ (s.writer.deletedKeys.inflight.lookup key).isNone ∧
        (∀ oid ∈ relationOids, oid ∈ s.writer.cachedRelations) ∧
        anchorFloor ≤ s.log.length then
      some { s with
        writer := { s.writer with
          deletedKeys := s.writer.deletedKeys.activate key relationOids anchorFloor }
        populations := s.populations.insert key ⟨relationOids, anchorFloor, [], [], none, true⟩ }
    else none
  | .read key rows =>
    (s.populations.lookup key).bind fun pop =>
      if pop.snapshotLsn = none ∧ ∀ row ∈ rows, row.1 ∈ pop.relationOids ∧
          originAt s.log s.log.length row.1 row.2.1 = some row.2.2 then
        some { s with
          populations := s.populations.insert key { pop with
            staged := pop.staged ++ rows.map fun row => ⟨row.1, row.2.1, row.2.2, s.log.length⟩ } }
      else none
  | .staged key snapshotLsn =>
    (s.populations.lookup key).bind fun pop =>
      if pop.snapshotLsn = none ∧ ∀ row ∈ pop.staged, row.readAt ≤ snapshotLsn then
        some { s with
          populations := s.populations.insert key { pop with snapshotLsn := some snapshotLsn } }
      else none
  | .fail key =>
    (s.populations.lookup key).bind fun pop =>
      if pop.snapshotLsn = none then some (s.populationEnd key) else none
  | .supersede key =>
    some { s with
      populations := adjust key (fun pop => { pop with current := false }) s.populations }
  | .reap key =>
    (s.populations.lookup key).bind fun pop =>
      if s.batchOpen = false ∧ pop.snapshotLsn.isSome ∧ pop.current = false then
        some (s.populationEnd key)
      else none
  | .createTable oid =>
    some { s with
      writer := { s.writer with
        cachedRelations := oid :: s.writer.cachedRelations } }
  | .dropTable oid =>
    if s.batchOpen = false ∧ ∀ entry ∈ s.populations.entries,
        entry.2.current = true → oid ∉ entry.2.relationOids then
      some { s with
        tables := s.tables.clear [oid]
        writer := { s.writer with
          cachedRelations := s.writer.cachedRelations.filter (· ≠ oid)
          working := s.tables.clear [oid] } }
    else none
  | .frame =>
    if s.frame.isNone then
      s.log[s.replayedLsn]?.map fun changes =>
        { s with batchOpen := true, frame := some ⟨[], changes⟩ }
    else none
  | .replay matched complete =>
    match s.frame with
    | some ⟨replayed, change :: remaining⟩ =>
      some { s with
        frame := some ⟨replayed ++ [change], remaining⟩
        writer := s.writer.eventReplay matched complete change
        populations :=
          match change with
          | .truncate oids => supersedeOver oids s.populations
          | _ => s.populations }
    | _ => none
  | .boundary =>
    match s.frame with
    | some ⟨_, []⟩ =>
      some { s with
        frame := none
        replayedLsn := s.replayedLsn + 1
        writer := s.writer.frameKeysStamp (s.replayedLsn + 1) }
    | _ => none
  | .flush =>
    if s.batchOpen ∧ s.frame.isNone then
      some { s with
        batchOpen := false
        appliedLsn := s.replayedLsn
        tables := s.writer.working }
    else none
  | .recover lsn =>
    if s.batchOpen ∧ s.replayedLsn ≤ lsn ∧ lsn ≤ s.log.length ∧
        (s.frame.isSome → s.replayedLsn < lsn) then
      some (frameRecover s lsn)
    else none
  | .mergeStart key =>
    (s.populations.lookup key).bind fun pop =>
      if s.batchOpen = false ∧ s.active = none ∧ pop.current = true ∧
          pop.snapshotLsn.any (decide <| · ≤ s.appliedLsn) then
        some { s with active := some key }
      else none
  | .mergeChunk oid chunk rest =>
    s.active.bind fun key =>
      (s.populations.lookup key).bind fun pop =>
        if s.batchOpen = false ∧ (chunk ++ rest).isPerm pop.staged ∧
            ∀ row ∈ chunk, row.oid = oid then
          if pop.current then
            pop.snapshotLsn.map fun snapshotLsn =>
              populationMergeStep s key pop snapshotLsn oid chunk rest
          else some (s.populationEnd key)
        else none
  | .mergeFinish =>
    s.active.bind fun key =>
      (s.populations.lookup key).bind fun pop =>
        if s.batchOpen = false ∧ pop.current = true ∧ pop.staged = [] then
          some { s.populationEnd key with
            completions := s.completions ++ [⟨pop.drained, s.tables, s.appliedLsn⟩] }
        else none

end Step

def Untouched (changes : List (Change κ ρ)) (oid : Oid) (key : κ) : Prop :=
  ∀ change ∈ changes, ¬ change.Touches oid key

def changesSince (log : Log κ ρ) (lsn : Nat) (replayed : List (Change κ ρ)) (readAt : Nat) :
    List (Change κ ρ) :=
  ((log.take lsn).drop readAt).flatten ++ replayed

def OpenFrame.changes (frame : Option (OpenFrame κ ρ)) : List (Change κ ρ) :=
  (frame.map OpenFrame.replayed).getD []

variable [DecidableEq κ]

def originNow (log : Log κ ρ) (lsn : Nat) (replayed : List (Change κ ρ)) : Tables κ ρ :=
  tablesAfter ((log.take lsn).flatten ++ replayed)

/-- What a finished merge owes: the cached rows are at origin as of the applied LSN, and the rows
of the snapshot that nothing changed since are cached. -/
structure Completion.Faithful (log : Log κ ρ) (completion : Completion κ ρ) : Prop where
  current : ∀ oid key row, completion.tables oid key = some row →
    originAt log completion.appliedLsn oid key = some row
  complete : ∀ staged ∈ completion.rows,
    Untouched (changesSince log completion.appliedLsn [] staged.readAt) staged.oid staged.key →
      completion.tables staged.oid staged.key = some staged.row

/-- No update of a frame meets a delete of its new key that a population which has left made
pending, and a cache table is not dropped while the filter holds keys of it. -/
def Calm (s : MergeSystem κ ρ) : MergeEvent κ ρ → Prop
  | .replay matched complete =>
    ∀ frame, s.frame = some frame → ∀ change, frame.remaining.head? = some change →
      s.writer.Calm matched complete change
  | .dropTable oid => ∀ key, s.writer.deletedKeys.filtered oid key = false
  | _ => True

section Origin

variable {log : Log κ ρ} {lsn readAt : Nat} {oid : Oid} {key : κ}

theorem foldl_untouched {changes : List (Change κ ρ)} (untouched : Untouched changes oid key)
    (tables : Tables κ ρ) : changes.foldl Change.apply tables oid key = tables oid key := by
  induction changes generalizing tables with
  | nil => rfl
  | cons change changes ih =>
    rw [foldl_cons, ih fun later hm => untouched later (mem_cons_of_mem _ hm)]
    exact change.apply_untouched (untouched change mem_cons_self) tables

theorem originNow_nil (log : Log κ ρ) (lsn : Nat) : originNow log lsn [] = originAt log lsn := by
  rw [originNow, append_nil, originAt]

theorem originNow_append (log : Log κ ρ) (lsn : Nat) (replayed : List (Change κ ρ))
    (change : Change κ ρ) :
    originNow log lsn (replayed ++ [change]) = change.apply (originNow log lsn replayed) := by
  rw [originNow, ← append_assoc, tablesAfter, foldl_append]
  rfl

omit [DecidableEq κ] in
theorem take_flatten_split (log : Log κ ρ) (earlier : readAt ≤ lsn) :
    (log.take lsn).flatten = (log.take readAt).flatten ++ ((log.take lsn).drop readAt).flatten := by
  rw [← flatten_append]
  congr 1
  have split := take_append_drop readAt (log.take lsn)
  rwa [take_take, Nat.min_eq_left earlier, eq_comm] at split

theorem originNow_untouched (earlier : readAt ≤ lsn) {replayed : List (Change κ ρ)}
    (untouched : Untouched (changesSince log lsn replayed readAt) oid key) :
    originNow log lsn replayed oid key = originAt log readAt oid key := by
  rw [originNow, take_flatten_split log earlier, append_assoc, tablesAfter, foldl_append]
  exact foldl_untouched untouched _

theorem changesFit_append {before after : List (Change κ ρ)} {tables : Tables κ ρ} :
    changesFit tables (before ++ after) =
      (changesFit tables before && changesFit (before.foldl Change.apply tables) after) := by
  induction before generalizing tables with
  | nil => rfl
  | cons change before ih => rw [cons_append, changesFit, changesFit, ih, Bool.and_assoc]; rfl

end Origin

structure WasRead (log : Log κ ρ) (relationOids : List Oid) (anchorFloor : Nat)
    (staged : StagedRow κ ρ) : Prop where
  relation : staged.oid ∈ relationOids
  floor : anchorFloor ≤ staged.readAt
  past : staged.readAt ≤ log.length
  origin : originAt log staged.readAt staged.oid staged.key = some staged.row

structure InFlight (log : Log κ ρ) (lsn : Nat) (replayed : List (Change κ ρ))
    (writer : Cdc.RowReplay.Writer κ ρ) (key : PopulationKey) (pop : Population κ ρ) : Prop where
  anchored : ∀ oid ∈ pop.relationOids, writer.deletedKeys.Anchored key oid pop.anchorFloor
  floor : pop.anchorFloor ≤ log.length
  staged : ∀ staged ∈ pop.staged, WasRead log pop.relationOids pop.anchorFloor staged
  drained : ∀ staged ∈ pop.drained,
    WasRead log pop.relationOids pop.anchorFloor staged ∧ staged.readAt ≤ lsn
  snapshot : ∀ snapshotLsn, pop.snapshotLsn = some snapshotLsn →
    ∀ staged ∈ pop.staged, staged.readAt ≤ snapshotLsn
  cached : pop.current = true → ∀ oid ∈ pop.relationOids, oid ∈ writer.cachedRelations
  covered : pop.current = true → ∀ staged ∈ pop.staged, staged.readAt ≤ lsn →
    Covered writer (originNow log lsn replayed) pop.anchorFloor staged.oid staged.key staged.row
  truncated : pop.current = true → ∀ staged ∈ pop.staged,
    staged.oid ∈ writer.frameTruncatedRelations → lsn < staged.readAt
  kept : pop.current = true → ∀ staged ∈ pop.drained,
    Untouched (changesSince log lsn replayed staged.readAt) staged.oid staged.key →
      writer.working staged.oid staged.key = some staged.row

structure Inv (s : MergeSystem κ ρ) : Prop where
  applied : s.appliedLsn ≤ s.replayedLsn
  replayed : s.replayedLsn ≤ s.log.length
  frame : ∀ frame, s.frame = some frame →
    s.log[s.replayedLsn]? = some (frame.replayed ++ frame.remaining) ∧ s.batchOpen = true
  idle : s.frame = none → s.writer.frameDeletedKeys = [] ∧
    s.writer.frameToastStaleKeys = [] ∧ s.writer.frameTruncatedRelations = []
  closed : s.batchOpen = false → s.appliedLsn = s.replayedLsn ∧ s.writer.working = s.tables
  fits : changesFit (fun _ _ => none) s.log.flatten = true
  agrees : Agrees s.writer (originNow s.log s.replayedLsn (OpenFrame.changes s.frame))
  stamps : ∀ oid key stamp, s.writer.deletedKeys.Filters oid key stamp → stamp ≤ s.replayedLsn
  tables : ∀ oid key row, s.tables oid key = some row →
    originAt s.log s.appliedLsn oid key = some row
  uncached : ∀ oid key, oid ∉ s.writer.cachedRelations → s.tables oid key = none
  batch : ∀ oid, (∀ change ∈ changesSince s.log s.replayedLsn
      (OpenFrame.changes s.frame) s.appliedLsn, oid ∉ change.relations) →
    ∀ key, s.writer.working oid key = s.tables oid key ∧ (oid, key) ∉ s.writer.frameDeletedKeys ∧
      (oid, key) ∉ s.writer.frameToastStaleKeys
  populations : ∀ key pop, s.populations.lookup key = some pop →
    InFlight s.log s.replayedLsn (OpenFrame.changes s.frame) s.writer key pop
  active : ∀ key, s.active = some key → ∃ pop snapshotLsn, s.populations.lookup key = some pop ∧
      pop.snapshotLsn = some snapshotLsn ∧ snapshotLsn ≤ s.appliedLsn
  completions : ∀ completion ∈ s.completions,
    completion.appliedLsn ≤ s.log.length ∧ completion.Faithful s.log

theorem not_filters_new (oid : Oid) (key : κ) (stamp : Nat) :
    ¬ (new : PopulationDeletedKeys κ).Filters oid key stamp := by
  rintro ⟨e, hf, -⟩
  cases hf

theorem Inv.new : Inv (MergeSystem.new : MergeSystem κ ρ) := by
  have untracked : ∀ oid key, ¬ (MergeSystem.new : MergeSystem κ ρ).writer.Tracked oid key := by
    rintro oid key (pending | ⟨stamp, filters⟩)
    · cases pending
    · exact not_filters_new oid key stamp filters
  exact {
    applied := le_rfl
    replayed := le_rfl
    frame := nofun
    idle := fun _ => ⟨rfl, rfl, rfl⟩
    closed := fun _ => ⟨rfl, rfl⟩
    fits := rfl
    agrees := ⟨nofun, fun oid key tracked => absurd tracked (untracked oid key),
      fun oid key _ => ⟨rfl, untracked oid key⟩⟩
    stamps := fun oid key stamp filters => absurd filters (not_filters_new oid key stamp)
    tables := nofun
    uncached := fun _ _ _ => rfl
    batch := fun _ _ _ => ⟨rfl, not_mem_nil, not_mem_nil⟩
    populations := nofun
    active := nofun
    completions := nofun }

section Steps

variable {s : MergeSystem κ ρ} {log : Log κ ρ} {lsn : Nat} {replayed : List (Change κ ρ)}
  {writer : Cdc.RowReplay.Writer κ ρ} {key : PopulationKey} {pop : Population κ ρ}

variable (changes : List (Change κ ρ))
include changes

variable (past : lsn ≤ log.length)
include past

omit [DecidableEq κ] in
theorem take_commit : (log ++ [changes]).take lsn = log.take lsn :=
  take_append_of_le_length past

theorem originAt_commit : originAt (log ++ [changes]) lsn = originAt log lsn := by
  rw [originAt, take_commit changes past, originAt]

omit [DecidableEq κ] in
theorem changesSince_commit (readAt : Nat) :
    changesSince (log ++ [changes]) lsn replayed readAt = changesSince log lsn replayed readAt := by
  rw [changesSince, take_commit changes past, changesSince]

theorem originNow_commit :
    originNow (log ++ [changes]) lsn replayed = originNow log lsn replayed := by
  rw [originNow, take_commit changes past, originNow]

omit past

omit changes

theorem WasRead.commit {relationOids : List Oid} {anchorFloor : Nat}
    {staged : StagedRow κ ρ} (wasRead : WasRead log relationOids anchorFloor staged)
    (changes : List (Change κ ρ)) : WasRead (log ++ [changes]) relationOids anchorFloor staged where
  relation := wasRead.relation
  floor := wasRead.floor
  past := wasRead.past.trans (by rw [length_append]; exact Nat.le_add_right _ _)
  origin := by rw [originAt_commit changes wasRead.past, wasRead.origin]

theorem InFlight.commit (inFlight : InFlight log lsn replayed writer key pop)
    (changes : List (Change κ ρ)) (past : lsn ≤ log.length) :
    InFlight (log ++ [changes]) lsn replayed writer key pop where
  anchored := inFlight.anchored
  floor := inFlight.floor.trans (by rw [length_append]; exact Nat.le_add_right _ _)
  staged staged inside := (inFlight.staged staged inside).commit changes
  drained staged inside := (inFlight.drained staged inside).imp_left (·.commit changes)
  snapshot := inFlight.snapshot
  cached := inFlight.cached
  covered := by
    rw [originNow_commit changes past]
    exact inFlight.covered
  truncated := inFlight.truncated
  kept := by
    simp only [changesSince_commit changes past]
    exact inFlight.kept

theorem Completion.Faithful.commit {completion : Completion κ ρ}
    (faithful : completion.Faithful log) (changes : List (Change κ ρ))
    (past : completion.appliedLsn ≤ log.length) : completion.Faithful (log ++ [changes]) where
  current := by
    rw [originAt_commit changes past]
    exact faithful.current
  complete := by
    simp only [changesSince_commit changes past]
    exact faithful.complete

variable {changes : List (Change κ ρ)} {populations : KeyedMap PopulationKey (Population κ ρ)}
  {snapshotLsn : Nat} {done : List (Change κ ρ)} {change : Change κ ρ} {hi : Nat}
  {next : MergeSystem κ ρ}

theorem Inv.commit (inv : Inv s) (fits : changesFit (tablesAfter s.log.flatten) changes = true) :
    Inv { s with log := s.log ++ [changes] } where
  applied := inv.applied
  replayed := inv.replayed.trans (by rw [List.length_append]; exact Nat.le_add_right _ _)
  frame frame opened := by
    obtain ⟨found, batch⟩ := inv.frame frame opened
    refine ⟨?_, batch⟩
    rw [List.getElem?_append_left (List.getElem?_eq_some_iff.mp found).1, found]
  idle := inv.idle
  closed := inv.closed
  fits := by
    rw [List.flatten_append, changesFit_append, inv.fits, List.flatten_singleton]
    exact fits
  agrees := by
    rw [originNow_commit changes inv.replayed]
    exact inv.agrees
  stamps := inv.stamps
  tables := by
    rw [originAt_commit changes (inv.applied.trans inv.replayed)]
    exact inv.tables
  uncached := inv.uncached
  batch := by
    rw [changesSince_commit changes inv.replayed]
    exact inv.batch
  populations key pop found := (inv.populations key pop found).commit changes inv.replayed
  active := inv.active
  completions completion inside := by
    obtain ⟨past, faithful⟩ := inv.completions completion inside
    refine ⟨past.trans ?_, faithful.commit changes past⟩
    rw [List.length_append]
    exact Nat.le_add_right _ _

theorem InFlight.retrack (inFlight : InFlight log lsn replayed writer key pop)
    {deletedKeys : PopulationDeletedKeys κ}
    (anchored : ∀ oid floor, writer.deletedKeys.Anchored key oid floor →
      deletedKeys.Anchored key oid floor)
    (marked : ∀ oid rowKey floor, writer.deletedKeys.Anchored key oid floor →
      writer.deletedKeys.Marked oid rowKey floor → deletedKeys.Marked oid rowKey floor) :
    InFlight log lsn replayed { writer with deletedKeys := deletedKeys } key pop :=
  { inFlight with
    anchored := fun oid hm => anchored oid _ (inFlight.anchored oid hm)
    covered := fun current staged hm caught =>
      (inFlight.covered current staged hm caught).imp_right (·.imp_right (·.imp_left
        (marked _ _ _ (inFlight.anchored _ (inFlight.staged staged hm).relation)))) }

omit [DecidableEq κ] in
theorem populations_insert {holds : PopulationKey → Population κ ρ → Prop}
    (os : ∀ other pop, other ≠ key → populations.lookup other = some pop →
      holds other pop) (own : holds key pop) (other : PopulationKey)
    (found : Population κ ρ)
    (inserted : (populations.insert key pop).lookup other = some found) :
    holds other found := by
  by_cases same : other = key
  · subst same
    rw [AList.lookup_insert] at inserted
    cases inserted
    exact own
  · rw [AList.lookup_insert_ne same] at inserted
    exact os other found same inserted

variable (inv : Inv s)
include inv

theorem Inv.activate [DecidableEq ρ] {relationOids : List Oid} {anchorFloor : Nat}
    (stepped : step s (.activate key relationOids anchorFloor) = some next) : Inv next := by
  obtain ⟨⟨fresh, unknown, hc, past⟩, ⟨⟩⟩ := ite_none_right_eq_some.mp stepped
  exact { inv with
    agrees := inv.agrees.retrack fun _ _ _ filters => filters.of_activate
    stamps := fun oid rowKey stamp filters => inv.stamps oid rowKey stamp filters.of_activate
    populations := populations_insert (fun other pop different found =>
        (inv.populations other pop found).retrack
          (fun _ _ anchored => anchored.activate different.symm relationOids anchorFloor)
          fun _ _ _ anchored marked =>
            marked.activate anchored different.symm relationOids anchorFloor)
      { anchored := fun oid inside =>
          anchored_activate (isNone_iff_eq_none.mp unknown) inside anchorFloor
        floor := past
        staged := fun _ => nofun
        drained := fun _ => nofun
        snapshot := fun _ => nofun
        cached := fun _ => hc
        covered := fun _ _ => nofun
        truncated := fun _ _ => nofun
        kept := fun _ _ => nofun }
    active := fun active holds => by
      obtain ⟨pop, snapshotLsn, found, rest⟩ := inv.active active holds
      refine ⟨pop, snapshotLsn, ?_, rest⟩
      rw [AList.lookup_insert_ne fun same => ?_, found]
      rw [← same, found] at fresh
      cases fresh }

theorem Inv.populationEnd (key : PopulationKey) : Inv (s.populationEnd key) :=
  { inv with
    agrees := inv.agrees.retrack fun _ _ _ filters => filters.of_deactivate
    stamps := fun oid rowKey stamp filters => inv.stamps oid rowKey stamp filters.of_deactivate
    populations := fun o pop hf => by
      by_cases same : o = key
      · subst same
        rw [MergeSystem.populationEnd, AList.lookup_erase] at hf
        cases hf
      · rw [MergeSystem.populationEnd, AList.lookup_erase_ne same] at hf
        exact (inv.populations o pop hf).retrack
          (fun _ _ anchored => anchored.deactivate (Ne.symm same))
          fun _ _ _ anchored marked => marked.deactivate anchored (Ne.symm same)
    active := fun active h => by
      unfold MergeSystem.populationEnd at h ⊢
      obtain ⟨hne, h⟩ := ite_none_left_eq_some.mp h
      obtain ⟨pop, snapshotLsn, hf, rest⟩ := inv.active active h
      have away : active ≠ key := fun same => hne (by rw [h, same])
      exact ⟨pop, snapshotLsn, (AList.lookup_erase_ne away).trans hf, rest⟩ }

theorem Inv.active_insert {found : Population κ ρ} (present : s.populations.lookup key = some found)
    (snapshot : ∀ snapshotLsn, found.snapshotLsn = some snapshotLsn →
      pop.snapshotLsn = some snapshotLsn) (active : PopulationKey)
    (h : s.active = some active) : ∃ next snapshotLsn,
      (s.populations.insert key pop).lookup active = some next ∧
        next.snapshotLsn = some snapshotLsn ∧ snapshotLsn ≤ s.appliedLsn := by
  obtain ⟨old, snapshotLsn, lookup, set, released⟩ := inv.active active h
  by_cases same : active = key
  · subst same
    cases present.symm.trans lookup
    exact ⟨pop, snapshotLsn, AList.lookup_insert _, snapshot snapshotLsn set, released⟩
  · exact ⟨old, snapshotLsn, by rw [AList.lookup_insert_ne same, lookup], set, released⟩

theorem Inv.repopulate {found : Population κ ρ} (present : s.populations.lookup key = some found)
    (inFlight : InFlight s.log s.replayedLsn (OpenFrame.changes s.frame) s.writer key pop)
    (snapshot : ∀ snapshotLsn, found.snapshotLsn = some snapshotLsn →
      pop.snapshotLsn = some snapshotLsn) :
    Inv { s with populations := s.populations.insert key pop } :=
  { inv with
    populations := populations_insert (fun o pop _ => inv.populations o pop) inFlight
    active := inv.active_insert present snapshot }

theorem Inv.frame_lt (opened : s.frame ≠ none) : s.replayedLsn < s.log.length := by
  obtain ⟨frame, some⟩ := ne_none_iff_exists'.mp opened
  exact (List.getElem?_eq_some_iff.mp (inv.frame frame some).1).1

theorem Inv.read [DecidableEq ρ] {rows : List (Oid × κ × ρ)}
    (hs : step s (.read key rows) = some next) : Inv next := by
  obtain ⟨pop, present, hs⟩ := bind_eq_some_iff.mp hs
  obtain ⟨⟨reading, seen⟩, ⟨⟩⟩ := ite_none_right_eq_some.mp hs
  have inFlight := inv.populations key pop present
  have wasRead : ∀ staged ∈ rows.map fun row =>
      (⟨row.1, row.2.1, row.2.2, s.log.length⟩ : StagedRow κ ρ),
      WasRead s.log pop.relationOids pop.anchorFloor staged ∧ staged.readAt = s.log.length := by
    intro staged hm
    obtain ⟨row, mem, rfl⟩ := mem_map.mp hm
    exact ⟨⟨(seen row mem).1, inFlight.floor, le_rfl, (seen row mem).2⟩, rfl⟩
  refine inv.repopulate present ?_ fun snapshotLsn set =>
    absurd (reading.symm.trans set) (some_ne_none snapshotLsn).symm
  exact { inFlight with
    staged := fun staged hm => (mem_append.mp hm).elim (inFlight.staged staged)
      fun new => (wasRead staged new).1
    snapshot := fun snapshotLsn set =>
      absurd (reading.symm.trans set) (some_ne_none snapshotLsn).symm
    covered := fun current staged hm caught => by
      obtain old | new := mem_append.mp hm
      · exact inFlight.covered current staged old caught
      · -- everything in the log is replayed, so the row is still as it was read
        obtain ⟨read, now⟩ := wasRead staged new
        have idle : s.frame = none := by
          by_contra opened
          exact absurd (inv.frame_lt opened) (by omega)
        have whole : s.replayedLsn = staged.readAt := by
          have := inv.replayed
          omega
        refine .inr (.inr (.inr (.inr ?_)))
        rw [idle, OpenFrame.changes, map_none, getD_none, originNow_nil, whole]
        exact read.origin
    truncated := fun current staged hm emptied => by
      obtain old | new := mem_append.mp hm
      · exact inFlight.truncated current staged old emptied
      · rw [(wasRead staged new).2]
        refine inv.frame_lt fun idle => ?_
        rw [(inv.idle idle).2.2] at emptied
        exact absurd emptied not_mem_nil }

theorem Inv.staged [DecidableEq ρ]
    (hs : step s (.staged key snapshotLsn) = some next) : Inv next := by
  obtain ⟨pop, present, hs⟩ := bind_eq_some_iff.mp hs
  obtain ⟨⟨reading, b⟩, ⟨⟩⟩ := ite_none_right_eq_some.mp hs
  refine inv.repopulate present { inv.populations key pop present with
    snapshot := fun lsn set => some_inj.mp set ▸ b } fun lsn set => ?_
  cases reading.symm.trans set

omit inv

theorem InFlight.superseded (inFlight : InFlight log lsn replayed writer key pop) :
    InFlight log lsn replayed writer key { pop with current := false } :=
  { inFlight with
    cached := nofun
    covered := nofun
    truncated := nofun
    kept := nofun }

variable (inv : Inv s)
include inv

theorem Inv.supersede [DecidableEq ρ] (hs : step s (.supersede key) = some next) : Inv next := by
  cases hs
  exact { inv with
    populations := fun o pop hf => by
      rw [lookup_adjust] at hf
      split at hf
      · obtain ⟨old, present, rfl⟩ := map_eq_some_iff.mp hf
        exact (inv.populations o old present).superseded
      · exact inv.populations o pop hf
    active := fun active h => by
      obtain ⟨pop, snapshotLsn, hf, rest⟩ := inv.active active h
      by_cases same : active = key
      · exact ⟨{ pop with current := false }, snapshotLsn,
          by rw [lookup_adjust, if_pos same, hf]; rfl, rest⟩
      · exact ⟨pop, snapshotLsn, by rw [lookup_adjust, if_neg same, hf], rest⟩ }

variable {oid : Oid} {remaining : List (Change κ ρ)}

theorem Inv.createTable [DecidableEq ρ]
    (hs : step s (.createTable oid) = some next) : Inv next := by
  cases hs
  exact { inv with
    agrees := { inv.agrees with
      uncached := fun oid' key ha =>
        inv.agrees.uncached oid' key fun hm => ha (mem_cons_of_mem oid hm) }
    uncached := fun oid' key ha =>
      inv.uncached oid' key fun hm => ha (mem_cons_of_mem oid hm)
    populations := fun key pop hf => { inv.populations key pop hf with
      cached := fun current oid' hm =>
        mem_cons_of_mem oid ((inv.populations key pop hf).cached current oid' hm)
      covered := (inv.populations key pop hf).covered } }

omit [DecidableEq κ] inv in
theorem clear_other (tables : Tables κ ρ) {oid' : Oid} (o : oid' ≠ oid) (key : κ) :
    tables.clear [oid] oid' key = tables oid' key :=
  if_neg fun hm => o (mem_singleton.mp hm)

omit [DecidableEq κ] inv in
theorem clear_some {tables : Tables κ ρ} {oids : List Oid} {key : κ} {row : ρ}
    (hf : tables.clear oids oid key = some row) : oid ∉ oids ∧ tables oid key = some row :=
  ite_none_left_eq_some.mp hf

theorem Inv.quiet (closed : s.batchOpen = false) : s.frame = none := by
  by_contra opened
  obtain ⟨frame, some⟩ := ne_none_iff_exists'.mp opened
  cases closed.symm.trans (inv.frame frame some).2

theorem Inv.unmarked (idle : s.frame = none) (oid : Oid)
    (rowKey : κ) : (oid, rowKey) ∉ s.writer.frameDeletedKeys ∧
      (oid, rowKey) ∉ s.writer.frameToastStaleKeys := by
  rw [(inv.idle idle).1, (inv.idle idle).2.1]
  exact ⟨not_mem_nil, not_mem_nil⟩

theorem Inv.dropTable [DecidableEq ρ] (calm : ∀ key, s.writer.deletedKeys.filtered oid key = false)
    (hs : step s (.dropTable oid) = some next) : Inv next := by
  obtain ⟨⟨closed, unreferenced⟩, ⟨⟩⟩ := ite_none_right_eq_some.mp hs
  obtain ⟨-, same⟩ := inv.closed closed
  have untracked : ∀ key, ¬ s.writer.Tracked oid key := by
    rintro key (pending | filters)
    · exact absurd pending (inv.unmarked (inv.quiet closed) oid key).1
    · have held := (filtered_iff _ oid key).mpr filters
      cases (calm key).symm.trans held
  have gone : ∀ key, s.tables.clear [oid] oid key = none := fun key =>
    if_pos (mem_singleton.mpr rfl)
  have elsewhere : ∀ oid', oid' ∉ s.writer.cachedRelations.filter (· ≠ oid) → oid' ≠ oid →
      oid' ∉ s.writer.cachedRelations := fun oid' ha o hm =>
    ha (mem_filter.mpr ⟨hm, decide_eq_true o⟩)
  exact { inv with
    closed := fun _ => ⟨(inv.closed closed).1, rfl⟩
    agrees := {
      working := fun oid' key row written =>
        inv.agrees.working oid' key row (same ▸ (clear_some written).2)
      tracked := inv.agrees.tracked
      uncached := fun oid' key ha => by
        by_cases o : oid' = oid
        · subst o
          exact ⟨gone key, untracked key⟩
        · obtain ⟨empty, free⟩ := inv.agrees.uncached oid' key (elsewhere oid' ha o)
          exact ⟨(clear_other s.tables o key).trans (same ▸ empty), free⟩ }
    tables := fun oid' key row hf => inv.tables oid' key row (clear_some hf).2
    uncached := fun oid' key ha => by
      by_cases o : oid' = oid
      · subst o
        exact gone key
      · exact (clear_other s.tables o key).trans (inv.uncached oid' key (elsewhere oid' ha o))
    batch := fun oid' _ key => ⟨rfl, inv.unmarked (inv.quiet closed) oid' key⟩
    populations := fun key pop hf => by
      have inFlight := inv.populations key pop hf
      have o : pop.current = true → ∀ oid' ∈ pop.relationOids, oid' ≠ oid :=
        fun current oid' hm he => unreferenced ⟨key, pop⟩
          ((Data.Keyed.mem_entries_iff _ _ _).mpr hf) current (he ▸ hm)
      exact { inFlight with
        cached := fun current oid' hm => mem_filter.mpr
          ⟨inFlight.cached current oid' hm, decide_eq_true (o current oid' hm)⟩
        covered := fun current staged hm caught => by
          have rel := (inFlight.staged staged hm).relation
          have covered := inFlight.covered current staged hm caught
          rw [Covered, same] at covered
          rw [Covered]
          dsimp only
          rwa [clear_other s.tables (o current _ rel)]
        kept := fun current staged hm untouched => by
          have rel := (inFlight.drained staged hm).1.relation
          have kept := inFlight.kept current staged hm untouched
          rw [same] at kept
          dsimp only
          rwa [clear_other s.tables (o current _ rel)] } }

theorem Inv.openFrame [DecidableEq ρ] (hs : step s .frame = some next) : Inv next := by
  obtain ⟨idle, hs⟩ := ite_none_right_eq_some.mp hs
  obtain ⟨changes, upcoming, rfl⟩ := map_eq_some_iff.mp hs
  have same : OpenFrame.changes s.frame = [] := by
    rw [isNone_iff_eq_none.mp idle]
    rfl
  exact { inv with
    frame := fun frame opened => by
      cases opened
      exact ⟨upcoming, rfl⟩
    idle := nofun
    closed := nofun
    agrees := same ▸ inv.agrees
    batch := same ▸ inv.batch
    populations := fun key pop hf => same ▸ inv.populations key pop hf }

omit inv

omit [DecidableEq κ] in
theorem take_succ (hf : log[lsn]? = some changes) :
    log.take (lsn + 1) = log.take lsn ++ [changes] := by
  rw [take_add_one, hf, toList_some]

omit [DecidableEq κ] in
theorem flatten_at (hf : log[lsn]? = some changes) :
    log.flatten = (log.take lsn).flatten ++ changes ++ (log.drop (lsn + 1)).flatten := by
  have split := take_flatten_split log (Nat.le_of_lt (List.getElem?_eq_some_iff.mp hf).1)
  rw [List.take_length] at split
  rw [split, List.append_assoc]
  congr 1
  rw [List.drop_eq_getElem?_toList_append, hf]
  rfl

theorem Inv.next_fits (inv : Inv s) (opened : s.frame = some ⟨done, change :: remaining⟩) :
    change.fits (originNow s.log s.replayedLsn done) = true := by
  have fits := inv.fits
  rw [flatten_at (inv.frame _ opened).1, append_assoc, append_assoc, changesFit_append,
    changesFit_append, cons_append, changesFit] at fits
  simp only [Bool.and_eq_true] at fits
  rw [originNow, tablesAfter, foldl_append]
  exact fits.2.2.1

theorem InFlight.replay {next : Cdc.RowReplay.Writer κ ρ} {matched : Bool}
    (inFlight : InFlight log lsn replayed writer key pop)
    (fits : change.fits (originNow log lsn replayed) = true)
    (handled : Replayed writer matched change next)
    (kept : pop.current = true → ∀ oids, change = .truncate oids →
      ∀ oid ∈ pop.relationOids, oid ∉ oids) :
    InFlight log lsn (replayed ++ [change]) next key pop where
  anchored oid inside := handled.outside.anchored key oid _ (inFlight.anchored oid inside)
  floor := inFlight.floor
  staged := inFlight.staged
  drained := inFlight.drained
  snapshot := inFlight.snapshot
  cached current oid inside := by
    rw [handled.outside.cached]
    exact inFlight.cached current oid inside
  covered current staged inside caught := by
    have rel := (inFlight.staged staged inside).relation
    rw [originNow_append]
    exact (inFlight.covered current staged inside caught).replayed
      (inFlight.anchored staged.oid rel) (inFlight.cached current staged.oid rel) fits
      handled fun oids emptied => kept current oids emptied staged.oid rel
  truncated current staged inside emptied := by
    obtain before | ⟨oids, now, hm⟩ := handled.truncated emptied
    · exact inFlight.truncated current staged inside before
    · exact absurd hm (kept current oids now staged.oid (inFlight.staged staged inside).relation)
  kept current staged inside untouched := by
    rw [changesSince, ← append_assoc] at untouched
    rw [handled.outside.working staged.oid staged.key
      (untouched change (mem_append_right _ (mem_singleton.mpr rfl)))]
    exact inFlight.kept current staged inside fun earlier hm =>
      untouched earlier (mem_append_left _ hm)

omit [DecidableEq κ] in
theorem lookup_supersedeOver {oids : List Oid}
    (hf : (supersedeOver oids populations).lookup key = some pop) :
    ∃ old, populations.lookup key = some old ∧ (pop = { old with current := false } ∨
        pop = old ∧ ∀ oid ∈ old.relationOids, oid ∉ oids) := by
  obtain ⟨old, present, kept⟩ := (lookup_retain _ _ _ _).mp hf
  refine ⟨old, present, ?_⟩
  have same := some_inj.mp kept
  split at same
  · exact .inl same.symm
  · rename_i apart
    refine .inr ⟨same.symm, fun oid hm mem => apart ?_⟩
    exact any_eq_true.mpr ⟨oid, hm, decide_eq_true mem⟩

omit [DecidableEq κ] in
theorem supersedeOver_lookup (oids : List Oid) (present : populations.lookup key = some pop) :
    ∃ next, (supersedeOver oids populations).lookup key = some next ∧
      next.snapshotLsn = pop.snapshotLsn := by
  refine ⟨_, (lookup_retain _ _ _ _).mpr ⟨pop, present, rfl⟩, ?_⟩
  split <;> rfl

theorem Inv.replay (inv : Inv s) {matched complete : Bool}
    (opened : s.frame = some ⟨done, change :: remaining⟩)
    (calm : s.writer.Calm matched complete change)
    (kept : ∀ key pop, populations.lookup key = some pop →
      ∃ old, s.populations.lookup key = some old ∧ (pop = { old with current := false } ∨
          pop = old ∧ ∀ oids, change = .truncate oids → ∀ oid ∈ old.relationOids, oid ∉ oids))
    (stay : ∀ key pop, s.populations.lookup key = some pop →
      ∃ next, populations.lookup key = some next ∧ next.snapshotLsn = pop.snapshotLsn) :
    Inv { s with
      frame := some ⟨done ++ [change], remaining⟩
      writer := s.writer.eventReplay matched complete change
      populations := populations } := by
  have handled := eventReplay_replayed calm
  have agrees := inv.agrees
  have batch := inv.batch
  rw [opened] at agrees batch
  exact { inv with
    frame := fun frame same => by
      cases same
      obtain ⟨hf, batch⟩ := inv.frame _ opened
      refine ⟨?_, batch⟩
      rw [hf, append_assoc]
      rfl
    idle := nofun
    closed := fun closed => absurd (inv.quiet closed) (by rw [opened]; exact some_ne_none _)
    agrees := by
      have after := agrees.replayed (inv.next_fits opened) handled
      rwa [← originNow_append] at after
    stamps := fun oid key stamp filters =>
      inv.stamps oid key stamp (handled.outside.filters oid key stamp filters)
    uncached := fun oid key ha => by
      rw [handled.outside.cached] at ha
      exact inv.uncached oid key ha
    batch := fun oid apart key => by
      have last : ¬ change.Touches oid key := fun touches =>
        apart change (mem_append_right _ (mem_append_right _ (mem_singleton.mpr rfl)))
          touches.relation
      obtain ⟨working, pending, stale⟩ := batch oid (fun earlier hm => apart earlier (by
          obtain whole | open' := mem_append.mp hm
          · exact mem_append_left _ whole
          · exact mem_append_right _ (mem_append_left _ open'))) key
      rw [handled.outside.working oid key last, handled.outside.pending oid key last,
        handled.outside.stale oid key last]
      exact ⟨working, pending, stale⟩
    populations := fun key pop hf => by
      obtain ⟨old, present, shape⟩ := kept key pop hf
      have inFlight := inv.populations key old present
      rw [opened] at inFlight
      -- a truncate supersedes the populations over its relations
      obtain rfl | ⟨rfl, apart⟩ := shape
      · exact inFlight.superseded.replay (inv.next_fits opened) handled nofun
      · exact inFlight.replay (inv.next_fits opened) handled fun _ => apart
    active := fun active h => by
      obtain ⟨pop, snapshotLsn, hf, set, released⟩ := inv.active active h
      obtain ⟨next, present, same⟩ := stay active pop hf
      exact ⟨next, snapshotLsn, present, same.trans set, released⟩ }

variable {readAt : Nat}

omit [DecidableEq κ] in
theorem changesSince_boundary (hf : log[lsn]? = some done) (earlier : readAt ≤ lsn) :
    changesSince log (lsn + 1) [] readAt = changesSince log lsn done readAt := by
  have length : readAt ≤ (log.take lsn).length := by
    rw [List.length_take]
    exact le_min earlier (earlier.trans (Nat.le_of_lt (List.getElem?_eq_some_iff.mp hf).1))
  rw [changesSince, changesSince, take_succ hf, List.drop_append_of_le_length length,
    List.flatten_append, List.flatten_singleton, List.append_nil]

theorem originNow_boundary (hf : log[lsn]? = some done) :
    originNow log (lsn + 1) [] = originNow log lsn done := by
  rw [originNow, originNow, take_succ hf, flatten_append, flatten_singleton, append_nil]

theorem InFlight.boundary (inFlight : InFlight log lsn done writer key pop)
    (hf : log[lsn]? = some done) :
    InFlight log (lsn + 1) [] (writer.frameKeysStamp (lsn + 1)) key pop where
  anchored oid inside := anchored_frameKeysStamp (inFlight.anchored oid inside) (lsn + 1)
  floor := inFlight.floor
  staged := inFlight.staged
  drained staged inside := (inFlight.drained staged inside).imp_right Nat.le_succ_of_le
  snapshot := inFlight.snapshot
  cached := inFlight.cached
  covered current staged inside caught := by
    have wasRead := inFlight.staged staged inside
    obtain before | now := Nat.le_succ_iff.mp caught
    · have apart : staged.oid ∉ writer.frameTruncatedRelations := fun emptied =>
        absurd (inFlight.truncated current staged inside emptied) (Nat.not_lt.mpr before)
      rw [originNow_boundary hf]
      exact (inFlight.covered current staged inside before).frameKeysStamp
        (inFlight.anchored staged.oid wasRead.relation)
        (Nat.lt_succ_of_le (wasRead.floor.trans before)) apart
    · refine .inr (.inr (.inr (.inr ?_)))
      have origin := wasRead.origin
      rwa [now, ← originNow_nil] at origin
  truncated _ _ _ emptied := absurd emptied not_mem_nil
  kept current staged inside untouched := by
    rw [changesSince_boundary hf (inFlight.drained staged inside).2] at untouched
    exact inFlight.kept current staged inside untouched

theorem Inv.boundary (inv : Inv s) (opened : s.frame = some ⟨done, []⟩) : Inv { s with
      frame := none
      replayedLsn := s.replayedLsn + 1
      writer := s.writer.frameKeysStamp (s.replayedLsn + 1) } := by
  obtain ⟨hf, batchOpen⟩ := inv.frame _ opened
  rw [List.append_nil] at hf
  have agrees := inv.agrees
  have batch := inv.batch
  rw [opened] at agrees batch
  exact { inv with
    applied := Nat.le_succ_of_le inv.applied
    replayed := (List.getElem?_eq_some_iff.mp hf).1
    frame := nofun
    idle := fun _ => ⟨rfl, rfl, rfl⟩
    closed := fun closed => absurd (batchOpen.symm.trans closed) Bool.false_ne_true.symm
    agrees := by
      have stamped := agrees.frameKeysStamp (s.replayedLsn + 1)
      exact (originNow_boundary hf).symm ▸ stamped
    stamps := fun oid key stamp filters => by
      obtain ⟨-, ⟨-, last⟩ | kept⟩ := filters_frameKeysStamp filters
      · exact last.le
      · exact Nat.le_succ_of_le (inv.stamps oid key stamp kept)
    batch := fun oid apart key => by
      refine ⟨?_, List.not_mem_nil, List.not_mem_nil⟩
      have hb : changesSince s.log (s.replayedLsn + 1) [] s.appliedLsn =
          changesSince s.log s.replayedLsn done s.appliedLsn :=
        changesSince_boundary hf inv.applied
      exact (batch oid (hb ▸ apart) key).1
    populations := fun key pop present => by
      have inFlight := inv.populations key pop present
      rw [opened] at inFlight
      exact inFlight.boundary hf }

theorem Inv.flush [DecidableEq ρ] (inv : Inv s) (hs : step s .flush = some next) : Inv next := by
  obtain ⟨⟨-, idle⟩, ⟨⟩⟩ := ite_none_right_eq_some.mp hs
  have idle := isNone_iff_eq_none.mp idle
  have agrees := inv.agrees
  rw [idle] at agrees
  exact { inv with
    applied := le_rfl
    frame := fun frame opened => absurd (idle.symm.trans opened) (some_ne_none frame).symm
    closed := fun _ => ⟨rfl, rfl⟩
    tables := fun oid key row hf => by
      rw [← originNow_nil]
      exact agrees.working oid key row hf
    uncached := fun oid key ha => (agrees.uncached oid key ha).1
    batch := fun oid _ key => ⟨rfl, inv.unmarked idle oid key⟩
    active := fun active h => by
      obtain ⟨pop, snapshotLsn, hf, set, released⟩ := inv.active active h
      exact ⟨pop, snapshotLsn, hf, set, released.trans inv.applied⟩ }

omit [DecidableEq κ] in
theorem mem_changesSince (later : lsn ≤ hi) (hm : change ∈ changesSince log lsn [] readAt) :
    change ∈ changesSince log hi [] readAt := by
  have split := take_append_drop lsn (log.take hi)
  rw [take_take, Nat.min_eq_left later] at split
  rw [changesSince, append_nil] at hm ⊢
  rw [← split, drop_append, flatten_append]
  exact mem_append_left _ hm

theorem Inv.mem_batch (inv : Inv s) (later : s.replayedLsn ≤ hi)
    (beyond : s.frame.isSome → s.replayedLsn < hi) (earlier : readAt ≤ s.replayedLsn)
    (hm : change ∈ changesSince s.log s.replayedLsn (OpenFrame.changes s.frame)
      readAt) : change ∈ changesSince s.log hi [] readAt := by
  cases opened : s.frame with
  | none =>
    rw [opened] at hm
    exact mem_changesSince later hm
  | some frame =>
    rw [opened] at hm
    have hf := (inv.frame frame opened).1
    refine mem_changesSince (beyond (by rw [opened]; rfl)) ?_
    rw [changesSince_boundary hf earlier, changesSince]
    obtain whole | done := mem_append.mp hm
    · exact mem_append_left _ whole
    · exact mem_append_right _ (mem_append_left _ done)

omit [DecidableEq κ] in
theorem untouched_of_apart (apart : oid ∉ changes.flatMap Change.relations)
    (rowKey : κ) : Untouched changes oid rowKey :=
  fun change hm touches =>
    apart (mem_flatMap.mpr ⟨change, hm, touches.relation⟩)

theorem originAt_apart {lo : Nat} (apart : oid ∉ batchRelations log lo hi)
    (above : lo ≤ lsn) (below : lsn ≤ hi) (rowKey : κ) :
    originAt log lsn oid rowKey = originAt log lo oid rowKey := by
  rw [← originNow_nil]
  refine originNow_untouched above fun change hm => ?_
  have mem := mem_changesSince below hm
  rw [changesSince, append_nil] at mem
  exact untouched_of_apart apart rowKey change mem

theorem Inv.apart (inv : Inv s) (later : s.replayedLsn ≤ hi)
    (beyond : s.frame.isSome → s.replayedLsn < hi)
    (apart : oid ∉ batchRelations s.log s.appliedLsn hi) (rowKey : κ) :
    (s.writer.working oid rowKey = s.tables oid rowKey ∧ (oid, rowKey) ∉ s.writer.frameDeletedKeys ∧
      (oid, rowKey) ∉ s.writer.frameToastStaleKeys) ∧
    originNow s.log s.replayedLsn (OpenFrame.changes s.frame) oid rowKey =
      originAt s.log hi oid rowKey := by
  have mem : ∀ change ∈ changesSince s.log s.replayedLsn (OpenFrame.changes s.frame) s.appliedLsn,
      change ∈ ((s.log.take hi).drop s.appliedLsn).flatten := fun change hm => by
    have whole := inv.mem_batch later beyond inv.applied hm
    rwa [changesSince, append_nil] at whole
  refine ⟨inv.batch oid (fun change hm rel => apart
    (mem_flatMap.mpr ⟨change, mem change hm, rel⟩)) rowKey, ?_⟩
  rw [originAt_apart apart (inv.applied.trans later) le_rfl rowKey]
  exact originNow_untouched inv.applied fun change hm =>
    untouched_of_apart apart rowKey change (mem change hm)

theorem Inv.recover_inFlight (inv : Inv s) (later : s.replayedLsn ≤ hi)
    (beyond : s.frame.isSome → s.replayedLsn < hi)
    (inFlight : InFlight s.log s.replayedLsn (OpenFrame.changes s.frame) s.writer key pop)
    (apart : pop.current = true → ∀ oid ∈ pop.relationOids,
      oid ∉ batchRelations s.log s.appliedLsn hi) :
    InFlight s.log hi [] (frameRecover s hi).writer key pop := by
  have recovered : ∀ oid, oid ∉ batchRelations s.log s.appliedLsn hi → ∀ rowKey,
      (frameRecover s hi).writer.working oid rowKey = s.writer.working oid rowKey :=
    fun oid apart rowKey => (if_neg apart).trans (inv.apart later beyond apart rowKey).1.1.symm
  exact {
    anchored := fun oid hm => anchored_abortBelow_fold _ (inFlight.anchored oid hm)
    floor := inFlight.floor
    staged := inFlight.staged
    drained := fun staged hm => (inFlight.drained staged hm).imp_right (·.trans later)
    snapshot := inFlight.snapshot
    cached := inFlight.cached
    covered := fun current staged hm caught => by
      have wasRead := inFlight.staged staged hm
      have apart := apart current staged.oid wasRead.relation
      obtain ⟨⟨-, unpending, unstale⟩, same⟩ := inv.apart later beyond apart staged.key
      rw [originNow_nil]
      by_cases hb : staged.readAt ≤ s.replayedLsn
      · obtain pending | stale | marked | present | alive :=
          inFlight.covered current staged hm hb
        · exact absurd pending unpending
        · exact absurd stale unstale
        · exact .inr (.inr (.inl (marked_abortBelow_fold _ apart marked)))
        · exact .inr (.inr (.inr (.inl ((recovered staged.oid apart staged.key).trans_ne present))))
        · exact .inr (.inr (.inr (.inr (same ▸ alive))))
      · -- the row was read after the frames replayed so far, and no frame of the batch changes it
        have above : s.appliedLsn ≤ staged.readAt := by
          have := inv.applied
          omega
        refine .inr (.inr (.inr (.inr ?_)))
        rw [originAt_apart apart (inv.applied.trans later) le_rfl,
          ← originAt_apart apart above caught]
        exact wasRead.origin
    truncated := fun _ _ _ emptied => absurd emptied not_mem_nil
    kept := fun current staged hm untouched => by
      obtain ⟨wasRead, caught⟩ := inFlight.drained staged hm
      rw [recovered staged.oid (apart current staged.oid wasRead.relation)]
      exact inFlight.kept current staged hm fun change mem =>
        untouched change (inv.mem_batch later beyond caught mem) }

theorem Inv.recover (inv : Inv s) (later : s.replayedLsn ≤ hi)
    (past : hi ≤ s.log.length) (beyond : s.frame.isSome → s.replayedLsn < hi) :
    Inv (frameRecover s hi) := by
  have rows : ∀ oid key row, (frameRecover s hi).tables oid key = some row →
      originAt s.log hi oid key = some row := fun oid key row hf => by
    obtain ⟨apart, hb⟩ := clear_some hf
    rw [originAt_apart apart (inv.applied.trans later) le_rfl]
    exact inv.tables oid key row hb
  have empty : ∀ oid key, oid ∉ s.writer.cachedRelations →
      (frameRecover s hi).tables oid key = none := fun oid key ha => by
    have hb := inv.uncached oid key ha
    change (if _ then none else s.tables oid key) = none
    rw [hb, ite_self]
  have back : ∀ oid key, (frameRecover s hi).writer.Tracked oid key → s.writer.Tracked oid key ∧
        oid ∉ batchRelations s.log s.appliedLsn hi := by
    rintro oid key (pending | ⟨stamp, filters⟩)
    · cases pending
    · obtain ⟨kept, above⟩ := filters_abortBelow_fold _ filters
      have stamped := inv.stamps oid key stamp kept
      exact ⟨.inr ⟨stamp, kept⟩, fun hm => absurd (above hm) (by omega)⟩
  exact {
    applied := le_rfl
    replayed := past
    frame := nofun
    idle := fun _ => ⟨rfl, rfl, rfl⟩
    closed := fun _ => ⟨rfl, rfl⟩
    fits := inv.fits
    agrees := by
      refine ⟨fun oid key row hf => ?_, fun oid key tracked => .inl ?_, fun oid key ha =>
        ⟨empty oid key ha, fun tracked =>
          (inv.agrees.uncached oid key ha).2 (back oid key tracked).1⟩⟩
      · exact (originNow_nil s.log hi).symm ▸ rows oid key row hf
      · obtain ⟨tracked, apart⟩ := back oid key tracked
        obtain ⟨⟨-, -, unstale⟩, same⟩ := inv.apart later beyond apart key
        have dead := (inv.agrees.tracked oid key tracked).resolve_right unstale
        rw [same] at dead
        exact (originNow_nil s.log hi).symm ▸ dead
    stamps := fun oid key stamp filters =>
      (inv.stamps oid key stamp (filters_abortBelow_fold _ filters).1).trans later
    tables := rows
    uncached := empty
    batch := fun _ _ _ => ⟨rfl, not_mem_nil, not_mem_nil⟩
    populations := fun key pop hf => by
      obtain ⟨old, present, rfl | ⟨rfl, apart⟩⟩ := lookup_supersedeOver hf
      · exact inv.recover_inFlight later beyond (inv.populations key old present).superseded nofun
      · exact inv.recover_inFlight later beyond (inv.populations key _ present) fun _ => apart
    active := fun active h => by
      obtain ⟨pop, snapshotLsn, hf, set, released⟩ := inv.active active h
      obtain ⟨next, present, same⟩ := supersedeOver_lookup (batchRelations s.log s.appliedLsn hi) hf
      exact ⟨next, snapshotLsn, present, same.trans set, released.trans (inv.applied.trans later)⟩
    completions := inv.completions }

section Chunk

variable {deletedKeys : PopulationDeletedKeys κ} {tables : Tables κ ρ}
  {chunk : List (StagedRow κ ρ)} {oid : Oid} {rowKey : κ} {row : ρ}

theorem mergeRow_kept {staged : StagedRow κ ρ} (hf : tables oid rowKey = some row) :
    mergeRow deletedKeys tables staged oid rowKey = some row := by
  unfold mergeRow
  split
  · exact hf
  · rename_i free
    rw [Tables.set_other, hf]
    intro same
    obtain ⟨rfl, rfl⟩ := Prod.mk.inj same
    rw [hf, isSome_some, Bool.or_true] at free
    exact free rfl

theorem mergeRows_kept (hf : tables oid rowKey = some row) :
    chunk.foldl (mergeRow deletedKeys) tables oid rowKey = some row := by
  induction chunk generalizing tables with
  | nil => exact hf
  | cons staged chunk ih => exact ih (mergeRow_kept hf)

theorem mergeRows_some (hf : chunk.foldl (mergeRow deletedKeys) tables oid rowKey = some row) :
    tables oid rowKey = some row ∨ tables oid rowKey = none ∧
      ∃ staged ∈ chunk, (staged.oid, staged.key, staged.row) = (oid, rowKey, row) ∧
        deletedKeys.filtered oid rowKey = false := by
  induction chunk generalizing tables with
  | nil => exact .inl hf
  | cons head chunk ih =>
    obtain old | ⟨free, staged, hm, same⟩ := ih hf
    · by_cases own : (oid, rowKey) = (head.oid, head.key)
      · obtain ⟨rfl, rfl⟩ := Prod.mk.inj own
        unfold mergeRow at old
        split at old
        · exact .inl old
        · rename_i open'
          rw [Bool.or_eq_true, not_or, Bool.not_eq_true, Bool.not_eq_true,
            isSome_eq_false_iff, isNone_iff_eq_none] at open'
          rw [Tables.set_self] at old
          exact .inr ⟨open'.2, head, mem_cons_self, by rw [some_inj.mp old], open'.1⟩
      · unfold mergeRow at old
        split at old
        · exact .inl old
        · exact .inl ((Tables.set_other _ _ own).symm.trans old)
    · refine .inr ⟨?_, staged, mem_cons_of_mem head hm, same⟩
      cases hb : tables oid rowKey with
      | none => rfl
      | some o =>
        rw [mergeRow_kept hb] at free
        exact absurd free (some_ne_none o)

theorem mergeRows_present {staged : StagedRow κ ρ} (hm : staged ∈ chunk)
    (unfiltered : deletedKeys.filtered staged.oid staged.key = false) :
    chunk.foldl (mergeRow deletedKeys) tables staged.oid staged.key ≠ none := by
  induction chunk generalizing tables with
  | nil => exact absurd hm not_mem_nil
  | cons head chunk ih =>
    obtain rfl | later := mem_cons.mp hm
    · have now : ∃ row, mergeRow deletedKeys tables staged staged.oid staged.key = some row := by
        unfold mergeRow
        split
        · rename_i taken
          rw [unfiltered, Bool.false_or] at taken
          exact isSome_iff_exists.mp taken
        · exact ⟨staged.row, Tables.set_self _ _ _ _⟩
      obtain ⟨row, hf⟩ := now
      rw [foldl_cons, mergeRows_kept hf]
      exact some_ne_none row
    · exact ih later

end Chunk

theorem InFlight.merged (inFlight : InFlight log lsn replayed writer key pop) {tables : Tables κ ρ}
    (grown : ∀ oid rowKey row, writer.working oid rowKey = some row →
      tables oid rowKey = some row) :
    InFlight log lsn replayed { writer with working := tables } key pop :=
  { inFlight with
    covered := fun current staged hm caught => by
      refine (inFlight.covered current staged hm caught).imp_right
        (·.imp_right (·.imp_right (·.imp_left fun taken => ?_)))
      obtain ⟨row, hf⟩ := ne_none_iff_exists'.mp taken
      exact (grown _ _ row hf).trans_ne (some_ne_none row)
    kept := fun current staged hm untouched =>
      grown _ _ _ (inFlight.kept current staged hm untouched) }

variable (inv : Inv s)
include inv

theorem Inv.agrees_applied (closed : s.batchOpen = false) :
    Agrees s.writer (originAt s.log s.appliedLsn) := by
  have agrees := inv.agrees
  rw [inv.quiet closed, ← (inv.closed closed).1] at agrees
  exact originNow_nil s.log s.appliedLsn ▸ agrees

section Merge

variable (closed : s.batchOpen = false)
  (present : s.populations.lookup key = some pop) (current : pop.current = true)
  (set : pop.snapshotLsn = some snapshotLsn) (released : snapshotLsn ≤ s.appliedLsn)
  (kept : mergeKeysLost s.writer.deletedKeys pop snapshotLsn = false)
  (fresh : mergeToastStaleHit s.writer.deletedKeys key oid pop.staged = false)

include closed present current set released kept fresh

/-- What a merge may meet in its staging: a row that the filter omits, one whose key is cached, or
one that is still at origin. -/
theorem Inv.staged_cases {staged : StagedRow κ ρ} (hm : staged ∈ pop.staged)
    (tg : staged.oid = oid) :
    s.writer.deletedKeys.filtered staged.oid staged.key = true ∨
      s.writer.working staged.oid staged.key ≠ none ∨
      originAt s.log s.appliedLsn staged.oid staged.key = some staged.row := by
  have inFlight := inv.populations key pop present
  obtain ⟨unpending, unstale⟩ := inv.unmarked (inv.quiet closed) staged.oid staged.key
  have rel := (inFlight.staged staged hm).relation
  have caught : staged.readAt ≤ s.replayedLsn :=
    ((inFlight.snapshot snapshotLsn set staged hm).trans released).trans inv.applied
  obtain pending | stale | marked | taken | alive := inFlight.covered current staged hm caught
  · exact absurd pending unpending
  · exact absurd stale unstale
  · obtain lost | filters | ⟨lsn, above, stale⟩ := marked.cases
    · have aborts : mergeKeysLost s.writer.deletedKeys pop snapshotLsn = true :=
        any_eq_true.mpr ⟨staged.oid, rel, shouldAbort_of_overflowed lost snapshotLsn⟩
      cases kept.symm.trans aborts
    · exact .inl ((filtered_iff _ _ _).mpr filters)
    · have hit : mergeToastStaleHit s.writer.deletedKeys key oid pop.staged = true := by
        rw [mergeToastStaleHit, ← tg,
          (inFlight.anchored staged.oid rel).floor_eq, any_some, any_eq_true]
        refine ⟨staged, hm, ?_⟩
        rw [decide_eq_true rfl, Bool.true_and, staleAbove, stale, any_some]
        exact decide_eq_true above
      cases fresh.symm.trans hit
  · exact .inr (.inl taken)
  · rw [inv.quiet closed, ← (inv.closed closed).1] at alive
    exact .inr (.inr (originNow_nil s.log s.appliedLsn ▸ alive))

theorem Inv.mergeChunk {chunk rest : List (StagedRow κ ρ)}
    (split : (chunk ++ rest).Perm pop.staged) (target : ∀ row ∈ chunk, row.oid = oid) :
    Inv { s with
      tables := mergeChunkRun s.writer oid chunk
      writer := { s.writer with working := mergeChunkRun s.writer oid chunk }
      populations := s.populations.insert key
        { pop with staged := rest, drained := pop.drained ++ chunk } } := by
  have inFlight := inv.populations key pop present
  have agrees := inv.agrees_applied closed
  obtain ⟨same, working⟩ := inv.closed closed
  have inside : ∀ staged ∈ chunk, staged ∈ pop.staged := fun staged member =>
    split.mem_iff.mp (mem_append_left rest member)
  have grown : ∀ oid' rowKey row, s.writer.working oid' rowKey = some row →
      mergeChunkRun s.writer oid chunk oid' rowKey = some row := by
    intro oid' rowKey row found
    unfold mergeChunkRun
    split
    · exact mergeRows_kept found
    · exact found
  -- whatever the chunk added is a row that is still at origin
  have added : ∀ oid' rowKey row, mergeChunkRun s.writer oid chunk oid' rowKey = some row →
      s.writer.working oid' rowKey = some row ∨ oid' ∈ s.writer.cachedRelations ∧
          originAt s.log s.appliedLsn oid' rowKey = some row := by
    intro oid' rowKey row found
    unfold mergeChunkRun at found
    split at found
    · rename_i hc
      obtain old | ⟨free, staged, member, shape, unfiltered⟩ := mergeRows_some found
      · exact .inl old
      obtain ⟨rfl, rfl, rfl⟩ : staged.oid = oid' ∧ staged.key = rowKey ∧ staged.row = row := by
        simpa using shape
      refine .inr ⟨target staged member ▸ hc, ?_⟩
      obtain filtered | taken | alive := inv.staged_cases closed present current set released kept
        fresh (inside staged member) (target staged member)
      · cases unfiltered.symm.trans filtered
      · exact absurd free taken
      · exact alive
    · exact .inl found
  have sound : ∀ oid' rowKey row, mergeChunkRun s.writer oid chunk oid' rowKey = some row →
      originAt s.log s.appliedLsn oid' rowKey = some row := fun oid' rowKey row found =>
    (added oid' rowKey row found).elim (agrees.working oid' rowKey row) And.right
  have empty : ∀ oid' rowKey, oid' ∉ s.writer.cachedRelations →
      mergeChunkRun s.writer oid chunk oid' rowKey = none := by
    intro oid' rowKey absent
    by_contra taken
    obtain ⟨row, found⟩ := ne_none_iff_exists'.mp taken
    obtain old | ⟨hc, -⟩ := added oid' rowKey row found
    · rw [(agrees.uncached oid' rowKey absent).1] at old
      exact some_ne_none row old.symm
    · exact absent hc
  have now : originNow s.log s.replayedLsn (OpenFrame.changes s.frame) =
      originAt s.log s.appliedLsn := by
    rw [inv.quiet closed, ← same]
    exact originNow_nil s.log s.appliedLsn
  exact { inv with
    closed := fun _ => ⟨same, rfl⟩
    agrees := now ▸ {
      working := sound
      tracked := agrees.tracked
      uncached := fun oid' rowKey absent =>
        ⟨empty oid' rowKey absent, (agrees.uncached oid' rowKey absent).2⟩ }
    tables := sound
    uncached := empty
    batch := fun oid _ key => ⟨rfl, inv.unmarked (inv.quiet closed) oid key⟩
    populations := populations_insert
      (fun other pop _ found => (inv.populations other pop found).merged grown)
      { inFlight.merged grown with
        staged := fun staged member => inFlight.staged staged
          (split.mem_iff.mp (mem_append_right chunk member))
        drained := fun staged member => by
          obtain old | new := mem_append.mp member
          · exact inFlight.drained staged old
          · exact ⟨inFlight.staged staged (inside staged new),
              ((inFlight.snapshot snapshotLsn set staged (inside staged new)).trans released).trans
                inv.applied⟩
        snapshot := fun lsn bound staged member => inFlight.snapshot lsn bound staged
          (split.mem_iff.mp (mem_append_right chunk member))
        covered := fun current staged member => (inFlight.merged grown).covered current staged
          (split.mem_iff.mp (mem_append_right chunk member))
        truncated := fun current staged member => inFlight.truncated current staged
          (split.mem_iff.mp (mem_append_right chunk member))
        kept := fun current staged member untouched => by
          obtain old | new := mem_append.mp member
          · exact (inFlight.merged grown).kept current staged old untouched
          -- nothing changed the row, so it is alive and its key is not in the filter
          have wasRead := inFlight.staged staged (inside staged new)
          have caught : staged.readAt ≤ s.replayedLsn :=
            ((inFlight.snapshot snapshotLsn set staged (inside staged new)).trans released).trans
              inv.applied
          have alive : originAt s.log s.appliedLsn staged.oid staged.key = some staged.row := by
            rw [← now, originNow_untouched caught untouched]
            exact wasRead.origin
          have unfiltered : s.writer.deletedKeys.filtered staged.oid staged.key = false := by
            by_contra filtered
            rw [Bool.not_eq_false, filtered_iff] at filtered
            obtain dead | stale := agrees.tracked staged.oid staged.key (.inr filtered)
            · exact some_ne_none staged.row (alive.symm.trans dead)
            · exact absurd stale (inv.unmarked (inv.quiet closed) staged.oid staged.key).2
          have hc : oid ∈ s.writer.cachedRelations :=
            target staged new ▸ inFlight.cached current staged.oid wasRead.relation
          have taken : mergeChunkRun s.writer oid chunk staged.oid staged.key ≠ none := by
            rw [mergeChunkRun, if_pos hc]
            exact mergeRows_present new unfiltered
          obtain ⟨row, found⟩ := ne_none_iff_exists'.mp taken
          exact found.trans ((sound _ _ row found).symm.trans alive) }
    active := inv.active_insert present fun _ bound => bound }

end Merge

theorem Inv.mergeFinish [DecidableEq ρ] (hs : step s .mergeFinish = some next) : Inv next := by
  obtain ⟨key, -, hs⟩ := bind_eq_some_iff.mp hs
  obtain ⟨pop, present, hs⟩ := bind_eq_some_iff.mp hs
  obtain ⟨⟨closed, current, -⟩, ⟨⟩⟩ := ite_none_right_eq_some.mp hs
  have inFlight := inv.populations key pop present
  obtain ⟨same, working⟩ := inv.closed closed
  refine { inv.populationEnd key with completions := fun completion hm => ?_ }
  obtain old | new := mem_append.mp hm
  · exact inv.completions completion old
  · obtain rfl := mem_singleton.mp new
    refine ⟨inv.applied.trans inv.replayed, inv.tables, fun staged mem untouched => ?_⟩
    have kept := inFlight.kept current staged mem
    rw [inv.quiet closed, ← same, working] at kept
    exact kept untouched

theorem Inv.mergeStart [DecidableEq ρ] (hs : step s (.mergeStart key) = some next) : Inv next := by
  obtain ⟨pop, present, hs⟩ := bind_eq_some_iff.mp hs
  obtain ⟨⟨-, -, -, released⟩, same⟩ := ite_none_right_eq_some.mp hs
  obtain ⟨snapshotLsn, set, behind⟩ := (Option.any_eq_true _ _).mp released
  cases same
  exact { inv with
    active := fun active h => by
      cases h
      exact ⟨pop, snapshotLsn, present, set, of_decide_eq_true behind⟩ }

end Steps

variable [DecidableEq ρ]

theorem Inv.mergeChunk_step {s next : MergeSystem κ ρ} (inv : Inv s) {oid : Oid}
    {chunk rest : List (StagedRow κ ρ)}
    (hs : step s (.mergeChunk oid chunk rest) = some next) : Inv next := by
  obtain ⟨key, active, hs⟩ := bind_eq_some_iff.mp hs
  obtain ⟨pop, present, hs⟩ := bind_eq_some_iff.mp hs
  obtain ⟨⟨closed, split, tg⟩, hs⟩ := ite_none_right_eq_some.mp hs
  obtain ⟨pop', snapshotLsn, present', set, released⟩ := inv.active key active
  cases present.symm.trans present'
  split at hs
  · rename_i current
    rw [set, map_some] at hs
    cases hs
    unfold populationMergeStep
    split
    · exact inv.populationEnd key
    · rename_i kept
      rw [Bool.or_eq_true, not_or, Bool.not_eq_true, Bool.not_eq_true] at kept
      exact inv.mergeChunk closed present current set released kept.1 kept.2
        (isPerm_iff.mp split) tg
  · cases hs
    exact inv.populationEnd key

theorem Inv.step {s next : MergeSystem κ ρ} {ev : MergeEvent κ ρ} (inv : Inv s)
    (calm : Calm s ev) (hs : step s ev = some next) : Inv next := by
  cases ev with
  | commit changes =>
    obtain ⟨fits, ⟨⟩⟩ := ite_none_right_eq_some.mp hs
    exact inv.commit fits
  | activate key relationOids anchorFloor => exact inv.activate hs
  | read key rows => exact inv.read hs
  | staged key snapshotLsn => exact inv.staged hs
  | fail key =>
    obtain ⟨pop, present, hs⟩ := bind_eq_some_iff.mp hs
    obtain ⟨-, ⟨⟩⟩ := ite_none_right_eq_some.mp hs
    exact inv.populationEnd key
  | supersede key => exact inv.supersede hs
  | reap key =>
    obtain ⟨pop, present, hs⟩ := bind_eq_some_iff.mp hs
    obtain ⟨-, ⟨⟩⟩ := ite_none_right_eq_some.mp hs
    exact inv.populationEnd key
  | createTable oid => exact inv.createTable hs
  | dropTable oid => exact inv.dropTable calm hs
  | frame => exact inv.openFrame hs
  | replay matched complete =>
    simp only [MergeRun.step] at hs
    split at hs
    · rename_i done change remaining opened
      have calm := calm _ opened change rfl
      cases hs
      refine inv.replay opened calm (fun key pop hf => ?_) fun key pop hf => ?_
      · cases change with
        | truncate oids =>
          obtain ⟨old, present, shape⟩ := lookup_supersedeOver hf
          refine ⟨old, present, shape.imp_right (And.imp_right fun apart oids' same => ?_)⟩
          cases same
          exact apart
        | insert | update | delete => exact ⟨pop, hf, .inr ⟨rfl, fun oids => nofun⟩⟩
      · cases change with
        | truncate oids => exact supersedeOver_lookup oids hf
        | insert | update | delete => exact ⟨pop, hf, rfl⟩
    · cases hs
  | boundary =>
    simp only [MergeRun.step] at hs
    split at hs
    · rename_i opened
      cases hs
      exact inv.boundary opened
    · cases hs
  | flush => exact inv.flush hs
  | recover lsn =>
    obtain ⟨⟨-, later, past, beyond⟩, ⟨⟩⟩ := ite_none_right_eq_some.mp hs
    exact inv.recover later past beyond
  | mergeStart key => exact inv.mergeStart hs
  | mergeChunk oid chunk rest => exact inv.mergeChunk_step hs
  | mergeFinish => exact inv.mergeFinish hs

/-- In every calm interleaving of commits, populations, frames and merges the cached rows are at
origin as of the applied LSN, and a finished merge has cached every row of its snapshot that
nothing changed since. -/
theorem merge_agrees_with_cdc (events : List (MergeEvent κ ρ)) (last : MergeSystem κ ρ)
    (calm : Allowed step Calm MergeSystem.new events)
    (ran : runs step MergeSystem.new events = some last) :
    (∀ oid key row, last.tables oid key = some row →
      originAt last.log last.appliedLsn oid key = some row) ∧
    ∀ completion ∈ last.completions, completion.Faithful last.log := by
  have inv : Inv last := runs_invariant (fun _ _ _ inv calm stepped => inv.step calm stepped)
    Inv.new calm ran
  exact ⟨inv.tables, fun completion inside => (inv.completions completion inside).2⟩

def calmTest (s : MergeSystem κ ρ) : MergeEvent κ ρ → Bool
  | .replay matched complete => s.frame.all fun frame => frame.remaining.head?.all fun change =>
    decide (s.writer.Calm matched complete change)
  | .dropTable _ => false
  | _ => true

omit [DecidableEq ρ] in
theorem calm_of_test (s : MergeSystem κ ρ) (event : MergeEvent κ ρ)
    (passes : calmTest s event = true) : Calm s event := by
  cases event with
  | replay matched complete =>
    intro frame opened change next
    rw [calmTest, opened, all_some, next, all_some] at passes
    exact of_decide_eq_true passes
  | dropTable oid => exact absurd passes Bool.false_ne_true
  | _ => trivial

def overtaken : List (MergeEvent Nat Nat) :=
  [.createTable 1, .commit [.insert 1 5 50, .insert 1 6 60], .activate (1, 1) [1] 0,
    .read (1, 1) [(1, 5, 50), (1, 6, 60)], .staged (1, 1) 1, .commit [.update 1 5 5 51], .frame,
    .replay false true, .replay false true, .boundary, .frame, .replay false true,
      .boundary, .flush,
    .mergeStart (1, 1), .mergeChunk 1 [⟨1, 5, 50, 1⟩, ⟨1, 6, 60, 1⟩] [], .mergeFinish]

theorem overtaken_merge_agrees : ∃ last, runs step MergeSystem.new overtaken = some last ∧
      (last.tables 1 5 = some 51 ∧ last.tables 1 6 = some 60 ∧ last.completions.length = 1) ∧
      (∀ oid key row, last.tables oid key = some row →
        originAt last.log last.appliedLsn oid key = some row) ∧
      ∀ completion ∈ last.completions, completion.Faithful last.log := by
  have ends : ((runs step MergeSystem.new overtaken).any fun last =>
      decide (last.tables 1 5 = some 51 ∧ last.tables 1 6 = some 60 ∧
        last.completions.length = 1)) = true := by decide +kernel
  obtain ⟨last, ran, shape⟩ := (Option.any_eq_true _ _).mp ends
  have calm : Allowed step Calm MergeSystem.new overtaken :=
    .of_allowedBy calm_of_test (by decide +kernel)
  exact ⟨last, ran, of_decide_eq_true shape, merge_agrees_with_cdc overtaken last calm ran⟩

/-- A delete is replayed while one population records it. That population fails before the same
frame moves another row to the key, and another one starts before the frame's boundary. -/
def departed : List (MergeEvent Nat Nat) :=
  [.createTable 1, .commit [.insert 1 1 10, .insert 1 2 20], .frame, .replay false true,
    .replay false true, .boundary, .flush, .activate (1, 1) [1] 1,
    .commit [.delete 1 1, .update 1 2 1 21], .frame, .replay false true, .fail (1, 1),
    .replay false true, .activate (2, 1) [1] 1, .read (2, 1) [(1, 1, 21)], .staged (2, 1) 2,
    .boundary, .flush, .mergeStart (2, 1), .mergeChunk 1 [⟨1, 1, 21, 2⟩] [], .mergeFinish]

/-- The merge of `departed` omits a row that is alive and unchanged since it was read. -/
theorem live_row_filtered_out : ∃ last, runs step MergeSystem.new departed = some last ∧
      ∃ completion ∈ last.completions, ¬ completion.Faithful last.log := by
  have ends : ((runs step MergeSystem.new departed).any fun last =>
      last.completions.any fun completion => decide (completion.rows = [⟨1, 1, 21, 2⟩] ∧
        completion.appliedLsn = 2 ∧ completion.tables 1 1 = none)) = true := by decide +kernel
  obtain ⟨last, ran, shape⟩ := (Option.any_eq_true _ _).mp ends
  obtain ⟨completion, inside, shape⟩ := any_eq_true.mp shape
  obtain ⟨rows, applied, absent⟩ := of_decide_eq_true shape
  refine ⟨last, ran, completion, inside, fun faithful => ?_⟩
  have member : (⟨1, 1, 21, 2⟩ : StagedRow Nat Nat) ∈ completion.rows := by
    rw [rows]
    exact mem_singleton.mpr rfl
  have untouched : Untouched (changesSince last.log completion.appliedLsn [] 2) 1 (1 : Nat) := by
    have none : (last.log.take 2).drop 2 = [] :=
      drop_eq_nil_of_le (length_take_le 2 last.log)
    rw [applied, changesSince, none]
    exact fun change => nofun
  have present := faithful.complete _ member untouched
  exact some_ne_none 21 (present.symm.trans absent)

end PgCache.Cache.MergeRun
