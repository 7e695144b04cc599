/- source: proxy/connection/write_log/log.rs, tiers.rs, mod.rs
   digest: The per-connection write log: record, stamp, purge and the verdict on a read. -/
import PgCache.ReadAfterWrite.Aggregate

set_option autoImplicit false

namespace PgCache.ReadAfterWrite.Log

open Data.Keyed Query.Constraints.RangeOverlap Query.Write Aggregate

abbrev Lsn := Nat

/-! ### Tiers -/

def waitingTiersMax : Nat := 8

structure WaitingTier where
  bound : Lsn
  aggregate : TableAggregate

/-- `TableTiers`: the stamped tiers of a table, oldest first, and the unstamped one with the
sequence of its newest write. -/
structure TableTiers where
  waiting : List WaitingTier := []
  active : Option (Nat × TableAggregate) := none

namespace TableTiers

variable (self : TableTiers)

def isEmpty : Bool := self.waiting.isEmpty && self.active.isNone

def activeModify (seq : Nat) (change : TableAggregate → TableAggregate) : TableTiers :=
  let aggregate := (self.active.map Prod.snd).getD {}
  { self with active := some (seq, change aggregate) }

def mergeIntoNewest (aggregate : TableAggregate) (lsn : Lsn) : List WaitingTier → List WaitingTier
  | [] => [⟨lsn, aggregate⟩]
  | [newest] => [⟨max newest.bound lsn, newest.aggregate.merge aggregate⟩]
  | tier :: tiers => tier :: mergeIntoNewest aggregate lsn tiers

def stamp (stampSeq : Nat) (lsn : Lsn) : TableTiers :=
  match self.active with
  | some (latestSeq, aggregate) =>
    if latestSeq ≤ stampSeq then
      if self.waiting.length ≥ waitingTiersMax then
        ⟨mergeIntoNewest aggregate lsn self.waiting, none⟩
      else ⟨self.waiting ++ [⟨lsn, aggregate⟩], none⟩
    else self
  | none => self

/-- The part of `purge` on one table; `none` when nothing is left. -/
def purge (watermark : Lsn) : Option TableTiers :=
  let kept := { self with waiting := self.waiting.filter fun tier => tier.bound > watermark }
  if kept.isEmpty then none else some kept

def aggregatesBounded : List (Option Lsn × TableAggregate) :=
  self.waiting.map (fun tier => (some tier.bound, tier.aggregate)) ++
    (self.active.map fun active => (none, active.2)).toList

end TableTiers

inductive RawBlocker where
  | unstamped
  | stamped (bound : Lsn)
  deriving DecidableEq

/-- `RawBlocker::merge`: an unstamped write dominates, else the later bound. -/
def RawBlocker.merge : RawBlocker → RawBlocker → RawBlocker
  | .stamped a, .stamped b => .stamped (max a b)
  | _, _ => .unstamped

structure ConnectionTiers where
  waiting : Option Lsn := none
  active : Option Nat := none
  unstampable : Bool := false

namespace ConnectionTiers

variable (self : ConnectionTiers)

def isEmpty : Bool :=
  self.waiting.isNone && self.active.isNone && !self.unstampable

def blocker : RawBlocker :=
  if self.active.isSome || self.unstampable then .unstamped
  else self.waiting.elim .unstamped .stamped

def stamp (stampSeq : Nat) (lsn : Lsn) : ConnectionTiers :=
  if self.unstampable then self
  else if self.active.any (· ≤ stampSeq) then
    { self with active := none, waiting := some (self.waiting.elim lsn (max lsn ·)) }
  else self

def purge (watermark : Lsn) : ConnectionTiers :=
  if self.waiting.any (· ≤ watermark) then { self with waiting := none } else self

end ConnectionTiers

/-! ### The log -/

abbrev SchemaBucket := KeyedMap (Option String) TableTiers

structure WriteLog where
  tables : KeyedMap String SchemaBucket := ∅
  connection : ConnectionTiers := {}
  nextSeq : Nat := 0
  enabled : Bool := true

namespace WriteLog

variable (self : WriteLog)

/-- `table_active` with the change made through it: writes are routed by exact identity. -/
def tableActive (relation : RelationRef) (seq : Nat)
    (change : TableAggregate → TableAggregate) : WriteLog :=
  { self with
    tables := modify relation.name ∅
      (modify relation.schema {} fun tiers => tiers.activeModify seq change) self.tables }

def record (write : WriteClass) : WriteLog :=
  if !self.enabled then self
  else
    let seq := self.nextSeq
    let self := { self with nextSeq := seq + 1 }
    if self.connection.unstampable then self
    else
      match write with
      | .insertRows insert => self.tableActive insert.relation seq (·.recordInsert insert)
      | .deleteRows delete => self.tableActive delete.relation seq (·.recordDelete delete)
      | .updateRows update => self.tableActive update.relation seq (·.recordUpdate update)
      | .table relation => self.tableActive relation seq (·.degradeOpaque)
      | .connection => { self with connection := { self.connection with active := some seq } }
      | .connectionUnstampable =>
        { self with
          connection := { waiting := none, active := none, unstampable := true }
          tables := ∅ }

def tiers : List TableTiers :=
  self.tables.entries.flatMap fun bucket => bucket.2.entries.map Sigma.snd

def stampSeq : Option Nat :=
  (self.tiers.filterMap (fun tiers => tiers.active.map Prod.fst) ++
    self.connection.active.toList).max?

def stamp (stampSeq : Nat) (lsn : Lsn) : WriteLog :=
  { self with
    tables := retain
      (fun _ bucket => some (retain (fun _ tiers => some (tiers.stamp stampSeq lsn)) bucket))
      self.tables
    connection := self.connection.stamp stampSeq lsn }

def purge (watermark : Lsn) : WriteLog :=
  { self with
    tables := retain (fun _ bucket =>
        let kept := retain (fun _ tiers => tiers.purge watermark) bucket
        if kept.entries.isEmpty then none else some kept)
      self.tables
    connection := self.connection.purge watermark }

end WriteLog

/-! ### The verdict -/

structure DisjointKinds where
  insert : Bool := false
  delete : Bool := false
  update : Bool := false
  deriving DecidableEq

def DisjointKinds.any (self : DisjointKinds) : Bool := self.insert || self.delete || self.update

inductive RawForwardReason where
  | table
  | connection
  deriving DecidableEq

inductive RawDecision where
  | serve
  | serveDisjoint (kinds : DisjointKinds)
  | forward (reason : RawForwardReason) (blocker : RawBlocker)
  deriving DecidableEq

def RawDecision.serves : RawDecision → Bool
  | .serve | .serveDisjoint _ => true
  | .forward _ _ => false

structure TableNode where
  schema : Option String
  name : String
  deriving DecidableEq

def schemaMatches : Option String → Option String → Bool
  | some a, some b => a = b
  | _, _ => true

/-- The disjointness tests `aggregate_intersects` makes, in its order, each with the kind it
records when the test succeeds. -/
def disjointChecks (aggregate : TableAggregate) (disjointFrom : (ColumnRanges → Bool) → Bool) :
    List (Bool × (DisjointKinds → DisjointKinds)) :=
  let insert kinds : DisjointKinds := { kinds with insert := true }
  let delete kinds : DisjointKinds := { kinds with delete := true }
  let update kinds : DisjointKinds := { kinds with update := true }
  aggregate.inserts.toList.map (fun inserts => (disjointFrom inserts.disjoint, insert)) ++
  (if aggregate.mergedDeletes.entries.isEmpty then []
    else [(disjointFrom (mergedTuplesDisjoint aggregate.mergedDeletes), delete)]) ++
  aggregate.deletes.map
    (fun predicate => (disjointFrom (columnRangesDisjoint · predicate), delete)) ++
  (if aggregate.mergedUpdates.entries.isEmpty then []
    else [(disjointFrom (mergedUpdatesDisjoint aggregate.mergedUpdates), update)]) ++
  aggregate.updates.map (fun predicate =>
    (disjointFrom fun ranges =>
      columnRangesDisjoint ranges predicate.whereRanges &&
      columnRangesDisjoint ranges predicate.imageRanges, update))

def checksIntersect (kinds : DisjointKinds) :
    List (Bool × (DisjointKinds → DisjointKinds)) → Bool × DisjointKinds
  | [] => (false, kinds)
  | (disjoint, mark) :: checks =>
    if disjoint then checksIntersect (mark kinds) checks else (true, kinds)

def aggregateIntersects (aggregate : TableAggregate) (readRanges : Option ColumnRanges)
    (kinds : DisjointKinds) : Bool × DisjointKinds :=
  if aggregate.isOpaque then (true, kinds)
  else checksIntersect kinds (disjointChecks aggregate readRanges.any)

def aggregatesIntersect (readRanges : Option ColumnRanges)
    (state : Option RawBlocker × DisjointKinds)
    (bounded : Option Lsn × TableAggregate) : Option RawBlocker × DisjointKinds :=
  match aggregateIntersects bounded.2 readRanges state.2 with
  | (true, kinds) =>
    let tier := bounded.1.elim .unstamped RawBlocker.stamped
    (some (state.1.elim tier (·.merge tier)), kinds)
  | (false, kinds) => (state.1, kinds)

namespace WriteLog

def tableIntersects (self : WriteLog) (table : TableNode) (readRanges : Option ColumnRanges)
    (kinds : DisjointKinds) : Option RawBlocker × DisjointKinds :=
  match self.tables.lookup table.name with
  | none => (none, kinds)
  | some bucket =>
    bucket.entries.foldl (fun state entry =>
        if schemaMatches entry.1 table.schema then
          entry.2.aggregatesBounded.foldl (aggregatesIntersect readRanges) state
        else state)
      (none, kinds)

/-- The walk of `decide` over the tables of a query, stopping at the first that blocks. -/
def walkTables (self : WriteLog) (readRanges : Option ColumnRanges) (kinds : DisjointKinds) :
    List TableNode → Option RawBlocker × DisjointKinds
  | [] => (none, kinds)
  | table :: tables =>
    match self.tableIntersects table readRanges kinds with
    | (some blocker, kinds) => (some blocker, kinds)
    | (none, kinds) => self.walkTables readRanges kinds tables

def decide (self : WriteLog) (tables : List TableNode) (readRanges : Option ColumnRanges) :
    RawDecision :=
  if !self.connection.isEmpty then .forward .connection self.connection.blocker
  else
    match self.walkTables readRanges {} tables with
    | (some blocker, _) => .forward .table blocker
    | (none, kinds) => if kinds.any then .serveDisjoint kinds else .serve

end WriteLog

end PgCache.ReadAfterWrite.Log
