/- source: proxy/connection/write_log/aggregate.rs
   digest: Per-table pending-write aggregates, their caps and their disjointness checks. -/
import Mathlib.Data.List.Sort
import PgCache.Query.Constraints.RangeOverlap
import PgCache.Query.Write

set_option autoImplicit false

namespace PgCache.ReadAfterWrite.Aggregate

open Data.Keyed Query.Literal Query.Constraints.Range Query.Constraints.RangeOverlap Query.Write

def updateDeletePredicateCap : Nat := 64
def mergedPredicateCap : Nat := 1024
def insertMergedRowsCap : Nat := 1024
def insertMergedCellsCap : Nat := 8192

/-! ### Inserted rows -/

structure InsertAggregate where
  columns : List String
  rows : List InsertRow
  fits : ∀ row ∈ rows, row.length ≤ columns.length

namespace InsertAggregate

def empty : InsertAggregate := ⟨[], [], by simp⟩

def capsExceeded (self : InsertAggregate) (incomingColumns : List String)
    (incomingRows : Nat) : Bool :=
  let newColumns := (incomingColumns.filter (· ∉ self.columns)).length
  let rowsTotal := self.rows.length + incomingRows
  rowsTotal > insertMergedRowsCap ||
    rowsTotal * (self.columns.length + newColumns) > insertMergedCellsCap

end InsertAggregate

/-- `column_positions_resolve`: the widened column list, and where each statement column sits
in it. -/
def columnPositionsResolve : List String → List String → List String × List Nat
  | columns, [] => (columns, [])
  | columns, column :: rest =>
    match columns.idxOf? column with
    | some position =>
      let (widened, positions) := columnPositionsResolve columns rest
      (widened, position :: positions)
    | none =>
      let (widened, positions) := columnPositionsResolve (columns ++ [column]) rest
      (widened, columns.length :: positions)

/-- The cells of `row_push`: a row's values scattered to their positions. -/
def rowScatter (width : Nat) (positions : List Nat) (values : InsertRow) : InsertRow :=
  (values.zip positions).foldl (fun cells cell => cells.set cell.2 cell.1)
    (List.replicate width none)

theorem length_rowScatter (width : Nat) (positions : List Nat) (vs : InsertRow) :
    (rowScatter width positions vs).length = width := by
  have scatter (cells : InsertRow) (pairs : List (Option LiteralValue × Nat)) :
      (pairs.foldl (fun cells cell => cells.set cell.2 cell.1) cells).length = cells.length := by
    induction pairs generalizing cells with
    | nil => rfl
    | cons pair pairs ih => rw [List.foldl_cons, ih, List.length_set]
  rw [rowScatter, scatter, List.length_replicate]

theorem columns_le_columnPositionsResolve (cols st : List String) :
    cols.length ≤ (columnPositionsResolve cols st).1.length := by
  fun_induction columnPositionsResolve cols st with
  | case1 cols => exact le_rfl
  | case2 cols c rest i hf widened positions rs ih =>
    rw [rs] at ih
    exact ih
  | case3 cols c rest missing widened positions rs ih =>
    rw [rs] at ih
    simp only [List.length_append, List.length_singleton] at ih
    exact (Nat.le_succ _).trans ih

namespace InsertAggregate

def rowsPush (self : InsertAggregate) (columns : List String) (rows : List InsertRow) :
    InsertAggregate where
  columns := (columnPositionsResolve self.columns columns).1
  rows := self.rows ++ rows.map (rowScatter (columnPositionsResolve self.columns columns).1.length
    (columnPositionsResolve self.columns columns).2)
  fits := by
    intro row inside
    rcases List.mem_append.mp inside with old | new
    · exact (self.fits row old).trans (columns_le_columnPositionsResolve self.columns columns)
    · obtain ⟨values, _, rfl⟩ := List.mem_map.mp new
      exact (length_rowScatter _ _ _).le

def fold (self : InsertAggregate) (insert : InsertStatement) : Option InsertAggregate :=
  if self.capsExceeded insert.columns insert.rows.length then none
  else some (self.rowsPush insert.columns insert.rows)

def merge (self other : InsertAggregate) : Option InsertAggregate :=
  if self.capsExceeded other.columns other.rows.length then none
  else if self.rows = [] then some other
  else some (self.rowsPush other.columns other.rows)

end InsertAggregate

def constrainedPositions (columns : List String) (readRanges : ColumnRanges) :
    List (Nat × ColumnRange) :=
  columns.zipIdx.filterMap fun c => (readRanges.lookup c.1).map (c.2, ·)

def excludedAt (constrained : List (Nat × ColumnRange)) (cell : Nat → Option LiteralValue) : Bool :=
  constrained.any fun c =>
    (cell c.1).any fun value => columnRangeContains c.2 value = some false

def InsertAggregate.disjoint (self : InsertAggregate) (readRanges : ColumnRanges) : Bool :=
  if hasEmpty readRanges then true
  else
    let constrained := constrainedPositions self.columns readRanges
    if constrained.isEmpty then self.rows.isEmpty
    else self.rows.all fun row => excludedAt constrained fun position => (row[position]?).join

/-! ### Merged equality predicates -/

/-- Pairs sorted by column, or `none` when a column occurs twice. -/
def sortedDistinct {α : Type} (pairs : List (String × α)) : Option (List (String × α)) :=
  let sorted := pairs.insertionSort fun a b => a.1 ≤ b.1
  if (sorted.zip sorted.tail).any fun w => w.1.1 = w.2.1 then none else some sorted

def equalityTupleBuild (comparisons : List WriteComparison) :
    Option (List String × List LiteralValue) :=
  if comparisons.any fun c => c.2.1 ≠ .equal then none
  else
    (sortedDistinct (comparisons.map fun c => (c.1, c.2.2))).map fun pairs =>
      (pairs.map Prod.fst, pairs.map Prod.snd)

abbrev MergedTuples := KeyedMap (List String) (List (List LiteralValue))

def mergedTuplesDisjoint (merged : MergedTuples) (readRanges : ColumnRanges) : Bool :=
  if hasEmpty readRanges then true
  else
    merged.entries.all fun group =>
      let constrained := constrainedPositions group.1 readRanges
      if constrained.isEmpty then group.2.isEmpty
      else group.2.all fun tuple => excludedAt constrained fun position => tuple[position]?

abbrev SetTuple := List (Option LiteralValue)

abbrev MergedUpdates :=
  KeyedMap (List String × List String) (List (List LiteralValue × SetTuple))

def updateTupleBuild (update : UpdateStatement) :
    Option ((List String × List String) × (List LiteralValue × SetTuple)) := do
  let (whereColumns, whereValues) ← equalityTupleBuild update.whereComparisons
  if ¬ (update.set.map Prod.fst).Nodup then none
  else
    let setPairs := update.set.insertionSort fun a b => a.1 ≤ b.1
    return ((whereColumns, setPairs.map Prod.fst), (whereValues, setPairs.map Prod.snd))

/-- `merged_updates_disjoint`: the read must miss both the rows an update touches and their
image, the WHERE values overridden by the SET values. -/
def mergedUpdatesDisjoint (merged : MergedUpdates) (readRanges : ColumnRanges) : Bool :=
  if hasEmpty readRanges then true
  else
    merged.entries.all fun group =>
      let (whereColumns, setColumns) := group.1
      let whereConstrained := constrainedPositions whereColumns readRanges
      let whereInImage := whereConstrained.filter fun c =>
        (whereColumns[c.1]?).any (· ∉ setColumns)
      let setConstrained := constrainedPositions setColumns readRanges
      group.2.all fun tuple =>
        excludedAt whereConstrained (fun position => tuple.1[position]?) &&
        (excludedAt whereInImage (fun position => tuple.1[position]?) ||
          excludedAt setConstrained (fun position => (tuple.2[position]?).join))

/-! ### The aggregate of a table -/

structure UpdatePredicate where
  whereRanges : ColumnRanges
  imageRanges : ColumnRanges

def updatePredicateBuild (update : UpdateStatement) : UpdatePredicate :=
  let whereRanges := columnRangesFromComparisons update.whereComparisons
  { whereRanges := whereRanges
    imageRanges := update.set.foldl
      (fun image assignment =>
        match assignment.2 with
        | some literal => image.insert assignment.1 (.equal literal)
        | none => image.erase assignment.1)
      whereRanges }

structure TableAggregate where
  isOpaque : Bool := false
  inserts : Option InsertAggregate := none
  mergedDeletes : MergedTuples := ∅
  deletes : List ColumnRanges := []
  mergedUpdates : MergedUpdates := ∅
  mergedPredicates : Nat := 0
  updates : List UpdatePredicate := []

namespace TableAggregate

def degradeOpaque (_self : TableAggregate) : TableAggregate := { isOpaque := true }

variable (self : TableAggregate)

def mergedOverflow : TableAggregate :=
  if self.mergedPredicates > mergedPredicateCap then self.degradeOpaque else self

def predicateOverflow : TableAggregate :=
  if self.deletes.length + self.updates.length > updateDeletePredicateCap then
    self.degradeOpaque
  else self

def recordInsert (insert : InsertStatement) : TableAggregate :=
  if self.isOpaque then self
  else
    match (self.inserts.getD .empty).fold insert with
    | some inserts => { self with inserts := some inserts }
    | none => self.degradeOpaque

def recordDelete (delete : DeleteStatement) : TableAggregate :=
  if self.isOpaque then self
  else
    match equalityTupleBuild delete.comparisons with
    | some (columns, values) =>
      mergedOverflow { self with
          mergedDeletes := modify columns [] (· ++ [values]) self.mergedDeletes
          mergedPredicates := self.mergedPredicates + 1 }
    | none =>
      predicateOverflow { self with
          deletes := self.deletes ++ [columnRangesFromComparisons delete.comparisons] }

def recordUpdate (update : UpdateStatement) : TableAggregate :=
  if self.isOpaque then self
  else
    match updateTupleBuild update with
    | some (shape, tuple) =>
      mergedOverflow { self with
          mergedUpdates := modify shape [] (· ++ [tuple]) self.mergedUpdates
          mergedPredicates := self.mergedPredicates + 1 }
    | none =>
      predicateOverflow { self with updates := self.updates ++ [updatePredicateBuild update] }

def merge (self other : TableAggregate) : TableAggregate :=
  if self.isOpaque || other.isOpaque then self.degradeOpaque
  else
    let combine (inserts : Option InsertAggregate) : TableAggregate :=
      let merged : TableAggregate :=
        { isOpaque := false
          inserts := inserts
          mergedDeletes := extend self.mergedDeletes other.mergedDeletes
          mergedUpdates := extend self.mergedUpdates other.mergedUpdates
          mergedPredicates := self.mergedPredicates + other.mergedPredicates
          deletes := self.deletes ++ other.deletes
          updates := self.updates ++ other.updates }
      merged.mergedOverflow.predicateOverflow
    match other.inserts with
    | none => combine self.inserts
    | some otherInserts =>
      match (self.inserts.getD .empty).merge otherInserts with
      | some inserts => combine (some inserts)
      | none => self.degradeOpaque

end TableAggregate

end PgCache.ReadAfterWrite.Aggregate
