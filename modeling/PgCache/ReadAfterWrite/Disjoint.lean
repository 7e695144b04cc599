/- digest: A read the gate finds disjoint from an aggregate is not disturbed by its writes. -/
import Mathlib.Data.List.Induction
import PgCache.ReadAfterWrite.Coverage
import PgCache.ReadAfterWrite.Effects

set_option autoImplicit false

namespace PgCache.ReadAfterWrite.Disjoint

open Data.Keyed Query.Literal Query.Constraints.Range
open Query.Constraints.RangeOverlap Query.Constraints.RangeMeaning Query.Write Aggregate Log
open Coverage Effects List Option

variable {V : Type} [LinearOrder V] {S : ColumnValues V} {ranges : ColumnRanges}

def whereOf : WriteClass → List WriteComparison
  | .deleteRows delete => delete.comparisons
  | .updateRows update => update.whereComparisons
  | _ => []

def Mentions : WriteClass → String → LiteralValue → Prop
  | .insertRows insert, column, literal =>
    ∃ cells ∈ insert.rows, (column, some literal) ∈ insert.columns.zip cells
  | .deleteRows delete, column, literal => ∃ op, (column, op, literal) ∈ delete.comparisons
  | .updateRows update, column, literal =>
    (∃ op, (column, op, literal) ∈ update.whereComparisons) ∨ (column, some literal) ∈ update.set
  | _, _, _ => False

/-- The code's literal equality is right wherever it compares a literal with one of the read's
literals on a column. -/
def LiteralAgrees (S : ColumnValues V) (ranges : ColumnRanges) (column : String)
    (literal : LiteralValue) : Prop :=
  ∀ range, ranges.lookup column = some range →
    ∀ other ∈ literalsOf range, S.EqAgrees column other literal

/-- The literals of a write and of a read are spelled so that the code judges them right: two
equalities of one WHERE that a value satisfies are the same literal, and the code's literal
equality agrees with the values wherever it compares a literal of the write with one of the
read. -/
structure SpelledAlike (S : ColumnValues V) (ranges : ColumnRanges)
    (write : WriteClass) : Prop where
  equalities : ∀ column, EqualitiesSpelledAlike S column (onColumn (whereOf write) column)
  literals : ∀ column literal, Mentions write column literal → LiteralAgrees S ranges column literal

/-! ### Tuples of known cells -/

variable {columns : List String} {row : Row V} {comparisons : List WriteComparison}
  {column : String} {values : List LiteralValue} {aggregate : TableAggregate}
  {update : UpdateStatement} {constrained : List (Nat × ColumnRange)}

private theorem mem_constrainedPositions {c : Nat × ColumnRange}
    (hm : c ∈ constrainedPositions columns ranges) :
    ∃ column, columns[c.1]? = some column ∧ ranges.lookup column = some c.2 := by
  simp only [constrainedPositions, mem_filterMap, map_eq_some_iff] at hm
  obtain ⟨⟨column, i⟩, hf, range, looked, rfl⟩ := hm
  exact ⟨column, mem_zipIdx_iff_getElem?.mp hf, looked⟩

private theorem not_rowWithin_of_excludedAt
    {cell : Nat → Option LiteralValue} (hx : excludedAt constrained cell = true)
    (hk : ∀ c ∈ constrained, ∀ l, cell c.1 = some l →
      ∃ column, ranges.lookup column = some c.2 ∧ row column = S.literal column l ∧
        ∀ o ∈ literalsOf c.2, S.EqAgrees column o l) : ¬ RowWithin S ranges row := by
  intro hw
  obtain ⟨c, hm, test⟩ := any_eq_true.mp hx
  obtain ⟨l, hf, outside⟩ := (any_eq_true _ _).mp test
  obtain ⟨column, looked, value, agree⟩ := hk c hm l hf
  have admitted := hw column c.2 looked
  rw [value] at admitted
  exact not_admits_literal (of_decide_eq_true outside) agree admitted

theorem value_of_equality {literal : LiteralValue} (holds : RowMatches S comparisons row)
    (inside : (column, BinaryOp.equal, literal) ∈ comparisons) :
    row column = S.literal column literal := by
  have equal := holds _ inside
  obtain ⟨v, x, _, hx, _⟩ := id equal
  rw [value_eq_of_holds equal hx, hx]

private theorem perm_of_sortedDistinct {α : Type} {pairs sorted : List (String × α)}
    (built : sortedDistinct pairs = some sorted) : sorted.Perm pairs := by
  simp only [sortedDistinct] at built
  split at built
  · cases built
  · cases built
    exact perm_insertionSort _ _

theorem mem_of_equalityTupleBuild
    (built : equalityTupleBuild comparisons = some (columns, values)) {i : Nat}
    {l : LiteralValue} (hc : columns[i]? = some column)
    (hv : values[i]? = some l) : (column, BinaryOp.equal, l) ∈ comparisons := by
  unfold equalityTupleBuild at built
  split at built
  · cases built
  · rename_i allEqual
    simp only [map_eq_some_iff, Prod.mk.injEq] at built
    obtain ⟨sorted, sort, rfl, rfl⟩ := built
    simp only [getElem?_map, map_eq_some_iff] at hc hv
    obtain ⟨pair, found, rfl⟩ := hc
    obtain ⟨pair', found', rfl⟩ := hv
    rw [found] at found'
    cases found'
    have original := (perm_of_sortedDistinct sort).mem_iff.mp (mem_of_getElem? found)
    obtain ⟨⟨name, op, value⟩, hm, rfl⟩ := mem_map.mp original
    have he : op = .equal := by
      by_contra different
      exact allEqual (any_eq_true.mpr ⟨_, hm, by simpa using different⟩)
    rw [← he]
    exact hm

private theorem not_rowWithin_of_tuple
    (built : equalityTupleBuild comparisons = some (columns, values))
    (sub : ∀ c ∈ constrained, c ∈ constrainedPositions columns ranges)
    (hx : excludedAt constrained (fun i => values[i]?) = true)
    (agree : ∀ column op l, (column, op, l) ∈ comparisons → LiteralAgrees S ranges column l)
    (value : ∀ c ∈ constrained, ∀ column l, columns[c.1]? = some column →
      (column, BinaryOp.equal, l) ∈ comparisons → row column = S.literal column l) :
    ¬ RowWithin S ranges row := by
  refine not_rowWithin_of_excludedAt hx ?_
  intro c hm l hf
  obtain ⟨column, hc, looked⟩ := mem_constrainedPositions (sub c hm)
  have cj := mem_of_equalityTupleBuild built hc hf
  exact ⟨column, looked, value c hm column l hc cj, agree column _ l cj c.2 looked⟩

/-! ### One write against one disjointness test -/

private theorem insert_outside {insert : InsertStatement} {inserts : InsertAggregate}
    (disjoint : inserts.disjoint ranges = true) (held : RowsHeld insert.columns insert.rows inserts)
    (alike : SpelledAlike S ranges (.insertRows insert)) (added : Adds S (.insertRows insert) row) :
    ¬ RowWithin S ranges row := by
  obtain ⟨cells, hm, describes⟩ := added
  obtain ⟨stored, hstored, hw⟩ := held cells hm
  unfold InsertAggregate.disjoint at disjoint
  split at disjoint
  · rename_i unsatisfiable
    exact not_rowWithin_of_hasEmpty unsatisfiable
  · simp only at disjoint
    split at disjoint
    · rw [isEmpty_iff.mp disjoint] at hstored
      cases hstored
    · refine not_rowWithin_of_excludedAt (all_eq_true.mp disjoint stored hstored) ?_
      intro c hf l hk
      obtain ⟨column, hc, looked⟩ := mem_constrainedPositions hf
      have hcell : stored[c.1]? = some (some l) := by
        simpa [join_eq_some_iff] using hk
      have cell : (column, some l) ∈ insert.columns.zip cells := by
        refine hw column l ?_
        rw [mem_iff_getElem?]
        exact ⟨c.1, getElem?_zip_eq_some.mpr ⟨hc, hcell⟩⟩
      exact ⟨column, looked, describes column l cell,
        alike.literals column l ⟨cells, hm, cell⟩ c.2 looked⟩

private theorem mergedTuples_outside {merged : MergedTuples} {tuples : List (List LiteralValue)}
    (disjoint : mergedTuplesDisjoint merged ranges = true)
    (built : equalityTupleBuild comparisons = some (columns, values))
    (hf : merged.lookup columns = some tuples) (hm : values ∈ tuples)
    (agree : ∀ column op l, (column, op, l) ∈ comparisons →
      LiteralAgrees S ranges column l) (hh : RowMatches S comparisons row) :
    ¬ RowWithin S ranges row := by
  unfold mergedTuplesDisjoint at disjoint
  split at disjoint
  · rename_i unsatisfiable
    exact not_rowWithin_of_hasEmpty unsatisfiable
  · have group := all_eq_true.mp disjoint _ ((mem_entries_iff _ _ _).mpr hf)
    simp only at group
    split at group
    · rw [isEmpty_iff.mp group] at hm
      cases hm
    · exact not_rowWithin_of_tuple built (fun _ h => h) (all_eq_true.mp group values hm)
        agree fun _ _ column l _ cj => value_of_equality hh cj

private theorem predicate_outside
    (disjoint : columnRangesDisjoint ranges (columnRangesFromComparisons comparisons) = true)
    (equalities : ∀ column, EqualitiesSpelledAlike S column (onColumn comparisons column))
    (agree : ∀ column op l, (column, op, l) ∈ comparisons →
      LiteralAgrees S ranges column l) (h : RowMatches S comparisons row) :
    ¬ RowWithin S ranges row := by
  intro hw
  refine not_rowWithin_both disjoint ?_ hw (rowWithin_columnRangesFromComparisons equalities h)
  intro column ra rb hra hrb x hx y hy
  obtain ⟨op, cj⟩ := mem_of_literalsOf_columnRanges hrb hy
  exact agree column op y cj ra hra x hx

private theorem delete_outside {delete : DeleteStatement}
    (stores : Stores aggregate (.deleteRows delete))
    (merged : aggregate.mergedDeletes.entries ≠ [] →
      mergedTuplesDisjoint aggregate.mergedDeletes ranges = true)
    (predicates : ∀ predicate ∈ aggregate.deletes, columnRangesDisjoint ranges predicate = true)
    (alike : SpelledAlike S ranges (.deleteRows delete))
    (removed : Removes S (.deleteRows delete) row) : ¬ RowWithin S ranges row := by
  have agree : ∀ column op literal, (column, op, literal) ∈ delete.comparisons →
      LiteralAgrees S ranges column literal :=
    fun column op literal conjunct => alike.literals column literal ⟨op, conjunct⟩
  simp only [Stores] at stores
  split at stores
  · rename_i columns values built
    obtain ⟨tuples, found, inside⟩ := stores
    have nonempty : aggregate.mergedDeletes.entries ≠ [] :=
      ne_nil_of_mem ((mem_entries_iff _ _ _).mpr found)
    exact mergedTuples_outside (merged nonempty) built found inside agree removed
  · exact predicate_outside (predicates _ stores) alike.equalities agree removed

/-! ### Images of updated rows -/

private theorem lastAssignment_concat (set : List SetAssignment) (assignment : SetAssignment)
    (column : String) :
    lastAssignment (set ++ [assignment]) column =
      if assignment.1 = column then some assignment.2 else lastAssignment set column := by
  simp only [lastAssignment, foldl_append, foldl_cons, foldl_nil]

variable {value : Option LiteralValue}

theorem lastAssignment_mem {set : List SetAssignment}
    (last : lastAssignment set column = some value) : (column, value) ∈ set := by
  induction set using reverseRecOn with
  | nil => cases last
  | append_singleton set assignment ih =>
    rw [lastAssignment_concat] at last
    split at last
    · rename_i same
      rw [← same, ← some.inj last]
      exact mem_append_right _ mem_cons_self
    · exact mem_append_left _ (ih last)

theorem lastAssignment_of_nodup {set : List SetAssignment}
    (distinct : (set.map Prod.fst).Nodup) (hm : (column, value) ∈ set) :
    lastAssignment set column = some value := by
  induction set using reverseRecOn with
  | nil => cases hm
  | append_singleton set assignment ih =>
    rw [lastAssignment_concat]
    simp only [map_append, map_cons, map_nil, nodup_append] at distinct
    obtain ⟨earlier, _, apart⟩ := distinct
    rcases mem_append.mp hm with old | new
    · have hne : assignment.1 ≠ column := fun same =>
        apart column (mem_map_of_mem old) assignment.1 mem_cons_self same.symm
      rw [if_neg hne]
      exact ih earlier old
    · rw [← mem_singleton.mp new, if_pos rfl]

theorem lookup_imageRanges (update : UpdateStatement) (column : String) :
    (updatePredicateBuild update).imageRanges.lookup column =
      match lastAssignment update.set column with
      | some (some l) => some (.equal l)
      | some none => none
      | none => (columnRangesFromComparisons update.whereComparisons).lookup column := by
  obtain ⟨rel, whereComparisons, set⟩ := update
  simp only [updatePredicateBuild]
  induction set using reverseRecOn with
  | nil => rfl
  | append_singleton set assignment ih =>
    obtain ⟨name, value⟩ := assignment
    rw [lastAssignment_concat, foldl_append, foldl_cons, foldl_nil]
    by_cases same : name = column
    · subst same
      cases value <;> simp
    · rw [if_neg same]
      cases value with
      | none => rw [AList.lookup_erase_ne (Ne.symm same), ih]
      | some l => rw [AList.lookup_insert_ne (Ne.symm same), ih]

variable {whereValues : List LiteralValue}

theorem mem_of_updateTupleBuild {whereColumns setColumns : List String} {setValues : SetTuple}
    (built : updateTupleBuild update =
      some ((whereColumns, setColumns), (whereValues, setValues))) :
    equalityTupleBuild update.whereComparisons = some (whereColumns, whereValues) ∧
      (update.set.map Prod.fst).Nodup ∧
      (∀ (i : Nat) column value, setColumns[i]? = some column →
        setValues[i]? = some value → (column, value) ∈ update.set) ∧
      ∀ column, column ∈ setColumns ↔ column ∈ update.set.map Prod.fst := by
  simp only [updateTupleBuild, Option.bind_eq_bind, Option.bind_eq_some_iff] at built
  obtain ⟨⟨columns, values⟩, tuple, built⟩ := built
  simp only at built
  split at built
  · cases built
  · rename_i distinct
    simp only [Option.pure_def, Option.some.injEq, Prod.mk.injEq] at built
    obtain ⟨⟨rfl, rfl⟩, rfl, rfl⟩ := built
    have sorted := perm_insertionSort (fun a b : SetAssignment => a.1 ≤ b.1) update.set
    refine ⟨tuple, not_not.mp distinct, ?_, fun column => (sorted.map Prod.fst).mem_iff⟩
    intro i column value hc hv
    simp only [getElem?_map, Option.map_eq_some_iff] at hc hv
    obtain ⟨pair, found, rfl⟩ := hc
    obtain ⟨pair', found', rfl⟩ := hv
    rw [found] at found'
    cases found'
    exact sorted.mem_iff.mp (mem_of_getElem? found)

private theorem image_merged_outside {whereColumns setColumns : List String} {setValues : SetTuple}
    (built : updateTupleBuild update = some ((whereColumns, setColumns), (whereValues, setValues)))
    (hx : excludedAt ((constrainedPositions whereColumns ranges).filter fun c =>
        (whereColumns[c.1]?).any (· ∉ setColumns)) (fun i => whereValues[i]?) = true ∨
      excludedAt (constrainedPositions setColumns ranges) (fun i => (setValues[i]?).join) = true)
    (alike : SpelledAlike S ranges (.updateRows update)) {old new : Row V}
    (h : RowMatches S update.whereComparisons old) (image : Image S update.set old new) :
    ¬ RowWithin S ranges new := by
  obtain ⟨tuple, distinct, assigned, columns⟩ := mem_of_updateTupleBuild built
  rcases hx with hx | hx
  · refine not_rowWithin_of_tuple tuple (fun c hm => (mem_filter.mp hm).1) hx
      (fun column op l cj => alike.literals column l (Or.inl ⟨op, cj⟩)) ?_
    intro c hm column l hc cj
    have untouched : column ∉ setColumns := by
      have kept := (mem_filter.mp hm).2
      rw [hc] at kept
      simpa using kept
    have unassigned : lastAssignment update.set column = none := by
      cases last : lastAssignment update.set column with
      | none => rfl
      | some value =>
        have named := mem_map_of_mem (f := Prod.fst) (lastAssignment_mem last)
        exact (untouched ((columns column).mpr named)).elim
    have same := image column
    rw [unassigned] at same
    rw [same]
    exact value_of_equality h cj
  · refine not_rowWithin_of_excludedAt hx ?_
    intro c hm l hk
    obtain ⟨column, hc, looked⟩ := mem_constrainedPositions hm
    have assignment := assigned c.1 column (some l) hc (by simpa [join_eq_some_iff] using hk)
    have same := image column
    rw [lastAssignment_of_nodup distinct assignment] at same
    exact ⟨column, looked, same, alike.literals column l (Or.inr assignment) c.2 looked⟩

private theorem image_predicate_outside
    (disjoint : columnRangesDisjoint ranges (updatePredicateBuild update).imageRanges = true)
    (alike : SpelledAlike S ranges (.updateRows update)) {old new : Row V}
    (hh : RowMatches S update.whereComparisons old) (image : Image S update.set old new) :
    ¬ RowWithin S ranges new := by
  intro hw
  have hb := rowWithin_columnRangesFromComparisons alike.equalities hh
  unfold columnRangesDisjoint at disjoint
  split at disjoint
  · rename_i unsatisfiable
    rcases Bool.or_eq_true_iff.mp unsatisfiable with h | h
    · exact not_rowWithin_of_hasEmpty h hw
    · obtain ⟨column, range, hf, empty⟩ := (any_iff _ _).mp h
      rw [of_decide_eq_true empty, lookup_imageRanges] at hf
      split at hf
      · cases hf
      · cases hf
      · exact hb column .empty hf
  · obtain ⟨column, ra, hra, shared⟩ := (any_iff _ _).mp disjoint
    obtain ⟨rb, hrb, apart⟩ := (any_eq_true _ _).mp shared
    have admitted := hw column ra hra
    have now := image column
    rw [lookup_imageRanges] at hrb
    split at hrb
    · rename_i l last
      cases hrb
      rw [last] at now
      rw [now] at admitted
      have agree := alike.literals column l (Or.inr (lastAssignment_mem last))
      exact not_admits_assigned apart (agree ra hra) admitted
    · cases hrb
    · rename_i last
      rw [last] at now
      rw [now] at admitted
      refine not_admits_both apart ?_ admitted (hb column rb hrb)
      intro x hx y hy
      obtain ⟨op, cj⟩ := mem_of_literalsOf_columnRanges hrb hy
      exact alike.literals column y (Or.inl ⟨op, cj⟩) ra hra x hx

private theorem update_outside (stores : Stores aggregate (.updateRows update))
    (merged : aggregate.mergedUpdates.entries ≠ [] →
      mergedUpdatesDisjoint aggregate.mergedUpdates ranges = true)
    (predicates : ∀ predicate ∈ aggregate.updates,
      columnRangesDisjoint ranges predicate.whereRanges = true ∧
        columnRangesDisjoint ranges predicate.imageRanges = true)
    (alike : SpelledAlike S ranges (.updateRows update))
    (touched : Removes S (.updateRows update) row ∨ Adds S (.updateRows update) row) :
    ¬ RowWithin S ranges row := by
  have agree : ∀ column op literal, (column, op, literal) ∈ update.whereComparisons →
      LiteralAgrees S ranges column literal :=
    fun column op literal conjunct => alike.literals column literal (Or.inl ⟨op, conjunct⟩)
  simp only [Stores] at stores
  split at stores
  · rename_i shape tuple built
    obtain ⟨⟨whereColumns, setColumns⟩, whereValues, setValues⟩ := shape, tuple
    obtain ⟨tuples, found, inside⟩ := stores
    have group := merged (ne_nil_of_mem ((mem_entries_iff _ _ _).mpr found))
    unfold mergedUpdatesDisjoint at group
    split at group
    · rename_i unsatisfiable
      exact not_rowWithin_of_hasEmpty unsatisfiable
    · have checked := all_eq_true.mp
        (all_eq_true.mp group _ ((mem_entries_iff _ _ _).mpr found)) _ inside
      simp only [Bool.and_eq_true, Bool.or_eq_true] at checked
      rcases touched with removed | ⟨old, holds, image⟩
      · exact not_rowWithin_of_tuple (mem_of_updateTupleBuild built).1 (fun _ h => h) checked.1
          agree fun _ _ column literal _ conjunct => value_of_equality removed conjunct
      · exact image_merged_outside built checked.2 alike holds image
  · obtain ⟨whereDisjoint, imageDisjoint⟩ := predicates _ stores
    rcases touched with removed | ⟨old, holds, image⟩
    · exact predicate_outside whereDisjoint alike.equalities agree removed
    · exact image_predicate_outside imageDisjoint alike holds image

/-! ### The gate's test of one aggregate -/

private theorem checksIntersect_false {kinds kinds' : DisjointKinds}
    {checks : List (Bool × (DisjointKinds → DisjointKinds))}
    (passed : checksIntersect kinds checks = (false, kinds')) :
    ∀ check ∈ checks, check.1 = true := by
  induction checks generalizing kinds with
  | nil => exact fun check hm => nomatch hm
  | cons check checks ih =>
    simp only [checksIntersect] at passed
    split at passed
    · rename_i disjoint
      intro o hm
      rcases mem_cons.mp hm with rfl | rest
      · exact disjoint
      · exact ih passed o rest
    · cases passed

private structure ChecksPassed (aggregate : TableAggregate)
    (disjointFrom : (ColumnRanges → Bool) → Bool) : Prop where
  inserts : ∀ inserts, aggregate.inserts = some inserts → disjointFrom inserts.disjoint = true
  mergedDeletes : aggregate.mergedDeletes.entries ≠ [] →
    disjointFrom (mergedTuplesDisjoint aggregate.mergedDeletes) = true
  deletes : ∀ predicate ∈ aggregate.deletes, disjointFrom (columnRangesDisjoint · predicate) = true
  mergedUpdates : aggregate.mergedUpdates.entries ≠ [] →
    disjointFrom (mergedUpdatesDisjoint aggregate.mergedUpdates) = true
  updates : ∀ predicate ∈ aggregate.updates,
    disjointFrom (fun ranges => columnRangesDisjoint ranges predicate.whereRanges &&
      columnRangesDisjoint ranges predicate.imageRanges) = true

private theorem checksPassed_of_all {disjointFrom : (ColumnRanges → Bool) → Bool}
    (passed : ∀ check ∈ disjointChecks aggregate disjointFrom, check.1 = true) :
    ChecksPassed aggregate disjointFrom := by
  simp only [disjointChecks, mem_append, or_imp, forall_and] at passed
  obtain ⟨⟨⟨⟨inserts, mergedDeletes⟩, deletes⟩, mergedUpdates⟩, updates⟩ := passed
  refine ⟨?_, ?_, ?_, ?_, ?_⟩
  · intro stored hf
    rw [hf] at inserts
    exact inserts _ (mem_cons_self)
  · intro hne
    rw [if_neg (by simpa using hne)] at mergedDeletes
    exact mergedDeletes _ mem_cons_self
  · exact fun p hm => deletes _ (mem_map_of_mem hm)
  · intro hne
    rw [if_neg (by simpa using hne)] at mergedUpdates
    exact mergedUpdates _ mem_cons_self
  · exact fun p hm => updates _ (mem_map_of_mem hm)

private theorem not_stores_of_checksPassed_false {write : WriteClass}
    (passed : ChecksPassed aggregate fun _ => false) : ¬ Stores aggregate write := by
  intro stores
  have hne {κ α : Type} [DecidableEq κ] {map : KeyedMap κ α} {key : κ} {value : α}
      (hf : map.lookup key = some value) : map.entries ≠ [] :=
    ne_nil_of_mem ((mem_entries_iff _ _ _).mpr hf)
  cases write with
  | insertRows insert =>
    obtain ⟨inserts, hf, _⟩ := stores
    exact Bool.false_ne_true (passed.inserts inserts hf)
  | deleteRows delete =>
    simp only [Stores] at stores
    split at stores
    · obtain ⟨tuples, hf, _⟩ := stores
      exact Bool.false_ne_true (passed.mergedDeletes (hne hf))
    · exact Bool.false_ne_true (passed.deletes _ stores)
  | updateRows update =>
    simp only [Stores] at stores
    split at stores
    · obtain ⟨tuples, hf, _⟩ := stores
      exact Bool.false_ne_true (passed.mergedUpdates (hne hf))
    · exact Bool.false_ne_true (passed.updates _ stores)
  | table | connection | connectionUnstampable => exact stores

theorem not_disturbs_of_not_intersects {readRanges : Option ColumnRanges}
    {kinds kinds' : DisjointKinds} {write : WriteClass} {p : Row V → Prop}
    (passed : aggregateIntersects aggregate readRanges kinds = (false, kinds'))
    (covers : Covers aggregate write)
    (contain : ∀ ranges, readRanges = some ranges → ∀ row, p row → RowWithin S ranges row)
    (alike : ∀ ranges, readRanges = some ranges → SpelledAlike S ranges write) :
    ¬ Disturbs S write p := by
  unfold aggregateIntersects at passed
  split at passed
  · cases passed
  rename_i visible
  have stores := covers.resolve_left visible
  have checks := checksPassed_of_all (checksIntersect_false passed)
  cases readRanges with
  | none => exact (not_stores_of_checksPassed_false checks stores).elim
  | some ranges =>
    rintro ⟨row, touched, satisfies⟩
    have hw := contain ranges rfl row satisfies
    have alike := alike ranges rfl
    cases write with
    | insertRows insert =>
      obtain ⟨inserts, hf, held⟩ := stores
      exact insert_outside (checks.inserts inserts hf) held alike
        (touched.resolve_left not_false) hw
    | deleteRows delete =>
      exact delete_outside stores checks.mergedDeletes checks.deletes alike
        (touched.resolve_right not_false) hw
    | updateRows update =>
      refine update_outside stores checks.mergedUpdates ?_ alike touched hw
      exact fun pr hm => Bool.and_eq_true_iff.mp (checks.updates pr hm)
    | table | connection | connectionUnstampable => exact stores

end PgCache.ReadAfterWrite.Disjoint
