/- source: query/constraint_index/classify.rs, query/constraint_index/mod.rs
   digest: Column sets, the range of each column of a constraint list, and what makes a list
     equality-pure. -/
import PgCache.Query.Constraints.RangeSubsume
import PgCache.Query.Constraints.Subsume
import PgCache.Query.Containment.Run
import Mathlib.Data.List.Dedup

set_option autoImplicit false

namespace PgCache.Query.Containment.Classify

open Data.Loop Literal Constraints.Range Constraints.RangeScan Constraints.RangeSubsume
open Constraints.Subsume Containment Containment.Run List

section ColumnSets

variable {columns : List String}

theorem mem_columnSet {c : String} : c ∈ columnSet columns ↔ c ∈ columns := by
  rw [columnSet, mem_insertionSort, mem_dedup]

theorem nodup_columnSet (columns : List String) : (columnSet columns).Nodup :=
  (perm_insertionSort _ _).nodup_iff.mpr (nodup_dedup columns)

theorem columnSet_sublist {others : List String} (hm : columns ⊆ others) :
    (columnSet columns).Sublist (columnSet others) := by
  have subset : columnSet columns ⊆ columnSet others := fun c hl =>
    mem_columnSet.mpr (hm (mem_columnSet.mp hl))
  exact sublist_of_subperm_of_pairwise (subperm_of_subset (nodup_columnSet columns) subset)
    (pairwise_insertionSort _ _) (pairwise_insertionSort _ _)

private theorem selected_tail (columns : List String) (start mask bit : Nat) (small : bit < 2) :
    ((columns.zipIdx (start + 1)).filter fun e =>
        (2 * mask + bit).testBit (e.2 - start)) =
      (columns.zipIdx (start + 1)).filter fun e => mask.testBit (e.2 - (start + 1)) := by
  refine filter_congr fun e hl => ?_
  have past : start + 1 ≤ e.2 := (mem_zipIdx hl).1
  have next : e.2 - start = e.2 - (start + 1) + 1 := by omega
  have half : (2 * mask + bit) / 2 = mask := by omega
  rw [next, Nat.testBit_succ, half]

private theorem exists_mask {subset : List String} (hw : subset.Sublist columns) (start : Nat) :
    ∃ mask < 2 ^ columns.length,
      ((columns.zipIdx start).filter fun e => mask.testBit (e.2 - start)).map Prod.fst =
        subset := by
  induction hw generalizing start with
  | slnil => exact ⟨0, by simp, rfl⟩
  | @cons subset columns c hw ih =>
    obtain ⟨mask, small, selects⟩ := ih (start + 1)
    refine ⟨2 * mask + 0, by rw [length_cons, pow_succ]; omega, ?_⟩
    rw [zipIdx_cons, filter_cons, selected_tail columns start mask 0 (by omega)]
    simpa using selects
  | @cons_cons subset columns c hw ih =>
    obtain ⟨mask, small, selects⟩ := ih (start + 1)
    refine ⟨2 * mask + 1, by rw [length_cons, pow_succ]; omega, ?_⟩
    rw [zipIdx_cons, filter_cons, selected_tail columns start mask 1 (by omega)]
    simpa using selects

theorem mem_columnSetPowerset {subset columns : ColumnSet} :
    subset ∈ columnSetPowerset columns ↔ subset.Sublist columns := by
  unfold columnSetPowerset
  rw [mem_map]
  constructor
  · rintro ⟨mask, -, rfl⟩
    have selected : ((columns.zipIdx.filter fun e => mask.testBit e.2).map Prod.fst).Sublist
        (columns.zipIdx.map Prod.fst) := filter_sublist.map Prod.fst
    rw [zipIdx_map_fst] at selected
    exact selected
  · intro hw
    obtain ⟨mask, small, selects⟩ := exists_mask hw 0
    exact ⟨mask, mem_range.mpr small, selects⟩

end ColumnSets

/-- The range `column_ranges` computes for one column. -/
def rangeOn (constraints : List TableConstraint) (column : String) : ColumnRange :=
  let onColumn := constraints.filter fun constraint => constraintColumn constraint = column
  let hasCast := onColumn.any fun
    | .castComparison .. => true
    | _ => false
  if hasCast then .unknown else columnRangeBuild onColumn

variable (constraints : List TableConstraint)

theorem columnRanges_eq (columns : ColumnSet) :
    columnRanges constraints columns = columns.map (rangeOn constraints) := rfl

theorem classify_columns :
    (classify constraints).columns = columnSet (constraints.map constraintColumn) := by
  unfold classify
  dsimp only
  split
  · split <;> rfl
  · rfl

theorem rangeOn_cases (column : String) : rangeOn constraints column = .unknown ∨
      rangeOn constraints column = columnRangeBuild (bucket (column, none) constraints) := by
  unfold rangeOn
  dsimp only
  split
  · exact Or.inl rfl
  · rename_i bare
    refine Or.inr (congrArg columnRangeBuild (filter_congr fun k hl => ?_))
    rw [Bool.not_eq_true, any_eq_false] at bare
    apply decide_eq_decide.mpr
    cases k with
    | comparison column' op value => simp [constraintColumn, constraintBucketKey]
    | anyOf column' values => simp [constraintColumn, constraintBucketKey]
    | castComparison column' cast op value =>
      have o : column' ≠ column := fun same =>
        bare _ (mem_filter.mpr ⟨hl, decide_eq_true same⟩) rfl
      simp [constraintColumn, constraintBucketKey, o]

section Built

private theorem memberRange_ne_emptySet (members : List LiteralValue) :
    memberRange members ≠ .inSet [] := by
  unfold memberRange
  split <;> simp

theorem columnRangeBuild_ne_emptySet (constraints : List TableConstraint) :
    columnRangeBuild constraints ≠ .inSet [] := by
  intro built
  unfold columnRangeBuild at built
  split at built
  · cases built
  split at built
  · exact not_inSet built
  · rename_i members _
    by_cases none : members = []
    · rw [inSetRangeBuild, if_pos none] at built
      cases built
    have is := setBuilt members (comparisonsOf constraints)
    rw [built] at is
    generalize range : ColumnRange.inSet [] = result at is
    cases is with
    | unknown | noMember | emptied => cases range
    | whole => exact none (by cases range; rfl)
    | point _ => split at range <;> cases range
    | kept _ => exact memberRange_ne_emptySet _ range.symm
  · cases built

theorem rangeOn_ne_emptySet (constraints : List TableConstraint) (c : String) :
    rangeOn constraints c ≠ .inSet [] := by
  rcases rangeOn_cases constraints c with unknown | built
  · simp [unknown]
  · rw [built]
    exact columnRangeBuild_ne_emptySet _

theorem columnRangeBuild_unconstrained {constraints : List TableConstraint}
    (built : columnRangeBuild constraints = .unconstrained) : constraints = [] := by
  by_contra nonempty
  rw [columnRangeBuild, if_neg nonempty] at built
  split at built
  · rename_i bare
    have none := nil_of_unconstrained built
    obtain ⟨k, rest, rfl⟩ := exists_cons_of_ne_nil nonempty
    cases k <;> simp [inSetsOf, comparisonsOf] at bare none
  · rename_i members _
    have is := setBuilt members (comparisonsOf constraints)
    rw [built] at is
    generalize range : ColumnRange.unconstrained = result at is
    cases is with
    | unknown | noMember | emptied | whole => cases range
    | point _ => split at range <;> cases range
    | kept _ =>
      unfold memberRange at range
      split at range <;> cases range
  · cases built

end Built

section Pure

variable {value : LiteralValue} {constraints : List TableConstraint}

private theorem comparisonScan_same (comparable : literalValueIsIncomparable value = false)
    (times : Nat) :
    (replicate times (BinaryOp.equal, value)).foldlM comparisonScanStep
      ⟨some value, none, none, []⟩ = .ok ⟨some value, none, none, []⟩ := by
  induction times with
  | zero => rfl
  | succ times ih =>
    have step : comparisonScanStep ⟨some value, none, none, []⟩ (.equal, value) =
        .ok ⟨some value, none, none, []⟩ := by
      simp [comparisonScanStep, comparable]
    rw [replicate_succ, foldlM_cons, step]
    exact ih

theorem comparisonRangeBuild_same (comparable : literalValueIsIncomparable value = false)
    {comparisons : List (BinaryOp × LiteralValue)} (hne : comparisons ≠ [])
    (same : ∀ c ∈ comparisons, c = (BinaryOp.equal, value)) :
    comparisonRangeBuild comparisons = .equal value := by
  obtain ⟨times, rfl⟩ : ∃ times, comparisons = replicate (times + 1) (BinaryOp.equal, value) := by
    refine ⟨comparisons.length - 1, ?_⟩
    have positive := length_pos_iff.mpr hne
    rw [Nat.sub_add_cancel positive]
    exact eq_replicate_of_mem same
  have first : comparisonScanStep {} (BinaryOp.equal, value) =
    .ok ⟨some value, none, none, []⟩ := by
    simp [comparisonScanStep, comparable]
  have scanned : (replicate (times + 1) (BinaryOp.equal, value)).foldlM comparisonScanStep {} =
      .ok ⟨some value, none, none, []⟩ := by
    rw [replicate_succ, foldlM_cons, first]
    exact comparisonScan_same comparable times
  rw [comparisonRangeBuild, if_neg hne, scanned]
  simp [comparisonScanFinish, equalValidate]

theorem comparable_of_key {key : ValueKey} (keyed : ValueKey.tryNew value = some key) :
    literalValueIsIncomparable value = false := by
  cases value <;> simp_all [ValueKey.tryNew, literalValueIsIncomparable]

private theorem equalityValue_some {column : String}
    (hf : equalityValue constraints column = some value) :
    TableConstraint.comparison column .equal value ∈ constraints := by
  obtain ⟨k, hl, reads⟩ := exists_of_findSome?_eq_some hf
  split at reads
  · rename_i column' value'
    split at reads
    · rename_i same
      cases reads
      exact same ▸ hl
    · cases reads
  · cases reads

private theorem rangeOn_equal {c : String} {key : ValueKey}
    (keyed : ValueKey.tryNew value = some key)
    (hf : equalityValue constraints c = some value)
    (pure : ∀ k ∈ constraints, constraintColumn k = c → k = .comparison c .equal value) :
    rangeOn constraints c = .equal value := by
  have only : ∀ k ∈ constraints.filter (constraintColumn · = c),
      k = .comparison c .equal value := by
    intro k hl
    obtain ⟨hm, here⟩ := mem_filter.mp hl
    exact pure k hm (of_decide_eq_true here)
  have hl : TableConstraint.comparison c .equal value ∈
      constraints.filter (constraintColumn · = c) :=
    mem_filter.mpr ⟨equalityValue_some hf, decide_eq_true rfl⟩
  unfold rangeOn
  dsimp only
  generalize constraints.filter (constraintColumn · = c) = onColumn at only hl
  rw [if_neg]
  · have noSets : inSetsOf onColumn = [] := by
      refine filterMap_eq_nil_iff.mpr fun k hm => ?_
      rw [only k hm]
    have compares : (BinaryOp.equal, value) ∈ comparisonsOf onColumn :=
      mem_filterMap.mpr ⟨_, hl, rfl⟩
    rw [columnRangeBuild, if_neg (ne_nil_of_mem hl), noSets]
    refine comparisonRangeBuild_same (comparable_of_key keyed) (ne_nil_of_mem compares) ?_
    intro cmp hm
    obtain ⟨k, here, reads⟩ := mem_filterMap.mp hm
    rw [only k here] at reads
    exact (Option.some_inj.mp reads).symm
  · rw [any_eq_true]
    rintro ⟨k, hm, isCast⟩
    rw [only k hm] at isCast
    cases isCast

theorem classify_pure {columns : ColumnSet} {values : List ValueKey}
    (classified : classify constraints = .equalityPure columns values) :
    (∀ column ∈ columns, ∃ value, rangeOn constraints column = .equal value) ∧
      (columns.map (rangeOn constraints)).mapM ConstraintIndex.equalKey = some values := by
  unfold classify at classified
  dsimp only at classified
  split at classified
  · rename_i values' mapped
    split at classified
    · rename_i pure
      cases classified
      have filed := mapM_eq_some_iff.mp mapped
      have single : ∀ column ∈ columnSet (constraints.map constraintColumn),
          ∃ value, rangeOn constraints column = .equal value ∧
            (equalityValue constraints column).bind ValueKey.tryNew = ValueKey.tryNew value := by
        intro column hl
        have image : (equalityValue constraints column).bind ValueKey.tryNew ∈
            values.map some := filed ▸ mem_map_of_mem hl
        obtain ⟨key, -, reads⟩ := mem_map.mp image
        obtain ⟨value, hf, keyed⟩ := Option.bind_eq_some_iff.mp reads.symm
        refine ⟨value, rangeOn_equal keyed hf ?_, by rw [hf]; rfl⟩
        intro k hm here
        have this := all_eq_true.mp pure k hm
        split at this
        · rename_i column' value'
          obtain rfl : column' = column := here
          have same := of_decide_eq_true this
          rw [hf, Option.some_inj] at same
          rw [same]
        · cases this
      refine ⟨fun column hl => (single column hl).imp fun _ both => both.1, ?_⟩
      rw [mapM_eq_some_iff, ← filed, map_map]
      refine map_congr_left fun column hl => ?_
      obtain ⟨value, he, reads⟩ := single column hl
      rw [Function.comp_apply, he, reads]
      rfl
    · cases classified
  · cases classified

theorem classify_complex {columns : ColumnSet}
    (classified : classify constraints = .complex columns) : columns ≠ [] := by
  intro none
  have from' := classify_columns constraints
  rw [classified] at from'
  cases constraints with
  | nil => cases classified
  | cons k constraints =>
    have hl : constraintColumn k ∈ columnSet ((k :: constraints).map constraintColumn) :=
      mem_columnSet.mpr mem_cons_self
    rw [← from'] at hl
    subst none
    cases hl

end Pure

end PgCache.Query.Containment.Classify
