/- source: query/constraints/range.rs
   digest: Range subsumption against the values of a column: where it may be trusted, and the
     exclusion it drops because an undecided order counts as "not contained". -/
import PgCache.Query.Constraints.RangeExact

set_option autoImplicit false

namespace PgCache.Query.Constraints.RangeSubsume

open Literal Range RangeScan RangeMeaning RangeExact List

variable {V : Type} [LinearOrder V]

/-- A value satisfies a constraint of its bucket: the constraints of one column, or of one
column under one cast. -/
def Satisfies (S : ColumnValues V) (column : String) (value : Option V) : TableConstraint → Prop
  | .comparison _ op literal | .castComparison _ _ op literal => S.Holds column op value literal
  | .anyOf _ literals => ∃ literal ∈ literals, S.Holds column .equal value literal

variable (constraints : List TableConstraint)

def constraintLiterals : List LiteralValue :=
  (comparisonsOf constraints).map Prod.snd ++ (inSetsOf constraints).flatten

def excludedLiterals : List LiteralValue :=
  ((comparisonsOf constraints).filter (·.1 = .notEqual)).map Prod.snd

/-- The literal is how the constraints write a value: it is their equality, a member of their sets
and of one type with their bounds. -/
def Written (literal : LiteralValue) : Prop :=
  (∀ other, (.equal, other) ∈ comparisonsOf constraints → other = literal) ∧
  (∀ members ∈ inSetsOf constraints, literal ∈ members) ∧
  ∀ bound ∈ boundLiterals (comparisonsOf constraints), (literalValueOrder literal bound).isSome

/-- What the code must be able to tell about a value: where the new constraints place it by a
literal, they agree on that literal; and a literal by which the cached ones exclude it is the one
the new constraints write. -/
def Told (S : ColumnValues V) (column : String) (cached new : List TableConstraint) (value : V) :
    Prop :=
  ((∃ literal, (.equal, literal) ∈ comparisonsOf new) ∨ inSetsOf new ≠ [] →
    ∃ literal, S.literal column literal = some value ∧ Written new literal) ∧
  ∀ excluded ∈ excludedLiterals cached, S.literal column excluded = some value →
    Written new excluded

variable {S : ColumnValues V} {column : String}

variable {constraints : List TableConstraint} {value : Option V} {members : List LiteralValue}
  {literal : LiteralValue}

private theorem valued_comparisons (valued : Valued S column (constraintLiterals constraints)) :
    Valued S column ((comparisonsOf constraints).map Prod.snd) :=
  fun literal hl => valued literal (mem_append_left _ hl)

theorem satisfies_iff : (∀ c ∈ constraints, Satisfies S column value c) ↔
      (∀ c ∈ comparisonsOf constraints, S.Holds column c.1 value c.2) ∧
        ∀ set ∈ inSetsOf constraints, ∃ literal ∈ set, S.Holds column .equal value literal := by
  induction constraints with
  | nil => simp [comparisonsOf, inSetsOf]
  | cons k constraints ih =>
    simp only [forall_mem_cons, ih]
    cases k with
    | comparison _ op literal =>
      simp [Satisfies, comparisonsOf, inSetsOf, and_assoc]
    | castComparison _ _ op literal =>
      simp [Satisfies, comparisonsOf, inSetsOf, and_assoc]
    | anyOf _ literals =>
      simp [Satisfies, comparisonsOf, inSetsOf]
      tauto

/-! ### The cases of the build -/

def memberRange : List LiteralValue → ColumnRange
  | [] => .empty
  | [first] => .equal first
  | first :: second :: rest => .inSet (first :: second :: rest)

theorem admits_memberRange : S.Admits column (memberRange members) value ↔
      ∃ literal ∈ members, S.Holds column .equal value literal := by
  match members with
  | [] => simp [memberRange, ColumnValues.Admits]
  | [first] => simp [memberRange, ColumnValues.Admits]
  | first :: second :: rest => rfl

theorem spans_memberRange :
    Spans S column (memberRange members) value ↔ S.Admits column (memberRange members) value := by
  match members with
  | [] | [_] | _ :: _ :: _ => rfl

theorem excludes_memberRange (ha : literal ∉ members) : Excludes (memberRange members) literal := by
  match members with
  | [] => trivial
  | [first] => exact fun same => ha (same ▸ mem_cons_self)
  | _ :: _ :: _ => exact ha

inductive SetBuilt (members : List LiteralValue) (comparisons : List (BinaryOp × LiteralValue)) :
    ColumnRange → Prop
  | unknown : SetBuilt members comparisons .unknown
  | noMember : members = [] → SetBuilt members comparisons .empty
  | emptied : comparisonRangeBuild comparisons = .empty → SetBuilt members comparisons .empty
  | whole : comparisonRangeBuild comparisons = .unconstrained →
      SetBuilt members comparisons (.inSet members)
  | point {literal : LiteralValue} : comparisonRangeBuild comparisons = .equal literal →
      SetBuilt members comparisons (if literal ∈ members then .equal literal else .empty)
  | kept {view : RangeView} : comparisonRangeBuild comparisons = .range view →
      SetBuilt members comparisons (memberRange (members.filter (rangeContainsValue view)))

theorem setBuilt (members : List LiteralValue) (comparisons : List (BinaryOp × LiteralValue)) :
    SetBuilt members comparisons (inSetRangeBuild members comparisons) := by
  unfold inSetRangeBuild
  split
  · rename_i none
    exact .noMember none
  split
  · exact .unknown
  split
  · rename_i none
    exact .whole (by rw [comparisonRangeBuild, if_pos none])
  split
  · exact .unknown
  · rename_i empty
    exact .emptied empty
  · rename_i free
    exact .whole free
  · rename_i literal he
    exact .point he
  · exact .unknown
  · rename_i view range
    exact .kept range

inductive Built (constraints : List TableConstraint) : ColumnRange → Prop
  | unknown : Built constraints .unknown
  | bare : inSetsOf constraints = [] →
      Built constraints (comparisonRangeBuild (comparisonsOf constraints))
  | set {members : List LiteralValue} {range : ColumnRange} : inSetsOf constraints = [members] →
      SetBuilt members (comparisonsOf constraints) range → Built constraints range

theorem built (constraints : List TableConstraint) :
    Built constraints (columnRangeBuild constraints) := by
  unfold columnRangeBuild
  split
  · rename_i none
    subst none
    exact .bare rfl
  split
  · rename_i bare
    exact .bare bare
  · rename_i members single
    exact .set single (setBuilt members _)
  · exact .unknown

variable {view : RangeView}

theorem Built.range_bare {range : ColumnRange} (is : Built constraints range)
    (interval : range = .range view) :
    comparisonRangeBuild (comparisonsOf constraints) = .range view := by
  cases is with
  | unknown => cases interval
  | bare _ => exact interval
  | set _ members =>
    cases members with
    | unknown | noMember | emptied | whole => cases interval
    | point _ => split at interval <;> cases interval
    | kept _ =>
      unfold memberRange at interval
      split at interval <;> cases interval

theorem columnRangeBuild_bare (none : inSetsOf constraints = []) :
    columnRangeBuild constraints = comparisonRangeBuild (comparisonsOf constraints) := by
  unfold columnRangeBuild
  split
  · rename_i empty
    simp [empty, comparisonsOf, comparisonRangeBuild]
  · rw [none]

/-! ### The new side: a value that satisfies the constraints is in their range -/

private theorem rangeContainsValue_of_admits
    (hm : S.Admits column (.range view) value) (h : S.Holds column .equal value literal)
    (ho : ∀ side b, view.bound side = some b →
      (literalValueOrder literal b.value).isSome) : rangeContainsValue view literal = true := by
  have bounds (side : BoundSide) :
      ((view.bound side).all fun b => valueSatisfies side literal b = some true) = true := by
    cases hf : view.bound side with
    | none => rfl
    | some b =>
      obtain ⟨ord, hk⟩ := Option.isSome_iff_exists.mp (ho side b hf)
      cases answer : valueSatisfies side literal b with
      | none => simp [valueSatisfies, hk] at answer
      | some met =>
        cases met with
        | true => simp [answer]
        | false => exact (valueSatisfies_false answer h (hm.1 side b hf)).elim
  have kept : literal ∉ view.notEqual := by
    intro excluded
    obtain ⟨v, x, rfl, hx, differs⟩ := hm.2 literal excluded
    cases value_eq_of_holds h hx
    simp [BinaryOp.holds] at differs
  simp [rangeContainsValue, BoundSide.both, bounds, kept]

def Lists : ColumnRange → LiteralValue → Prop
  | .equal literal, other => literal = other
  | .inSet literals, other => other ∈ literals
  | .range view, other =>
    ∀ side bound, view.bound side = some bound → (literalValueOrder other bound.value).isSome
  | .empty, _ => False
  | .unknown, _ | .unconstrained, _ => True

theorem lists_memberRange : Lists (memberRange members) literal ↔ literal ∈ members := by
  match members with
  | [] => simp [memberRange, Lists]
  | [_] => simp [memberRange, Lists, eq_comm]
  | _ :: _ :: _ => rfl

theorem eq_of_ordered {a b : LiteralValue} {x : V} (ho : (literalValueOrder a b).isSome)
    (hx : S.literal column a = some x) (hy : S.literal column b = some x) : a = b := by
  obtain ⟨ord, ho⟩ := Option.isSome_iff_exists.mp ho
  have same := compare_of_order (literalValueOrder_le_numeric ho) hx hy
  rw [compare_eq_iff_eq.mpr rfl] at same
  exact eq_of_level (same ▸ ho)

section New

variable {value : V} (satisfied : ∀ c ∈ constraints, Satisfies S column (some value) c)
include satisfied

theorem admits_comparisons
    (alike : ∀ a b, (.equal, a) ∈ comparisonsOf constraints →
      (.equal, b) ∈ comparisonsOf constraints → a = b) :
    S.Admits column (comparisonRangeBuild (comparisonsOf constraints)) (some value) :=
  comparisonRangeBuild_sound (fun a b _ ha hb _ _ => alike a b ha hb)
    (satisfies_iff.mp satisfied).1

variable (hl : S.literal column literal = some value) (written : Written constraints literal)
include hl written

theorem lists_comparisons :
    Lists (comparisonRangeBuild (comparisonsOf constraints)) literal := by
  have admitted := admits_comparisons satisfied
    fun a b ha hb => (written.1 a ha).trans (written.1 b hb).symm
  have is := comparisonRangeBuild_built (comparisonsOf constraints)
  generalize comparisonRangeBuild (comparisonsOf constraints) = range at is admitted
  cases is with
  | gaveUp early =>
    rcases early with rfl | rfl
    · trivial
    · exact admitted
  | free _ => trivial
  | equal origin found _ _ => exact written.1 _ (origin.equalFrom _ found)
  | @point scan lower _ origin _ found _ _ _ _ _ =>
    obtain ⟨op, kind, listed⟩ := origin.boundFrom .lower _ found
    obtain ⟨_, x, same, hx, _⟩ := id admitted
    have here := value_eq_of_holds admitted hx
    cases here
    exact (eq_of_ordered (written.2.2 _ (mem_boundLiterals kind listed)) hl hx).symm
  | interval origin _ _ =>
    intro side bound found
    obtain ⟨op, kind, listed⟩ := origin.boundFrom side bound (by cases side <;> exact found)
    exact written.2.2 _ (mem_boundLiterals kind listed)

theorem lists_columnRangeBuild : Lists (columnRangeBuild constraints) literal := by
  have bare := lists_comparisons satisfied hl written
  have admitted := admits_comparisons satisfied
    fun a b ha hb => (written.1 a ha).trans (written.1 b hb).symm
  have is := built constraints
  generalize columnRangeBuild constraints = range at is ⊢
  cases is with
  | unknown => trivial
  | bare _ => exact bare
  | @set members _ single cases_ =>
    have member : literal ∈ members := written.2.1 members (by simp [single])
    cases cases_ with
    | unknown => trivial
    | noMember none => exact absurd member (by simp [none])
    | emptied empty =>
      rw [empty] at bare
      exact bare
    | whole _ => exact member
    | @point other is =>
      rw [is] at bare
      obtain rfl : other = literal := bare
      rw [if_pos member]
      rfl
    | @kept view is =>
      rw [is] at bare admitted
      refine lists_memberRange.mpr (mem_filter.mpr ⟨member, ?_⟩)
      exact rangeContainsValue_of_admits admitted ⟨value, value, rfl, hl, by simp [BinaryOp.holds]⟩
        bare

omit written hl

theorem admits_columnRangeBuild
    (told : (∃ literal, (.equal, literal) ∈ comparisonsOf constraints) ∨ inSetsOf constraints ≠ [] →
      ∃ literal, S.literal column literal = some value ∧ Written constraints literal) :
    S.Admits column (columnRangeBuild constraints) (some value) := by
  by_cases places : (∃ literal, (.equal, literal) ∈ comparisonsOf constraints) ∨
      inSetsOf constraints ≠ []
  · obtain ⟨literal, hl, written⟩ := told places
    have listed := lists_columnRangeBuild satisfied hl written
    have here : S.Holds column .equal (some value) literal :=
      ⟨value, value, rfl, hl, by simp [BinaryOp.holds]⟩
    cases shape : columnRangeBuild constraints with
    | unknown | unconstrained => trivial
    | empty =>
      rw [shape] at listed
      exact listed
    | equal other =>
      rw [shape] at listed
      obtain rfl : other = literal := listed
      exact here
    | inSet literals =>
      rw [shape] at listed
      exact ⟨literal, listed, here⟩
    | range view =>
      rw [← (built constraints).range_bare shape]
      exact admits_comparisons satisfied
        fun a b ha hb => (written.1 a ha).trans (written.1 b hb).symm
  · rw [not_or, not_not] at places
    rw [columnRangeBuild_bare places.2]
    exact admits_comparisons satisfied fun a _ ha _ => absurd ⟨a, ha⟩ places.1

end New

/-! ### The cached side: a value in the range satisfies the constraints -/

private theorem spans_of_rangeContainsValue (contained : rangeContainsValue view literal = true)
    (valued : ∀ side b, view.bound side = some b →
      ∃ x, S.literal column b.value = some x) (h : S.Holds column .equal value literal) :
    Spans S column (.range view) value := by
  intro side b hf
  have tested := (Bool.and_eq_true_iff.mp contained).1
  have met := all_eq_true.mp tested side (by cases side <;> simp [BoundSide.both])
  rw [hf] at met
  exact within_of_valueSatisfies (by simpa using met) (valued side b hf) h

theorem satisfies_of_spans {value : V} (valued : Valued S column (constraintLiterals constraints))
    (hk : columnRangeBuild constraints ≠ .unknown)
    (hm : Spans S column (columnRangeBuild constraints) (some value))
    (apart : ∀ literal ∈ excludedLiterals constraints,
      ¬ S.Holds column .equal (some value) literal) :
    ∀ c ∈ constraints, Satisfies S column (some value) c := by
  have valuedComparisons := valued_comparisons valued
  have compared (knownBare : comparisonRangeBuild (comparisonsOf constraints) ≠ .unknown)
      (bare : Spans S column (comparisonRangeBuild (comparisonsOf constraints)) (some value)) :
      ∀ c ∈ comparisonsOf constraints, S.Holds column c.1 (some value) c.2 := by
    intro c hl
    by_cases exclusion : c.1 = .notEqual
    · obtain ⟨x, hx⟩ := valued_of_known valuedComparisons knownBare bare c hl
      have o := apart c.2 (mem_map.mpr ⟨c, mem_filter.mpr ⟨hl, by simpa using exclusion⟩, rfl⟩)
      refine ⟨value, x, rfl, hx, ?_⟩
      rw [exclusion]
      simpa [BinaryOp.holds] using fun same => o ⟨value, x, rfl, hx, by simp [BinaryOp.holds, same]⟩
    · exact holds_of_spans valuedComparisons knownBare bare c hl exclusion
  rw [satisfies_iff]
  have is := built constraints
  generalize columnRangeBuild constraints = range at is hk hm
  cases is with
  | unknown => exact absurd rfl hk
  | bare none => exact ⟨compared hk hm, by simp [none]⟩
  | @set members _ single cases_ =>
    rw [single]
    simp only [forall_mem_singleton]
    cases cases_ with
    | unknown => exact absurd rfl hk
    | noMember | emptied => exact hm.elim
    | whole free =>
      refine ⟨compared ?_ ?_, hm⟩
      · simp [free]
      · rw [free]
        trivial
    | @point literal is =>
      split at hm
      · rename_i hl
        refine ⟨compared ?_ ?_, literal, hl, hm⟩
        · simp [is]
        · rw [is]
          exact hm
      · exact hm.elim
    | @kept view is =>
      obtain ⟨literal, hl, h⟩ := admits_memberRange.mp (spans_memberRange.mp hm)
      obtain ⟨hl, contained⟩ := mem_filter.mp hl
      refine ⟨compared ?_ ?_, literal, hl, h⟩
      · simp [is]
      · rw [is]
        exact spans_of_rangeContainsValue contained
          (fun side b hf => (bound_comparisonRangeBuild valuedComparisons is hf).2)
          h

theorem excludes_columnRangeBuild (valued : Valued S column (constraintLiterals constraints))
    (hx : literal ∈ excludedLiterals constraints) :
    Excludes (columnRangeBuild constraints) literal := by
  obtain ⟨⟨op, o⟩, kept, rfl⟩ := mem_map.mp hx
  obtain ⟨hl, exclusion⟩ := mem_filter.mp kept
  cases of_decide_eq_true exclusion
  have valuedComparisons := valued_comparisons valued
  have bare := excludes_comparisonRangeBuild valuedComparisons hl
  have is := built constraints
  generalize columnRangeBuild constraints = range at is ⊢
  cases is with
  | unknown => trivial
  | bare _ => exact bare
  | set _ cases_ =>
    cases cases_ with
    | unknown | noMember | emptied => trivial
    | whole free =>
      rw [free] at bare
      exact bare.elim
    | point is =>
      rw [is] at bare
      split
      · exact bare
      · trivial
    | @kept view is =>
      rw [is] at bare
      refine excludes_memberRange fun hm => ?_
      have contained := (mem_filter.mp hm).2
      simp [rangeContainsValue, show o ∈ view.notEqual from bare] at contained

/-! ### Subsumption of ranges -/

private theorem within_of_boundAtLeastAsTight {side : BoundSide} {new hc : RangeBound}
    (tight : boundAtLeastAsTight side new hc = some true)
    (valued : ∃ x, S.literal column hc.value = some x) (hm : S.Within column side new value) :
    S.Within column side hc value := by
  simp only [boundAtLeastAsTight, Option.map_eq_some_iff] at tight
  obtain ⟨ord, ho, covers⟩ := tight
  obtain ⟨v, x, rfl, hx, meets⟩ := hm
  obtain ⟨y, hy⟩ := valued
  have order := compare_of_order (literalValueOrder_le_numeric ho) hx hy
  subst order
  refine ⟨v, y, rfl, hy, ?_⟩
  split at covers
  · rename_i ahead
    exact admits_behind (orient_swap ahead) meets
  · cases covers
  · rename_i level
    cases eq_of_orient level
    unfold BoundSide.admits at meets ⊢
    split at meets <;> simp_all

theorem known_of_subsumes {cached new : ColumnRange}
    (subsumed : columnRangeSubsumes cached new = true) : cached ≠ .unknown ∧ new ≠ .unknown := by
  constructor
  · rintro rfl
    cases new <;> cases subsumed
  · rintro rfl
    cases cached <;> cases subsumed

def BoundsValued (S : ColumnValues V) (column : String) : ColumnRange → Prop
  | .range view => ∀ side bound, view.bound side = some bound →
      ∃ x, S.literal column bound.value = some x
  | _ => True

theorem boundsValued_columnRangeBuild (valued : Valued S column (constraintLiterals constraints)) :
    BoundsValued S column (columnRangeBuild constraints) := by
  cases shape : columnRangeBuild constraints with
  | range view =>
    have bare := (built constraints).range_bare shape
    intro side b hf
    exact (bound_comparisonRangeBuild (valued_comparisons valued) bare hf).2
  | _ => trivial

theorem spans_of_subsumes {cached new : ColumnRange}
    (subsumed : columnRangeSubsumes cached new = true) (valued : BoundsValued S column cached)
    (hm : S.Admits column new value) : Spans S column cached value := by
  cases cached with
  | unknown => cases new <;> cases subsumed
  | empty => cases new <;> cases subsumed
  | unconstrained => trivial
  | equal literal =>
    cases new with
    | unknown | unconstrained | inSet | range => cases subsumed
    | empty => exact hm.elim
    | equal o => exact of_decide_eq_true subsumed ▸ hm
  | inSet literals =>
    cases new with
    | unknown | unconstrained | range => cases subsumed
    | empty => exact hm.elim
    | equal literal => exact ⟨literal, of_decide_eq_true subsumed, hm⟩
    | inSet os =>
      obtain ⟨literal, hl, h⟩ := hm
      exact ⟨literal, of_decide_eq_true (all_eq_true.mp subsumed literal hl), h⟩
  | range view =>
    cases new with
    | unknown | unconstrained => cases subsumed
    | empty => exact hm.elim
    | equal literal => exact spans_of_rangeContainsValue subsumed valued hm
    | inSet literals =>
      obtain ⟨literal, hl, h⟩ := hm
      have contained := all_eq_true.mp subsumed literal hl
      exact spans_of_rangeContainsValue contained valued h
    | range narrower =>
      intro side b hf
      have covers := all_eq_true.mp (Bool.and_eq_true_iff.mp subsumed).1 side
        (by cases side <;> simp [BoundSide.both])
      rw [hf] at covers
      cases slot : narrower.bound side with
      | none => simp [slot, boundCovered] at covers
      | some tighter =>
        rw [slot] at covers
        exact within_of_boundAtLeastAsTight (of_decide_eq_true covers)
          (valued side b hf) (hm.1 side tighter slot)

theorem apart_of_subsumes {cached new : ColumnRange} {excluded : LiteralValue}
    (subsumed : columnRangeSubsumes cached new = true) (hm : S.Admits column new value)
    (rules : Excludes cached excluded) (listed : Lists new excluded) :
    ¬ S.Holds column .equal value excluded := by
  intro h
  cases cached with
  | unknown => cases new <;> cases subsumed
  | empty => cases new <;> cases subsumed
  | unconstrained => exact rules
  | equal literal =>
    cases new with
    | unknown | unconstrained | inSet | range => cases subsumed
    | empty => exact listed
    | equal other => exact rules ((of_decide_eq_true subsumed).trans listed)
  | inSet literals =>
    cases new with
    | unknown | unconstrained | range => cases subsumed
    | empty => exact listed
    | equal other =>
      obtain rfl : other = excluded := listed
      exact rules (of_decide_eq_true subsumed)
    | inSet others => exact rules (of_decide_eq_true (all_eq_true.mp subsumed excluded listed))
  | range view =>
    have unlisted : rangeContainsValue view excluded = false := by
      simp [rangeContainsValue, show excluded ∈ view.notEqual from rules]
    cases new with
    | unknown | unconstrained => cases subsumed
    | empty => exact listed
    | equal other =>
      obtain rfl : other = excluded := listed
      exact absurd subsumed (by simp [columnRangeSubsumes, unlisted])
    | inSet others => exact absurd (all_eq_true.mp subsumed excluded listed) (by simp [unlisted])
    | range narrower =>
      have covers := all_eq_true.mp (Bool.and_eq_true_iff.mp subsumed).2 excluded rules
      by_cases repeated : excluded ∈ narrower.notEqual
      · obtain ⟨v, x, rfl, hx, differs⟩ := hm.2 excluded repeated
        cases value_eq_of_holds h hx
        simp [BinaryOp.holds] at differs
      · have bounds : S.Admits column (.range { narrower with notEqual := [] }) value := by
          refine ⟨fun side b hf => hm.1 side b ?_, by simp⟩
          cases side <;> exact hf
        have contained := rangeContainsValue_of_admits bounds h (by
          intro side b hf
          refine listed side b ?_
          cases side <;> exact hf)
        simp [repeated, contained] at covers

/-! ### What a range that keeps a value says about its literals -/

theorem ordered_of_rangeContainsValue (contained : rangeContainsValue view literal = true) :
    ∀ side bound, view.bound side =
      some bound → (literalValueOrder literal bound.value).isSome := by
  intro side bound found
  have tested := (Bool.and_eq_true_iff.mp contained).1
  have met := all_eq_true.mp tested side (by cases side <;> simp [BoundSide.both])
  rw [found] at met
  have satisfied : valueSatisfies side literal bound = some true := by simpa using met
  obtain ⟨ord, ho, -⟩ := Option.map_eq_some_iff.mp satisfied
  simp [ho]

theorem written_of_admits {value : V} (hk : columnRangeBuild constraints ≠ .unknown)
    (admitted : S.Admits column (columnRangeBuild constraints) (some value))
    (places : (∃ literal, (.equal, literal) ∈ comparisonsOf constraints) ∨
      inSetsOf constraints ≠ []) :
    ∃ literal, S.literal column literal = some value ∧ Written constraints literal := by
  have is := built constraints
  generalize columnRangeBuild constraints = range at is hk admitted
  cases is with
  | unknown => exact absurd rfl hk
  | bare none =>
    obtain ⟨literal, listed⟩ := places.resolve_right (by simp [none])
    have point {other : LiteralValue}
        (shape : comparisonRangeBuild (comparisonsOf constraints) = .equal other) :
        ∃ literal, S.literal column literal = some value ∧ Written constraints literal := by
      rw [shape] at admitted
      obtain ⟨-, equals, -, -, bounds⟩ := point_comparisonRangeBuild shape
      exact ⟨other, value_of_equal admitted, equals, by simp [none], bounds⟩
    have kinds := comparisonRangeBuild_uniform (comparisonsOf constraints)
    generalize shape : comparisonRangeBuild (comparisonsOf constraints) = range at kinds
    cases kinds with
    | gaveUp early =>
      rcases early with rfl | rfl
      · exact absurd shape hk
      · rw [shape] at admitted
        exact admitted.elim
    | free empty =>
      rw [empty] at listed
      cases listed
    | equal | point => exact point shape
    | interval => exact absurd (.inl listed) ((interval_comparisonRangeBuild shape).1 literal)
  | @set members _ single cases_ =>
    cases cases_ with
    | unknown => exact absurd rfl hk
    | noMember | emptied => exact admitted.elim
    | whole free =>
      obtain ⟨literal, member, holds⟩ := admitted
      have empty := nil_of_unconstrained free
      exact ⟨literal, value_of_equal holds, by simp [empty], by simpa [single] using member,
        by simp [empty, boundLiterals]⟩
    | @point other is =>
      split at admitted
      · rename_i member
        obtain ⟨-, equals, -, -, bounds⟩ := point_comparisonRangeBuild is
        exact ⟨other, value_of_equal admitted, equals, by simpa [single] using member, bounds⟩
      · exact admitted.elim
    | @kept view is =>
      obtain ⟨literal, listed, holds⟩ := admits_memberRange.mp admitted
      obtain ⟨member, contained⟩ := mem_filter.mp listed
      obtain ⟨unpinned, -, bounds, -⟩ := interval_comparisonRangeBuild is
      exact ⟨literal, value_of_equal holds, fun other equal => absurd (.inl equal) (unpinned other),
        by simpa [single] using member, bounds literal (ordered_of_rangeContainsValue contained)⟩

/-- Where the code says that the cached constraints are implied and a value satisfies the new ones,
the new range has kept the value and the cached constraints hold of it exactly when the code could
tell the literals of the value apart. -/
theorem subsumed_constraints_hold (S : ColumnValues V) (column : String)
    (cached new : List TableConstraint) (value : V)
    (valued : Valued S column (constraintLiterals cached))
    (subsumed : columnRangeSubsumes (columnRangeBuild cached) (columnRangeBuild new) = true)
    (satisfied : ∀ c ∈ new, Satisfies S column (some value) c) :
    (S.Admits column (columnRangeBuild new) (some value) ∧
      ∀ c ∈ cached, Satisfies S column (some value) c) ↔ Told S column cached new value := by
  constructor
  · rintro ⟨admitted, implied⟩
    refine ⟨written_of_admits (known_of_subsumes subsumed).2 admitted, fun excluded listed hx => ?_⟩
    obtain ⟨⟨op, literal⟩, kept, rfl⟩ := mem_map.mp listed
    obtain ⟨compared, exclusion⟩ := mem_filter.mp kept
    cases of_decide_eq_true exclusion
    obtain ⟨v, x, same, hx', differs⟩ := (satisfies_iff.mp implied).1 _ compared
    cases same
    cases hx.symm.trans hx'
    simp [BinaryOp.holds] at differs
  · rintro ⟨told, excludedTold⟩
    have admitted := admits_columnRangeBuild satisfied told
    have bounds := boundsValued_columnRangeBuild valued
    have span := spans_of_subsumes subsumed bounds admitted
    refine ⟨admitted, satisfies_of_spans valued (known_of_subsumes subsumed).1 span
      fun excluded listed holds => ?_⟩
    obtain ⟨_, x, _, hx, _⟩ := id holds
    cases value_eq_of_holds holds hx
    exact apart_of_subsumes subsumed admitted (excludes_columnRangeBuild valued listed)
      (lists_columnRangeBuild satisfied hx (excludedTold excluded listed hx)) holds

def cachedPrices : List TableConstraint :=
  [.comparison "price" .greaterThan (.integer 3), .comparison "price" .notEqual (.integer 5)]

def askedPrices : List TableConstraint :=
  [.anyOf "price" [.integer 4, .integer 7], .comparison "price" .greaterThan (.integer 3)]

theorem asked_prices_subsumed :
    columnRangeSubsumes (columnRangeBuild cachedPrices) (columnRangeBuild askedPrices) = true ∧
    ∀ c ∈ cachedPrices, Satisfies plainValues "price" (some 7) c := by
  have subsumed : columnRangeSubsumes (columnRangeBuild cachedPrices)
      (columnRangeBuild askedPrices) = true := by decide +kernel
  have seven : plainValues.Holds "price" .equal (some 7) (.integer 7) := ⟨7, 7, rfl, rfl, rfl⟩
  have above : plainValues.Holds "price" .greaterThan (some 7) (.integer 3) := ⟨7, 3, rfl, rfl, rfl⟩
  have satisfied : ∀ c ∈ askedPrices, Satisfies plainValues "price" (some 7) c := by
    simp only [askedPrices, forall_mem_cons, Satisfies]
    exact ⟨⟨_, by simp, seven⟩, above, by simp⟩
  have valued : Valued plainValues "price" (constraintLiterals cachedPrices) := by
    simp [RangeExact.Valued, constraintLiterals, comparisonsOf, inSetsOf, cachedPrices, plainValues]
  refine ⟨subsumed, ((subsumed_constraints_hold plainValues "price" cachedPrices askedPrices 7
    valued subsumed satisfied).mpr ⟨fun _ => ⟨.integer 7, rfl, ?_⟩, ?_⟩).2⟩
  · simp [Written, comparisonsOf, inSetsOf, askedPrices, boundLiterals, literalValueOrder]
  · simp [excludedLiterals, comparisonsOf, cachedPrices, plainValues]

/-- An excluded literal of the other numeric type has no decided order against the new bound,
counts as outside it, and its value is served though the cached rows leave it out. -/
theorem exclusion_of_other_type_dropped : columnRangeSubsumes
        (columnRangeBuild [.comparison "price" .notEqual (.float (.fin 5))])
        (columnRangeBuild [.comparison "price" .greaterThan (.integer 3)]) = true ∧
    Satisfies plainValues "price" (some 5) (.comparison "price" .greaterThan (.integer 3)) ∧
    ¬ Satisfies plainValues "price" (some 5) (.comparison "price" .notEqual (.float (.fin 5))) := by
  refine ⟨by decide +kernel, ⟨5, 3, rfl, rfl, rfl⟩, ?_⟩
  rintro ⟨v, x, same, hx, differs⟩
  cases same
  cases hx
  simp [BinaryOp.holds] at differs

end PgCache.Query.Constraints.RangeSubsume
