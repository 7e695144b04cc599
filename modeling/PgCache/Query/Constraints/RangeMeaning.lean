/- digest: What a column range says about column values, and soundness of the range algebra. -/
import Mathlib.Tactic.Order
import PgCache.Query.Constraints.RangeOverlap
import PgCache.Query.Constraints.RangeScan

set_option autoImplicit false

namespace PgCache.Query.Constraints.RangeMeaning

open Literal Range RangeOverlap RangeScan BoundSide List BinaryOp Option

/-- How a database reads the literals written against its columns. Values are compared by the
column type's total order; a number is compared by its numeric value, whatever its spelling.
Nothing is assumed of strings, booleans, parameters and arrays. -/
structure ColumnValues (V : Type) [LinearOrder V] where
  /-- The value of a literal compared with, or assigned to, a column; `none` is NULL. -/
  literal : String → LiteralValue → Option V
  numeric : ∀ {column : String} {a b : LiteralValue} {x y : V} {m n : F64},
    literal column a = some x → literal column b = some y →
    a.numeric? = some m → b.numeric? = some n → compare x y = m.cmp n

variable {V : Type} [LinearOrder V] (S : ColumnValues V) (column : String)

namespace ColumnValues

/-- `column op literal` is TRUE for a column value; NULL makes no comparison TRUE. -/
def Holds (op : BinaryOp) (value : Option V) (literal : LiteralValue) : Prop :=
  ∃ v x, value = some v ∧ S.literal column literal = some x ∧ op.holds (compare v x) = true

def Within (side : BoundSide) (bound : RangeBound) (value : Option V) : Prop :=
  ∃ v x, value = some v ∧ S.literal column bound.value = some x ∧
    side.admits (compare v x) bound.inclusive = true

def Admits : ColumnRange → Option V → Prop
  | .unknown, _ | .unconstrained, _ => True
  | .empty, _ => False
  | .equal literal, value => S.Holds column .equal value literal
  | .inSet literals, value => ∃ literal ∈ literals, S.Holds column .equal value literal
  | .range view, value =>
    (∀ side bound, view.bound side = some bound → S.Within column side bound value) ∧
    ∀ literal ∈ view.notEqual, S.Holds column .notEqual value literal

/-- Where the code decides that two literals are equal or unequal, it is right about the values
they have in a column. -/
def EqAgrees (a b : LiteralValue) : Prop :=
  ∀ x y decided, S.literal column a = some x → S.literal column b = some y →
    literalValueEq a b = some decided → (decided = true ↔ x = y)

end ColumnValues

def literalsOf : ColumnRange → List LiteralValue
  | .equal literal => [literal]
  | .inSet literals => literals
  | .range view => view.notEqual
  | _ => []

theorem admits_lower {x y : V} {inclusive : Bool} :
    lower.admits (compare x y) inclusive = true ↔ y < x ∨ inclusive = true ∧ x = y := by
  rcases lt_trichotomy x y with h | h | h
  · simp [admits, orient, compare_lt_iff_lt.mpr h, h.not_gt, h.ne]
  · simp [admits, orient, h]
  · simp [admits, orient, compare_gt_iff_gt.mpr h, h]

theorem admits_upper {x y : V} {inclusive : Bool} :
    upper.admits (compare x y) inclusive = true ↔ x < y ∨ inclusive = true ∧ x = y := by
  rcases lt_trichotomy x y with h | h | h
  · simp [admits, orient, compare_lt_iff_lt.mpr h, h]
  · simp [admits, orient, h]
  · simp [admits, orient, compare_gt_iff_gt.mpr h, h.not_gt, h.ne']

/-! ### Literal comparisons -/

theorem intFloatCmp_eq_cmp (i : Int64) (f : F64) : intFloatCmp i f = F64.cmp (.fin i.toInt) f := by
  have low : (-2 ^ 63 : ℚ) ≤ i.toInt := by exact_mod_cast i.le_toInt
  have high : (i.toInt : ℚ) < 2 ^ 63 := by exact_mod_cast i.toInt_lt
  cases f with
  | posInf => rfl
  | negInf => rfl
  | fin f =>
    have floor_le : ((⌊f⌋ : ℤ) : ℚ) ≤ f := Int.floor_le f
    have lt_floor : f < ⌊f⌋ + 1 := Int.lt_floor_add_one f
    simp only [intFloatCmp, F64.cmp]
    split
    · exact (compare_lt_iff_lt.mpr (by linarith)).symm
    · split
      · exact (compare_gt_iff_gt.mpr (by linarith)).symm
      · rcases lt_trichotomy i.toInt ⌊f⌋ with h | h | h
        · have below : (i.toInt : ℚ) < ⌊f⌋ := by exact_mod_cast h
          rw [compare_lt_iff_lt.mpr h, compare_lt_iff_lt.mpr (below.trans_le floor_le)]
        · rw [compare_eq_iff_eq.mpr h, h]
          change (if f = ⌊f⌋ then Ordering.eq else Ordering.lt) = _
          split
          · rename_i whole
            exact (compare_eq_iff_eq.mpr whole.symm).symm
          · rename_i fractional
            exact (compare_lt_iff_lt.mpr (lt_of_le_of_ne floor_le (Ne.symm fractional))).symm
        · have above : (⌊f⌋ : ℚ) + 1 ≤ i.toInt := by exact_mod_cast h
          rw [compare_gt_iff_gt.mpr h, compare_gt_iff_gt.mpr (lt_floor.trans_le above)]

variable {a b : LiteralValue} {ord : Ordering} {literal : LiteralValue} {value : Option V}
  {range : ColumnRange} {side : BoundSide} {cs : List (BinaryOp × LiteralValue)}

theorem literalValueOrder_numeric (ho : literalValueOrder a b = some ord) :
    ∃ m n, a.numeric? = some m ∧ b.numeric? = some n ∧ ord = m.cmp n := by
  cases a <;> cases b <;> simp only [literalValueOrder, reduceCtorEq, some.injEq] at ho
  case integer.integer i j =>
    refine ⟨_, _, rfl, rfl, ?_⟩
    rw [← ho]
    rcases lt_trichotomy i.toInt j.toInt with h | h | h
    · have cast : (i.toInt : ℚ) < j.toInt := by exact_mod_cast h
      rw [F64.cmp, compare_lt_iff_lt.mpr h, compare_lt_iff_lt.mpr cast]
    · rw [F64.cmp, h, compare_eq_iff_eq.mpr rfl, compare_eq_iff_eq.mpr rfl]
    · have cast : (j.toInt : ℚ) < i.toInt := by exact_mod_cast h
      rw [F64.cmp, compare_gt_iff_gt.mpr h, compare_gt_iff_gt.mpr cast]
  case float.float f g => exact ⟨f, g, rfl, rfl, ho.symm⟩

theorem literalValueOrderNumeric_numeric (ho : literalValueOrderNumeric a b = some ord) :
    ∃ m n, a.numeric? = some m ∧ b.numeric? = some n ∧ ord = m.cmp n := by
  unfold literalValueOrderNumeric at ho
  split at ho
  · rename_i i f
    cases ho
    exact ⟨_, _, rfl, rfl, intFloatCmp_eq_cmp i f⟩
  · rename_i f i
    cases ho
    exact ⟨_, _, rfl, rfl, by rw [intFloatCmp_eq_cmp, F64.cmp_swap]⟩
  · exact literalValueOrder_numeric ho

/-- `int_float_cmp` of any double, `none` for NaN: no comparison with NaN holds, and NaN is cast
to zero. -/
def intDoubleCmp (i : Int64) : Option F64 → Ordering
  | some f => intFloatCmp i f
  | none =>
    match compare i.toInt 0 with
    | .gt => .gt
    | .lt | .eq => .lt

/-- Numeric literals are ordered as the numbers they denote, whatever their spelling. -/
theorem literalValueOrderNumeric_exact :
    (∀ (i : Int64) (x : F64), intDoubleCmp i (some x) = F64.cmp (.fin i.toInt) x) ∧
    (∀ i : Int64, intDoubleCmp i none = if 0 < i.toInt then .gt else .lt) ∧
    (∀ a b : LiteralValue, literalValueOrderNumeric a b =
      a.numeric?.bind fun m => b.numeric?.map m.cmp) ∧
    Std.TransCmp F64.cmp ∧ ∀ p q : ℚ, F64.cmp (.fin p) (.fin q) = compare p q := by
  refine ⟨intFloatCmp_eq_cmp, fun i => ?_, fun a b => ?_, F64.transCmp, fun _ _ => rfl⟩
  · rcases lt_trichotomy i.toInt 0 with h | h | h
    · simp [intDoubleCmp, compare_lt_iff_lt.mpr h, h.not_gt]
    · simp [intDoubleCmp, h]
    · simp [intDoubleCmp, compare_gt_iff_gt.mpr h, h]
  · cases ordered : literalValueOrderNumeric a b with
    | some ord =>
      obtain ⟨m, n, hm, hn, rfl⟩ := literalValueOrderNumeric_numeric ordered
      rw [hm, hn]
      rfl
    | none => cases a <;> cases b <;> first | rfl | cases ordered

theorem nan_ordered : intDoubleCmp 1 none = .gt ∧ intDoubleCmp 0 none = .lt := by decide

theorem literalValueEq_comm (a b : LiteralValue) : literalValueEq a b = literalValueEq b a := by
  cases a <;> cases b <;> simp [literalValueEq, eq_comm]

variable {S column}

theorem compare_of_order {x y : V} (ho : literalValueOrderNumeric a b = some ord)
    (hx : S.literal column a = some x) (hy : S.literal column b = some y) : compare x y = ord := by
  obtain ⟨m, n, hm, hn, rfl⟩ := literalValueOrderNumeric_numeric ho
  exact S.numeric hx hy hm hn

theorem literalValueOrder_le_numeric (ho : literalValueOrder a b = some ord) :
    literalValueOrderNumeric a b = some ord := by
  cases a <;> cases b <;> simp_all [literalValueOrder, literalValueOrderNumeric]

theorem eqAgrees_symm (agrees : S.EqAgrees column a b) : S.EqAgrees column b a := by
  intro x y hd hx hy he
  rw [literalValueEq_comm] at he
  rw [agrees y x hd hy hx he, eq_comm]

theorem eqAgrees_of_numeric {m n : F64} (hm : a.numeric? = some m) (hn : b.numeric? = some n) :
    S.EqAgrees column a b := by
  intro x y hd hx hy he
  have order := S.numeric hx hy hm hn
  have vs : m.cmp n = .eq ↔ x = y := by rw [← order, compare_eq_iff_eq]
  cases a <;> cases b <;> simp only [LiteralValue.numeric?, reduceCtorEq, some.injEq] at hm hn
  all_goals subst hm hn
  all_goals simp only [literalValueEq, some.injEq] at he
  all_goals subst he
  case integer.integer i j => simp [← vs, F64.cmp_eq_iff, Int64.toInt_inj]
  case integer.float i f => simp [← vs, intFloatCmp_eq_cmp]
  case float.integer f i =>
    rw [← vs, decide_eq_true_iff, intFloatCmp_eq_cmp, ← F64.cmp_swap]
    simp
  case float.float f g => simp [← vs, F64.cmp_eq_iff]

/-! ### Containment and disjointness -/

theorem value_eq_of_holds {x : V} (holds : S.Holds column .equal value literal)
    (hx : S.literal column literal = some x) : value = some x := by
  obtain ⟨v, y, rfl, hy, equal⟩ := holds
  rw [hx] at hy
  cases hy
  simpa [holds, compare_eq_iff_eq] using equal

theorem boundsAdmit_false {view : RangeView} (sides : List BoundSide)
    (hx : boundsAdmit view literal sides = some false) :
    ∃ side bd ord, view.bound side = some bd ∧
      literalValueOrderNumeric literal bd.value = some ord ∧
      side.admits ord bd.inclusive = false := by
  induction sides with
  | nil => simp [boundsAdmit] at hx
  | cons side sides ih =>
    unfold boundsAdmit at hx
    split at hx
    · exact ih hx
    · rename_i bd hf
      simp only [Option.bind_eq_bind, Option.bind_eq_some_iff, Option.pure_def,
        Option.some.injEq, Bool.and_eq_false_iff] at hx
      obtain ⟨ord, ho, rest, tail, outside⟩ := hx
      rcases outside with outside | rfl
      · exact ⟨side, bd, ord, hf, ho, outside⟩
      · exact ih tail

theorem not_admits_literal (excluded : columnRangeContains range literal = some false)
    (agree : ∀ other ∈ literalsOf range, S.EqAgrees column other literal) :
    ¬ S.Admits column range (S.literal column literal) := by
  intro admitted
  unfold columnRangeContains at excluded
  split at excluded
  · cases excluded
  cases range with
  | unknown => cases excluded
  | unconstrained => cases excluded
  | empty => exact admitted
  | equal other =>
    obtain ⟨v, y, hx, hy, _⟩ := id admitted
    have equal := value_eq_of_holds admitted hy
    have unequal := agree other (by simp [literalsOf]) y v false hy hx excluded
    simp_all
  | inSet set =>
    obtain ⟨other, inside, holds⟩ := admitted
    obtain ⟨v, y, hx, hy, _⟩ := id holds
    have equal := value_eq_of_holds holds hy
    simp only [inSetContains] at excluded
    split at excluded
    · cases excluded
    · split at excluded
      · rename_i allUnequal
        have decided := all_eq_true.mp allUnequal other inside
        have unequal := agree other inside y v false hy hx (by simpa using decided)
        simp_all
      · cases excluded
  | range view =>
    obtain ⟨bounds, exclusions⟩ := admitted
    simp only [rangeContains] at excluded
    split at excluded
    · rename_i explicit
      obtain ⟨other, inside, decided⟩ := any_eq_true.mp explicit
      obtain ⟨v, y, hx, hy, different⟩ := exclusions other inside
      have equal := agree other inside y v true hy hx (by simpa using decided)
      simp_all [holds]
    · obtain ⟨side, bound, ord, found, ho, outside⟩ := boundsAdmit_false _ excluded
      obtain ⟨v, y, hx, hy, inside⟩ := bounds side bound found
      rw [compare_of_order ho hx hy, outside] at inside
      cases inside

theorem not_admits_of_contains_false {x : V}
    (excluded : columnRangeContains range literal = some false)
    (hx : S.literal column literal = some x)
    (agree : ∀ o ∈ literalsOf range, S.EqAgrees column o literal) :
    ¬ S.Admits column range (some x) :=
  hx ▸ not_admits_literal excluded agree

theorem not_within_of_boundBelow {u l : RangeBound} (below : boundBelow (some u) (some l) = true)
    (hu : S.Within column .upper u value) (hl : S.Within column .lower l value) : False := by
  obtain ⟨v, x, rfl, hx, upper⟩ := hu
  obtain ⟨v', y, same, hy, lower⟩ := hl
  cases same
  rw [admits_upper] at upper
  rw [admits_lower] at lower
  simp only [boundBelow] at below
  split at below
  · rename_i ho
    have order := compare_lt_iff_lt.mp (compare_of_order ho hx hy)
    rcases upper with h | ⟨_, h⟩ <;> rcases lower with h' | ⟨_, h'⟩ <;> order
  · rename_i ho
    have order := compare_eq_iff_eq.mp (compare_of_order ho hx hy)
    rcases upper with h | ⟨hi, h⟩ <;> rcases lower with h' | ⟨li, h'⟩
    · order
    · order
    · order
    · simp [hi, li] at below
  · cases below
  · cases below

private theorem boundBelow_some {upper lower : Option RangeBound}
    (below : boundBelow upper lower = true) : ∃ u l, upper = some u ∧ lower = some l := by
  unfold boundBelow at below
  split at below
  · exact ⟨_, _, rfl, rfl⟩
  · cases below

private theorem not_admits_point {point : LiteralValue} {o : ColumnRange}
    (excluded : columnRangeContains o point = some false)
    (agree : ∀ x ∈ literalsOf o, S.EqAgrees column x point)
    (hp : S.Holds column .equal value point) (ho : S.Admits column o value) : False := by
  obtain ⟨v, x, _, hx, _⟩ := id hp
  rw [value_eq_of_holds hp hx] at ho
  exact not_admits_of_contains_false excluded hx agree ho

theorem not_admits_intervals {a b : RangeView}
    (disjoint : columnRangeDisjoint (.range a) (.range b) = true)
    (ha : S.Admits column (.range a) value) (hb : S.Admits column (.range b) value) : False := by
  rcases Bool.or_eq_true_iff.mp disjoint with below | below
  · obtain ⟨u, l, hu, hl⟩ := boundBelow_some below
    rw [hu, hl] at below
    exact not_within_of_boundBelow below (ha.1 .upper u hu) (hb.1 .lower l hl)
  · obtain ⟨u, l, hu, hl⟩ := boundBelow_some below
    rw [hu, hl] at below
    exact not_within_of_boundBelow below (hb.1 .upper u hu) (ha.1 .lower l hl)

theorem not_admits_both {a b : ColumnRange} (disjoint : columnRangeDisjoint a b = true)
    (agree : ∀ x ∈ literalsOf a, ∀ y ∈ literalsOf b, S.EqAgrees column x y)
    (ha : S.Admits column a value) (hb : S.Admits column b value) : False := by
  unfold columnRangeDisjoint at disjoint
  split at disjoint
  · exact ha
  · exact hb
  · cases disjoint
  · cases disjoint
  · exact not_admits_point (of_decide_eq_true disjoint)
      (fun y hm => eqAgrees_symm (agree _ mem_cons_self y hm)) ha hb
  · exact not_admits_point (of_decide_eq_true disjoint)
      (fun y hm => agree y hm _ mem_cons_self) hb ha
  · obtain ⟨point, hm, h⟩ := ha
    exact not_admits_point (of_decide_eq_true (all_eq_true.mp disjoint point hm))
      (fun y hy => eqAgrees_symm (agree point hm y hy)) h hb
  · obtain ⟨point, hm, h⟩ := hb
    exact not_admits_point (of_decide_eq_true (all_eq_true.mp disjoint point hm))
      (fun y hy => agree y hy point hm) h ha
  · cases disjoint
  · cases disjoint
  · exact not_admits_intervals disjoint ha hb

theorem not_admits_assigned {a : ColumnRange}
    (disjoint : columnRangeDisjoint a (.equal literal) = true)
    (agree : ∀ x ∈ literalsOf a, S.EqAgrees column x literal) :
    ¬ S.Admits column a (S.literal column literal) := by
  cases hx : S.literal column literal with
  | some x =>
    intro admitted
    refine not_admits_both disjoint ?_ admitted ⟨x, x, rfl, hx, by simp [holds]⟩
    intro y hm z he
    rw [mem_singleton.mp he]
    exact agree y hm
  | none =>
    rw [← hx]
    cases a with
    | unknown => cases disjoint
    | empty => exact not_false
    | equal o =>
      rintro ⟨v, y, ha, _⟩
      rw [hx] at ha
      cases ha
    | unconstrained | inSet | range => exact not_admits_literal (of_decide_eq_true disjoint) agree

/-! ### Building a range from comparisons -/

theorem holds_iff_within {op : BinaryOp} (kind : Bounding side op) :
    S.Holds column op value literal ↔ S.Within column side (boundOf op literal) value := by
  have same (ord : Ordering) : op.holds ord = side.admits ord (boundOf op literal).inclusive := by
    cases side <;> rcases kind with rfl | rfl <;> cases ord <;> rfl
  simp only [ColumnValues.Holds, ColumnValues.Within, same, boundOf]

theorem within_of_boundTighten {existing candidate tight : RangeBound}
    (tightened : boundTighten side existing candidate = some tight)
    (he : S.Within column side existing value) (hc : S.Within column side candidate value) :
    S.Within column side tight value := by
  simp only [boundTighten, map_eq_some_iff] at tightened
  obtain ⟨ord, ho, rfl⟩ := tightened
  obtain ⟨v, x, rfl, hx, inside⟩ := id he
  obtain ⟨v', y, same, hy, inside'⟩ := id hc
  cases same
  have order := compare_of_order (literalValueOrder_le_numeric ho) hx hy
  split
  · exact hc
  · exact he
  · rename_i heq
    have vs : ord = .eq := by cases side <;> cases ord <;> simp_all [orient]
    rw [vs, compare_eq_iff_eq] at order
    subst order
    refine ⟨v, x, rfl, hx, ?_⟩
    simp only [admits] at inside inside' ⊢
    split <;> simp_all

theorem within_of_boundMerge {slot : Option RangeBound} {candidate merged : RangeBound}
    (merge : boundMerge slot side candidate = some merged)
    (hs : ∀ bd, slot = some bd → S.Within column side bd value)
    (hc : S.Within column side candidate value) : S.Within column side merged value := by
  unfold boundMerge at merge
  split at merge
  · cases merge
    exact hc
  · exact within_of_boundTighten merge (hs _ rfl) hc

structure ScanSpans (S : ColumnValues V) (column : String) (scan : ComparisonScan)
    (value : Option V) : Prop where
  equal : ∀ literal, scan.equalValue = some literal → S.Holds column .equal value literal
  within : ∀ side bound, scanBound scan side = some bound → S.Within column side bound value

structure ScanHolds (S : ColumnValues V) (column : String) (scan : ComparisonScan)
    (value : Option V) : Prop extends ScanSpans S column scan value where
  notEqual : ∀ literal ∈ scan.notEqual, S.Holds column .notEqual value literal

theorem ScanHolds.start : ScanHolds S column {} value := by
  refine ⟨⟨by simp, ?_⟩, by simp⟩
  intro side bd hf
  cases side <;> cases hf

theorem ScanHolds.next {scan next : ComparisonScan} {op : BinaryOp}
    (hb : ScanHolds S column scan value) (holds : S.Holds column op value literal)
    (step : ScanRead scan literal op next) : ScanHolds S column next value := by
  cases step with
  | equal same =>
    refine ⟨⟨?_, fun side bound found => hb.within side bound (by cases side <;> exact found)⟩,
      hb.notEqual⟩
    intro other found
    cases found
    exact holds
  | notEqual =>
    refine ⟨⟨hb.equal, fun side bound found => hb.within side bound
      (by cases side <;> exact found)⟩, ?_⟩
    intro other inside
    rcases mem_append.mp inside with inside | inside
    · exact hb.notEqual other inside
    · rw [mem_singleton.mp inside]
      exact holds
  | @bound side _ merged kind merge =>
    refine ⟨⟨fun other found => hb.equal other (by cases side <;> exact found), ?_⟩,
      fun other found => hb.notEqual other (by cases side <;> exact found)⟩
    intro other bound found
    rcases scanBound_withBound found with ⟨rfl, rfl⟩ | earlier
    · exact within_of_boundMerge merge (hb.within other) ((holds_iff_within kind).mp holds)
    · exact hb.within other bound earlier

/-- Two equalities of one predicate on one column that some value satisfies are spelled alike. -/
def EqualitiesSpelledAlike (S : ColumnValues V) (column : String)
    (cs : List (BinaryOp × LiteralValue)) : Prop :=
  ∀ a b x, (equal, a) ∈ cs → (equal, b) ∈ cs →
    S.literal column a = some x → S.literal column b = some x → a = b

theorem valueSatisfies_false {bd : RangeBound}
    (outside : valueSatisfies side literal bd = some false)
    (he : S.Holds column .equal value literal) (hb : S.Within column side bd value) : False := by
  simp only [valueSatisfies, map_eq_some_iff] at outside
  obtain ⟨ord, ho, refused⟩ := outside
  obtain ⟨v, x, _, hx, _⟩ := id he
  obtain ⟨v', y, same, hy, admitted⟩ := hb
  rw [value_eq_of_holds he hx] at same
  cases same
  rw [compare_of_order (literalValueOrder_le_numeric ho) hx hy, refused] at admitted
  cases admitted

private theorem equalValidate_sound {bounds : List (BoundSide × Option RangeBound)}
    {early : ColumnRange} (returned : equalValidate literal bounds = some early)
    (he : S.Holds column .equal value literal)
    (hb : ∀ side bd, (side, some bd) ∈ bounds → S.Within column side bd value) :
    S.Admits column early value := by
  fun_induction equalValidate literal bounds with
  | case1 => cases returned
  | case2 side rest ih =>
    exact ih returned fun side bd hm => hb side bd (mem_cons_of_mem _ hm)
  | case3 side bd rest satisfied ih =>
    exact ih returned fun side bd hm => hb side bd (mem_cons_of_mem _ hm)
  | case4 side bd rest violated =>
    exact (valueSatisfies_false violated he (hb side bd mem_cons_self)).elim
  | case5 side bd rest undecided =>
    cases returned
    trivial

theorem comparisonScanFinish_sound {scan : ComparisonScan} (facts : ScanHolds S column scan value) :
    S.Admits column (comparisonScanFinish scan) value := by
  have interval : S.Admits column (.range ⟨scan.lower, scan.upper, scan.notEqual⟩) value := by
    exact ⟨fun side bd hf => facts.within side bd (by cases side <;> exact hf), facts.notEqual⟩
  have excluded {literal : LiteralValue} (he : S.Holds column .equal value literal) :
      literal ∉ scan.notEqual := by
    intro hm
    obtain ⟨v, x, same, hx, hne⟩ := facts.notEqual literal hm
    rw [value_eq_of_holds he hx] at same
    cases same
    simp [holds] at hne
  unfold comparisonScanFinish
  split
  · rename_i literal hf
    have he := facts.equal literal hf
    split
    · rename_i early returned
      refine equalValidate_sound returned he ?_
      intro side bd hm
      simp only [mem_cons, Prod.mk.injEq, not_mem_nil, or_false] at hm
      rcases hm with ⟨rfl, same⟩ | ⟨rfl, same⟩
      · exact facts.within .lower bd same.symm
      · exact facts.within .upper bd same.symm
    · rw [if_neg (excluded he)]
      exact he
  · simp only
    split
    · rename_i lb ub hlb hub
      obtain ⟨v, x, rfl, hx, above⟩ := facts.within .lower lb hlb
      obtain ⟨v', y, same, hy, under⟩ := facts.within .upper ub hub
      cases same
      rw [admits_lower] at above
      rw [admits_upper] at under
      split
      · rename_i ho
        have order := compare_gt_iff_gt.mp
          (compare_of_order (literalValueOrder_le_numeric ho) hx hy)
        rcases above with h | ⟨_, h⟩ <;> rcases under with h' | ⟨_, h'⟩ <;> exfalso <;> order
      · rename_i ho
        have order := compare_eq_iff_eq.mp
          (compare_of_order (literalValueOrder_le_numeric ho) hx hy)
        rcases above with h | ⟨hl, h⟩ <;> rcases under with h' | ⟨hu, h'⟩
        · exfalso; order
        · exfalso; order
        · exfalso; order
        · have point : S.Holds column .equal (some v) lb.value :=
            ⟨v, x, rfl, hx, by simp [holds, h]⟩
          simp only [hl, hu, excluded point, Bool.not_true, Bool.or_self, Bool.false_eq_true,
            if_false]
          exact point
      · exact interval
      · trivial
    · exact interval

/-- A value that meets every comparison is in the built range, unless two equalities with
different spellings emptied it. -/
private theorem admits_or_spelled (holds : ∀ c ∈ cs, S.Holds column c.1 value c.2) :
    S.Admits column (comparisonRangeBuild cs) value ∨
      comparisonRangeBuild cs = .empty ∧ ∃ a b, a ≠ b ∧ (equal, a) ∈ cs ∧ (equal, b) ∈ cs := by
  let inv (read : List (BinaryOp × LiteralValue)) (scan : ComparisonScan) : Prop :=
    ScanHolds S column scan value ∧ ScanOrigin read scan ∧ read ⊆ cs
  have start : inv [] {} := ⟨.start, .start, nil_subset _⟩
  have refused : ∀ read scan op literal range, inv read scan → (op, literal) ∈ cs →
      Refused scan literal op range → S.Admits column range value ∨ range = .empty ∧ ∃ a b, a ≠ b ∧
        (equal, a) ∈ cs ∧ (equal, b) ∈ cs := by
    rintro read scan op literal range hb inside (⟨rfl, -⟩ | ⟨rfl, rfl, other, found, differs⟩)
    · exact .inl trivial
    · exact .inr ⟨rfl, other, literal, differs, hb.2.2 (hb.2.1.equalFrom other found), inside⟩
  rcases comparisonRangeBuild_rule start (fun _ _ _ _ _ hb inside _ step =>
      ⟨hb.1.next (holds _ inside) step, hb.2.1.next step,
        append_subset.mpr ⟨hb.2.2, by simpa using inside⟩⟩) refused with
    early | ⟨_, free⟩ | ⟨scan, kept, same⟩
  · exact early
  · rw [free]
    exact .inl trivial
  · rw [same]
    exact .inl (comparisonScanFinish_sound kept.1)

theorem comparisonRangeBuild_sound (alike : EqualitiesSpelledAlike S column cs)
    (h : ∀ c ∈ cs, S.Holds column c.1 value c.2) :
    S.Admits column (comparisonRangeBuild cs) value := by
  refine (admits_or_spelled h).resolve_right ?_
  rintro ⟨-, a, b, differs, first, snd⟩
  obtain ⟨v, x, _, hx, _⟩ := id (h _ first)
  obtain ⟨v', y, _, hy, _⟩ := id (h _ snd)
  have same := (value_eq_of_holds (h _ first) hx).symm.trans (value_eq_of_holds (h _ snd) hy)
  cases same
  exact differs (alike a b x first snd hx hy)

/-! ### The literals of a built range -/

theorem literalsOf_comparisonRangeBuild (hm : literal ∈ literalsOf (comparisonRangeBuild cs)) :
    literal ∈ cs.map Prod.snd := by
  have hl {op : BinaryOp} {value : LiteralValue} (compared : (op, value) ∈ cs) :
      value ∈ cs.map Prod.snd :=
    mem_map_of_mem compared
  have is := comparisonRangeBuild_built cs
  generalize comparisonRangeBuild cs = range at is hm
  cases is with
  | gaveUp early => rcases early with rfl | rfl <;> cases hm
  | free _ => cases hm
  | equal og hf _ _ =>
    rw [mem_singleton.mp hm]
    exact hl (og.equalFrom _ hf)
  | point og _ lower _ _ _ _ _ =>
    rw [mem_singleton.mp hm]
    obtain ⟨op, -, compared⟩ := og.boundFrom .lower _ lower
    exact hl compared
  | interval og _ _ => exact hl (og.notEqualFrom literal hm)

/-! ### Predicates over rows -/

abbrev Row (V : Type) := String → Option V

def RowWithin (S : ColumnValues V) (ranges : ColumnRanges) (row : Row V) : Prop :=
  ∀ column range, ranges.lookup column = some range → S.Admits column range (row column)

def RowMatches (S : ColumnValues V) (cs : List (String × BinaryOp × LiteralValue))
    (row : Row V) : Prop :=
  ∀ c ∈ cs, S.Holds c.1 c.2.1 (row c.1) c.2.2

def onColumn (cs : List (String × BinaryOp × LiteralValue)) (column : String) :
    List (BinaryOp × LiteralValue) :=
  (cs.filter (·.1 = column)).map Prod.snd

private theorem columnRangeBuild_comparisons (column : String)
    {group : List (String × BinaryOp × LiteralValue)} (hne : group ≠ []) :
    columnRangeBuild (group.map fun c => .comparison column c.2.1 c.2.2) =
      comparisonRangeBuild (group.map Prod.snd) := by
  have noSets : inSetsOf (group.map fun c => .comparison column c.2.1 c.2.2) = [] := by
    simp [inSetsOf]
  have cs : comparisonsOf (group.map fun c => .comparison column c.2.1 c.2.2) =
      group.map Prod.snd := by
    simp [comparisonsOf, filterMap_map]
  simp [columnRangeBuild, hne, noSets, cs]

theorem lookup_columnRangesFromComparisons {cs : List (String × BinaryOp × LiteralValue)}
    {column : String} (hf : (columnRangesFromComparisons cs).lookup column = some range) :
    range = comparisonRangeBuild (onColumn cs column) := by
  obtain ⟨group, grouped, built⟩ := (Data.Keyed.lookup_retain _ _ _ _).mp hf
  obtain ⟨hne, rfl⟩ := (Data.Keyed.lookup_groupBy _ _ _ _).mp grouped
  cases built
  exact columnRangeBuild_comparisons column hne

theorem lookup_of_onColumn {cs : List (String × BinaryOp × LiteralValue)} {column : String}
    (hne : onColumn cs column ≠ []) :
    (columnRangesFromComparisons cs).lookup column =
      some (comparisonRangeBuild (onColumn cs column)) := by
  have hne : cs.filter (·.1 = column) ≠ [] := fun none => hne (by rw [onColumn, none, map_nil])
  exact (Data.Keyed.lookup_retain _ _ _ _).mpr
    ⟨_, (Data.Keyed.lookup_groupBy _ _ _ _).mpr ⟨hne, rfl⟩,
      congrArg some (columnRangeBuild_comparisons column hne)⟩

theorem mem_of_literalsOf_columnRanges {cs : List (String × BinaryOp × LiteralValue)}
    {column : String} (hf : (columnRangesFromComparisons cs).lookup column = some range)
    (hm : literal ∈ literalsOf range) : ∃ op, (column, op, literal) ∈ cs := by
  rw [lookup_columnRangesFromComparisons hf] at hm
  obtain ⟨⟨op, value⟩, onIt, rfl⟩ := mem_map.mp (literalsOf_comparisonRangeBuild hm)
  obtain ⟨⟨name, rest⟩, kept, he⟩ := mem_map.mp onIt
  obtain ⟨original, same⟩ := mem_filter.mp kept
  cases of_decide_eq_true same
  cases he
  exact ⟨op, original⟩

variable {row : Row V}

theorem holds_onColumn {cs : List (String × BinaryOp × LiteralValue)}
    (h : RowMatches S cs row) {column : String} :
    ∀ c ∈ onColumn cs column, S.Holds column c.1 (row column) c.2 := by
  intro c hm
  obtain ⟨⟨name, rest⟩, kept, rfl⟩ := mem_map.mp hm
  obtain ⟨original, same⟩ := mem_filter.mp kept
  cases of_decide_eq_true same
  exact h _ original

theorem rowWithin_columnRangesFromComparisons {cs : List (String × BinaryOp × LiteralValue)}
    (alike : ∀ column, EqualitiesSpelledAlike S column (onColumn cs column))
    (h : RowMatches S cs row) :
    RowWithin S (columnRangesFromComparisons cs) row := by
  intro column range hf
  rw [lookup_columnRangesFromComparisons hf]
  exact comparisonRangeBuild_sound (alike column) (holds_onColumn h)

theorem not_rowWithin_of_hasEmpty {ranges : ColumnRanges} (unsatisfiable : hasEmpty ranges = true) :
    ¬ RowWithin S ranges row := by
  intro hw
  obtain ⟨column, range, hf, empty⟩ := (Data.Keyed.any_iff _ _).mp unsatisfiable
  have admitted := hw column range hf
  rw [of_decide_eq_true empty] at admitted
  exact admitted

theorem not_rowWithin_both {a b : ColumnRanges} (disjoint : columnRangesDisjoint a b = true)
    (agree : ∀ column ra rb, a.lookup column = some ra → b.lookup column = some rb →
      ∀ x ∈ literalsOf ra, ∀ y ∈ literalsOf rb, S.EqAgrees column x y) (ha : RowWithin S a row)
    (hb : RowWithin S b row) : False := by
  unfold columnRangesDisjoint at disjoint
  split at disjoint
  · rename_i unsatisfiable
    rcases Bool.or_eq_true_iff.mp unsatisfiable with h | h
    · exact not_rowWithin_of_hasEmpty h ha
    · exact not_rowWithin_of_hasEmpty h hb
  · obtain ⟨column, ra, hra, shared⟩ := (Data.Keyed.any_iff _ _).mp disjoint
    obtain ⟨rb, hrb, apart⟩ := (any_eq_true _ _).mp shared
    exact not_admits_both apart (agree column ra rb hra hrb) (ha column ra hra) (hb column rb hrb)

end PgCache.Query.Constraints.RangeMeaning
