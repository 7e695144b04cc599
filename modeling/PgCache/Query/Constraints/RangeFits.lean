/- source: query/constraints/range.rs
   digest: The literals a built range names or contains are those that meet every constraint, as
     `literal_value_order` compares literals. -/
import PgCache.Query.Constraints.RangeSubsume

set_option autoImplicit false

namespace PgCache.Query.Constraints.RangeFits

open Literal Range RangeScan RangeMeaning RangeExact RangeSubsume List BoundSide

variable {side : BoundSide} {literal : LiteralValue} {scan after : ComparisonScan}
  {cs read : List (BinaryOp × LiteralValue)}

def Fit (literal : LiteralValue) (c : BinaryOp × LiteralValue) : Prop :=
  literalValueIsIncomparable c.2 = false ∧
    match c.1 with
    | .equal => c.2 = literal
    | .notEqual => c.2 ≠ literal
    | op => ∃ side, Bounding side op ∧ valueSatisfies side literal (boundOf op c.2) = some true

structure ScanFits (scan : ComparisonScan) (literal : LiteralValue) : Prop where
  equals : ∀ other, scan.equalValue = some other → other = literal
  apart : literal ∉ scan.notEqual
  within : ∀ side bound, scanBound scan side = some bound →
    valueSatisfies side literal bound = some true

def Fitting : ColumnRange → LiteralValue → Prop
  | .unconstrained, _ => True
  | .equal other, literal => other = literal
  | .inSet literals, literal => literal ∈ literals
  | .range view, literal => rangeContainsValue view literal = true
  | .unknown, _ | .empty, _ => False

/-! ### Tightening keeps what two bounds let through -/

theorem admits_cmp_behind {v x y : F64} {i j : Bool} (behind : side.orient (x.cmp y) = .lt)
    (meets : side.admits (v.cmp y) i = true) : side.admits (v.cmp x) j = true := by
  have := F64.transCmp
  cases side with
  | lower =>
    have near : (y.cmp v).isLE := by
      rw [← F64.cmp_swap]
      cases ord : v.cmp y <;> simp_all [admits, orient]
    have far : x.cmp v = .lt := Std.TransCmp.lt_of_lt_of_isLE behind near
    rw [← F64.cmp_swap, far]
    rfl
  | upper =>
    have near : (v.cmp y).isLE := by cases ord : v.cmp y <;> simp_all [admits, orient]
    have ahead : y.cmp x = .lt := by
      rw [← F64.cmp_swap]
      exact behind
    have far : v.cmp x = .lt := Std.TransCmp.lt_of_isLE_of_lt near ahead
    rw [far]
    rfl

theorem satisfies_behind {x y : LiteralValue} {i j : Bool} {ord : Ordering}
    (order : literalValueOrder x y = some ord) (behind : side.orient ord = .lt)
    (meets : valueSatisfies side literal ⟨y, i⟩ = some true) :
    valueSatisfies side literal ⟨x, j⟩ = some true := by
  obtain ⟨o, ho, admitted⟩ := Option.map_eq_some_iff.mp meets
  obtain ⟨o', ho'⟩ := Option.isSome_iff_exists.mp (ordered_trans (Option.isSome_of_eq_some ho)
    (ordered_symm (Option.isSome_of_eq_some order)))
  refine Option.map_eq_some_iff.mpr ⟨o', ho', ?_⟩
  obtain ⟨m, n, hm, hn, rfl⟩ := literalValueOrder_numeric ho
  obtain ⟨k, n', hk, hn', rfl⟩ := literalValueOrder_numeric order
  obtain ⟨m', k', hm', hk', rfl⟩ := literalValueOrder_numeric ho'
  cases hm.symm.trans hm'
  cases hn.symm.trans hn'
  cases hk.symm.trans hk'
  exact admits_cmp_behind behind admitted

theorem satisfies_and {x : LiteralValue} {i j : Bool} :
    valueSatisfies side literal ⟨x, i && j⟩ = some true ↔
      valueSatisfies side literal ⟨x, i⟩ = some true ∧
        valueSatisfies side literal ⟨x, j⟩ = some true := by
  simp only [valueSatisfies]
  cases literalValueOrder literal x with
  | none => simp
  | some ord =>
    simp only [Option.map_some, Option.some_inj, admits]
    cases side.orient ord <;> simp

theorem satisfies_boundTighten {existing candidate merged : RangeBound}
    (tightened : boundTighten side existing candidate = some merged) :
    valueSatisfies side literal merged = some true ↔
      valueSatisfies side literal existing = some true ∧
        valueSatisfies side literal candidate = some true := by
  obtain ⟨ord, ho, rfl⟩ := Option.map_eq_some_iff.mp tightened
  have back : literalValueOrder candidate.value existing.value = some ord.swap := by
    rw [literalValueOrder_swap, ho]
    rfl
  split
  · rename_i behind
    exact ⟨fun meets => ⟨satisfies_behind ho behind meets, meets⟩, And.right⟩
  · rename_i ahead
    have behind : side.orient ord.swap = .lt := by cases side <;> simp_all [orient]
    exact ⟨fun meets => ⟨meets, satisfies_behind back behind meets⟩, And.left⟩
  · rename_i level
    obtain rfl : ord = .eq := by cases side <;> cases ord <;> cases level <;> rfl
    rw [satisfies_and]
    refine and_congr_right' ?_
    rw [eq_of_level ho]

theorem satisfies_boundMerge {slot : Option RangeBound} {candidate merged : RangeBound}
    (merge : boundMerge slot side candidate = some merged) :
    valueSatisfies side literal merged = some true ↔
      (∀ bound, slot = some bound → valueSatisfies side literal bound = some true) ∧
        valueSatisfies side literal candidate = some true := by
  cases slot with
  | none =>
    cases merge
    simp
  | some existing =>
    rw [satisfies_boundTighten merge]
    simp

theorem boundMerge_isSome {slot : Option RangeBound} {candidate : RangeBound}
    (held : ∀ bound, slot = some bound → valueSatisfies side literal bound = some true)
    (meets : valueSatisfies side literal candidate = some true) :
    boundMerge slot side candidate ≠ none := by
  cases slot with
  | none => simp [boundMerge]
  | some existing =>
    obtain ⟨o, ho, -⟩ := Option.map_eq_some_iff.mp (held existing rfl)
    obtain ⟨o', ho', -⟩ := Option.map_eq_some_iff.mp meets
    have ordered := ordered_trans (ordered_symm (Option.isSome_of_eq_some ho))
      (Option.isSome_of_eq_some ho')
    obtain ⟨ord, order⟩ := Option.isSome_iff_exists.mp ordered
    simp [boundMerge, boundTighten, order]

/-! ### The scan -/

theorem fit_bound {op : BinaryOp} {other : LiteralValue} (kind : Bounding side op)
    (comparable : literalValueIsIncomparable other = false) :
    Fit literal (op, other) ↔ valueSatisfies side literal (boundOf op other) = some true := by
  have only : (∃ side', Bounding side' op ∧
      valueSatisfies side' literal (boundOf op other) = some true) ↔
      valueSatisfies side literal (boundOf op other) = some true := by
    constructor
    · rintro ⟨side', kind', meets⟩
      cases bounding_unique kind kind'
      exact meets
    · exact fun meets => ⟨side, kind, meets⟩
  cases side <;> rcases kind with rfl | rfl <;> simp only [Fit, comparable, true_and] <;> exact only

theorem ScanFits.next_iff {op : BinaryOp} {other : LiteralValue}
    (comparable : literalValueIsIncomparable other = false)
    (step : ScanRead scan other op after) :
    ScanFits after literal ↔ ScanFits scan literal ∧ Fit literal (op, other) := by
  cases step with
  | equal same =>
    refine ⟨fun fits => ?_, fun ⟨fits, now⟩ => ⟨?_, fits.apart, fun side bound found =>
      fits.within side bound (by cases side <;> exact found)⟩⟩
    · have now := fits.equals other rfl
      refine ⟨⟨fun first found => (same first found).trans now, fits.apart, fun side bound found =>
        fits.within side bound (by cases side <;> exact found)⟩, comparable, now⟩
    · intro first found
      cases found
      exact now.2
  | notEqual =>
    have split : literal ∉ scan.notEqual ++ [other] ↔
        literal ∉ scan.notEqual ∧ other ≠ literal := by
      simp [eq_comm]
    refine ⟨fun fits => ?_, fun ⟨fits, now⟩ => ⟨fits.equals, split.mpr ⟨fits.apart, now.2⟩,
      fun side bound found => fits.within side bound (by cases side <;> exact found)⟩⟩
    obtain ⟨apart, now⟩ := split.mp fits.apart
    exact ⟨⟨fits.equals, apart, fun side bound found =>
      fits.within side bound (by cases side <;> exact found)⟩, comparable, now⟩
  | @bound side _ merged kind merge =>
    rw [fit_bound kind comparable]
    have both := @satisfies_boundMerge side literal _ _ _ merge
    have here : scanBound (withBound scan merged side) side = some merged := by cases side <;> rfl
    constructor
    · intro fits
      obtain ⟨held, now⟩ := both.mp (fits.within side merged here)
      refine ⟨⟨fun first found => fits.equals first (by cases side <;> exact found),
        by cases side <;> exact fits.apart, fun side' bound found => ?_⟩, now⟩
      by_cases same : side' = side
      · subst same
        exact held bound found
      · refine fits.within side' bound ?_
        cases side <;> cases side' <;> first | exact absurd rfl same | exact found
    · rintro ⟨fits, now⟩
      refine ⟨fun first found => fits.equals first (by cases side <;> exact found),
        by cases side <;> exact fits.apart, fun side' bound found => ?_⟩
      rcases scanBound_withBound found with ⟨rfl, rfl⟩ | old
      · exact both.mpr ⟨fits.within side', now⟩
      · exact fits.within side' bound old

theorem unfit_of_refused {op : BinaryOp} {other : LiteralValue} {early : ColumnRange}
    (refused : Refused scan other op early) (fits : ScanFits scan literal)
    (now : Fit literal (op, other)) : False := by
  obtain ⟨comparable, met⟩ := id now
  rcases refused with ⟨-, incomparable | ⟨noEqual, noExclusion, undecided⟩⟩ |
    ⟨-, rfl, first, found, differs⟩
  · cases comparable.symm.trans incomparable
  · obtain ⟨side, kind⟩ : ∃ side, Bounding side op := by
      dsimp only at met
      split at met
      · exact absurd rfl noEqual
      · exact absurd rfl noExclusion
      · exact met.imp fun _ => And.left
    exact boundMerge_isSome (fits.within side) ((fit_bound kind comparable).mp now)
      (undecided side kind)
  · exact differs ((fits.equals first found).trans met.symm)

theorem equalValidate_iff {bounds : List (BoundSide × Option RangeBound)} :
    equalValidate literal bounds = none ↔ ∀ side bound, (side, some bound) ∈ bounds →
      valueSatisfies side literal bound = some true := by
  induction bounds with
  | nil => simp [equalValidate]
  | cons first rest ih =>
    obtain ⟨side, bound⟩ := first
    cases bound with
    | none => simp [equalValidate, ih]
    | some bound =>
      unfold equalValidate
      cases met : valueSatisfies side literal bound with
      | none => simpa using ⟨side, bound, .inl ⟨rfl, rfl⟩, by simp [met]⟩
      | some answer =>
        cases answer with
        | true =>
          refine ih.trans ⟨fun kept side' bound' listed => ?_, fun kept side' bound' listed =>
            kept side' bound' (mem_cons_of_mem _ listed)⟩
          rcases mem_cons.mp listed with same | listed
          · cases same
            exact met
          · exact kept side' bound' listed
        | false => simpa using ⟨side, bound, .inl ⟨rfl, rfl⟩, by simp [met]⟩

theorem equalValidate_scan : equalValidate literal [(.lower, scan.lower), (.upper, scan.upper)] =
    none ↔ ∀ side bound, scanBound scan side = some bound →
      valueSatisfies side literal bound = some true := by
  rw [equalValidate_iff]
  constructor
  · intro all side bound found
    refine all side bound ?_
    cases side with
    | lower => simp [show scan.lower = some bound from found]
    | upper => simp [show scan.upper = some bound from found]
  · intro all side bound listed
    simp only [mem_cons, Prod.mk.injEq, not_mem_nil, or_false] at listed
    rcases listed with ⟨rfl, same⟩ | ⟨rfl, same⟩
    · exact all .lower bound same.symm
    · exact all .upper bound same.symm

theorem contains_iff {view : RangeView} : rangeContainsValue view literal = true ↔
    (∀ side bound, view.bound side = some bound → valueSatisfies side literal bound = some true) ∧
      literal ∉ view.notEqual := by
  simp only [rangeContainsValue, Bool.and_eq_true, all_eq_true, decide_eq_true_eq]
  refine and_congr_left' ⟨fun all side bound found => ?_, fun all side _ => ?_⟩
  · have here := all side (by cases side <;> simp [both])
    rw [found] at here
    simpa using here
  · cases found : view.bound side with
    | none => rfl
    | some bound => simpa using all side bound found

theorem level_iff {lower upper : RangeBound}
    (level : literalValueOrder lower.value upper.value = some .eq) :
    (valueSatisfies .lower literal lower = some true ∧
      valueSatisfies .upper literal upper = some true) ↔
      lower.inclusive = true ∧ upper.inclusive = true ∧ lower.value = literal := by
  obtain ⟨x, i⟩ := lower
  obtain ⟨y, j⟩ := upper
  obtain rfl : x = y := eq_of_level level
  simp only [valueSatisfies]
  constructor
  · rintro ⟨below, above⟩
    obtain ⟨ord, ho, met⟩ := Option.map_eq_some_iff.mp below
    obtain ⟨ord', ho', met'⟩ := Option.map_eq_some_iff.mp above
    cases ho.symm.trans ho'
    cases ord with
    | lt => simp [admits, orient] at met
    | gt => simp [admits, orient] at met'
    | eq => exact ⟨met, met', (eq_of_level ho).symm⟩
  · rintro ⟨rfl, rfl, rfl⟩
    simp [level, admits, orient]

theorem unfit_of_gt {lower upper : RangeBound}
    (crossed : literalValueOrder lower.value upper.value = some .gt)
    (below : valueSatisfies .lower literal lower = some true)
    (above : valueSatisfies .upper literal upper = some true) : False := by
  -- a literal above the lower bound would be strictly above the upper one
  have back : literalValueOrder upper.value lower.value = some .lt := by
    rw [literalValueOrder_swap, crossed]
    rfl
  obtain ⟨x, i⟩ := lower
  obtain ⟨y, j⟩ := upper
  have strict : valueSatisfies .lower literal ⟨y, false⟩ = some true :=
    satisfies_behind back rfl below
  obtain ⟨ord, ho, met⟩ := Option.map_eq_some_iff.mp strict
  obtain ⟨ord', ho', met'⟩ := Option.map_eq_some_iff.mp above
  cases ho.symm.trans ho'
  cases ord <;> simp [admits, orient] at met met'

theorem fitting_finish : Fitting (comparisonScanFinish scan) literal ↔ ScanFits scan literal := by
  unfold comparisonScanFinish
  cases found : scan.equalValue with
  | some value =>
    simp only
    have fits_iff : ScanFits scan literal ↔ value = literal ∧ literal ∉ scan.notEqual ∧
        equalValidate literal [(.lower, scan.lower), (.upper, scan.upper)] = none := by
      rw [equalValidate_scan]
      refine ⟨fun fits => ⟨fits.equals value found, fits.apart, fits.within⟩,
        fun ⟨same, apart, within⟩ => ⟨fun other is => ?_, apart, within⟩⟩
      cases found.symm.trans is
      exact same
    rw [fits_iff]
    cases validated : equalValidate value [(.lower, scan.lower), (.upper, scan.upper)] with
    | some early =>
      refine iff_of_false (fun inside => ?_) ?_
      · rcases gaveUp_of_equalValidate validated with rfl | rfl <;> exact inside
      · rintro ⟨rfl, -, passed⟩
        cases validated.symm.trans passed
    | none =>
      dsimp only
      split
      · rename_i out
        refine iff_of_false id ?_
        rintro ⟨rfl, apart, -⟩
        exact apart out
      · rename_i out
        refine ⟨?_, And.left⟩
        rintro (rfl : value = literal)
        exact ⟨rfl, out, validated⟩
  | none =>
    have fits_iff : ScanFits scan literal ↔ literal ∉ scan.notEqual ∧
        ∀ side bound, scanBound scan side = some bound →
          valueSatisfies side literal bound = some true :=
      ⟨fun fits => ⟨fits.apart, fits.within⟩, fun ⟨apart, within⟩ =>
        ⟨by simp [found], apart, within⟩⟩
    have interval : Fitting (.range ⟨scan.lower, scan.upper, scan.notEqual⟩) literal ↔
        ScanFits scan literal := by
      rw [fits_iff, Fitting, contains_iff, and_comm]
      refine and_congr_right' ⟨fun all side bound is => all side bound ?_, fun all side bound is =>
        all side bound ?_⟩ <;> cases side <;> exact is
    dsimp only
    split
    · rename_i lower upper hl hu
      have bounds : ScanFits scan literal ↔ literal ∉ scan.notEqual ∧
          valueSatisfies .lower literal lower = some true ∧
          valueSatisfies .upper literal upper = some true := by
        rw [fits_iff]
        refine and_congr_right' ⟨fun all => ⟨all .lower lower hl, all .upper upper hu⟩,
          fun ⟨below, above⟩ side bound is => ?_⟩
        cases side with
        | lower =>
          cases hl.symm.trans is
          exact below
        | upper =>
          cases hu.symm.trans is
          exact above
      split
      · rename_i crossed
        rw [bounds]
        exact iff_of_false id fun fits => unfit_of_gt crossed fits.2.1 fits.2.2
      · rename_i level
        rw [bounds, level_iff level]
        split
        · rename_i opened
          refine iff_of_false id ?_
          rintro ⟨-, hi, hj, -⟩
          simp [hi, hj] at opened
        · rename_i closed
          simp only [Bool.or_eq_true, Bool.not_eq_true', not_or, Bool.not_eq_false] at closed
          split
          · rename_i out
            refine iff_of_false id ?_
            rintro ⟨apart, -, -, rfl⟩
            exact apart out
          · rename_i out
            refine ⟨?_, fun fits => fits.2.2.2⟩
            rintro (rfl : lower.value = literal)
            exact ⟨out, closed.1, closed.2, rfl⟩
      · exact interval
      · rename_i undecided
        rw [bounds]
        refine iff_of_false id ?_
        rintro ⟨-, below, above⟩
        obtain ⟨o, ho, -⟩ := Option.map_eq_some_iff.mp below
        obtain ⟨o', ho', -⟩ := Option.map_eq_some_iff.mp above
        have ordered := ordered_trans (ordered_symm (Option.isSome_of_eq_some ho))
          (Option.isSome_of_eq_some ho')
        rw [undecided] at ordered
        cases ordered
    · exact interval

/-! ### The built ranges -/

theorem fitting_comparisonRangeBuild :
    Fitting (comparisonRangeBuild cs) literal ↔ ∀ c ∈ cs, Fit literal c := by
  let inv := fun (read : List (BinaryOp × LiteralValue)) (scan : ComparisonScan) =>
    (∀ literal, ScanFits scan literal ↔ ∀ c ∈ read, Fit literal c) ∧ read ⊆ cs
  have start : inv [] {} := by
    refine ⟨fun literal => iff_of_true ⟨by simp, by simp, ?_⟩ (by simp), nil_subset _⟩
    rintro (_ | _) bound found <;> cases found
  have next : ∀ read scan op other after, inv read scan → (op, other) ∈ cs →
      literalValueIsIncomparable other = false → ScanRead scan other op after →
      inv (read ++ [(op, other)]) after := by
    rintro read scan op other after ⟨exact_, subset⟩ listed comparable step
    refine ⟨fun literal => ?_, append_subset.mpr ⟨subset, by simpa using listed⟩⟩
    rw [ScanFits.next_iff comparable step, exact_ literal]
    simp [or_imp, forall_and]
  have refused : ∀ read scan op other range, inv read scan → (op, other) ∈ cs →
      Refused scan other op range → GaveUp range ∧ ∀ literal, ¬ ∀ c ∈ cs, Fit literal c := by
    rintro read scan op other range ⟨exact_, subset⟩ listed refused
    refine ⟨refused.imp And.left And.left, fun literal fits => ?_⟩
    exact unfit_of_refused refused ((exact_ literal).mpr fun c hc => fits c (subset hc))
      (fits _ listed)
  rcases comparisonRangeBuild_rule start next refused with
    ⟨early, unfit⟩ | ⟨rfl, same⟩ | ⟨scan, kept, same⟩
  · refine iff_of_false ?_ (unfit literal)
    rcases early with early | early <;> rw [early] <;> exact id
  · rw [same]
    simp [Fitting]
  · rw [same, fitting_finish, kept.1 literal]

variable {constraints : List TableConstraint}

/-- A literal that meets every constraint of a column. -/
def Listed (constraints : List TableConstraint) (literal : LiteralValue) : Prop :=
  (∀ c ∈ comparisonsOf constraints, Fit literal c) ∧
    ∀ members ∈ inSetsOf constraints, literal ∈ members

/-- The constraints `column_range_build` does not give up on at once: they have at most one value
set, with no NULL and no parameter in it. -/
def Reduced (constraints : List TableConstraint) : Prop :=
  (inSetsOf constraints).length ≤ 1 ∧
    ∀ members ∈ inSetsOf constraints, members.any literalValueIsIncomparable = false

theorem fitting_memberRange {members : List LiteralValue} :
    Fitting (memberRange members) literal ↔ literal ∈ members := by
  match members with
  | [] => simp [memberRange, Fitting]
  | [_] => simp [memberRange, Fitting, eq_comm]
  | _ :: _ :: _ => rfl

theorem fitting_inSetRangeBuild {members : List LiteralValue}
    (comparable : members.any literalValueIsIncomparable = false) :
    Fitting (inSetRangeBuild members cs) literal ↔
      (∀ c ∈ cs, Fit literal c) ∧ literal ∈ members := by
  have fits := @fitting_comparisonRangeBuild literal cs
  unfold inSetRangeBuild
  rw [comparable]
  split
  · rename_i none
    simp [none, Fitting]
  rw [if_neg Bool.false_ne_true]
  split
  · rename_i none
    simp [none, Fitting]
  · rw [← fits]
    cases shape : comparisonRangeBuild cs with
    | unknown | empty => simp [Fitting]
    | unconstrained => simp [Fitting]
    | inSet _ => exact absurd shape not_inSet
    | equal value =>
      dsimp only
      split
      · rename_i listed
        refine ⟨fun same => ⟨same, ?_⟩, And.left⟩
        rw [← show value = literal from same]
        exact listed
      · rename_i out
        refine iff_of_false id ?_
        rintro ⟨rfl, listed⟩
        exact out listed
    | range view =>
      refine (@fitting_memberRange literal (members.filter (rangeContainsValue view))).trans ?_
      rw [mem_filter, and_comm]
      rfl

theorem fitting_columnRangeBuild (reduced : Reduced constraints) :
    Fitting (columnRangeBuild constraints) literal ↔ Listed constraints literal := by
  obtain ⟨single, comparable⟩ := reduced
  unfold columnRangeBuild Listed
  split
  · rename_i none
    simp [none, Fitting, comparisonsOf, inSetsOf]
  · cases sets : inSetsOf constraints with
    | nil => simpa using fitting_comparisonRangeBuild
    | cons members rest =>
      rw [sets] at single comparable
      cases rest with
      | nil => simpa using fitting_inSetRangeBuild (comparable members mem_cons_self)
      | cons _ _ => simp at single

theorem columnRangeBuild_unreduced (unreduced : ¬ Reduced constraints) :
    columnRangeBuild constraints = .unknown ∨ columnRangeBuild constraints = .empty := by
  unfold columnRangeBuild
  split
  · rename_i none
    exact absurd ⟨by simp [none, inSetsOf], by simp [none, inSetsOf]⟩ unreduced
  · cases sets : inSetsOf constraints with
    | nil => exact absurd ⟨by simp [sets], by simp [sets]⟩ unreduced
    | cons members rest =>
      cases rest with
      | cons _ _ => exact .inl rfl
      | nil =>
        have incomparable : members.any literalValueIsIncomparable = true := by
          by_contra comparable
          exact unreduced ⟨by simp [sets], by simpa [sets] using comparable⟩
        simp only [inSetRangeBuild, incomparable, if_true]
        split
        · exact .inr rfl
        · exact .inl rfl

theorem inSetsOf_of_range {view : RangeView} (is : columnRangeBuild constraints = .range view) :
    inSetsOf constraints = [] := by
  have shape := built constraints
  generalize columnRangeBuild constraints = range at shape is
  cases shape with
  | unknown => cases is
  | bare none => exact none
  | set _ members =>
    cases members with
    | unknown | noMember | emptied | whole => cases is
    | point _ => split at is <;> cases is
    | kept _ =>
      unfold memberRange at is
      split at is <;> cases is

end PgCache.Query.Constraints.RangeFits
