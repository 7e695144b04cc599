/- source: query/constraints/range.rs, query/constraints/mod.rs
   digest: Reduction of a column's constraints to one range, and range subsumption. -/
import PgCache.Query.Literal

set_option autoImplicit false

namespace PgCache.Query.Constraints.Range

open Literal

inductive TableConstraint where
  | comparison (column : String) (op : BinaryOp) (value : LiteralValue)
  | castComparison (column : String) (cast : CastTarget) (op : BinaryOp) (value : LiteralValue)
  | anyOf (column : String) (values : List LiteralValue)
  deriving DecidableEq

structure RangeBound where
  value : LiteralValue
  inclusive : Bool
  deriving DecidableEq

/-- `BoundSide`: every bound rule is written for a lower bound; an upper bound is the same rule
with the order reversed. -/
inductive BoundSide where
  | lower
  | upper
  deriving DecidableEq

namespace BoundSide

def both : List BoundSide := [.lower, .upper]

def orient : BoundSide → Ordering → Ordering
  | .lower, ord => ord
  | .upper, ord => ord.swap

/-- `admits`: whether a value ordered `valueVsBound` against a bound on this side meets it. -/
def admits (side : BoundSide) (valueVsBound : Ordering) (inclusive : Bool) : Bool :=
  match side.orient valueVsBound with
  | .gt => true
  | .eq => inclusive
  | .lt => false

end BoundSide

structure RangeView where
  lower : Option RangeBound
  upper : Option RangeBound
  notEqual : List LiteralValue
  deriving DecidableEq

def RangeView.bound (view : RangeView) : BoundSide → Option RangeBound
  | .lower => view.lower
  | .upper => view.upper

inductive ColumnRange where
  | unknown
  | unconstrained
  | empty
  | equal (value : LiteralValue)
  | inSet (values : List LiteralValue)
  | range (view : RangeView)
  deriving DecidableEq

def literalValueIsIncomparable : LiteralValue → Bool
  | .parameter _ | .null | .nullWithCast _ => true
  | _ => false

/-- `literal_value_order`: only literals of one numeric type are ordered. -/
def literalValueOrder : LiteralValue → LiteralValue → Option Ordering
  | .integer a, .integer b => some (compare a.toInt b.toInt)
  | .float a, .float b => some (a.cmp b)
  | _, _ => none

def boundTighten (side : BoundSide) (existing candidate : RangeBound) : Option RangeBound :=
  (literalValueOrder existing.value candidate.value).map fun ord =>
    match side.orient ord with
    | .lt => candidate
    | .gt => existing
    | .eq => ⟨existing.value, existing.inclusive && candidate.inclusive⟩

def valueSatisfies (side : BoundSide) (value : LiteralValue) (bound : RangeBound) : Option Bool :=
  (literalValueOrder value bound.value).map fun ord => side.admits ord bound.inclusive

def boundMerge (slot : Option RangeBound) (side : BoundSide) (candidate : RangeBound) :
    Option RangeBound :=
  match slot with
  | none => some candidate
  | some existing => boundTighten side existing candidate

/-- `range_contains_value`: an incomparable bound counts as not containing the value. -/
def rangeContainsValue (range : RangeView) (value : LiteralValue) : Bool :=
  BoundSide.both.all (fun side =>
    (range.bound side).all fun bound => valueSatisfies side value bound = some true) &&
  value ∉ range.notEqual

structure ComparisonScan where
  equalValue : Option LiteralValue := none
  lower : Option RangeBound := none
  upper : Option RangeBound := none
  notEqual : List LiteralValue := []

/-- One iteration of the loop in `comparison_range_build`; an early return is an `error`. -/
def comparisonScanStep (scan : ComparisonScan) (comparison : BinaryOp × LiteralValue) :
    Except ColumnRange ComparisonScan :=
  let (op, value) := comparison
  if literalValueIsIncomparable value then .error .unknown
  else
    match op with
    | .equal =>
      match scan.equalValue with
      | none => .ok { scan with equalValue := some value }
      | some existing => if existing = value then .ok scan else .error .empty
    | .notEqual => .ok { scan with notEqual := scan.notEqual ++ [value] }
    | .greaterThan | .greaterThanOrEqual =>
      match boundMerge scan.lower .lower ⟨value, op = .greaterThanOrEqual⟩ with
      | some bound => .ok { scan with lower := some bound }
      | none => .error .unknown
    | .lessThan | .lessThanOrEqual =>
      match boundMerge scan.upper .upper ⟨value, op = .lessThanOrEqual⟩ with
      | some bound => .ok { scan with upper := some bound }
      | none => .error .unknown
    | .and | .or | .like | .iLike | .notLike | .notILike => .error .unknown

def equalValidate (value : LiteralValue) : List (BoundSide × Option RangeBound) → Option ColumnRange
  | [] => none
  | (_, none) :: rest => equalValidate value rest
  | (side, some bound) :: rest =>
    match valueSatisfies side value bound with
    | some true => equalValidate value rest
    | some false => some .empty
    | none => some .unknown

/-- What `comparison_range_build` does after its loop. -/
def comparisonScanFinish (scan : ComparisonScan) : ColumnRange :=
  match scan.equalValue with
  | some value =>
    match equalValidate value [(.lower, scan.lower), (.upper, scan.upper)] with
    | some early => early
    | none => if value ∈ scan.notEqual then .empty else .equal value
  | none =>
    let range := ColumnRange.range ⟨scan.lower, scan.upper, scan.notEqual⟩
    match scan.lower, scan.upper with
    | some lb, some ub =>
      match literalValueOrder lb.value ub.value with
      | some .gt => .empty
      | some .eq =>
        if !lb.inclusive || !ub.inclusive then .empty
        else if lb.value ∈ scan.notEqual then .empty
        else .equal lb.value
      | some .lt => range
      | none => .unknown
    | _, _ => range

def comparisonRangeBuild (comparisons : List (BinaryOp × LiteralValue)) : ColumnRange :=
  if comparisons = [] then .unconstrained
  else
    match comparisons.foldlM comparisonScanStep {} with
    | .error early => early
    | .ok scan => comparisonScanFinish scan

def inSetRangeBuild (setValues : List LiteralValue)
    (comparisons : List (BinaryOp × LiteralValue)) : ColumnRange :=
  if setValues = [] then .empty
  else if setValues.any literalValueIsIncomparable then .unknown
  else if comparisons = [] then .inSet setValues
  else
    match comparisonRangeBuild comparisons with
    | .unknown => .unknown
    | .empty => .empty
    | .unconstrained => .inSet setValues
    | .equal v => if v ∈ setValues then .equal v else .empty
    | .inSet _ => .unknown
    | .range view =>
      match setValues.filter (rangeContainsValue view) with
      | [] => .empty
      | [first] => .equal first
      | first :: second :: rest => .inSet (first :: second :: rest)

variable (constraints : List TableConstraint)

def comparisonsOf : List (BinaryOp × LiteralValue) :=
  constraints.filterMap fun
    | .comparison _ op value | .castComparison _ _ op value => some (op, value)
    | .anyOf _ _ => none

def inSetsOf : List (List LiteralValue) :=
  constraints.filterMap fun
    | .anyOf _ values => some values
    | _ => none

/-- `column_range_build`: two value sets on one column are not intersected but given up on. -/
def columnRangeBuild : ColumnRange :=
  if constraints = [] then .unconstrained
  else
    match inSetsOf constraints with
    | [] => comparisonRangeBuild (comparisonsOf constraints)
    | [setValues] => inSetRangeBuild setValues (comparisonsOf constraints)
    | _ :: _ :: _ => .unknown

def boundAtLeastAsTight (side : BoundSide) (a b : RangeBound) : Option Bool :=
  (literalValueOrder a.value b.value).map fun ord =>
    match side.orient ord with
    | .gt => true
    | .lt => false
    | .eq => !a.inclusive || b.inclusive

def boundCovered (side : BoundSide) : Option RangeBound → Option RangeBound → Bool
  | none, _ => true
  | some _, none => false
  | some cached, some new => boundAtLeastAsTight side new cached = some true

/-- `range_subsumes_range`: a cached exclusion must be excluded by `new` too, by its own
exclusions or by its bounds. -/
def rangeSubsumesRange (cached new : RangeView) : Bool :=
  BoundSide.both.all (fun side => boundCovered side (cached.bound side) (new.bound side)) &&
  cached.notEqual.all fun excluded =>
    excluded ∈ new.notEqual || !rangeContainsValue { new with notEqual := [] } excluded

def columnRangeSubsumes : ColumnRange → ColumnRange → Bool
  | .unknown, _ | _, .unknown => false
  | .empty, _ => false
  | _, .empty => true
  | .unconstrained, _ => true
  | _, .unconstrained => false
  | .equal a, .equal b => a = b
  | .equal _, .range _ | .equal _, .inSet _ => false
  | .inSet cached, .inSet new => new.all (· ∈ cached)
  | .inSet set, .equal v => v ∈ set
  | .inSet _, .range _ => false
  | .range view, .inSet set => set.all (rangeContainsValue view)
  | .range view, .equal v => rangeContainsValue view v
  | .range cached, .range new => rangeSubsumesRange cached new

end PgCache.Query.Constraints.Range
