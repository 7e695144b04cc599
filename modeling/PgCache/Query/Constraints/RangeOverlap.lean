/- source: query/constraints/range_overlap.rs
   digest: Containment and disjointness of column ranges, for the read-after-write gate. -/
import Mathlib.Data.Rat.Floor
import PgCache.Data.Keyed
import PgCache.Query.Constraints.Range

set_option autoImplicit false

namespace PgCache.Query.Constraints.RangeOverlap

open Data.Keyed Literal Range

abbrev ColumnRanges := KeyedMap String ColumnRange

def columnRangesFromComparisons (comparisons : List (String × BinaryOp × LiteralValue)) :
    ColumnRanges :=
  retain (fun column group =>
      some (columnRangeBuild (group.map fun c => .comparison column c.2.1 c.2.2)))
    (groupBy Prod.fst comparisons)

def intFloatCmp (i : Int64) : F64 → Ordering
  | .posInf => .lt
  | .negInf => .gt
  | .fin f =>
    if 2 ^ 63 ≤ f then .lt
    else if f < -2 ^ 63 then .gt
    else
      match compare i.toInt ⌊f⌋ with
      | .gt => .gt
      | .lt => .lt
      | .eq => if f = ⌊f⌋ then .eq else .lt

/-- `literal_value_order_numeric`: also orders the integer and the float spelling of numbers. -/
def literalValueOrderNumeric : LiteralValue → LiteralValue → Option Ordering
  | .integer i, .float f => some (intFloatCmp i f)
  | .float f, .integer i => some (intFloatCmp i f).swap
  | a, b => literalValueOrder a b

/-- `literal_value_eq`: provably equal, provably unequal, or undecidable. Strings compare by
bytes, whatever their cast. -/
def literalValueEq : LiteralValue → LiteralValue → Option Bool
  | .integer a, .integer b => some (a = b)
  | .float a, .float b => some (a = b)
  | .integer i, .float f | .float f, .integer i => some (intFloatCmp i f = .eq)
  | .string a, .string b => some (a = b)
  | .stringWithCast a _, .stringWithCast b _ => some (a = b)
  | _, _ => none

/-- `in_set_contains`: excluded only when provably unequal to every element. -/
def inSetContains (set : List LiteralValue) (value : LiteralValue) : Option Bool :=
  if set.any fun element => literalValueEq element value = some true then some true
  else if set.all fun element => literalValueEq element value = some false then some false
  else none

def boundsAdmit (range : RangeView) (value : LiteralValue) :
    List BoundSide → Option Bool
  | [] => some true
  | side :: sides =>
    match range.bound side with
    | none => boundsAdmit range value sides
    | some bound => do
        let ord ← literalValueOrderNumeric value bound.value
        let rest ← boundsAdmit range value sides
        return side.admits ord bound.inclusive && rest

/-- `range_contains`: an explicit exclusion rules the value out before the bounds are read. -/
def rangeContains (range : RangeView) (value : LiteralValue) : Option Bool :=
  if range.notEqual.any fun excluded => literalValueEq excluded value = some true then
    some false
  else boundsAdmit range value BoundSide.both

def columnRangeContains (range : ColumnRange) (value : LiteralValue) : Option Bool :=
  if literalValueIsIncomparable value then none
  else
    match range with
    | .unconstrained => some true
    | .empty => some false
    | .unknown => none
    | .equal v => literalValueEq v value
    | .inSet set => inSetContains set value
    | .range view => rangeContains view value

def boundBelow : Option RangeBound → Option RangeBound → Bool
  | some u, some l =>
    match literalValueOrderNumeric u.value l.value with
    | some .lt => true
    | some .eq => !(u.inclusive && l.inclusive)
    | some .gt | none => false
  | _, _ => false

def columnRangeDisjoint : ColumnRange → ColumnRange → Bool
  | .empty, _ | _, .empty => true
  | .unknown, _ | _, .unknown => false
  | .equal x, other | other, .equal x => columnRangeContains other x = some false
  | .inSet set, other | other, .inSet set =>
    set.all fun v => columnRangeContains other v = some false
  | .unconstrained, _ | _, .unconstrained => false
  | .range a, .range b => boundBelow a.upper b.lower || boundBelow b.upper a.lower

def hasEmpty (ranges : ColumnRanges) : Bool :=
  PgCache.Data.Keyed.any (fun _ range => range = .empty) ranges

def columnRangesDisjoint (a b : ColumnRanges) : Bool :=
  if hasEmpty a || hasEmpty b then true
  else
    PgCache.Data.Keyed.any
      (fun column ra => (b.lookup column).any fun rb => columnRangeDisjoint ra rb) a

end PgCache.Query.Constraints.RangeOverlap
