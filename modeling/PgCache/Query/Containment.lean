/- source: query/constraint_index/
   digest: The per-relation index of constraint sets and its row and region probes. -/
import PgCache.Query.Constraints.Range
import PgCache.Query.Evaluate
import PgCache.Data.Keyed
import Mathlib.Data.List.Sort

set_option autoImplicit false

namespace PgCache.Query.Containment

open Catalog Data.Keyed Literal Constraints.Range Evaluate

def i64AsF64 (i : Int64) : F64 :=
  let magnitude := i.toInt.natAbs
  let shift := magnitude.log2 - 52
  let unit := 2 ^ shift
  let quotient := magnitude / unit
  let twice := 2 * (magnitude % unit)
  let up := twice > unit ∨ (twice = unit ∧ quotient % 2 = 1)
  let rounded := (if up then quotient + 1 else quotient) * unit
  .fin (if i.toInt < 0 then -(rounded : ℚ) else rounded)

inductive ValueKey where
  | num (f : F64)
  | str (s : String)
  | bool (b : Bool)
  deriving DecidableEq

namespace ValueKey

def tryNew : LiteralValue → Option ValueKey
  | .integer i => some (.num (i64AsF64 i))
  | .float f => some (.num f)
  | .string s | .stringWithCast s _ => some (.str s)
  | .boolean b => some (.bool b)
  | .null | .nullWithCast _ | .parameter _ | .array _ _ => none

def cmp : ValueKey → ValueKey → Ordering
  | .num a, .num b => a.cmp b
  | .num _, _ => .lt
  | _, .num _ => .gt
  | .str a, .str b => compare a b
  | .str _, _ => .lt
  | _, .str _ => .gt
  | .bool a, .bool b => compare a b

def le (a b : ValueKey) : Bool := a.cmp b ≠ .gt

end ValueKey

inductive Placement where
  | eq (key : ValueKey)
  | inSet (keys : List ValueKey)
  | rangeLower (key : ValueKey)
  | rangeUpper (key : ValueKey)
  | rangeBoth (lower upper : ValueKey)
  | unplaced

def placement : ColumnRange → Placement
  | .equal v => ((ValueKey.tryNew v).map Placement.eq).getD .unplaced
  | .inSet values => ((values.mapM ValueKey.tryNew).map Placement.inSet).getD .unplaced
  | .range view =>
    match view.lower, view.upper with
    | some lb, none => ((ValueKey.tryNew lb.value).map Placement.rangeLower).getD .unplaced
    | none, some ub => ((ValueKey.tryNew ub.value).map Placement.rangeUpper).getD .unplaced
    | some lb, some ub =>
      match ValueKey.tryNew lb.value, ValueKey.tryNew ub.value with
      | some lower, some upper => .rangeBoth lower upper
      | _, _ => .unplaced
    | none, none => .unplaced
  | .unknown | .unconstrained | .empty => .unplaced

section Index

variable {K : Type} [DecidableEq K]

abbrev Postings (κ K : Type) := KeyedMap κ (List K)

def postingsWhere {κ L : Type} (test : κ → Bool) (postings : Postings κ L) : List L :=
  (postings.entries.filter fun entry => test entry.1).flatMap fun entry => entry.2

/-- `map_vec_remove`, `btree_vec_remove` and `btree_pair_remove`: drop the entries that match,
and the key when nothing is left. -/
def postingsRemove {κ L : Type} [DecidableEq κ] (key : κ) (drop : L → Bool)
    (postings : Postings κ L) : Postings κ L :=
  retain (fun key' entries =>
    if key' = key then
      match entries.filter (fun entry => !drop entry) with
      | [] => none
      | kept => some kept
    else some entries) postings

structure ColumnIndex (K : Type) where
  eq : Postings ValueKey K
  inset : Postings ValueKey K
  rangeLower : Postings ValueKey K
  rangeUpper : Postings ValueKey K
  rangeBoth : Postings ValueKey (ValueKey × K)
  unplaced : List K

namespace ColumnIndex

def empty : ColumnIndex K := ⟨∅, ∅, ∅, ∅, ∅, []⟩

variable (index : ColumnIndex K)

def insert (fp : K) (range : ColumnRange) : ColumnIndex K :=
  match placement range with
  | .eq key => { index with eq := modify key [] (· ++ [fp]) index.eq }
  | .inSet keys =>
    { index with
      inset := keys.foldl (fun inset key => modify key [] (· ++ [fp]) inset) index.inset }
  | .rangeLower key => { index with rangeLower := modify key [] (· ++ [fp]) index.rangeLower }
  | .rangeUpper key => { index with rangeUpper := modify key [] (· ++ [fp]) index.rangeUpper }
  | .rangeBoth lower upper =>
    { index with rangeBoth := modify lower [] (· ++ [(upper, fp)]) index.rangeBoth }
  | .unplaced => { index with unplaced := index.unplaced ++ [fp] }

def remove (fp : K) (range : ColumnRange) : ColumnIndex K :=
  match placement range with
  | .eq key => { index with eq := postingsRemove key (· = fp) index.eq }
  | .inSet keys =>
    { index with
      inset := keys.foldl (fun inset key => postingsRemove key (· = fp) inset) index.inset }
  | .rangeLower key => { index with rangeLower := postingsRemove key (· = fp) index.rangeLower }
  | .rangeUpper key => { index with rangeUpper := postingsRemove key (· = fp) index.rangeUpper }
  | .rangeBoth lower _ =>
    { index with
      rangeBoth := postingsRemove lower (fun entry => entry.2 = fp) index.rangeBoth }
  | .unplaced => { index with unplaced := index.unplaced.filter (· ≠ fp) }

def all : List K :=
  postingsWhere (fun _ => true) index.eq ++ postingsWhere (fun _ => true) index.inset ++
    postingsWhere (fun _ => true) index.rangeLower ++
    postingsWhere (fun _ => true) index.rangeUpper ++
    (postingsWhere (fun _ => true) index.rangeBoth).map Prod.snd

def twoSided (low high : ValueKey) : List K :=
  ((postingsWhere (fun key => key.le low) index.rangeBoth).filter
    fun entry => high.le entry.1).map Prod.snd

def twoSidedLit (low high : LiteralValue) : List K :=
  match ValueKey.tryNew low, ValueKey.tryNew high with
  | some low, some high => index.twoSided low high
  | _, _ => (postingsWhere (fun _ => true) index.rangeBoth).map Prod.snd

def lowerCovering (bound : LiteralValue) : List K :=
  match ValueKey.tryNew bound with
  | some key => postingsWhere (fun lower => lower.le key) index.rangeLower
  | none => postingsWhere (fun _ => true) index.rangeLower

def upperCovering (bound : LiteralValue) : List K :=
  match ValueKey.tryNew bound with
  | some key => postingsWhere (fun upper => key.le upper) index.rangeUpper
  | none => postingsWhere (fun _ => true) index.rangeUpper

def keyExtremes (first : ValueKey) (rest : List ValueKey) : ValueKey × ValueKey :=
  rest.foldl (fun (low, high) key =>
    (if key.le low then key else low, if high.le key then key else high)) (first, first)

/-- `ColumnIndex::containing_inset`. The source's set is hashed, so a member stands once. -/
def containingInset (values : List LiteralValue) : List K :=
  match values.dedup.mapM ValueKey.tryNew with
  | none => index.all
  | some [] => []
  | some (first :: rest) =>
    let (low, high) := keyExtremes first rest
    let members := ((index.inset.lookup first).getD []).filter fun fp =>
      rest.all fun key => fp ∈ (index.inset.lookup key).getD []
    members ++ (if rest = [] then (index.eq.lookup first).getD [] else []) ++
      postingsWhere (fun lower => lower.le low) index.rangeLower ++
      postingsWhere (fun upper => high.le upper) index.rangeUpper ++
      index.twoSided low high

def containing (query : ColumnRange) : List K :=
  index.unplaced ++ match query with
    | .unknown | .empty | .unconstrained => index.all
    | .equal v =>
      match ValueKey.tryNew v with
      | some key =>
        (index.eq.lookup key).getD [] ++ (index.inset.lookup key).getD [] ++
          index.lowerCovering v ++ index.upperCovering v ++ index.twoSidedLit v v
      | none => index.all
    | .inSet values => index.containingInset values
    | .range view =>
      (view.lower.map fun lb => index.lowerCovering lb.value).getD [] ++
        (view.upper.map fun ub => index.upperCovering ub.value).getD [] ++
        match view.lower, view.upper with
        | some lb, some ub => index.twoSidedLit lb.value ub.value
        | _, _ => []

end ColumnIndex

def intersectAll : List (List K) → List K
  | [] => []
  | first :: rest => first.filter fun fp => rest.all fun column => fp ∈ column

structure ComplexIndex (K : Type) where
  perColumn : List (ColumnIndex K)
  len : Nat

namespace ComplexIndex

def new (numColumns : Nat) : ComplexIndex K :=
  ⟨List.replicate numColumns ColumnIndex.empty, 0⟩

variable (index : ComplexIndex K)

def insert (fp : K) (ranges : List ColumnRange) : ComplexIndex K :=
  ⟨List.zipWith (fun column range => column.insert fp range) index.perColumn ranges, index.len + 1⟩

def remove (fp : K) (ranges : List ColumnRange) : ComplexIndex K :=
  ⟨List.zipWith (fun column range => column.remove fp range) index.perColumn ranges, index.len - 1⟩

def candidates (ranges : List ColumnRange) : List K :=
  if index.len = 0 then []
  else intersectAll (List.zipWith ColumnIndex.containing index.perColumn ranges)

def candidatesPoint (forms : List (List ColumnRange)) : List K :=
  if index.len = 0 then []
  else intersectAll (List.zipWith (fun column forms => forms.flatMap column.containing)
    index.perColumn forms)

end ComplexIndex

structure SubsumptionClass (K : Type) where
  equality : Postings (List ValueKey) K
  complex : ComplexIndex K

def SubsumptionClass.new (numColumns : Nat) : SubsumptionClass K :=
  ⟨∅, .new numColumns⟩

abbrev ColumnSet := List String

def columnSet (columns : List String) : ColumnSet :=
  columns.dedup.insertionSort (· ≤ ·)

/-- `ColumnSet::is_subset_of`: both sides are sorted, so one walk over the larger set meets the
columns of the smaller in order. -/
def columnSetIsSubset (columns other : ColumnSet) : Bool :=
  columns.isSublist other

def columnSetPowerset (columns : ColumnSet) : List ColumnSet :=
  (List.range (2 ^ columns.length)).map fun mask =>
    (columns.zipIdx.filter fun entry => mask.testBit entry.2).map Prod.fst

def constraintColumn : TableConstraint → String
  | .comparison column _ _ | .anyOf column _ | .castComparison column _ _ _ => column

inductive Classification where
  | equalityPure (columns : ColumnSet) (values : List ValueKey)
  | complex (columns : ColumnSet)

def Classification.columns : Classification → ColumnSet
  | .equalityPure columns _ | .complex columns => columns

variable (constraints : List TableConstraint)

def equalityValue (column : String) : Option LiteralValue :=
  constraints.findSome? fun
    | .comparison column' .equal value => if column' = column then some value else none
    | _ => none

def classify : Classification :=
  let columns := columnSet (constraints.map constraintColumn)
  let pure := constraints.all fun
    | .comparison column .equal value => equalityValue constraints column = some value
    | _ => false
  match columns.mapM fun column => (equalityValue constraints column).bind ValueKey.tryNew with
  | some values => if pure then .equalityPure columns values else .complex columns
  | none => .complex columns

/-- `column_ranges`: a column under a cast has no range the index can place. -/
def columnRanges (columns : ColumnSet) : List ColumnRange :=
  columns.map fun column =>
    let onColumn := constraints.filter fun constraint => constraintColumn constraint = column
    let hasCast := onColumn.any fun
      | .castComparison .. => true
      | _ => false
    if hasCast then .unknown else columnRangeBuild onColumn

inductive MembershipPayload where
  | equality (values : List ValueKey)
  | complex (ranges : List ColumnRange)

structure Membership where
  columns : ColumnSet
  payload : MembershipPayload

structure ConstraintIndex (K : Type) where
  classes : KeyedMap ColumnSet (SubsumptionClass K)
  membership : KeyedMap K Membership

namespace ConstraintIndex

def empty : ConstraintIndex K := ⟨∅, ∅⟩

/-- What `remove` leaves of a class, `none` when it is empty. -/
def classRemove (cls : SubsumptionClass K) (fp : K) (payload : MembershipPayload) :
    Option (SubsumptionClass K) :=
  let cls := match payload with
    | .equality values => { cls with equality := postingsRemove values (· = fp) cls.equality }
    | .complex ranges => { cls with complex := cls.complex.remove fp ranges }
  if cls.equality.entries.isEmpty && cls.complex.len = 0 then none else some cls

variable (index : ConstraintIndex K)

def remove (fp : K) : ConstraintIndex K :=
  match index.membership.lookup fp with
  | none => index
  | some member =>
    { classes := retain (fun columns cls =>
        if columns = member.columns then classRemove cls fp member.payload else some cls)
        index.classes
      membership := index.membership.erase fp }

def insert (fp : K) (constraints : List TableConstraint) : ConstraintIndex K :=
  let index := index.remove fp
  match classify constraints with
  | .equalityPure columns values =>
    { classes := modify columns (.new columns.length) (fun cls =>
        { cls with equality := modify values [] (· ++ [fp]) cls.equality }) index.classes
      membership := index.membership.insert fp ⟨columns, .equality values⟩ }
  | .complex columns =>
    let ranges := columnRanges constraints columns
    { classes := modify columns (.new columns.length) (fun cls =>
        { cls with complex := cls.complex.insert fp ranges }) index.classes
      membership := index.membership.insert fp ⟨columns, .complex ranges⟩ }

def equalKey : ColumnRange → Option ValueKey
  | .equal v => ValueKey.tryNew v
  | _ => none

def subsetProbe (constraints : List TableConstraint) (columns : ColumnSet)
    (cls : SubsumptionClass K) : List K :=
  let ranges := columnRanges constraints columns
  let equal := match ranges.mapM equalKey with
    | some key => (cls.equality.lookup key).getD []
    | none => []
  equal ++ cls.complex.candidates ranges

/-- `ConstraintIndex::candidates`: the classes over a subset of the columns, found from
whichever side is smaller. -/
def candidates (constraints : List TableConstraint) : List K :=
  let columns := (classify constraints).columns
  if columns.length < 32 ∧ 2 ^ columns.length ≤ index.classes.entries.length then
    (columnSetPowerset columns).flatMap fun subset =>
      ((index.classes.lookup subset).map (subsetProbe constraints subset)).getD []
  else
    (index.classes.entries.filter fun entry => columnSetIsSubset entry.1 columns).flatMap
      fun entry => subsetProbe constraints entry.1 entry.2

def valueKeyProduct (keySets : List (List ValueKey)) : List (List ValueKey) :=
  keySets.foldl (fun tuples keys =>
    tuples.flatMap fun tuple => keys.map fun key => tuple ++ [key]) [[]]

/-- What `candidates_point_into` takes from one class. A column none of whose forms has a key
stands for any value, and then the equality bucket is scanned. -/
def classPoint (forms : List (List ColumnRange)) (cls : SubsumptionClass K) : List K :=
  let keySets := forms.map fun columnForms => columnForms.filterMap equalKey
  let equal :=
    if keySets.all fun keys => !keys.isEmpty then
      (valueKeyProduct keySets).flatMap fun tuple => (cls.equality.lookup tuple).getD []
    else
      postingsWhere (fun tuple =>
        (keySets.zip tuple).all fun (keys, value) => keys = [] || value ∈ keys) cls.equality
  equal ++ cls.complex.candidatesPoint forms

def candidatesPoint (formsOf : String → List ColumnRange) : List K :=
  index.classes.entries.flatMap fun entry => classPoint (entry.1.map formsOf) entry.2

def columns : List String :=
  (index.classes.entries.flatMap Sigma.fst).dedup

end ConstraintIndex

end Index

/-- `row_value_forms`: the readings of a row's text for a column; an absent or NULL value may
be anything. -/
def rowValueForms (doubles : Doubles) (table : TableMetadata) (row : RowData)
    (column : String) : List ColumnRange :=
  match (table.columns.get column).bind fun metadata => (row[metadata.index]?).join with
  | none => [.unknown]
  | some text =>
    .equal (.string text) ::
      ((doubles.parse text).map fun f => ColumnRange.equal (.float f)).toList ++
      ((boolWireTextParse text).map fun b => ColumnRange.equal (.boolean b)).toList

end PgCache.Query.Containment
