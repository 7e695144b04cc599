/- source: query/constraints/mod.rs, query/constraints/extract.rs
   digest: The constraints and column equivalences a SELECT's predicates imply. -/
import PgCache.Data.Keyed
import PgCache.Query.Cast
import PgCache.Query.Constraints.Range
import Mathlib.Data.List.Sort

set_option autoImplicit false

namespace PgCache.Query.Constraints.Extract

open Data.Keyed Literal Resolved.Ast Cast Range

inductive ColumnConstraint where
  | comparison (column : ResolvedColumnNode) (op : BinaryOp) (value : LiteralValue)
  | inSet (column : ResolvedColumnNode) (values : List LiteralValue)
  | castComparison (column : ResolvedColumnNode) (cast : CastTarget) (op : BinaryOp)
      (value : LiteralValue)
  deriving DecidableEq

namespace ColumnConstraint

def column : ColumnConstraint → ResolvedColumnNode
  | .comparison column _ _ | .inSet column _ | .castComparison column _ _ _ => column

def withColumn (other : ResolvedColumnNode) : ColumnConstraint → ColumnConstraint
  | .comparison _ op value => .comparison other op value
  | .inSet _ values => .inSet other values
  | .castComparison _ cast op value => .castComparison other cast op value

def same (a b : ColumnConstraint) : Bool :=
  a.column.same b.column && a.withColumn b.column = b

def toTable : ColumnConstraint → TableConstraint
  | .comparison column op value => .comparison column.column op value
  | .inSet column values => .anyOf column.column values
  | .castComparison column cast op value => .castComparison column.column cast op value

end ColumnConstraint

structure ColumnEquivalence where
  left : ResolvedColumnNode
  right : ResolvedColumnNode
  deriving DecidableEq

namespace ColumnEquivalence

def isJoin (equiv : ColumnEquivalence) : Bool :=
  equiv.left.table ≠ equiv.right.table ∨ equiv.left.tableAlias ≠ equiv.right.tableAlias

def same (a b : ColumnEquivalence) : Bool :=
  a.left.same b.left && a.right.same b.right

end ColumnEquivalence

/-- `HashSet::insert` under the equality `same`: the element already there stays. -/
def insertNew {α : Type} (same : α → α → Bool) (xs : List α) (x : α) : List α :=
  if xs.any (same x) then xs else xs ++ [x]

structure QueryConstraints where
  columnConstraints : List ColumnConstraint
  equivalences : List ColumnEquivalence
  tableConstraints : KeyedMap String (List TableConstraint)
  whereAnalysisComplete : Bool

def QueryConstraints.tableJoinColumns (constraints : QueryConstraints) (tableName : String) :
    List String :=
  (constraints.equivalences.filter ColumnEquivalence.isJoin).filterMap fun equiv =>
    if equiv.left.table = tableName then some equiv.left.column
    else if equiv.right.table = tableName then some equiv.right.column
    else none

structure ConstraintCollector where
  constraints : List ColumnConstraint
  equivalences : List ColumnEquivalence
  complete : Bool
  deriving DecidableEq

namespace ConstraintCollector

def empty : ConstraintCollector := ⟨[], [], true⟩

def constrain (c : ConstraintCollector) (constraint : ColumnConstraint) : ConstraintCollector :=
  { c with constraints := insertNew ColumnConstraint.same c.constraints constraint }

def equate (c : ConstraintCollector) (equiv : ColumnEquivalence) : ConstraintCollector :=
  { c with equivalences := insertNew ColumnEquivalence.same c.equivalences equiv }

def giveUp (c : ConstraintCollector) : ConstraintCollector :=
  { c with complete := false }

end ConstraintCollector

def isComparison (op : BinaryOp) : Bool :=
  op.opFlip.isSome

def comparisonAnalyze (c : ConstraintCollector) (op : BinaryOp)
    (lexpr rexpr : ResolvedWhereExpr) : ConstraintCollector :=
  match canonicalizeComparison op lexpr rexpr with
  | some ⟨column, none, op, value⟩ => c.constrain (.comparison column op value)
  | some ⟨column, some cast, op, value⟩ =>
    if castTargetIsCoercionSupported cast column.columnMetadata.dataType then
      c.constrain (.castComparison column cast op value)
    else c.giveUp
  | none =>
    match resolvedWhereScalarLeaf lexpr, resolvedWhereScalarLeaf rexpr with
    | some (.column left), some (.column right) =>
      if op = .equal then c.equate ⟨left, right⟩ else c.giveUp
    | _, _ => c.giveUp

def literalOperands (exprs : List ResolvedWhereExpr) : Option (List LiteralValue) :=
  exprs.mapM fun
    | .scalar (.literal value) => some value
    | _ => none

def literalValueCanonicalOrder : LiteralValue → LiteralValue → Ordering
  | .integer a, .integer b => compare a.toInt b.toInt
  | .float a, .float b => a.cmp b
  | .string a, .string b => compare a b
  | .stringWithCast a _, .stringWithCast b _ => compare a b
  | _, _ => .eq

def dedupRuns : List LiteralValue → List LiteralValue
  | a :: b :: rest => if a = b then dedupRuns (b :: rest) else a :: dedupRuns (b :: rest)
  | short => short

def valueSet (values : List LiteralValue) : List LiteralValue :=
  dedupRuns (values.insertionSort fun a b => literalValueCanonicalOrder a b ≠ .gt)

def betweenConstraintsExtract (c : ConstraintCollector) (op : MultiOp)
    (exprs : List ResolvedWhereExpr) : ConstraintCollector :=
  match exprs with
  | [.scalar (.column column), .scalar (.literal low), .scalar (.literal high)] =>
    let bounds :=
      if op = .betweenSymmetric then
        match literalValueOrder low high with
        | some .gt => some (high, low)
        | some _ => some (low, high)
        | none => none
      else some (low, high)
    match bounds with
    | some (low, high) =>
      (c.constrain (.comparison column .greaterThanOrEqual low)).constrain
        (.comparison column .lessThanOrEqual high)
    | none => c
  | _ => c

def inConstraintsExtract (c : ConstraintCollector) (exprs : List ResolvedWhereExpr) :
    ConstraintCollector :=
  match exprs with
  | .scalar (.column column) :: values =>
    match literalOperands values with
    | some literals =>
      if literals.any literalValueIsIncomparable then c
      else c.constrain (.inSet column (valueSet literals))
    | none => c
  | _ => c

def anyEqArrayConstraintsExtract (c : ConstraintCollector) (exprs : List ResolvedWhereExpr) :
    ConstraintCollector :=
  match exprs with
  | [.scalar (.column column), .scalar rhs] =>
    let elements : Option (List LiteralValue) := match rhs with
      | .literal (.array values _) => some values
      | .array elements => literalOperands (elements.map .scalar)
      | _ => none
    match elements with
    | some literals =>
      if literals.any literalValueIsIncomparable then c.giveUp
      else c.constrain (.inSet column (valueSet literals))
    | none => c.giveUp
  | _ => c.giveUp

/-- The loop of `not_in_constraints_extract`, which stops at the first operand it cannot read
and keeps what it has. -/
def notInValues (column : ResolvedColumnNode) (c : ConstraintCollector) :
    List ResolvedWhereExpr → ConstraintCollector
  | .scalar (.literal value) :: rest =>
    if literalValueIsIncomparable value then c
    else notInValues column (c.constrain (.comparison column .notEqual value)) rest
  | _ => c

def notInConstraintsExtract (c : ConstraintCollector) (exprs : List ResolvedWhereExpr) :
    ConstraintCollector :=
  match exprs with
  | .scalar (.column column) :: values => notInValues column c values
  | _ => c

def multiAnalyze (c : ConstraintCollector) (op : MultiOp) (exprs : List ResolvedWhereExpr) :
    ConstraintCollector :=
  match op with
  | .between | .betweenSymmetric => betweenConstraintsExtract c op exprs
  | .isIn => inConstraintsExtract c exprs
  | .notIn => notInConstraintsExtract c exprs
  | .any .equal => anyEqArrayConstraintsExtract c exprs
  | .notBetween | .notBetweenSymmetric | .any _ | .all _ => c.giveUp

def whereAnalyze (c : ConstraintCollector) : ResolvedWhereExpr → ConstraintCollector
  | .binary op lexpr rexpr =>
    if isComparison op then comparisonAnalyze c op lexpr rexpr
    else if op = .and then whereAnalyze (whereAnalyze c lexpr) rexpr
    else c.giveUp
  | .multi op exprs => multiAnalyze c op exprs
  | .scalar _ | .unary _ _ | .subquery .. => c.giveUp

def joinSourceAnalyze (c : ConstraintCollector) : ResolvedTableSource → ConstraintCollector
  | .join _ left right qual =>
    let c := match qual.predicate with
      | some condition => whereAnalyze c condition
      | none => c
    joinSourceAnalyze (joinSourceAnalyze c left) right
  | .table _ | .subquery .. => c

def collectQueryConstraints (resolved : ResolvedSelectNode) : ConstraintCollector :=
  let c := match resolved.whereClause with
    | some expr => whereAnalyze .empty expr
    | none => .empty
  resolved.sources.foldl joinSourceAnalyze c

/-- `ColumnConstraint::across`: a constraint copied to the other column of an equivalence; one
through a cast is not copied. -/
def across (constraint : ColumnConstraint) (equiv : ColumnEquivalence) : Option ColumnConstraint :=
  let other :=
    if constraint.column.same equiv.left then some equiv.right
    else if constraint.column.same equiv.right then some equiv.left
    else none
  match other, constraint with
  | some other, .comparison .. | some other, .inSet .. => some (constraint.withColumn other)
  | _, _ => none

/-- One round of the loop in `propagate_constraints`. -/
def propagateRound (equivalences : List ColumnEquivalence)
    (constraints : List ColumnConstraint) : List ColumnConstraint :=
  (equivalences.flatMap fun equiv => constraints.filterMap (across · equiv)).foldl
    (insertNew ColumnConstraint.same) constraints

def propagateLoop (equivalences : List ColumnEquivalence) :
    Nat → List ColumnConstraint → List ColumnConstraint
  | 0, constraints => constraints
  | fuel + 1, constraints =>
    let next := propagateRound equivalences constraints
    if next.length = constraints.length then constraints
    else propagateLoop equivalences fuel next

/-- `propagate_constraints`. A round adds a copy of an initial constraint on another column, so
the rounds are bounded by the constraints times the columns. -/
def propagateConstraints (equivalences : List ColumnEquivalence)
    (constraints : List ColumnConstraint) : List ColumnConstraint :=
  propagateLoop equivalences
    (constraints.length * (constraints.length + 2 * equivalences.length)) constraints

def analyzeQueryConstraints (resolved : ResolvedSelectNode) : QueryConstraints :=
  let collected := collectQueryConstraints resolved
  let columnConstraints := propagateConstraints collected.equivalences collected.constraints
  { columnConstraints
    equivalences := collected.equivalences
    tableConstraints := PgCache.Data.Keyed.retain
      (fun _ constraints => some (constraints.map ColumnConstraint.toTable))
      (groupBy (fun constraint => constraint.column.table) columnConstraints)
    whereAnalysisComplete := collected.complete }

end PgCache.Query.Constraints.Extract
