/- digest: Expressions without a window call do not see the other rows of their query. -/
import PgCache.Sql.Semantics

set_option autoImplicit false

namespace PgCache.Sql.Windows

open Query.Resolved.Ast Semantics

mutual

def scalarWindows : ResolvedScalarExpr → Bool
  | .column _ | .identifier _ | .literal _ | .subquery .. => false
  | .function call => callWindows call
  | .case arg whens default =>
    optionalWindows arg || whensWindow whens || optionalWindows default
  | .arithmetic left _ right => scalarWindows left || scalarWindows right
  | .array elements => scalarsWindow elements
  | .typeCast expr _ => scalarWindows expr

def optionalWindows : Option ResolvedScalarExpr → Bool
  | none => false
  | some expr => scalarWindows expr

def scalarsWindow : List ResolvedScalarExpr → Bool
  | [] => false
  | expr :: exprs => scalarWindows expr || scalarsWindow exprs

def callWindows : ResolvedFunctionCall → Bool
  | ⟨_, args, _, _, _, _, overSpec⟩ => overSpec.isSome || scalarsWindow args

def whensWindow : List ResolvedCaseWhen → Bool
  | [] => false
  | ⟨condition, result⟩ :: whens =>
    whereWindows condition || scalarWindows result || whensWindow whens

def whereWindows : ResolvedWhereExpr → Bool
  | .scalar expr => scalarWindows expr
  | .unary _ expr => whereWindows expr
  | .binary _ lexpr rexpr => whereWindows lexpr || whereWindows rexpr
  | .multi _ exprs => wheresWindow exprs
  | .subquery _ _ testExpr _ => optionalWindows testExpr

def wheresWindow : List ResolvedWhereExpr → Bool
  | [] => false
  | expr :: exprs => whereWindows expr || wheresWindow exprs

end

def columnsWindow (columns : List ResolvedSelectColumn) : Bool :=
  columns.any fun column => scalarWindows column.expr

def ordersWindow (clauses : List ResolvedOrderByClause) : Bool :=
  clauses.any fun clause => scalarWindows clause.expr

section Peers

variable {V : Type} [DecidableEq V] {pg : Pg V} {db : Database V}

/-- The same row with the same named outputs, among any other rows. -/
structure SameRow (a b : Scope V) : Prop where
  env : a.env = b.env
  group : a.group = b.group
  output : a.output = b.output

mutual

theorem evalScalar_of_sameRow : ∀ (e : ResolvedScalarExpr) {a b : Scope V},
    scalarWindows e = false → SameRow a b → evalScalar pg db e a = evalScalar pg db e b
  | .column c, a, b, _, same => by simp only [evalScalar, same.env]
  | .identifier _, a, b, _, same => by simp only [evalScalar, same.output]
  | .literal _, a, b, _, _ => by simp only [evalScalar]
  | .subquery q _, a, b, _, same => by simp only [evalScalar, same.env]
  | .function call, a, b, free, same => by
    simp only [evalScalar]
    exact evalCall_of_sameRow call free same
  | .case arg whens default, a, b, free, same => by
    simp only [scalarWindows, Bool.or_eq_false_iff] at free
    simp only [evalScalar]
    rw [evalOptional_of_sameRow arg free.1.1 same, evalWhens_of_sameRow whens _ free.1.2 same,
      evalOptional_of_sameRow default free.2 same]
  | .arithmetic left _ right, a, b, free, same => by
    simp only [scalarWindows, Bool.or_eq_false_iff] at free
    simp only [evalScalar]
    rw [evalScalar_of_sameRow left free.1 same, evalScalar_of_sameRow right free.2 same]
  | .array elements, a, b, free, same => by
    simp only [evalScalar]
    rw [evalScalars_of_sameRow elements free same]
  | .typeCast e _, a, b, free, same => by
    simp only [evalScalar]
    rw [evalScalar_of_sameRow e free same]

theorem evalOptional_of_sameRow : ∀ (e : Option ResolvedScalarExpr) {a b : Scope V},
    optionalWindows e = false → SameRow a b → evalOptional pg db e a = evalOptional pg db e b
  | none, _, _, _, _ => rfl
  | some e, a, b, free, same => by
    simp only [evalOptional]
    rw [evalScalar_of_sameRow e free same]

theorem evalScalars_of_sameRow : ∀ (exprs : List ResolvedScalarExpr) {a b : Scope V},
    scalarsWindow exprs = false → SameRow a b →
      evalScalars pg db exprs a = evalScalars pg db exprs b
  | [], _, _, _, _ => rfl
  | expr :: exprs, a, b, free, same => by
    simp only [scalarsWindow, Bool.or_eq_false_iff] at free
    simp only [evalScalars]
    rw [evalScalar_of_sameRow expr free.1 same, evalScalars_of_sameRow exprs free.2 same]

theorem evalCall_of_sameRow : ∀ (call : ResolvedFunctionCall) {a b : Scope V},
    callWindows call = false → SameRow a b → evalCall pg db call a = evalCall pg db call b
  | ⟨name, args, aggStar, aggDistinct, aggOrder, aggFilter, some spec⟩, a, b, free, _ => by
    simp [callWindows] at free
  | ⟨name, args, aggStar, aggDistinct, aggOrder, aggFilter, none⟩, a, b, free, same => by
    simp only [callWindows, Bool.or_eq_false_iff] at free
    simp only [evalCall]
    -- an aggregate runs over the rows of the group, a plain function over its arguments
    rw [evalScalars_of_sameRow args free.2 same, Scope.members, Scope.members, same.group]

theorem evalWhens_of_sameRow : ∀ (whens : List ResolvedCaseWhen) (subject : Option (Option V))
    {a b : Scope V}, whensWindow whens = false → SameRow a b →
      evalWhens pg db whens subject a = evalWhens pg db whens subject b
  | [], _, _, _, _, _ => rfl
  | ⟨condition, result⟩ :: whens, subject, a, b, free, same => by
    simp only [whensWindow, Bool.or_eq_false_iff] at free
    simp only [evalWhens]
    rw [evalWhere_of_sameRow condition free.1.1 same, evalScalar_of_sameRow result free.1.2 same,
      evalWhens_of_sameRow whens subject free.2 same]

theorem evalWhere_of_sameRow : ∀ (e : ResolvedWhereExpr) {a b : Scope V},
    whereWindows e = false → SameRow a b → evalWhere pg db e a = evalWhere pg db e b
  | .scalar e, a, b, free, same => by
    simp only [evalWhere]
    exact evalScalar_of_sameRow e free same
  | .unary _ e, a, b, free, same => by
    simp only [evalWhere]
    rw [evalWhere_of_sameRow e free same]
  | .binary _ lexpr rexpr, a, b, free, same => by
    simp only [whereWindows, Bool.or_eq_false_iff] at free
    simp only [evalWhere]
    rw [evalWhere_of_sameRow lexpr free.1 same, evalWhere_of_sameRow rexpr free.2 same]
  | .multi _ exprs, a, b, free, same => by
    simp only [evalWhere]
    rw [evalWheres_of_sameRow exprs free same]
  | .subquery q _ testExpr _, a, b, free, same => by
    simp only [evalWhere]
    rw [evalOptional_of_sameRow testExpr free same, same.env]

theorem evalWheres_of_sameRow : ∀ (exprs : List ResolvedWhereExpr) {a b : Scope V},
    wheresWindow exprs = false → SameRow a b → evalWheres pg db exprs a = evalWheres pg db exprs b
  | [], _, _, _, _ => rfl
  | expr :: exprs, a, b, free, same => by
    simp only [wheresWindow, Bool.or_eq_false_iff] at free
    simp only [evalWheres]
    rw [evalWhere_of_sameRow expr free.1 same, evalWheres_of_sameRow exprs free.2 same]

end

theorem evalColumns_of_sameRow {cols : List ResolvedSelectColumn} {a b : Scope V}
    (free : columnsWindow cols = false) (same : SameRow a b) :
    evalColumns pg db cols a = evalColumns pg db cols b := by
  induction cols with
  | nil => rfl
  | cons c cols ih =>
    obtain ⟨e, aliasName⟩ := c
    simp only [columnsWindow, List.any_cons, Bool.or_eq_false_iff] at free
    simp only [evalColumns]
    rw [evalScalar_of_sameRow e free.1 same, ih free.2]

theorem evalOrder_of_sameRow {clauses : List ResolvedOrderByClause} {a b : Scope V}
    (free : ordersWindow clauses = false) (same : SameRow a b) :
    evalOrder pg db clauses a = evalOrder pg db clauses b := by
  induction clauses with
  | nil => rfl
  | cons cl clauses ih =>
    obtain ⟨e, direction, nullOrder⟩ := cl
    simp only [ordersWindow, List.any_cons, Bool.or_eq_false_iff] at free
    simp only [evalOrder]
    rw [evalScalar_of_sameRow e free.1 same, ih free.2]

end Peers

end PgCache.Sql.Windows
