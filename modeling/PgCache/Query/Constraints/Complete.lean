/- source: query/constraints/extract.rs
   digest: What the completeness flag of the constraint analysis says about a WHERE clause: the
     recorded constraints carry every conjunct but those the analysers leave out in silence. -/
import PgCache.Query.Constraints.Propagate
import PgCache.Sql.Frames

set_option autoImplicit false

namespace PgCache.Query.Constraints.Complete

open Catalog Data.Kleene Literal Resolved.Ast Resolved.Traverse Cast Range Extract Propagate
open Sql.Semantics Sql.Congruence Sql.Frames List
open Option hiding map_map pure_def

/-! ### A comparison as it is written -/

section Written

private theorem strip_cases (e : ResolvedScalarExpr) : resolvedStripIdentityCast e = e ∨
      ∃ column target, e = .typeCast (.column column) target ∧
        castTargetIsIdentityOn target column.columnMetadata.dataType = true ∧
        resolvedStripIdentityCast e = .column column := by
  unfold resolvedStripIdentityCast
  split
  · rename_i column target
    split
    · exact .inr ⟨column, target, rfl, by assumption, rfl⟩
    · exact .inl rfl
  · exact .inl rfl

def coercion (dataType : DataType) (target : Option CastTarget) : Option CastTarget :=
  target.filter fun target => !castTargetIsIdentityOn target dataType

private theorem columnTarget_strip (e : ResolvedScalarExpr) :
    columnTarget (resolvedStripIdentityCast e) = (columnTarget e).map fun (column, target) =>
        (column, coercion column.columnMetadata.dataType target) := by
  unfold resolvedStripIdentityCast
  split
  · rename_i column target
    split <;> rename_i identity <;> simp [columnTarget, coercion, Option.filter, identity]
  · rename_i o
    unfold columnTarget
    split
    · simp [coercion]
    · rename_i column target
      exact absurd rfl (o column target)
    · rfl

private theorem strip_eq_literal {e : ResolvedScalarExpr} {value : LiteralValue} :
    resolvedStripIdentityCast e = .literal value ↔ e = .literal value := by
  rcases strip_cases e with same | ⟨column, target, rfl, -, stripped⟩
  · rw [same]
  · simp [stripped]

private theorem leaf_literal {e : ResolvedWhereExpr} {value : LiteralValue}
    (leaf : resolvedWhereScalarLeaf e = some (.literal value)) :
    e = .scalar (.literal value) := by
  cases e with
  | scalar e => rw [strip_eq_literal.mp (some.inj leaf)]
  | _ => simp [resolvedWhereScalarLeaf] at leaf

variable {column : ResolvedColumnNode}

theorem leaf_column {e : ResolvedWhereExpr} {target : Option CastTarget}
    (leaf : (resolvedWhereScalarLeaf e).bind columnTarget = some (column, target)) :
    ∃ written cast, e = .scalar written ∧ columnTarget written = some (column, cast) ∧
      target = coercion column.columnMetadata.dataType cast := by
  cases e with
  | scalar e =>
    simp only [resolvedWhereScalarLeaf, bind_some, columnTarget_strip,
      map_eq_some_iff, Prod.exists, Prod.mk.injEq] at leaf
    obtain ⟨column', cast, written, rfl, rfl⟩ := leaf
    exact ⟨e, cast, rfl, written, rfl⟩
  | _ => simp [resolvedWhereScalarLeaf] at leaf

theorem columnTarget_cases {e : ResolvedScalarExpr}
    {target : Option CastTarget} (hf : columnTarget e = some (column, target)) :
    e = .column column ∧ target = none ∨
      ∃ cast, e = .typeCast (.column column) cast ∧ target = some cast := by
  unfold columnTarget at hf
  split at hf
  · obtain ⟨rfl, rfl⟩ := Prod.mk.inj (some.inj hf)
    exact .inl ⟨rfl, rfl⟩
  · rename_i cast
    obtain ⟨rfl, rfl⟩ := Prod.mk.inj (some.inj hf)
    exact .inr ⟨cast, rfl, rfl⟩
  · simp at hf

theorem canonicalize_cases {op : BinaryOp} {lexpr rexpr : ResolvedWhereExpr}
    {cmp : ColumnComparison}
    (canonical : canonicalizeComparison op lexpr rexpr = some cmp) :
    ∃ written cast, columnTarget written = some (cmp.column, cast) ∧
      cmp.target = coercion cmp.column.columnMetadata.dataType cast ∧
      (lexpr = .scalar written ∧ rexpr = .scalar (.literal cmp.value) ∧ op = cmp.op ∨
        lexpr = .scalar (.literal cmp.value) ∧ rexpr = .scalar written ∧
          op.opFlip = some cmp.op) := by
  unfold canonicalizeComparison at canonical
  simp only at canonical
  split at canonical
  · rename_i column target value left right
    obtain ⟨written, cast, rfl, leaf, rfl⟩ := leaf_column left
    obtain rfl := leaf_literal right
    cases canonical
    exact ⟨written, cast, leaf, rfl, .inl ⟨rfl, rfl, rfl⟩⟩
  · split at canonical
    · rename_i value column target left right
      obtain ⟨written, cast, rfl, leaf, rfl⟩ := leaf_column right
      obtain rfl := leaf_literal left
      obtain ⟨flipped, flip, rfl⟩ := map_eq_some_iff.mp canonical
      exact ⟨written, cast, leaf, rfl, .inr ⟨rfl, rfl, flip⟩⟩
    · simp at canonical

def castValue {V : Type} (pg : Pg V) (cast : Option CastTarget) (value : Option V) : Option V :=
  match cast with
  | none => value
  | some target => value.bind (pg.cast target)

theorem evalScalar_columnTarget {V : Type} [DecidableEq V] (pg : Pg V) (db : Database V)
    (env : Env V) {written : ResolvedScalarExpr} {cast : Option CastTarget}
    (leaf : columnTarget written = some (column, cast)) :
    evalScalar pg db written (rowScope env) = castValue pg cast (env column) ∧
      column ∈ scalarFree written := by
  rcases columnTarget_cases leaf with ⟨rfl, rfl⟩ | ⟨target, rfl, rfl⟩
  · simp [evalScalar, castValue, rowScope, scalarFree]
  · simp [evalScalar, castValue, rowScope, scalarFree]

end Written

theorem whereFree_conjunctsSplit : ∀ (e : ResolvedWhereExpr),
    ∀ conjunct ∈ conjunctsSplit e, whereFree conjunct ⊆ whereFree e
  | .binary op lexpr rexpr => by
    by_cases conjunction : op = .and
    · subst conjunction
      intro conjunct hl
      rcases mem_append.mp hl with hl | hl
      · exact subset_append_of_subset_left _ (whereFree_conjunctsSplit lexpr conjunct hl)
      · exact subset_append_of_subset_right _ (whereFree_conjunctsSplit rexpr conjunct hl)
    · have single : conjunctsSplit (.binary op lexpr rexpr) = [.binary op lexpr rexpr] := by
        cases op <;> first | rfl | exact absurd rfl conjunction
      simp [single]
  | .scalar _ => by simp [conjunctsSplit]
  | .unary _ _ => by simp [conjunctsSplit]
  | .multi _ _ => by simp [conjunctsSplit]
  | .subquery .. => by simp [conjunctsSplit]

/-! ### The collector only grows -/

structure Extends (before after : ConstraintCollector) : Prop where
  constraints : before.constraints ⊆ after.constraints
  complete : after.complete = true → before.complete = true

variable (c : ConstraintCollector)

theorem Extends.refl : Extends c c := ⟨List.Subset.refl _, id⟩

theorem Extends.trans {a b c : ConstraintCollector} (ab : Extends a b) (bc : Extends b c) :
    Extends a c :=
  ⟨List.Subset.trans ab.constraints bc.constraints,
    fun complete => ab.complete (bc.complete complete)⟩

theorem extends_constrain (constraint : ColumnConstraint) : Extends c (c.constrain constraint) :=
  ⟨subset_insertNew _ _ _, id⟩

theorem extends_equate (equiv : ColumnEquivalence) : Extends c (c.equate equiv) :=
  ⟨List.Subset.refl _, id⟩

theorem extends_giveUp : Extends c c.giveUp :=
  ⟨List.Subset.refl _, fun complete => absurd complete (by simp [ConstraintCollector.giveUp])⟩

theorem extends_comparisonAnalyze (op : BinaryOp) (lexpr rexpr : ResolvedWhereExpr) :
    Extends c (comparisonAnalyze c op lexpr rexpr) := by
  unfold comparisonAnalyze
  split
  · exact extends_constrain c _
  · split
    · exact extends_constrain c _
    · exact extends_giveUp c
  · split
    · split
      · exact extends_equate c _
      · exact extends_giveUp c
    · exact extends_giveUp c

theorem extends_notInValues (column : ResolvedColumnNode) (exprs : List ResolvedWhereExpr)
    (c : ConstraintCollector) : Extends c (notInValues column c exprs) := by
  fun_induction notInValues column c exprs with
  | case1 => exact Extends.refl _
  | case2 c v rest comparable ih => exact (extends_constrain c _).trans ih
  | case3 => exact Extends.refl _

theorem extends_multiAnalyze (op : MultiOp) (exprs : List ResolvedWhereExpr) :
    Extends c (multiAnalyze c op exprs) := by
  have between : Extends c (betweenConstraintsExtract c op exprs) := by
    unfold betweenConstraintsExtract
    split
    · simp only
      split
      · exact (extends_constrain c _).trans (extends_constrain _ _)
      · exact Extends.refl c
    · exact Extends.refl c
  have isIn : Extends c (inConstraintsExtract c exprs) := by
    unfold inConstraintsExtract
    split
    · split
      · split
        · exact Extends.refl c
        · exact extends_constrain c _
      · exact Extends.refl c
    · exact Extends.refl c
  have notIn : Extends c (notInConstraintsExtract c exprs) := by
    unfold notInConstraintsExtract
    split
    · exact extends_notInValues _ _ c
    · exact Extends.refl c
  have anyEqual : Extends c (anyEqArrayConstraintsExtract c exprs) := by
    unfold anyEqArrayConstraintsExtract
    split
    · simp only
      split
      · split
        · exact extends_giveUp c
        · exact extends_constrain c _
      · exact extends_giveUp c
    · exact extends_giveUp c
  unfold multiAnalyze
  split
  · exact between
  · exact between
  · exact isIn
  · exact notIn
  · exact anyEqual
  all_goals exact extends_giveUp c

theorem extends_whereAnalyze : ∀ (e : ResolvedWhereExpr) (c : ConstraintCollector),
    Extends c (whereAnalyze c e)
  | .binary op lexpr rexpr, c => by
    rw [whereAnalyze]
    split
    · exact extends_comparisonAnalyze c op lexpr rexpr
    · split
      · exact (extends_whereAnalyze lexpr c).trans (extends_whereAnalyze rexpr _)
      · exact extends_giveUp c
  | .multi op exprs, c => extends_multiAnalyze c op exprs
  | .scalar _, c => extends_giveUp c
  | .unary _ _, c => extends_giveUp c
  | .subquery .., c => extends_giveUp c

/-! ### What a recorded constraint says of a row -/

section Meaning

variable {V : Type} {constraint : ColumnConstraint}

def RowSatisfies (pg : Pg V) (row : Row V) : TableConstraint → Prop
  | .comparison column op value =>
    pg.comparison op (Row.value row column) (pg.literal value) = some true
  | .castComparison column cast op value =>
    pg.comparison op ((Row.value row column).bind (pg.cast cast)) (pg.literal value) = some true
  | .anyOf column values =>
    ∃ value ∈ values, pg.comparison .equal (Row.value row column) (pg.literal value) = some true

/-- What a server documents of comparisons and arrays. -/
structure Reads (pg : Pg V) : Prop where
  commute : ∀ op flipped, op.opFlip = some flipped → ∀ a b,
    pg.compare op a b = pg.compare flipped b a
  notEqual : ∀ a b, pg.compare .notEqual a b = !pg.compare .equal a b
  arrayLiteral : ∀ values cast, ∃ array, pg.literal (.array values cast) = some array ∧
    pg.elements array = values.map pg.literal
  array : ∀ values, ∃ array, pg.array values = some array ∧ pg.elements array = values

def boundOperands : List ResolvedWhereExpr → Option (LiteralValue × LiteralValue)
  | [.scalar (.column _), .scalar (.literal low), .scalar (.literal high)] => some (low, high)
  | _ => none

def memberOperands : List ResolvedWhereExpr → Bool
  | .scalar (.column _) :: values =>
    (literalOperands values).any fun literals => !literals.any literalValueIsIncomparable
  | _ => false

def integerAsText (target : CastTarget) (dataType : DataType) : Bool :=
  target = .text && dataType ∈ [.int2, .int4, .int8]

def readsAsText : ResolvedWhereExpr → Bool
  | .scalar (.typeCast (.column column) target) =>
    integerAsText target column.columnMetadata.dataType
  | _ => false

def isLiteral : ResolvedWhereExpr → Bool
  | .scalar (.literal _) => true
  | _ => false

def isColumn (e : ResolvedWhereExpr) : Bool :=
  match resolvedWhereScalarLeaf e with
  | some (.column _) => true
  | _ => false

/-- The conjuncts of which the analysers lose something in silence: an equality of two columns, a
printed integer compared with a literal, and a BETWEEN, IN or NOT IN that is not one of a column
among literals they can compare. -/
def dropped : ResolvedWhereExpr → Bool
  | .binary op lexpr rexpr =>
    isComparison op && (readsAsText lexpr && isLiteral rexpr || isLiteral lexpr && readsAsText rexpr
      || op = .equal && isColumn lexpr && isColumn rexpr)
  | .multi op exprs =>
    match op with
    | .between => (boundOperands exprs).isNone
    | .betweenSymmetric =>
      !(boundOperands exprs).any fun bounds => (literalValueOrder bounds.1 bounds.2).isSome
    | .isIn | .notIn => !memberOperands exprs
    | _ => false
  | .scalar _ | .unary _ _ | .subquery .. => false

def Kept (c : ConstraintCollector) (constraint : ColumnConstraint) : Prop :=
  ∃ other ∈ c.constraints,
    other.toTable = constraint.toTable ∧ other.column.table = constraint.column.table

theorem Kept.mono {before after : ConstraintCollector} (grows : Extends before after) (kept :
    Kept before constraint) : Kept after constraint := by
  obtain ⟨o, hm, same⟩ := kept
  exact ⟨o, grows.constraints hm, same⟩

theorem toTable_of_same {a b : ColumnConstraint} (same : a.same b = true) :
    b.toTable = a.toTable ∧ b.column.table = a.column.table := by
  simp only [ColumnConstraint.same, Bool.and_eq_true, decide_eq_true_eq,
    ResolvedColumnNode.same] at same
  obtain ⟨⟨_, table, column, _⟩, rest⟩ := same
  refine ⟨?_, table.symm⟩
  cases a <;> cases b <;>
    simp_all [ColumnConstraint.withColumn, ColumnConstraint.toTable, ColumnConstraint.column]

variable (c : ConstraintCollector) {exprs : List ResolvedWhereExpr} {literals : List LiteralValue}
  {column : ResolvedColumnNode} {op : BinaryOp}

theorem kept_constrain (constraint : ColumnConstraint) :
    Kept (c.constrain constraint) constraint := by
  unfold ConstraintCollector.constrain insertNew Kept
  simp only
  split
  · rename_i hp
    obtain ⟨o, hm, same⟩ := any_eq_true.mp hp
    exact ⟨o, hm, toTable_of_same same⟩
  · exact ⟨constraint, by simp, rfl, rfl⟩

/-! ### The lists of literals -/

theorem literalOperands_eq (read : literalOperands exprs = some literals) :
    exprs = literals.map fun v => .scalar (.literal v) := by
  induction exprs generalizing literals with
  | nil =>
    cases read
    rfl
  | cons e exprs ih =>
    simp only [literalOperands, mapM_cons, bind_eq_bind, bind_eq_some_iff,
      Option.pure_def, some.injEq] at read
    obtain ⟨v, first, rest, os, rfl⟩ := read
    split at first
    · cases first
      rw [map_cons, ← ih os]
    · cases first

theorem mem_dedupRuns (values : List LiteralValue) (value : LiteralValue) :
    value ∈ dedupRuns values ↔ value ∈ values := by
  fun_induction dedupRuns values with
  | case1 first rest ih =>
    rw [ih]
    simp
  | case2 a b rest differs ih =>
    rw [mem_cons, ih, mem_cons (a := value) (b := a)]
  | case3 => rfl

theorem mem_valueSet (values : List LiteralValue) (value : LiteralValue) :
    value ∈ valueSet values ↔ value ∈ values := by
  rw [valueSet, mem_dedupRuns, mem_insertionSort]

theorem comparison_commute {pg : Pg V} (reads : Reads pg) {flipped : BinaryOp}
    (flip : op.opFlip = some flipped) (a b : Option V) :
    pg.comparison op a b = pg.comparison flipped b a := by
  cases a <;> cases b <;> simp [Pg.comparison, reads.commute op flipped flip]

theorem binary_comparison {pg : Pg V} (compares : isComparison op = true)
    (a b : Option V) : pg.binary op a b = pg.ofTruth (pg.comparison op a b) := by
  cases op <;> first | rfl | cases compares

theorem comparison_equal_false {pg : Pg V} (reads : Reads pg) {a b : Option V}
    (differs : pg.comparison .notEqual a b = some true) :
    pg.comparison .equal a b = some false := by
  cases a <;> cases b <;> simp_all [Pg.comparison, reads.notEqual]

variable [DecidableEq V] (pg : Pg V) (db : Database V) (scope : Scope V)

theorem evalWheres_literals (literals : List LiteralValue) :
    evalWheres pg db (literals.map fun v => .scalar (.literal v)) scope =
      literals.map pg.literal := by
  induction literals with
  | nil => rfl
  | cons l literals ih => simp [evalWheres, evalWhere, evalScalar, ih]

theorem evalScalars_literals {exprs : List ResolvedScalarExpr}
    (read : literalOperands (exprs.map .scalar) = some literals) :
    evalScalars pg db exprs scope = literals.map pg.literal := by
  have shape := literalOperands_eq read
  clear read
  induction exprs generalizing literals with
  | nil =>
    cases literals with
    | nil => rfl
    | cons => simp at shape
  | cons e exprs ih =>
    cases literals with
    | nil => simp at shape
    | cons l literals =>
      simp only [map_cons, cons.injEq, ResolvedWhereExpr.scalar.injEq] at shape
      obtain ⟨rfl, rest⟩ := shape
      simp [evalScalars, evalScalar, ih rest]

/-! ### Each recorded conjunct -/

variable {pg db} {row : Row V} {env : Env V} {conjunct : ResolvedWhereExpr}

def Covered (pg : Pg V) (db : Database V) (row : Row V) (env : Env V) (conjunct : ResolvedWhereExpr)
    (c : ConstraintCollector) : Prop :=
  ∃ constraints : List ColumnConstraint,
    (∀ constraint ∈ constraints, Kept c constraint ∧ constraint.column ∈ whereFree conjunct) ∧
    ((∀ constraint ∈ constraints, RowSatisfies pg row constraint.toTable) →
      Holds pg db conjunct (rowScope env))

theorem Covered.mono {before after : ConstraintCollector}
    (grows : Extends before after) (covered : Covered pg db row env conjunct before) :
    Covered pg db row env conjunct after := by
  obtain ⟨cs, kept, implies⟩ := covered
  exact ⟨cs, fun constraint hm =>
    ⟨(kept constraint hm).1.mono grows, (kept constraint hm).2⟩, implies⟩

def ReadsRow (row : Row V) (env : Env V) (conjunct : ResolvedWhereExpr) : Prop :=
  ∀ column ∈ whereFree conjunct, env column = Row.value row column.column

/-- The value of a column is the same after a cast to its own type, or from varchar to text. -/
def OwnCasts (pg : Pg V) (row : Row V) (column : ResolvedColumnNode) : Prop :=
  ∀ target, castTargetIsIdentityOn target column.columnMetadata.dataType = true →
    integerAsText target column.columnMetadata.dataType = false →
    (Row.value row column.column).bind (pg.cast target) = Row.value row column.column

omit [DecidableEq V] in
theorem OwnCasts.castValue_eq {column : ResolvedColumnNode} (casts : OwnCasts pg row column)
    {written : ResolvedScalarExpr} {cast : Option CastTarget}
    (hf : columnTarget written = some (column, cast))
    (unprinted : readsAsText (.scalar written) = false) :
    castValue pg cast (Row.value row column.column) =
      castValue pg (coercion column.columnMetadata.dataType cast)
        (Row.value row column.column) := by
  rcases columnTarget_cases hf with ⟨rfl, rfl⟩ | ⟨target, rfl, rfl⟩
  · rfl
  · by_cases identity : castTargetIsIdentityOn target column.columnMetadata.dataType = true
    · have stripped : coercion column.columnMetadata.dataType (some target) = none := by
        simp [coercion, Option.filter, identity]
      rw [stripped]
      exact casts target identity unprinted
    · simp [coercion, Option.filter, identity]

theorem covered_comparison (reads : Reads pg) {lexpr rexpr : ResolvedWhereExpr}
    (compares : isComparison op = true) (carried : dropped (.binary op lexpr rexpr) = false)
    (rowRead : ReadsRow row env (.binary op lexpr rexpr))
    (casts : ∀ column ∈ whereFree (.binary op lexpr rexpr), OwnCasts pg row column)
    (c : ConstraintCollector) (complete : (comparisonAnalyze c op lexpr rexpr).complete = true) :
    Covered pg db row env (.binary op lexpr rexpr) (comparisonAnalyze c op lexpr rexpr) := by
  simp only [dropped, compares, Bool.true_and, Bool.or_eq_false_iff] at carried
  obtain ⟨⟨leftRead, rightRead⟩, unequated⟩ := carried
  cases canonical : canonicalizeComparison op lexpr rexpr with
  | none =>
    -- what is left is an equality of two columns, or the flag is cleared
    unfold comparisonAnalyze at complete
    rw [canonical] at complete
    simp only at complete
    split at complete
    · rename_i left right
      split at complete
      · rename_i equal
        simp [isColumn, left, right, equal] at unequated
      · cases complete
    · cases complete
  | some comparison =>
  obtain ⟨column, tg, oriented, l⟩ := comparison
  obtain ⟨written, cast, leaf, remains, sides⟩ := canonicalize_cases canonical
  obtain ⟨v, hl⟩ := evalScalar_columnTarget pg db env leaf
  have hm : column ∈ whereFree (.binary op lexpr rexpr) := by
    rcases sides with ⟨rfl, rfl, _⟩ | ⟨rfl, rfl, _⟩ <;> simp [whereFree, hl]
  have unprinted : readsAsText (.scalar written) = false := by
    rcases sides with ⟨rfl, rfl, _⟩ | ⟨rfl, rfl, _⟩
    · simpa [isLiteral] using leftRead
    · simpa [isLiteral] using rightRead
  have same := (casts column hm).castValue_eq leaf unprinted
  rw [← remains] at same
  have h (met : pg.comparison oriented (castValue pg tg (Row.value row column.column))
      (pg.literal l) = some true) :
      Holds pg db (.binary op lexpr rexpr) (rowScope env) := by
    rw [← same, ← rowRead _ hm] at met
    unfold Holds
    rcases sides with ⟨rfl, rfl, rfl⟩ | ⟨rfl, rfl, flip⟩
    · simp only [evalWhere, v, evalScalar]
      rw [binary_comparison compares, Pg.truthOf_ofTruth]
      exact met
    · simp only [evalWhere, v, evalScalar]
      rw [binary_comparison compares, Pg.truthOf_ofTruth, comparison_commute reads flip]
      exact met
  unfold comparisonAnalyze at complete ⊢
  rw [canonical] at complete ⊢
  cases tg with
  | none =>
    refine ⟨[.comparison column oriented l], ?_, ?_⟩
    · simp only [forall_mem_singleton]
      exact ⟨kept_constrain c _, hm⟩
    · simp only [forall_mem_singleton]
      exact h
  | some cast =>
    simp only at complete ⊢
    split at complete
    · rename_i supported
      rw [if_pos supported]
      refine ⟨[.castComparison column cast oriented l], ?_, ?_⟩
      · simp only [forall_mem_singleton]
        exact ⟨kept_constrain c _, hm⟩
      · simp only [forall_mem_singleton]
        exact h
    · cases complete

private theorem covered_bounds {op : MultiOp} {low high : LiteralValue}
    (hm : column ∈ whereFree (.multi op exprs))
    (h : pg.within (Row.value row column.column) (pg.literal low) (pg.literal high) =
      some true → Holds pg db (.multi op exprs) (rowScope env)) :
    Covered pg db row env (.multi op exprs)
      ((c.constrain (.comparison column .greaterThanOrEqual low)).constrain
        (.comparison column .lessThanOrEqual high)) := by
  refine ⟨[.comparison column .greaterThanOrEqual low, .comparison column .lessThanOrEqual high],
    ?_, ?_⟩
  · simp only [forall_mem_cons, not_mem_nil, false_imp_iff, implies_true, and_true]
    exact ⟨⟨(kept_constrain c _).mono (extends_constrain _ _), hm⟩, kept_constrain _ _, hm⟩
  · simp only [forall_mem_cons, not_mem_nil, false_imp_iff, implies_true, and_true]
    rintro ⟨above, under⟩
    exact h (and3_eq_true.mpr ⟨above, under⟩)

private theorem boundOperands_eq {low high : LiteralValue}
    (read : boundOperands exprs = some (low, high)) : ∃ column,
      exprs = [.scalar (.column column), .scalar (.literal low), .scalar (.literal high)] := by
  unfold boundOperands at read
  split at read
  · cases read
    exact ⟨_, rfl⟩
  · cases read

private theorem holds_between {column : ResolvedColumnNode} {op : MultiOp} {low high : LiteralValue}
    (rowRead : ReadsRow row env
      (.multi op [.scalar (.column column), .scalar (.literal low), .scalar (.literal high)])) :
    column ∈ whereFree (.multi op
      [.scalar (.column column), .scalar (.literal low), .scalar (.literal high)]) ∧
    evalWheres pg db [.scalar (.column column), .scalar (.literal low), .scalar (.literal high)]
      (rowScope env) = [Row.value row column.column, pg.literal low, pg.literal high] := by
  have hm : column ∈ whereFree (.multi op
      [.scalar (.column column), .scalar (.literal low), .scalar (.literal high)]) := by
    simp [whereFree, wheresFree, PgCache.Sql.Congruence.scalarFree]
  refine ⟨hm, ?_⟩
  simp only [evalWheres, evalWhere, evalScalar, rowScope, rowRead column hm]

theorem covered_between (carried : dropped (.multi .between exprs) = false)
    (rowRead : ReadsRow row env (.multi .between exprs)) (c : ConstraintCollector) :
    Covered pg db row env (.multi .between exprs) (betweenConstraintsExtract c .between exprs) := by
  obtain ⟨⟨low, high⟩, read⟩ := isSome_iff_exists.mp (isNone_eq_false_iff.mp carried)
  obtain ⟨column, rfl⟩ := boundOperands_eq read
  obtain ⟨hm, operands⟩ := @holds_between V _ pg db row env _ _ _ _ rowRead
  refine covered_bounds c hm fun met => ?_
  simp only [Holds, evalWhere, operands, Pg.multi, Pg.truthOf_ofTruth]
  exact met

theorem covered_betweenSymmetric (carried : dropped (.multi .betweenSymmetric exprs) = false)
    (rowRead : ReadsRow row env (.multi .betweenSymmetric exprs)) (c : ConstraintCollector) :
    Covered pg db row env (.multi .betweenSymmetric exprs)
      (betweenConstraintsExtract c .betweenSymmetric exprs) := by
  obtain ⟨⟨low, high⟩, read, ho⟩ := (any_eq_true _ _).mp (Bool.not_eq_eq_eq_not.mp carried)
  obtain ⟨column, rfl⟩ := boundOperands_eq read
  obtain ⟨order, hk⟩ := isSome_iff_exists.mp ho
  obtain ⟨hm, operands⟩ := @holds_between V _ pg db row env _ _ _ _ rowRead
  have either (met : pg.within (Row.value row column.column) (pg.literal low)
        (pg.literal high) = some true ∨
      pg.within (Row.value row column.column) (pg.literal high) (pg.literal low) = some true) :
      Holds pg db (.multi .betweenSymmetric
        [.scalar (.column column), .scalar (.literal low), .scalar (.literal high)])
        (rowScope env) := by
    simp only [Holds, evalWhere, operands, Pg.multi, Pg.truthOf_ofTruth]
    exact or3_eq_true.mpr met
  cases order with
  | gt =>
    simp only [betweenConstraintsExtract, hk, if_true]
    exact covered_bounds c hm fun met => either (Or.inr met)
  | lt | eq =>
    simp only [betweenConstraintsExtract, hk, if_true]
    exact covered_bounds c hm fun met => either (Or.inl met)

private theorem memberOperands_eq (carried : memberOperands exprs = true) : ∃ column literals,
      exprs = .scalar (.column column) :: literals.map (fun v => .scalar (.literal v)) ∧
      literalOperands (literals.map fun v => .scalar (.literal v)) = some literals ∧
      literals.any literalValueIsIncomparable = false := by
  unfold memberOperands at carried
  split at carried
  · rename_i column vs
    obtain ⟨literals, read, comparable⟩ := (any_eq_true _ _).mp carried
    have shape := literalOperands_eq read
    subst shape
    exact ⟨column, literals, rfl, read, by simpa using comparable⟩
  · cases carried

private theorem mem_whereFree_first (op : MultiOp) (column : ResolvedColumnNode)
    (rest : List ResolvedWhereExpr) :
    column ∈ whereFree (.multi op (.scalar (.column column) :: rest)) := by
  simp [whereFree, wheresFree, PgCache.Sql.Congruence.scalarFree]

private theorem covered_set (inside : column ∈ whereFree conjunct)
    (holds : any3 (Multiset.ofList ((literals.map pg.literal).map
      (pg.comparison .equal (Row.value row column.column)))) = some true →
        Holds pg db conjunct (rowScope env)) :
    Covered pg db row env conjunct (c.constrain (.inSet column (valueSet literals))) := by
  refine ⟨[.inSet column (valueSet literals)], ?_, ?_⟩
  · simp only [forall_mem_singleton]
    exact ⟨kept_constrain c _, inside⟩
  · simp only [forall_mem_singleton]
    rintro ⟨value, member, met⟩
    refine holds (any3_eq_true.mpr ?_)
    rw [Multiset.mem_coe, map_map]
    exact mem_map.mpr ⟨value, (mem_valueSet literals value).mp member, met⟩

theorem covered_in (carried : dropped (.multi .isIn exprs) = false)
    (rowRead : ReadsRow row env (.multi .isIn exprs)) (c : ConstraintCollector) :
    Covered pg db row env (.multi .isIn exprs) (inConstraintsExtract c exprs) := by
  obtain ⟨column, literals, rfl, read, comparable⟩ :=
    memberOperands_eq (Bool.not_eq_eq_eq_not.mp carried)
  have hm := mem_whereFree_first .isIn column (literals.map fun v => .scalar (.literal v))
  have v := rowRead column hm
  simp only [inConstraintsExtract, read, comparable, Bool.false_eq_true, if_false]
  refine covered_set c hm fun met => ?_
  rw [← v] at met
  simp only [Holds, evalWhere, evalWheres, evalWheres_literals, evalScalar, Pg.multi, rowScope,
    Pg.truthOf_ofTruth]
  exact met

private theorem kept_notInValues (comparable : literals.any literalValueIsIncomparable = false)
    (c : ConstraintCollector) :
    ∀ v ∈ literals, Kept (notInValues column c (literals.map fun v => .scalar (.literal v)))
        (.comparison column .notEqual v) := by
  induction literals generalizing c with
  | nil => simp
  | cons first literals ih =>
    simp only [any_cons, Bool.or_eq_false_iff] at comparable
    intro v hm
    simp only [map_cons, notInValues, comparable.1, Bool.false_eq_true, if_false]
    rcases mem_cons.mp hm with rfl | hm
    · exact (kept_constrain c _).mono (extends_notInValues column _ _)
    · exact ih comparable.2 _ v hm

theorem covered_notIn (reads : Reads pg) (carried : dropped (.multi .notIn exprs) = false)
    (rowRead : ReadsRow row env (.multi .notIn exprs)) (c : ConstraintCollector) :
    Covered pg db row env (.multi .notIn exprs) (notInConstraintsExtract c exprs) := by
  obtain ⟨column, literals, rfl, read, comparable⟩ :=
    memberOperands_eq (Bool.not_eq_eq_eq_not.mp carried)
  have hm := mem_whereFree_first .notIn column (literals.map fun v => .scalar (.literal v))
  have v := rowRead column hm
  refine ⟨literals.map fun v => .comparison column .notEqual v, ?_, ?_⟩
  · intro constraint hl
    obtain ⟨l, mem, rfl⟩ := mem_map.mp hl
    exact ⟨kept_notInValues comparable c l mem, hm⟩
  · intro met
    simp only [Holds, evalWhere, evalWheres, evalWheres_literals, evalScalar, Pg.multi, rowScope,
      Pg.truthOf_ofTruth, not3_eq_true, any3_eq_false, v]
    intro truth hl
    rw [Multiset.mem_coe, map_map] at hl
    obtain ⟨l, mem, rfl⟩ := mem_map.mp hl
    exact comparison_equal_false reads (met _ (mem_map_of_mem mem))

theorem covered_anyEqual (reads : Reads pg)
    (rowRead : ReadsRow row env (.multi (.any .equal) exprs)) (c : ConstraintCollector)
    (complete : (anyEqArrayConstraintsExtract c exprs).complete = true) :
    Covered pg db row env (.multi (.any .equal) exprs) (anyEqArrayConstraintsExtract c exprs) := by
  unfold anyEqArrayConstraintsExtract at complete ⊢
  split at complete
  · rename_i column rhs
    have hm := mem_whereFree_first (.any .equal) column [.scalar rhs]
    have v := rowRead column hm
    simp only at complete ⊢
    split at complete
    · rename_i literals elements
      split at complete
      · cases complete
      · rename_i comparable
        simp only [comparable, Bool.false_eq_true, if_false]
        have operand : ∃ array, evalScalar pg db rhs (rowScope env) = some array ∧
            pg.elements array = literals.map pg.literal := by
          split at elements
          · rename_i vs cast
            cases elements
            simpa only [evalScalar] using reads.arrayLiteral literals cast
          · rename_i parts
            obtain ⟨array, built, members⟩ := reads.array (literals.map pg.literal)
            refine ⟨array, ?_, members⟩
            rw [evalScalar, evalScalars_literals pg db _ elements]
            exact built
          · cases elements
        obtain ⟨array, evaluated, members⟩ := operand
        refine covered_set c hm fun met => ?_
        simp only [Holds, evalWhere, evalWheres, evaluated, Pg.multi, Pg.truthOf_ofTruth, members,
          evalScalar]
        rw [← v] at met
        exact met
    · cases complete
  · cases complete

theorem covered_of_complete (reads : Reads pg) : ∀ (e : ResolvedWhereExpr)
    (c : ConstraintCollector), (whereAnalyze c e).complete = true → ReadsRow row env e →
    (∀ column ∈ whereFree e, OwnCasts pg row column) →
    ∀ conjunct ∈ conjunctsSplit e, dropped conjunct = false →
      Covered pg db row env conjunct (whereAnalyze c e)
  | .binary op lexpr rexpr, c, complete, rowRead, casts, conjunct, hl, carried => by
    by_cases conjunction : op = .and
    · subst conjunction
      have split : whereAnalyze c (.binary .and lexpr rexpr) =
          whereAnalyze (whereAnalyze c lexpr) rexpr := by
        rw [whereAnalyze]
        rfl
      rw [split] at complete ⊢
      rw [conjunctsSplit] at hl
      have grows := extends_whereAnalyze rexpr (whereAnalyze c lexpr)
      rcases mem_append.mp hl with hl | hl
      · exact (covered_of_complete reads lexpr c (grows.complete complete)
          (fun column hm => rowRead column (mem_append_left _ hm))
          (fun column hm => casts column (mem_append_left _ hm)) conjunct hl carried).mono grows
      · exact covered_of_complete reads rexpr _ complete
          (fun column hm => rowRead column (mem_append_right _ hm))
          (fun column hm => casts column (mem_append_right _ hm)) conjunct hl carried
    · have single : conjunctsSplit (.binary op lexpr rexpr) = [.binary op lexpr rexpr] := by
        cases op <;> first | rfl | exact absurd rfl conjunction
      rw [single] at hl
      cases mem_singleton.mp hl
      by_cases compares : isComparison op = true
      · rw [whereAnalyze, if_pos compares] at complete ⊢
        exact covered_comparison reads compares carried rowRead casts c complete
      · rw [whereAnalyze, if_neg compares, if_neg conjunction] at complete
        cases complete
  | .multi op exprs, c, complete, rowRead, _, conjunct, hl, carried => by
    cases mem_singleton.mp hl
    rw [whereAnalyze] at complete ⊢
    cases op with
    | isIn => exact covered_in carried rowRead c
    | notIn => exact covered_notIn reads carried rowRead c
    | between => exact covered_between carried rowRead c
    | betweenSymmetric => exact covered_betweenSymmetric carried rowRead c
    | any cmp =>
      cases cmp with
      | equal => exact covered_anyEqual reads rowRead c complete
      | _ => cases complete
    | notBetween | notBetweenSymmetric | all => cases complete
  | .scalar _, _, complete, _, _, _, _, _ => by cases complete
  | .unary _ _, _, complete, _, _, _, _, _ => by cases complete
  | .subquery .., _, complete, _, _, _, _, _ => by cases complete

/-! ### Single-table SELECTs -/

def tableEnv (table : ResolvedTableNode) (row : Row V) : Env V :=
  extend closed [tableLabel table] [⟨tableLabel table, some table.relationOid, row⟩]

/-- A row satisfies every constraint the analysis extracts for a table. -/
def ConstraintsHold (pg : Pg V) (node : ResolvedSelectNode) (table : ResolvedTableNode)
    (row : Row V) : Prop :=
  ∀ constraints, (analyzeQueryConstraints node).tableConstraints.lookup table.name =
    some constraints → ∀ constraint ∈ constraints, RowSatisfies pg row constraint

omit [DecidableEq V] in
theorem rowSatisfies_of_kept {node : ResolvedSelectNode} {table : ResolvedTableNode}
    (held : ConstraintsHold pg node table row)
    (own : constraint.column.table = table.name)
    (kept : Kept (collectQueryConstraints node) constraint) :
    RowSatisfies pg row constraint.toTable := by
  obtain ⟨o, collected, same, sameTable⟩ := kept
  have propagated := subset_propagateConstraints (collectQueryConstraints node).equivalences _
    collected
  have grouped := (Data.Keyed.lookup_groupBy
    (fun constraint : ColumnConstraint => constraint.column.table) _ table.name _).mpr
    ⟨ne_nil_of_mem (mem_filter.mpr ⟨propagated, by simp [sameTable, own]⟩), rfl⟩
  have hl := (Data.Keyed.lookup_retain
    (fun _ cs => some (cs.map ColumnConstraint.toTable)) _ table.name _).mpr
    ⟨_, grouped, rfl⟩
  rw [← same]
  refine held _ hl _ (mem_map_of_mem (mem_filter.mpr ⟨propagated, ?_⟩))
  simp [sameTable, own]

/-- The completeness flag of a single-table SELECT is exact when its WHERE clause has no conjunct of
which the analysers lose something in silence. -/
theorem complete_flag_exact (reads : Reads pg) (db : Database V) (node : ResolvedSelectNode)
    (table : ResolvedTableNode) (single : node.sources = [.table table])
    (own : ∀ column ∈ clauseFree node.whereClause,
      column.table = table.name ∧ (tableLabel table).answers column = true)
    (kept : ∀ expr ∈ node.whereClause, ∀ conjunct ∈ conjunctsSplit expr, dropped conjunct = false)
    (complete : (analyzeQueryConstraints node).whereAnalysisComplete = true) (row : Row V)
    (casts : ∀ column ∈ clauseFree node.whereClause, OwnCasts pg row column)
    (held : ConstraintsHold pg node table row) :
    clauseHolds pg db node.whereClause (rowScope (tableEnv table row)) = true := by
  cases clause : node.whereClause with
  | none => simp [clauseHolds]
  | some expr =>
    rw [clause] at own casts
    have collected : collectQueryConstraints node = whereAnalyze .empty expr := by
      rw [collectQueryConstraints, single, clause]
      rfl
    have flag : (whereAnalyze .empty expr).complete = true := by
      rw [← collected]
      exact complete
    have rowRead : ReadsRow row (tableEnv table row) expr := by
      intro column inside
      have answers := (own column inside).2
      simp [tableEnv, extend, answered, answers, Frame.value]
    have whole : clauseHolds pg db (some expr) (rowScope (tableEnv table row)) = true ↔
        ∀ conjunct ∈ conjunctsSplit expr, Holds pg db conjunct (rowScope (tableEnv table row)) := by
      rw [clauseHolds_iff, ← holds_conjunctsSplit]
      simp
    refine whole.mpr fun conjunct listed => ?_
    obtain ⟨constraints, covers, implies⟩ :=
      covered_of_complete reads expr .empty flag rowRead casts
      conjunct listed (kept expr clause conjunct listed)
    refine implies fun constraint inside => ?_
    obtain ⟨covers, column⟩ := covers constraint inside
    rw [← collected] at covers
    have listedIn := whereFree_conjunctsSplit expr conjunct listed column
    exact rowSatisfies_of_kept held (own _ listedIn).1 covers

end Meaning

/-! ### A server of literals -/

section Server

def nullLiteral : LiteralValue → Bool
  | .null | .nullWithCast _ => true
  | _ => false

abbrev Datum := { literal : LiteralValue // nullLiteral literal = false }

def datum (literal : LiteralValue) : Option Datum :=
  if present : nullLiteral literal = false then some ⟨literal, present⟩ else none

theorem literalValueOrder_swap (a b : LiteralValue) :
    literalValueOrder a b = (literalValueOrder b a).map Ordering.swap := by
  cases a <;> cases b <;> simp only [literalValueOrder, map_none, map_some]
  case integer.integer i j => rw [Std.OrientedOrd.eq_swap (a := i.toInt) (b := j.toInt)]
  case float.float f g => rw [F64.cmp_swap]

def compareData (op : BinaryOp) (a b : Datum) : Bool :=
  match literalValueOrder a.1 b.1 with
  | some order => op.holds order
  | none => op = .equal && a = b || op = .notEqual && a ≠ b

def literalServer : Pg Datum where
  literal := datum
  ofBool b := ⟨.boolean b, rfl⟩
  truth value := match value.1 with
    | .boolean b => some b
    | _ => none
  truth_ofBool _ := rfl
  compare := compareData
  arithmetic _ _ _ := none
  function _ _ := none
  cast _ value := some value
  array values := some ⟨.array (values.map fun
    | some value => value.1
    | none => .null) "", rfl⟩
  elements value := match value.1 with
    | .array values _ => values.map datum
    | _ => []
  isAggregate _ := false
  aggregate _ _ := none
  window _ _ _ := none
  outputType
    | .column column => column.columnMetadata.dataType
    | _ => .text
  outputType_column _ := rfl
  commonType a _ := a
  commonType_self _ := rfl
  coerce _ _ value := value
  coerce_self _ _ := rfl
  limit _ _ rows := rows.map Prod.snd

theorem holds_swap {op flipped : BinaryOp} (flip : op.opFlip = some flipped) (o : Ordering) :
    op.holds o.swap = flipped.holds o := by
  cases op <;> simp [BinaryOp.opFlip] at flip <;> subst flip <;> cases o <;> rfl

theorem literalServer_reads : Reads literalServer where
  commute op flipped flip a b := by
    simp only [literalServer, compareData]
    rw [literalValueOrder_swap a.1 b.1]
    cases literalValueOrder b.1 a.1 with
    | some order => exact holds_swap flip order
    | none => cases op <;> cases flip <;> simp [eq_comm]
  notEqual a b := by
    simp only [literalServer, compareData]
    cases literalValueOrder a.1 b.1 with
    | some order => simp [BinaryOp.holds]
    | none => simp
  arrayLiteral values cast := ⟨⟨.array values cast, rfl⟩, rfl, rfl⟩
  array values := by
    refine ⟨_, rfl, ?_⟩
    simp only [literalServer, map_map]
    conv_rhs => rw [← map_id values]
    refine map_congr_left fun v _ => ?_
    cases v with
    | none => rfl
    | some v => simp [datum, v.2]

def users : ResolvedTableNode := ⟨"public", "users", none, 100⟩

def usersId : ResolvedColumnNode :=
  ⟨"public", "users", none, "id", ⟨"id", 1, .int4, true⟩⟩

def usersWhere (condition : ResolvedWhereExpr) : ResolvedSelectNode :=
  ⟨false, [⟨.column usersId, none⟩], [.table users], some condition, [], none⟩

def oneOrTwo : ResolvedWhereExpr :=
  .binary .and (.multi .isIn [.scalar (.column usersId), .scalar (.literal (.integer 1)),
      .scalar (.literal (.integer 2))])
    (.binary .lessThan (.scalar (.literal (.integer 0))) (.scalar (.column usersId)))

def oneOrNull : ResolvedWhereExpr :=
  .multi .isIn [.scalar (.column usersId), .scalar (.literal (.integer 1)),
    .scalar (.literal .null)]

def ownParent : ResolvedWhereExpr :=
  .binary .equal (.scalar (.column usersId))
    (.scalar (.column ⟨"public", "users", none, "parent", ⟨"parent", 3, .int4, false⟩⟩))

def secondUser : Row Datum := [("id", datum (.integer 2)), ("parent", datum (.integer 1))]

private theorem users_own {condition : ResolvedWhereExpr}
    (cols : ∀ column ∈ whereFree condition, column = usersId) :
    ∀ column ∈ clauseFree (some condition),
      column.table = users.name ∧ (tableLabel users).answers column = true := by
  intro column hm
  rw [cols column hm]
  exact ⟨rfl, rfl⟩

theorem one_or_two_exact : clauseHolds literalServer (fun _ => 0) (usersWhere oneOrTwo).whereClause
      (rowScope (tableEnv users secondUser)) = true := by
  refine complete_flag_exact literalServer_reads (fun _ => 0) (usersWhere oneOrTwo) users rfl
    (users_own ?_) ?_ rfl secondUser ?_ ?_
  · simp [oneOrTwo, whereFree, wheresFree, PgCache.Sql.Congruence.scalarFree]
  · rintro _ ⟨⟩
    decide +kernel
  · intro column _ target _ _
    exact Option.bind_fun_some _
  · intro constraints found
    have extracted : (analyzeQueryConstraints (usersWhere oneOrTwo)).tableConstraints.lookup
        users.name = some [.anyOf "id" [.integer 1, .integer 2],
          .comparison "id" .greaterThan (.integer 0)] := by decide +kernel
    cases extracted.symm.trans found
    simp only [forall_mem_cons, not_mem_nil, false_imp_iff, implies_true, and_true]
    exact ⟨⟨.integer 2, by simp, rfl⟩, rfl⟩

/-- The flag and the constraints pass a row that the condition rejects. -/
def Unnoticed (condition : ResolvedWhereExpr) : Prop :=
  (analyzeQueryConstraints (usersWhere condition)).whereAnalysisComplete = true ∧
    ConstraintsHold literalServer (usersWhere condition) users secondUser ∧
    clauseHolds literalServer (fun _ => 0) (some condition)
      (rowScope (tableEnv users secondUser)) = false

/-- A set with a NULL in it and an equality of two columns leave no constraint and no trace in
the flag, so the analysis takes either query for one that reads the whole table. -/
theorem dropped_conjuncts_unnoticed : Unnoticed oneOrNull ∧ Unnoticed ownParent := by
  have unconstrained {condition : ResolvedWhereExpr}
      (extracted : (analyzeQueryConstraints (usersWhere condition)).tableConstraints.lookup
        users.name = none) :
      ConstraintsHold literalServer (usersWhere condition) users secondUser := by
    intro constraints found
    cases extracted.symm.trans found
  exact ⟨⟨rfl, unconstrained (by decide +kernel), by decide +kernel⟩,
    rfl, unconstrained (by decide +kernel), by decide +kernel⟩

end Server

end PgCache.Query.Constraints.Complete
