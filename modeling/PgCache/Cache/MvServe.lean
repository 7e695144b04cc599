/- source: cache/mv.rs, cache/mv_shape.rs, query/resolved/analysis.rs
   digest: The ORDER BY a read of a materialized result is sent with, and the rows it returns
     against those of the query. -/
import PgCache.Cache.Mv
import PgCache.Query.Resolved.Same
import PgCache.Query.Resolved.Traverse
import PgCache.Sql.Semantics

set_option autoImplicit false

namespace PgCache.Cache.MvServe

open Mv Query.Resolved.Ast Query.Resolved.Same Sql.Semantics Option List
open Query.Resolved.Traverse hiding columns

def positionByOutputName (columns : List ResolvedSelectColumn) (name : String) : Option Nat :=
  (columns.findIdx? fun column => outputName column = some name).map (· + 1)

def columnsPositionOf (columns : List ResolvedSelectColumn) : ResolvedScalarExpr → Option Nat
  | .identifier name => positionByOutputName columns name
  | expr => (columns.findIdx? fun column => scalarSame column.expr expr).map (· + 1)

inductive MvOrderBy where
  | position (n : Nat) (direction : OrderDirection)
  | direct (clause : ResolvedOrderByClause)

def mvOrderByPositional (columns : List ResolvedSelectColumn) :
    List ResolvedOrderByClause → Option (List MvOrderBy)
  | [] => some []
  | clause :: clauses => do
      let position ← columnsPositionOf columns clause.expr
      let rest ← mvOrderByPositional columns clauses
      return .position position clause.direction :: rest

def mvOrderByDirect (orderBy : List ResolvedOrderByClause) : List MvOrderBy :=
  orderBy.map .direct

/-- The ORDER BY of `MvServePlan::new`, `none` where it returns no plan. -/
def mvServeOrder (resolved : ResolvedQueryExpr) : Option (List MvOrderBy) :=
  if resolved.orderBy.isEmpty then some []
  else
    match resolved.body with
    | .select node => mvOrderByPositional node.columns resolved.orderBy
    | .setOp .. => some (mvOrderByDirect resolved.orderBy)
    | .values _ => none

mutual

def leftmostSelect : ResolvedQueryBody → Option ResolvedSelectNode
  | .select node => some node
  | .setOp _ _ left _ => resolvedLeftmostSelect left
  | .values _ => none

def resolvedLeftmostSelect : ResolvedQueryExpr → Option ResolvedSelectNode
  | ⟨body, _, _⟩ => leftmostSelect body

end

def orderByServeViable (resolved : ResolvedQueryExpr) : Bool :=
  resolved.orderBy.isEmpty || match resolved.body with
    | .select node => resolved.orderBy.all fun clause =>
      (columnsPositionOf node.columns clause.expr).isSome
    | .setOp .. => (resolvedLeftmostSelect resolved).any fun leftmost =>
      resolved.orderBy.all fun clause =>
        match clause.expr with
        | .identifier name => (positionByOutputName leftmost.columns name).isSome
        | _ => false
    | .values _ => false

mutual

def scalarExprHasWindow : ResolvedScalarExpr → Bool
  | .function ⟨_, args, _, _, _, _, overSpec⟩ => overSpec.isSome || anyHasWindow args
  | .case arg whens default =>
    (match arg with | none => false | some arg => scalarExprHasWindow arg) ||
      whensHaveWindow whens ||
      (match default with | none => false | some default => scalarExprHasWindow default)
  | .arithmetic left _ right => scalarExprHasWindow left || scalarExprHasWindow right
  | .array elements => anyHasWindow elements
  | .typeCast expr _ => scalarExprHasWindow expr
  | .column _ | .identifier _ | .literal _ | .subquery .. => false

def anyHasWindow : List ResolvedScalarExpr → Bool
  | [] => false
  | expr :: exprs => scalarExprHasWindow expr || anyHasWindow exprs

def whensHaveWindow : List ResolvedCaseWhen → Bool
  | [] => false
  | ⟨_, result⟩ :: whens => scalarExprHasWindow result || whensHaveWindow whens

end

def selectHasJoin (select : ResolvedSelectNode) : Bool :=
  select.sources.length > 1 || select.sources.any fun
    | .join .. => true
    | _ => false

def shapeClassify (aggregateFunctions : String → Bool) (resolved : ResolvedQueryExpr) : ShapeGate :=
  let computes := match resolved.body with
    | .values _ => false
    | .setOp op all _ _ => !(op = .union && all)
    | .select select =>
      (select.columns.any fun column => scalarExprHasWindow column.expr) || select.distinct ||
        !select.groupBy.isEmpty || select.having.isSome ||
        (select.columns.any fun column => hasAggregate aggregateFunctions column.expr) ||
        selectHasJoin select
  if computes && orderByServeViable resolved then .gated else .skip

section Read

variable {V : Type}

def MvOrderBy.value (outputColumns : List String) (row : Tuple V) : MvOrderBy → Option V
  | .position n _ => row[n - 1]?.join
  | .direct clause => outputValue outputColumns row clause.expr

def MvOrderBy.order : MvOrderBy → KeyOrder
  | .position _ direction => .plain direction
  | .direct clause => keyOrder clause

def mvRows (orders : List MvOrderBy) (outputColumns : List String) (contents : Multiset (Tuple V)) :
    Multiset (Tuple V × Tuple V) :=
  contents.map fun row => (orders.map (MvOrderBy.value outputColumns row), row)

end Read

def columnName (column : ResolvedSelectColumn) : String :=
  column.aliasName.getD ((suggestedName column.expr).elim "?column?" Prod.fst)

theorem columnNames_eq (columns : List ResolvedSelectColumn) :
    columnNames columns = columns.map columnName := by
  induction columns with
  | nil => rfl
  | cons c columns ih =>
    obtain ⟨e, aliasName⟩ := c
    cases aliasName <;> simp [columnNames, columnName, ih]

/-- A key of a SELECT that the select list has at the place it is looked for. A bare name is that of
one expression only, a whole number that is also an item of the list is the item it points to, and
no item that differs from the key in a table's alias comes before the key. -/
def Placed (columns : List ResolvedSelectColumn) : ResolvedScalarExpr → Prop
  | .identifier name => ∀ column ∈ columns, ∀ other ∈ columns,
    columnName column = name → columnName other = name → other.expr = column.expr
  | .literal (.integer n) => ∀ column ∈ columns, column.expr = .literal (.integer n) →
    columns[n.toInt.toNat - 1]?.map ResolvedSelectColumn.expr = some (.literal (.integer n))
  | expr => ∀ front column rest, columns = front ++ column :: rest →
    (∀ earlier ∈ front, scalarSame earlier.expr expr = false) →
      scalarSame column.expr expr = true → column.expr = expr

structure KeyKept (columns : List ResolvedSelectColumn) (clause : ResolvedOrderByClause) :
    Prop where
  nulls : keyOrder clause = .plain clause.direction
  placed : Placed columns clause.expr

def Means (columns : List ResolvedSelectColumn) : ResolvedScalarExpr → ResolvedSelectColumn → Prop
  | .identifier name, column => columnName column = name ∧
    ∀ other ∈ columns, columnName other = name → other.expr = column.expr
  | .literal (.integer n), column =>
    columns[n.toInt.toNat - 1]?.map ResolvedSelectColumn.expr = some column.expr
  | expr, column => column.expr = expr

section Keys

variable {V : Type} [DecidableEq V] (pg : Pg V) (db : Database V)
  {columns : List ResolvedSelectColumn}

theorem getElem_evalColumns (scope : Scope V) (i : Nat) : (evalColumns pg db columns scope)[i]? =
      columns[i]?.map fun c => evalScalar pg db c.expr scope := by
  induction columns generalizing i with
  | nil => simp [evalColumns]
  | cons c columns ih =>
    obtain ⟨e, aliasName⟩ := c
    cases i with
    | zero => simp [evalColumns]
    | succ i => simpa [evalColumns] using ih i

theorem named_evalColumns {name : String} {e : ResolvedScalarExpr} (scope : Scope V)
    (hl : ∃ c ∈ columns, columnName c = name)
    (means : ∀ c ∈ columns, columnName c = name → c.expr = e) :
    named (columnNames columns) (evalColumns pg db columns scope) name =
      evalScalar pg db e scope := by
  rw [columnNames_eq]
  induction columns with
  | nil =>
    obtain ⟨c, hm, -⟩ := hl
    cases hm
  | cons c columns ih =>
    obtain ⟨here, rest⟩ := forall_mem_cons.mp means
    by_cases same : columnName c = name
    · obtain ⟨first, aliasName⟩ := c
      rw [← here same, ← same]
      simp [named, evalColumns]
    · have later : ∃ o ∈ columns, columnName o = name := by
        simpa [same] using hl
      have apart : (name == columnName c) = false := by simpa using Ne.symm same
      rw [← ih later rest]
      obtain ⟨first, aliasName⟩ := c
      simp [named, evalColumns, lookup_cons, apart]

theorem columnName_of_outputName {c : ResolvedSelectColumn} {name : String}
    (answers : outputName c = some name) : columnName c = name := by
  obtain ⟨e, aliasName⟩ := c
  cases aliasName with
  | some o => simpa [outputName, columnName] using answers
  | none => cases e <;> simp_all [outputName, columnName, suggestedName]

theorem position_inside {p : ResolvedSelectColumn → Bool} {position : Nat}
    (hf : (columns.findIdx? p).map (· + 1) = some position) :
    ∃ front c rest, columns = front ++ c :: rest ∧ (∀ earlier ∈ front, p earlier = false) ∧
      p c = true ∧ columns[position - 1]? = some c := by
  obtain ⟨i, first, rfl⟩ := map_eq_some_iff.mp hf
  obtain ⟨hm, h, before⟩ := findIdx?_eq_some_iff_getElem.mp first
  refine ⟨columns.take i, columns[i], columns.drop (i + 1), ?_, fun earlier inside => ?_, h, ?_⟩
  · rw [← drop_eq_getElem_cons hm, take_append_drop]
  · obtain ⟨j, hj, rfl⟩ := mem_take_iff_getElem.mp inside
    exact Bool.eq_false_of_not_eq_true (before j (by omega))
  · rw [Nat.add_sub_cancel, getElem?_eq_getElem hm]

theorem Placed.means {e : ResolvedScalarExpr} {i : Nat} (placed : Placed columns e)
    (hf : columnsPositionOf columns e = some i) :
    ∃ c, columns[i - 1]? = some c ∧ Means columns e c := by
  cases e with
  | identifier name =>
    obtain ⟨_, c, _, -, -, answers, at_⟩ := position_inside hf
    have name := columnName_of_outputName (of_decide_eq_true answers)
    exact ⟨c, at_, name, fun o ho named => placed c (mem_of_getElem? at_) o ho name named⟩
  | literal v =>
    obtain ⟨front, c, rest, parts, before, same, at_⟩ := position_inside hf
    cases v with
    | integer n =>
      have literal : c.expr = .literal (.integer n) := by
        cases he : c.expr <;> simp_all [scalarSame]
      exact ⟨c, at_, (placed c (mem_of_getElem? at_) literal).trans (congrArg some literal.symm)⟩
    | _ => exact ⟨c, at_, placed front c rest parts before same⟩
  | _ =>
    obtain ⟨front, c, rest, parts, before, same, at_⟩ := position_inside hf
    exact ⟨c, at_, placed front c rest parts before same⟩

theorem value_of_kept {cl : ResolvedOrderByClause} {i : Nat} (kept : KeyKept columns cl)
    (hf : columnsPositionOf columns cl.expr = some i) (scope : Scope V)
    (plain : scope.output = fun _ => none) :
    (evalColumns pg db columns scope)[i - 1]?.join = sortValue pg db columns
        { scope with output := named (columnNames columns) (evalColumns pg db columns scope) }
        cl.expr := by
  have same : { scope with output := fun _ => none } = scope := by rw [← plain]
  obtain ⟨e, direction, nullOrder⟩ := cl
  obtain ⟨c, at_, means⟩ := kept.placed.means hf
  rw [getElem_evalColumns, at_, map_some, join_some]
  cases e with
  | identifier name =>
    exact (named_evalColumns pg db scope ⟨c, mem_of_getElem? at_, means.1⟩ means.2).symm
  | literal v =>
    cases v with
    | integer n =>
      obtain ⟨o, there, he⟩ := map_eq_some_iff.mp means
      simp only [sortValue, same, getElem_evalColumns, there, map_some, join_some, he]
    | _ => simp only [sortValue, same, show c.expr = _ from means]
  | _ => simp only [sortValue, same, show c.expr = _ from means]

theorem positional_kept {clauses : List ResolvedOrderByClause} {orders : List MvOrderBy}
    (plan : mvOrderByPositional columns clauses = some orders)
    (kept : ∀ cl ∈ clauses, KeyKept columns cl) (outputColumns : List String) :
    orders.map MvOrderBy.order = clauses.map keyOrder ∧
      ∀ scope : Scope V, (scope.output = fun _ => none) →
        orders.map (MvOrderBy.value outputColumns (evalColumns pg db columns scope)) =
          clauses.map fun cl => sortValue pg db columns
            { scope with output := named (columnNames columns) (evalColumns pg db columns scope) }
            cl.expr := by
  induction clauses generalizing orders with
  | nil =>
    cases plan
    exact ⟨rfl, fun _ _ => rfl⟩
  | cons cl clauses ih =>
    obtain ⟨i, hf, plan⟩ := bind_eq_some_iff.mp plan
    obtain ⟨rest, tail, plan⟩ := bind_eq_some_iff.mp plan
    cases plan
    obtain ⟨here, later⟩ := forall_mem_cons.mp kept
    obtain ⟨sameOrders, sameValues⟩ := ih tail later
    refine ⟨by simp [MvOrderBy.order, here.nulls, sameOrders], fun scope plain => ?_⟩
    rw [map_cons, map_cons, sameValues scope plain]
    have v := value_of_kept pg db here hf scope plain
    exact congrArg (· :: _) v

theorem keys_of_plan {resolved : ResolvedQueryExpr} {orders : List MvOrderBy}
    {outputColumns : List String} (plan : mvServeOrder resolved = some orders)
    (captured : outputColumns = bodyNames resolved.body)
    (kept : ∀ node, resolved.body = .select node →
      ∀ cl ∈ resolved.orderBy, KeyKept node.columns cl) :
    orders.map MvOrderBy.order = resolved.orderBy.map keyOrder ∧ ∀ pair ∈ keyedRows pg db resolved,
        orders.map (MvOrderBy.value outputColumns pair.2) = pair.1 := by
  obtain ⟨body, orderBy, limit⟩ := resolved
  unfold mvServeOrder at plan
  cases body with
  | select node =>
    have plan : mvOrderByPositional node.columns orderBy = some orders := by
      cases orderBy with
      | nil => exact plan
      | cons cl clauses => exact plan
    obtain ⟨sameOrders, sameValues⟩ := positional_kept pg db plan (kept node rfl) outputColumns
    refine ⟨sameOrders, fun pair hm => ?_⟩
    simp only [keyedRows, evalSelect_eq, project] at hm
    -- DISTINCT only drops repeated rows
    have hm := (show pair ∈ Multiset.map _ _ from by
      split at hm
      · exact Multiset.mem_dedup.mp hm
      · exact hm)
    obtain ⟨row, -, rfl⟩ := Multiset.mem_map.mp hm
    exact sameValues _ rfl
  | setOp op all left right =>
    obtain rfl : orderBy.map .direct = orders := by
      cases orderBy with
      | nil => exact some.inj plan
      | cons cl clauses => exact some.inj plan
    refine ⟨by simp [MvOrderBy.order, Function.comp_def], fun pair hm => ?_⟩
    simp only [keyedRows] at hm
    obtain ⟨⟨keys, row⟩, -, rfl⟩ := Multiset.mem_map.mp hm
    simp [MvOrderBy.value, captured, Function.comp_def]
  | values rows =>
    cases orderBy with
    | cons cl clauses => cases plan
    | nil =>
      cases plan
      refine ⟨rfl, fun pair hm => ?_⟩
      simp only [keyedRows] at hm
      obtain ⟨⟨keys, row⟩, -, rfl⟩ := Multiset.mem_map.mp hm
      rfl

/-- A read of an MV table that holds the query's rows returns, under any OFFSET and LIMIT, what the
query may return under them, when every key of a SELECT is kept. -/
theorem mv_read_ordered {resolved : ResolvedQueryExpr} {orders : List MvOrderBy}
    {outputColumns : List String} (plan : mvServeOrder resolved = some orders)
    (captured : outputColumns = bodyNames resolved.body)
    (kept : ∀ node, resolved.body = .select node →
      ∀ clause ∈ resolved.orderBy, KeyKept node.columns clause)
    {contents : Multiset (Tuple V)} (stored : contents = (keyedRows pg db resolved).map Prod.snd)
    (offset : Nat) (count : Option Nat) (result : List (Tuple V)) :
    Returns pg (orders.map MvOrderBy.order) (mvRows orders outputColumns contents) offset count
        result ↔
      Returns pg (resolved.orderBy.map keyOrder)
        (keyedRows pg db resolved) offset count result := by
  obtain ⟨sameOrders, sameKeys⟩ := keys_of_plan pg db plan captured kept
  have sameRows : mvRows orders outputColumns contents = keyedRows pg db resolved := by
    rw [mvRows, stored, Multiset.map_map]
    conv_rhs => rw [← Multiset.map_id (keyedRows pg db resolved)]
    refine Multiset.map_congr rfl fun pair inside => ?_
    exact Prod.ext (sameKeys pair inside) rfl
  rw [sameOrders, sameRows]

end Keys

section Players

def playersColumn (name : String) (position : Nat) : ResolvedScalarExpr :=
  .column ⟨"public", "players", none, name, ⟨name, position, .int4, position = 1⟩⟩

def players (direction : OrderDirection) (nullOrder : NullOrder) : ResolvedQueryExpr where
  body := .select {
    distinct := true
    columns := [⟨playersColumn "id" 1, none⟩, ⟨playersColumn "score" 2, none⟩]
    sources := [.table ⟨"public", "players", none, 16700⟩]
    whereClause := none
    groupBy := []
    having := none }
  orderBy := [⟨.identifier "score", direction, nullOrder⟩]
  limit := none

def scores : Database Int := fun _ =>
  {[("id", some 1), ("score", none)], [("id", some 2), ("score", some 20)]}

def stored : Multiset (Tuple Int) := {[some 1, none], [some 2, some 20]}

theorem kept_descending : ∀ node, (players .desc .default).body = .select node →
    ∀ clause ∈ (players .desc .default).orderBy, KeyKept node.columns clause := by
  rintro node ⟨⟩ clause listed
  obtain rfl := mem_singleton.mp listed
  refine ⟨rfl, fun column inside other within name named => ?_⟩
  simp only [mem_cons, not_mem_nil, or_false] at inside within
  rcases inside with rfl | rfl <;> rcases within with rfl | rfl
  · rfl
  · exact absurd name (by decide)
  · exact absurd named (by decide)
  · rfl

theorem unscored_player_first : Returns integers [.plain .desc]
        (mvRows [.position 2 .desc] ["id", "score"] stored) 0 (some 1) [[some 1, none]] ∧
      Returns integers ((players .desc .default).orderBy.map keyOrder)
        (keyedRows integers scores (players .desc .default)) 0 (some 1) [[some 1, none]] := by
  have read : Returns integers [.plain .desc]
      (mvRows [.position 2 .desc] ["id", "score"] stored) 0 (some 1) [[some 1, none]] :=
    ⟨[([none], [some 1, none]), ([some 20], [some 2, some 20])], by decide +kernel,
      by decide +kernel, rfl⟩
  exact ⟨read, (mv_read_ordered integers scores rfl rfl kept_descending (by decide +kernel) 0
    (some 1) _).mp read⟩

/-- ORDER BY score NULLS FIRST LIMIT 1: the read returns the player with a score, the query the
one without. -/
theorem nulls_first_dropped :
    shapeClassify (fun _ => false) (players .asc .nullsFirst) = .gated ∧
    ∃ orders, mvServeOrder (players .asc .nullsFirst) = some orders ∧
      stored = (keyedRows integers scores (players .asc .nullsFirst)).map Prod.snd ∧
      Returns integers (orders.map MvOrderBy.order) (mvRows orders ["id", "score"] stored) 0
        (some 1) [[some 2, some 20]] ∧
      ¬ Returns integers ((players .asc .nullsFirst).orderBy.map keyOrder)
        (keyedRows integers scores (players .asc .nullsFirst)) 0 (some 1)
        [[some 2, some 20]] := by
  refine ⟨rfl, [.position 2 .asc], rfl, by decide +kernel, ⟨[([some 20], [some 2, some 20]),
    ([none], [some 1, none])], by decide +kernel, by decide +kernel, rfl⟩, ?_⟩
  rintro ⟨arranged, same, sorted, sliced⟩
  have rows : keyedRows integers scores (players .asc .nullsFirst) =
      Multiset.ofList [([none], [some 1, none]), ([some 20], [some 2, some 20])] := by
        decide +kernel
  have perm := Multiset.coe_eq_coe.mp (same.trans rows)
  obtain ⟨first, later, rfl⟩ := length_eq_two.mp perm.length_eq
  have listed := perm.subset
  simp only [cons_subset, mem_cons, not_mem_nil, or_false] at listed
  obtain ⟨rfl | rfl, rfl | rfl, -⟩ := listed
  · exact absurd perm (by decide)
  · exact absurd sliced (by decide)
  · exact absurd sorted (by decide +kernel)
  · exact absurd perm (by decide)

end Players

end PgCache.Cache.MvServe
