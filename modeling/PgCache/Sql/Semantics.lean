/- source: query/resolved/mod.rs (the tree), query/resolved/deparse.rs (the text sent)
   digest: What PostgreSQL computes for a resolved query: bags of rows, three-valued
     conditions, correlated subqueries through the environment of the enclosing queries. -/
import PgCache.Data.Kleene
import PgCache.Data.OuterJoin
import PgCache.Query.Resolved.Ast
import Mathlib.Data.Multiset.Dedup
import Mathlib.Data.Multiset.UnionInter

set_option autoImplicit false

namespace PgCache.Sql.Semantics

open Catalog Data.Kleene Data.OuterJoin Query.Literal Query.Resolved.Ast

abbrev Tuple (V : Type) := List (Option V)

abbrev Row (V : Type) := List (String × Option V)

abbrev Database (V : Type) := Oid → Multiset (Row V)

structure Label where
  schema : Option String
  name : String
  deriving DecidableEq

def Label.answers (label : Label) (column : ResolvedColumnNode) : Bool :=
  match column.tableAlias with
  | some aliasName => label.name = aliasName
  | none => label = ⟨some column.schema, column.table⟩

structure Binding (V : Type) where
  label : Label
  origin : Option Oid
  row : Row V
  deriving DecidableEq

def Binding.padding {V : Type} (label : Label) : Binding V :=
  ⟨label, none, []⟩

abbrev Frame (V : Type) := List (Binding V)

abbrev Env (V : Type) := ResolvedColumnNode → Option V

/-- The server's own part: values, operators, functions and the choice a LIMIT makes. Values
are grouped and deduplicated by identity; `aggregate` and `window` see only the values of the
expressions in the call. -/
structure Pg (V : Type) where
  literal : LiteralValue → Option V
  ofBool : Bool → V
  truth : V → Truth
  truth_ofBool : ∀ b, truth (ofBool b) = some b
  compare : BinaryOp → V → V → Bool
  arithmetic : ArithmeticOp → V → V → Option V
  function : String → Tuple V → Option V
  cast : CastTarget → V → Option V
  array : Tuple V → Option V
  elements : V → Tuple V
  isAggregate : String → Bool
  aggregate : ResolvedFunctionCall → Multiset (Tuple V) → Option V
  window : ResolvedFunctionCall → Tuple V → Multiset (Tuple V) → Option V
  /-- the type of an item of a select list -/
  outputType : ResolvedScalarExpr → DataType
  outputType_column : ∀ column, outputType (.column column) = column.columnMetadata.dataType
  /-- the type a set operation gives a column, and the conversion of an arm's values to it -/
  commonType : DataType → DataType → DataType
  commonType_self : ∀ dataType, commonType dataType dataType = dataType
  coerce : DataType → DataType → V → V
  coerce_self : ∀ dataType value, coerce dataType dataType value = value
  limit : ResolvedLimitClause → List ResolvedOrderByClause → Multiset (Tuple V × Tuple V) →
    Multiset (Tuple V)

section Values

variable {V : Type}

def Row.value (row : Row V) (column : String) : Option V :=
  (row.lookup column).join

def Frame.value (frame : Frame V) (column : ResolvedColumnNode) : Option V :=
  match frame.find? fun binding => binding.label.answers column with
  | some binding => Row.value binding.row column.column
  | none => none

def single (values : Multiset (Option V)) : Option V :=
  Quotient.lift (fun list => match list with | [value] => value | _ => none)
    (fun a b (perm : a.Perm b) => by
      match a, b with
      | [], _ => rw [List.nil_perm.mp perm]
      | [value], _ => rw [List.singleton_perm.mp perm]
      | _ :: _ :: _, [] => simp at perm
      | _ :: _ :: _, [_] => simpa using perm.length_eq
      | _ :: _ :: _, _ :: _ :: _ => rfl) values

def answered (labels : List Label) (column : ResolvedColumnNode) : Bool :=
  labels.any fun label => label.answers column

def extend (outer : Env V) (labels : List Label) (frame : Frame V) : Env V := fun column =>
  if answered labels column then frame.value column else outer column

def extendGroup [DecidableEq V] (outer : Env V) (labels : List Label)
    (members : Multiset (Frame V)) : Env V := fun column =>
  if answered labels column then single (members.map fun frame => frame.value column).dedup
  else outer column

structure Current (V : Type) where
  env : Env V
  group : Multiset (Env V)

structure Scope (V : Type) where
  env : Env V
  group : Multiset (Env V)
  peers : Multiset (Current V)
  output : String → Option V

def rowScope (env : Env V) : Scope V :=
  ⟨env, 0, 0, fun _ => none⟩

def Scope.members (scope : Scope V) : Multiset (Scope V) :=
  scope.group.map rowScope

def Scope.partition (scope : Scope V) : Multiset (Scope V) :=
  scope.peers.map fun current => ⟨current.env, current.group, scope.peers, scope.output⟩

end Values

def tableLabel (node : ResolvedTableNode) : Label :=
  match node.aliasName with
  | some aliasName => ⟨none, aliasName⟩
  | none => ⟨some node.schema, node.name⟩

def sourceLabels : ResolvedTableSource → List Label
  | .table node => [tableLabel node]
  | .subquery _ tableAlias _ => [⟨none, tableAlias.name⟩]
  | .join _ left right _ => sourceLabels left ++ sourceLabels right

def sourcesLabels (sources : List ResolvedTableSource) : List Label :=
  sources.flatMap sourceLabels

def typeName : CastTarget → String
  | .text => "text"
  | .int4 => "int4"
  | .int8 => "int8"
  | .bool => "bool"
  | .date => "date"
  | .other name =>
    String.ofList ((name.toList.takeWhile fun c =>
      c ≠ '(' ∧ c ≠ '[').reverse.takeWhile (· ≠ '.')).reverse

mutual

/-- The name an expression suggests for its column, and whether it outdoes the name of a cast or a
CASE around it. -/
def suggestedName : ResolvedScalarExpr → Option (String × Bool)
  | .column node => some (node.column, true)
  | .identifier name => some (name, true)
  | .function ⟨name, _, _, _, _, _, _⟩ => some (name, true)
  | .typeCast expr target =>
    match suggestedName expr with
    | some (name, true) => some (name, true)
    | _ => some (typeName target, false)
  | .case _ _ (some default) =>
    match suggestedName default with
    | some (name, true) => some (name, true)
    | _ => some ("case", false)
  | .case _ _ none => some ("case", false)
  | .subquery query _ => (queryNames query).head?.map (·, true)
  | .array _ => some ("array", true)
  | .literal _ | .arithmetic .. => none

def columnNames : List ResolvedSelectColumn → List String
  | [] => []
  | ⟨_, some aliasName⟩ :: columns => aliasName :: columnNames columns
  | ⟨expr, none⟩ :: columns =>
    ((suggestedName expr).elim "?column?" Prod.fst) :: columnNames columns

def bodyNames : ResolvedQueryBody → List String
  | .select ⟨_, columns, _, _, _, _⟩ => columnNames columns
  | .values rows => (List.range ((rows.head?.map List.length).getD 0)).map fun n =>
    "column" ++ toString (n + 1)
  | .setOp _ _ left _ => queryNames left

def queryNames : ResolvedQueryExpr → List String
  | ⟨body, _, _⟩ => bodyNames body

end

theorem bodyNames_select (node : ResolvedSelectNode) :
    bodyNames (.select node) = columnNames node.columns := by
  cases node
  rfl

def derivedNames (query : ResolvedQueryExpr) (tableAlias : TableAlias) : List String :=
  tableAlias.columns ++ (queryNames query).drop tableAlias.columns.length

section Grouping

variable (isAggregate : String → Bool)

mutual

def scalarAggregates : ResolvedScalarExpr → Bool
  | .column _ | .identifier _ | .literal _ | .subquery .. => false
  | .function call => callAggregates call
  | .case arg whens default =>
    (match arg with | none => false | some arg => scalarAggregates arg) || whensAggregate whens ||
      (match default with | none => false | some default => scalarAggregates default)
  | .arithmetic left _ right => scalarAggregates left || scalarAggregates right
  | .array elements => scalarsAggregate elements
  | .typeCast expr _ => scalarAggregates expr

def scalarsAggregate : List ResolvedScalarExpr → Bool
  | [] => false
  | expr :: exprs => scalarAggregates expr || scalarsAggregate exprs

def callAggregates : ResolvedFunctionCall → Bool
  | ⟨name, args, _, _, _, _, overSpec⟩ =>
    scalarsAggregate args ||
      (match overSpec with | none => isAggregate name | some spec => windowAggregates spec)

def windowAggregates : ResolvedWindowSpec → Bool
  | ⟨partitionBy, orderBy, _⟩ => scalarsAggregate partitionBy || ordersAggregate orderBy

def ordersAggregate : List ResolvedOrderByClause → Bool
  | [] => false
  | ⟨expr, _, _⟩ :: clauses => scalarAggregates expr || ordersAggregate clauses

def whensAggregate : List ResolvedCaseWhen → Bool
  | [] => false
  | ⟨condition, result⟩ :: whens =>
    whereAggregates condition || scalarAggregates result || whensAggregate whens

def whereAggregates : ResolvedWhereExpr → Bool
  | .scalar expr => scalarAggregates expr
  | .unary _ expr => whereAggregates expr
  | .binary _ lexpr rexpr => whereAggregates lexpr || whereAggregates rexpr
  | .multi _ exprs => wheresAggregate exprs
  | .subquery _ _ testExpr _ =>
    match testExpr with | none => false | some test => scalarAggregates test

def wheresAggregate : List ResolvedWhereExpr → Bool
  | [] => false
  | expr :: exprs => whereAggregates expr || wheresAggregate exprs

end

def grouped (node : ResolvedSelectNode) : Bool :=
  !node.groupBy.isEmpty || node.having.isSome ||
    node.columns.any fun column => scalarAggregates isAggregate column.expr

end Grouping

section Operators

variable {V : Type} (pg : Pg V)

def Pg.truthOf (value : Option V) : Truth :=
  value.bind pg.truth

def Pg.ofTruth (truth : Truth) : Option V :=
  truth.map pg.ofBool

@[simp] theorem Pg.truthOf_ofTruth (truth : Truth) : pg.truthOf (pg.ofTruth truth) = truth := by
  cases truth <;> simp [Pg.truthOf, Pg.ofTruth, pg.truth_ofBool]

def Pg.comparison (op : BinaryOp) (a b : Option V) : Truth :=
  match a, b with
  | some a, some b => some (pg.compare op a b)
  | _, _ => none

def Pg.unary (op : UnaryOp) (value : Option V) : Option V :=
  match op with
  | .not => pg.ofTruth (not3 (pg.truthOf value))
  | .isNull => some (pg.ofBool value.isNone)
  | .isNotNull => some (pg.ofBool value.isSome)
  | .isTrue => some (pg.ofBool (pg.truthOf value = some true))
  | .isNotTrue => some (pg.ofBool (pg.truthOf value ≠ some true))
  | .isFalse => some (pg.ofBool (pg.truthOf value = some false))
  | .isNotFalse => some (pg.ofBool (pg.truthOf value ≠ some false))

def Pg.binary (op : BinaryOp) (a b : Option V) : Option V :=
  match op with
  | .and => pg.ofTruth (and3 (pg.truthOf a) (pg.truthOf b))
  | .or => pg.ofTruth (or3 (pg.truthOf a) (pg.truthOf b))
  | op => pg.ofTruth (pg.comparison op a b)

def Pg.within (value low high : Option V) : Truth :=
  and3 (pg.comparison .greaterThanOrEqual value low) (pg.comparison .lessThanOrEqual value high)

def Pg.multi (op : MultiOp) (operands : Tuple V) : Option V :=
  match op, operands with
  | .isIn, value :: values =>
    pg.ofTruth (any3 (Multiset.ofList (values.map (pg.comparison .equal value))))
  | .notIn, value :: values =>
    pg.ofTruth (not3 (any3 (Multiset.ofList (values.map (pg.comparison .equal value)))))
  | .between, [value, low, high] => pg.ofTruth (pg.within value low high)
  | .notBetween, [value, low, high] => pg.ofTruth (not3 (pg.within value low high))
  | .betweenSymmetric, [value, low, high] =>
    pg.ofTruth (or3 (pg.within value low high) (pg.within value high low))
  | .notBetweenSymmetric, [value, low, high] =>
    pg.ofTruth (not3 (or3 (pg.within value low high) (pg.within value high low)))
  | .any op, [value, some array] =>
    pg.ofTruth (any3 (Multiset.ofList ((pg.elements array).map (pg.comparison op value))))
  | .all op, [value, some array] =>
    pg.ofTruth (not3 (any3 (Multiset.ofList ((pg.elements array).map fun other =>
      not3 (pg.comparison op value other)))))
  | _, _ => none

def Pg.among (value : Option V) (rows : Multiset (Tuple V)) : Truth :=
  any3 (rows.map fun row => pg.comparison .equal value row.head?.join)

def Pg.sublink (link : SubLinkType) (test : Option V) (rows : Multiset (Tuple V)) : Option V :=
  match link with
  | .exists => some (pg.ofBool (rows.card ≠ 0))
  | .any => pg.ofTruth (pg.among test rows)
  | .all => pg.ofTruth (not3 (pg.among test rows))
  | .expr => single (rows.map fun row => row.head?.join)

end Operators

section Evaluation

variable {V : Type} [DecidableEq V] (pg : Pg V) (db : Database V)

def combine (op : SetOpType) (all : Bool) (left right : Multiset (Tuple V)) : Multiset (Tuple V) :=
  match op, all with
  | .union, true => left + right
  | .union, false => (left + right).dedup
  | .intersect, true => left ∩ right
  | .intersect, false => (left ∩ right).dedup
  | .except, true => left - right
  | .except, false => left.dedup.filter fun row => row ∉ right

mutual

def bodyTypes : ResolvedQueryBody → List DataType
  | .select node => node.columns.map fun column => pg.outputType column.expr
  | .values rows => (rows.head?.getD []).map fun value => pg.outputType (.literal value)
  | .setOp _ _ left right => List.zipWith pg.commonType (queryTypes left) (queryTypes right)

def queryTypes : ResolvedQueryExpr → List DataType
  | ⟨body, _, _⟩ => bodyTypes body

end

def Pg.coerceRow : List DataType → List DataType → Tuple V → Tuple V
  | source :: sources, target :: targets, value :: values =>
    value.map (pg.coerce source target) :: coerceRow sources targets values
  | _, _, row => row

def joinFrames (joinType : JoinType) (leftLabels rightLabels : List Label)
    (on : Frame V → Frame V → Bool) (left right : Multiset (Frame V)) : Multiset (Frame V) :=
  match joinType with
  | .inner => innerJoin (· ++ ·) on left right
  | .left => leftJoin (· ++ ·) on (rightLabels.map .padding) left right
  | .right => rightJoin (· ++ ·) on (leftLabels.map .padding) left right
  | .full =>
    fullJoin (· ++ ·) on (leftLabels.map .padding) (rightLabels.map .padding) left right

/-- The rows a SELECT projects: its joined rows, or its groups. Without GROUP BY there is one
group, also over no rows. -/
def currents (isGrouped : Bool) (groupBy : List ResolvedColumnNode) (outer : Env V)
    (labels : List Label) (frames : Multiset (Frame V)) : Multiset (Current V) :=
  let single := fun frame => ⟨extend outer labels frame, 0⟩
  let group := fun members =>
    ⟨extendGroup outer labels members, members.map (extend outer labels)⟩
  if isGrouped then
    if groupBy.isEmpty then {group frames}
    else
      let key : Frame V → Tuple V := fun frame => groupBy.map (extend outer labels frame)
      (frames.map key).dedup.map fun value => group (frames.filter fun frame => key frame = value)
  else frames.map single

def named (names : List String) (row : Tuple V) : String → Option V := fun name =>
  ((names.zip row).lookup name).join

def project (names : List String) (rows : Multiset (Current V)) (keeps : Scope V → Bool)
    (columns keys : Scope V → Tuple V) : Multiset (Tuple V × Tuple V) :=
  let kept := rows.filter fun row => keeps ⟨row.env, row.group, 0, fun _ => none⟩ = true
  kept.map fun row =>
    let outputs := columns ⟨row.env, row.group, kept, fun _ => none⟩
    (keys ⟨row.env, row.group, kept, named names outputs⟩, outputs)

mutual

def evalScalar : ResolvedScalarExpr → Scope V → Option V
  | .column column, scope => scope.env column
  | .identifier name, scope => scope.output name
  | .function call, scope => evalCall call scope
  | .literal value, _ => pg.literal value
  | .case arg whens default, scope =>
    (evalWhens whens (evalOptional arg scope) scope).getD (evalOptional default scope).join
  | .arithmetic left op right, scope =>
    (evalScalar left scope).bind fun a => (evalScalar right scope).bind (pg.arithmetic op a)
  | .subquery query _, scope => pg.sublink .expr none (evalQuery query scope.env)
  | .array elements, scope => pg.array (evalScalars elements scope)
  | .typeCast expr target, scope => (evalScalar expr scope).bind (pg.cast target)

def evalOptional : Option ResolvedScalarExpr → Scope V → Option (Option V)
  | none, _ => none
  | some expr, scope => some (evalScalar expr scope)

def evalScalars : List ResolvedScalarExpr → Scope V → Tuple V
  | [], _ => []
  | expr :: exprs, scope => evalScalar expr scope :: evalScalars exprs scope

/-- A call: a window function over the rows of its query, an aggregate over the rows of its
group that pass its FILTER, or a plain function. -/
def evalCall : ResolvedFunctionCall → Scope V → Option V
  | ⟨name, args, aggStar, aggDistinct, aggOrder, aggFilter, overSpec⟩, scope =>
    match overSpec with
    | some spec =>
      let seen := fun scope =>
        some (pg.ofBool (clauseHolds aggFilter scope)) :: evalScalars args scope ++
          evalWindow spec scope
      pg.window ⟨name, args, aggStar, aggDistinct, aggOrder, aggFilter, overSpec⟩ (seen scope)
        (scope.partition.map seen)
    | none =>
      if pg.isAggregate name then
        pg.aggregate ⟨name, args, aggStar, aggDistinct, aggOrder, aggFilter, overSpec⟩
          ((scope.members.filter fun member => clauseHolds aggFilter member = true).map
            fun member => evalScalars args member ++ evalOrder aggOrder member)
      else pg.function name (evalScalars args scope)

def evalWindow : ResolvedWindowSpec → Scope V → Tuple V
  | ⟨partitionBy, orderBy, frame⟩, scope =>
    evalScalars partitionBy scope ++ evalOrder orderBy scope ++ evalFrame frame scope

def evalFrame : Option ResolvedWindowFrame → Scope V → Tuple V
  | none, _ => []
  | some ⟨_, start, stop, _⟩, scope => evalBound start scope ++ evalBound stop scope

def evalBound : ResolvedFrameBound → Scope V → Tuple V
  | .offsetPreceding offset, scope | .offsetFollowing offset, scope => [evalScalar offset scope]
  | .unboundedPreceding, _ | .currentRow, _ | .unboundedFollowing, _ => []

def evalWhens : List ResolvedCaseWhen → Option (Option V) → Scope V → Option (Option V)
  | [], _, _ => none
  | ⟨condition, result⟩ :: whens, subject, scope =>
    let value := evalWhere condition scope
    let applies := match subject with
      | none => pg.truthOf value
      | some subject => pg.comparison .equal subject value
    if applies = some true then some (evalScalar result scope)
    else evalWhens whens subject scope

def evalOrder : List ResolvedOrderByClause → Scope V → Tuple V
  | [], _ => []
  | ⟨expr, _, _⟩ :: clauses, scope => evalScalar expr scope :: evalOrder clauses scope

def evalWhere : ResolvedWhereExpr → Scope V → Option V
  | .scalar expr, scope => evalScalar expr scope
  | .unary op expr, scope => pg.unary op (evalWhere expr scope)
  | .binary op lexpr rexpr, scope => pg.binary op (evalWhere lexpr scope) (evalWhere rexpr scope)
  | .multi op exprs, scope => pg.multi op (evalWheres exprs scope)
  | .subquery query link testExpr _, scope =>
    pg.sublink link (evalOptional testExpr scope).join (evalQuery query scope.env)

def clauseHolds : Option ResolvedWhereExpr → Scope V → Bool
  | none, _ => true
  | some expr, scope => pg.truthOf (evalWhere expr scope) = some true

def evalWheres : List ResolvedWhereExpr → Scope V → Tuple V
  | [], _ => []
  | expr :: exprs, scope => evalWhere expr scope :: evalWheres exprs scope

def evalColumns : List ResolvedSelectColumn → Scope V → Tuple V
  | [], _ => []
  | ⟨expr, _⟩ :: columns, scope => evalScalar expr scope :: evalColumns columns scope

def qualHolds : ResolvedJoinQual → Scope V → Bool
  | .on predicate, scope | .using _ predicate, scope =>
    pg.truthOf (evalWhere predicate scope) = some true
  | .cross, _ => true

def evalSource : ResolvedTableSource → Env V → Multiset (Frame V)
  | .table node, _ => (db node.relationOid).map fun row =>
    [⟨tableLabel node, some node.relationOid, row⟩]
  | .subquery query tableAlias _, outer =>
    (evalQuery query outer).map fun row =>
      [⟨⟨none, tableAlias.name⟩, none, (derivedNames query tableAlias).zip row⟩]
  | .join joinType left right qual, outer =>
    joinFrames joinType (sourceLabels left) (sourceLabels right) (fun a b => qualHolds qual
        (rowScope (extend outer (sourceLabels left ++ sourceLabels right) (a ++ b))))
      (evalSource left outer) (evalSource right outer)

def evalSources : List ResolvedTableSource → Env V → Multiset (Frame V)
  | [], _ => {[]}
  | source :: sources, outer =>
    innerJoin (· ++ ·) (fun _ _ => true) (evalSource source outer) (evalSources sources outer)

def evalSelect : ResolvedSelectNode → (Scope V → Tuple V) → Env V → Multiset (Tuple V × Tuple V)
  | ⟨distinct, columns, sources, whereClause, groupBy, having⟩, keys, outer =>
    let labels := sourcesLabels sources
    let selected := (evalSources sources outer).filter fun frame =>
      clauseHolds whereClause (rowScope (extend outer labels frame)) = true
    let isGrouped :=
      grouped pg.isAggregate ⟨distinct, columns, sources, whereClause, groupBy, having⟩
    let rows := project (columnNames columns) (currents isGrouped groupBy outer labels selected)
      (clauseHolds having) (evalColumns columns) keys
    if distinct then rows.dedup else rows

def evalBody : ResolvedQueryBody → (Scope V → Tuple V) → Env V → Multiset (Tuple V × Tuple V)
  | .select node, keys, outer => evalSelect node keys outer
  | .values rows, keys, outer =>
    Multiset.ofList <| rows.map fun row =>
      let row := row.map pg.literal
      (keys ⟨outer, 0, 0, named (bodyNames (.values rows)) row⟩, row)
  | .setOp op all left right, keys, outer =>
    let types := List.zipWith pg.commonType (queryTypes pg left) (queryTypes pg right)
    (combine op all ((evalQuery left outer).map (pg.coerceRow (queryTypes pg left) types))
      ((evalQuery right outer).map (pg.coerceRow (queryTypes pg right) types))).map fun row =>
      (keys ⟨outer, 0, 0, named (queryNames left) row⟩, row)

def evalQuery : ResolvedQueryExpr → Env V → Multiset (Tuple V)
  | ⟨body, orderBy, limit⟩, outer =>
    let rows := evalBody body (evalOrder orderBy) outer
    match limit with
    | none => rows.map Prod.snd
    | some limit => pg.limit limit orderBy rows

end

def selectedFrames (node : ResolvedSelectNode) (outer : Env V) : Multiset (Frame V) :=
  (evalSources pg db node.sources outer).filter fun frame =>
    clauseHolds pg db node.whereClause
      (rowScope (extend outer (sourcesLabels node.sources) frame)) = true

theorem evalSelect_eq (node : ResolvedSelectNode) (keys : Scope V → Tuple V) (outer : Env V) :
    evalSelect pg db node keys outer =
      let rows := project (columnNames node.columns)
        (currents (grouped pg.isAggregate node) node.groupBy outer (sourcesLabels node.sources)
          (selectedFrames pg db node outer))
        (clauseHolds pg db node.having) (evalColumns pg db node.columns) keys
      if node.distinct then rows.dedup else rows := by
  obtain ⟨distinct, cols, sources, whereClause, groupBy, having⟩ := node
  rfl

def Holds (expr : ResolvedWhereExpr) (scope : Scope V) : Prop :=
  pg.truthOf (evalWhere pg db expr scope) = some true

def closed : Env V := fun _ => none

def result (query : ResolvedQueryExpr) : Multiset (Tuple V) :=
  evalQuery pg db query closed

end Evaluation

structure KeyOrder where
  direction : OrderDirection
  nullsFirst : Bool
  deriving DecidableEq

def KeyOrder.plain (direction : OrderDirection) : KeyOrder :=
  ⟨direction, direction = .desc⟩

def keyOrder (clause : ResolvedOrderByClause) : KeyOrder :=
  match clause.nullOrder with
  | .nullsFirst => ⟨clause.direction, true⟩
  | .nullsLast => ⟨clause.direction, false⟩
  | .default => .plain clause.direction

section Rows

variable {V : Type} (pg : Pg V)

def before (order : KeyOrder) : Option V → Option V → Bool
  | none, none => false
  | none, some _ => order.nullsFirst
  | some _, none => !order.nullsFirst
  | some a, some b =>
    match order.direction with
    | .asc => pg.compare .lessThan a b
    | .desc => pg.compare .lessThan b a

def precedes : List KeyOrder → Tuple V → Tuple V → Bool
  | order :: orders, a :: as, b :: bs =>
    before pg order a b || (!before pg order b a && precedes orders as bs)
  | _, _, _ => false

def slice {α : Type} (offset : Nat) (count : Option Nat) (rows : List α) : List α :=
  match count with
  | none => rows.drop offset
  | some count => (rows.drop offset).take count

abbrev Arranged (orders : List KeyOrder) (rows : List (Tuple V × Tuple V)) : Prop :=
  rows.Pairwise fun first later => precedes pg orders later.1 first.1 = false

/-- What a server may return for rows with their keys: ties are in any order. -/
def Returns (orders : List KeyOrder) (rows : Multiset (Tuple V × Tuple V)) (offset : Nat)
    (count : Option Nat) (result : List (Tuple V)) : Prop :=
  ∃ arranged : List (Tuple V × Tuple V), arranged = rows ∧ Arranged pg orders arranged ∧
    result = (slice offset count arranged).map Prod.snd

def outputValue (names : List String) (row : Tuple V) : ResolvedScalarExpr → Option V
  | .literal (.integer n) => row[n.toInt.toNat - 1]?.join
  | .identifier name => named names row name
  | _ => none

variable [DecidableEq V] (db : Database V)

/-- A key on a row of a SELECT: output columns are meant only by a position or a bare name. -/
def sortValue (columns : List ResolvedSelectColumn) (scope : Scope V) :
    ResolvedScalarExpr → Option V
  | .literal (.integer n) =>
    (evalColumns pg db columns { scope with output := fun _ => none })[n.toInt.toNat - 1]?.join
  | .identifier name => scope.output name
  | expr => evalScalar pg db expr { scope with output := fun _ => none }

def keyedRows (query : ResolvedQueryExpr) : Multiset (Tuple V × Tuple V) :=
  match query.body with
  | .select node => evalSelect pg db node
      (fun scope => query.orderBy.map fun clause => sortValue pg db node.columns scope clause.expr)
      closed
  | body => (evalBody pg db body (fun _ => []) closed).map fun (_, row) =>
    (query.orderBy.map fun clause => outputValue (bodyNames body) row clause.expr, row)

end Rows

def arithmeticIntegers : ArithmeticOp → Int → Int → Option Int
  | .add, a, b => some (a + b)
  | .subtract, a, b => some (a - b)
  | .multiply, a, b => some (a * b)
  | .divide, a, b => if b = 0 then none else some (a.tdiv b)
  | .modulo, a, b => if b = 0 then none else some (a.tmod b)

/-- Booleans are 0 and 1; `count` is the one aggregate and the one window function, and a LIMIT
is felt only when it is 0. -/
def integers : Pg Int where
  literal
    | .integer i => some i.toInt
    | .boolean b => some (if b then 1 else 0)
    | _ => none
  ofBool b := if b then 1 else 0
  truth value := some (value ≠ 0)
  truth_ofBool b := by cases b <;> rfl
  compare op a b := op.holds (Ord.compare a b)
  arithmetic := arithmeticIntegers
  function _ _ := none
  cast _ value := some value
  array _ := none
  elements _ := []
  isAggregate name := name = "count"
  aggregate _ rows := some rows.card
  window _ _ rows := some rows.card
  outputType
    | .column column => column.columnMetadata.dataType
    | _ => .int4
  outputType_column _ := rfl
  commonType a _ := a
  commonType_self _ := rfl
  coerce _ _ value := value
  coerce_self _ _ := rfl
  limit limit _ rows :=
    match limit.count with
    | some (.integer 0) => 0
    | _ => rows.map Prod.snd

end PgCache.Sql.Semantics
