/- source: query/transform/pushdown.rs
   digest: When moving conjuncts into a derived table keeps the result of the query. -/
import PgCache.Query.Pushdown.Rewrite
import PgCache.Sql.Frames
import PgCache.Sql.Windows

set_option autoImplicit false

namespace PgCache.Query.Pushdown.Sound

open Catalog Data.OuterJoin Rewrite Resolved.Ast Resolved.Traverse Sql.Congruence Sql.Frames
open Sql.Semantics Sql.Windows List
open Option (bind_eq_bind bind_eq_some_iff)

variable {V : Type} [DecidableEq V] {pg : Pg V} {db : Database V} {outer : Env V}

section Remap

variable {nameToColumn : NameToColumn} {a b : Scope V}

mutual

theorem evalScalar_remap : ∀ (expr : ResolvedScalarExpr) {remapped : ResolvedScalarExpr},
    scalarExprColumnsRemap nameToColumn expr = some remapped →
    (∀ column ∈ scalarNodes columns expr, ∀ node,
      nameToColumn.lookup column.column = some node → a.env node = b.env column) →
    evalScalar pg db remapped a = evalScalar pg db expr b
  | .column column, remapped, mapped, reads => by
    obtain ⟨node, found, rfl⟩ := Option.map_eq_some_iff.mp mapped
    simp only [evalScalar]
    exact reads column (by simp [scalarNodes, columns]) node found
  | .literal value, remapped, mapped, _ => by
    obtain rfl : .literal value = remapped := Option.some_inj.mp mapped
    simp only [evalScalar]
  | .array elements, remapped, mapped, reads => by
    obtain ⟨elements', inner, rfl⟩ := Option.map_eq_some_iff.mp mapped
    simp only [evalScalar]
    rw [evalScalars_remap elements inner reads]
  | .identifier _, _, mapped, _ | .function _, _, mapped, _ | .case .., _, mapped, _
  | .arithmetic .., _, mapped, _ | .subquery .., _, mapped, _ | .typeCast .., _, mapped, _ => by
    cases mapped

theorem evalScalars_remap :
    ∀ (exprs : List ResolvedScalarExpr) {remapped : List ResolvedScalarExpr},
    scalarsColumnsRemap nameToColumn exprs = some remapped →
    (∀ column ∈ scalarsNodes columns exprs, ∀ node,
      nameToColumn.lookup column.column = some node → a.env node = b.env column) →
    evalScalars pg db remapped a = evalScalars pg db exprs b
  | [], remapped, mapped, _ => by
    obtain rfl : [] = remapped := Option.some_inj.mp mapped
    rfl
  | expr :: exprs, remapped, mapped, reads => by
    simp only [scalarsNodes, forall_mem_append] at reads
    simp only [scalarsColumnsRemap, bind_eq_bind, bind_eq_some_iff] at mapped
    obtain ⟨first, mappedFirst, rest, mappedRest, equal⟩ := mapped
    obtain rfl : first :: rest = remapped := Option.some_inj.mp equal
    simp only [evalScalars]
    rw [evalScalar_remap expr mappedFirst reads.1, evalScalars_remap exprs mappedRest reads.2]

end

mutual

theorem evalWhere_remap : ∀ (expr : ResolvedWhereExpr) {remapped : ResolvedWhereExpr},
    whereExprColumnsRemap nameToColumn expr = some remapped →
    (∀ column ∈ whereNodes columns expr, ∀ node,
      nameToColumn.lookup column.column = some node → a.env node = b.env column) →
    evalWhere pg db remapped a = evalWhere pg db expr b
  | .scalar expr, remapped, mapped, reads => by
    obtain ⟨expr', inner, rfl⟩ := Option.map_eq_some_iff.mp mapped
    simp only [evalWhere]
    exact evalScalar_remap expr inner reads
  | .unary op expr, remapped, mapped, reads => by
    obtain ⟨expr', inner, rfl⟩ := Option.map_eq_some_iff.mp mapped
    simp only [evalWhere]
    rw [evalWhere_remap expr inner reads]
  | .binary op lexpr rexpr, remapped, mapped, reads => by
    simp only [whereNodes, forall_mem_append] at reads
    simp only [whereExprColumnsRemap, bind_eq_bind, bind_eq_some_iff] at mapped
    obtain ⟨left, mappedLeft, right, mappedRight, equal⟩ := mapped
    obtain rfl : .binary op left right = remapped := Option.some_inj.mp equal
    simp only [evalWhere]
    rw [evalWhere_remap lexpr mappedLeft reads.1, evalWhere_remap rexpr mappedRight reads.2]
  | .multi op exprs, remapped, mapped, reads => by
    obtain ⟨exprs', inner, rfl⟩ := Option.map_eq_some_iff.mp mapped
    simp only [evalWhere]
    rw [evalWheres_remap exprs inner reads]
  | .subquery .., _, mapped, _ => by cases mapped

theorem evalWheres_remap : ∀ (exprs : List ResolvedWhereExpr) {remapped : List ResolvedWhereExpr},
    wheresColumnsRemap nameToColumn exprs = some remapped →
    (∀ column ∈ wheresNodes columns exprs, ∀ node,
      nameToColumn.lookup column.column = some node → a.env node = b.env column) →
    evalWheres pg db remapped a = evalWheres pg db exprs b
  | [], remapped, mapped, _ => by
    obtain rfl : [] = remapped := Option.some_inj.mp mapped
    rfl
  | expr :: exprs, remapped, mapped, reads => by
    simp only [wheresNodes, forall_mem_append] at reads
    simp only [wheresColumnsRemap, bind_eq_bind, bind_eq_some_iff] at mapped
    obtain ⟨first, mappedFirst, rest, mappedRest, equal⟩ := mapped
    obtain rfl : first :: rest = remapped := Option.some_inj.mp equal
    simp only [evalWheres]
    rw [evalWhere_remap expr mappedFirst reads.1, evalWheres_remap exprs mappedRest reads.2]

end

end Remap

section Positions

variable {position : String → Option Nat} {select : ResolvedSelectNode} {names : List String}
  {name : String}

theorem branchColumn_eq_some {pair : String × ResolvedColumnNode}
    (hf : branchColumn position select name = some pair) :
    pair.1 = name ∧ ∃ index aliasName, position name = some index ∧
      select.columns[index]? = some ⟨.column pair.2, aliasName⟩ := by
  simp only [branchColumn, bind_eq_bind, bind_eq_some_iff] at hf
  obtain ⟨index, at_index, ⟨e, aliasName⟩, in_branch, plain⟩ := hf
  cases e with
  | column node =>
    obtain rfl : (name, node) = pair := Option.some_inj.mp plain
    exact ⟨rfl, index, aliasName, at_index, in_branch⟩
  | _ => cases plain

theorem branchColumn_of_lookup {nameToColumn : NameToColumn}
    (built : names.mapM (branchColumn position select) = some nameToColumn)
    {node : ResolvedColumnNode} (hf : nameToColumn.lookup name = some node) :
    branchColumn position select name = some (name, node) := by
  induction names generalizing nameToColumn with
  | nil =>
    obtain rfl : [] = nameToColumn := by simpa using built
    cases hf
  | cons first names ih =>
    simp only [mapM_cons, bind_eq_bind, bind_eq_some_iff] at built
    obtain ⟨⟨key, v⟩, head, rest, tail, he⟩ := built
    obtain rfl : (key, v) :: rest = nameToColumn := Option.some_inj.mp he
    obtain rfl : key = first := (branchColumn_eq_some head).1
    rw [lookup_cons] at hf
    by_cases same : name = key
    · subst same
      obtain rfl : v = node := by simpa using hf
      exact head
    · exact ih tail (by simpa [beq_eq_false_iff_ne.mpr same] using hf)

variable {V : Type}

theorem value_zip {row : Tuple V} {index : Nat} (at_index : names.idxOf? name = some index) :
    Row.value (names.zip row) name = row[index]?.join := by
  induction names generalizing row index with
  | nil => cases at_index
  | cons first names ih =>
    cases row with
    | nil => simp [Row.value]
    | cons v row =>
      simp only [idxOf?_cons] at at_index
      by_cases same : first = name
      · subst same
        obtain rfl : 0 = index := by simpa using at_index
        simp [Row.value]
      · simp only [beq_eq_false_iff_ne.mpr same, Bool.false_eq_true, ↓reduceIte,
          Option.map_eq_some_iff] at at_index
        obtain ⟨rest, in_rest, rfl⟩ := at_index
        have apart : (name == first) = false := beq_eq_false_iff_ne.mpr (Ne.symm same)
        have tail : Row.value (names.zip row) name = row[rest]?.join := ih in_rest
        simp only [Row.value, zip_cons_cons, lookup_cons, apart, getElem?_cons_succ] at tail ⊢
        exact tail

def derivedEnv (outer : Env V) (aliasName : String) (names : List String) (row : Tuple V) : Env V :=
  extend outer [⟨none, aliasName⟩] [⟨⟨none, aliasName⟩, none, names.zip row⟩]

theorem derivedEnv_of_position {outer : Env V} {aliasName : String}
    {row : Tuple V} {c : ResolvedColumnNode} {index : Nat}
    (named : c.tableAlias = some aliasName)
    (at_index : names.idxOf? c.column = some index) :
    derivedEnv outer aliasName names row c = row[index]?.join := by
  have answers : Label.answers ⟨none, aliasName⟩ c = true := by simp [Label.answers, named]
  simp only [derivedEnv, extend, answered, any_cons, answers, Bool.true_or, ↓reduceIte,
    Frame.value, find?_cons_of_pos]
  exact value_zip at_index

variable [DecidableEq V] {pg : Pg V} {db : Database V}

theorem getElem?_evalColumns (cols : List ResolvedSelectColumn) (scope : Scope V) (index : Nat) :
    (evalColumns pg db cols scope)[index]? =
      cols[index]?.map fun c => evalScalar pg db c.expr scope := by
  induction cols generalizing index with
  | nil => simp [evalColumns]
  | cons c cols ih =>
    obtain ⟨e, aliasName⟩ := c
    cases index with
    | zero => simp [evalColumns]
    | succ index => simpa [evalColumns] using ih index

end Positions

section Branch

def outputs (pg : Pg V) (db : Database V) (node : ResolvedSelectNode) (outer : Env V)
    (frame : Frame V) : Tuple V :=
  evalColumns pg db node.columns (rowScope (extend outer (sourcesLabels node.sources) frame))

def orderKeys (pg : Pg V) (db : Database V) (node : ResolvedSelectNode)
    (orderBy : List ResolvedOrderByClause) (outer : Env V) (frame : Frame V) : Tuple V :=
  evalOrder pg db orderBy ⟨extend outer (sourcesLabels node.sources) frame, 0, 0,
    named (columnNames node.columns) (outputs pg db node outer frame)⟩

variable {node : ResolvedSelectNode} {orderBy : List ResolvedOrderByClause}

variable (flat : grouped pg.isAggregate node = false)
include flat

theorem kept_of_flat (frames : Multiset (Frame V)) :
    (currents (grouped pg.isAggregate node) node.groupBy outer (sourcesLabels node.sources)
        frames).filter (fun row => clauseHolds pg db node.having
          ⟨row.env, row.group, 0, fun _ => none⟩ = true) =
      frames.map fun frame => ⟨extend outer (sourcesLabels node.sources) frame, 0⟩ := by
  have plain : node.having = none := by
    simp only [grouped, Bool.or_eq_false_iff] at flat
    simpa using flat.1.2
  rw [flat, plain]
  exact Multiset.filter_eq_self.mpr fun _ _ => by simp only [clauseHolds]

theorem evalQuery_of_plain
    (free : columnsWindow node.columns = false) (plain : node.distinct = false) :
    evalQuery pg db ⟨.select node, orderBy, none⟩ outer =
      (selectedFrames pg db node outer).map (outputs pg db node outer) := by
  simp only [evalQuery, evalBody, evalSelect_eq, plain, Bool.false_eq_true, ↓reduceIte, project,
    kept_of_flat flat, Multiset.map_map, Function.comp_def]
  refine Multiset.map_congr rfl fun frame _ => ?_
  exact evalColumns_of_sameRow free ⟨rfl, rfl, rfl⟩

theorem evalQuery_of_distinct
    (free : columnsWindow node.columns = false) (freeOrder : ordersWindow orderBy = false)
    (distinct : node.distinct = true) :
    evalQuery pg db ⟨.select node, orderBy, none⟩ outer =
      ((selectedFrames pg db node outer).map fun frame =>
        (orderKeys pg db node orderBy outer frame, outputs pg db node outer frame)).dedup.map
          Prod.snd := by
  simp only [evalQuery, evalBody, evalSelect_eq, distinct, ↓reduceIte, project,
    kept_of_flat flat, Multiset.map_map, Function.comp_def]
  congr 2
  refine Multiset.map_congr rfl fun frame _ => ?_
  have same : ∀ peers, evalColumns pg db node.columns
      ⟨extend outer (sourcesLabels node.sources) frame, 0, peers, fun _ => none⟩ =
        outputs pg db node outer frame :=
    fun _ => evalColumns_of_sameRow free ⟨rfl, rfl, rfl⟩
  rw [same]
  exact Prod.ext (evalOrder_of_sameRow freeOrder ⟨rfl, rfl, rfl⟩) rfl

omit flat

variable {predicate : ResolvedWhereExpr} {position : String → Option Nat} {aliasName : String}
  {names : List String} {select : ResolvedSelectNode}

def passes (pg : Pg V) (db : Database V) (predicate : ResolvedWhereExpr) (aliasName : String)
    (names : List String) (outer : Env V) (row : Tuple V) : Bool :=
  clauseHolds pg db (some predicate) (rowScope (derivedEnv outer aliasName names row))

/-- The predicate reads the derived table, each column at the position `name_to_position` has. -/
def ReadsAt (predicate : ResolvedWhereExpr) (position : String → Option Nat) (aliasName : String)
    (names : List String) : Prop :=
  ∀ column ∈ whereNodes columns predicate,
    column.tableAlias = some aliasName ∧ position column.column = names.idxOf? column.column

theorem predicatePushIntoSelect_eq_some
    (pushed : predicatePushIntoSelect predicate position node = some select) :
    branchPushdownIsSafe node = true ∧ ∃ nameToColumn remapped,
      ((whereNodes columns predicate).map fun c => c.column).mapM
          (branchColumn position node) = some nameToColumn ∧
      whereExprColumnsRemap nameToColumn predicate = some remapped ∧
      select = { node with whereClause := some (match node.whereClause with
        | some existing => .binary .and existing remapped
        | none => remapped) } := by
  simp only [predicatePushIntoSelect, bind_eq_bind, bind_eq_some_iff, guard] at pushed
  obtain ⟨_, safe, nameToColumn, built, remapped, mapped, he⟩ := pushed
  refine ⟨?_, nameToColumn, remapped, built, mapped, (Option.some_inj.mp he).symm⟩
  by_contra rejected
  rw [if_neg rejected] at safe
  cases safe

theorem holds_remapped {nameToColumn : NameToColumn} {remapped : ResolvedWhereExpr}
    (built : ((whereNodes columns predicate).map fun c => c.column).mapM
      (branchColumn position node) = some nameToColumn)
    (mapped : whereExprColumnsRemap nameToColumn predicate = some remapped)
    (reads : ReadsAt predicate position aliasName names) (frame : Frame V) :
    Holds pg db remapped (rowScope (extend outer (sourcesLabels node.sources) frame)) ↔
      passes pg db predicate aliasName names outer (outputs pg db node outer frame) = true := by
  have same : evalWhere pg db remapped
    (rowScope (extend outer (sourcesLabels node.sources) frame)) =
      evalWhere pg db predicate
        (rowScope (derivedEnv outer aliasName names (outputs pg db node outer frame))) := by
    apply evalWhere_remap predicate mapped
    intro c hm tg hf
    obtain ⟨-, index, outputAlias, at_index, in_branch⟩ :=
      branchColumn_eq_some (branchColumn_of_lookup built hf)
    obtain ⟨named, agrees⟩ := reads c hm
    simp only [rowScope]
    rw [derivedEnv_of_position named (agrees.symm.trans at_index), outputs, getElem?_evalColumns,
      in_branch]
    simp [evalScalar, rowScope]
  simp only [Holds, passes, clauseHolds, same, decide_eq_true_eq]

theorem selectedFrames_pushed
    (pushed : predicatePushIntoSelect predicate position node = some select)
    (reads : ReadsAt predicate position aliasName names) :
    selectedFrames pg db select outer = (selectedFrames pg db node outer).filter fun frame =>
        passes pg db predicate aliasName names outer (outputs pg db node outer frame) = true := by
  obtain ⟨-, nameToColumn, remapped, built, mapped, rfl⟩ := predicatePushIntoSelect_eq_some pushed
  simp only [selectedFrames, Multiset.filter_filter]
  refine Multiset.filter_congr fun frame _ => ?_
  rw [← holds_remapped built mapped reads, clauseHolds_iff]
  cases node.whereClause with
  | none => simp [clauseHolds]
  | some existing => simp [clauseHolds_iff, holds_and, and_comm]

end Branch

section Query

variable {predicate : ResolvedWhereExpr} {position : String → Option Nat} {aliasName : String}
  {names : List String}

mutual

/-- Every SELECT below is one whose rows do not depend on each other, and none is cut by a
LIMIT: no aggregate and no window call, at any depth of the select list. -/
def bodyRowwise (isAggregate : String → Bool) :
    ResolvedQueryBody → List ResolvedOrderByClause → Bool
  | .select node, orderBy =>
    (node.columns.all fun column => !scalarAggregates isAggregate column.expr) &&
      !columnsWindow node.columns && (!node.distinct || !ordersWindow orderBy)
  | .setOp _ _ left right, _ => queryRowwise isAggregate left && queryRowwise isAggregate right
  | .values _, _ => true

def queryRowwise (isAggregate : String → Bool) : ResolvedQueryExpr → Bool
  | ⟨body, orderBy, limit⟩ => limit.isNone && bodyRowwise isAggregate body orderBy

end

mutual

def bodyTypeAt (index : Nat) : ResolvedQueryBody → Option DataType
  | .select node => node.columns[index]?.bind fun column =>
    match column.expr with
    | .column source => some source.columnMetadata.dataType
    | _ => none
  | .setOp _ _ left right =>
    if queryTypeAt index left = queryTypeAt index right then queryTypeAt index left else none
  | .values _ => none

def queryTypeAt (index : Nat) : ResolvedQueryExpr → Option DataType
  | ⟨body, _, _⟩ => bodyTypeAt index body

end

omit [DecidableEq V] in
mutual

theorem bodyTypes_of_typeAt {index : Nat} {dataType : DataType} : ∀ {body : ResolvedQueryBody},
    bodyTypeAt index body = some dataType → (bodyTypes pg body)[index]? = some dataType
  | .select node, typed => by
    obtain ⟨⟨e, aliasName⟩, at_index, plain⟩ := bind_eq_some_iff.mp typed
    cases e with
    | column source =>
      cases plain
      simp [bodyTypes, at_index, pg.outputType_column]
    | _ => cases plain
  | .setOp op all left right, typed => by
    obtain ⟨same, typed⟩ := Option.ite_none_right_eq_some.mp typed
    have there := queryTypes_of_typeAt typed
    have there' := queryTypes_of_typeAt (same ▸ typed)
    rw [bodyTypes, getElem?_zipWith_eq_some]
    exact ⟨_, _, there, there', pg.commonType_self _⟩
  | .values _, typed => by cases typed

theorem queryTypes_of_typeAt {index : Nat} {dataType : DataType} : ∀ {query : ResolvedQueryExpr},
    queryTypeAt index query = some dataType → (queryTypes pg query)[index]? = some dataType
  | ⟨_, _, _⟩, typed => bodyTypes_of_typeAt typed

end

omit [DecidableEq V] in
theorem getElem?_coerceRow {index : Nat} {dataType : DataType} {sources targets : List DataType}
    (source : sources[index]? = some dataType) (target : targets[index]? = some dataType)
    (row : Tuple V) : (pg.coerceRow sources targets row)[index]? = row[index]? := by
  induction index generalizing sources targets row with
  | zero =>
    cases sources with
    | nil => cases source
    | cons _ sources =>
      cases targets with
      | nil => cases target
      | cons _ targets =>
        cases source
        cases target
        cases row with
        | nil => rfl
        | cons value row => cases value <;> simp [Pg.coerceRow, pg.coerce_self]
  | succ index ih =>
    cases sources with
    | nil => cases source
    | cons _ sources =>
      cases targets with
      | nil => cases target
      | cons _ targets =>
        cases row with
        | nil => rfl
        | cons value row => exact ih source target row

/-- Every column the predicate reads has one type in all arms. -/
def TypedIn (predicate : ResolvedWhereExpr) (position : String → Option Nat)
    (typeAt : Nat → Option DataType) : Prop :=
  ∀ column ∈ whereNodes columns predicate,
    ((position column.column).bind typeAt).isSome = true

theorem passes_coerceRow {sources targets : List DataType}
    (reads : ReadsAt predicate position aliasName names)
    (alike : ∀ column ∈ whereNodes columns predicate, ∃ index dataType,
      position column.column = some index ∧ sources[index]? = some dataType ∧
        targets[index]? = some dataType) (row : Tuple V) :
    passes pg db predicate aliasName names outer (pg.coerceRow sources targets row) =
      passes pg db predicate aliasName names outer row := by
  simp only [passes, clauseHolds]
  rw [evalWhere_of_agree (agree_rowScope fun column free => ?_)]
  have inside := whereFree_subset predicate free
  obtain ⟨named, agrees⟩ := reads column inside
  obtain ⟨index, dataType, at_index, source, target⟩ := alike column inside
  rw [derivedEnv_of_position named (agrees.symm.trans at_index),
    derivedEnv_of_position named (agrees.symm.trans at_index), getElem?_coerceRow source target]

theorem dedup_filter {α : Type} [DecidableEq α] (p : α → Prop) [DecidablePred p]
    (rows : Multiset α) : (rows.filter p).dedup = rows.dedup.filter p := by
  ext row
  by_cases kept : p row <;> simp [Multiset.count_dedup, kept]

theorem combine_filter (op : SetOpType) (all : Bool) (p : Tuple V → Prop) [DecidablePred p]
    (left right : Multiset (Tuple V)) :
    combine op all (left.filter p) (right.filter p) = (combine op all left right).filter p := by
  cases op <;> cases all <;> ext row <;> by_cases kept : p row <;>
    simp [combine, Multiset.count_dedup, Multiset.count_filter, kept]

theorem evalQuery_pushIntoSelect {node select : ResolvedSelectNode}
    {orderBy : List ResolvedOrderByClause}
    (pushed : predicatePushIntoSelect predicate position node = some select)
    (rowwise : bodyRowwise pg.isAggregate (.select node) orderBy = true)
    (reads : ReadsAt predicate position aliasName names) :
    evalQuery pg db ⟨.select select, orderBy, none⟩ outer =
      (evalQuery pg db ⟨.select node, orderBy, none⟩ outer).filter fun row =>
        passes pg db predicate aliasName names outer row = true := by
  obtain ⟨safe, nameToColumn, remapped, -, -, he⟩ := predicatePushIntoSelect_eq_some pushed
  have frames : selectedFrames pg db select outer = _ := selectedFrames_pushed pushed reads
  simp only [bodyRowwise, Bool.and_eq_true, Bool.not_eq_true', Bool.or_eq_true] at rowwise
  obtain ⟨⟨noAggregate, noWindow⟩, order⟩ := rowwise
  have flat : grouped pg.isAggregate node = false := by
    simp only [branchPushdownIsSafe, Bool.and_eq_true] at safe
    simp only [grouped, safe.1.1, Option.isNone_iff_eq_none.mp safe.1.2, Bool.not_true,
      Option.isSome_none, Bool.or_self, Bool.false_or, any_eq_false]
    intro c hm
    simpa using all_eq_true.mp noAggregate c hm
  have sameOutputs : outputs pg db select outer = outputs pg db node outer := by rw [he]; rfl
  have flat' : grouped pg.isAggregate select = false := by rw [he]; exact flat
  have noWindow' : columnsWindow select.columns = false := by rw [he]; exact noWindow
  cases distinct : node.distinct with
  | false =>
    rw [evalQuery_of_plain flat noWindow distinct,
      evalQuery_of_plain flat' noWindow' (by rw [he]; exact distinct), frames, sameOutputs,
      Multiset.filter_map]
    rfl
  | true =>
    have noOrderWindow : ordersWindow orderBy = false := by simpa [distinct] using order
    have sameKeys : orderKeys pg db select orderBy outer = orderKeys pg db node orderBy outer := by
      rw [he]; rfl
    rw [evalQuery_of_distinct flat noWindow noOrderWindow distinct,
      evalQuery_of_distinct flat' noWindow' noOrderWindow (by rw [he]; exact distinct), frames,
      sameOutputs, sameKeys, Multiset.filter_map, ← dedup_filter, Multiset.filter_map]
    rfl

structure SameOutput (pg : Pg V) (body body' : ResolvedQueryBody) : Prop where
  rowwise : ∀ orderBy,
    bodyRowwise pg.isAggregate body' orderBy = bodyRowwise pg.isAggregate body orderBy
  names : bodyNames body' = bodyNames body
  types : bodyTypes pg body' = bodyTypes pg body
  typeAt : ∀ index, bodyTypeAt index body' = bodyTypeAt index body
  pushes : ∀ predicate position, (predicatePushIntoBody predicate position body').isSome =
    (predicatePushIntoBody predicate position body).isSome

structure SameQuery (pg : Pg V) (query query' : ResolvedQueryExpr) : Prop where
  rowwise : queryRowwise pg.isAggregate query' = queryRowwise pg.isAggregate query
  names : queryNames query' = queryNames query
  types : queryTypes pg query' = queryTypes pg query
  typeAt : ∀ index, queryTypeAt index query' = queryTypeAt index query
  pushes : ∀ predicate position, (predicatePushIntoQuery predicate position query').isSome =
    (predicatePushIntoQuery predicate position query).isSome

theorem predicatePushIntoSelect_isSome (node : ResolvedSelectNode)
    (whereClause : Option ResolvedWhereExpr) (predicate : ResolvedWhereExpr)
    (position : String → Option Nat) :
    (predicatePushIntoSelect predicate position { node with whereClause }).isSome =
      (predicatePushIntoSelect predicate position node).isSome := by
  have branch : branchColumn position { node with whereClause } = branchColumn position node := rfl
  have safe : branchPushdownIsSafe { node with whereClause } = branchPushdownIsSafe node := rfl
  simp only [predicatePushIntoSelect, branch, safe, bind_eq_bind, Option.isSome_bind]
  rfl

theorem predicatePushIntoSetOp_isSome (op : SetOpType) (all : Bool)
    (left right : ResolvedQueryExpr) (predicate : ResolvedWhereExpr)
    (position : String → Option Nat) :
    (predicatePushIntoBody predicate position (.setOp op all left right)).isSome =
      ((predicatePushIntoQuery predicate position left).isSome &&
        (predicatePushIntoQuery predicate position right).isSome) := by
  simp only [predicatePushIntoBody]
  cases predicatePushIntoQuery predicate position left <;>
    cases predicatePushIntoQuery predicate position right <;> rfl

variable (pg)

omit [DecidableEq V] in
mutual

theorem sameOutput_body : ∀ (body : ResolvedQueryBody) {body' : ResolvedQueryBody},
    predicatePushIntoBody predicate position body = some body' → SameOutput pg body body'
  | .select node, body', pushed => by
    obtain ⟨select, inner, rfl⟩ := Option.map_eq_some_iff.mp pushed
    obtain ⟨-, nameToColumn, remapped, -, -, rfl⟩ := predicatePushIntoSelect_eq_some inner
    refine ⟨fun _ => rfl, by rw [bodyNames_select, bodyNames_select], rfl, fun _ => rfl,
      fun predicate position => ?_⟩
    simp only [predicatePushIntoBody, Option.isSome_map]
    exact predicatePushIntoSelect_isSome node _ predicate position
  | .setOp op all left right, body', pushed => by
    simp only [predicatePushIntoBody, bind_eq_bind, bind_eq_some_iff] at pushed
    obtain ⟨left', pushedLeft, right', pushedRight, he⟩ := pushed
    obtain rfl : .setOp op all left' right' = body' := Option.some_inj.mp he
    have l := sameOutput_query left pushedLeft
    have r := sameOutput_query right pushedRight
    refine ⟨fun _ => ?_, l.names, ?_, fun index => ?_, fun predicate position => ?_⟩
    · simp only [bodyRowwise, l.rowwise, r.rowwise]
    · simp only [bodyTypes, l.types, r.types]
    · simp only [bodyTypeAt, l.typeAt, r.typeAt]
    · rw [predicatePushIntoSetOp_isSome, predicatePushIntoSetOp_isSome, l.pushes, r.pushes]
  | .values _, _, pushed => by cases pushed

theorem sameOutput_query : ∀ (query : ResolvedQueryExpr) {query' : ResolvedQueryExpr},
    predicatePushIntoQuery predicate position query = some query' → SameQuery pg query query'
  | ⟨body, orderBy, limit⟩, query', pushed => by
    obtain ⟨body', inner, rfl⟩ := Option.map_eq_some_iff.mp pushed
    have same := sameOutput_body body inner
    refine ⟨?_, same.names, same.types, same.typeAt, fun predicate position => ?_⟩
    · simp only [queryRowwise, same.rowwise]
    · simp only [predicatePushIntoQuery, Option.isSome_map, same.pushes]

end

variable {pg}

mutual

theorem evalBody_push : ∀ (body : ResolvedQueryBody) {body' : ResolvedQueryBody}
    {orderBy : List ResolvedOrderByClause},
    predicatePushIntoBody predicate position body = some body' →
    bodyRowwise pg.isAggregate body orderBy = true → ReadsAt predicate position aliasName names →
    TypedIn predicate position (bodyTypeAt · body) → evalQuery pg db ⟨body', orderBy, none⟩ outer =
      (evalQuery pg db ⟨body, orderBy, none⟩ outer).filter fun row =>
        passes pg db predicate aliasName names outer row = true
  | .select node, body', orderBy, pushed, rowwise, reads, _ => by
    obtain ⟨select, inner, rfl⟩ := Option.map_eq_some_iff.mp pushed
    exact evalQuery_pushIntoSelect inner rowwise reads
  | .setOp op all left right, body', orderBy, pushed, rowwise, reads, typed => by
    simp only [predicatePushIntoBody, bind_eq_bind, bind_eq_some_iff] at pushed
    obtain ⟨left', pushedLeft, right', pushedRight, he⟩ := pushed
    obtain rfl : .setOp op all left' right' = body' := Option.some_inj.mp he
    simp only [bodyRowwise, Bool.and_eq_true] at rowwise
    have types : ∀ column ∈ whereNodes columns predicate, ∃ index dataType,
        position column.column = some index ∧ queryTypeAt index left = some dataType ∧
          queryTypeAt index right = some dataType := by
      intro column inside
      obtain ⟨dataType, found⟩ := Option.isSome_iff_exists.mp (typed column inside)
      obtain ⟨index, at_index, found⟩ := bind_eq_some_iff.mp found
      obtain ⟨same, found⟩ := Option.ite_none_right_eq_some.mp found
      exact ⟨index, dataType, at_index, found, same ▸ found⟩
    have kept : ∀ arm, (∀ index dataType, queryTypeAt index left = some dataType →
          queryTypeAt index right = some dataType → queryTypeAt index arm = some dataType) →
        ∀ row, passes pg db predicate aliasName names outer (pg.coerceRow (queryTypes pg arm)
            (zipWith pg.commonType (queryTypes pg left) (queryTypes pg right)) row) =
          passes pg db predicate aliasName names outer row := by
      intro arm own
      refine passes_coerceRow reads fun column inside => ?_
      obtain ⟨index, dataType, at_index, inLeft, inRight⟩ := types column inside
      refine ⟨index, dataType, at_index, queryTypes_of_typeAt (own _ _ inLeft inRight), ?_⟩
      rw [getElem?_zipWith_eq_some]
      exact ⟨_, _, queryTypes_of_typeAt inLeft, queryTypes_of_typeAt inRight,
        pg.commonType_self _⟩
    have typedLeft : TypedIn predicate position (queryTypeAt · left) := fun column inside => by
      obtain ⟨index, dataType, at_index, inLeft, -⟩ := types column inside
      rw [at_index]
      exact Option.isSome_iff_exists.mpr ⟨dataType, inLeft⟩
    have typedRight : TypedIn predicate position (queryTypeAt · right) := fun column inside => by
      obtain ⟨index, dataType, at_index, -, inRight⟩ := types column inside
      rw [at_index]
      exact Option.isSome_iff_exists.mpr ⟨dataType, inRight⟩
    simp only [evalQuery, evalBody, Multiset.map_map, Function.comp_def, Multiset.map_id']
    rw [(sameOutput_query pg left pushedLeft).types, (sameOutput_query pg right pushedRight).types,
      evalQuery_push left pushedLeft rowwise.1 reads typedLeft,
      evalQuery_push right pushedRight rowwise.2 reads typedRight, ← combine_filter,
      Multiset.filter_map, Multiset.filter_map]
    simp only [Function.comp_def, kept left fun _ _ inLeft _ => inLeft,
      kept right fun _ _ _ inRight => inRight]
  | .values _, _, _, pushed, _, _, _ => by cases pushed

/-- Pushing a predicate into a derived table filters its rows by that predicate. -/
theorem evalQuery_push : ∀ (query : ResolvedQueryExpr) {query' : ResolvedQueryExpr},
    predicatePushIntoQuery predicate position query = some query' →
    queryRowwise pg.isAggregate query = true → ReadsAt predicate position aliasName names →
    TypedIn predicate position (queryTypeAt · query) →
    evalQuery pg db query' outer = (evalQuery pg db query outer).filter fun row =>
        passes pg db predicate aliasName names outer row = true
  | ⟨body, orderBy, limit⟩, query', pushed, rowwise, reads, typed => by
    obtain ⟨body', inner, rfl⟩ := Option.map_eq_some_iff.mp pushed
    simp only [queryRowwise, Bool.and_eq_true, Option.isNone_iff_eq_none] at rowwise
    obtain ⟨rfl, rowwise⟩ := rowwise
    exact evalBody_push body inner rowwise reads typed

end

end Query

section Loop

variable {tableAlias : TableAlias} {position : String → Option Nat} {names : List String}
  {query : ResolvedQueryExpr} {conjunct : ResolvedWhereExpr}

/-- A conjunct that is pushed into a derived table may be: the rows of the derived table do not
depend on each other, and the conjunct means the columns it is remapped to, which have one type in
all arms. -/
def PushSafe (isAggregate : String → Bool) (tableAlias : TableAlias)
    (position : String → Option Nat) (query : ResolvedQueryExpr) (conjunct : ResolvedWhereExpr) :
    Prop :=
  conjunctPushable tableAlias.name conjunct = true →
    (predicatePushIntoQuery conjunct position query).isSome = true →
      queryRowwise isAggregate query = true ∧
        ReadsAt conjunct position tableAlias.name (derivedNames query tableAlias) ∧
        TypedIn conjunct position (queryTypeAt · query)

instance (isAggregate : String → Bool) (tableAlias : TableAlias) (position : String → Option Nat)
    (query : ResolvedQueryExpr) (conjunct : ResolvedWhereExpr) :
    Decidable (PushSafe isAggregate tableAlias position query conjunct) :=
  inferInstanceAs (Decidable (_ → _ → _ ∧ (∀ column ∈ whereNodes columns conjunct, _ ∧ _) ∧
    ∀ column ∈ whereNodes columns conjunct, _))

omit [DecidableEq V] in
theorem pushSafe_of_sameQuery {query query' : ResolvedQueryExpr} (same : SameQuery pg query query')
    (safe : PushSafe pg.isAggregate tableAlias position query conjunct) :
    PushSafe pg.isAggregate tableAlias position query' conjunct := by
  intro pushable pushed
  obtain ⟨rowwise, reads, typed⟩ := safe pushable (by rw [← same.pushes]; exact pushed)
  rw [same.rowwise, derivedNames, same.names]
  simp only [same.typeAt]
  exact ⟨rowwise, reads, typed⟩

def narrowed (pg : Pg V) (db : Database V) (outer : Env V) (aliasName : String)
    (names : List String) (state : ResolvedQueryExpr × List ResolvedWhereExpr) :
    Multiset (Tuple V) :=
  (evalQuery pg db state.1 outer).filter fun row =>
    (state.2.all fun conjunct => passes pg db conjunct aliasName names outer row) = true

theorem conjunctPush_step (rem : List ResolvedWhereExpr)
    (safe : PushSafe pg.isAggregate tableAlias position query conjunct)
    (sameNames : derivedNames query tableAlias = names) :
    narrowed pg db outer tableAlias.name names
        (conjunctPush tableAlias.name position (query, rem) conjunct) =
      narrowed pg db outer tableAlias.name names (query, rem ++ [conjunct]) := by
  unfold conjunctPush
  split
  · rename_i pushable
    split
    · rename_i newQuery pushed
      obtain ⟨rowwise, reads, typed⟩ := safe pushable (by rw [pushed]; rfl)
      rw [sameNames] at reads
      simp only [narrowed]
      rw [evalQuery_push query pushed rowwise reads typed, Multiset.filter_filter]
      exact Multiset.filter_congr fun row _ => by simp
    · rfl
  · rfl

theorem conjunctPush_cases (aliasName : String) (position : String → Option Nat)
    (query : ResolvedQueryExpr) (rem : List ResolvedWhereExpr) (conjunct : ResolvedWhereExpr) :
    (∃ query', predicatePushIntoQuery conjunct position query = some query' ∧
        conjunctPush aliasName position (query, rem) conjunct = (query', rem)) ∨
      conjunctPush aliasName position (query, rem) conjunct = (query, rem ++ [conjunct]) := by
  unfold conjunctPush
  split
  · split
    · rename_i query' pushed
      exact .inl ⟨query', pushed, rfl⟩
    · exact .inr rfl
  · exact .inr rfl

theorem narrowed_append (query : ResolvedQueryExpr) (rem more : List ResolvedWhereExpr)
    (aliasName : String) :
    narrowed pg db outer aliasName names (query, rem ++ more) =
      (narrowed pg db outer aliasName names (query, rem)).filter fun row =>
        (more.all fun conjunct => passes pg db conjunct aliasName names outer row) = true := by
  simp only [narrowed, Multiset.filter_filter]
  exact Multiset.filter_congr fun row _ => by simp [and_comm]

theorem foldl_conjunctPush {conjuncts : List ResolvedWhereExpr} (rem : List ResolvedWhereExpr)
    (safe : ∀ conjunct ∈ conjuncts, PushSafe pg.isAggregate tableAlias position query conjunct)
    (sameNames : derivedNames query tableAlias = names) :
    let final := conjuncts.foldl (conjunctPush tableAlias.name position) (query, rem)
    narrowed pg db outer tableAlias.name names final =
        narrowed pg db outer tableAlias.name names (query, rem ++ conjuncts) ∧
      queryNames final.1 = queryNames query := by
  induction conjuncts generalizing query rem with
  | nil => simp
  | cons conjunct conjuncts ih =>
    obtain ⟨first, rest⟩ := forall_mem_cons.mp safe
    have step : narrowed pg db outer tableAlias.name names _ = _ :=
      conjunctPush_step rem first sameNames
    simp only [foldl_cons]
    rw [append_cons]
    rcases conjunctPush_cases tableAlias.name position query rem conjunct with
      ⟨query', pushed, turn⟩ | turn
    · have same := sameOutput_query pg query pushed
      rw [turn] at step ⊢
      have safe' : ∀ conjunct ∈ conjuncts,
          PushSafe pg.isAggregate tableAlias position query' conjunct := fun conjunct hm =>
        pushSafe_of_sameQuery same (rest conjunct hm)
      obtain ⟨rows, final⟩ := ih rem safe' (by rw [derivedNames, same.names]; exact sameNames)
      refine ⟨?_, final.trans same.names⟩
      rw [rows, narrowed_append, step, ← narrowed_append]
    · rw [turn]
      exact ih (rem ++ [conjunct]) rest sameNames

end Loop

section Whole

/-- Every conjunct of the SELECT's WHERE that is pushed may be. -/
def selectPushdownSafe (isAggregate : String → Bool) (select : ResolvedSelectNode) : Bool :=
  match select.sources, select.whereClause with
  | [.subquery query tableAlias _], some whereClause =>
    query.limit.isSome || (conjunctsSplit whereClause).all fun conjunct =>
      PushSafe isAggregate tableAlias (nameToPosition (subqueryOutputColumnNames query)) query
        conjunct
  | _, _ => true

mutual

def bodyPushdownSafe (isAggregate : String → Bool) : ResolvedQueryBody → Bool
  | .select select => selectPushdownSafe isAggregate select
  | .setOp _ _ left right =>
    queryPushdownSafe isAggregate left && queryPushdownSafe isAggregate right
  | .values _ => true

/-- The condition on the SELECTs `predicate_pushdown_apply` rewrites: the query itself, or the
arms of its set operations. -/
def queryPushdownSafe (isAggregate : String → Bool) : ResolvedQueryExpr → Bool
  | ⟨body, _, _⟩ => bodyPushdownSafe isAggregate body

end

variable {select : ResolvedSelectNode}

theorem evalSources_subquery (query : ResolvedQueryExpr) (tableAlias : TableAlias)
    (kind : SubqueryKind) :
    evalSources pg db [.subquery query tableAlias kind] outer =
      (evalQuery pg db query outer).map fun row =>
        [⟨⟨none, tableAlias.name⟩, none, (derivedNames query tableAlias).zip row⟩] := by
  simp only [evalSources, evalSource, innerJoin, Multiset.bind_map]
  rw [← Multiset.bind_singleton]
  refine Multiset.bind_congr fun row _ => ?_
  rfl

theorem selectedFrames_derived {query : ResolvedQueryExpr}
    {tableAlias : TableAlias} {kind : SubqueryKind} {conjuncts : List ResolvedWhereExpr}
    (sources : select.sources = [.subquery query tableAlias kind])
    (meaning : ∀ scope : Scope V, clauseHolds pg db select.whereClause scope = true ↔
      ∀ conjunct ∈ conjuncts, Holds pg db conjunct scope) :
    selectedFrames pg db select outer =
      (narrowed pg db outer tableAlias.name (derivedNames query tableAlias) (query, conjuncts)).map
        fun row => [⟨⟨none, tableAlias.name⟩, none, (derivedNames query tableAlias).zip row⟩] := by
  simp only [selectedFrames, sources, evalSources_subquery, narrowed, Multiset.filter_map]
  congr 1
  refine Multiset.filter_congr fun row _ => ?_
  simp only [Function.comp_apply, meaning, all_eq_true, passes, clauseHolds, Holds,
    decide_eq_true_eq]
  rfl

theorem selectNodePushdownApply_columns (select : ResolvedSelectNode) :
    (selectNodePushdownApply select).columns = select.columns := by
  unfold selectNodePushdownApply
  split
  · split <;> rfl
  · rfl

theorem selectedFrames_pushdown {query : ResolvedQueryExpr}
    {tableAlias : TableAlias} {kind : SubqueryKind} {whereClause : ResolvedWhereExpr}
    {position : String → Option Nat}
    (sources : select.sources = [.subquery query tableAlias kind])
    (cl : select.whereClause = some whereClause)
    (safe : ∀ conjunct ∈ conjunctsSplit whereClause,
      PushSafe pg.isAggregate tableAlias position query conjunct)
    {final : ResolvedQueryExpr × List ResolvedWhereExpr}
    (loop : (conjunctsSplit whereClause).foldl (conjunctPush tableAlias.name position) (query, []) =
      final) :
    selectedFrames pg db { select with
        sources := [.subquery final.1 tableAlias kind]
        whereClause := conjunctsJoin final.2 } outer =
      selectedFrames pg db select outer := by
  obtain ⟨rows, names⟩ :
    narrowed pg db outer tableAlias.name (derivedNames query tableAlias) _ = _ ∧
      _ = _ := foldl_conjunctPush [] safe rfl
  rw [loop] at rows names
  have hb : selectedFrames pg db select outer = _ :=
    selectedFrames_derived sources fun scope => by
      rw [cl, clauseHolds_iff]
      simpa using holds_conjunctsSplit whereClause
  have after : selectedFrames pg db { select with
      sources := [.subquery final.1 tableAlias kind]
      whereClause := conjunctsJoin final.2 } outer = _ :=
    selectedFrames_derived rfl fun scope => clauseHolds_conjunctsJoin
  have sameNames : derivedNames final.1 tableAlias = derivedNames query tableAlias := by
    rw [derivedNames, names, derivedNames]
  rw [after, hb, sameNames, rows, nil_append]

theorem evalSelect_pushdown
    (safe : selectPushdownSafe pg.isAggregate select = true) (keys : Scope V → Tuple V) :
    evalSelect pg db (selectNodePushdownApply select) keys outer =
      evalSelect pg db select keys outer := by
  unfold selectNodePushdownApply
  unfold selectPushdownSafe at safe
  split
  · rename_i query tableAlias kind whereClause sources cl
    simp only [sources, cl] at safe
    split
    · rfl
    · rename_i unlimited
      have pushSafe : ∀ conjunct ∈ conjunctsSplit whereClause, PushSafe pg.isAggregate tableAlias
          (nameToPosition (subqueryOutputColumnNames query)) query conjunct := by
        simpa [unlimited] using safe
      rw [evalSelect_eq, evalSelect_eq, selectedFrames_pushdown sources cl pushSafe rfl]
      simp only [sources]
      rfl
  · rfl

mutual

theorem bodyNames_pushdown : ∀ body : ResolvedQueryBody,
    bodyNames (bodyPushdownApply body) = bodyNames body
  | .select select => by
    simp only [bodyPushdownApply, bodyNames_select, selectNodePushdownApply_columns]
  | .setOp _ _ left _ => by
    simp only [bodyPushdownApply, bodyNames, queryNames_pushdown left]
  | .values _ => rfl

theorem queryNames_pushdown : ∀ query : ResolvedQueryExpr,
    queryNames (predicatePushdownApply query) = queryNames query
  | ⟨body, _, _⟩ => by simp only [predicatePushdownApply, queryNames, bodyNames_pushdown body]

end

omit [DecidableEq V] in
mutual

theorem bodyTypes_pushdown : ∀ body : ResolvedQueryBody,
    bodyTypes pg (bodyPushdownApply body) = bodyTypes pg body
  | .select select => by
    simp only [bodyPushdownApply, bodyTypes, selectNodePushdownApply_columns]
  | .setOp _ _ left right => by
    simp only [bodyPushdownApply, bodyTypes, queryTypes_pushdown left, queryTypes_pushdown right]
  | .values _ => rfl

theorem queryTypes_pushdown : ∀ query : ResolvedQueryExpr,
    queryTypes pg (predicatePushdownApply query) = queryTypes pg query
  | ⟨body, _, _⟩ => by simp only [predicatePushdownApply, queryTypes, bodyTypes_pushdown body]

end

mutual

theorem evalBody_pushdown : ∀ (body : ResolvedQueryBody),
    bodyPushdownSafe pg.isAggregate body = true → ∀ (keys : Scope V → Tuple V) (outer : Env V),
    evalBody pg db (bodyPushdownApply body) keys outer = evalBody pg db body keys outer
  | .select select, safe, keys, outer => by
    simp only [bodyPushdownApply, evalBody]
    exact evalSelect_pushdown safe keys
  | .setOp op all left right, safe, keys, outer => by
    simp only [bodyPushdownSafe, Bool.and_eq_true] at safe
    simp only [bodyPushdownApply, evalBody]
    rw [evalQuery_pushdown left safe.1, evalQuery_pushdown right safe.2, queryNames_pushdown,
      queryTypes_pushdown, queryTypes_pushdown]
  | .values _, _, _, _ => rfl

theorem evalQuery_pushdown : ∀ (query : ResolvedQueryExpr),
    queryPushdownSafe pg.isAggregate query = true → ∀ outer : Env V,
    evalQuery pg db (predicatePushdownApply query) outer = evalQuery pg db query outer
  | ⟨body, orderBy, limit⟩, safe, outer => by
    simp only [predicatePushdownApply, evalQuery, evalBody_pushdown body safe]

end

end Whole

section Runs

def tColumn (name : String) (position : Nat) : ResolvedColumnNode :=
  ⟨"public", "t", none, name, ⟨name, position, .int4, position = 1⟩⟩

def dColumn (name : String) (position : Nat) : ResolvedColumnNode :=
  ⟨"", "d", some "d", name, ⟨name, position, .int4, false⟩⟩

def fromT : List ResolvedTableSource := [.table ⟨"public", "t", none, 1⟩]

def overDerived (first : ResolvedSelectColumn) : ResolvedQueryExpr :=
  ResolvedSelectNode.asQuery
    { distinct := false
      columns := [⟨.column (dColumn "c" 3), none⟩]
      sources := [.subquery (ResolvedSelectNode.asQuery
        { distinct := false
          columns := [first, ⟨.column (tColumn "b" 2), none⟩, ⟨.column (tColumn "c" 3), none⟩]
          sources := fromT
          whereClause := none
          groupBy := []
          having := none }) ⟨"d", []⟩ .inclusion]
      whereClause := some (.binary .equal (.scalar (.column (dColumn "c" 3)))
        (.scalar (.literal (.integer 7))))
      groupBy := []
      having := none }

def oneRow : Database Int := fun _ => {[("a", some 1), ("b", some 5), ("c", some 7)]}

end Runs

end PgCache.Query.Pushdown.Sound
