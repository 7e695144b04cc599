/- source: query/resolved/mod.rs
   digest: The derived equality of resolved trees, which takes no notice of a column's alias. -/
import PgCache.Query.Resolved.Ast

set_option autoImplicit false

namespace PgCache.Query.Resolved.Same

open Ast

def sameColumns (as bs : List ResolvedColumnNode) : Bool :=
  as.length = bs.length ∧ ∀ pair ∈ as.zip bs, pair.1.same pair.2

mutual

def scalarSame : ResolvedScalarExpr → ResolvedScalarExpr → Bool
  | .column a, .column b => a.same b
  | .identifier a, .identifier b => a = b
  | .function a, .function b => callSame a b
  | .literal a, .literal b => a = b
  | .case arg whens default, .case arg' whens' default' =>
    optionalSame arg arg' && whensSame whens whens' && optionalSame default default'
  | .arithmetic left op right, .arithmetic left' op' right' =>
    scalarSame left left' && op = op' && scalarSame right right'
  | .subquery query refs, .subquery query' refs' => querySame query query' && sameColumns refs refs'
  | .array elements, .array elements' => scalarsSame elements elements'
  | .typeCast expr target, .typeCast expr' target' => scalarSame expr expr' && target = target'
  | _, _ => false
termination_by structural a => a

def optionalSame : Option ResolvedScalarExpr → Option ResolvedScalarExpr → Bool
  | none, none => true
  | some a, some b => scalarSame a b
  | _, _ => false
termination_by structural a => a

def scalarsSame : List ResolvedScalarExpr → List ResolvedScalarExpr → Bool
  | [], [] => true
  | a :: as, b :: bs => scalarSame a b && scalarsSame as bs
  | _, _ => false
termination_by structural a => a

def callSame : ResolvedFunctionCall → ResolvedFunctionCall → Bool
  | ⟨name, args, aggStar, aggDistinct, aggOrder, aggFilter, overSpec⟩,
    ⟨name', args', aggStar', aggDistinct', aggOrder', aggFilter', overSpec'⟩ =>
      name = name' && scalarsSame args args' && aggStar = aggStar' && aggDistinct = aggDistinct' &&
        ordersSame aggOrder aggOrder' && clauseSame aggFilter aggFilter' && overSame
          overSpec overSpec'
termination_by structural a => a

def overSame : Option ResolvedWindowSpec → Option ResolvedWindowSpec → Bool
  | none, none => true
  | some a, some b => windowSame a b
  | _, _ => false
termination_by structural a => a

def windowSame : ResolvedWindowSpec → ResolvedWindowSpec → Bool
  | ⟨partitionBy, orderBy, frame⟩, ⟨partitionBy', orderBy', frame'⟩ =>
    scalarsSame partitionBy partitionBy' && ordersSame orderBy orderBy' && frameSame frame frame'
termination_by structural a => a

def frameSame : Option ResolvedWindowFrame → Option ResolvedWindowFrame → Bool
  | none, none => true
  | some ⟨mode, start, stop, exclusion⟩, some ⟨mode', start', stop', exclusion'⟩ =>
    mode = mode' && boundSame start start' && boundSame stop stop' && exclusion = exclusion'
  | _, _ => false
termination_by structural a => a

def boundSame : ResolvedFrameBound → ResolvedFrameBound → Bool
  | .unboundedPreceding, .unboundedPreceding | .currentRow, .currentRow
  | .unboundedFollowing, .unboundedFollowing => true
  | .offsetPreceding a, .offsetPreceding b | .offsetFollowing a, .offsetFollowing b =>
    scalarSame a b
  | _, _ => false
termination_by structural a => a

def whensSame : List ResolvedCaseWhen → List ResolvedCaseWhen → Bool
  | [], [] => true
  | ⟨condition, result⟩ :: as, ⟨condition', result'⟩ :: bs =>
    whereSame condition condition' && scalarSame result result' && whensSame as bs
  | _, _ => false
termination_by structural a => a

def ordersSame : List ResolvedOrderByClause → List ResolvedOrderByClause → Bool
  | [], [] => true
  | ⟨expr, direction, nullOrder⟩ :: as, ⟨expr', direction', nullOrder'⟩ :: bs =>
    scalarSame expr expr' && direction = direction' && nullOrder = nullOrder' && ordersSame as bs
  | _, _ => false
termination_by structural a => a

def whereSame : ResolvedWhereExpr → ResolvedWhereExpr → Bool
  | .scalar a, .scalar b => scalarSame a b
  | .unary op a, .unary op' b => op = op' && whereSame a b
  | .binary op a b, .binary op' a' b' => op = op' && whereSame a a' && whereSame b b'
  | .multi op as, .multi op' bs => op = op' && wheresSame as bs
  | .subquery query link test refs, .subquery query' link' test' refs' =>
    querySame query query' && link = link' && optionalSame test test' && sameColumns refs refs'
  | _, _ => false
termination_by structural a => a

def clauseSame : Option ResolvedWhereExpr → Option ResolvedWhereExpr → Bool
  | none, none => true
  | some a, some b => whereSame a b
  | _, _ => false
termination_by structural a => a

def wheresSame : List ResolvedWhereExpr → List ResolvedWhereExpr → Bool
  | [], [] => true
  | a :: as, b :: bs => whereSame a b && wheresSame as bs
  | _, _ => false
termination_by structural a => a

def columnsSame : List ResolvedSelectColumn → List ResolvedSelectColumn → Bool
  | [], [] => true
  | ⟨expr, aliasName⟩ :: as, ⟨expr', aliasName'⟩ :: bs =>
    scalarSame expr expr' && aliasName = aliasName' && columnsSame as bs
  | _, _ => false
termination_by structural a => a

def qualSame : ResolvedJoinQual → ResolvedJoinQual → Bool
  | .on a, .on b => whereSame a b
  | .using columns a, .using columns' b => columns = columns' && whereSame a b
  | .cross, .cross => true
  | _, _ => false
termination_by structural a => a

def sourceSame : ResolvedTableSource → ResolvedTableSource → Bool
  | .table a, .table b => a = b
  | .subquery query tableAlias kind, .subquery query' tableAlias' kind' =>
    querySame query query' && tableAlias = tableAlias' && kind = kind'
  | .join joinType left right qual, .join joinType' left' right' qual' =>
    joinType = joinType' && sourceSame left left' && sourceSame right right' && qualSame qual qual'
  | _, _ => false
termination_by structural a => a

def sourcesSame : List ResolvedTableSource → List ResolvedTableSource → Bool
  | [], [] => true
  | a :: as, b :: bs => sourceSame a b && sourcesSame as bs
  | _, _ => false
termination_by structural a => a

def selectSame : ResolvedSelectNode → ResolvedSelectNode → Bool
  | ⟨distinct, columns, sources, whereClause, groupBy, having⟩,
    ⟨distinct', columns', sources', whereClause', groupBy', having'⟩ =>
      distinct = distinct' && columnsSame columns columns' && sourcesSame sources sources' &&
        clauseSame whereClause whereClause' && sameColumns groupBy groupBy' &&
        clauseSame having having'
termination_by structural a => a

def bodySame : ResolvedQueryBody → ResolvedQueryBody → Bool
  | .select a, .select b => selectSame a b
  | .values a, .values b => a = b
  | .setOp op all left right, .setOp op' all' left' right' =>
    op = op' && all = all' && querySame left left' && querySame right right'
  | _, _ => false
termination_by structural a => a

def querySame : ResolvedQueryExpr → ResolvedQueryExpr → Bool
  | ⟨body, orderBy, limit⟩, ⟨body', orderBy', limit'⟩ =>
    bodySame body body' && ordersSame orderBy orderBy' && limit = limit'
termination_by structural a => a

end

end PgCache.Query.Resolved.Same
