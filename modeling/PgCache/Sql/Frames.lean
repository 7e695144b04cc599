/- digest: Column lookup in a joined row that is extended on the right, conjunctions, and the
     shape of joined rows. -/
import PgCache.Sql.Congruence

set_option autoImplicit false

namespace PgCache.Sql.Frames

open Data.Kleene Data.OuterJoin Query.Resolved.Ast Query.Resolved.Traverse Semantics Congruence
open Binding

section Lookup

variable {V : Type} {column : ResolvedColumnNode} {frame extra : Frame V} {labels more : List Label}
  {outer : Env V}

end Lookup

section Conditions

variable {V : Type} [DecidableEq V] {pg : Pg V} {db : Database V} {scope : Scope V}

theorem holds_and {lexpr rexpr : ResolvedWhereExpr} : Holds pg db (.binary .and lexpr rexpr) scope ↔
      Holds pg db lexpr scope ∧ Holds pg db rexpr scope := by
  simp [Holds, evalWhere, Pg.binary]

theorem holds_conjunctsSplit : ∀ e : ResolvedWhereExpr,
    Holds pg db e scope ↔ ∀ cj ∈ conjunctsSplit e, Holds pg db cj scope
  | .binary op lexpr rexpr => by
    cases op with
    | and =>
      rw [holds_and, holds_conjunctsSplit lexpr, holds_conjunctsSplit rexpr]
      simp only [conjunctsSplit, List.forall_mem_append]
    | _ => simp [conjunctsSplit]
  | .scalar _ => by simp [conjunctsSplit]
  | .unary _ _ => by simp [conjunctsSplit]
  | .multi _ _ => by simp [conjunctsSplit]
  | .subquery .. => by simp [conjunctsSplit]

theorem clauseHolds_iff {cl : Option ResolvedWhereExpr} :
    clauseHolds pg db cl scope = true ↔ ∀ e ∈ cl, Holds pg db e scope := by
  cases cl <;> simp [clauseHolds, Holds]

private theorem holds_foldl (first : ResolvedWhereExpr) (rest : List ResolvedWhereExpr) :
    Holds pg db (rest.foldl (.binary .and) first) scope ↔
      Holds pg db first scope ∧ ∀ cj ∈ rest, Holds pg db cj scope := by
  induction rest generalizing first with
  | nil => simp
  | cons next rest ih => rw [List.foldl_cons, ih, holds_and, List.forall_mem_cons, and_assoc]

theorem clauseHolds_conjunctsJoin {conjuncts : List ResolvedWhereExpr} :
    clauseHolds pg db (conjunctsJoin conjuncts) scope = true ↔
      ∀ cj ∈ conjuncts, Holds pg db cj scope := by
  rw [clauseHolds_iff]
  cases conjuncts with
  | nil => simp [conjunctsJoin]
  | cons first rest => simp [conjunctsJoin, holds_foldl]

end Conditions

section Rows

private theorem labels_padding {V : Type} (labels : List Label) :
    (labels.map (padding (V := V))).map label = labels := by
  simp [padding, Function.comp_def]

variable {V : Type} [DecidableEq V] {pg : Pg V} {db : Database V} {node : ResolvedSelectNode}
  {outer : Env V}

omit [DecidableEq V] in
theorem mem_joinFrames {joinType : JoinType} {leftLabels rightLabels : List Label}
    {on : Frame V → Frame V → Bool} {left right : Multiset (Frame V)} {frame : Frame V} :
    frame ∈ joinFrames joinType leftLabels rightLabels on left right ↔
      (∃ a ∈ left, ∃ b ∈ right, on a b = true ∧ a ++ b = frame) ∨
        (joinType = .left ∨ joinType = .full) ∧
          (∃ a ∈ left, (∀ b ∈ right, on a b = false) ∧ a ++ rightLabels.map .padding = frame) ∨
        (joinType = .right ∨ joinType = .full) ∧
          ∃ b ∈ right, (∀ a ∈ left, on a b = false) ∧ leftLabels.map .padding ++ b = frame := by
  cases joinType with
  | inner => simp [joinFrames, mem_innerJoin]
  | left => simp [joinFrames, mem_leftJoin]
  | right =>
    have swap : (∃ b ∈ right, ∃ a ∈ left, on a b = true ∧ a ++ b = frame) ↔
        ∃ a ∈ left, ∃ b ∈ right, on a b = true ∧ a ++ b = frame := by
      constructor
      · rintro ⟨b, hb, a, ha, rest⟩
        exact ⟨a, ha, b, hb, rest⟩
      · rintro ⟨a, ha, b, hb, rest⟩
        exact ⟨b, hb, a, ha, rest⟩
    simp [joinFrames, mem_rightJoin, swap]
  | full => simp [joinFrames, mem_fullJoin]

theorem labels_evalSource : ∀ {source : ResolvedTableSource} {outer : Env V} {frame : Frame V},
    frame ∈ evalSource pg db source outer → frame.map label = sourceLabels source
  | .table node, _, frame, hm => by
    simp only [evalSource, Multiset.mem_map] at hm
    obtain ⟨row, -, rfl⟩ := hm
    simp [sourceLabels]
  | .subquery q al _, _, frame, hm => by
    simp only [evalSource, Multiset.mem_map] at hm
    obtain ⟨row, -, rfl⟩ := hm
    simp [sourceLabels]
  | .join joinType left right qual, outer, frame, hm => by
    have ihl := @labels_evalSource left outer
    have ihr := @labels_evalSource right outer
    simp only [evalSource] at hm
    rcases mem_joinFrames.mp hm with
      ⟨a, ha, b, hb, -, rfl⟩ | ⟨-, a, ha, -, rfl⟩ | ⟨-, b, hb, -, rfl⟩
    · rw [List.map_append, ihl ha, ihr hb, sourceLabels]
    · rw [List.map_append, ihl ha, labels_padding, sourceLabels]
    · rw [List.map_append, labels_padding, ihr hb, sourceLabels]

theorem mem_selectedFrames {frame : Frame V} : frame ∈ selectedFrames pg db node outer ↔
      frame ∈ evalSources pg db node.sources outer ∧ clauseHolds pg db node.whereClause
          (rowScope (extend outer (sourcesLabels node.sources) frame)) = true :=
  Multiset.mem_filter

end Rows

section Ungrouped

variable (isAggregate : String → Bool)

mutual

def scalarPlain : ResolvedScalarExpr → Bool
  | .column _ | .identifier _ | .literal _ | .subquery .. => true
  | .function call => callPlain call
  | .case arg whens default => optionalPlain arg && whensPlain whens && optionalPlain default
  | .arithmetic left _ right => scalarPlain left && scalarPlain right
  | .array elements => scalarsPlain elements
  | .typeCast expr _ => scalarPlain expr

def optionalPlain : Option ResolvedScalarExpr → Bool
  | none => true
  | some expr => scalarPlain expr

def scalarsPlain : List ResolvedScalarExpr → Bool
  | [] => true
  | expr :: exprs => scalarPlain expr && scalarsPlain exprs

def callPlain : ResolvedFunctionCall → Bool
  | ⟨name, args, _, _, _, _, overSpec⟩ =>
    scalarsPlain args && overSpec.isNone && !isAggregate name

def whensPlain : List ResolvedCaseWhen → Bool
  | [] => true
  | ⟨condition, result⟩ :: whens => wherePlain condition && scalarPlain result && whensPlain whens

def wherePlain : ResolvedWhereExpr → Bool
  | .scalar expr => scalarPlain expr
  | .unary _ expr => wherePlain expr
  | .binary _ lexpr rexpr => wherePlain lexpr && wherePlain rexpr
  | .multi _ exprs => wheresPlain exprs
  | .subquery _ _ testExpr _ => optionalPlain testExpr

def wheresPlain : List ResolvedWhereExpr → Bool
  | [] => true
  | expr :: exprs => wherePlain expr && wheresPlain exprs

end

variable {V : Type} [DecidableEq V] {pg : Pg V} {db : Database V} {env : Env V}
  {output : String → Option V} {group group' : Multiset (Env V)}
  {peers peers' : Multiset (Current V)}

mutual

theorem evalScalar_plain : ∀ e : ResolvedScalarExpr, scalarPlain pg.isAggregate e = true →
    evalScalar pg db e ⟨env, group, peers, output⟩ =
      evalScalar pg db e ⟨env, group', peers', output⟩
  | .column _, _ => by simp only [evalScalar]
  | .identifier _, _ => by simp only [evalScalar]
  | .literal _, _ => by simp only [evalScalar]
  | .subquery .., _ => by simp only [evalScalar]
  | .function ⟨name, args, _, _, _, _, overSpec⟩, plain => by
    simp only [scalarPlain, callPlain, Bool.and_eq_true, Bool.not_eq_true',
      Option.isNone_iff_eq_none] at plain
    obtain ⟨⟨args_, rfl⟩, scalar⟩ := plain
    simp only [evalScalar, evalCall, scalar, Bool.false_eq_true, if_false,
      evalScalars_plain args args_]
  | .case arg whens default, plain => by
    simp only [scalarPlain, Bool.and_eq_true] at plain
    simp only [evalScalar, evalOptional_plain arg plain.1.1, evalWhens_plain whens plain.1.2,
      evalOptional_plain default plain.2]
  | .arithmetic left _ right, plain => by
    simp only [scalarPlain, Bool.and_eq_true] at plain
    simp only [evalScalar, evalScalar_plain left plain.1, evalScalar_plain right plain.2]
  | .array elements, plain => by
    simp only [scalarPlain] at plain
    simp only [evalScalar, evalScalars_plain elements plain]
  | .typeCast e _, plain => by
    simp only [scalarPlain] at plain
    simp only [evalScalar, evalScalar_plain e plain]

theorem evalOptional_plain : ∀ e : Option ResolvedScalarExpr,
    optionalPlain pg.isAggregate e = true →
    evalOptional pg db e ⟨env, group, peers, output⟩ =
      evalOptional pg db e ⟨env, group', peers', output⟩
  | none, _ => rfl
  | some e, plain => by
    simp only [optionalPlain] at plain
    simp only [evalOptional, evalScalar_plain e plain]

theorem evalScalars_plain : ∀ exprs : List ResolvedScalarExpr,
    scalarsPlain pg.isAggregate exprs = true →
    evalScalars pg db exprs ⟨env, group, peers, output⟩ =
      evalScalars pg db exprs ⟨env, group', peers', output⟩
  | [], _ => rfl
  | e :: exprs, plain => by
    simp only [scalarsPlain, Bool.and_eq_true] at plain
    simp only [evalScalars, evalScalar_plain e plain.1, evalScalars_plain exprs plain.2]

theorem evalWhens_plain : ∀ (whens : List ResolvedCaseWhen),
    whensPlain pg.isAggregate whens = true → ∀ {subject : Option (Option V)},
    evalWhens pg db whens subject ⟨env, group, peers, output⟩ =
      evalWhens pg db whens subject ⟨env, group', peers', output⟩
  | [], _, _ => rfl
  | ⟨condition, result⟩ :: whens, plain, _ => by
    simp only [whensPlain, Bool.and_eq_true] at plain
    simp only [evalWhens, evalWhere_plain condition plain.1.1, evalScalar_plain result plain.1.2,
      evalWhens_plain whens plain.2]

theorem evalWhere_plain : ∀ e : ResolvedWhereExpr, wherePlain pg.isAggregate e = true →
    evalWhere pg db e ⟨env, group, peers, output⟩ = evalWhere pg db e ⟨env, group', peers', output⟩
  | .scalar e, plain => by
    simp only [wherePlain] at plain
    simp only [evalWhere, evalScalar_plain e plain]
  | .unary _ e, plain => by
    simp only [wherePlain] at plain
    simp only [evalWhere, evalWhere_plain e plain]
  | .binary _ lexpr rexpr, plain => by
    simp only [wherePlain, Bool.and_eq_true] at plain
    simp only [evalWhere, evalWhere_plain lexpr plain.1, evalWhere_plain rexpr plain.2]
  | .multi _ exprs, plain => by
    simp only [wherePlain] at plain
    simp only [evalWhere, evalWheres_plain exprs plain]
  | .subquery _ _ testExpr _, plain => by
    simp only [wherePlain] at plain
    simp only [evalWhere, evalOptional_plain testExpr plain]

theorem evalWheres_plain : ∀ exprs : List ResolvedWhereExpr,
    wheresPlain pg.isAggregate exprs = true →
    evalWheres pg db exprs ⟨env, group, peers, output⟩ =
      evalWheres pg db exprs ⟨env, group', peers', output⟩
  | [], _ => rfl
  | e :: exprs, plain => by
    simp only [wheresPlain, Bool.and_eq_true] at plain
    simp only [evalWheres, evalWhere_plain e plain.1, evalWheres_plain exprs plain.2]

end

end Ungrouped

end PgCache.Sql.Frames
