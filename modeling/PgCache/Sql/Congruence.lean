/- digest: What a query reads of the enclosing queries, and when it gives the same result on
     two databases: its SELECTs select the same joined rows. -/
import PgCache.Query.Resolved.Traverse
import PgCache.Sql.Semantics

set_option autoImplicit false

namespace PgCache.Sql.Congruence

open Data.OuterJoin Query.Resolved.Ast Query.Resolved.Traverse Semantics List List.Subset

def unanswered (labels : List Label) (columns : List ResolvedColumnNode) :
    List ResolvedColumnNode :=
  columns.filter fun column => !answered labels column

mutual

def scalarFree : ResolvedScalarExpr → List ResolvedColumnNode
  | .column column => [column]
  | .identifier _ | .literal _ => []
  | .function call => callFree call
  | .case arg whens default =>
    optionalFree arg ++ whensFree whens ++ optionalFree default
  | .arithmetic left _ right => scalarFree left ++ scalarFree right
  | .subquery query _ => queryFree query
  | .array elements => scalarsFree elements
  | .typeCast expr _ => scalarFree expr

def optionalFree : Option ResolvedScalarExpr → List ResolvedColumnNode
  | none => []
  | some expr => scalarFree expr

def scalarsFree : List ResolvedScalarExpr → List ResolvedColumnNode
  | [] => []
  | expr :: exprs => scalarFree expr ++ scalarsFree exprs

def callFree : ResolvedFunctionCall → List ResolvedColumnNode
  | ⟨_, args, _, _, aggOrder, aggFilter, overSpec⟩ =>
    scalarsFree args ++ orderFree aggOrder ++ clauseFree aggFilter ++ overFree overSpec

def overFree : Option ResolvedWindowSpec → List ResolvedColumnNode
  | none => []
  | some spec => windowFree spec

def windowFree : ResolvedWindowSpec → List ResolvedColumnNode
  | ⟨partitionBy, orderBy, frame⟩ =>
    scalarsFree partitionBy ++ orderFree orderBy ++ frameFree frame

def frameFree : Option ResolvedWindowFrame → List ResolvedColumnNode
  | none => []
  | some ⟨_, start, stop, _⟩ => boundFree start ++ boundFree stop

def boundFree : ResolvedFrameBound → List ResolvedColumnNode
  | .offsetPreceding offset | .offsetFollowing offset => scalarFree offset
  | .unboundedPreceding | .currentRow | .unboundedFollowing => []

def whensFree : List ResolvedCaseWhen → List ResolvedColumnNode
  | [] => []
  | ⟨condition, result⟩ :: whens => whereFree condition ++ scalarFree result ++ whensFree whens

def orderFree : List ResolvedOrderByClause → List ResolvedColumnNode
  | [] => []
  | ⟨expr, _, _⟩ :: clauses => scalarFree expr ++ orderFree clauses

def whereFree : ResolvedWhereExpr → List ResolvedColumnNode
  | .scalar expr => scalarFree expr
  | .unary _ expr => whereFree expr
  | .binary _ lexpr rexpr => whereFree lexpr ++ whereFree rexpr
  | .multi _ exprs => wheresFree exprs
  | .subquery query _ testExpr _ =>
    queryFree query ++ optionalFree testExpr

def clauseFree : Option ResolvedWhereExpr → List ResolvedColumnNode
  | none => []
  | some expr => whereFree expr

def wheresFree : List ResolvedWhereExpr → List ResolvedColumnNode
  | [] => []
  | expr :: exprs => whereFree expr ++ wheresFree exprs

def columnsFree : List ResolvedSelectColumn → List ResolvedColumnNode
  | [] => []
  | ⟨expr, _⟩ :: columns => scalarFree expr ++ columnsFree columns

def qualFree : ResolvedJoinQual → List ResolvedColumnNode
  | .on predicate | .using _ predicate => whereFree predicate
  | .cross => []

def sourceFree : ResolvedTableSource → List ResolvedColumnNode
  | .table _ => []
  | .subquery query _ _ => queryFree query
  | .join _ left right qual =>
    sourceFree left ++ sourceFree right ++
      unanswered (sourceLabels left ++ sourceLabels right) (qualFree qual)

def sourcesFree : List ResolvedTableSource → List ResolvedColumnNode
  | [] => []
  | source :: sources => sourceFree source ++ sourcesFree sources

def selectFree : ResolvedSelectNode → List ResolvedColumnNode
  | ⟨_, columns, sources, whereClause, groupBy, having⟩ =>
    sourcesFree sources ++ unanswered (sourcesLabels sources)
        (clauseFree whereClause ++ groupBy ++ clauseFree having ++ columnsFree columns)

def bodyFree : ResolvedQueryBody → List ResolvedColumnNode → List ResolvedColumnNode
  | .select node, ordered =>
    selectFree node ++ unanswered (sourcesLabels node.sources) ordered
  | .values _, ordered => ordered
  | .setOp _ _ left right, ordered => queryFree left ++ queryFree right ++ ordered

def queryFree : ResolvedQueryExpr → List ResolvedColumnNode
  | ⟨body, orderBy, _⟩ => bodyFree body (orderFree orderBy)

end

section Agreement

variable {V : Type} {columns more : List ResolvedColumnNode}

def EnvAgree (columns : List ResolvedColumnNode) (a b : Env V) : Prop :=
  ∀ column ∈ columns, a column = b column

structure CurrentAgree (columns : List ResolvedColumnNode) (a b : Current V) : Prop where
  env : EnvAgree columns a.env b.env
  group : Multiset.Rel (EnvAgree columns) a.group b.group

/-- Two scopes that give the same values to some columns, row by row. -/
structure Agree (columns : List ResolvedColumnNode) (a b : Scope V) : Prop where
  env : EnvAgree columns a.env b.env
  group : Multiset.Rel (EnvAgree columns) a.group b.group
  peers : Multiset.Rel (CurrentAgree columns) a.peers b.peers
  output : a.output = b.output

theorem EnvAgree.mono {a b : Env V} (agree : EnvAgree more a b) (hw : columns ⊆ more) :
    EnvAgree columns a b :=
  fun c hm => agree c (hw hm)

theorem EnvAgree.append {a b : Env V} :
    EnvAgree (columns ++ more) a b ↔ EnvAgree columns a b ∧ EnvAgree more a b :=
  forall_mem_append

theorem CurrentAgree.mono {a b : Current V} (agree : CurrentAgree more a b)
    (hw : columns ⊆ more) : CurrentAgree columns a b where
  env := agree.env.mono hw
  group := agree.group.mono fun _ _ _ _ same => same.mono hw

theorem Agree.mono {a b : Scope V} (agree : Agree more a b) (hw : columns ⊆ more) :
    Agree columns a b where
  env := agree.env.mono hw
  group := agree.group.mono fun _ _ _ _ same => same.mono hw
  peers := agree.peers.mono fun _ _ _ _ same => same.mono hw
  output := agree.output

theorem Agree.left {a b : Scope V} (agree : Agree (columns ++ more) a b) : Agree columns a b :=
  agree.mono (subset_append_left ..)

theorem Agree.right {a b : Scope V} (agree : Agree (columns ++ more) a b) : Agree more a b :=
  agree.mono (subset_append_right ..)

theorem agree_rowScope {a b : Env V} (agree : EnvAgree columns a b) :
    Agree columns (rowScope a) (rowScope b) :=
  ⟨agree, .zero, .zero, rfl⟩

theorem Agree.members {a b : Scope V} (agree : Agree columns a b) :
    Multiset.Rel (Agree columns) a.members b.members :=
  Multiset.rel_map.mpr (agree.group.mono fun _ _ _ _ same => agree_rowScope same)

theorem Agree.partition {a b : Scope V} (agree : Agree columns a b) :
    Multiset.Rel (Agree columns) a.partition b.partition :=
  Multiset.rel_map.mpr
    (agree.peers.mono fun _ _ _ _ same => ⟨same.env, same.group, agree.peers, agree.output⟩)

end Agreement

section Related

variable {α β γ : Type} {related : α → β → Prop} {s : Multiset α} {t : Multiset β}

theorem map_eq_of_rel {f : α → γ} {g : β → γ} (rel : Multiset.Rel related s t)
    (same : ∀ a b, related a b → f a = g b) : s.map f = t.map g := by
  rw [← Multiset.rel_eq, Multiset.rel_map]
  exact rel.mono fun a _ b _ => same a b

theorem filter_of_rel {p : α → Bool} {q : β → Bool} (rel : Multiset.Rel related s t)
    (same : ∀ a b, related a b → p a = q b) :
    Multiset.Rel related (s.filter fun a => p a = true) (t.filter fun b => q b = true) := by
  induction rel with
  | zero => exact .zero
  | @cons a b s t pair _ ih =>
    cases kept : p a with
    | true =>
      rw [Multiset.filter_cons_of_pos (p := fun a => p a = true) _ kept,
        Multiset.filter_cons_of_pos (p := fun b => q b = true) _ ((same a b pair).symm.trans kept)]
      exact .cons pair ih
    | false =>
      rw [Multiset.filter_cons_of_neg (p := fun a => p a = true) _ (by simp [kept]),
        Multiset.filter_cons_of_neg (p := fun b => q b = true) _ (by simp [← same a b pair, kept])]
      exact ih

end Related

section Rows

variable {V : Type} {columns : List ResolvedColumnNode} {labels : List Label} {outer outer' : Env V}

theorem envAgree_extend (agree : EnvAgree (unanswered labels columns) outer outer')
    (frame : Frame V) : EnvAgree columns (extend outer labels frame)
      (extend outer' labels frame) := by
  intro c hm
  unfold extend
  split
  · rfl
  · rename_i outside
    exact agree c (mem_filter.mpr ⟨hm, by simpa using outside⟩)

theorem project_eq {names : List String} {rows rows' : Multiset (Current V)}
    {keeps keeps' : Scope V → Bool} {select select' keys keys' : Scope V → Tuple V}
    (related : Multiset.Rel (CurrentAgree columns) rows rows')
    (sameKeeps : ∀ a b, Agree columns a b → keeps a = keeps' b)
    (sameSelect : ∀ a b, Agree columns a b → select a = select' b)
    (sameKeys : ∀ a b, Agree columns a b → keys a = keys' b) :
    project names rows keeps select keys = project names rows' keeps' select' keys' := by
  have kept := filter_of_rel (p := fun row => keeps ⟨row.env, row.group, 0, fun _ => none⟩)
    (q := fun row => keeps' ⟨row.env, row.group, 0, fun _ => none⟩) related
    fun a b same => sameKeeps _ _ ⟨same.env, same.group, .zero, rfl⟩
  refine map_eq_of_rel kept fun a b same => ?_
  have outputs := sameSelect _ _ (⟨same.env, same.group, kept, rfl⟩ :
      Agree columns ⟨a.env, a.group, _, fun _ => none⟩ ⟨b.env, b.group, _, fun _ => none⟩)
  exact Prod.ext (sameKeys _ _ ⟨same.env, same.group, kept, congrArg (named names) outputs⟩) outputs

variable [DecidableEq V]

theorem envAgree_extendGroup (agree : EnvAgree (unanswered labels columns) outer outer')
    (members : Multiset (Frame V)) :
    EnvAgree columns (extendGroup outer labels members) (extendGroup outer' labels members) := by
  intro c hm
  unfold extendGroup
  split
  · rfl
  · rename_i outside
    exact agree c (mem_filter.mpr ⟨hm, by simpa using outside⟩)

theorem rel_map_self {α β : Type} {related : β → β → Prop} {f g : α → β} (s : Multiset α)
    (same : ∀ a, related (f a) (g a)) : Multiset.Rel related (s.map f) (s.map g) :=
  Multiset.rel_map.mpr (Multiset.rel_refl_of_refl_on fun a _ => same a)

theorem currents_agree (columns : List ResolvedColumnNode) (isGrouped : Bool)
    {groupBy : List ResolvedColumnNode}
    (frames : Multiset (Frame V)) (keys : EnvAgree (unanswered labels groupBy) outer outer')
    (agree : EnvAgree (unanswered labels columns) outer outer') :
    Multiset.Rel (CurrentAgree columns) (currents isGrouped groupBy outer labels frames)
      (currents isGrouped groupBy outer' labels frames) := by
  have mem : ∀ members : Multiset (Frame V), CurrentAgree columns
      ⟨extendGroup outer labels members, members.map (extend outer labels)⟩
      ⟨extendGroup outer' labels members, members.map (extend outer' labels)⟩ := fun members =>
    ⟨envAgree_extendGroup agree members,
      rel_map_self members fun frame => envAgree_extend agree frame⟩
  have sameKey : ∀ frame : Frame V, groupBy.map (extend outer labels frame) =
      groupBy.map (extend outer' labels frame) := fun frame =>
    map_congr_left fun c hm => envAgree_extend keys frame c hm
  unfold currents
  split
  · split
    · exact .cons (mem frames) .zero
    · simp only [sameKey]
      exact rel_map_self _ fun v => mem _
  · exact rel_map_self _ fun frame => ⟨envAgree_extend agree frame, .zero⟩

end Rows

section Databases

variable {V : Type} [DecidableEq V] (pg : Pg V) (db db' : Database V)

/-- The subqueries and conditions of a FROM item give the same on two databases. -/
def SourceAgrees (outer outer' : Env V) : ResolvedTableSource → Prop
  | .table _ => True
  | .subquery query _ _ => evalQuery pg db query outer = evalQuery pg db' query outer'
  | .join _ left right qual =>
    SourceAgrees outer outer' left ∧ SourceAgrees outer outer' right ∧ ∀ frame : Frame V,
        qualHolds pg db qual
            (rowScope (extend outer (sourceLabels left ++ sourceLabels right) frame)) =
          qualHolds pg db' qual
            (rowScope (extend outer' (sourceLabels left ++ sourceLabels right) frame))

def SelectsAlike (node : ResolvedSelectNode) : Prop :=
  ∀ outer outer' : Env V, EnvAgree (selectFree node) outer outer' →
    (∀ source ∈ node.sources, SourceAgrees pg db db' outer outer' source) →
    (∀ frame : Frame V, clauseHolds pg db node.whereClause
          (rowScope (extend outer (sourcesLabels node.sources) frame)) =
        clauseHolds pg db' node.whereClause
          (rowScope (extend outer' (sourcesLabels node.sources) frame))) →
    selectedFrames pg db node outer = selectedFrames pg db' node outer'

def Alike (nodes : List ResolvedSelectNode) : Prop :=
  ∀ node ∈ nodes, SelectsAlike pg db db' node

variable {pg db db'}

theorem Alike.left {nodes more : List ResolvedSelectNode}
    (alike : Alike pg db db' (nodes ++ more)) :
    Alike pg db db' nodes :=
  (forall_mem_append.mp alike).1

theorem Alike.right {nodes more : List ResolvedSelectNode}
    (alike : Alike pg db db' (nodes ++ more)) :
    Alike pg db db' more :=
  (forall_mem_append.mp alike).2

mutual

theorem evalScalar_congr : ∀ (e : ResolvedScalarExpr) {a b : Scope V},
    Alike pg db db' (scalarNodes selects e) →
    Agree (scalarFree e) a b → evalScalar pg db e a = evalScalar pg db' e b
  | .column c, a, b, _, agree => by
    simpa only [evalScalar] using agree.env c (by simp [scalarFree])
  | .identifier _, a, b, _, agree => by simp only [evalScalar, agree.output]
  | .function call, a, b, steps, agree => by
    simp only [evalScalar]
    exact evalCall_congr call steps agree
  | .literal _, a, b, _, _ => by simp only [evalScalar]
  | .case arg whens default, a, b, steps, agree => by
    simp only [evalScalar]
    rw [evalOptional_congr arg steps.left.left agree.left.left,
      evalWhens_congr whens _ steps.left.right agree.left.right,
      evalOptional_congr default steps.right agree.right]
  | .arithmetic left op right, a, b, steps, agree => by
    simp only [evalScalar]
    rw [evalScalar_congr left steps.left agree.left, evalScalar_congr right steps.right agree.right]
  | .subquery q _, a, b, steps, agree => by
    simp only [evalScalar]
    rw [evalQuery_congr q steps agree.env]
  | .array elements, a, b, steps, agree => by
    simp only [evalScalar]
    rw [evalScalars_congr elements steps agree]
  | .typeCast e _, a, b, steps, agree => by
    simp only [evalScalar]
    rw [evalScalar_congr e steps agree]

theorem evalOptional_congr : ∀ (e : Option ResolvedScalarExpr) {a b : Scope V},
    Alike pg db db' (optionalNodes selects e) →
    Agree (optionalFree e) a b → evalOptional pg db e a = evalOptional pg db' e b
  | none, _, _, _, _ => rfl
  | some e, _, _, steps, agree => by
    simp only [evalOptional]
    rw [evalScalar_congr e steps agree]

theorem evalScalars_congr : ∀ (exprs : List ResolvedScalarExpr) {a b : Scope V},
    Alike pg db db' (scalarsNodes selects exprs) →
    Agree (scalarsFree exprs) a b → evalScalars pg db exprs a = evalScalars pg db' exprs b
  | [], a, b, _, _ => rfl
  | expr :: exprs, a, b, steps, agree => by
    simp only [evalScalars]
    rw [evalScalar_congr expr steps.left agree.left,
      evalScalars_congr exprs steps.right agree.right]

theorem evalCall_congr : ∀ (call : ResolvedFunctionCall) {a b : Scope V},
    Alike pg db db' (callNodes selects call) →
    Agree (callFree call) a b → evalCall pg db call a = evalCall pg db' call b
  | ⟨name, args, aggStar, aggDistinct, aggOrder, aggFilter, some spec⟩, a, b, steps, agree => by
    have seen : ∀ a b : Scope V,
        Agree (scalarsFree args ++ orderFree aggOrder ++ clauseFree aggFilter ++
          overFree (some spec)) a b →
        some (pg.ofBool (clauseHolds pg db aggFilter a)) :: evalScalars pg db args a ++
            evalWindow pg db spec a =
          some (pg.ofBool (clauseHolds pg db' aggFilter b)) :: evalScalars pg db' args b ++
            evalWindow pg db' spec b := fun a b agree => by
      rw [clauseHolds_congr aggFilter steps.left.right agree.left.right,
        evalScalars_congr args steps.left.left.left agree.left.left.left,
        evalWindow_congr spec steps.right agree.right]
    simp only [evalCall]
    rw [seen a b agree, map_eq_of_rel agree.partition seen]
  | ⟨name, args, aggStar, aggDistinct, aggOrder, aggFilter, none⟩, a, b, steps, agree => by
    simp only [evalCall]
    split
    · -- the rows of the two groups agree one by one, so the same ones pass the FILTER
      congr 1
      refine map_eq_of_rel (filter_of_rel agree.members fun a b agree =>
        clauseHolds_congr aggFilter steps.left.right agree.left.right) fun a b agree => ?_
      rw [evalScalars_congr args steps.left.left.left agree.left.left.left,
        evalOrder_congr aggOrder steps.left.left.right agree.left.left.right]
    · rw [evalScalars_congr args steps.left.left.left agree.left.left.left]

theorem evalWindow_congr : ∀ (spec : ResolvedWindowSpec) {a b : Scope V},
    Alike pg db db' (windowNodes selects spec) →
    Agree (windowFree spec) a b → evalWindow pg db spec a = evalWindow pg db' spec b
  | ⟨partitionBy, orderBy, frame⟩, a, b, steps, agree => by
    simp only [evalWindow]
    rw [evalScalars_congr partitionBy steps.left.left agree.left.left,
      evalOrder_congr orderBy steps.left.right agree.left.right,
      evalFrame_congr frame steps.right agree.right]

theorem evalFrame_congr : ∀ (frame : Option ResolvedWindowFrame) {a b : Scope V},
    Alike pg db db' (frameNodes selects frame) →
    Agree (frameFree frame) a b → evalFrame pg db frame a = evalFrame pg db' frame b
  | none, _, _, _, _ => rfl
  | some ⟨_, start, stop, _⟩, a, b, steps, agree => by
    simp only [evalFrame]
    rw [evalBound_congr start steps.left agree.left, evalBound_congr stop steps.right agree.right]

theorem evalBound_congr : ∀ (bd : ResolvedFrameBound) {a b : Scope V},
    Alike pg db db' (boundNodes selects bd) →
    Agree (boundFree bd) a b → evalBound pg db bd a = evalBound pg db' bd b
  | .offsetPreceding offset, a, b, steps, agree => by
    simp only [evalBound]
    rw [evalScalar_congr offset steps agree]
  | .offsetFollowing offset, a, b, steps, agree => by
    simp only [evalBound]
    rw [evalScalar_congr offset steps agree]
  | .unboundedPreceding, _, _, _, _ => rfl
  | .currentRow, _, _, _, _ => rfl
  | .unboundedFollowing, _, _, _, _ => rfl

theorem evalWhens_congr : ∀ (whens : List ResolvedCaseWhen) (subject : Option (Option V))
    {a b : Scope V}, Alike pg db db' (whenNodes selects whens) →
    Agree (whensFree whens) a b → evalWhens pg db whens subject a = evalWhens pg db' whens subject b
  | [], _, _, _, _, _ => rfl
  | ⟨condition, result⟩ :: whens, subject, a, b, steps, agree => by
    simp only [evalWhens]
    rw [evalWhere_congr condition steps.left.left agree.left.left,
      evalScalar_congr result steps.left.right agree.left.right,
      evalWhens_congr whens subject steps.right agree.right]

theorem evalOrder_congr : ∀ (clauses : List ResolvedOrderByClause) {a b : Scope V},
    Alike pg db db' (orderNodes selects clauses) →
    Agree (orderFree clauses) a b → evalOrder pg db clauses a = evalOrder pg db' clauses b
  | [], _, _, _, _ => rfl
  | ⟨expr, _, _⟩ :: clauses, a, b, steps, agree => by
    simp only [evalOrder]
    rw [evalScalar_congr expr steps.left agree.left,
      evalOrder_congr clauses steps.right agree.right]

theorem evalWhere_congr : ∀ (e : ResolvedWhereExpr) {a b : Scope V},
    Alike pg db db' (whereNodes selects e) →
    Agree (whereFree e) a b → evalWhere pg db e a = evalWhere pg db' e b
  | .scalar e, a, b, steps, agree => by
    simp only [evalWhere]
    exact evalScalar_congr e steps agree
  | .unary _ e, a, b, steps, agree => by
    simp only [evalWhere]
    rw [evalWhere_congr e steps agree]
  | .binary _ lexpr rexpr, a, b, steps, agree => by
    simp only [evalWhere]
    rw [evalWhere_congr lexpr steps.left agree.left, evalWhere_congr rexpr steps.right agree.right]
  | .multi _ exprs, a, b, steps, agree => by
    simp only [evalWhere]
    rw [evalWheres_congr exprs steps agree]
  | .subquery q _ testExpr _, a, b, steps, agree => by
    simp only [evalWhere]
    rw [evalQuery_congr q steps.left agree.left.env,
      evalOptional_congr testExpr steps.right agree.right]

theorem clauseHolds_congr : ∀ (cl : Option ResolvedWhereExpr) {a b : Scope V},
    Alike pg db db' (clauseNodes selects cl) →
    Agree (clauseFree cl) a b → clauseHolds pg db cl a = clauseHolds pg db' cl b
  | none, _, _, _, _ => rfl
  | some e, a, b, steps, agree => by
    simp only [clauseHolds]
    rw [evalWhere_congr e steps agree]

theorem evalWheres_congr : ∀ (exprs : List ResolvedWhereExpr) {a b : Scope V},
    Alike pg db db' (wheresNodes selects exprs) →
    Agree (wheresFree exprs) a b → evalWheres pg db exprs a = evalWheres pg db' exprs b
  | [], _, _, _, _ => rfl
  | expr :: exprs, a, b, steps, agree => by
    simp only [evalWheres]
    rw [evalWhere_congr expr steps.left agree.left, evalWheres_congr exprs steps.right agree.right]

theorem evalColumns_congr : ∀ (columns : List ResolvedSelectColumn) {a b : Scope V},
    Alike pg db db' (selectColumnsNodes selects columns) →
    Agree (columnsFree columns) a b → evalColumns pg db columns a = evalColumns pg db' columns b
  | [], _, _, _, _ => rfl
  | ⟨expr, _⟩ :: columns, a, b, steps, agree => by
    simp only [evalColumns]
    rw [evalScalar_congr expr steps.left agree.left,
      evalColumns_congr columns steps.right agree.right]

theorem qualHolds_congr : ∀ (qual : ResolvedJoinQual) {a b : Scope V},
    Alike pg db db' (qualNodes selects qual) →
    Agree (qualFree qual) a b → qualHolds pg db qual a = qualHolds pg db' qual b
  | .on p, a, b, steps, agree => by
    simp only [qualHolds]
    rw [evalWhere_congr p steps agree]
  | .using _ p, a, b, steps, agree => by
    simp only [qualHolds]
    rw [evalWhere_congr p steps agree]
  | .cross, _, _, _, _ => rfl

theorem sourceAgrees_of_alike : ∀ (source : ResolvedTableSource) {outer outer' : Env V},
    Alike pg db db' (sourceNodes selects source) →
    EnvAgree (sourceFree source) outer outer' → SourceAgrees pg db db' outer outer' source
  | .table _, _, _, _, _ => trivial
  | .subquery query _ _, outer, outer', steps, agree => evalQuery_congr query steps agree
  | .join _ left right qual, outer, outer', steps, agree => by
    simp only [sourceFree, EnvAgree.append] at agree
    exact ⟨sourceAgrees_of_alike left steps.left.left agree.1.1,
      sourceAgrees_of_alike right steps.left.right agree.1.2,
      fun frame => qualHolds_congr qual steps.right
        (agree_rowScope (envAgree_extend agree.2 frame))⟩

theorem sourcesAgree_of_alike : ∀ (sources : List ResolvedTableSource) {outer outer' : Env V},
    Alike pg db db' (sourcesNodes selects sources) →
    EnvAgree (sourcesFree sources) outer outer' →
    ∀ source ∈ sources, SourceAgrees pg db db' outer outer' source
  | [], _, _, _, _ => by simp
  | source :: sources, outer, outer', steps, agree => by
    simp only [sourcesFree, EnvAgree.append] at agree
    exact forall_mem_cons.mpr ⟨sourceAgrees_of_alike source steps.left agree.1,
      sourcesAgree_of_alike sources steps.right agree.2⟩

theorem evalSelect_congr : ∀ (node : ResolvedSelectNode) {keys keys' : Scope V → Tuple V}
    {ordered : List ResolvedColumnNode} {outer outer' : Env V},
    Alike pg db db' (selectNodes selects node) →
    EnvAgree (selectFree node) outer outer' →
    EnvAgree (unanswered (sourcesLabels node.sources) ordered) outer outer' →
    (∀ a b : Scope V, Agree ordered a b → keys a = keys' b) →
    evalSelect pg db node keys outer = evalSelect pg db' node keys' outer'
  | ⟨distinct, columns, sources, whereClause, groupBy, having⟩, keys, keys', ordered, outer, outer',
      steps, agree, orderedAgree, sameKeys => by
    have from_ := steps.left.left.left
    have parts := agree
    simp only [selectFree, unanswered, filter_append, EnvAgree.append] at parts
    obtain ⟨sourceAgree, ⟨⟨whereAgree, groupAgree⟩, havingAgree⟩, columnAgree⟩ := parts
    have frames := from_.left.left _ (by simp [selects]) outer outer' agree
      (sourcesAgree_of_alike sources from_.right sourceAgree)
      (fun frame => clauseHolds_congr whereClause steps.left.left.right
        (agree_rowScope (envAgree_extend whereAgree frame)))
    rw [evalSelect_eq, evalSelect_eq, frames]
    have related := currents_agree (clauseFree having ++ columnsFree columns ++ ordered)
      (grouped pg.isAggregate ⟨distinct, columns, sources, whereClause, groupBy, having⟩)
      (selectedFrames pg db' ⟨distinct, columns, sources, whereClause, groupBy, having⟩ outer')
      groupAgree (by
        simp only [unanswered, filter_append, EnvAgree.append]
        exact ⟨⟨havingAgree, columnAgree⟩, orderedAgree⟩)
    simp only
    rw [project_eq related (fun a b same => clauseHolds_congr having steps.right same.left.left)
      (fun a b same => evalColumns_congr columns from_.left.right same.left.right)
      (fun a b same => sameKeys a b same.right)]

theorem evalBody_congr : ∀ (body : ResolvedQueryBody) {keys keys' : Scope V → Tuple V}
    {ordered : List ResolvedColumnNode} {outer outer' : Env V},
    Alike pg db db' (bodyNodes selects body) →
    EnvAgree (bodyFree body ordered) outer outer' →
    (∀ a b : Scope V, Agree ordered a b → keys a = keys' b) →
    evalBody pg db body keys outer = evalBody pg db' body keys' outer'
  | .select node, keys, keys', ordered, outer, outer', steps, agree, sameKeys => by
    simp only [bodyFree, EnvAgree.append] at agree
    simp only [evalBody]
    exact evalSelect_congr node steps agree.1 agree.2 sameKeys
  | .values rows, keys, keys', ordered, outer, outer', steps, agree, sameKeys => by
    simp only [bodyFree] at agree
    simp only [evalBody]
    congr 1
    refine map_congr_left fun row _ => ?_
    exact Prod.ext (sameKeys _ _ ⟨agree, .zero, .zero, rfl⟩) rfl
  | .setOp _ _ left right, keys, keys', ordered, outer, outer', steps, agree, sameKeys => by
    simp only [bodyFree, EnvAgree.append] at agree
    simp only [evalBody]
    rw [evalQuery_congr left steps.left agree.1.1, evalQuery_congr right steps.right agree.1.2]
    refine Multiset.map_congr rfl fun row _ => ?_
    exact Prod.ext (sameKeys _ _ ⟨agree.2, .zero, .zero, rfl⟩) rfl

theorem evalQuery_congr : ∀ (q : ResolvedQueryExpr) {outer outer' : Env V},
    Alike pg db db' (queryNodes selects q) →
    EnvAgree (queryFree q) outer outer' →
    evalQuery pg db q outer = evalQuery pg db' q outer'
  | ⟨body, orderBy, limit⟩, outer, outer', steps, agree => by
    simp only [queryFree] at agree
    simp only [evalQuery]
    rw [evalBody_congr body steps.left agree fun a b same =>
      evalOrder_congr orderBy steps.right same]

end

theorem evalSource_of_agrees : ∀ {source : ResolvedTableSource} {outer outer' : Env V},
    (∀ table ∈ directTables source, db table.relationOid = db' table.relationOid) →
    SourceAgrees pg db db' outer outer' source →
    evalSource pg db source outer = evalSource pg db' source outer'
  | .table node, _, _, tables, _ => by
    simp only [evalSource, tables node (mem_singleton_self node)]
  | .subquery q _ _, _, _, _, agrees => by
    simp only [SourceAgrees] at agrees
    simp only [evalSource, agrees]
  | .join joinType left right qual, _, _, tables, agrees => by
    simp only [SourceAgrees] at agrees
    simp only [directTables, forall_mem_append] at tables
    obtain ⟨leftAgrees, rightAgrees, sameQual⟩ := agrees
    simp only [evalSource, evalSource_of_agrees tables.1 leftAgrees,
      evalSource_of_agrees tables.2 rightAgrees, sameQual]

theorem evalSources_of_agrees {outer outer' : Env V} (sources : List ResolvedTableSource)
    (tables : ∀ table ∈ sources.flatMap directTables, db table.relationOid = db' table.relationOid)
    (agrees : ∀ source ∈ sources, SourceAgrees pg db db' outer outer' source) :
    evalSources pg db sources outer = evalSources pg db' sources outer' := by
  induction sources with
  | nil => simp only [evalSources]
  | cons source sources ih =>
    rw [flatMap_cons, forall_mem_append] at tables
    obtain ⟨here, rest⟩ := forall_mem_cons.mp agrees
    simp only [evalSources, evalSource_of_agrees tables.1 here, ih tables.2 rest]

theorem selectsAlike_of_tables {node : ResolvedSelectNode}
    (tables : ∀ table ∈ directTableNodes node, db table.relationOid = db' table.relationOid) :
    SelectsAlike pg db db' node := by
  intro outer outer' _ sources conditions
  simp only [selectedFrames, evalSources_of_agrees node.sources tables sources, conditions]

theorem selectsAlike_self (node : ResolvedSelectNode) : SelectsAlike pg db db node :=
  selectsAlike_of_tables fun _ _ => rfl

theorem evalWhere_of_agree {e : ResolvedWhereExpr} {a b : Scope V}
    (agree : Agree (whereFree e) a b) : evalWhere pg db e a = evalWhere pg db e b :=
  evalWhere_congr e (fun node _ => selectsAlike_self node) agree

end Databases

private theorem append_mono {a b c d : List ResolvedColumnNode} (left : a ⊆ b) (right : c ⊆ d) :
    a ++ c ⊆ b ++ d :=
  List.append_subset.mpr ⟨List.Subset.trans left (List.subset_append_left ..),
    List.Subset.trans right (List.subset_append_right ..)⟩

private theorem unanswered_subset (labels : List Label) {a b : List ResolvedColumnNode}
    (hw : a ⊆ b) : unanswered labels a ⊆ b :=
  List.Subset.trans (List.filter_subset_self ..) hw

mutual

theorem scalarFree_subset : ∀ e : ResolvedScalarExpr, scalarFree e ⊆ scalarNodes columns e
  | .column _ => by simp [scalarFree, scalarNodes, columns]
  | .identifier _ | .literal _ => by simp [scalarFree]
  | .function call => callFree_subset call
  | .case arg whens default =>
    append_mono (append_mono (optionalFree_subset arg) (whensFree_subset whens))
      (optionalFree_subset default)
  | .arithmetic left _ right => append_mono (scalarFree_subset left) (scalarFree_subset right)
  | .subquery q _ => queryFree_subset q
  | .array elements => scalarsFree_subset elements
  | .typeCast e _ => scalarFree_subset e

theorem optionalFree_subset : ∀ e : Option ResolvedScalarExpr,
    optionalFree e ⊆ optionalNodes columns e
  | none => refl _
  | some e => scalarFree_subset e

theorem scalarsFree_subset : ∀ exprs : List ResolvedScalarExpr,
    scalarsFree exprs ⊆ scalarsNodes columns exprs
  | [] => refl _
  | expr :: exprs => append_mono (scalarFree_subset expr) (scalarsFree_subset exprs)

theorem callFree_subset : ∀ call : ResolvedFunctionCall, callFree call ⊆ callNodes columns call
  | ⟨_, args, _, _, aggOrder, aggFilter, overSpec⟩ =>
    append_mono (append_mono (append_mono (scalarsFree_subset args) (orderFree_subset aggOrder))
      (clauseFree_subset aggFilter)) (overFree_subset overSpec)

theorem overFree_subset : ∀ overSpec : Option ResolvedWindowSpec,
    overFree overSpec ⊆ overNodes columns overSpec
  | none => refl _
  | some spec => windowFree_subset spec

theorem windowFree_subset : ∀ spec : ResolvedWindowSpec, windowFree spec ⊆ windowNodes columns spec
  | ⟨partitionBy, orderBy, frame⟩ =>
    append_mono (append_mono (scalarsFree_subset partitionBy) (orderFree_subset orderBy))
      (frameFree_subset frame)

theorem frameFree_subset : ∀ frame : Option ResolvedWindowFrame,
    frameFree frame ⊆ frameNodes columns frame
  | none => refl _
  | some ⟨_, start, stop, _⟩ => append_mono (boundFree_subset start) (boundFree_subset stop)

theorem boundFree_subset : ∀ b : ResolvedFrameBound, boundFree b ⊆ boundNodes columns b
  | .offsetPreceding offset | .offsetFollowing offset => scalarFree_subset offset
  | .unboundedPreceding | .currentRow | .unboundedFollowing => refl _

theorem whensFree_subset : ∀ whens : List ResolvedCaseWhen,
    whensFree whens ⊆ whenNodes columns whens
  | [] => refl _
  | ⟨condition, result⟩ :: whens =>
    append_mono (append_mono (whereFree_subset condition) (scalarFree_subset result))
      (whensFree_subset whens)

theorem orderFree_subset : ∀ clauses : List ResolvedOrderByClause,
    orderFree clauses ⊆ orderNodes columns clauses
  | [] => refl _
  | ⟨e, _, _⟩ :: clauses => append_mono (scalarFree_subset e) (orderFree_subset clauses)

theorem whereFree_subset : ∀ e : ResolvedWhereExpr, whereFree e ⊆ whereNodes columns e
  | .scalar e => scalarFree_subset e
  | .unary _ e => whereFree_subset e
  | .binary _ lexpr rexpr => append_mono (whereFree_subset lexpr) (whereFree_subset rexpr)
  | .multi _ exprs => wheresFree_subset exprs
  | .subquery q _ testExpr _ =>
    append_mono (queryFree_subset q) (optionalFree_subset testExpr)

theorem clauseFree_subset : ∀ cl : Option ResolvedWhereExpr,
    clauseFree cl ⊆ clauseNodes columns cl
  | none => refl _
  | some e => whereFree_subset e

theorem wheresFree_subset : ∀ exprs : List ResolvedWhereExpr,
    wheresFree exprs ⊆ wheresNodes columns exprs
  | [] => refl _
  | expr :: exprs => append_mono (whereFree_subset expr) (wheresFree_subset exprs)

theorem columnsFree_subset : ∀ selected : List ResolvedSelectColumn,
    columnsFree selected ⊆ selectColumnsNodes columns selected
  | [] => refl _
  | ⟨e, _⟩ :: rest => append_mono (scalarFree_subset e) (columnsFree_subset rest)

theorem qualFree_subset : ∀ qual : ResolvedJoinQual, qualFree qual ⊆ qualNodes columns qual
  | .on p | .using _ p => whereFree_subset p
  | .cross => refl _

theorem sourceFree_subset : ∀ source : ResolvedTableSource,
    sourceFree source ⊆ sourceNodes columns source
  | .table _ => List.nil_subset _
  | .subquery q _ _ => queryFree_subset q
  | .join _ left right qual =>
    append_mono (append_mono (sourceFree_subset left) (sourceFree_subset right))
      (unanswered_subset _ (qualFree_subset qual))

theorem sourcesFree_subset : ∀ sources : List ResolvedTableSource,
    sourcesFree sources ⊆ sourcesNodes columns sources
  | [] => refl _
  | source :: sources => append_mono (sourceFree_subset source) (sourcesFree_subset sources)

theorem selectFree_subset : ∀ node : ResolvedSelectNode, selectFree node ⊆ selectNodes columns node
  | ⟨_, selected, sources, whereClause, groupBy, having⟩ => by
    have wheres := clauseFree_subset whereClause
    have havings := clauseFree_subset having
    have outputs := columnsFree_subset selected
    have froms := sourcesFree_subset sources
    intro c hm
    simp only [selectFree, unanswered, List.mem_append, List.mem_filter] at hm
    simp only [selectNodes, columns, List.mem_append, List.flatMap_singleton', List.nil_append]
    rcases hm with source | ⟨((cl | group) | filter) | output, -⟩
    · exact .inl (.inl (.inl (.inr (froms source))))
    · exact .inl (.inl (.inr (wheres cl)))
    · exact .inl (.inr (by simpa using group))
    · exact .inr (havings filter)
    · exact .inl (.inl (.inl (.inl (outputs output))))

theorem bodyFree_subset : ∀ (body : ResolvedQueryBody) {ordered more : List ResolvedColumnNode},
    ordered ⊆ more → bodyFree body ordered ⊆ bodyNodes columns body ++ more
  | .select node, _, _, hw =>
    append_mono (selectFree_subset node) (unanswered_subset _ hw)
  | .values _, _, _, hw => hw
  | .setOp _ _ left right, _, _, hw =>
    append_mono (append_mono (queryFree_subset left) (queryFree_subset right)) hw

theorem queryFree_subset : ∀ q : ResolvedQueryExpr, queryFree q ⊆ queryNodes columns q
  | ⟨body, orderBy, _⟩ => bodyFree_subset body (orderFree_subset orderBy)

end

end PgCache.Sql.Congruence
