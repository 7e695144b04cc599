/- source: query/transform/values.rs, query/resolved/deparse.rs
   digest: The text of a membership query cut around a marker, against the text of the query with a
     row put in. -/
import PgCache.Query.Resolved.Ast

set_option autoImplicit false

namespace PgCache.Query.EvalTemplate

open Catalog Literal Resolved.Ast List

abbrev Text := List Char

def separated (separator : String) : List Text → Text
  | [] => []
  | first :: rest => first ++ rest.flatMap (separator.toList ++ ·)

def escapedLiteralSink : List Text → Text
  | [] => []
  | first :: rest => (if first.head? = some ' ' then first.tail else first) ++ rest.flatten

/-- What this module does not write itself: the pieces `escape_literal_into` of the protocol library
writes, and the deparser of what neither a FROM clause nor a VALUES row is made of. -/
structure Deparser where
  escapeLiteralInto : String → List Text
  literal : LiteralValue → Text
  table : ResolvedTableNode → Text
  tableAlias : TableAlias → Text
  query : ResolvedQueryExpr → Text
  joinKeyword : JoinType → ResolvedJoinQual → Text
  joinQual : ResolvedJoinQual → Text
  selectColumns : Bool → List ResolvedSelectColumn → Text
  clauses : Option ResolvedWhereExpr → List ResolvedColumnNode → Option ResolvedWhereExpr → Text

namespace Deparser

variable (deparser : Deparser)

def emitEscapedStringLiteral (s : String) : Text :=
  escapedLiteralSink (deparser.escapeLiteralInto s)

def literalText : LiteralValue → Text
  | .string s => deparser.emitEscapedStringLiteral s
  | .stringWithCast s cast => deparser.emitEscapedStringLiteral s ++ "::".toList ++ cast.toList
  | .nullWithCast cast => "NULL::".toList ++ cast.toList
  | value => deparser.literal value

def rowText (row : List LiteralValue) : Text := separated ", " (row.map deparser.literalText)

def queryText : ResolvedQueryExpr → Text
  | ⟨.values rows, [], none⟩ =>
    "VALUES (".toList ++ separated "), (" (rows.map deparser.rowText) ++ ")".toList
  | query => deparser.query query

def sourceText : ResolvedTableSource → Text
  | .table node => deparser.table node
  | .subquery query tableAlias _ =>
    " (".toList ++ deparser.queryText query ++ ") ".toList ++ deparser.tableAlias tableAlias
  | .join joinType left right qual =>
    sourceText left ++ deparser.joinKeyword joinType qual ++ sourceText right ++
      deparser.joinQual qual

def selectText (node : ResolvedSelectNode) : Text :=
  "SELECT".toList ++ deparser.selectColumns node.distinct node.columns ++
    (if node.sources.isEmpty then []
    else " FROM".toList ++ separated "," (node.sources.map deparser.sourceText)) ++
    deparser.clauses node.whereClause node.groupBy node.having

end Deparser

structure TableOccurrence where
  explicitAlias : Option String
  effectiveAlias : String

section Occurrences

variable (table : TableMetadata)

/-- The frontier is a stack: the right side of a join comes before its left. -/
def sourceOccurrences : ResolvedTableSource → List TableOccurrence
  | .table node =>
    if node.relationOid = table.relationOid then
      [⟨node.aliasName, node.aliasName.getD table.name⟩]
    else []
  | .subquery .. => []
  | .join _ left right _ => sourceOccurrences right ++ sourceOccurrences left

def tableOccurrenceSingle (resolved : ResolvedSelectNode) : Option TableOccurrence :=
  match resolved.sources.reverse.flatMap (sourceOccurrences table) with
  | [occurrence] => some occurrence
  | _ => none

variable (occurrence : TableOccurrence)

/-- `table_source_find_mut`: the mutable reference is what an assignment through it makes of the
whole. -/
def sourceFindMut : ResolvedTableSource → Option (ResolvedTableSource → ResolvedTableSource)
  | .table node =>
    if node.relationOid = table.relationOid ∧ node.aliasName = occurrence.explicitAlias then some id
    else none
  | .subquery .. => none
  | .join joinType left right qual =>
    ((sourceFindMut right).map fun assign new => .join joinType left (assign new) qual).or
      ((sourceFindMut left).map fun assign new => .join joinType (assign new) right qual)

def sourcesFindMut :
    List ResolvedTableSource → Option (ResolvedTableSource → List ResolvedTableSource)
  | [] => none
  | source :: rest => ((sourcesFindMut rest).map fun assign new => source :: assign new).or
      ((sourceFindMut table occurrence source).map fun assign new => assign new :: rest)

end Occurrences

def valuesSource (occurrence : TableOccurrence) (row : List LiteralValue) (columns : List String) :
    ResolvedTableSource :=
  .subquery ⟨.values [row], [], none⟩ ⟨occurrence.effectiveAlias, columns⟩ .inclusion

def splitOnce (needle text : Text) : Option (Text × Text) :=
  if needle.isPrefixOf text then some ([], text.drop needle.length)
  else
    match text with
    | [] => none
    | c :: rest => (splitOnce needle rest).map fun halves => (c :: halves.1, halves.2)

def matchesCount (needle : Text) : Nat → Text → Nat
  | 0, _ => 0
  | fuel + 1, text =>
    match splitOnce needle text with
    | some (_, rest) => matchesCount needle fuel rest + 1
    | none => 0

/-- The guard of `PgEvalTemplate::build` and the cut after it. -/
def cutOnce (needle sql : Text) : Option (Text × Text) :=
  if matchesCount needle (sql.length + 1) sql = 1 then splitOnce needle sql else none

def pgEvalSentinel : String := "__pgc_values_sentinel__"

section Template

variable (deparser : Deparser) (typeName : ColumnMetadata → String)
  (aliasRewrite : ResolvedSelectNode → TableMetadata → TableOccurrence → Option ResolvedSelectNode)
  (resolved : ResolvedSelectNode) (table : TableMetadata)

def substitute (occurrence : TableOccurrence) (row : List LiteralValue) (columns : List String) :
    Option ResolvedSelectNode := do
  let rewritten ← aliasRewrite resolved table occurrence
  let assign ← sourcesFindMut table occurrence rewritten.sources
  return { rewritten with sources := assign (valuesSource occurrence row columns) }

def valuesRowBuild (row : RowData) : List LiteralValue :=
  table.columns.sorted.filterMap fun column => row[column.index]?.map fun value =>
    value.elim (.nullWithCast (typeName column)) (.stringWithCast · (typeName column))

def valuesColumnNames (row : RowData) : List String :=
  (table.columns.sorted.filter fun column => row[column.index]?.isSome).map ColumnMetadata.name

def replaceWithValues (row : RowData) (occurrence : TableOccurrence) : Option ResolvedSelectNode :=
  substitute aliasRewrite resolved table occurrence (valuesRowBuild typeName table row)
    (valuesColumnNames table row)

structure PgEvalTemplate where
  front : Text
  back : Text
  columns : List (Nat × String)

def PgEvalTemplate.build : Option PgEvalTemplate := do
  let occurrence ← tableOccurrenceSingle table resolved
  let template ← substitute aliasRewrite resolved table occurrence [.string pgEvalSentinel]
    (table.columns.sorted.map ColumnMetadata.name)
  let halves ← cutOnce (deparser.emitEscapedStringLiteral pgEvalSentinel)
    (deparser.selectText template)
  return ⟨halves.1, halves.2,
    table.columns.sorted.map fun column => (column.index, typeName column)⟩

def renderValue (value : Option String) (typeName : String) : Text :=
  (match value with
  | some value => deparser.emitEscapedStringLiteral value ++ "::".toList
  | none => "NULL::".toList) ++ typeName.toList

def PgEvalTemplate.renderInto (template : PgEvalTemplate) (buf : Text) (row : RowData) :
    Bool × Text :=
  if template.columns.any fun column => row[column.1]?.isNone then (false, buf)
  else (true, buf ++ template.front ++ separated ", " (template.columns.map fun column =>
    renderValue deparser row[column.1]?.join column.2) ++ template.back)

/-! ### The cut -/

variable {needle before after : Text}

theorem splitOnce_infix (needle before after : Text) : ∃ front back,
    splitOnce needle (before ++ (needle ++ after)) = some (front, back) ∧
      before ++ (needle ++ after) = front ++ (needle ++ back) ∧ front.length ≤ before.length := by
  induction before with
  | nil =>
    have hf := isPrefixOf_iff_prefix.mpr (prefix_append needle after)
    refine ⟨[], after, ?_, rfl, Nat.le_refl 0⟩
    unfold splitOnce
    rw [nil_append, if_pos hf, drop_left]
  | cons c before ih =>
    unfold splitOnce
    split
    · next hf =>
      obtain ⟨back, split⟩ := isPrefixOf_iff_prefix.mp hf
      refine ⟨[], back, ?_, split.symm, Nat.zero_le _⟩
      rw [← split, drop_left]
    · obtain ⟨front, back, hf, split, short⟩ := ih
      refine ⟨c :: front, back, ?_, ?_, Nat.succ_le_succ short⟩
      · change (splitOnce needle (before ++ (needle ++ after))).map _ = _
        rw [hf]
        rfl
      · rw [cons_append, split, cons_append]

theorem cutOnce_at {c : Char} (apart : c ∉ needle) {halves : Text × Text}
    (cut : cutOnce needle (before ++ c :: (needle ++ after)) = some halves) :
    halves = (before ++ [c], after) := by
  obtain ⟨once, cut⟩ := Option.ite_none_right_eq_some.mp cut
  obtain ⟨front, back, hf, split, short⟩ := splitOnce_infix needle (before ++ [c]) after
  rw [append_assoc, singleton_append] at hf split
  cases hf.symm.trans cut
  have single : matchesCount needle (before.length + (needle ++ after).length + 1) back = 0 := by
    rw [matchesCount, hf, length_append, length_cons] at once
    exact Nat.succ_inj.mp once
  have only : ∀ between, back ≠ between ++ (needle ++ after) := by
    rintro between rfl
    obtain ⟨_, _, snd, -⟩ := splitOnce_infix needle between after
    rw [matchesCount, snd] at single
    exact Nat.succ_ne_zero _ single
  have overlap : ∀ part rest, needle = part ++ rest → c :: (needle ++ after) ≠ rest ++ back := by
    intro part rest parts tail
    cases rest with
    | nil => exact only [c] tail.symm
    | cons d rest => exact apart (parts ▸ (cons.inj tail).1 ▸ mem_append_right part mem_cons_self)
  rcases append_eq_append_iff.mp split with ⟨extra, rfl, tail⟩ | ⟨extra, rfl, tail⟩
  · cases extra with
    | nil => exact absurd tail (overlap [] needle rfl)
    | cons d extra =>
      obtain ⟨rfl, rest⟩ := cons.inj tail
      rw [length_append, length_append, length_cons, length_singleton] at short
      obtain rfl := length_eq_zero_iff.mp (by omega : extra.length = 0)
      rw [append_cancel_left rest]
  · rcases append_eq_append_iff.mp tail with ⟨rest, rfl, isBack⟩ | ⟨rest, parts, isTail⟩
    · exact absurd (isBack.trans (append_cons rest c _)) (only (rest ++ [c]))
    · exact absurd isTail (overlap extra rest parts)

/-! ### The hole -/

theorem separated_cons (separator : String) (first : Text) {rest : List Text} (more : rest ≠ []) :
    separated separator (first :: rest) =
      first ++ separator.toList ++ separated separator rest := by
  obtain ⟨snd, rest, rfl⟩ := exists_cons_of_ne_nil more
  simp only [separated, flatMap_cons, append_assoc]

variable {typeName aliasRewrite resolved table} {occurrence : TableOccurrence}
  {columns : List String} {template : PgEvalTemplate}

theorem sourceFindMut_hole : ∀ {source : ResolvedTableSource} {assign},
    sourceFindMut table occurrence source = some assign → ∃ before after, ∀ new,
      deparser.sourceText (assign new) = before ++ deparser.sourceText new ++ after
  | .table node, assign, hf => by
    obtain ⟨-, isId⟩ := Option.ite_none_right_eq_some.mp hf
    cases isId
    exact ⟨[], [], fun new => (append_nil _).symm⟩
  | .join joinType left right qual, assign, hf => by
    rcases Option.or_eq_some_iff.mp hf with inRight | ⟨-, inLeft⟩
    · obtain ⟨assign, isAssign, rfl⟩ := Option.map_eq_some_iff.mp inRight
      obtain ⟨before, after, text⟩ := sourceFindMut_hole isAssign
      refine ⟨deparser.sourceText left ++ deparser.joinKeyword joinType qual ++ before,
        after ++ deparser.joinQual qual, fun new => ?_⟩
      simp only [Deparser.sourceText, text, append_assoc]
    · obtain ⟨assign, isAssign, rfl⟩ := Option.map_eq_some_iff.mp inLeft
      obtain ⟨before, after, text⟩ := sourceFindMut_hole isAssign
      refine ⟨before, after ++ deparser.joinKeyword joinType qual ++ deparser.sourceText right ++
        deparser.joinQual qual, fun new => ?_⟩
      simp only [Deparser.sourceText, text, append_assoc]

theorem sourcesFindMut_hole {sources : List ResolvedTableSource} : ∀ {assign},
    sourcesFindMut table occurrence sources = some assign → ∃ before after, ∀ new,
      assign new ≠ [] ∧ separated "," ((assign new).map deparser.sourceText) =
        before ++ deparser.sourceText new ++ after := by
  induction sources with
  | nil => exact nofun
  | cons source rest ih =>
    intro assign hf
    rcases Option.or_eq_some_iff.mp hf with inRest | ⟨-, inSource⟩
    · obtain ⟨assign, isAssign, rfl⟩ := Option.map_eq_some_iff.mp inRest
      obtain ⟨before, after, text⟩ := ih isAssign
      refine ⟨deparser.sourceText source ++ ",".toList ++ before, after, fun new =>
        ⟨cons_ne_nil _ _, ?_⟩⟩
      rw [map_cons, separated_cons _ _ (mt map_eq_nil_iff.mp (text new).1), (text new).2]
      simp only [append_assoc]
    · obtain ⟨assign, isAssign, rfl⟩ := Option.map_eq_some_iff.mp inSource
      obtain ⟨before, after, text⟩ := sourceFindMut_hole deparser isAssign
      refine ⟨before, after ++ (rest.map deparser.sourceText).flatMap (",".toList ++ ·),
        fun new => ⟨cons_ne_nil _ _, ?_⟩⟩
      rw [map_cons, separated, text, append_assoc]

theorem valuesSource_text (row : List LiteralValue) :
    deparser.sourceText (valuesSource occurrence row columns) =
      " (VALUES ".toList ++ '(' :: (deparser.rowText row ++
        (")) ".toList ++ deparser.tableAlias ⟨occurrence.effectiveAlias, columns⟩)) := by
  change " (".toList ++ ("VALUES (".toList ++ (deparser.rowText row ++ []) ++ ")".toList) ++
    ") ".toList ++ _ = _
  rw [append_nil, ← append_assoc, ← append_assoc]
  change _ = " (VALUES (".toList ++ _
  simp only [append_assoc]
  rfl

theorem substitute_hole {marker : List LiteralValue} {node : ResolvedSelectNode}
    (marked : substitute aliasRewrite resolved table occurrence marker columns = some node) :
    ∃ before after, ∀ row, ∃ node,
      substitute aliasRewrite resolved table occurrence row columns = some node ∧
        deparser.selectText node = before ++ '(' :: (deparser.rowText row ++ after) := by
  obtain ⟨rewritten, isRewritten, some_sources⟩ := Option.bind_eq_some_iff.mp marked
  obtain ⟨assign, isAssign, -⟩ := Option.bind_eq_some_iff.mp some_sources
  obtain ⟨before, after, text⟩ := sourcesFindMut_hole deparser isAssign
  refine ⟨"SELECT".toList ++ (deparser.selectColumns rewritten.distinct rewritten.columns ++
    (" FROM".toList ++ (before ++ " (VALUES ".toList))), ")) ".toList ++
      (deparser.tableAlias ⟨occurrence.effectiveAlias, columns⟩ ++ (after ++
        deparser.clauses rewritten.whereClause rewritten.groupBy rewritten.having)),
    fun row => ⟨{ rewritten with sources := assign (valuesSource occurrence row columns) }, ?_, ?_⟩⟩
  · rw [substitute, isRewritten, Option.bind_eq_bind, Option.bind_some, isAssign]
    rfl
  · unfold Deparser.selectText
    dsimp only
    rw [isEmpty_eq_false_iff.mpr (text _).1, if_neg Bool.false_ne_true, (text _).2,
      valuesSource_text]
    -- `simp` would evaluate the words of the statement
    repeat rw [append_assoc]
    rw [cons_append]
    repeat rw [append_assoc]

theorem mem_escapedLiteralSink {c : Char} {pieces : List Text}
    (written : c ∈ escapedLiteralSink pieces) : ∃ piece ∈ pieces, c ∈ piece := by
  cases pieces with
  | nil => exact absurd written not_mem_nil
  | cons first rest =>
    rcases mem_append.mp written with inFirst | inRest
    · refine ⟨first, mem_cons_self, ?_⟩
      split at inFirst
      · exact mem_of_mem_tail inFirst
      · exact inFirst
    · obtain ⟨piece, mem, inPiece⟩ := mem_flatten.mp inRest
      exact ⟨piece, mem_cons_of_mem _ mem, inPiece⟩

theorem valuesColumnNames_full {row : RowData}
    (full : ∀ c ∈ table.columns.sorted, c.index < row.length) :
    valuesColumnNames table row = table.columns.sorted.map ColumnMetadata.name := by
  rw [valuesColumnNames, filter_eq_self.mpr]
  intro c mem
  rw [getElem?_eq_getElem (full c mem)]
  rfl

theorem valuesRowBuild_full {row : RowData}
    (full : ∀ column ∈ table.columns.sorted, column.index < row.length) :
    (valuesRowBuild typeName table row).map deparser.literalText =
    table.columns.sorted.map fun column =>
      renderValue deparser row[column.index]?.join (typeName column) := by
  rw [valuesRowBuild, map_filterMap, ← filterMap_eq_map]
  refine filterMap_congr fun column mem => ?_
  obtain ⟨value, isValue⟩ : ∃ value, row[column.index]? = some value :=
    ⟨_, getElem?_eq_getElem (full column mem)⟩
  rw [Function.comp_apply, isValue]
  cases value <;> rfl

section Escaped

variable (opens : ∀ piece ∈ deparser.escapeLiteralInto pgEvalSentinel, '(' ∉ piece)

include opens

theorem build_halves
    (built : PgEvalTemplate.build deparser typeName aliasRewrite resolved table = some template) :
    template.columns = table.columns.sorted.map (fun c => (c.index, typeName c)) ∧
      ∃ occurrence, tableOccurrenceSingle table resolved = some occurrence ∧ ∀ row, ∃ node,
        substitute aliasRewrite resolved table occurrence row
          (table.columns.sorted.map ColumnMetadata.name) = some node ∧
        deparser.selectText node = template.front ++ deparser.rowText row ++ template.back := by
  obtain ⟨occurrence, single, built⟩ := Option.bind_eq_some_iff.mp built
  obtain ⟨marked, isMarked, built⟩ := Option.bind_eq_some_iff.mp built
  obtain ⟨halves, cut, built⟩ := Option.bind_eq_some_iff.mp built
  cases built
  refine ⟨rfl, occurrence, single, fun row => ?_⟩
  obtain ⟨before, after, text⟩ := substitute_hole deparser isMarked
  obtain ⟨_, isMarked', markedText⟩ := text [.string pgEvalSentinel]
  cases isMarked.symm.trans isMarked'
  have needleText : deparser.rowText [.string pgEvalSentinel] =
      deparser.emitEscapedStringLiteral pgEvalSentinel := append_nil _
  rw [markedText, needleText] at cut
  cases cutOnce_at (fun written =>
    let ⟨piece, mem, inPiece⟩ := mem_escapedLiteralSink written
    opens piece mem inPiece) cut
  obtain ⟨node, isNode, nodeText⟩ := text row
  refine ⟨node, isNode, nodeText.trans ?_⟩
  rw [append_assoc, append_assoc, singleton_append]

/-- A template renders the text of the substituted query, or leaves the buffer alone when the row
is too short. -/
theorem rendered_eq_substituted
    (built : PgEvalTemplate.build deparser typeName aliasRewrite resolved table = some template) :
    ∃ occurrence, tableOccurrenceSingle table resolved = some occurrence ∧ ∀ buf row,
      (template.renderInto deparser buf row = (false, buf) ∧
        ∃ column ∈ table.columns.sorted, row.length ≤ column.index) ∨
      ((∀ column ∈ table.columns.sorted, column.index < row.length) ∧
        ∃ node, replaceWithValues typeName aliasRewrite resolved table row occurrence = some node ∧
          template.renderInto deparser buf row = (true, buf ++ deparser.selectText node)) := by
  obtain ⟨columns, occurrence, single, substituted⟩ := build_halves deparser opens built
  refine ⟨occurrence, single, fun buf row => ?_⟩
  have short : (template.columns.any fun column => row[column.1]?.isNone) = true ↔
      ∃ column ∈ table.columns.sorted, row.length ≤ column.index := by
    simp only [columns, any_map, any_eq_true, Function.comp_apply, Option.isNone_iff_eq_none,
      getElem?_eq_none_iff]
  by_cases missing : ∃ column ∈ table.columns.sorted, row.length ≤ column.index
  · exact .inl ⟨if_pos (short.mpr missing), missing⟩
  · have full : ∀ column ∈ table.columns.sorted, column.index < row.length := by
      intro column mem
      exact Nat.lt_of_not_le fun le => missing ⟨column, mem, le⟩
    obtain ⟨node, isNode, text⟩ := substituted (valuesRowBuild typeName table row)
    refine .inr ⟨full, node, ?_, (if_neg (mt short.mp missing)).trans ?_⟩
    · rw [replaceWithValues, valuesColumnNames_full full, isNode]
    · rw [text, Deparser.rowText, valuesRowBuild_full deparser full, columns, map_map]
      simp only [append_assoc]
      rfl

end Escaped

end Template

private def plain : Deparser :=
  ⟨fun s => ["'".toList, s.toList.flatMap fun c => if c.toNat = 39 then [c, c] else [c],
    "'".toList], fun _ => [], fun _ => [], fun _ => [], fun _ => [], fun _ _ => [], fun _ => [],
      fun _ _ => [],
    fun _ _ _ => []⟩

private def plainTemplate : Option PgEvalTemplate :=
  PgEvalTemplate.build plain (fun _ => "text") (fun node _ _ => some node)
    ⟨false, [], [.table ⟨"s", "t", none, 1⟩], none, [], none⟩
    ⟨1, "t", "s", [], ⟨[⟨"c", 1, .text, false⟩], by decide⟩, false⟩

theorem marker_row_rendered : ∃ template node, plainTemplate = some template ∧
    template.renderInto plain [] [some pgEvalSentinel] = (true, plain.selectText node) := by
  have isBuilt : plainTemplate.isSome = true := by decide +kernel
  obtain ⟨template, built⟩ := Option.isSome_iff_exists.mp isBuilt
  obtain ⟨occurrence, -, rendered⟩ := rendered_eq_substituted plain (by decide +kernel) built
  rcases rendered [] [some pgEvalSentinel] with ⟨-, _, mem, short⟩ | ⟨-, node, -, text⟩
  · cases mem_singleton.mp mem
    exact absurd short (by decide)
  · exact ⟨template, node, built, text⟩

end PgCache.Query.EvalTemplate
