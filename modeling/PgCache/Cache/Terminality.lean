/- source: cache/query/outer_join.rs, query/update.rs, cache/writer/cdc/invalidation.rs
   digest: What the rows of a terminal optional-side table can change in a join. -/
import PgCache.Cache.Admission
import PgCache.Sql.Frames

set_option autoImplicit false

namespace PgCache.Cache.Terminality

open Catalog Data.OuterJoin
open Query.Resolved.Ast Query.Resolved.Traverse Sql.Semantics Sql.Congruence Sql.Frames Admission
open List Multiset

section Rows

variable {V : Type} [DecidableEq V] (pg : Pg V) (db : Database V) (node : ResolvedSelectNode)

def groupScope (groupBy : List ResolvedColumnNode) (labels : List Label)
    (frames : Multiset (Frame V)) (frame : Frame V) : Scope V :=
  let key : Frame V → Tuple V := fun frame => groupBy.map (extend closed labels frame)
  let members := frames.filter fun other => key other = key frame
  ⟨extendGroup closed labels members, members.map (extend closed labels), 0, fun _ => none⟩

def kept (frame : Frame V) : Bool :=
  clauseHolds pg db node.having (groupScope node.groupBy (sourcesLabels node.sources)
    (selectedFrames pg db node closed) frame)

/-- A row of a relation is part of a joined row the SELECT selects, in a group that HAVING
keeps. -/
def Needed (oid : Oid) (row : Row V) : Prop :=
  ∃ frame ∈ selectedFrames pg db node closed, kept pg db node frame = true ∧
    ∃ binding ∈ frame, binding.origin = some oid ∧ binding.row = row

instance (oid : Oid) (row : Row V) : Decidable (Needed pg db node oid row) :=
  Multiset.decidableExistsMultiset

/-- The update query of a table, run with one row in the table's place, returns something. -/
def UpdateQueryAccepts (table : ResolvedTableNode) (row : Row V) : Prop :=
  result pg (Function.update db table.relationOid {row}) ⟨.select (selectTrue node), [], none⟩ ≠ 0

instance (table : ResolvedTableNode) (row : Row V) :
    Decidable (UpdateQueryAccepts pg db node table row) :=
  inferInstanceAs (Decidable (_ ≠ _))

end Rows

section Trees

variable (table : ResolvedTableNode)

def Only : ResolvedTableSource → Prop
  | .table other => other.relationOid = table.relationOid
  | .subquery .. => False
  | .join _ left right _ => Only left ∧ Only right

/-- Where the relation occurs in a join tree, it is by itself the optional side of a join. -/
def Hangs : ResolvedTableSource → Prop
  | .table other => other.relationOid ≠ table.relationOid
  | .subquery .. => True
  | .join joinType left right _ => joinType = .left ∧ Hangs left ∧ Only table right ∨
      joinType = .right ∧ Only table left ∧ Hangs right ∨ Hangs left ∧ Hangs right

def ownLabels (source : ResolvedTableSource) : List Label :=
  ((directTables source).filter (·.relationOid = table.relationOid)).map tableLabel

def Without (source : ResolvedTableSource) : Prop :=
  ∀ other ∈ directTables source, other.relationOid ≠ table.relationOid

def Unread (inners : List ResolvedSelectNode) : Prop :=
  ∀ inner ∈ inners, ∀ other ∈ directTableNodes inner, other.relationOid ≠ table.relationOid

end Trees

def Unanswered (labels : List Label) (column : ResolvedColumnNode) : Prop :=
  ∀ label ∈ labels, label.answers column = false

def Named (table : ResolvedTableNode) (labels : List Label) (columns : List ResolvedColumnNode) :
    Prop :=
  ∀ column ∈ columns, (∃ label ∈ labels, label.answers column = true) → column.table = table.name

/-- The SELECT has the relation only by itself on the optional sides of joins, under the table's
name and with references that carry it; no subquery of its reads the relation; and HAVING looks at
no more than the keys of its group: it calls no aggregate, reads no column of the table, and where
the table is among the keys it reads nothing but keys. -/
structure Alone (isAggregate : String → Bool) (table : ResolvedTableNode)
    (node : ResolvedSelectNode) : Prop where
  hangs : ∀ source ∈ node.sources, Hangs table source
  name : ∀ other ∈ directTableNodes node, other.relationOid = table.relationOid →
    other.name = table.name
  named : ∀ source ∈ node.sources, Named table (ownLabels table source)
    (sourcesNodes columns node.sources ++ clauseNodes columns node.whereClause)
  unread : Unread table (sourcesNodes selects node.sources ++
    clauseNodes selects node.whereClause ++ clauseNodes selects node.having)
  plain : ∀ e ∈ node.having, wherePlain isAggregate e = true
  keyed : ∀ source ∈ node.sources, ∀ column ∈ clauseFree node.having,
    Unanswered (ownLabels table source) column ∧
      (column ∈ node.groupBy ∨ ∀ key ∈ node.groupBy, Unanswered (ownLabels table source) key)

section Likeness

variable {V : Type} {oid : Oid} {labels : List Label} {a b : Frame V}

def Stands (oid : Oid) (labels : List Label) (binding : Binding V) : Prop :=
  binding.label ∈ labels ∧ (binding.origin = none ∨ binding.origin = some oid)

abbrev Alike (oid : Oid) (labels : List Label) : Frame V → Frame V → Prop :=
  List.Forall₂ fun a b => a = b ∨ a.label = b.label ∧ Stands oid labels a ∧ Stands oid labels b

def Covers (oid : Oid) (labels : List Label) (s t : Multiset (Frame V)) : Prop :=
  ∀ a ∈ s, ∃ b ∈ t, Alike oid labels a b

theorem alike_refl (frame : Frame V) : Alike oid labels frame frame :=
  forall₂_same.mpr fun _ _ => .inl rfl

theorem alike_symm (alike : Alike oid labels a b) : Alike oid labels b a :=
  alike.flip.imp fun _ _ pair => pair.imp Eq.symm fun ⟨same, one, other⟩ => ⟨same.symm, other, one⟩

theorem alike_of_labels : ∀ {a b : Frame V}, a.map Binding.label = b.map Binding.label →
    (∀ binding ∈ a, Stands oid labels binding) → (∀ binding ∈ b, Stands oid labels binding) →
    Alike oid labels a b
  | [], [], _, _, _ => .nil
  | [], _ :: _, same, _, _ | _ :: _, [], same, _, _ => by simp at same
  | _ :: _, _ :: _, same, one, other => by
    simp only [List.map_cons, cons.injEq, List.forall_mem_cons] at same one other
    exact .cons (.inr ⟨same.1, one.1, other.1⟩) (alike_of_labels same.2 one.2 other.2)

theorem covers_refl (s : Multiset (Frame V)) : Covers oid labels s s :=
  fun a hm => ⟨a, hm, alike_refl a⟩

theorem value_of_alike {column : ResolvedColumnNode} (unread : Unanswered labels column)
    (alike : Alike oid labels a b) : a.value column = b.value column := by
  induction alike with
  | nil => rfl
  | @cons x y _ _ pair _ ih =>
    unfold Frame.value at ih ⊢
    rcases pair with rfl | ⟨-, one, other⟩
    · cases hit : x.label.answers column <;> simp [hit, ih]
    · simp [unread _ one.1, unread _ other.1, ih]

theorem extend_of_alike {column : ResolvedColumnNode} (unread : Unanswered labels column)
    (alike : Alike oid labels a b) (outer : Env V) (all : List Label) :
    extend outer all a column = extend outer all b column := by
  unfold extend
  rw [value_of_alike unread alike]

theorem envAgree_of_alike {free : List ResolvedColumnNode}
    (unread : ∀ column ∈ free, Unanswered labels column) (alike : Alike oid labels a b)
    (outer : Env V) (all : List Label) : EnvAgree free (extend outer all a) (extend outer all b) :=
  fun column inside => extend_of_alike (unread column inside) alike outer all

theorem mem_of_alike {bd : Binding V} {other : Oid} (o : other ≠ oid)
    (og : bd.origin = some other) (alike : Alike oid labels a b) (hm : bd ∈ a) : bd ∈ b := by
  induction alike with
  | nil => exact hm
  | @cons x y _ _ pair _ ih =>
    rcases mem_cons.mp hm with rfl | later
    · rcases pair with rfl | ⟨-, ⟨-, ha | own⟩, -⟩
      · exact mem_cons_self
      · cases og.symm.trans ha
      · exact absurd (Option.some.inj (og.symm.trans own)) o
    · exact mem_cons_of_mem _ (ih later)

end Likeness

section Joins

variable {V : Type} {oid : Oid} {labels : List Label} {joinType : JoinType}
  {leftLabels rightLabels : List Label} {left left' right right' : Multiset (Frame V)}

variable {on on' : Frame V → Frame V → Bool}

theorem covers_joinFrames (leftThere : Covers oid labels left left')
    (leftBack : Covers oid labels left' left) (rightThere : Covers oid labels right right')
    (rightBack : Covers oid labels right' right)
    (same : ∀ f f', Alike oid labels f f' → ∀ g g', Alike oid labels g g' → on f g = on' f' g') :
    Covers oid labels (joinFrames joinType leftLabels rightLabels on left right)
      (joinFrames joinType leftLabels rightLabels on' left' right') := by
  intro frame hm
  rcases mem_joinFrames.mp hm with
    ⟨a, ha, b, hb, h, rfl⟩ | ⟨preserves, a, ha, unmatched, rfl⟩ | ⟨preserves, b, hb, unmatched, rfl⟩
  · obtain ⟨a', ha', alikeA⟩ := leftThere a ha
    obtain ⟨b', hb', alikeB⟩ := rightThere b hb
    exact ⟨a' ++ b', mem_joinFrames.mpr (.inl ⟨a', ha', b', hb',
      (same _ _ alikeA _ _ alikeB).symm.trans h, rfl⟩), rel_append alikeA alikeB⟩
  · obtain ⟨a', ha', alikeA⟩ := leftThere a ha
    refine ⟨_, mem_joinFrames.mpr (.inr (.inl ⟨preserves, a', ha', fun b' hb' => ?_, rfl⟩)),
      rel_append alikeA (alike_refl _)⟩
    obtain ⟨b, hb, alikeB⟩ := rightBack b' hb'
    exact (same _ _ alikeA _ _ (alike_symm alikeB)).symm.trans (unmatched b hb)
  · obtain ⟨b', hb', alikeB⟩ := rightThere b hb
    refine ⟨_, mem_joinFrames.mpr (.inr (.inr ⟨preserves, b', hb', fun a' ha' => ?_, rfl⟩)),
      rel_append (alike_refl _) alikeB⟩
    obtain ⟨a, ha, alikeA⟩ := leftBack a' ha'
    exact (same _ _ (alike_symm alikeA) _ _ alikeB).symm.trans (unmatched a ha)

def Own (oid : Oid) (labels own : List Label) (frame : Frame V) : Prop :=
  frame.map Binding.label = own ∧ ∀ binding ∈ frame, Stands oid labels binding

theorem own_padding {own : List Label} (inside : own ⊆ labels) :
    Own (V := V) oid labels own (own.map .padding) := by
  refine ⟨by simp [Binding.padding, Function.comp_def], fun binding hm => ?_⟩
  obtain ⟨label, listed, rfl⟩ := List.mem_map.mp hm
  exact ⟨inside listed, .inl rfl⟩

theorem Own.alike {own : List Label} {a b : Frame V} (one : Own oid labels own a)
    (other : Own oid labels own b) : Alike oid labels a b :=
  alike_of_labels (one.1.trans other.1.symm) one.2 other.2

theorem covers_leftJoin_only (inside : rightLabels ⊆ labels) (there : Covers oid labels left left')
    (own : ∀ b ∈ right, Own oid labels rightLabels b)
    (own' : ∀ b ∈ right', Own oid labels rightLabels b) :
    Covers oid labels (joinFrames .left leftLabels rightLabels on left right)
      (joinFrames .left leftLabels rightLabels on' left' right') := by
  intro frame hm
  obtain ⟨a, ha, b, alone, rfl⟩ :
      ∃ a ∈ left, ∃ b, Own oid labels rightLabels b ∧ a ++ b = frame := by
    rcases mem_joinFrames.mp hm with
      ⟨a, ha, b, hb, -, rfl⟩ | ⟨-, a, ha, -, rfl⟩ | ⟨preserves, -⟩
    · exact ⟨a, ha, b, own b hb, rfl⟩
    · exact ⟨a, ha, _, own_padding inside, rfl⟩
    · simp at preserves
  obtain ⟨a', ha', alike⟩ := there a ha
  by_cases matched : ∃ b' ∈ right', on' a' b' = true
  · obtain ⟨b', hb', h⟩ := matched
    exact ⟨_, mem_joinFrames.mpr (.inl ⟨a', ha', b', hb', h, rfl⟩),
      rel_append alike (alone.alike (own' b' hb'))⟩
  · have unmatched : ∀ b' ∈ right', on' a' b' = false := by simpa using matched
    exact ⟨_, mem_joinFrames.mpr (.inr (.inl ⟨.inl rfl, a', ha', unmatched, rfl⟩)),
      rel_append alike (alone.alike (own_padding inside))⟩

theorem covers_rightJoin_only (inside : leftLabels ⊆ labels)
    (there : Covers oid labels right right') (own : ∀ a ∈ left, Own oid labels leftLabels a)
    (own' : ∀ a ∈ left', Own oid labels leftLabels a) :
    Covers oid labels (joinFrames .right leftLabels rightLabels on left right)
      (joinFrames .right leftLabels rightLabels on' left' right') := by
  intro frame hm
  obtain ⟨b, hb, a, alone, rfl⟩ :
      ∃ b ∈ right, ∃ a, Own oid labels leftLabels a ∧ a ++ b = frame := by
    rcases mem_joinFrames.mp hm with
      ⟨a, ha, b, hb, -, rfl⟩ | ⟨preserves, -⟩ | ⟨-, b, hb, -, rfl⟩
    · exact ⟨b, hb, a, own a ha, rfl⟩
    · simp at preserves
    · exact ⟨b, hb, _, own_padding inside, rfl⟩
  obtain ⟨b', hb', alike⟩ := there b hb
  by_cases matched : ∃ a' ∈ left', on' a' b' = true
  · obtain ⟨a', ha', h⟩ := matched
    exact ⟨_, mem_joinFrames.mpr (.inl ⟨a', ha', b', hb', h, rfl⟩),
      rel_append (alone.alike (own' a' ha')) alike⟩
  · have unmatched : ∀ a' ∈ left', on' a' b' = false := by simpa using matched
    exact ⟨_, mem_joinFrames.mpr (.inr (.inr ⟨.inl rfl, b', hb', unmatched, rfl⟩)),
      rel_append (alone.alike (own_padding inside)) alike⟩

end Joins

section Sources

variable {V : Type} [DecidableEq V] {pg : Pg V} {table : ResolvedTableNode} {labels : List Label}

def Elsewhere (table : ResolvedTableNode) (db db' : Database V) : Prop :=
  ∀ oid, oid ≠ table.relationOid → db oid = db' oid

omit [DecidableEq V] in
theorem Elsewhere.symm {db db' : Database V} (same : Elsewhere table db db') :
    Elsewhere table db' db :=
  fun oid o => (same oid o).symm

theorem selectsAlike_of_unread {db db' : Database V} (same : Elsewhere table db db')
    {inners : List ResolvedSelectNode} (unread : Unread table inners) :
    ∀ inner ∈ inners, SelectsAlike pg db db' inner :=
  fun inner hm =>
    selectsAlike_of_tables fun o direct => same _ (unread inner hm o direct)

theorem evalSource_of_without {db db' : Database V} (same : Elsewhere table db db')
    {source : ResolvedTableSource} (without : Without table source)
    (unread : Unread table (sourceNodes selects source)) (outer : Env V) :
    evalSource pg db source outer = evalSource pg db' source outer :=
  evalSource_of_agrees (fun o direct => same _ (without o direct))
    (sourceAgrees_of_alike source (selectsAlike_of_unread same unread) fun _ _ => rfl)

theorem directTables_of_only : ∀ {source : ResolvedTableSource}, Only table source →
    directTables source ≠ [] ∧ sourceLabels source = ownLabels table source
  | .table other, only => by
    have same : other.relationOid = table.relationOid := only
    simp [directTables, sourceLabels, ownLabels, same]
  | .subquery .., only => only.elim
  | .join _ left right _, ⟨onlyLeft, onlyRight⟩ => by
    obtain ⟨someLeft, ownLeft⟩ := directTables_of_only onlyLeft
    obtain ⟨-, ownRight⟩ := directTables_of_only onlyRight
    simp [directTables, sourceLabels, ownLeft, ownRight, ownLabels, someLeft]

theorem origin_of_only {db : Database V} {outer : Env V} :
    ∀ {source : ResolvedTableSource}, Only table source →
      ∀ frame ∈ evalSource pg db source outer, ∀ binding ∈ frame,
        binding.origin = none ∨ binding.origin = some table.relationOid
  | .table other, only, frame, hm, binding, inside => by
    simp only [evalSource, Multiset.mem_map] at hm
    obtain ⟨row, -, rfl⟩ := hm
    cases List.mem_singleton.mp inside
    exact .inr (congrArg some only)
  | .subquery .., only, _, _, _, _ => only.elim
  | .join joinType left right qual, ⟨onlyLeft, onlyRight⟩, frame, hm, binding, inside => by
    have padded (own : List Label) (inside : binding ∈ own.map (Binding.padding (V := V))) :
        binding.origin = none := by
      obtain ⟨label, -, rfl⟩ := List.mem_map.mp inside
      rfl
    simp only [evalSource] at hm
    rcases mem_joinFrames.mp hm with
      ⟨a, ha, b, hb, -, rfl⟩ | ⟨-, a, ha, -, rfl⟩ | ⟨-, b, hb, -, rfl⟩ <;>
      rcases List.mem_append.mp inside with inside | inside
    · exact origin_of_only onlyLeft a ha binding inside
    · exact origin_of_only onlyRight b hb binding inside
    · exact origin_of_only onlyLeft a ha binding inside
    · exact .inl (padded _ inside)
    · exact .inl (padded _ inside)
    · exact origin_of_only onlyRight b hb binding inside

theorem own_of_only {db : Database V} {outer : Env V} {source : ResolvedTableSource}
    (only : Only table source) (inside : sourceLabels source ⊆ labels) :
    ∀ frame ∈ evalSource pg db source outer,
      Own table.relationOid labels (sourceLabels source) frame := by
  intro frame hm
  have shape := labels_evalSource hm
  refine ⟨shape, fun binding listed => ⟨inside ?_, origin_of_only only frame hm binding listed⟩⟩
  rw [← shape]
  exact mem_map_of_mem listed

theorem unanswered_of_walk {e : ResolvedWhereExpr}
    (named : Named table labels (whereNodes columns e)) (ha : table.name ∉ columnTableRefs e) :
    ∀ c ∈ whereFree e, Unanswered labels c := by
  intro c hm label listed
  have visited := whereFree_subset e hm
  refine Bool.eq_false_iff.mpr fun answers => ha ?_
  exact List.mem_map.mpr ⟨c, visited, named c visited ⟨label, listed, answers⟩⟩

theorem sameQual {db db' : Database V} (same : Elsewhere table db db')
    {qual : ResolvedJoinQual} (unread : Unread table (qualNodes selects qual))
    (named : Named table labels (qualNodes columns qual))
    (ha : table.name ∉ (qual.predicate.map columnTableRefs).getD []) {a b : Frame V}
    (alike : Alike table.relationOid labels a b) (outer : Env V) (all : List Label) :
    qualHolds pg db qual (rowScope (extend outer all a)) =
      qualHolds pg db' qual (rowScope (extend outer all b)) := by
  refine qualHolds_congr qual (selectsAlike_of_unread same unread)
    (agree_rowScope (envAgree_of_alike ?_ alike outer all))
  cases qual with
  | on p | «using» _ p => exact unanswered_of_walk named ha
  | cross => simp [qualFree]

theorem relation_of_only : ∀ {source : ResolvedTableSource}, Only table source →
    ∀ other ∈ directTables source, other.relationOid = table.relationOid
  | .table _, only, other, listed => by
    cases List.mem_singleton.mp listed
    exact only
  | .subquery .., only, _, _ => only.elim
  | .join _ left right _, ⟨onlyLeft, onlyRight⟩, other, listed =>
    (List.mem_append.mp listed).elim (relation_of_only onlyLeft other)
      (relation_of_only onlyRight other)

theorem unnamed_of_only {refs : List String} {source : ResolvedTableSource}
    (only : Only table source)
    (name : ∀ other ∈ directTables source, other.relationOid = table.relationOid →
      other.name = table.name)
    (walked : (table.name, true) ∉
      (directTables source).map fun other => (other.name, decide (other.name ∈ refs))) :
    table.name ∉ refs := by
  intro read
  obtain ⟨first, listed⟩ := List.exists_mem_of_ne_nil _ (directTables_of_only only).1
  have same := name first listed (relation_of_only only first listed)
  exact walked (List.mem_map.mpr ⟨first, listed, by simp [same, read]⟩)

theorem ownLabels_join {joinType : JoinType} {left right : ResolvedTableSource}
    {qual : ResolvedJoinQual} : ownLabels table (.join joinType left right qual) =
      ownLabels table left ++ ownLabels table right := by
  simp [ownLabels, directTables]

theorem covers_evalSource : ∀ {source : ResolvedTableSource} {refs : List String},
    Hangs table source → ownLabels table source ⊆ labels →
    (∀ other ∈ directTables source, other.relationOid = table.relationOid →
      other.name = table.name) →
    Unread table (sourceNodes selects source) →
    Named table labels (sourceNodes columns source) →
    (table.name, true) ∉ joinTerminalityWalk source refs →
    (Without table source ∨ table.name ∉ refs) ∧
      ∀ {db db' : Database V}, Elsewhere table db db' → ∀ outer : Env V,
        Covers table.relationOid labels (evalSource pg db source outer)
          (evalSource pg db' source outer)
  | .table other, _, hangs, _, _, unread, _, _ => by
    have without : Without table (.table other) := by
      simpa [Without, directTables, Hangs] using hangs
    refine ⟨.inl without, fun same outer => ?_⟩
    rw [evalSource_of_without same without unread outer]
    exact covers_refl _
  | .subquery query tableAlias lateral, _, _, _, _, unread, _, _ => by
    have without : Without table (.subquery query tableAlias lateral) := by
      simp [Without, directTables]
    refine ⟨.inl without, fun same outer => ?_⟩
    rw [evalSource_of_without same without unread outer]
    exact covers_refl _
  | .join joinType left right qual, refs, hangs, inside, name, unread, named, walked => by
    have ihl := @covers_evalSource left (refs ++ (qual.predicate.map columnTableRefs).getD [])
    have ihr := @covers_evalSource right (refs ++ (qual.predicate.map columnTableRefs).getD [])
    have whole : Unread table (sourceNodes selects (.join joinType left right qual)) := unread
    simp only [sourceNodes, Unread, Named, forall_mem_append] at unread named
    obtain ⟨⟨unreadLeft, unreadRight⟩, unreadQual⟩ := unread
    obtain ⟨⟨namedLeft, namedRight⟩, namedQual⟩ := named
    simp only [joinTerminalityWalk, List.mem_append, not_or] at walked
    obtain ⟨⟨walkedHere, walkedLeft⟩, walkedRight⟩ := walked
    rw [ownLabels_join, List.append_subset] at inside
    simp only [directTables, forall_mem_append] at name
    rcases hangs with ⟨rfl, hangs, only⟩ | ⟨rfl, only, hangs⟩ | ⟨hangsLeft, hangsRight⟩
    · obtain ⟨-, covers⟩ := ihl hangs inside.1 name.1 unreadLeft namedLeft walkedLeft
      have own := (directTables_of_only only).2
      refine ⟨.inr (unnamed_of_only only name.2 (by simpa [optionalSide] using walkedHere)),
        fun same outer => ?_⟩
      simp only [evalSource]
      exact covers_leftJoin_only (own ▸ inside.2) (covers same outer)
        (own_of_only only (own ▸ inside.2)) (own_of_only only (own ▸ inside.2))
    · obtain ⟨-, covers⟩ := ihr hangs inside.2 name.2 unreadRight namedRight walkedRight
      have own := (directTables_of_only only).2
      refine ⟨.inr (unnamed_of_only only name.1 (by simpa [optionalSide] using walkedHere)),
        fun same outer => ?_⟩
      simp only [evalSource]
      exact covers_rightJoin_only (own ▸ inside.1) (covers same outer)
        (own_of_only only (own ▸ inside.1)) (own_of_only only (own ▸ inside.1))
    · obtain ⟨eitherLeft, coversLeft⟩ :=
        ihl hangsLeft inside.1 name.1 unreadLeft namedLeft walkedLeft
      obtain ⟨eitherRight, coversRight⟩ :=
        ihr hangsRight inside.2 name.2 unreadRight namedRight walkedRight
      rw [List.mem_append, not_or] at eitherLeft eitherRight
      -- a relation on neither side leaves the join as it is; on one, no condition above reads it
      by_cases without : Without table left ∧ Without table right
      · have none : Without table (.join joinType left right qual) :=
          fun other listed => (List.mem_append.mp listed).elim (without.1 other) (without.2 other)
        refine ⟨.inl none, fun same outer => ?_⟩
        rw [evalSource_of_without same none whole outer]
        exact covers_refl _
      · have ha : table.name ∉ refs ∧
            table.name ∉ (qual.predicate.map columnTableRefs).getD [] := by
          rcases eitherLeft with noLeft | ha
          · rcases eitherRight with noRight | ha
            · exact absurd ⟨noLeft, noRight⟩ without
            · exact ha
          · exact ha
        refine ⟨.inr ha.1, fun same outer => ?_⟩
        simp only [evalSource]
        exact covers_joinFrames (coversLeft same outer) (coversLeft same.symm outer)
          (coversRight same outer) (coversRight same.symm outer) fun _ _ alikeA _ _ alikeB =>
            sameQual same unreadQual namedQual ha.2 (rel_append alikeA alikeB) _ _

end Sources

section Selection

variable {V : Type} [DecidableEq V] {pg : Pg V} {table : ResolvedTableNode}
  {node : ResolvedSelectNode} {db db' : Database V}

theorem evalSources_singleton (source : ResolvedTableSource) (outer : Env V) :
    evalSources pg db [source] outer = evalSource pg db source outer := by
  simpa [evalSources, innerJoin, matchesOf] using
    (bind_singleton (evalSource pg db source outer) id).trans (map_id _)

theorem tree_of_terminal (terminal : table.name ∈ (outerJoinOptionalTables node).1) :
    ∃ source, node.sources = [source] ∧ (table.name, true) ∉ joinTerminalityWalk source
      ((node.whereClause.map columnTableRefs).getD []) := by
  unfold outerJoinOptionalTables at terminal
  split at terminal
  case h_1 joinType left right qual tree =>
    refine ⟨_, tree, fun read => ?_⟩
    simp only [mem_filter, decide_eq_true_eq] at terminal
    exact terminal.2 (List.mem_map.mpr ⟨_, mem_filter.mpr ⟨read, rfl⟩, rfl⟩)
  case h_2 => cases terminal

variable {source : ResolvedTableSource}

theorem covers_selectedFrames (tree : node.sources = [source])
    (walked : (table.name, true) ∉ joinTerminalityWalk source
      ((node.whereClause.map columnTableRefs).getD []))
    (alone : Alone pg.isAggregate table node) (same : Elsewhere table db db') :
    Covers table.relationOid (ownLabels table source) (selectedFrames pg db node closed)
      (selectedFrames pg db' node closed) := by
  have unread := alone.unread
  have named := alone.named source (by simp [tree])
  have name := alone.name
  simp only [tree, directTableNodes, flatMap_cons, flatMap_nil, append_nil, Unread, Named,
    sourcesNodes, forall_mem_append] at unread named name
  obtain ⟨⟨unreadTree, unreadWhere⟩, -⟩ := unread
  obtain ⟨namedTree, namedWhere⟩ := named
  obtain ⟨either, covers⟩ := @covers_evalSource V _ pg table (ownLabels table source) source _
    (alone.hangs source (by simp [tree])) (List.Subset.refl _) name unreadTree namedTree walked
  intro frame inside
  rw [mem_selectedFrames, tree, evalSources_singleton] at inside
  -- without the relation the joined rows are the same; with it WHERE does not read it
  have where_ {frame' : Frame V} (agree : EnvAgree (clauseFree node.whereClause)
      (extend closed (sourcesLabels [source]) frame)
      (extend closed (sourcesLabels [source]) frame')) :=
    clauseHolds_congr node.whereClause (@selectsAlike_of_unread V _ pg _ _ _ same _ unreadWhere)
      (agree_rowScope agree)
  simp only [mem_selectedFrames, tree, evalSources_singleton]
  rcases either with without | ha
  · rw [evalSource_of_without same without unreadTree] at inside
    exact ⟨frame, ⟨inside.1, (where_ fun _ _ => rfl) ▸ inside.2⟩, alike_refl frame⟩
  · obtain ⟨frame', inside', alike⟩ := covers same closed frame inside.1
    refine ⟨frame', ⟨inside', (where_ (envAgree_of_alike ?_ alike closed _)) ▸ inside.2⟩, alike⟩
    cases cl : node.whereClause with
    | none => simp [clauseFree]
    | some e =>
      rw [cl] at namedWhere ha
      exact unanswered_of_walk namedWhere ha

section Groups

variable {oid : Oid} {own all : List Label} {groupBy : List ResolvedColumnNode}
  {frames frames' : Multiset (Frame V)} {frame frame' : Frame V} {column : ResolvedColumnNode}

theorem mem_group {other : Frame V} :
    other ∈ frames.filter (fun other => groupBy.map (extend closed all other) =
      groupBy.map (extend closed all frame)) ↔
      other ∈ frames ∧
        ∀ key ∈ groupBy, extend closed all other key = extend closed all frame key := by
  rw [Multiset.mem_filter, List.map_inj_left]

omit [DecidableEq V] in
theorem group_value (unanswered : Unanswered own column)
    (keyed : column ∈ groupBy ∨ ∀ key ∈ groupBy, Unanswered own key)
    (there : Covers oid own frames frames') (alike : Alike oid own frame frame')
    (inside' : frame' ∈ frames') (hit : answered all column = true) {other : Frame V}
    (listed : other ∈ frames)
    (same : ∀ key ∈ groupBy, extend closed all other key = extend closed all frame key) :
    ∃ other' ∈ frames', (∀ key ∈ groupBy, extend closed all other' key =
      extend closed all frame' key) ∧ other'.value column = other.value column := by
  rcases keyed with key | unread
  · refine ⟨frame', inside', fun _ _ => rfl, ?_⟩
    have shown := same column key
    simp only [extend, hit, if_true] at shown
    rw [shown, value_of_alike unanswered alike]
  · obtain ⟨other', listed', like⟩ := there other listed
    refine ⟨other', listed', fun key hk => ?_, (value_of_alike unanswered like).symm⟩
    rw [← extend_of_alike (unread key hk) like, same key hk, extend_of_alike (unread key hk) alike]

theorem extendGroup_alike (unanswered : Unanswered own column)
    (keyed : column ∈ groupBy ∨ ∀ key ∈ groupBy, Unanswered own key)
    (there : Covers oid own frames frames') (back : Covers oid own frames' frames)
    (alike : Alike oid own frame frame') (inside : frame ∈ frames) (inside' : frame' ∈ frames') :
    (groupScope groupBy all frames frame).env column =
      (groupScope groupBy all frames' frame').env column := by
  simp only [groupScope, extendGroup]
  split
  · rename_i hit
    congr 1
    refine Multiset.dedup_ext.mpr fun value => ?_
    simp only [Multiset.mem_map, mem_group]
    constructor
    · rintro ⟨other, ⟨listed, same⟩, rfl⟩
      obtain ⟨other', listed', same', shown⟩ :=
        group_value unanswered keyed there alike inside' hit listed same
      exact ⟨other', ⟨listed', same'⟩, shown⟩
    · rintro ⟨other, ⟨listed, same⟩, rfl⟩
      obtain ⟨other', listed', same', shown⟩ :=
        group_value unanswered keyed back (alike_symm alike) inside hit listed same
      exact ⟨other', ⟨listed', same'⟩, shown⟩
  · rfl

theorem current_of_frame (inside : frame ∈ frames) :
    ⟨(groupScope groupBy all frames frame).env, (groupScope groupBy all frames frame).group⟩ ∈
      currents true groupBy closed all frames := by
  unfold currents
  rw [if_pos rfl]
  split
  · rename_i none
    simp [groupScope, List.isEmpty_iff.mp none]
  · exact Multiset.mem_map.mpr ⟨_, Multiset.mem_dedup.mpr (Multiset.mem_map_of_mem _ inside), rfl⟩

end Groups

theorem kept_alike (tree : node.sources = [source]) (alone : Alone pg.isAggregate table node)
    (same : Elsewhere table db db')
    (there : Covers table.relationOid (ownLabels table source) (selectedFrames pg db node closed)
      (selectedFrames pg db' node closed))
    (back : Covers table.relationOid (ownLabels table source) (selectedFrames pg db' node closed)
      (selectedFrames pg db node closed)) {frame frame' : Frame V}
    (inside : frame ∈ selectedFrames pg db node closed)
    (inside' : frame' ∈ selectedFrames pg db' node closed)
    (alike : Alike table.relationOid (ownLabels table source) frame frame') :
    kept pg db node frame = kept pg db' node frame' := by
  have unread := alone.unread
  simp only [Unread, forall_mem_append] at unread
  have keyed := alone.keyed source (by simp [tree])
  unfold kept
  cases cl : node.having with
  | none => rfl
  | some e =>
    rw [cl] at unread keyed
    have plain := alone.plain e cl
    have ungrouped (db : Database V) (frames : Multiset (Frame V)) (frame : Frame V) :
        evalWhere pg db e (groupScope node.groupBy (sourcesLabels node.sources) frames frame) =
          evalWhere pg db e
            (rowScope (groupScope node.groupBy (sourcesLabels node.sources) frames frame).env) :=
      evalWhere_plain e plain
    simp only [clauseHolds, ungrouped]
    rw [evalWhere_congr e (selectsAlike_of_unread same unread.2) (agree_rowScope ?_)]
    exact fun column read => extendGroup_alike (keyed column read).1 (keyed column read).2 there
      back alike inside inside'

theorem evalSelect_ne_zero {frame : Frame V} (keys : Scope V → Tuple V)
    (inside : frame ∈ selectedFrames pg db node closed) (keeps : kept pg db node frame = true) :
    evalSelect pg db node keys closed ≠ 0 := by
  obtain ⟨current, listed, passes⟩ : ∃ current ∈ currents (grouped pg.isAggregate node)
      node.groupBy closed (sourcesLabels node.sources) (selectedFrames pg db node closed),
      clauseHolds pg db node.having ⟨current.env, current.group, 0, fun _ => none⟩ = true := by
    cases isGrouped : grouped pg.isAggregate node with
    | true => exact ⟨_, current_of_frame inside, keeps⟩
    | false =>
      have bare : node.having = none := by
        simp only [grouped, Bool.or_eq_false_iff, Option.isSome_eq_false_iff,
          Option.isNone_iff_eq_none] at isGrouped
        exact isGrouped.1.2
      rw [bare]
      exact ⟨_, by simpa [currents] using ⟨frame, inside, rfl⟩, rfl⟩
  have rows : project (columnNames node.columns)
      (currents (grouped pg.isAggregate node) node.groupBy closed (sourcesLabels node.sources)
        (selectedFrames pg db node closed))
      (clauseHolds pg db node.having) (evalColumns pg db node.columns) keys ≠ 0 := by
    simp only [project, ne_eq, map_eq_zero, filter_eq_nil, not_forall]
    exact ⟨current, listed, by simpa using passes⟩
  rw [evalSelect_eq]
  dsimp only
  split
  · exact dedup_eq_zero.not.mpr rows
  · exact rows

/-- A terminal table that hangs alone: its rows do not change which rows of other relations are
needed, and its update query accepts every needed row. -/
theorem terminal_table_sound (terminal : table.name ∈ (outerJoinOptionalTables node).1)
    (alone : Alone pg.isAggregate table node)
    (same : ∀ oid, oid ≠ table.relationOid → db oid = db' oid) :
    (∀ oid, oid ≠ table.relationOid → ∀ row,
      Needed pg db node oid row ↔ Needed pg db' node oid row) ∧
    ∀ row, Needed pg db' node table.relationOid row → UpdateQueryAccepts pg db' node table row := by
  obtain ⟨source, tree, walked⟩ := tree_of_terminal terminal
  have covers {first second : Database V} (same : Elsewhere table first second) :=
    @covers_selectedFrames V _ pg _ _ _ _ _ tree walked alone same
  have moves {first second : Database V} (same : Elsewhere table first second) {frame : Frame V}
      (selected : frame ∈ selectedFrames pg first node closed)
      (keeps : kept pg first node frame = true) :
      ∃ frame' ∈ selectedFrames pg second node closed, kept pg second node frame' = true ∧
        Alike table.relationOid (ownLabels table source) frame frame' := by
    obtain ⟨frame', selected', alike⟩ := covers same frame selected
    refine ⟨frame', selected', ?_, alike⟩
    rw [← kept_alike tree alone same (covers same) (covers same.symm) selected selected' alike]
    exact keeps
  have needed {first second : Database V} (same : Elsewhere table first second) (oid : Oid)
      (other : oid ≠ table.relationOid) (row : Row V) :
      Needed pg first node oid row → Needed pg second node oid row := by
    rintro ⟨frame, selected, keeps, binding, inside, origin, rfl⟩
    obtain ⟨frame', selected', keeps', alike⟩ := moves same selected keeps
    exact ⟨frame', selected', keeps', binding, mem_of_alike other origin alike inside, origin, rfl⟩
  refine ⟨fun oid other row => ⟨needed same oid other row,
    needed (Elsewhere.symm same) oid other row⟩, ?_⟩
  rintro row ⟨frame, selected, keeps, -⟩
  have replaced : Elsewhere table db' (Function.update db' table.relationOid {row}) :=
    fun oid other => (Function.update_of_ne other _ _).symm
  obtain ⟨frame', selected', keeps', -⟩ := moves replaced selected keeps
  simp only [UpdateQueryAccepts, result, evalQuery, evalBody]
  exact map_eq_zero.not.mpr
    (@evalSelect_ne_zero _ _ pg (selectTrue node) _ frame' _ selected' keeps')

end Selection

section Library

def columnOf (table name : String) : ResolvedColumnNode :=
  ⟨"public", table, none, name, ⟨name, 1, .int4, false⟩⟩

def onEqual (a b : ResolvedColumnNode) : ResolvedJoinQual :=
  .on (.binary .equal (.scalar (.column a)) (.scalar (.column b)))

def authors : ResolvedTableNode := ⟨"public", "authors", none, 1⟩

def books : ResolvedTableNode := ⟨"public", "books", none, 2⟩

def reviews : ResolvedTableNode := ⟨"public", "reviews", none, 3⟩

def perAuthor (optional : ResolvedTableSource) (groupBy : List ResolvedColumnNode)
    (having : Option ResolvedWhereExpr) : ResolvedSelectNode where
  distinct := false
  columns := [⟨.column (columnOf "authors" "id"), none⟩]
  sources := [.join .left (.table authors) optional
    (onEqual (columnOf "authors" "id") (columnOf "books" "author"))]
  whereClause := none
  groupBy := groupBy
  having := having

def booksReviews : ResolvedTableSource :=
  .join .left (.table books) (.table reviews)
    (onEqual (columnOf "books" "id") (columnOf "reviews" "book"))

def shelves (titles : Multiset (Row Int)) : Database Int
  | 1 => {[("id", some 1)]}
  | 2 => titles
  | _ => {[("id", some 7), ("book", some 5)]}

theorem shelves_elsewhere (titles titles' : Multiset (Row Int)) (oid : Oid)
    (o : oid ≠ books.relationOid) : shelves titles oid = shelves titles' oid := by
  unfold shelves
  split
  · rfl
  · exact absurd rfl o
  · rfl

def bothSides : ResolvedSelectNode where
  distinct := false
  columns := [⟨.column (columnOf "authors" "id"), none⟩]
  sources := [.join .inner
    (.join .left (.table authors) (.table books)
      (onEqual (columnOf "authors" "id") (columnOf "books" "author")))
    (.join .left (.table reviews) (.table { books with aliasName := some "b" })
      (onEqual (columnOf "reviews" "book") { columnOf "books" "id" with tableAlias := some "b" }))
    .cross]
  whereClause := none
  groupBy := [columnOf "authors" "id"]
  having := some (.binary .greaterThan (.scalar (.column (columnOf "authors" "id")))
    (.scalar (.literal (.integer 0))))

theorem books_alone : Alone integers.isAggregate books bothSides where
  hangs := by simp [bothSides, Hangs, Only, authors, books, reviews]
  name := by simp [bothSides, directTableNodes, directTables, authors, books, reviews]
  named := by
    simp [Named, bothSides, sourcesNodes, sourceNodes, qualNodes, onEqual, whereNodes, scalarNodes,
      clauseNodes, columns, columnOf, tableLabel, Label.answers, books, authors, reviews, ownLabels,
      directTables]
  unread := by
    simp [Unread, bothSides, sourcesNodes, sourceNodes, qualNodes, onEqual, whereNodes, scalarNodes,
      clauseNodes, selects, columnOf]
  plain := by simp [bothSides, wherePlain, scalarPlain]
  keyed := by
    simp [bothSides, clauseFree, whereFree, scalarFree, Unanswered, ownLabels, directTables,
      tableLabel, Label.answers, columnOf, books, authors, reviews]
    exact fun label => ⟨by rintro rfl; decide, by rintro rfl; decide⟩

theorem book_leaves_authors_needed :
    let book : Row Int := [("id", some 5), ("author", some 1)]
    Needed integers (shelves 0) bothSides 1 [("id", some 1)] ∧
      Needed integers (shelves {book}) bothSides 1 [("id", some 1)] ∧
      UpdateQueryAccepts integers (shelves {book}) bothSides books book := by
  intro book
  have sound := terminal_table_sound (by decide) books_alone (shelves_elsewhere 0 {book})
  have before : Needed integers (shelves 0) bothSides 1 [("id", some 1)] := by decide +kernel
  exact ⟨before, (sound.1 1 (by decide) _).mp before, sound.2 _ (by decide +kernel)⟩

/-- authors LEFT JOIN (books LEFT JOIN reviews): `books` is reported terminal, and a new book
makes a review needed. With HAVING count(books.id) > 1 the update query rejects a needed book. -/
theorem nested_optional_table_matters : let nested := perAuthor booksReviews [] none
    let book : Row Int := [("id", some 5), ("author", some 1)]
    let other : Row Int := [("id", some 6), ("author", some 1)]
    let review : Row Int := [("id", some 7), ("book", some 5)]
    let counted := perAuthor (.table books) [columnOf "authors" "id"] (some (.binary .greaterThan
        (.scalar (.function
          ⟨"count", [.column (columnOf "books" "id")], false, false, [], none, none⟩))
        (.scalar (.literal (.integer 1)))))
    ("books" ∈ (outerJoinOptionalTables nested).1 ∧
        ¬ Needed integers (shelves 0) nested reviews.relationOid review ∧
        Needed integers (shelves {book}) nested reviews.relationOid review) ∧
      "books" ∈ (outerJoinOptionalTables counted).1 ∧
        Needed integers (shelves {book, other}) counted books.relationOid book ∧
        ¬ UpdateQueryAccepts integers (shelves {book, other}) counted books book := by
  decide +kernel

end Library

end PgCache.Cache.Terminality
