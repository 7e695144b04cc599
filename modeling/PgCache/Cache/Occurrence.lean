/- source: cache/writer/registration/resolve.rs, cache/update_query.rs, query/update.rs
   digest: Which occurrence of a relation the stored update query stands for. -/
import PgCache.Cache.Admission
import PgCache.Cache.Cdc.Apply
import PgCache.Cache.Cdc.PointProbe

set_option autoImplicit false

namespace PgCache.Cache.Occurrence

open Catalog Data.Keyed Query.Resolved.Ast Query.Evaluate Maintenance Admission Cdc.Invalidation
open Cdc.Apply Cdc.PointProbe Query.Containment Query.Containment.Run List

section Coverage

variable (doubles : Doubles) (db : CacheDb)

def accepts (table : TableMetadata) (query : UpdateQuery) (row : RowData) : Bool :=
  match query.evalStrategy with
  | .localEval => updateQueryMatchesLocally doubles query row
  | .pgEval => db.hit query table row

structure Covers (table : TableMetadata) (stored own : UpdateQuery) : Prop where
  membership : ∀ row, accepts doubles db table own row = true →
    accepts doubles db table stored row = true
  invalidation : ∀ event, queryRowInvalidates doubles own table event = true →
    queryRowInvalidates doubles stored table event = true

structure Maintains (table : TableMetadata) (queries : UpdateQueries) (own : TableAdmission) :
    Prop where
  covers : ∃ stored, queries.queries.lookup own.updateQuery.fingerprint = some stored ∧
    Covers doubles db table stored own.updateQuery
  probed : ∀ row, own.updateQuery.fingerprint ∈
      (ConstraintIndex.empty.insert own.updateQuery.fingerprint
        own.indexConstraints).candidatesPoint
        (rowValueForms doubles table row) →
    own.updateQuery.fingerprint ∈ queries.evalIndex.candidatesPoint
      (rowValueForms doubles table row)

end Coverage

def Indexed (updateQueries : KeyedMap Oid UpdateQueries) : Prop :=
  ∀ oid queries, updateQueries.lookup oid = some queries →
    ∃ ops, queries.evalIndex = indexAfter ops

structure Holds (queries : UpdateQueries) (own : TableAdmission) : Prop where
  stored : queries.queries.lookup own.updateQuery.fingerprint = some own.updateQuery
  filed : ∃ ops, queries.evalIndex = indexAfter ops ∧
    (liveAfter ops).lookup own.updateQuery.fingerprint = some own.indexConstraints

theorem holds_register {queries : UpdateQueries} {ops : List (IndexOp Fingerprint)}
    (reached : queries.evalIndex = indexAfter ops) (own : TableAdmission) :
    Holds (queries.register own.updateQuery own.indexConstraints own.subsumerEligible) own where
  stored := AList.lookup_insert _
  filed := by
    have kept : (queries.clear own.updateQuery.fingerprint).evalIndex = queries.evalIndex := by
      unfold UpdateQueries.clear
      split <;> rfl
    refine ⟨ops ++ [.insert own.updateQuery.fingerprint own.indexConstraints], ?_, ?_⟩
    · rw [indexAfter, foldl_append, foldl_cons, foldl_nil, ← indexAfter, ← reached, ← kept]
      rfl
    · rw [liveAfter, foldl_append, foldl_cons, foldl_nil]
      exact AList.lookup_insert _

theorem Holds.maintains {queries : UpdateQueries} {own : TableAdmission} (holds : Holds queries own)
    (doubles : Doubles) (db : CacheDb) (table : TableMetadata) :
    Maintains doubles db table queries own where
  covers := ⟨_, holds.stored, fun _ => id, fun _ => id⟩
  probed row alone := by
    obtain ⟨ops, reached, live⟩ := holds.filed
    have here := represents_after [IndexOp.insert own.updateQuery.fingerprint own.indexConstraints]
    rw [reached, entry_probed_iff (represents_after ops) live]
    exact (entry_probed_iff here (AList.lookup_insert _)).mp alone

theorem holds_registered {updateQueries : KeyedMap Oid UpdateQueries}
    (indexed : Indexed updateQueries)
    {admissions : List TableAdmission} (alike : ∀ a ∈ admissions, ∀ b ∈ admissions,
      a.relationOid = b.relationOid → a = b) :
    Indexed (admissions.foldl admissionRegister updateQueries) ∧
      ∀ own ∈ admissions, ∃ queries,
        (admissions.foldl admissionRegister updateQueries).lookup own.relationOid = some queries ∧
          Holds queries own := by
  induction admissions using reverseRecOn with
  | nil => exact ⟨indexed, nofun⟩
  | append_singleton admissions last ih =>
    obtain ⟨indexed, held⟩ := ih fun a ha b hb =>
      alike a (mem_append_left _ ha) b (mem_append_left _ hb)
    rw [foldl_append, foldl_cons, foldl_nil]
    generalize admissions.foldl admissionRegister updateQueries = before at indexed held
    have reached : ∃ ops, ((before.lookup last.relationOid).getD
        (.new last.relationOid)).evalIndex = indexAfter ops := by
      cases found : before.lookup last.relationOid with
      | none => exact ⟨[], rfl⟩
      | some queries => exact indexed _ _ found
    obtain ⟨ops, reached⟩ := reached
    have now := holds_register reached last
    refine ⟨fun oid queries found => ?_, fun own listed => ?_⟩
    · rw [admissionRegister, PgCache.Data.Keyed.lookup_modify] at found
      split at found
      · cases found
        obtain ⟨ops, filed, -⟩ := now.filed
        exact ⟨ops, filed⟩
      · exact indexed oid queries found
    · rw [admissionRegister, PgCache.Data.Keyed.lookup_modify]
      by_cases same : own.relationOid = last.relationOid
      · obtain rfl := alike own listed last (mem_append_right _ mem_cons_self) same
        rw [if_pos rfl]
        exact ⟨_, rfl, now⟩
      · rw [if_neg same]
        rcases mem_append.mp listed with earlier | isLast
        · exact held own earlier
        · exact absurd (congrArg TableAdmission.relationOid (mem_singleton.mp isLast)) same

section Registration

variable {aggregateFunctions : String → Bool}
  {updateQueries updateQueries' : KeyedMap Oid UpdateQueries} {fp : Fingerprint}
  {resolved source : ResolvedQueryExpr} {hasLimit : Bool}

def admissionsOf (resolved source : ResolvedQueryExpr) (fp : Fingerprint) (hasLimit : Bool) :
    List TableAdmission :=
  (queryTableUpdateQueries source).map (tableAdmission resolved fp hasLimit)

theorem registered_fold
    (registered : updateQueriesRegister aggregateFunctions updateQueries fp resolved hasLimit =
      .ok updateQueries') (sourced : updateSource aggregateFunctions resolved = .ok source) :
    updateQueries' =
      (admissionsOf resolved source fp hasLimit).foldl admissionRegister updateQueries := by
  unfold updateQueriesRegister queryAdmissionAnalyze at registered
  rw [sourced] at registered
  exact (Except.ok.inj registered).symm

def Alike (first second : TableUpdateQuery) : Prop :=
  first.table.relationOid = second.table.relationOid → first.table.name = second.table.name ∧
    first.select = second.select ∧ first.source = second.source

/-- After a registration every (table, branch) pair is maintained, when the pairs of each relation
have one predicate and one source. -/
theorem every_occurrence_maintained (doubles : Doubles) (db : CacheDb)
    (tables : Oid → TableMetadata) (indexed : Indexed updateQueries)
    (registered : updateQueriesRegister aggregateFunctions updateQueries fp resolved hasLimit =
      .ok updateQueries') (sourced : updateSource aggregateFunctions resolved = .ok source)
    (alike : ∀ first ∈ queryTableUpdateQueries source, ∀ second ∈ queryTableUpdateQueries source,
      Alike first second) :
    ∀ own ∈ admissionsOf resolved source fp hasLimit, ∃ queries,
      updateQueries'.lookup own.relationOid = some queries ∧
        Maintains doubles db (tables own.relationOid) queries own := by
  rw [registered_fold registered sourced]
  have same : ∀ a ∈ admissionsOf resolved source fp hasLimit,
      ∀ b ∈ admissionsOf resolved source fp hasLimit, a.relationOid = b.relationOid → a = b := by
    intro a ha b hb oid
    obtain ⟨first, hf, rfl⟩ := mem_map.mp ha
    obtain ⟨second, hs, rfl⟩ := mem_map.mp hb
    -- a pair enters its admission by the relation, its name, the predicate and the source
    obtain ⟨⟨_, _, _, _⟩, _, _⟩ := first
    obtain ⟨⟨_, _, _, _⟩, _, _⟩ := second
    obtain ⟨rfl, rfl, rfl⟩ := alike _ hf _ hs oid
    cases oid
    rfl
  intro own listed
  obtain ⟨queries, found, holds⟩ := (holds_registered indexed same).2 own listed
  exact ⟨queries, found, holds.maintains doubles db _⟩

end Registration

section Arms

def notesColumn (name : String) (position : Nat) (isPrimaryKey : Bool) :
    ResolvedColumnNode :=
  ⟨"public", "notes", none, name, ⟨name, position, .int4, isPrimaryKey⟩⟩

def notesArm (value : Int64) : ResolvedQueryExpr :=
  ⟨.select
    { distinct := false
      columns := [⟨.column (notesColumn "id" 1 true), none⟩]
      sources := [.table ⟨"public", "notes", none, 16400⟩]
      whereClause := some (.binary .equal (.scalar (.column (notesColumn "kind" 2 false)))
        (.scalar (.literal (.integer value))))
      groupBy := []
      having := none }, [], none⟩

def notesUnion (left right : Int64) : ResolvedQueryExpr :=
  ⟨.setOp .union false (notesArm left) (notesArm right), [], none⟩

def notesTable : TableMetadata where
  relationOid := 16400
  name := "notes"
  schema := "public"
  primaryKeyColumns := ["id"]
  columns := ⟨[⟨"id", 1, .int4, true⟩, ⟨"kind", 2, .int4, false⟩], by decide⟩
  replicaIdentityFull := false

def notesDoubles : Doubles := ⟨fun _ => none, fun _ _ => none⟩

def notesDb : CacheDb := ⟨fun _ _ _ => false, fun _ _ => none⟩

/-- The first arm of a UNION accepts a row that the entry stored for the relation rejects. -/
theorem union_arm_displaced : ∃ updateQueries' queries stored,
    updateQueriesRegister (fun _ => false) ∅ 5 (notesUnion 1 2) false = .ok updateQueries' ∧
    updateQueries'.lookup 16400 = some queries ∧
    queries.queries.lookup 5 = some stored ∧
    ∃ admission ∈ admissionsOf (notesUnion 1 2) (notesUnion 1 2) 5 false,
      admission.relationOid = 16400 ∧
      accepts notesDoubles notesDb notesTable admission.updateQuery [some "7", some "1"] = true ∧
      accepts notesDoubles notesDb notesTable stored [some "7", some "1"] = false :=
  ⟨_, _, _, rfl, rfl, rfl, _, mem_cons_self, rfl, by decide, by decide⟩

theorem equal_arms_maintained : ∃ updateQueries',
    updateQueriesRegister (fun _ => false) ∅ 5 (notesUnion 1 1) false = .ok updateQueries' ∧
      ∀ own ∈ admissionsOf (notesUnion 1 1) (notesUnion 1 1) 5 false, ∃ queries,
        updateQueries'.lookup own.relationOid = some queries ∧
          Maintains notesDoubles notesDb notesTable queries own := by
  have sourced : updateSource (fun _ => false) (notesUnion 1 1) = .ok (notesUnion 1 1) := rfl
  have registered : updateQueriesRegister (fun _ => false) ∅ 5 (notesUnion 1 1) false =
      .ok ((admissionsOf (notesUnion 1 1) (notesUnion 1 1) 5 false).foldl
        admissionRegister ∅) := rfl
  refine ⟨_, registered, every_occurrence_maintained notesDoubles notesDb (fun _ => notesTable)
    (by simp [Indexed]) registered sourced ?_⟩
  intro first hf second hs _
  rcases mem_cons.mp hf with rfl | hf <;> rcases mem_cons.mp hs with rfl | hs
  · exact ⟨rfl, rfl, rfl⟩
  · cases mem_singleton.mp hs
    exact ⟨rfl, rfl, rfl⟩
  · cases mem_singleton.mp hf
    exact ⟨rfl, rfl, rfl⟩
  · cases mem_singleton.mp hf
    cases mem_singleton.mp hs
    exact ⟨rfl, rfl, rfl⟩

end Arms

end PgCache.Cache.Occurrence
