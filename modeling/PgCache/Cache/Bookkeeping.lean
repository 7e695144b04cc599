/- source: cache/update_query.rs, cache/admission/analyze.rs, cache/writer/registration/lifecycle.rs
   digest: Which registrations and limit changes keep the bookkeeping of a relation's update
     queries equal to its recomputation from the stored queries. -/
import PgCache.Cache.Cdc.Narrowing
import PgCache.Query.Containment.Run
import PgCache.Query.Resolved.Traverse

set_option autoImplicit false

namespace PgCache.Cache.Bookkeeping

open Catalog Data.Keyed Query.Constraints.Range Query.Containment Query.Containment.Run
open Query.Resolved.Traverse Maintenance Maintenance.UpdateQueries Cdc.Narrowing

variable (relationOid : Oid)

def selfJoined (query : UpdateQuery) : Bool :=
  1 < ((queryNodes tables query.resolved).filter (·.relationOid = relationOid)).length

variable (tableName : String)

def indexConstraints (query : UpdateQuery) : List TableConstraint :=
  if selfJoined relationOid query then []
  else (query.constraints.tableConstraints.lookup tableName).getD []

def subsumerEligible (query : UpdateQuery) : Bool :=
  !selfJoined relationOid query && !query.hasLimit && query.constraints.whereAnalysisComplete

inductive Upkeep where
  | register (query : UpdateQuery)
  | evict (fp : Fingerprint)
  | limit (fp : Fingerprint) (hasLimit : Bool)

def Upkeep.apply (qs : UpdateQueries) : Upkeep → UpdateQueries
  | .register query => qs.register query (indexConstraints relationOid tableName query)
      (subsumerEligible relationOid query)
  | .evict fp => qs.evict fp
  | .limit fp hasLimit => qs.subsumptionLimitReindex tableName fp hasLimit

def upkept (history : List Upkeep) : UpdateQueries :=
  history.foldl (Upkeep.apply relationOid tableName) (.new relationOid)

def subsumerEntry (query : UpdateQuery) : Option Membership :=
  if subsumerEligible relationOid query then
    some (membershipOf (indexConstraints relationOid tableName query))
  else none

structure Recomputed (relationOid : Oid) (tableName : String) (qs : UpdateQueries) : Prop where
  accounted : Accounted qs
  subsumption : ∀ fp, qs.subsumption.membership.lookup fp =
    (qs.queries.lookup fp).bind (subsumerEntry relationOid tableName)

def Aligned (qs : UpdateQueries) : Upkeep → Prop
  | .register query => subsumerEligible relationOid query = true ∨
      ∀ stored, qs.queries.lookup query.fingerprint = some stored →
        subsumerEligible relationOid stored = false
  | .evict _ => True
  | .limit fp hasLimit => ∀ stored, qs.queries.lookup fp = some stored →
      (stored.source = .fromClause → stored.hasLimit = hasLimit) ∧
        (hasLimit = false → selfJoined relationOid stored = true →
          stored.constraints.whereAnalysisComplete = false)

section Steps

variable {relationOid : Oid} {tableName : String} {qs : UpdateQueries}

theorem clear_subsumption (qs : UpdateQueries) (fp : Fingerprint) :
    (qs.clear fp).subsumption = qs.subsumption := by
  unfold clear
  split <;> rfl

theorem lookup_register (q : UpdateQuery) (cs : List TableConstraint)
    (eligible : Bool) (fp : Fingerprint) :
    (qs.register q cs eligible).queries.lookup fp =
      if fp = q.fingerprint then some q else qs.queries.lookup fp := by
  split
  case isTrue same =>
    rw [same]
    exact AList.lookup_insert _
  case isFalse other =>
    refine (AList.lookup_insert_ne other).trans ?_
    rw [lookup_clear, if_neg other]

theorem recomputed_register (recomputed : Recomputed relationOid tableName qs) (q : UpdateQuery) :
    Recomputed relationOid tableName (Upkeep.apply relationOid tableName qs (.register q)) ↔
      Aligned relationOid qs (.register q) := by
  have index : (Upkeep.apply relationOid tableName qs (.register q)).subsumption =
      if subsumerEligible relationOid q then qs.subsumption.insert q.fingerprint
        (indexConstraints relationOid tableName q) else qs.subsumption := by
    rw [← clear_subsumption qs q.fingerprint]
    rfl
  have hb := recomputed.subsumption q.fingerprint
  constructor
  · intro after
    by_contra unaligned
    simp only [Aligned, not_or, not_forall, Bool.not_eq_true, Bool.not_eq_false] at unaligned
    obtain ⟨ineligible, stored, hf, eligible⟩ := unaligned
    have e := after.subsumption q.fingerprint
    rw [index, if_neg (by simp [ineligible]), hb, hf, Upkeep.apply, lookup_register,
      if_pos rfl] at e
    simp [subsumerEntry, ineligible, eligible] at e
  · intro aligned
    refine ⟨{ accounted_queryInsert recomputed.accounted q with }, fun fp => ?_⟩
    rw [index, Upkeep.apply, lookup_register]
    by_cases eligible : subsumerEligible relationOid q = true
    · rw [if_pos eligible, lookup_membership_insert]
      split
      · simp [subsumerEntry, eligible]
      · exact recomputed.subsumption fp
    · rw [if_neg eligible, recomputed.subsumption fp]
      split
      case isTrue same =>
        subst same
        have gone := aligned.resolve_left eligible
        cases hf : qs.queries.lookup q.fingerprint with
        | none => simp [subsumerEntry, eligible]
        | some stored => simp [subsumerEntry, eligible, gone stored hf]
      case isFalse => rfl

theorem recomputed_evict (recomputed : Recomputed relationOid tableName qs)
    (fp : Fingerprint) : Recomputed relationOid tableName (qs.evict fp) := by
  refine ⟨{ accounted_queryRemove recomputed.accounted fp with }, fun fp' => ?_⟩
  have index : (qs.evict fp).subsumption = qs.subsumption.remove fp := by
    rw [← clear_subsumption qs fp]
    rfl
  have stored : (qs.evict fp).queries = (qs.clear fp).queries := rfl
  rw [index, stored, lookup_membership_remove, lookup_clear]
  split
  · rfl
  · exact recomputed.subsumption fp'

variable {fp : Fingerprint} {stored : UpdateQuery} {hasLimit : Bool}

theorem accounted_limit (accounted : Accounted qs) (hf : qs.queries.lookup fp = some stored)
    (same : stored.source = .fromClause → stored.hasLimit = hasLimit) :
    Accounted { qs with queries := qs.queries.insert fp { stored with hasLimit } } := by
  have limited : ({ stored with hasLimit } : UpdateQuery).isLimitFrom = stored.isLimitFrom := by
    by_cases own : stored.source = .fromClause
    · simp [UpdateQuery.isLimitFrom, own, same own]
    · simp [UpdateQuery.isLimitFrom, own]
  have counts : ∀ columnsOf counts, columnsOf { stored with hasLimit } = columnsOf stored →
      Refcounts columnsOf counts qs.queries →
      Refcounts columnsOf counts (qs.queries.insert fp { stored with hasLimit }) := by
    intro columnsOf counts kept refcounts c
    rw [refcounts c, total_insert, total_erase _ _ fp stored hf, windowCount, windowCount,
      limited, kept]
  exact ⟨accounted.always.replace hf rfl, accounted.limits.replace hf limited,
    counts _ _ rfl accounted.predicates, counts _ _ rfl accounted.orders, by
      rw [accounted.changes, count_insert, count_erase _ qs.queries fp stored hf]⟩

theorem limitReindex_stored (hf : qs.queries.lookup fp = some stored) :
    qs.subsumptionLimitReindex tableName fp hasLimit = { qs with
        queries := qs.queries.insert fp { stored with hasLimit }
        subsumption := if hasLimit then qs.subsumption.remove fp
          else if stored.constraints.whereAnalysisComplete then qs.subsumption.insert fp
            ((stored.constraints.tableConstraints.lookup tableName).getD [])
          else qs.subsumption } := by
  unfold subsumptionLimitReindex
  rw [hf]
  dsimp only
  split
  · rfl
  · split <;> rfl

theorem recomputed_limit (recomputed : Recomputed relationOid tableName qs)
    (fp : Fingerprint) (hasLimit : Bool) :
    Recomputed relationOid tableName (qs.subsumptionLimitReindex tableName fp hasLimit) ↔
      Aligned relationOid qs (.limit fp hasLimit) := by
  cases hf : qs.queries.lookup fp with
  | none =>
    refine iff_of_true ?_ fun stored there => by cases hf.symm.trans there
    unfold subsumptionLimitReindex
    rw [hf]
    dsimp only
    split
    · refine ⟨{ recomputed.accounted with }, fun fp' => ?_⟩
      rw [lookup_membership_remove]
      split
      case isTrue same => rw [same, hf]; rfl
      case isFalse => exact recomputed.subsumption fp'
    · exact recomputed
  | some stored =>
    have hb := recomputed.subsumption fp
    rw [hf, Option.bind_some] at hb
    rw [limitReindex_stored hf]
    constructor
    · intro after stored' there
      cases hf.symm.trans there
      refine ⟨fun own => ?_, fun unlimited joined => ?_⟩
      · have now := (recomputed.accounted.limits fp).symm.trans (after.accounted.limits fp)
        simpa [hf, UpdateQuery.isLimitFrom, own, ← Bool.eq_iff_iff] using now
      · have e := after.subsumption fp
        subst unlimited
        by_contra complete
        rw [Bool.not_eq_false] at complete
        simp [complete, lookup_membership_insert, subsumerEntry, subsumerEligible,
          show selfJoined relationOid { stored with hasLimit := false } = true from joined] at e
    · intro aligned
      obtain ⟨same, apart⟩ := aligned stored hf
      refine ⟨{ accounted_limit recomputed.accounted hf same with }, fun fp' => ?_⟩
      by_cases here : fp' = fp
      · subst here
        rw [AList.lookup_insert, Option.bind_some]
        cases hasLimit with
        | true => simp [lookup_membership_remove, subsumerEntry, subsumerEligible]
        | false =>
          cases complete : stored.constraints.whereAnalysisComplete with
          | true =>
            have single : selfJoined relationOid stored = false := by
              by_contra joined
              cases complete.symm.trans (apart rfl (by simpa using joined))
            have single : selfJoined relationOid { stored with hasLimit := false } = false := single
            simp [lookup_membership_insert, subsumerEntry, subsumerEligible, indexConstraints,
              single, complete]
          | false => simp [hb, subsumerEntry, subsumerEligible, complete]
      · rw [AList.lookup_insert_ne here, ← recomputed.subsumption fp']
        split
        · rw [lookup_membership_remove, if_neg here]
        · split
          · rw [lookup_membership_insert, if_neg here]
          · rfl

end Steps

theorem recomputed_apply_iff {relationOid : Oid} {tableName : String} {qs : UpdateQueries}
    (recomputed : Recomputed relationOid tableName qs) (step : Upkeep) :
    Recomputed relationOid tableName (step.apply relationOid tableName qs) ↔
      Aligned relationOid qs step := by
  cases step with
  | register q => exact recomputed_register recomputed q
  | evict fp => exact iff_of_true (recomputed_evict recomputed fp) trivial
  | limit fp hasLimit => exact recomputed_limit recomputed fp hasLimit

/-- The bookkeeping is recomputed from the queries all along a history, exactly when every step of
it is aligned. -/
theorem bookkeeping_recomputed_iff (relationOid : Oid) (tableName : String)
    (history : List Upkeep) :
    (∀ before, before <+: history →
        Recomputed relationOid tableName (upkept relationOid tableName before)) ↔
      ∀ before step, before ++ [step] <+: history →
        Aligned relationOid (upkept relationOid tableName before) step := by
  have after : ∀ before step, upkept relationOid tableName (before ++ [step]) =
      step.apply relationOid tableName (upkept relationOid tableName before) := by
    intro before step
    rw [upkept, List.foldl_append]
    rfl
  constructor
  · intro recomputed before step inside
    have next := recomputed _ inside
    rw [after] at next
    exact (recomputed_apply_iff
      (recomputed before ((List.prefix_append _ _).trans inside)) step).mp next
  · intro aligned before
    -- from the last step backwards, since a step meets the state its predecessors left
    induction before using List.reverseRecOn with
    | nil =>
      intro _
      exact ⟨accounted_new relationOid, fun fp => rfl⟩
    | append_singleton before step ih =>
      intro inside
      rw [after]
      exact (recomputed_apply_iff (ih ((List.prefix_append _ _).trans inside)) step).mpr
        (aligned before step inside)

def windowed : UpdateQuery where
  fingerprint := 1
  resolved := ⟨.values [], [], none⟩
  source := .fromClause
  constraints := ⟨[], [], ∅, true⟩
  hasLimit := true
  evalStrategy := .localEval
  limitWindowColumns := ["day"]
  orderByKeys := none
  changeDependent := true
  predicateColumns := ["day"]
  isSingleTable := true
  compiledWhere := none

def unlimited : List Upkeep :=
  [.register windowed, .limit 1 false, .evict 1]

/-- The query loses its LIMIT and is evicted: its carve-out and its column count stay. -/
theorem unlimited_query_stays_counted : (upkept 16500 "visits" unlimited).queries.lookup 1 = none ∧
      1 ∈ (upkept 16500 "visits" unlimited).hasLimitFrom ∧
      (upkept 16500 "visits" unlimited).limitPredicateColumns.lookup "day" = some 1 ∧
      ¬ Recomputed 16500 "visits" (upkept 16500 "visits" unlimited) := by
  refine ⟨by decide +kernel, by decide +kernel, by decide +kernel, fun recomputed => ?_⟩
  obtain ⟨query, found, -⟩ := (recomputed.accounted.limits 1).mp (by decide +kernel)
  cases found

end PgCache.Cache.Bookkeeping
