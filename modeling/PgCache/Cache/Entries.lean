/- source: cache/types.rs, cache/query_cache/dispatch.rs, cache/writer/core.rs,
     cache/writer/registration, cache/writer/subsumption.rs, cache/writer/eviction.rs,
     cache/writer/cdc/invalidation.rs
   digest: The writer's cached queries and the state view dispatch reads, with the operations
     that move an entry between its states. -/
import PgCache.Cache.Maintenance
import PgCache.Cache.Mv

set_option autoImplicit false

namespace PgCache.Cache.Entries

open Catalog Data.Keyed Maintenance Decision Mv Option

structure CachedQuery (ρ : Type) where
  generation : Nat
  relationOids : List Oid
  resolved : ρ
  maxLimit : Option Nat
  registrationStartedAt : Option Nat
  invalidated : Bool
  pinned : Bool
  deriving DecidableEq

structure CachedQueryView (ρ : Type) where
  state : CachedQueryState
  generation : Nat
  resolved : Option ρ
  maxLimit : Option Nat
  mv : MvMeta
  deriving DecidableEq

structure QueryServing (ρ : Type) where
  generation : Nat
  resolved : ρ
  maxLimit : Option Nat

structure QueryResolution (ρ : Type) where
  relationOids : List Oid
  resolved : ρ
  maxLimit : Option Nat
  mvLimit : Option Nat
  shapeGate : ShapeGate

structure Registry (ρ : Type) where
  cachedQueries : KeyedMap Fingerprint (CachedQuery ρ)
  stateView : KeyedMap Fingerprint (CachedQueryView ρ)
  generationCounter : Nat
  generations : List Nat

variable {ρ : Type}

def CachedQuery.serving (query : CachedQuery ρ) : QueryServing ρ :=
  ⟨query.generation, query.resolved, query.maxLimit⟩

/-- The population of the entry is over and nothing has invalidated it since: the test of
`subsumption_check` for rows that can be trusted. -/
def CachedQuery.isSettled (query : CachedQuery ρ) : Bool :=
  !query.invalidated && query.registrationStartedAt.isNone

def populationFinalizeAllowed (live : Option (CachedQuery ρ)) (parkedGeneration : Nat) : Bool :=
  live.any fun query => query.generation == parkedGeneration && !query.invalidated

theorem populationFinalizeAllowed_iff {live : Option (CachedQuery ρ)} {parkedGeneration : Nat} :
    populationFinalizeAllowed live parkedGeneration = true ↔
      ∃ q, live = some q ∧ q.generation = parkedGeneration ∧ q.invalidated = false := by
  cases live <;> simp [populationFinalizeAllowed]

namespace Registry

def new : Registry ρ := ⟨∅, ∅, 0, []⟩

variable (r : Registry ρ) (fp : Fingerprint)

def viewModify (change : CachedQueryView ρ → CachedQueryView ρ) : Registry ρ :=
  { r with stateView := adjust fp change r.stateView }

def generationAllocate : Registry ρ :=
  { r with
    generationCounter := r.generationCounter + 1
    generations := r.generations.insert (r.generationCounter + 1) }

def generationPurgeThreshold : Nat :=
  match r.generations.min? with
  | some least => least - 1
  | none => r.generationCounter

def mvStateSet (gate : ShapeGate) (limit : Option Nat) : Registry ρ :=
  r.viewModify fp fun view => { view with mv := .new gate limit }

def mvStateWrite (state : MvState) : Registry ρ :=
  r.viewModify fp fun view => { view with mv := view.mv.stateSet state }

variable (now : Nat)

def mvDirtyMark (fp : Fingerprint) : Registry ρ :=
  r.viewModify fp fun view => { view with mv := view.mv.dirtyApply now }

def mvWasteRecord (fp : Fingerprint) : Registry ρ :=
  r.viewModify fp fun view => { view with mv := view.mv.wasteRecord now }

def stateViewWrite (state : CachedQueryState) (serving : QueryServing ρ) : Registry ρ :=
  let mv := ((r.stateView.lookup fp).map (·.mv)).getD (.new .skip none)
  { r with
    stateView := r.stateView.insert fp
      ⟨state, serving.generation, some serving.resolved, serving.maxLimit, mv⟩ }

def cachedQueryInsert (fp : Fingerprint)
    (pinned : Bool) (resolution : QueryResolution ρ) : Registry ρ :=
  let allocated := r.generationAllocate
  { allocated with
    cachedQueries := r.cachedQueries.insert fp
      ⟨allocated.generationCounter, resolution.relationOids, resolution.resolved,
        resolution.maxLimit, some now, false, pinned⟩ }

/-- `query_readmit`. The generation is allocated before the entry is looked up. -/
def queryReadmit (fp : Fingerprint) : Registry ρ :=
  let allocated := r.generationAllocate
  match r.cachedQueries.lookup fp with
  | none => allocated
  | some cached =>
    let query : CachedQuery ρ :=
      { cached with
        generation := allocated.generationCounter
        invalidated := false
        registrationStartedAt := some now }
    { allocated with
      cachedQueries := r.cachedQueries.insert fp query }.stateViewWrite fp .loading query.serving

def queryReadyMark : Registry ρ :=
  match r.cachedQueries.lookup fp with
  | none => r
  | some cached =>
    { r with
      cachedQueries := r.cachedQueries.insert fp
        { cached with registrationStartedAt := none } }.stateViewWrite
        fp .ready cached.serving

def querySubsume (fp : Fingerprint) (pinned : Bool) (resolution : QueryResolution ρ) : Registry ρ :=
  (r.cachedQueryInsert now fp pinned resolution).queryReadyMark fp

def mvPinnedBootstrap (fp : Fingerprint) : Registry ρ :=
  if (r.cachedQueries.lookup fp).any (·.pinned) then
    r.viewModify fp fun view =>
      match view.mv.state with
      | .pending hasTable =>
        if view.mv.buildPermitted now then
          { view with mv := view.mv.stateSet (.scheduled hasTable) }
        else view
      | _ => view
  else r

def queryReadyFinalize (fp : Fingerprint) : Registry ρ :=
  (r.queryReadyMark fp).mvPinnedBootstrap now fp

def limitBumpHandle (fp : Fingerprint) (newMaxLimit : Option Nat) : Registry ρ :=
  match r.cachedQueries.lookup fp with
  | none => r
  | some cached =>
    let allocated := (r.mvDirtyMark now fp).generationAllocate
    let query : CachedQuery ρ :=
      { cached with
        generation := allocated.generationCounter
        maxLimit := newMaxLimit
        registrationStartedAt := some now }
    { allocated with
      generations := allocated.generations.erase cached.generation
      cachedQueries := r.cachedQueries.insert fp query }.stateViewWrite fp .loading query.serving

def queryInvalidatedMark (fp : Fingerprint) (generation : Nat) : Registry ρ :=
  { r with
    generations := r.generations.erase generation
    cachedQueries := adjust fp (fun query => { query with invalidated := true })
      r.cachedQueries }.viewModify fp fun view =>
        { view with state := .invalidated, mv := view.mv.dirtyApply now }

def cacheQueryEvict (fp : Fingerprint) : Registry ρ :=
  match r.cachedQueries.lookup fp with
  | none => r
  | some query =>
    { r with
      generations := r.generations.erase query.generation
      cachedQueries := r.cachedQueries.erase fp
      stateView := r.stateView.erase fp }

def cacheTableInvalidate (relationOid : Oid) : Registry ρ :=
  (r.cachedQueries.keys.filter fun fp =>
    (r.cachedQueries.lookup fp).any (relationOid ∈ ·.relationOids)).foldl cacheQueryEvict r

inductive CdcInvalidation where
  /-- a `Readmit` command is queued, the entry is left alone -/
  | deferReadmission
  | evict
  | mark (generation : Nat)
  | nothing
  deriving DecidableEq

def cdcInvalidation (policy : CachePolicy) (fp : Fingerprint) : CdcInvalidation :=
  let query := r.cachedQueries.lookup fp
  if query.any (·.pinned) then .deferReadmission
  else if policy = .fifo then .evict
  else
    match query with
    | some query => if query.invalidated then .nothing else .mark query.generation
    | none => .nothing

def cacheQueryCdcInvalidate (now : Nat) (policy : CachePolicy) (fp : Fingerprint) : Registry ρ :=
  match r.cdcInvalidation policy fp with
  | .deferReadmission | .nothing => r
  | .evict => r.cacheQueryEvict fp
  | .mark generation => r.queryInvalidatedMark now fp generation

def queryFailedCleanup (fp : Fingerprint) : Registry ρ :=
  { r with
    generations := ((r.cachedQueries.lookup fp).map fun query =>
      r.generations.erase query.generation).getD r.generations
    cachedQueries := r.cachedQueries.erase fp
    stateView := r.stateView.erase fp }

/-- What becomes of one fingerprint in `stale_entries_cleanup`, when `hitDelta` hits were counted
since the last one. -/
def staleEntryCleanup (hitDelta : Nat) (fp : Fingerprint) : Registry ρ :=
  let threshold := r.generationPurgeThreshold
  let stale := (r.cachedQueries.lookup fp).any fun query =>
    query.invalidated && !query.pinned && query.generation < threshold
  let cachedQueries :=
    if stale then r.cachedQueries.erase fp else r.cachedQueries
  let stateView :=
    match r.stateView.lookup fp with
    | none => r.stateView
    | some view =>
      match view.state with
      | .pending hitCount credit =>
        if hitDelta < credit then
          r.stateView.insert fp { view with state := .pending hitCount (credit - hitDelta) }
        else r.stateView.erase fp
      | .invalidated =>
        if threshold ≤ view.generation then r.stateView
        else r.stateView.erase fp
      | .loading | .ready => r.stateView
  { r with cachedQueries, stateView }

/-- `transition_apply` of a decision, on the entry it was taken from. -/
def transitionApply (fp : Fingerprint) (decision : ServeDecision) : Registry ρ :=
  match decision.transition with
  | none => r
  | some transition =>
    match r.stateView.lookup fp with
    | none =>
      { r with
        stateView := r.stateView.insert fp ⟨transition.new, 0, none, none, .new .skip none⟩ }
    | some _ =>
      r.viewModify fp fun view => { view with state := transition.new }

def decide (fp : Fingerprint) (input : DecisionInput) (budget : Bool) : ServeDecision :=
  serveDecide ((r.stateView.lookup fp).map fun view => ⟨view.state, view.maxLimit⟩) input budget

def mvSchedule (fp : Fingerprint) (hasTable : Bool) : Registry ρ :=
  r.viewModify fp fun view =>
    if view.mv.state = .pending hasTable then
      { view with mv := view.mv.stateSet (.scheduled hasTable) }
    else view

def mvDispatchDecide (now : Nat) (fp : Fingerprint) (rowsNeeded : Option Nat) : Registry ρ :=
  match (r.stateView.lookup fp).map (mvServeDecide ·.mv now rowsNeeded) with
  | some (.needsSchedule hasTable) => r.mvSchedule fp hasTable
  | _ => r

/-- One request in `query_dispatch`: the transition of its decision, or the selection of the
backend of a hit. -/
def queryDispatch (now : Nat) (fp : Fingerprint)
    (input : DecisionInput) (budget : Bool) : Registry ρ :=
  match r.decide fp input budget with
  | .hit => r.mvDispatchDecide now fp input.rowsNeeded
  | decision => r.transitionApply fp decision

inductive RegisterOutcome (ρ : Type) where
  /-- resolution failed -/
  | failed
  | subsumed (pinned : Bool) (resolution : QueryResolution ρ)
  /-- not subsumed, or its rows could not be stamped: a population is started -/
  | admitted (pinned : Bool) (resolution : QueryResolution ρ)
  | checked (resolution : QueryResolution ρ)

/-- `register_command`. -/
def queryRegister (now : Nat) (fp : Fingerprint) : RegisterOutcome ρ → Registry ρ := fun outcome =>
  if (r.cachedQueries.lookup fp).any (·.invalidated) then
    r.queryReadmit now fp
  else
    match outcome with
    | .failed => r.queryFailedCleanup fp
    | .subsumed pinned resolution =>
      (r.mvStateSet fp resolution.shapeGate resolution.mvLimit).querySubsume now
        fp pinned resolution
    | .admitted pinned resolution =>
      (r.mvStateSet fp resolution.shapeGate
        resolution.mvLimit).cachedQueryInsert now fp pinned resolution
    | .checked resolution =>
      r.mvStateSet fp resolution.shapeGate resolution.mvLimit

def OnlyAt (fp : Fingerprint) (r next : Registry ρ) : Prop :=
  ∀ other, other ≠ fp → next.cachedQueries.lookup other = r.cachedQueries.lookup other ∧
      next.stateView.lookup other = r.stateView.lookup other

section OnlyAt

variable {r middle next : Registry ρ} {fp : Fingerprint}

theorem OnlyAt.trans (first : OnlyAt fp r middle)
    (snd : OnlyAt fp middle next) : OnlyAt fp r next := fun o far =>
  ⟨(snd o far).1.trans (first o far).1, (snd o far).2.trans (first o far).2⟩

theorem onlyAt_refl : OnlyAt fp r r := fun _ _ => ⟨rfl, rfl⟩

variable (change : CachedQueryView ρ → CachedQueryView ρ) (state : CachedQueryState) (now : Nat)
  {moved : CachedQueryView ρ}

@[simp] theorem viewModify_cachedQueries :
    (r.viewModify fp change).cachedQueries = r.cachedQueries := rfl

theorem lookup_viewModify : (r.viewModify fp change).stateView.lookup fp =
      (r.stateView.lookup fp).map change := by
  simp [viewModify, lookup_adjust]

theorem onlyAt_viewModify : OnlyAt fp r (r.viewModify fp change) := fun o far =>
  ⟨rfl, by simp [viewModify, lookup_adjust, far]⟩

variable (serving : QueryServing ρ)

@[simp] theorem stateViewWrite_cachedQueries :
    (r.stateViewWrite fp state serving).cachedQueries = r.cachedQueries := rfl

theorem lookup_stateViewWrite : (r.stateViewWrite fp state serving).stateView.lookup fp =
      some ⟨state, serving.generation, some serving.resolved, serving.maxLimit,
        ((r.stateView.lookup fp).map (·.mv)).getD (.new .skip none)⟩ :=
  AList.lookup_insert _

theorem onlyAt_stateViewWrite : OnlyAt fp r (r.stateViewWrite fp state serving) :=
  fun o far => ⟨rfl, by simp [stateViewWrite, far]⟩

theorem onlyAt_insert (q : CachedQuery ρ) (counter : Nat) (generations : List Nat) : OnlyAt fp r
      ⟨r.cachedQueries.insert fp q, r.stateView, counter, generations⟩ :=
  fun o far => ⟨by simp [far], rfl⟩

theorem onlyAt_erase (generations : List Nat) : OnlyAt fp r
      ⟨r.cachedQueries.erase fp, r.stateView.erase fp, r.generationCounter, generations⟩ :=
  fun o far => ⟨by simp [far], by simp [far]⟩

theorem onlyAt_cachedQueryInsert (pinned : Bool) (res : QueryResolution ρ) :
    OnlyAt fp r (r.cachedQueryInsert now fp pinned res) :=
  onlyAt_insert _ _ _

theorem onlyAt_queryReadmit : OnlyAt fp r (r.queryReadmit now fp) := by
  unfold queryReadmit
  split
  · exact fun _ _ => ⟨rfl, rfl⟩
  · exact (onlyAt_insert _ _ _).trans (onlyAt_stateViewWrite _ _)

theorem onlyAt_queryReadyMark : OnlyAt fp r (r.queryReadyMark fp) := by
  unfold queryReadyMark
  split
  · exact onlyAt_refl
  · exact (onlyAt_insert _ _ _).trans (onlyAt_stateViewWrite _ _)

theorem onlyAt_mvPinnedBootstrap : OnlyAt fp r (r.mvPinnedBootstrap now fp) := by
  unfold mvPinnedBootstrap
  split
  · exact onlyAt_viewModify _
  · exact onlyAt_refl

@[simp] theorem mvPinnedBootstrap_cachedQueries :
    (r.mvPinnedBootstrap now fp).cachedQueries = r.cachedQueries := by
  unfold mvPinnedBootstrap
  split <;> rfl

theorem lookup_mvPinnedBootstrap {now : Nat}
    (hf : (r.mvPinnedBootstrap now fp).stateView.lookup fp = some moved) :
    ∃ view, r.stateView.lookup fp = some view ∧ (moved = view ∨
        ∃ hasTable, moved = { view with mv := view.mv.stateSet (.scheduled hasTable) }) := by
  unfold mvPinnedBootstrap at hf
  split at hf
  · rw [lookup_viewModify] at hf
    obtain ⟨view, hb, changed⟩ := map_eq_some_iff.mp hf
    refine ⟨view, hb, ?_⟩
    split at changed
    · split at changed
      · exact .inr ⟨_, changed.symm⟩
      · exact .inl changed.symm
    · exact .inl changed.symm
  · exact ⟨moved, hf, .inl rfl⟩

theorem onlyAt_limitBumpHandle (newMaxLimit : Option Nat) :
    OnlyAt fp r (r.limitBumpHandle now fp newMaxLimit) := by
  unfold limitBumpHandle
  split
  · exact onlyAt_refl
  · refine (onlyAt_viewModify _).trans ((onlyAt_insert _ _ _).trans (onlyAt_stateViewWrite _ _))

theorem onlyAt_cacheQueryEvict : OnlyAt fp r (r.cacheQueryEvict fp) := by
  unfold cacheQueryEvict
  split
  · exact onlyAt_refl
  · exact onlyAt_erase _

theorem onlyAt_queryInvalidatedMark (generation : Nat) :
    OnlyAt fp r (r.queryInvalidatedMark now fp generation) := by
  intro o far
  simp [queryInvalidatedMark, viewModify, lookup_adjust, far]

theorem onlyAt_cacheQueryCdcInvalidate (policy : CachePolicy) :
    OnlyAt fp r (r.cacheQueryCdcInvalidate now policy fp) := by
  unfold cacheQueryCdcInvalidate
  split
  · exact onlyAt_refl
  · exact onlyAt_refl
  · exact onlyAt_cacheQueryEvict
  · exact onlyAt_queryInvalidatedMark _ _

theorem onlyAt_queryFailedCleanup : OnlyAt fp r (r.queryFailedCleanup fp) :=
  onlyAt_erase _

theorem onlyAt_staleEntryCleanup (hitDelta : Nat) :
    OnlyAt fp r (r.staleEntryCleanup hitDelta fp) := by
  intro o far
  constructor
  · simp only [staleEntryCleanup]
    split
    · simp [far]
    · rfl
  · simp only [staleEntryCleanup]
    split
    · rfl
    · split <;> (try split) <;> simp [far]

theorem onlyAt_queryDispatch (input : DecisionInput) (budget : Bool) :
    OnlyAt fp r (r.queryDispatch now fp input budget) := by
  unfold queryDispatch
  split
  · unfold mvDispatchDecide
    split
    · exact onlyAt_viewModify _
    · exact onlyAt_refl
  · unfold transitionApply
    split
    · exact onlyAt_refl
    · split
      · exact fun o far => ⟨rfl, by simp [far]⟩
      · exact onlyAt_viewModify _

theorem queryReadmit_spec {old : CachedQuery ρ} (hc : r.cachedQueries.lookup fp = some old) :
    (r.queryReadmit now fp).cachedQueries.lookup fp = some { old with
          generation := r.generationCounter + 1
          invalidated := false
          registrationStartedAt := some now } ∧
      (r.queryReadmit now fp).generationCounter = r.generationCounter + 1 ∧
      ∀ view, (r.queryReadmit now fp).stateView.lookup fp = some view → view.state = .loading := by
  unfold queryReadmit
  rw [hc]
  refine ⟨AList.lookup_insert _, rfl, fun view hf => ?_⟩
  rw [lookup_stateViewWrite, some_inj] at hf
  rw [← hf]

theorem limitBumpHandle_spec (newMaxLimit : Option Nat) {old : CachedQuery ρ}
    (hc : r.cachedQueries.lookup fp = some old) :
    (r.limitBumpHandle now fp newMaxLimit).cachedQueries.lookup fp = some { old with
          generation := r.generationCounter + 1
          maxLimit := newMaxLimit
          registrationStartedAt := some now } ∧
      (r.limitBumpHandle now fp newMaxLimit).generationCounter = r.generationCounter + 1 ∧
      ∀ view, (r.limitBumpHandle now fp newMaxLimit).stateView.lookup fp =
        some view → view.state = .loading := by
  rw [limitBumpHandle, hc]
  refine ⟨AList.lookup_insert _, rfl, fun view hf => ?_⟩
  rw [lookup_stateViewWrite, some_inj] at hf
  rw [← hf]

theorem queryReadyFinalize_spec {q : CachedQuery ρ} (hc : r.cachedQueries.lookup fp = some q) :
    (r.queryReadyFinalize now fp).cachedQueries.lookup fp =
        some { q with registrationStartedAt := none } ∧
      (r.queryReadyFinalize now fp).generationCounter = r.generationCounter ∧
      ∀ view, (r.queryReadyFinalize now fp).stateView.lookup fp =
        some view → view.generation = q.generation := by
  have marked : r.queryReadyMark fp = { r with
      cachedQueries := r.cachedQueries.insert fp
        { q with registrationStartedAt := none } }.stateViewWrite fp .ready q.serving := by
    rw [queryReadyMark, hc]
  refine ⟨?_, ?_, fun view hf => ?_⟩
  · rw [queryReadyFinalize, mvPinnedBootstrap_cachedQueries, marked]
    exact AList.lookup_insert _
  · rw [queryReadyFinalize, mvPinnedBootstrap]
    split <;> simp [marked, viewModify, stateViewWrite]
  · obtain ⟨old, hb, rfl | ⟨hasTable, rfl⟩⟩ := lookup_mvPinnedBootstrap hf
    all_goals
      rw [marked, lookup_stateViewWrite, some_inj] at hb
      rw [← hb]
      rfl

theorem onlyAt_queryReadyFinalize :
    OnlyAt fp r (r.queryReadyFinalize now fp) :=
  onlyAt_queryReadyMark.trans (onlyAt_mvPinnedBootstrap now)

@[simp] theorem queryDispatch_keeps (input : DecisionInput) (budget : Bool) :
    (r.queryDispatch now fp input budget).cachedQueries =
      r.cachedQueries ∧
    (r.queryDispatch now fp input budget).generationCounter = r.generationCounter := by
  unfold queryDispatch mvDispatchDecide transitionApply
  split
  · split <;> exact ⟨rfl, rfl⟩
  · split
    · exact ⟨rfl, rfl⟩
    · split <;> exact ⟨rfl, rfl⟩

theorem lookup_queryDispatch {now : Nat} {input : DecisionInput} {budget : Bool}
    (hf : (r.queryDispatch now fp input budget).stateView.lookup fp = some moved) :
    moved.state ≠ .ready ∧ moved.mv = .new .skip none ∨
      ∃ view, r.stateView.lookup fp = some view ∧ (moved = view ∨
          (∃ hasTable, moved = { view with mv := view.mv.stateSet (.scheduled hasTable) }) ∨
          ∃ state, state ≠ .ready ∧ moved = { view with state }) := by
  unfold queryDispatch at hf
  split at hf
  · unfold mvDispatchDecide at hf
    split at hf
    · rename_i hasTable asked
      rw [mvSchedule, lookup_viewModify] at hf
      obtain ⟨view, hb, changed⟩ := map_eq_some_iff.mp hf
      refine .inr ⟨view, hb, ?_⟩
      split at changed
      · exact .inr (.inl ⟨hasTable, changed.symm⟩)
      · exact .inl changed.symm
    · exact .inr ⟨moved, hf, .inl rfl⟩
  · unfold transitionApply at hf
    split at hf
    · exact .inr ⟨moved, hf, .inl rfl⟩
    · rename_i transition moves
      have unready := transition_new_ne_ready moves
      split at hf
      · rw [AList.lookup_insert, some_inj] at hf
        exact .inl ⟨hf ▸ unready, hf ▸ rfl⟩
      · rename_i view hb
        rw [lookup_viewModify, hb, map_some, some_inj] at hf
        exact .inr ⟨view, hb, .inr (.inr ⟨transition.new, unready, hf.symm⟩)⟩

theorem lookup_staleEntryCleanup {hitDelta : Nat}
    (hf : (r.staleEntryCleanup hitDelta fp).stateView.lookup fp = some moved) :
    ∃ view, r.stateView.lookup fp = some view ∧
      (moved = view ∨ ∃ state, state ≠ .ready ∧ moved = { view with state }) := by
  simp only [staleEntryCleanup] at hf
  split at hf
  · exact ⟨moved, hf, .inl rfl⟩
  · rename_i view hb
    split at hf
    · split at hf
      · rw [AList.lookup_insert, some_inj] at hf
        exact ⟨view, hb, .inr ⟨_, by simp, hf.symm⟩⟩
      · simp at hf
    · split at hf
      · exact ⟨moved, hf, .inl rfl⟩
      · simp at hf
    · exact ⟨moved, hf, .inl rfl⟩
    · exact ⟨moved, hf, .inl rfl⟩

theorem staleEntryCleanup_cached (hitDelta : Nat) :
    (r.staleEntryCleanup hitDelta fp).cachedQueries.lookup fp = r.cachedQueries.lookup fp ∨
      (r.staleEntryCleanup hitDelta fp).cachedQueries.lookup fp = none ∧
        ∀ q, r.cachedQueries.lookup fp = some q → q.invalidated = true := by
  simp only [staleEntryCleanup]
  split
  · rename_i stale
    refine .inr ⟨AList.lookup_erase _ _, fun q hf => ?_⟩
    simp only [hf, any_some, Bool.and_eq_true] at stale
    exact stale.1.1
  · exact .inl rfl

theorem onlyAt_queryRegister (out : RegisterOutcome ρ) :
    OnlyAt fp r (r.queryRegister now fp out) := by
  unfold queryRegister
  split
  · exact onlyAt_queryReadmit now
  · cases out with
    | failed => exact onlyAt_queryFailedCleanup
    | subsumed pinned res =>
      exact (onlyAt_viewModify _).trans
        ((onlyAt_cachedQueryInsert now pinned res).trans onlyAt_queryReadyMark)
    | admitted pinned res =>
      exact (onlyAt_viewModify _).trans (onlyAt_cachedQueryInsert now pinned res)
    | checked res => exact onlyAt_viewModify _

end OnlyAt

end Registry

end PgCache.Cache.Entries
