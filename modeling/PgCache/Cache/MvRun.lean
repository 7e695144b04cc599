/- source: cache/writer/mv.rs, cache/writer/mv_build.rs, cache/writer/cdc/frame.rs,
     cache/writer/registration/lifecycle.rs
   digest: Builds of materialized results interleaved with frame replay, commits and the life of
     the entries, and when a `Fresh` table is the query's result. -/
import PgCache.Cache.Entries
import PgCache.Data.Machine

set_option autoImplicit false

namespace PgCache.Cache.MvRun

open Data.Keyed Data.Machine Maintenance Decision Mv Entries Registry Option

variable {ρ D R : Type}

structure MvQueries (ρ D R : Type) where
  result : Fingerprint → Option Nat → D → R
  empty : R
  servePlan : Fingerprint → ρ → List String → Option MvServePlan

inductive MvBuildOutcome where
  | built (outputColumns : List String) (wasFirstBuild : Bool)
  | ineligible
  | failed (hasTable : Bool)
  deriving DecidableEq

structure MvBuild (R : Type) where
  hasTable : Bool
  maxLimit : Option Nat
  rows : Option R
  outcome : Option MvBuildOutcome
  deriving DecidableEq

/-- The writer's entries, the builds in flight, the MV tables, the committed rows and the row
changes the open frame has replayed and not committed. -/
structure MvSystem (ρ D R : Type) where
  registry : Registry ρ
  mvBuildsInflight : KeyedMap Fingerprint (MvBuild R)
  tables : Fingerprint → Option R
  db : D
  frame : List (D → D)
  now : Nat

namespace MvSystem

def new (db : D) : MvSystem ρ D R := ⟨.new, ∅, fun _ => none, db, [], 0⟩

variable (s : MvSystem ρ D R)

def pending : D := s.frame.foldl (fun db change => change db) s.db

variable (fp : Fingerprint)

def withTable (table : Option R) : MvSystem ρ D R :=
  { s with tables := Function.update s.tables fp table }

def mvTableDrop : MvSystem ρ D R :=
  s.withTable fp none

def mvStateWrite (state : MvState) : MvSystem ρ D R :=
  { s with registry := s.registry.mvStateWrite fp state }

def mvWasteRecord : MvSystem ρ D R :=
  { s with registry := s.registry.mvWasteRecord s.now fp }

def mvContextSnapshot : Option (MvBuild R) :=
  (s.registry.stateView.lookup fp).bind fun view =>
    match view.mv.state with
    | .scheduled hasTable =>
      if view.state = .ready ∧ view.resolved.isSome then
        some ⟨hasTable, view.mv.limit, none, none⟩
      else none
    | _ => none

def mvBuildDispatch : MvSystem ρ D R :=
  match s.mvBuildsInflight.lookup fp with
  | some _ => s
  | none =>
    match s.mvContextSnapshot fp with
    | none => s
    | some build =>
      { s.mvStateWrite fp (.building build.hasTable) with
        mvBuildsInflight := s.mvBuildsInflight.insert fp build }

/-- `Fresh`, with the serve plan and the stamp of the flip. -/
def freshInstall (plan : MvServePlan) : MvSystem ρ D R :=
  { s with
    registry := s.registry.viewModify fp fun view =>
      { view with
        mv := ({ view.mv with servePlan := some plan }.freshMark s.now).stateSet .fresh } }

variable (qs : MvQueries ρ D R)

def mvBuildOutcomeApply (s : MvSystem ρ D R)
    (fp : Fingerprint) (view : CachedQueryView ρ) : MvBuildOutcome → MvSystem ρ D R
  | .built outputColumns wasFirstBuild =>
    if wasFirstBuild ∧ view.state ≠ .ready then
      (s.mvTableDrop fp).mvStateWrite fp (.pending false)
    else
      match view.mv.state with
      | .building _ =>
        match view.resolved.bind (qs.servePlan fp · outputColumns) with
        | none => (s.mvTableDrop fp).mvStateWrite fp .ineligible
        | some plan => s.freshInstall fp plan
      | _ => (s.mvWasteRecord fp).mvStateWrite fp (.pending true)
  | .ineligible => s.mvStateWrite fp .ineligible
  | .failed hasTable =>
    (s.mvWasteRecord fp).mvStateWrite fp (.pending hasTable)

def tableRemains : MvBuildOutcome → Bool
  | .built .. | .failed true => true
  | .ineligible | .failed false => false

def mvBuildComplete (s : MvSystem ρ D R)
    (fp : Fingerprint) (outcome : MvBuildOutcome) : MvSystem ρ D R :=
  let finished : MvSystem ρ D R :=
    { s with mvBuildsInflight := s.mvBuildsInflight.erase fp }
  let discarded :=
    if tableRemains outcome then finished.mvTableDrop fp else finished
  match finished.registry.stateView.lookup fp with
  | none => discarded
  | some view =>
    match view.mv.state with
    | .building _ | .buildingDirty _ => finished.mvBuildOutcomeApply qs fp view outcome
    | .scheduled _ => discarded.mvBuildDispatch fp
    | .skipped | .ineligible | .pending _ | .fresh => discarded

/-- `mv_drop` for the state the entry has, as `cache_query_evict` calls it. -/
def mvDrop : MvSystem ρ D R :=
  match s.registry.stateView.lookup fp with
  | none => s
  | some view =>
    match view.mv.state with
    | .building _ | .buildingDirty _ => s
    | state => if state.hasTable then s.mvTableDrop fp else s

def cacheQueryEvict : MvSystem ρ D R :=
  match s.registry.cachedQueries.lookup fp with
  | none => s
  | some _ =>
    { s.mvDrop fp with
      registry := s.registry.cacheQueryEvict fp }

def mvDirtySweep (s : MvSystem ρ D R) : MvSystem ρ D R :=
  { s with
    tables := fun fp =>
      if (s.registry.stateView.lookup fp).any (·.mv.state = .pending true) then
        (s.tables fp).map fun _ => qs.empty
      else s.tables fp }

end MvSystem

inductive MvEvent (ρ D : Type) where
  /-- a request in `query_dispatch` -/
  | dispatch (fp : Fingerprint) (input : DecisionInput) (budget : Bool)
  | register (fp : Fingerprint) (outcome : Registry.RegisterOutcome ρ)
  /-- the merge of a population is done -/
  | ready (fp : Fingerprint) (generation : Nat)
  | limitBump (fp : Fingerprint) (newMaxLimit : Option Nat)
  /-- the queued `Readmit` of a pinned query -/
  | readmission (fp : Fingerprint)
  /-- one fingerprint of `frame_invalidations_flush` -/
  | invalidate (policy : CachePolicy) (fp : Fingerprint)
  | evict (fp : Fingerprint)
  | fail (fp : Fingerprint)
  | expire (hitDelta : Nat) (fp : Fingerprint)
  /-- `QueryCommand::MvBuild` -/
  | build (fp : Fingerprint)
  /-- the build takes its snapshot -/
  | buildRead (fp : Fingerprint)
  | buildEnd (fp : Fingerprint) (outcome : MvBuildOutcome)
  /-- `QueryCommand::MvBuildComplete` -/
  | complete (fp : Fingerprint)
  | sweep
  /-- a row event is replayed, mid-frame or at the flush, and marks the results it may change -/
  | row (change : D → D) (dirtied : List Fingerprint)
  /-- `40P01` -/
  | rollback
  | commit
  /-- a committed change outside a frame: a merge chunk, a purge, a recovery truncate -/
  | rows (change : D → D)
  | tick

open MvSystem in
def buildEnd (s : MvSystem ρ D R) (fp : Fingerprint) (build : MvBuild R) :
    MvBuildOutcome → Option (MvSystem ρ D R)
  | .built _ wasFirstBuild =>
    if wasFirstBuild = !build.hasTable ∧ (s.tables fp).isSome = build.hasTable then
      build.rows.map fun rows => s.withTable fp (some rows)
    else none
  | .ineligible => if build.hasTable then none else some s
  | .failed hasTable =>
    if hasTable ≠ build.hasTable then none
    else if hasTable then some s
    else some (s.mvTableDrop fp)

open MvSystem in
def step (qs : MvQueries ρ D R) (s : MvSystem ρ D R) : MvEvent ρ D → Option (MvSystem ρ D R)
  | .dispatch fp input budget =>
    some { s with
      registry := s.registry.queryDispatch s.now fp input budget }
  | .register fp outcome =>
    some { s with registry := s.registry.queryRegister s.now fp outcome }
  | .ready fp generation =>
    if populationFinalizeAllowed (s.registry.cachedQueries.lookup fp) generation then
      some { s with
        registry := s.registry.queryReadyFinalize s.now fp }
    else none
  | .limitBump fp newMaxLimit =>
    some { s with
      registry := s.registry.limitBumpHandle s.now fp newMaxLimit }
  | .readmission fp =>
    some { s with registry := s.registry.queryReadmit s.now fp }
  | .invalidate policy fp =>
    match s.registry.cdcInvalidation policy fp with
    | .evict => some (s.cacheQueryEvict fp)
    | _ => some { s with
        registry := s.registry.cacheQueryCdcInvalidate s.now policy fp }
  | .evict fp => some (s.cacheQueryEvict fp)
  | .fail fp =>
    some { s with registry := s.registry.queryFailedCleanup fp }
  | .expire hitDelta fp =>
    some { s with registry := s.registry.staleEntryCleanup hitDelta fp }
  | .build fp => some (s.mvBuildDispatch fp)
  | .buildRead fp =>
    (s.mvBuildsInflight.lookup fp).bind fun build =>
      if build.rows.isNone ∧ build.outcome.isNone then
        some { s with
          mvBuildsInflight := s.mvBuildsInflight.insert fp
            { build with rows := some (qs.result fp build.maxLimit s.db) } }
      else none
  | .buildEnd fp outcome =>
    (s.mvBuildsInflight.lookup fp).bind fun build =>
      if build.outcome.isNone then
        (buildEnd s fp build outcome).map fun next =>
          { next with
            mvBuildsInflight := s.mvBuildsInflight.insert fp
              { build with outcome := some outcome } }
      else none
  | .complete fp =>
    ((s.mvBuildsInflight.lookup fp).bind (·.outcome)).map fun outcome =>
      s.mvBuildComplete qs fp outcome
  | .sweep => some (s.mvDirtySweep qs)
  | .row change dirtied =>
    some { s with
      frame := s.frame ++ [change]
      registry := dirtied.foldl (fun registry fp =>
        registry.mvDirtyMark s.now fp) s.registry }
  | .rollback => some { s with frame := [] }
  | .commit => some { s with db := s.pending, frame := [] }
  | .rows change =>
    if s.frame.isEmpty then some { s with db := change s.db } else none
  | .tick => some { s with now := s.now + 1 }

def Settled (s : MvSystem ρ D R) (fp : Fingerprint) : Prop :=
  ∃ query, s.registry.cachedQueries.lookup fp = some query ∧ query.isSettled = true

variable (qs : MvQueries ρ D R)

/-- Nothing the open frame has replayed changes the result of the build that would start. -/
def NoPendingChange (s : MvSystem ρ D R) (fp : Fingerprint) : Prop :=
  ∀ view hasTable, s.registry.stateView.lookup fp = some view →
    view.mv.state = .scheduled hasTable →
    qs.result fp view.mv.limit s.pending = qs.result fp view.mv.limit s.db

/-- A row event marks every result it changes, and a committed change outside a frame leaves
settled queries alone. -/
def Marked (s : MvSystem ρ D R) : MvEvent ρ D → Prop
  | .row change dirtied =>
    ∀ fp limit, qs.result fp limit (change s.pending) ≠ qs.result fp limit s.pending → fp ∈ dirtied
  | .rows change =>
    ∀ fp limit, Settled s fp → qs.result fp limit (change s.db) = qs.result fp limit s.db
  | _ => True

/-- The schedules on which `Fresh` can be trusted. -/
def Calm (s : MvSystem ρ D R) : MvEvent ρ D → Prop
  | .build fp | .complete fp => NoPendingChange qs s fp
  | .register fp (.admitted ..) =>
    ∀ view, s.registry.stateView.lookup fp = some view → view.state ≠ .ready
  | .readmission fp =>
    ∀ view, s.registry.stateView.lookup fp = some view → Settled s fp → view.mv.state.dirtied = none
  | event => Marked qs s event

section Invariant

structure EntryOk (qs : MvQueries ρ D R) (s : MvSystem ρ D R)
    (fp : Fingerprint) (view : CachedQueryView ρ) : Prop where
  ready : view.state = .ready → Settled s fp
  dirtiable : view.mv.state.dirtied ≠ none → Settled s fp ∧ qs.result fp view.mv.limit s.pending =
      qs.result fp view.mv.limit s.db
  building : ∀ hasTable, view.mv.state = .building hasTable →
    ∃ build, s.mvBuildsInflight.lookup fp = some build ∧ build.maxLimit = view.mv.limit ∧
      (∀ rows, build.rows = some rows → rows = qs.result fp view.mv.limit s.db) ∧
      ∀ columns first, build.outcome = some (.built columns first) →
        s.tables fp = some (qs.result fp view.mv.limit s.db)
  fresh : view.mv.state = .fresh → s.mvBuildsInflight.lookup fp = none ∧
    s.tables fp = some (qs.result fp view.mv.limit s.db)

def Inv (qs : MvQueries ρ D R) (s : MvSystem ρ D R) : Prop :=
  ∀ fp view, s.registry.stateView.lookup fp = some view → EntryOk qs s fp view

variable {qs : MvQueries ρ D R} {s next : MvSystem ρ D R} {fp : Fingerprint}
  {view : CachedQueryView ρ} {registry : Registry ρ}

theorem inv_new (db : D) : Inv qs (MvSystem.new db : MvSystem ρ D R) := by
  intro fp view hf
  simp [MvSystem.new, new] at hf

theorem EntryOk.idle (ready : view.state = .ready → Settled s fp)
    (quiet : view.mv.state.dirtied = none) : EntryOk qs s fp view where
  ready := ready
  dirtiable dirtiable := absurd quiet dirtiable
  building hasTable same := by simp [same, MvState.dirtied] at quiet
  fresh same := by simp [same, MvState.dirtied] at quiet

structure Apart (fp : Fingerprint) (s next : MvSystem ρ D R) : Prop where
  registry : Registry.OnlyAt fp s.registry next.registry
  builds : ∀ other, other ≠ fp →
    next.mvBuildsInflight.lookup other = s.mvBuildsInflight.lookup other
  tables : ∀ other, other ≠ fp → next.tables other = s.tables other
  db : next.db = s.db
  frame : next.frame = s.frame

theorem Apart.trans {middle : MvSystem ρ D R} (first : Apart fp s middle)
    (snd : Apart fp middle next) : Apart fp s next where
  registry := first.registry.trans snd.registry
  builds other far := (snd.builds other far).trans (first.builds other far)
  tables other far := (snd.tables other far).trans (first.tables other far)
  db := snd.db.trans first.db
  frame := snd.frame.trans first.frame

theorem Apart.ofRegistry (only : Registry.OnlyAt fp s.registry registry) :
    Apart fp s { s with registry } :=
  ⟨only, fun _ _ => rfl, fun _ _ => rfl, rfl, rfl⟩

theorem apart_withTable (table : Option R) : Apart fp s (s.withTable fp table) :=
  ⟨onlyAt_refl, fun _ _ => rfl, fun _ far => Function.update_of_ne far _ _, rfl, rfl⟩

theorem Settled.of_lookup (settled : Settled s fp) (same : next.registry.cachedQueries.lookup fp =
      s.registry.cachedQueries.lookup fp) : Settled next fp := by
  obtain ⟨q, hf, trusted⟩ := settled
  exact ⟨q, same.trans hf, trusted⟩

theorem Inv.at (inv : Inv qs s) (apart : Apart fp s next)
    (here : ∀ view, next.registry.stateView.lookup fp = some view →
      EntryOk qs next fp view) : Inv qs next := by
  intro o view hf
  by_cases he : o = fp
  · rw [he] at hf ⊢
    exact here view hf
  · obtain ⟨hc, viewed⟩ := apart.registry o he
    have ok := inv o view (viewed ▸ hf)
    have pending : next.pending = s.pending := by
      simp only [MvSystem.pending, apart.frame, apart.db]
    refine ⟨fun ready => (ok.ready ready).of_lookup hc, fun dirtiable => ?_, ?_, ?_⟩
    · rw [pending, apart.db]
      exact ⟨(ok.dirtiable dirtiable).1.of_lookup hc, (ok.dirtiable dirtiable).2⟩
    · rw [apart.builds o he, apart.tables o he, apart.db]
      exact ok.building
    · rw [apart.builds o he, apart.tables o he, apart.db]
      exact ok.fresh

theorem Inv.withRegistry (inv : Inv qs s) (only : Registry.OnlyAt fp s.registry registry)
    (here : ∀ view, registry.stateView.lookup fp = some view →
      EntryOk qs { s with registry } fp view) :
    Inv qs { s with registry } :=
  inv.at (.ofRegistry only) here

theorem EntryOk.moved {moved : CachedQueryView ρ} (ok : EntryOk qs s fp view)
    (mv : moved.mv = view.mv)
    (ready : moved.state = .ready → Settled { s with registry } fp)
    (settled : view.mv.state.dirtied ≠ none → Settled { s with registry } fp) :
    EntryOk qs { s with registry } fp moved where
  ready := ready
  dirtiable dirtiable := by
    rw [mv] at dirtiable ⊢
    exact ⟨settled dirtiable, (ok.dirtiable dirtiable).2⟩
  building := by
    rw [mv]
    exact ok.building
  fresh := by
    rw [mv]
    exact ok.fresh

theorem EntryOk.kept {moved : CachedQueryView ρ}
    (ok : EntryOk qs s fp view) (mv : moved.mv = view.mv)
    (ready : moved.state = .ready → view.state = .ready)
    (cached : registry.cachedQueries.lookup fp = s.registry.cachedQueries.lookup fp) :
    EntryOk qs { s with registry } fp moved :=
  ok.moved mv (fun there => (ok.ready (ready there)).of_lookup cached)
    fun dirtiable => (ok.dirtiable dirtiable).1.of_lookup cached

variable (inv : Inv qs s)
include inv

theorem Inv.dispatch (input : DecisionInput) (budget : Bool) : Inv qs { s with
      registry := s.registry.queryDispatch s.now fp input budget } := by
  refine inv.withRegistry (onlyAt_queryDispatch _ _ _) fun moved hf => ?_
  obtain ⟨unready, fresh⟩ | ⟨view, before, rfl | ⟨hasTable, rfl⟩ | ⟨state, unready, rfl⟩⟩ :=
    lookup_queryDispatch hf
  · exact .idle (fun ready => absurd ready unready) (fresh ▸ MvMeta.new_not_dirtiable _ _)
  · exact (inv fp moved before).kept rfl id (by simp)
  · exact .idle (fun ready => ((inv fp view before).ready ready).of_lookup (by simp)) rfl
  · exact (inv fp view before).kept rfl (fun ready => absurd ready unready) (by simp)

theorem Inv.queryReadmit (quiet : ∀ view, s.registry.stateView.lookup fp = some view →
      Settled s fp → view.mv.state.dirtied = none) :
    Inv qs { s with
      registry := s.registry.queryReadmit s.now fp } := by
  refine inv.withRegistry (Registry.onlyAt_queryReadmit _) fun moved hf => ?_
  unfold Registry.queryReadmit at hf ⊢
  split at hf
  · exact (inv fp moved hf).kept rfl id rfl
  · rw [Registry.lookup_stateViewWrite, some_inj] at hf
    rw [← hf]
    refine .idle (fun ready => by simp at ready) ?_
    cases hb : s.registry.stateView.lookup fp with
    | none => simp [Registry.generationAllocate, hb, MvMeta.new_not_dirtiable]
    | some view =>
      have kept : view.mv.state.dirtied = none := by
        by_contra dirtiable
        have trusted := ((inv fp view hb).dirtiable dirtiable).1
        exact dirtiable (quiet view hb trusted)
      simpa [Registry.generationAllocate, hb] using kept

theorem Inv.queryRegister (outcome : Registry.RegisterOutcome ρ)
    (calm : Calm qs s (.register fp outcome)) :
    Inv qs { s with
      registry := s.registry.queryRegister s.now fp outcome } := by
  by_cases stale : (s.registry.cachedQueries.lookup fp).any (·.invalidated) = true
  · have same : s.registry.queryRegister s.now fp outcome =
        s.registry.queryReadmit s.now fp := if_pos stale
    rw [same]
    refine inv.queryReadmit fun view hf settled => ?_
    obtain ⟨q, hc, trusted⟩ := settled
    simp [hc] at stale
    simp [CachedQuery.isSettled, stale] at trusted
  · refine inv.withRegistry (Registry.onlyAt_queryRegister _ _) fun moved hf => ?_
    unfold Registry.queryRegister at hf ⊢
    rw [if_neg stale] at hf ⊢
    cases outcome with
    | failed => simp [Registry.queryFailedCleanup] at hf
    | subsumed pinned res =>
      simp only [Registry.querySubsume, Registry.queryReadyMark, Registry.cachedQueryInsert,
        AList.lookup_insert, Registry.lookup_stateViewWrite, some_inj] at hf ⊢
      rw [← hf]
      refine .idle (fun _ => ⟨_, AList.lookup_insert _, rfl⟩) ?_
      simp only [Registry.generationAllocate, Registry.mvStateSet, Registry.lookup_viewModify]
      cases s.registry.stateView.lookup fp <;> simp [MvMeta.new_not_dirtiable]
    | admitted pinned res =>
      obtain ⟨view, hb, rfl⟩ := map_eq_some_iff.mp ((Registry.lookup_viewModify _).symm.trans hf)
      exact .idle (fun ready => absurd ready (calm view hb)) (MvMeta.new_not_dirtiable _ _)
    | checked res =>
      obtain ⟨view, hb, rfl⟩ := map_eq_some_iff.mp ((Registry.lookup_viewModify _).symm.trans hf)
      exact .idle (fun ready => ((inv fp view hb).ready ready).of_lookup rfl)
        (MvMeta.new_not_dirtiable _ _)

theorem Inv.queryReadyMark {q : CachedQuery ρ} (hc : s.registry.cachedQueries.lookup fp = some q)
    (hv : q.invalidated = false) :
    Inv qs { s with registry := s.registry.queryReadyMark fp } := by
  have trusted : Settled { s with
      registry := s.registry.queryReadyMark fp } fp := by
    refine ⟨{ q with registrationStartedAt := none }, ?_, by simp [CachedQuery.isSettled, hv]⟩
    simp [Registry.queryReadyMark, hc]
  refine inv.withRegistry Registry.onlyAt_queryReadyMark fun moved hf => ?_
  simp only [Registry.queryReadyMark, hc, Registry.lookup_stateViewWrite, some_inj] at hf
  rw [← hf]
  cases hb : s.registry.stateView.lookup fp with
  | none => exact .idle (fun _ => trusted) (by simp [MvMeta.new_not_dirtiable])
  | some view => exact (inv fp view hb).moved rfl (fun _ => trusted) fun _ => trusted

theorem Inv.mvPinnedBootstrap : Inv qs { s with
      registry := s.registry.mvPinnedBootstrap s.now fp } := by
  refine inv.withRegistry (onlyAt_mvPinnedBootstrap _) fun moved hf => ?_
  obtain ⟨view, before, rfl | ⟨hasTable, rfl⟩⟩ := lookup_mvPinnedBootstrap hf
  · exact (inv fp moved before).kept rfl id (by simp)
  · exact .idle (fun ready => ((inv fp view before).ready ready).of_lookup (by simp)) rfl

theorem Inv.limitBump (newMaxLimit : Option Nat) : Inv qs { s with
      registry := s.registry.limitBumpHandle s.now fp newMaxLimit } := by
  refine inv.withRegistry (onlyAt_limitBumpHandle _ _) fun moved hf => ?_
  unfold limitBumpHandle at hf ⊢
  split at hf
  · exact inv fp moved hf
  · rw [lookup_stateViewWrite, some_inj] at hf
    rw [← hf]
    refine .idle (fun ready => by simp at ready) ?_
    simp only [generationAllocate, mvDirtyMark, lookup_viewModify]
    cases s.registry.stateView.lookup fp <;> simp only [map_none, map_some, getD_none, getD_some,
        MvMeta.new_not_dirtiable, MvMeta.dirtyApply_not_dirtiable]

theorem Inv.cacheQueryEvict : Inv qs (s.cacheQueryEvict fp) := by
  unfold MvSystem.cacheQueryEvict
  split
  · exact inv
  · rename_i q hc
    have apart : Apart fp s (s.mvDrop fp) := by
      unfold MvSystem.mvDrop
      split
      · exact .ofRegistry Registry.onlyAt_refl
      · split
        · exact .ofRegistry Registry.onlyAt_refl
        · exact .ofRegistry Registry.onlyAt_refl
        · split
          · exact apart_withTable none
          · exact .ofRegistry Registry.onlyAt_refl
    refine inv.at ⟨Registry.onlyAt_cacheQueryEvict, apart.builds, apart.tables, apart.db,
      apart.frame⟩ fun moved hf => ?_
    simp [Registry.cacheQueryEvict, hc] at hf

theorem Inv.invalidate (policy : CachePolicy)
    (stays : s.registry.cdcInvalidation policy fp ≠ .evict) :
    Inv qs { s with
      registry := s.registry.cacheQueryCdcInvalidate s.now policy fp } := by
  refine inv.withRegistry (onlyAt_cacheQueryCdcInvalidate _ _) fun moved hf => ?_
  unfold cacheQueryCdcInvalidate at hf ⊢
  split at hf
  · exact inv fp moved hf
  · exact inv fp moved hf
  · rename_i evicts
    exact absurd evicts stays
  · rw [queryInvalidatedMark, lookup_viewModify] at hf
    obtain ⟨view, hb, rfl⟩ := map_eq_some_iff.mp hf
    exact .idle (fun ready => by simp at ready) (MvMeta.dirtyApply_not_dirtiable _ _)

theorem Inv.expire (hitDelta : Nat) : Inv qs { s with
      registry := s.registry.staleEntryCleanup hitDelta fp } := by
  refine inv.withRegistry (onlyAt_staleEntryCleanup _) fun moved hf => ?_
  have trusted : Settled s fp → Settled { s with
      registry := s.registry.staleEntryCleanup hitDelta fp } fp := by
    rintro ⟨q, hc, trusted⟩
    obtain same | ⟨-, stale⟩ := staleEntryCleanup_cached hitDelta
    · exact ⟨q, same.trans hc, trusted⟩
    · simp [CachedQuery.isSettled, stale q hc] at trusted
  obtain ⟨view, hb, rfl | ⟨state, unready, rfl⟩⟩ := lookup_staleEntryCleanup hf
  · have ok := inv fp moved hb
    exact ok.moved rfl (fun ready => trusted (ok.ready ready))
      fun dirtiable => trusted (ok.dirtiable dirtiable).1
  · have ok := inv fp view hb
    exact ok.moved rfl (fun ready => absurd ready unready)
      fun dirtiable => trusted (ok.dirtiable dirtiable).1

omit inv

theorem lookup_mvStateWrite {state : MvState} {moved : CachedQueryView ρ}
    (hf : (s.registry.mvStateWrite fp state).stateView.lookup fp = some moved) :
    ∃ view, s.registry.stateView.lookup fp = some view ∧
      moved = { view with mv := view.mv.stateSet state } := by
  rw [mvStateWrite, lookup_viewModify] at hf
  obtain ⟨view, hb, changed⟩ := map_eq_some_iff.mp hf
  exact ⟨view, hb, changed.symm⟩

variable {build : MvBuild R}

theorem mvContextSnapshot_eq_some (snapshot : s.mvContextSnapshot fp = some build) :
    ∃ view, s.registry.stateView.lookup fp = some view ∧
      view.mv.state = .scheduled build.hasTable ∧ view.state = .ready ∧
      build.maxLimit = view.mv.limit ∧ build.rows = none ∧ build.outcome = none := by
  obtain ⟨view, hf, built⟩ := bind_eq_some_iff.mp snapshot
  split at built
  · rename_i hasTable scheduled
    obtain ⟨⟨ready, -⟩, he⟩ := ite_none_right_eq_some.mp built
    cases some_inj.mp he
    exact ⟨view, hf, scheduled, ready, rfl, rfl, rfl⟩
  · cases built

theorem apart_mvBuildDispatch : Apart fp s (s.mvBuildDispatch fp) := by
  unfold MvSystem.mvBuildDispatch
  split
  · exact .ofRegistry onlyAt_refl
  · split
    · exact .ofRegistry onlyAt_refl
    · exact ⟨onlyAt_viewModify _, fun o far => by simp [far], fun _ _ => rfl, rfl, rfl⟩

variable (inv : Inv qs s)
include inv

theorem Inv.mvBuildDispatch (quiet : NoPendingChange qs s fp) : Inv qs (s.mvBuildDispatch fp) := by
  refine inv.at apart_mvBuildDispatch fun moved hf => ?_
  unfold MvSystem.mvBuildDispatch at hf ⊢
  split at hf
  · exact inv fp moved hf
  · split at hf
    · exact inv fp moved hf
    · rename_i build snapshot
      obtain ⟨view, before, scheduled, ready, limit, unread, running⟩ :=
        mvContextSnapshot_eq_some snapshot
      obtain ⟨same, before', rfl⟩ := lookup_mvStateWrite hf
      cases before.symm.trans before'
      have trusted := (inv fp view before).ready ready
      refine ⟨fun _ => trusted.of_lookup rfl,
        fun _ => ⟨trusted.of_lookup rfl, quiet view build.hasTable before scheduled⟩,
        fun hasTable same => ⟨build, AList.lookup_insert _, limit, ?_, ?_⟩,
          fun same => by cases same⟩
      · simp [unread]
      · simp [running]

theorem Inv.withBuild {build' : MvBuild R} (running : s.mvBuildsInflight.lookup fp = some build)
    (tables : ∀ o, o ≠ fp → next.tables o = s.tables o)
    (same : next = { s with
      tables := next.tables
      mvBuildsInflight := s.mvBuildsInflight.insert fp build' })
    (limit : build'.maxLimit = build.maxLimit)
    (reads : ∀ rows, build'.rows = some rows →
      build.rows = some rows ∨ rows = qs.result fp build.maxLimit s.db)
    (reports : ∀ cols first, build'.outcome = some (.built cols first) →
      next.tables fp = build.rows ∧ build.rows.isSome) : Inv qs next := by
  have inflight : next.mvBuildsInflight.lookup fp = some build' := by
    rw [same]
    exact AList.lookup_insert _
  have registry : next.registry = s.registry := by rw [same]
  have db : next.db = s.db := by rw [same]
  have frame : next.frame = s.frame := by rw [same]
  have pending : next.pending = s.pending := by simp only [MvSystem.pending, db, frame]
  refine inv.at ⟨registry ▸ onlyAt_refl, fun o far => ?_, tables, db, frame⟩ fun view hf => ?_
  · rw [same]
    simp [far]
  · rw [registry] at hf
    have ok := inv fp view hf
    have hc : next.registry.cachedQueries.lookup fp =
        s.registry.cachedQueries.lookup fp := by rw [registry]
    refine ⟨fun ready => (ok.ready ready).of_lookup hc, fun dirtiable => ?_,
      fun hasTable building => ?_, fun fresh => ?_⟩
    · rw [pending, db]
      exact ⟨(ok.dirtiable dirtiable).1.of_lookup hc, (ok.dirtiable dirtiable).2⟩
    · obtain ⟨o, running', matching, read, -⟩ := ok.building hasTable building
      cases running.symm.trans running'
      rw [db]
      refine ⟨build', inflight, limit.trans matching, fun rows took => ?_,
        fun cols first done => ?_⟩
      · obtain old | rfl := reads rows took
        · exact read rows old
        · rw [matching]
      · obtain ⟨written, hp⟩ := reports cols first done
        obtain ⟨rows, took⟩ := isSome_iff_exists.mp hp
        rw [written, took, read rows took]
    · have none := (ok.fresh fresh).1
      rw [running] at none
      cases none

variable {outcome : MvBuildOutcome}

theorem Inv.buildEnd {left : MvSystem ρ D R} (running : s.mvBuildsInflight.lookup fp = some build)
    (ended : MvRun.buildEnd s fp build outcome = some left) :
    Inv qs { left with
      mvBuildsInflight := s.mvBuildsInflight.insert fp
        { build with outcome := some outcome } } := by
  cases outcome with
  | built cols first =>
    obtain ⟨-, wrote⟩ := ite_none_right_eq_some.mp ended
    obtain ⟨rows, took, rfl⟩ := map_eq_some_iff.mp wrote
    refine inv.withBuild running (apart_withTable (some rows)).tables rfl rfl
      (fun _ read => .inl read) fun _ _ _ => ?_
    simp [MvSystem.withTable, took]
  | ineligible =>
    obtain ⟨-, he⟩ := ite_none_left_eq_some.mp ended
    cases he
    exact inv.withBuild running (fun _ _ => rfl) rfl rfl (fun _ read => .inl read)
      fun _ _ done => by cases done
  | failed hasTable =>
    obtain ⟨-, kept⟩ := ite_none_left_eq_some.mp ended
    split at kept <;> cases kept
    · exact inv.withBuild running (fun _ _ => rfl) rfl rfl (fun _ read => .inl read)
        fun _ _ done => by cases done
    · exact inv.withBuild running (apart_withTable none).tables rfl rfl
        (fun _ read => .inl read) fun _ _ done => by cases done

omit inv in
/-- What a finished build does to its entry: a state in which nothing is dirtiable, or `Fresh` for
a build that was not dirtied. -/
theorem mvBuildOutcomeApply_cases (qs : MvQueries ρ D R) (s : MvSystem ρ D R)
    (fp : Fingerprint) (view : CachedQueryView ρ) (outcome : MvBuildOutcome) :
    (∃ base state, s.mvBuildOutcomeApply qs fp view outcome =
        MvSystem.mvStateWrite base fp state ∧ state.dirtied = none ∧
        (base = s ∨ base = s.mvTableDrop fp ∨ base = s.mvWasteRecord fp)) ∨
      ∃ plan hasTable cols first, outcome = .built cols first ∧ view.mv.state = .building hasTable ∧
        s.mvBuildOutcomeApply qs fp view outcome = s.freshInstall fp plan := by
  cases outcome with
  | built cols first =>
    rw [MvSystem.mvBuildOutcomeApply]
    split
    · exact .inl ⟨_, _, rfl, rfl, .inr (.inl rfl)⟩
    · split
      · rename_i hasTable building
        split
        · exact .inl ⟨_, _, rfl, rfl, .inr (.inl rfl)⟩
        · rename_i plan planned
          exact .inr ⟨plan, hasTable, cols, first, rfl, building, rfl⟩
      · exact .inl ⟨_, _, rfl, rfl, .inr (.inr rfl)⟩
  | ineligible => exact .inl ⟨_, _, rfl, rfl, .inl rfl⟩
  | failed hasTable => exact .inl ⟨_, _, rfl, rfl, .inr (.inr rfl)⟩

theorem Inv.mvBuildOutcomeApply {erased : MvSystem ρ D R}
    (hb : s.registry.stateView.lookup fp = some view)
    (reported : (s.mvBuildsInflight.lookup fp).bind (·.outcome) = some outcome)
    (same : erased = { s with
      mvBuildsInflight := s.mvBuildsInflight.erase fp }) :
    Inv qs (erased.mvBuildOutcomeApply qs fp view outcome) := by
  have ok := inv fp view hb
  have apart : Apart fp s erased := by
    rw [same]
    exact ⟨onlyAt_refl, fun o far => by simp [far], fun _ _ => rfl, rfl, rfl⟩
  obtain ⟨base, state, he, quiet, og⟩ | ⟨plan, hasTable, cols, first, rfl, building, he⟩ :=
    mvBuildOutcomeApply_cases qs erased fp view outcome
  · obtain ⟨based, hc, state'⟩ : Apart fp erased base ∧
        base.registry.cachedQueries = s.registry.cachedQueries ∧
        ∀ moved, base.registry.stateView.lookup fp = some moved → moved.state = view.state := by
      obtain rfl | rfl | rfl := og
      · refine ⟨.ofRegistry onlyAt_refl, by rw [same], fun moved found => ?_⟩
        rw [same, hb] at found
        rw [some_inj.mp found]
      · refine ⟨apart_withTable none, by rw [same]; rfl, fun moved found => ?_⟩
        rw [same] at found
        rw [some_inj.mp (hb.symm.trans found)]
      · refine ⟨.ofRegistry (onlyAt_viewModify _), by rw [same]; rfl, fun moved found => ?_⟩
        rw [same, MvSystem.mvWasteRecord, mvWasteRecord, lookup_viewModify, hb] at found
        rw [← some_inj.mp found]
    rw [he]
    refine inv.at (apart.trans (based.trans (.ofRegistry (onlyAt_viewModify _))))
      fun moved found => ?_
    obtain ⟨old, found', rfl⟩ := lookup_mvStateWrite found
    refine .idle (fun ready => ?_) quiet
    have trusted := ok.ready ((state' old found').symm.trans ready)
    exact trusted.of_lookup (by rw [← hc]; rfl)
  · rw [he]
    refine inv.at (apart.trans (.ofRegistry (onlyAt_viewModify _))) fun moved found => ?_
    rw [MvSystem.freshInstall, lookup_viewModify, same, hb] at found
    obtain rfl := some_inj.mp found
    obtain ⟨build, running, matching, read, wrote⟩ := ok.building hasTable building
    rw [running] at reported
    have current := wrote cols first reported
    obtain ⟨trusted, stable⟩ := ok.dirtiable (by rw [building]; simp [MvState.dirtied])
    rw [same]
    exact ⟨fun _ => trusted.of_lookup rfl, fun _ => ⟨trusted.of_lookup rfl, stable⟩,
      fun hasTable still => (by cases still), fun _ => ⟨AList.lookup_erase _ _, current⟩⟩

theorem Inv.mvBuildComplete
    (reported : (s.mvBuildsInflight.lookup fp).bind (·.outcome) = some outcome)
    (quiet : NoPendingChange qs s fp) :
    Inv qs (s.mvBuildComplete qs fp outcome) := by
  obtain ⟨build, running, -⟩ := bind_eq_some_iff.mp reported
  let finished : MvSystem ρ D R :=
    { s with mvBuildsInflight := s.mvBuildsInflight.erase fp }
  let discarded :=
    if MvSystem.tableRemains outcome then finished.mvTableDrop fp else finished
  have kept : discarded.registry = s.registry ∧ discarded.db = s.db ∧
      discarded.frame = s.frame := by
    unfold discarded
    split <;> exact ⟨rfl, rfl, rfl⟩
  have apart : Apart fp s discarded := by
    have erased : Apart fp s finished :=
      ⟨onlyAt_refl, fun o far => by simp [finished, far], fun _ _ => rfl, rfl, rfl⟩
    unfold discarded
    split
    · exact erased.trans (apart_withTable none)
    · exact erased
  -- without a build in flight a state other than `Building` has nothing to lose
  have thrown : (∀ view, s.registry.stateView.lookup fp = some view →
      view.mv.state.dirtied = none) → Inv qs discarded := by
    intro idle
    refine inv.at apart fun view hf => ?_
    rw [kept.1] at hf
    exact .idle (fun ready => ((inv fp view hf).ready ready).of_lookup (by rw [kept.1]))
      (idle view hf)
  show Inv qs (match s.registry.stateView.lookup fp with
    | none => discarded
    | some view => _)
  split
  · rename_i ha
    exact thrown fun view hf => by rw [ha] at hf; cases hf
  · rename_i view hb
    have alone : ∀ {state : MvState}, view.mv.state = state → state.dirtied = none →
        Inv qs discarded := by
      intro state same quiet
      refine thrown fun o hf => ?_
      rw [hb] at hf
      rw [← some_inj.mp hf, same, quiet]
    split
    · exact inv.mvBuildOutcomeApply hb reported rfl
    · exact inv.mvBuildOutcomeApply hb reported rfl
    · rename_i hasTable scheduled
      refine (alone scheduled rfl).mvBuildDispatch fun o has hf waits => ?_
      rw [kept.1] at hf
      simpa [MvSystem.pending, kept.2.1, kept.2.2] using quiet o has hf waits
    · rename_i same
      exact alone same rfl
    · rename_i same
      exact alone same rfl
    · rename_i hasTable same
      exact alone same rfl
    · rename_i fresh
      have free := ((inv fp view hb).fresh fresh).1
      rw [running] at free
      cases free

theorem Inv.sweep : Inv qs (s.mvDirtySweep qs) := by
  intro fp view hf
  have ok := inv fp view hf
  by_cases dead : view.mv.state = .pending true
  · exact .idle (fun ready => (ok.ready ready).of_lookup rfl) (by rw [dead]; rfl)
  · have viewed : s.registry.stateView.lookup fp = some view := hf
    have same : (s.mvDirtySweep qs).tables fp = s.tables fp := by
      simp [MvSystem.mvDirtySweep, viewed, dead]
    refine ⟨fun ready => (ok.ready ready).of_lookup rfl, ok.dirtiable, ?_, ?_⟩
    · rw [same]
      exact ok.building
    · rw [same]
      exact ok.fresh

omit inv in
theorem lookup_dirtied {dirtied : List Fingerprint} {now : Nat} {moved : CachedQueryView ρ}
    (hf : (dirtied.foldl (fun registry fp => registry.mvDirtyMark now fp)
      registry).stateView.lookup fp = some moved) :
    ∃ view, registry.stateView.lookup fp = some view ∧ moved.state = view.state ∧
      (moved.mv.state.dirtied = none ∨ fp ∉ dirtied ∧ moved.mv = view.mv) := by
  induction dirtied generalizing registry with
  | nil => exact ⟨moved, hf, rfl, .inr ⟨List.not_mem_nil, rfl⟩⟩
  | cons first rest ih =>
    obtain ⟨middle, marked, state, mv⟩ := ih hf
    by_cases here : fp = first
    · have here' : (registry.mvDirtyMark now first).stateView.lookup first = some middle :=
        here ▸ marked
      rw [mvDirtyMark, lookup_viewModify] at here'
      obtain ⟨view, hb, rfl⟩ := map_eq_some_iff.mp here'
      refine ⟨view, here ▸ hb, state, .inl ?_⟩
      obtain quiet | ⟨-, same⟩ := mv
      · exact quiet
      · rw [same]
        exact MvMeta.dirtyApply_not_dirtiable _ _
    · have only : Registry.OnlyAt first registry (registry.mvDirtyMark now first) :=
        onlyAt_viewModify _
      refine ⟨middle, (only fp here).2 ▸ marked, state,
        mv.imp_right fun ⟨outside, same⟩ => ⟨?_, same⟩⟩
      simp [here, outside]

omit inv in
theorem dirtied_cachedQueries (dirtied : List Fingerprint) (registry : Registry ρ) (now : Nat) :
    (dirtied.foldl (fun registry fp => registry.mvDirtyMark now fp)
      registry).cachedQueries = registry.cachedQueries := by
  induction dirtied generalizing registry with
  | nil => rfl
  | cons first rest ih => exact ih _

theorem Inv.row (change : D → D) (dirtied : List Fingerprint)
    (calm : Calm qs s (.row change dirtied)) :
    Inv qs { s with
      frame := s.frame ++ [change]
      registry := dirtied.foldl (fun registry fp =>
        registry.mvDirtyMark s.now fp) s.registry } := by
  intro fp moved hf
  obtain ⟨view, hb, state, mv⟩ := lookup_dirtied hf
  have ok := inv fp view hb
  have hc := congrArg (AList.lookup fp) (dirtied_cachedQueries dirtied s.registry s.now)
  obtain quiet | ⟨outside, same⟩ := mv
  · exact .idle (fun there => (ok.ready (state ▸ there)).of_lookup hc) quiet
  · refine ⟨fun there => (ok.ready (state ▸ there)).of_lookup hc, fun dirtiable => ?_, ?_, ?_⟩
    · rw [same] at dirtiable ⊢
      refine ⟨(ok.dirtiable dirtiable).1.of_lookup hc, ?_⟩
      have unchanged : qs.result fp view.mv.limit (change s.pending) =
          qs.result fp view.mv.limit s.pending :=
        not_not.mp fun changed => outside (calm fp view.mv.limit changed)
      simpa [MvSystem.pending] using unchanged.trans (ok.dirtiable dirtiable).2
    · rw [same]
      exact ok.building
    · rw [same]
      exact ok.fresh

theorem Inv.withDb {db : D} (unchanged : ∀ fp view, s.registry.stateView.lookup fp = some view →
      view.mv.state.dirtied ≠ none → qs.result fp view.mv.limit db =
        qs.result fp view.mv.limit s.db) :
    Inv qs { s with db, frame := [] } := by
  intro fp view hf
  have ok := inv fp view hf
  refine ⟨fun ready => (ok.ready ready).of_lookup rfl,
    fun dirtiable => ⟨(ok.dirtiable dirtiable).1.of_lookup rfl, rfl⟩, fun hasTable building => ?_,
    fun fresh => ?_⟩
  · have same := unchanged fp view hf (by rw [building]; simp [MvState.dirtied])
    show ∃ build, _ ∧ _ ∧ (∀ rows, _ → rows = qs.result fp view.mv.limit db) ∧
      ∀ cols first, _ → _ = some (qs.result fp view.mv.limit db)
    rw [same]
    exact ok.building hasTable building
  · have same := unchanged fp view hf (by rw [fresh]; simp [MvState.dirtied])
    show _ ∧ s.tables fp = some (qs.result fp view.mv.limit db)
    rw [same]
    exact ok.fresh fresh

theorem Inv.step {ev : MvEvent ρ D} (calm : Calm qs s ev) (hs : step qs s ev = some next) :
    Inv qs next := by
  cases ev with
  | dispatch fp input budget =>
    cases hs
    exact inv.dispatch input budget
  | register fp outcome =>
    cases hs
    exact inv.queryRegister outcome calm
  | ready fp generation =>
    obtain ⟨allowed, ⟨⟩⟩ := ite_none_right_eq_some.mp hs
    obtain ⟨q, hc, -, hv⟩ := populationFinalizeAllowed_iff.mp allowed
    exact (inv.queryReadyMark hc hv).mvPinnedBootstrap
  | limitBump fp newMaxLimit =>
    cases hs
    exact inv.limitBump newMaxLimit
  | readmission fp =>
    cases hs
    exact inv.queryReadmit calm
  | invalidate policy fp =>
    simp only [MvRun.step] at hs
    split at hs
    · cases hs
      exact inv.cacheQueryEvict
    · rename_i stays
      cases hs
      exact inv.invalidate policy stays
  | evict fp =>
    cases hs
    exact inv.cacheQueryEvict
  | fail fp =>
    cases hs
    refine inv.withRegistry onlyAt_queryFailedCleanup fun moved hf => ?_
    simp [queryFailedCleanup] at hf
  | expire hitDelta fp =>
    cases hs
    exact inv.expire hitDelta
  | build fp =>
    cases hs
    exact inv.mvBuildDispatch calm
  | buildRead fp =>
    obtain ⟨build, running, reads⟩ := bind_eq_some_iff.mp hs
    obtain ⟨⟨-, unreported⟩, ⟨⟩⟩ := ite_none_right_eq_some.mp reads
    refine inv.withBuild running (fun _ _ => rfl) rfl rfl
      (fun rows took => .inr (some_inj.mp took).symm) fun cols first done => ?_
    rw [isNone_iff_eq_none.mp unreported] at done
    cases done
  | buildEnd fp outcome =>
    obtain ⟨build, running, reports⟩ := bind_eq_some_iff.mp hs
    obtain ⟨-, ends⟩ := ite_none_right_eq_some.mp reports
    obtain ⟨left, ended, rfl⟩ := map_eq_some_iff.mp ends
    exact inv.buildEnd running ended
  | complete fp =>
    obtain ⟨outcome, reported, rfl⟩ := map_eq_some_iff.mp hs
    exact inv.mvBuildComplete reported calm
  | sweep =>
    cases hs
    exact inv.sweep
  | row change dirtied =>
    cases hs
    exact inv.row change dirtied calm
  | rollback =>
    cases hs
    exact inv.withDb fun _ _ _ _ => rfl
  | commit =>
    cases hs
    exact inv.withDb fun fp view hf dirtiable =>
      ((inv fp view hf).dirtiable dirtiable).2
  | rows change =>
    obtain ⟨idle, he⟩ := ite_none_right_eq_some.mp hs
    rw [← some_inj.mp he, show s.frame = [] from List.isEmpty_iff.mp idle]
    exact inv.withDb fun fp view hf dirtiable =>
      calm fp view.mv.limit ((inv fp view hf).dirtiable dirtiable).1
  | tick =>
    cases hs
    intro fp view hf
    have ok := inv fp view hf
    exact ⟨ok.ready, ok.dirtiable, ok.building, ok.fresh⟩

omit inv

/-- A `Fresh` table holds the query's result over the committed rows. -/
theorem fresh_mv_is_current (qs : MvQueries ρ D R) (db : D) (events : List (MvEvent ρ D))
    (calm : Allowed (step qs) (Calm qs) (.new db) events)
    (ran : runs (step qs) (.new db) events = some s) (fp : Fingerprint)
    (view : CachedQueryView ρ)
    (found : s.registry.stateView.lookup fp = some view)
    (fresh : view.mv.state = .fresh) :
    s.tables fp = some (qs.result fp view.mv.limit s.db) := by
  have inv : Inv qs s :=
    runs_invariant (fun _ _ _ holds allowed stepped => holds.step allowed stepped) (inv_new db) calm
      ran
  exact ((inv fp view found).fresh fresh).2

end Invariant

def oneNumber : MvQueries Unit Nat Nat where
  result fp _ db := if fp = 0 then db else 0
  empty := 0
  servePlan _ _ outputColumns := some ⟨outputColumns, "SELECT c0 FROM pgcache_mv.q_0"⟩

def request : DecisionInput := ⟨none, 1, .clock, false, 0⟩

def populated : List (MvEvent Unit Nat) :=
  [.dispatch 0 request true,
    .register 0 (.admitted false ⟨[1], (), none, none, .gated⟩), .ready 0 1]

def built : List (MvEvent Unit Nat) :=
  [.dispatch 0 request true, .build 0, .buildRead 0, .buildEnd 0 (.built ["n"] true), .complete 0]

/-- A row of a long frame is replayed before the commit. The mark finds a result that is only
`Pending`, the build reads the rows without the change, and the commit leaves its table `Fresh`. -/
theorem early_replay_leaves_fresh_stale : ∃ events : List (MvEvent Unit Nat), ∃ s view,
      Allowed (step oneNumber) (Marked oneNumber) (.new 0) events ∧
      runs (step oneNumber) (.new 0) events = some s ∧
      s.registry.stateView.lookup 0 = some view ∧ view.mv.state = .fresh ∧
      s.tables 0 ≠ some (oneNumber.result 0 view.mv.limit s.db) := by
  refine ⟨populated ++ .row (· + 1) [0] :: built ++ [.commit], _, _, ?_, rfl, rfl, rfl, by decide⟩
  refine .cons rfl trivial (.cons rfl trivial (.cons rfl trivial (.cons rfl ?_ (.cons rfl trivial
    (.cons rfl trivial (.cons rfl trivial (.cons rfl trivial (.cons rfl trivial
      (.cons rfl trivial trivial)))))))))
  intro fp limit changed
  by_contra outside
  simp [oneNumber, List.mem_singleton.not.mp outside] at changed

theorem quiet_build_is_current : ∃ s view,
      runs (step oneNumber) (.new 3) (populated ++ built) = some s ∧
      s.registry.stateView.lookup 0 = some view ∧ view.mv.state = .fresh ∧
      s.tables 0 = some (oneNumber.result 0 view.mv.limit s.db) := by
  have calm : Allowed (step oneNumber) (Calm oneNumber) (.new 3) (populated ++ built) := by
    refine .cons rfl trivial (.cons rfl ?_ (.cons rfl trivial (.cons rfl trivial (.cons rfl ?_
      (.cons rfl trivial (.cons rfl trivial (.cons rfl ?_ trivial)))))))
    · intro view found
      cases found
      simp
    · exact fun _ _ _ _ => rfl
    · exact fun _ _ _ _ => rfl
  exact ⟨_, _, rfl, rfl, rfl, fresh_mv_is_current oneNumber 3 _ calm rfl 0 _ rfl rfl⟩

end PgCache.Cache.MvRun
