/- source: cache/writer/cdc/dispatch.rs, cache/writer/cdc/frame.rs,
     cache/writer/cdc/invalidation.rs, cache/writer/registration/lifecycle.rs,
     cache/writer/registration/merge.rs
   digest: Frames, flushes, populations and merges interleaved, and when the published settled
     position means that the flagged queries are out of service. -/
import PgCache.Cache.Entries
import PgCache.Data.Machine

set_option autoImplicit false

namespace PgCache.Cache.SettledRun

open Catalog Data.Keyed Data.Machine Maintenance Decision Entries Registry Option List AList

variable {ρ : Type}

inductive FrameState where
  | idle
  | active
  | txnOpen
  | recovering
  deriving DecidableEq

structure Population where
  fingerprint : Fingerprint
  generation : Nat
  startedAt : Nat
  snapshotLsn : Option Nat
  deriving DecidableEq

/-- A `batch_flush` on its way: the position it will publish, how its commit is answered (with
`40P01` or not), the keepalive it was for, and whether the commit is done. -/
structure Flush where
  lsn : Nat
  deadlock : Bool
  keepAlive : Option Nat
  committed : Bool

/-- The writer, its populations and the origin. The last two fields are bookkeeping of the
statement: the population each entry was last merged from, and the position of the last published
batch that flagged a query. -/
structure WriterSystem (ρ : Type) where
  registry : Registry ρ
  populations : List Population
  frameOpen : Bool
  frameState : FrameState
  frameInvalidations : List Fingerprint
  frameRelationOids : List Oid
  batchFrames : Nat
  batchLastLsn : Nat
  flushing : Option Flush
  lastReceivedLsn : Nat
  lastAppliedLsn : Nat
  settledLsn : Nat
  originLsn : Nat
  now : Nat
  merged : Fingerprint → Option (Nat × Nat)
  flagged : Fingerprint → Option Nat

namespace WriterSystem

def new : WriterSystem ρ :=
  ⟨.new, [], false, .idle, [], [], 0, 0, none, 0, 0, 0, 0, 0, fun _ => none, fun _ => none⟩

variable (s : WriterSystem ρ)

def populationStart (fp : Fingerprint) : WriterSystem ρ :=
  match s.registry.cachedQueries.lookup fp with
  | none => s
  | some query =>
    { s with
      populations := ⟨fp, query.generation, s.originLsn, none⟩ :: s.populations }

def frameInvalidationsFlush (policy : CachePolicy) : Registry ρ :=
  s.frameInvalidations.foldl (fun registry fp =>
    registry.cacheQueryCdcInvalidate s.now policy fp) s.registry

def frameRecover (oids : List Oid) (registry : Registry ρ) : Registry ρ :=
  oids.foldl cacheTableInvalidate registry

/-- `batch_flush` up to the commit: `frame_finalize` invalidates the flagged queries, unless the
frame is recovering. -/
def batchFlush (policy : CachePolicy) (deadlock : Bool) (lsn : Nat) (keepAlive : Option Nat) :
    WriterSystem ρ :=
  { s with
    registry :=
      match s.frameState with
      | .active | .txnOpen => s.frameInvalidationsFlush policy
      | .idle | .recovering => s.registry
    flushing := some ⟨lsn, deadlock, keepAlive, false⟩ }

def frameCommit (deadlock : Bool) : Registry ρ :=
  match s.frameState with
  | .txnOpen => if deadlock then frameRecover s.frameRelationOids s.registry else s.registry
  | .recovering => frameRecover s.frameRelationOids s.registry
  | .idle | .active => s.registry

/-- `batch_state_reset` and `applied_lsn_advance`, and then the end of `keepalive_mark_handle`. -/
def publish (flush : Flush) : WriterSystem ρ :=
  let received := max s.lastReceivedLsn flush.lsn
  let settled :=
    if s.lastAppliedLsn < flush.lsn then max s.settledLsn flush.lsn else s.settledLsn
  { s with
    frameState := .idle
    frameInvalidations := []
    frameRelationOids := []
    batchFrames := 0
    flushing := none
    lastReceivedLsn := flush.keepAlive.elim received (max received)
    lastAppliedLsn := max s.lastAppliedLsn flush.lsn
    settledLsn := flush.keepAlive.elim settled (max settled)
    flagged := fun fp =>
      if fp ∈ s.frameInvalidations then some flush.lsn else s.flagged fp }

end WriterSystem

inductive WriterEvent (ρ : Type) where
  /-- the origin commits up to a position -/
  | origin (lsn : Nat)
  | dispatch (fp : Fingerprint) (input : DecisionInput) (budget : Bool)
  | register (fp : Fingerprint) (outcome : Registry.RegisterOutcome ρ)
  | readmission (fp : Fingerprint)
  | limitBump (fp : Fingerprint) (newMaxLimit : Option Nat)
  | evict (fp : Fingerprint)
  | fail (fp : Fingerprint)
  | expire (hitDelta : Nat) (fp : Fingerprint)
  /-- a worker is done with its reads and takes `origin_snapshot_lsn` -/
  | snapshot (fp : Fingerprint) (generation : Nat)
  /-- the merge of a population is done -/
  | merge (fp : Fingerprint) (generation : Nat)
  | begin
  /-- a row event on a relation is replayed; `flags` are the update queries it invalidates -/
  | row (relationOid : Oid) (flags : List Fingerprint) (writes : Bool)
  | truncate (relationOids : List Oid)
  /-- `40P01` inside the frame -/
  | deadlock
  | commitMark (lsn : Nat) (flush : Bool) (policy : CachePolicy) (deadlock : Bool)
  | keepAliveMark (lsn : Nat) (policy : CachePolicy) (deadlock : Bool)
  /-- the frame of a flush is committed -/
  | commit
  /-- the flush publishes its position -/
  | publish

def WriterEvent.beside : WriterEvent ρ → Bool
  | .origin _ | .dispatch .. | .snapshot .. => true
  | _ => false

def isOver (registry : Registry ρ) (relationOid : Oid) (fp : Fingerprint) : Bool :=
  (registry.cachedQueries.lookup fp).any (relationOid ∈ ·.relationOids)

def registerCommand (s : WriterSystem ρ) (fp : Fingerprint)
    (outcome : Registry.RegisterOutcome ρ) : WriterSystem ρ :=
  let registered :=
    { s with registry := s.registry.queryRegister s.now fp outcome }
  if (s.registry.cachedQueries.lookup fp).any (·.invalidated) then
    registered.populationStart fp
  else
    match outcome with
    | .admitted .. => registered.populationStart fp
    | .failed | .subsumed .. | .checked _ => registered

open WriterSystem in
def command (s : WriterSystem ρ) : WriterEvent ρ → Option (WriterSystem ρ)
  | .origin lsn => if s.originLsn ≤ lsn then some { s with originLsn := lsn } else none
  | .dispatch fp input budget =>
    some { s with
      registry := s.registry.queryDispatch s.now fp input budget }
  | .register fp outcome => some (registerCommand s fp outcome)
  | .readmission fp =>
    some (populationStart { s with registry := s.registry.queryReadmit s.now fp } fp)
  | .limitBump fp newMaxLimit =>
    some (populationStart { s with
      registry := s.registry.limitBumpHandle s.now fp newMaxLimit } fp)
  | .evict fp =>
    some { s with registry := s.registry.cacheQueryEvict fp }
  | .fail fp =>
    some { s with registry := s.registry.queryFailedCleanup fp }
  | .expire hitDelta fp =>
    some { s with registry := s.registry.staleEntryCleanup hitDelta fp }
  | .snapshot fp generation =>
    some { s with
      populations := s.populations.map fun pop =>
        if pop.fingerprint = fp ∧ pop.generation = generation ∧ pop.snapshotLsn = none then
          { pop with snapshotLsn := some s.originLsn }
        else pop }
  | .merge fp generation =>
    (s.populations.find? fun pop =>
      pop.fingerprint == fp && pop.generation == generation).bind
        fun pop => pop.snapshotLsn.bind fun snapshot =>
          if s.frameState = .idle ∧ snapshot ≤ s.lastReceivedLsn ∧
              populationFinalizeAllowed (s.registry.cachedQueries.lookup fp) generation then
            some { s with
              registry := s.registry.queryReadyFinalize s.now fp
              populations := s.populations.erase pop
              merged := Function.update s.merged fp (some (generation, snapshot)) }
          else none
  | .begin =>
    if s.frameOpen then none
    else some { s with
      frameOpen := true
      frameState := if s.frameState = .idle then .active else s.frameState }
  | .row relationOid flags writes =>
    if s.frameState = .active ∨ s.frameState = .txnOpen then
      some { s with
        frameState := if writes then .txnOpen else s.frameState
        frameRelationOids := s.frameRelationOids.insert relationOid
        frameInvalidations :=
          flags.filter (isOver s.registry relationOid) ++ s.frameInvalidations }
    else none
  | .truncate relationOids =>
    if s.frameState = .active ∨ s.frameState = .txnOpen then
      some { s with
        frameState := .txnOpen
        frameRelationOids := relationOids ++ s.frameRelationOids
        registry := frameRecover relationOids s.registry }
    else none
  | .deadlock =>
    if s.frameState = .active ∨ s.frameState = .txnOpen then
      some { s with frameState := .recovering }
    else none
  | .commitMark lsn flush policy deadlock =>
    if s.frameOpen ∧ lsn ≤ s.originLsn ∧ s.batchLastLsn ≤ lsn then
      let marked := { s with
        frameOpen := false, batchFrames := s.batchFrames + 1, batchLastLsn := lsn }
      if flush ∨ s.frameState = .recovering then
        some (marked.batchFlush policy deadlock lsn none)
      else some marked
    else none
  | .keepAliveMark lsn policy deadlock =>
    if s.frameOpen then some s
    else if s.originLsn < lsn then none
    else if 0 < s.batchFrames then
      some (s.batchFlush policy deadlock s.batchLastLsn (some lsn))
    else
      some { s with
        lastReceivedLsn := max s.lastReceivedLsn lsn
        settledLsn := max s.settledLsn lsn }
  | .commit | .publish => none

def step (s : WriterSystem ρ) : WriterEvent ρ → Option (WriterSystem ρ)
  | .commit => s.flushing.bind fun flush =>
    if flush.committed then none
    else some { s with
      registry := s.frameCommit flush.deadlock
      flushing := some { flush with committed := true } }
  | .publish => s.flushing.bind fun flush =>
    if flush.committed then some (s.publish flush) else none
  | event => if s.flushing.isSome ∧ event.beside = false then none else command s event

/-- A flush that invalidates the flagged queries one by one finds no pinned one among them. -/
def NoPinnedFlag (s : WriterSystem ρ) (deadlock : Bool) : Prop :=
  s.frameState = .active ∨ s.frameState = .txnOpen ∧ deadlock = false →
    ∀ fp ∈ s.frameInvalidations, ∀ query,
      s.registry.cachedQueries.lookup fp = some query → query.pinned = false

/-- The schedules on which the settled position means what the gate takes it for. -/
def Calm (s : WriterSystem ρ) : WriterEvent ρ → Prop
  | .commitMark _ flush _ deadlock =>
    flush = true ∨ s.frameState = .recovering → NoPinnedFlag s deadlock
  | .keepAliveMark _ _ deadlock =>
    s.frameOpen = false → 0 < s.batchFrames → NoPinnedFlag s deadlock
  | .register fp (.subsumed _ resolution) =>
    (s.registry.cachedQueries.lookup fp).any (·.invalidated) = false →
      s.flagged fp = none ∧ (fp ∈ s.frameInvalidations →
        ∃ oid ∈ s.frameRelationOids, oid ∈ resolution.relationOids)
  | .register fp (.admitted _ resolution) =>
    (s.registry.cachedQueries.lookup fp).any (·.invalidated) = false → fp ∈ s.frameInvalidations →
        ∃ oid ∈ s.frameRelationOids, oid ∈ resolution.relationOids
  | _ => True

section Mild

/-- Behind a `Ready` entry stands a cached query that is not invalidated. -/
def Backed (registry : Registry ρ) : Prop :=
  ∀ fp view, registry.stateView.lookup fp = some view → view.state = .ready →
    ∃ query, registry.cachedQueries.lookup fp = some query ∧ query.invalidated = false

structure MildAt (registry next : Registry ρ) (fp : Fingerprint) : Prop where
  ready : ∀ view, next.stateView.lookup fp = some view → view.state = .ready →
    ∃ old, registry.stateView.lookup fp = some old ∧ old.state = .ready ∧
      old.generation = view.generation
  cached : ∀ query, next.cachedQueries.lookup fp = some query →
    ∃ old, registry.cachedQueries.lookup fp = some old ∧
      old.generation = query.generation ∧ old.relationOids = query.relationOids ∧
      old.pinned = query.pinned ∧ (query.invalidated = false → old.invalidated = false)
  backed : Backed registry → ∀ view, next.stateView.lookup fp = some view → view.state = .ready →
      ∃ query, next.cachedQueries.lookup fp = some query ∧ query.invalidated = false

structure Mild (registry next : Registry ρ) : Prop where
  all : ∀ fp, MildAt registry next fp
  counter : registry.generationCounter ≤ next.generationCounter

/-- Out of service: not `Ready`, and no population of it can be merged. -/
def Withdrawn (registry : Registry ρ) (fp : Fingerprint) : Prop :=
  (∀ query, registry.cachedQueries.lookup fp = some query → query.invalidated = true) ∧
    ∀ view, registry.stateView.lookup fp = some view → view.state ≠ .ready

variable {registry middle next : Registry ρ} {fp : Fingerprint}

theorem Mild.backed (mild : Mild registry next) (backed : Backed registry) : Backed next :=
  fun fp => (mild.all fp).backed backed

theorem MildAt.of_same (cached : next.cachedQueries.lookup fp = registry.cachedQueries.lookup fp)
    (viewed : next.stateView.lookup fp = registry.stateView.lookup fp) :
    MildAt registry next fp where
  ready view found ready := ⟨view, viewed ▸ found, ready, rfl⟩
  cached query found := ⟨query, cached ▸ found, rfl, rfl, rfl, id⟩
  backed backed view found ready := by
    rw [cached]
    exact backed fp view (viewed ▸ found) ready

theorem MildAt.of_gone (cached : next.cachedQueries.lookup fp = none)
    (viewed : next.stateView.lookup fp = none) : MildAt registry next fp where
  ready view found := by simp [viewed] at found
  cached query found := by simp [cached] at found
  backed _ view found := by simp [viewed] at found

theorem Mild.refl (registry : Registry ρ) : Mild registry registry :=
  ⟨fun _ => .of_same rfl rfl, le_rfl⟩

theorem Mild.at (only : Registry.OnlyAt fp registry next) (here : MildAt registry next fp)
    (counter : next.generationCounter = registry.generationCounter) : Mild registry next := by
  refine ⟨fun o => ?_, counter.ge⟩
  by_cases he : o = fp
  · exact he ▸ here
  · exact .of_same (only o he).1 (only o he).2

theorem Mild.trans (first : Mild registry middle) (snd : Mild middle next) :
    Mild registry next where
  all fp := {
    ready := fun view found ready => by
      obtain ⟨between, found', ready', same⟩ := (snd.all fp).ready view found ready
      obtain ⟨old, found'', ready'', same'⟩ := (first.all fp).ready between found' ready'
      exact ⟨old, found'', ready'', same'.trans same⟩
    cached := fun q found => by
      obtain ⟨between, found', gen, oids, pin, valid⟩ := (snd.all fp).cached q found
      obtain ⟨old, found'', gen', oids', pin', valid'⟩ := (first.all fp).cached between found'
      exact ⟨old, found'', gen'.trans gen, oids'.trans oids, pin'.trans pin,
        fun fine => valid' (valid fine)⟩
    backed := fun backed => (snd.all fp).backed (first.backed backed) }
  counter := first.counter.trans snd.counter

theorem Mild.foldl {α : Type} {change : Registry ρ → α → Registry ρ}
    (mild : ∀ registry item, Mild registry (change registry item)) (items : List α)
    (registry : Registry ρ) : Mild registry (items.foldl change registry) := by
  induction items generalizing registry with
  | nil => exact .refl registry
  | cons item items ih => exact (mild registry item).trans (ih _)

theorem Withdrawn.mild (gone : Withdrawn registry fp) (mild : Mild registry next) :
    Withdrawn next fp := by
  constructor
  · intro q found
    obtain ⟨old, found', -, -, -, hv⟩ := (mild.all fp).cached q found
    have stale := gone.1 old found'
    cases fine : q.invalidated with
    | true => rfl
    | false =>
      rw [hv fine] at stale
      cases stale
  · intro view found ready
    obtain ⟨old, found', ready', -⟩ := (mild.all fp).ready view found ready
    exact gone.2 old found' ready'

theorem withdrawn_of_gone (hc : registry.cachedQueries.lookup fp = none)
    (viewed : registry.stateView.lookup fp = none) : Withdrawn registry fp :=
  ⟨fun q hf => by simp [hc] at hf, fun view hf => by simp [viewed] at hf⟩

theorem Backed.withdrawn (backed : Backed registry)
    (stale : ∀ q, registry.cachedQueries.lookup fp = some q →
      q.invalidated = true) : Withdrawn registry fp := by
  refine ⟨stale, fun view hf ready => ?_⟩
  obtain ⟨q, hc, hv⟩ := backed fp view hf ready
  rw [stale q hc] at hv
  cases hv

theorem mild_cacheQueryEvict (fp : Fingerprint) : Mild registry (registry.cacheQueryEvict fp) := by
  refine .at onlyAt_cacheQueryEvict ?_ ?_
  · unfold cacheQueryEvict
    split
    · exact .of_same rfl rfl
    · exact .of_gone (lookup_erase _ _) (lookup_erase _ _)
  · unfold cacheQueryEvict
    split <;> rfl

theorem mild_queryInvalidatedMark (now generation : Nat) (fp : Fingerprint) :
    Mild registry (registry.queryInvalidatedMark now fp generation) := by
  refine .at (onlyAt_queryInvalidatedMark now generation) ⟨?_, ?_, ?_⟩ rfl
  · intro view hf ready
    rw [queryInvalidatedMark, lookup_viewModify] at hf
    obtain ⟨old, -, rfl⟩ := map_eq_some_iff.mp hf
    cases ready
  · intro q hf
    simp only [queryInvalidatedMark, viewModify_cachedQueries, lookup_adjust, if_true] at hf
    obtain ⟨old, hb, rfl⟩ := map_eq_some_iff.mp hf
    exact ⟨old, hb, rfl, rfl, rfl, fun hv => by cases hv⟩
  · intro _ view hf ready
    rw [queryInvalidatedMark, lookup_viewModify] at hf
    obtain ⟨old, -, rfl⟩ := map_eq_some_iff.mp hf
    cases ready

theorem mild_cacheQueryCdcInvalidate (now : Nat) (policy : CachePolicy) (fp : Fingerprint) :
    Mild registry (registry.cacheQueryCdcInvalidate now policy fp) := by
  unfold cacheQueryCdcInvalidate
  split
  · exact .refl registry
  · exact .refl registry
  · exact mild_cacheQueryEvict fp
  · exact mild_queryInvalidatedMark now _ fp

theorem withdrawn_cacheQueryCdcInvalidate (backed : Backed registry) (now : Nat)
    (policy : CachePolicy)
    (loose : ∀ q, registry.cachedQueries.lookup fp = some q → q.pinned = false) :
    Withdrawn (registry.cacheQueryCdcInvalidate now policy fp) fp := by
  have mild : Mild registry (registry.cacheQueryCdcInvalidate now policy fp) :=
    mild_cacheQueryCdcInvalidate now policy fp
  cases hc : registry.cachedQueries.lookup fp with
  | none =>
    exact (backed.withdrawn fun q hf => by simp [hc] at hf).mild mild
  | some q =>
    refine (mild.backed backed).withdrawn fun kept hf => ?_
    have free := loose q hc
    simp only [cacheQueryCdcInvalidate, cdcInvalidation, hc, any_some,
      free, Bool.false_eq_true, if_false] at hf
    cases policy with
    | fifo => simp [cacheQueryEvict, hc] at hf
    | clock =>
      cases stale : q.invalidated with
      | true =>
        simp only [stale, if_true, reduceCtorEq, if_false] at hf
        rw [hc, some_inj] at hf
        rw [← hf, stale]
      | false =>
        simp only [stale, Bool.false_eq_true, if_false, reduceCtorEq, queryInvalidatedMark,
          viewModify_cachedQueries, lookup_adjust, if_true, hc, map_some,
          some_inj] at hf
        rw [← hf]

theorem withdrawn_foldl {α : Type} {change : Registry ρ → α → Registry ρ}
    (mild : ∀ registry item, Mild registry (change registry item)) {p : Registry ρ → Prop}
    (stable : ∀ registry next, Mild registry next → p registry → p next) {item : α}
    (hits : ∀ registry, p registry → Withdrawn (change registry item) fp)
    {items : List α} (hm : item ∈ items) (fine : p registry) :
    Withdrawn (items.foldl change registry) fp := by
  induction items generalizing registry with
  | nil => cases hm
  | cons first rest ih =>
    obtain rfl | later := mem_cons.mp hm
    · exact (hits registry fine).mild (Mild.foldl mild rest _)
    · exact ih later (stable registry _ (mild registry first) fine)

theorem withdrawn_cacheQueryEvict (backed : Backed registry) :
    Withdrawn (registry.cacheQueryEvict fp) fp := by
  unfold cacheQueryEvict
  split
  · rename_i ha
    exact backed.withdrawn fun q hf => by simp [ha] at hf
  · exact withdrawn_of_gone (lookup_erase _ _) (lookup_erase _ _)

theorem mild_cacheTableInvalidate (registry : Registry ρ) (oid : Oid) :
    Mild registry (registry.cacheTableInvalidate oid) :=
  Mild.foldl (fun _ fp => mild_cacheQueryEvict fp) _ registry

theorem withdrawn_cacheTableInvalidate {oid : Oid} (backed : Backed registry)
    (overTouched : ∀ q, registry.cachedQueries.lookup fp = some q → oid ∈ q.relationOids) :
    Withdrawn (registry.cacheTableInvalidate oid) fp := by
  cases hc : registry.cachedQueries.lookup fp with
  | none =>
    exact (backed.withdrawn fun q hf => by simp [hc] at hf).mild
      (mild_cacheTableInvalidate registry oid)
  | some q =>
    refine withdrawn_foldl (fun _ fp => mild_cacheQueryEvict fp)
      (fun _ _ mild => mild.backed) (fun _ fine => withdrawn_cacheQueryEvict fine) ?_ backed
    rw [mem_filter]
    refine ⟨?_, by simpa [hc] using overTouched q hc⟩
    rw [← AList.mem_keys, ← AList.lookup_isSome, hc]
    rfl

theorem mild_frameRecover (oids : List Oid) (registry : Registry ρ) :
    Mild registry (WriterSystem.frameRecover oids registry) :=
  Mild.foldl mild_cacheTableInvalidate oids registry

theorem withdrawn_frameRecover {oids : List Oid} (backed : Backed registry)
    (overTouched : ∀ q, registry.cachedQueries.lookup fp = some q →
      ∃ oid ∈ oids, oid ∈ q.relationOids) :
    Withdrawn (WriterSystem.frameRecover oids registry) fp := by
  cases hc : registry.cachedQueries.lookup fp with
  | none =>
    exact (backed.withdrawn fun q found => by simp [hc] at found).mild
      (mild_frameRecover oids registry)
  | some q =>
    obtain ⟨oid, touched, hm⟩ := overTouched q hc
    refine withdrawn_foldl (p := fun registry => Backed registry ∧ ∀ q,
        registry.cachedQueries.lookup fp = some q → oid ∈ q.relationOids)
      mild_cacheTableInvalidate ?_ (fun _ fine => withdrawn_cacheTableInvalidate fine.1 fine.2)
      touched ⟨backed, ?_⟩
    · intro registry next mild fine
      refine ⟨mild.backed fine.1, fun q found => ?_⟩
      obtain ⟨old, found', -, oids, -⟩ := (mild.all fp).cached q found
      exact oids ▸ fine.2 old found'
    · intro o found
      rw [hc, some_inj] at found
      exact found ▸ hm

theorem mild_frameInvalidationsFlush (s : WriterSystem ρ) (policy : CachePolicy) :
    Mild s.registry (s.frameInvalidationsFlush policy) :=
  Mild.foldl (fun _ fp => mild_cacheQueryCdcInvalidate s.now policy fp) _ _

theorem withdrawn_frameInvalidationsFlush {s : WriterSystem ρ} {policy : CachePolicy}
    (backed : Backed s.registry) (hm : fp ∈ s.frameInvalidations)
    (loose : ∀ q, s.registry.cachedQueries.lookup fp = some q → q.pinned = false) :
    Withdrawn (s.frameInvalidationsFlush policy) fp := by
  refine withdrawn_foldl (p := fun registry => Backed registry ∧ ∀ q,
      registry.cachedQueries.lookup fp = some q → q.pinned = false)
    (fun _ fp => mild_cacheQueryCdcInvalidate s.now policy fp) ?_
    (fun _ fine => withdrawn_cacheQueryCdcInvalidate fine.1 s.now policy fine.2) hm
    ⟨backed, loose⟩
  intro registry next mild fine
  refine ⟨mild.backed fine.1, fun q found => ?_⟩
  obtain ⟨old, found', -, -, pinned, -⟩ := (mild.all fp).cached q found
  exact pinned ▸ fine.2 old found'

theorem mild_queryDispatch (now : Nat) (input : DecisionInput) (budget : Bool) :
    Mild registry (registry.queryDispatch now fp input budget) := by
  have old : ∀ view, (registry.queryDispatch now fp input budget).stateView.lookup
      fp = some view → view.state = .ready →
      ∃ old, registry.stateView.lookup fp = some old ∧ old.state = .ready ∧
        old.generation = view.generation := by
    intro view hf ready
    obtain ⟨unready, -⟩ | ⟨old, hb, rfl | ⟨hasTable, rfl⟩ | ⟨state, unready, rfl⟩⟩ :=
      lookup_queryDispatch hf
    · exact absurd ready unready
    · exact ⟨view, hb, ready, rfl⟩
    · exact ⟨old, hb, ready, rfl⟩
    · exact absurd ready unready
  refine .at (onlyAt_queryDispatch now input budget) ⟨old, ?_, ?_⟩ (by simp)
  · intro q hf
    exact ⟨q, by simpa using hf, rfl, rfl, rfl, id⟩
  · intro backed view hf ready
    obtain ⟨hb, shown, was, -⟩ := old view hf ready
    simpa using backed fp hb shown was

theorem mild_queryFailedCleanup : Mild registry (registry.queryFailedCleanup fp) :=
  .at onlyAt_queryFailedCleanup (.of_gone (lookup_erase _ _) (lookup_erase _ _)) rfl

theorem mild_staleEntryCleanup (hitDelta : Nat) :
    Mild registry (registry.staleEntryCleanup hitDelta fp) := by
  have old : ∀ view, (registry.staleEntryCleanup hitDelta fp).stateView.lookup
      fp = some view → view.state = .ready →
      registry.stateView.lookup fp = some view := by
    intro view hf ready
    obtain ⟨old, hb, rfl | ⟨state, unready, rfl⟩⟩ := lookup_staleEntryCleanup hf
    · exact hb
    · exact absurd ready unready
  refine .at (onlyAt_staleEntryCleanup hitDelta)
    ⟨fun view hf ready => ⟨view, old view hf ready, ready, rfl⟩, ?_, ?_⟩ rfl
  · intro q hf
    obtain same | ⟨gone, -⟩ := staleEntryCleanup_cached hitDelta
    · exact ⟨q, same ▸ hf, rfl, rfl, rfl, id⟩
    · rw [gone] at hf
      cases hf
  · intro backed view hf ready
    obtain ⟨q, hc, hv⟩ := backed fp view (old view hf ready) ready
    obtain same | ⟨-, stale⟩ := staleEntryCleanup_cached hitDelta
    · exact ⟨q, same.trans hc, hv⟩
    · rw [stale q hc] at hv
      cases hv

end Mild

section Invariant

/-- What is served of a query flagged at `lsn` was merged from a snapshot at or past it, and so
will be whatever can still be merged. -/
def Sound (s : WriterSystem ρ) (fp : Fingerprint) (lsn : Nat) : Prop :=
  (∀ view, s.registry.stateView.lookup fp = some view → view.state = .ready →
    ∃ snapshot, s.merged fp = some (view.generation, snapshot) ∧ lsn ≤ snapshot) ∧
  ∀ query, s.registry.cachedQueries.lookup fp = some query →
    query.invalidated = false → ∀ pop ∈ s.populations,
      pop.fingerprint = fp → pop.generation = query.generation →
      lsn ≤ pop.startedAt

structure Inv (s : WriterSystem ρ) : Prop where
  backed : Backed s.registry
  populations : ∀ pop ∈ s.populations, pop.generation ≤ s.registry.generationCounter ∧
      pop.startedAt ≤ s.originLsn ∧
      ∀ snapshot, pop.snapshotLsn = some snapshot → pop.startedAt ≤ snapshot
  batch : s.batchLastLsn ≤ s.originLsn
  applied : s.lastAppliedLsn ≤ s.settledLsn
  idle : s.frameState = .idle → s.frameInvalidations = []
  overTouched : ∀ fp ∈ s.frameInvalidations, ∀ query,
    s.registry.cachedQueries.lookup fp = some query →
      ∃ oid ∈ s.frameRelationOids, oid ∈ query.relationOids
  flagged : ∀ fp lsn, s.flagged fp = some lsn →
    lsn ≤ s.originLsn ∧ lsn ≤ s.settledLsn ∧ Sound s fp lsn

variable {s next : WriterSystem ρ} {fp : Fingerprint} {registry : Registry ρ}

theorem inv_new : Inv (WriterSystem.new : WriterSystem ρ) where
  backed fp view found := by simp [WriterSystem.new, new] at found
  populations pop inside := by simp [WriterSystem.new] at inside
  batch := le_rfl
  applied := le_rfl
  idle _ := rfl
  overTouched fp inside := by simp [WriterSystem.new] at inside
  flagged fp lsn found := by simp [WriterSystem.new] at found

theorem Withdrawn.sound (gone : Withdrawn s.registry fp) (lsn : Nat) : Sound s fp lsn := by
  refine ⟨fun view hf ready => absurd ready (gone.2 view hf), fun q hf hv => ?_⟩
  rw [gone.1 q hf] at hv
  cases hv

theorem Sound.mild {lsn : Nat} (sound : Sound s fp lsn)
    (mild : Mild s.registry registry) : Sound { s with registry } fp lsn := by
  constructor
  · intro view hf ready
    obtain ⟨old, hb, was, same⟩ := (mild.all fp).ready view hf ready
    exact same ▸ sound.1 old hb was
  · intro q hf hv pop hm own generation
    obtain ⟨old, hb, same, -, -, wasValid⟩ := (mild.all fp).cached q hf
    exact sound.2 old hb (wasValid hv) pop hm own (generation.trans same.symm)

theorem over_mild {invalidations : List Fingerprint}
    {oids : List Oid} (mild : Mild s.registry registry)
    (overTouched : ∀ fp ∈ invalidations, ∀ q, s.registry.cachedQueries.lookup fp = some q →
        ∃ oid ∈ oids, oid ∈ q.relationOids) :
    ∀ fp ∈ invalidations, ∀ q, registry.cachedQueries.lookup fp = some q →
        ∃ oid ∈ oids, oid ∈ q.relationOids := by
  intro fp hm q hf
  obtain ⟨old, hb, -, same, -⟩ := (mild.all fp).cached q hf
  exact same ▸ overTouched fp hm old hb

variable (inv : Inv s)
include inv

theorem Inv.withRegistry (mild : Mild s.registry registry) : Inv { s with registry } where
  backed := mild.backed inv.backed
  populations pop inside :=
    ⟨(inv.populations pop inside).1.trans mild.counter, (inv.populations pop inside).2⟩
  batch := inv.batch
  applied := inv.applied
  idle := inv.idle
  overTouched := over_mild mild inv.overTouched
  flagged fp lsn found :=
    ⟨(inv.flagged fp lsn found).1, (inv.flagged fp lsn found).2.1,
      (inv.flagged fp lsn found).2.2.mild mild⟩

theorem Inv.restart {q : CachedQuery ρ} (only : Registry.OnlyAt fp s.registry registry)
    (hc : registry.cachedQueries.lookup fp = some q)
    (generation : q.generation = s.registry.generationCounter + 1)
    (counter : registry.generationCounter = s.registry.generationCounter + 1)
    (ready : ∀ view, registry.stateView.lookup fp = some view → view.state = .ready →
      q.invalidated = false ∧ ∃ old, s.registry.stateView.lookup fp = some old ∧
        old.state = .ready ∧ old.generation = view.generation)
    (overTouched : fp ∈ s.frameInvalidations → ∃ oid ∈ s.frameRelationOids, oid ∈ q.relationOids) :
    Inv (WriterSystem.populationStart { s with registry } fp) := by
  have shape : WriterSystem.populationStart { s with registry } fp = { s with
        registry
        populations := ⟨fp, q.generation, s.originLsn, none⟩ :: s.populations } := by
    simp [WriterSystem.populationStart, hc]
  rw [shape]
  refine ⟨?_, ?_, inv.batch, inv.applied, inv.idle, ?_, ?_⟩
  · intro o view hf isReady
    by_cases he : o = fp
    · subst he
      exact ⟨q, hc, (ready view hf isReady).1⟩
    · obtain ⟨same, shown⟩ := only o he
      rw [same]
      exact inv.backed o view (shown ▸ hf) isReady
  · intro pop hm
    obtain rfl | old := mem_cons.mp hm
    · exact ⟨by simp [generation, counter], le_rfl, fun _ hf => by cases hf⟩
    · obtain ⟨b, rest⟩ := inv.populations pop old
      exact ⟨by rw [counter]; omega, rest⟩
  · intro o hm kept hf
    by_cases he : o = fp
    · subst he
      rw [hc, some_inj] at hf
      exact hf ▸ overTouched hm
    · exact inv.overTouched o hm kept ((only o he).1 ▸ hf)
  · intro o lsn hf
    obtain ⟨og, settled, sound⟩ := inv.flagged o lsn hf
    refine ⟨og, settled, ?_, ?_⟩
    · intro view shown isReady
      by_cases he : o = fp
      · subst he
        obtain ⟨-, old, hb, was, same⟩ := ready view shown isReady
        exact same ▸ sound.1 old hb was
      · exact sound.1 view ((only o he).2 ▸ shown) isReady
    · intro kept shown hv pop hm own same
      obtain rfl | old := mem_cons.mp hm
      · exact og
      · by_cases he : o = fp
        · -- an older population has an older generation
          subst he
          rw [hc, some_inj] at shown
          have b := (inv.populations pop old).1
          rw [same, ← shown, generation] at b
          omega
        · exact sound.2 kept ((only o he).1 ▸ shown) hv pop old own same

theorem Inv.queryReadmit : Inv (WriterSystem.populationStart { s with
      registry := s.registry.queryReadmit s.now fp } fp) := by
  cases hc : s.registry.cachedQueries.lookup fp with
  | none =>
    have same : s.registry.queryReadmit s.now fp = s.registry.generationAllocate := by
      simp [Registry.queryReadmit, hc]
    have bumped : Mild s.registry s.registry.generationAllocate :=
      ⟨fun _ => .of_same rfl rfl, Nat.le_succ _⟩
    have unstarted : WriterSystem.populationStart { s with
        registry := s.registry.generationAllocate } fp =
        { s with registry := s.registry.generationAllocate } := by
      simp [WriterSystem.populationStart, Registry.generationAllocate, hc]
    rw [same, unstarted]
    exact inv.withRegistry bumped
  | some old =>
    obtain ⟨again, counter, loading⟩ := Registry.queryReadmit_spec s.now hc
    exact inv.restart (Registry.onlyAt_queryReadmit _) again rfl counter
      (fun view hf ready => by simp [loading view hf] at ready)
      fun hm => inv.overTouched fp hm old hc

theorem Inv.limitBump (newMaxLimit : Option Nat) : Inv (WriterSystem.populationStart { s with
      registry := s.registry.limitBumpHandle s.now fp newMaxLimit }
      fp) := by
  cases hc : s.registry.cachedQueries.lookup fp with
  | none =>
    have same : s.registry.limitBumpHandle s.now fp newMaxLimit = s.registry := by
      simp [limitBumpHandle, hc]
    rw [same, WriterSystem.populationStart, hc]
    exact inv
  | some old =>
    obtain ⟨again, counter, loading⟩ := limitBumpHandle_spec s.now newMaxLimit hc
    exact inv.restart (onlyAt_limitBumpHandle _ _) again rfl counter
      (fun view hf ready => by simp [loading view hf] at ready)
      fun hm => inv.overTouched fp hm old hc

omit inv in
theorem mild_mvStateSet (registry : Registry ρ) (fp : Fingerprint) (res : QueryResolution ρ) :
    Mild registry (registry.mvStateSet fp res.shapeGate res.mvLimit) := by
  have old : ∀ view, (registry.mvStateSet fp res.shapeGate
      res.mvLimit).stateView.lookup fp = some view → view.state = .ready →
      ∃ old, registry.stateView.lookup fp = some old ∧ old.state = .ready ∧
        old.generation = view.generation := by
    intro view hf ready
    rw [mvStateSet, lookup_viewModify] at hf
    obtain ⟨old, hb, rfl⟩ := map_eq_some_iff.mp hf
    exact ⟨old, hb, ready, rfl⟩
  refine .at (onlyAt_viewModify _)
    ⟨old, fun q hf => ⟨q, hf, rfl, rfl, rfl, id⟩, fun backed view hf ready => ?_⟩ rfl
  obtain ⟨hb, shown, was, -⟩ := old view hf ready
  exact backed fp hb shown was

theorem Inv.admitted (pinned : Bool) (res : QueryResolution ρ)
    (overTouched : fp ∈ s.frameInvalidations →
      ∃ oid ∈ s.frameRelationOids, oid ∈ res.relationOids) :
    Inv (WriterSystem.populationStart { s with
      registry := (s.registry.mvStateSet fp res.shapeGate
        res.mvLimit).cachedQueryInsert s.now fp pinned res }
      fp) := by
  refine inv.restart ((onlyAt_viewModify _).trans (onlyAt_cachedQueryInsert _ _ _))
    (lookup_insert _) rfl rfl (fun view hf ready => ⟨rfl, ?_⟩) overTouched
  exact ((mild_mvStateSet s.registry fp res).all fp).ready view hf ready

theorem Inv.subsumed (pinned : Bool) (res : QueryResolution ρ) (unflagged : s.flagged fp = none)
    (overTouched : fp ∈ s.frameInvalidations →
      ∃ oid ∈ s.frameRelationOids, oid ∈ res.relationOids) :
    Inv { s with
      registry := (s.registry.mvStateSet fp res.shapeGate
        res.mvLimit).querySubsume s.now fp pinned res } := by
  set hi := (s.registry.mvStateSet fp res.shapeGate
    res.mvLimit).cachedQueryInsert s.now fp pinned res
  have stored : hi.cachedQueries.lookup fp = some
      ⟨s.registry.generationCounter + 1, res.relationOids, res.resolved,
        res.maxLimit, some s.now, false, pinned⟩ := lookup_insert _
  have only : Registry.OnlyAt fp s.registry (hi.queryReadyMark fp) :=
    (onlyAt_viewModify _).trans ((onlyAt_cachedQueryInsert _ _ _).trans onlyAt_queryReadyMark)
  have hc : (hi.queryReadyMark fp).cachedQueries.lookup fp = some
      ⟨s.registry.generationCounter + 1, res.relationOids, res.resolved,
        res.maxLimit, none, false, pinned⟩ := by
    rw [queryReadyMark, stored]
    exact lookup_insert _
  have counter : (hi.queryReadyMark fp).generationCounter = s.registry.generationCounter + 1 := by
    rw [queryReadyMark, stored]
    rfl
  show Inv { s with registry := hi.queryReadyMark fp }
  refine ⟨?_, ?_, inv.batch, inv.applied, inv.idle, ?_, ?_⟩
  · intro o view hf ready
    by_cases he : o = fp
    · subst he
      exact ⟨_, hc, rfl⟩
    · show ∃ q, (hi.queryReadyMark fp).cachedQueries.lookup o = _ ∧ _
      rw [(only o he).1]
      exact inv.backed o view ((only o he).2 ▸ hf) ready
  · intro pop hm
    obtain ⟨b, rest⟩ := inv.populations pop hm
    exact ⟨b.trans (counter ▸ Nat.le_succ _), rest⟩
  · intro o hm q hf
    by_cases he : o = fp
    · subst he
      rw [hc, some_inj] at hf
      exact hf ▸ overTouched hm
    · exact inv.overTouched o hm q ((only o he).1 ▸ hf)
  · intro o lsn hf
    have hne : o ≠ fp := by
      rintro rfl
      rw [unflagged] at hf
      cases hf
    obtain ⟨og, settled, sound⟩ := inv.flagged o lsn hf
    refine ⟨og, settled, fun view shown => sound.1 view ((only o hne).2 ▸ shown),
      fun q shown => sound.2 q ((only o hne).1 ▸ shown)⟩

theorem Inv.register (out : Registry.RegisterOutcome ρ) (calm : Calm s (.register fp out)) :
    Inv (registerCommand s fp out) := by
  unfold registerCommand
  by_cases stale : (s.registry.cachedQueries.lookup fp).any (·.invalidated) = true
  · have same : s.registry.queryRegister s.now fp out =
        s.registry.queryReadmit s.now fp := if_pos stale
    rw [if_pos stale, same]
    exact inv.queryReadmit
  · have hv := Bool.eq_false_iff.mpr stale
    have fresh : s.registry.queryRegister s.now fp out = _ := if_neg stale
    rw [if_neg stale, fresh]
    cases out with
    | failed => exact inv.withRegistry mild_queryFailedCleanup
    | subsumed pinned res =>
      exact inv.subsumed pinned res (calm hv).1 (calm hv).2
    | admitted pinned res => exact inv.admitted pinned res (calm hv)
    | checked res => exact inv.withRegistry (mild_mvStateSet _ _ res)

theorem Inv.merge {generation snapshot : Nat} {pop : Population}
    (hm : pop ∈ s.populations) (own : pop.fingerprint = fp)
    (same : pop.generation = generation) (took : pop.snapshotLsn = some snapshot)
    (allowed : populationFinalizeAllowed (s.registry.cachedQueries.lookup fp) generation = true) :
    Inv { s with
      registry := s.registry.queryReadyFinalize s.now fp
      populations := s.populations.erase pop
      merged := Function.update s.merged fp (some (generation, snapshot)) } := by
  obtain ⟨query, hc, current, hv⟩ := populationFinalizeAllowed_iff.mp allowed
  obtain ⟨kept, counter, served⟩ := queryReadyFinalize_spec s.now hc
  have only : Registry.OnlyAt fp s.registry (s.registry.queryReadyFinalize s.now fp) :=
    onlyAt_queryReadyFinalize _
  refine ⟨?_, ?_, inv.batch, inv.applied, inv.idle, ?_, ?_⟩
  · intro other view hf ready
    by_cases he : other = fp
    · subst he
      exact ⟨_, kept, hv⟩
    · show ∃ query, (s.registry.queryReadyFinalize _ _).cachedQueries.lookup other = _ ∧ _
      rw [(only other he).1]
      exact inv.backed other view ((only other he).2 ▸ hf) ready
  · intro other there
    obtain ⟨b, rest⟩ := inv.populations other (mem_of_mem_erase there)
    exact ⟨b.trans counter.ge, rest⟩
  · intro other flag query' hf
    by_cases he : other = fp
    · subst he
      rw [kept, some_inj] at hf
      exact hf ▸ inv.overTouched other flag query hc
    · exact inv.overTouched other flag query' ((only other he).1 ▸ hf)
  · intro other lsn hf
    obtain ⟨og, settled, sound⟩ := inv.flagged other lsn hf
    by_cases he : other = fp
    · subst he
      have late : lsn ≤ snapshot := (sound.2 query hc hv pop hm own
        (same.trans current.symm)).trans ((inv.populations pop hm).2.2 snapshot took)
      refine ⟨og, settled, fun view shown ready => ⟨snapshot, ?_, late⟩,
        fun query' shown fine other' there own' same' => ?_⟩
      · rw [served view shown, current]
        exact Function.update_self _ _ _
      · rw [kept, some_inj] at shown
        exact sound.2 query hc hv other' (mem_of_mem_erase there) own' (by rw [same', ← shown])
    · refine ⟨og, settled, fun view shown ready => ?_, fun query' shown fine other' there =>
          sound.2 query' ((only other he).1 ▸ shown) fine other' (mem_of_mem_erase there)⟩
      obtain ⟨snapshot', was, late⟩ := sound.1 view ((only other he).2 ▸ shown) ready
      exact ⟨snapshot', (Function.update_of_ne he _ _).trans was, late⟩

omit inv in
theorem mild_frameCommit (s : WriterSystem ρ) (deadlock : Bool) :
    Mild s.registry (s.frameCommit deadlock) := by
  unfold WriterSystem.frameCommit
  split
  · split
    · exact mild_frameRecover _ _
    · exact .refl _
  · exact mild_frameRecover _ _
  · exact .refl _
  · exact .refl _

/-- What a flush has taken out of service, before its commit and behind it. -/
def Flushing (s : WriterSystem ρ) : Prop :=
  ∀ flush, s.flushing = some flush → flush.lsn ≤ s.originLsn ∧
    (flush.committed = true ∨ s.frameState = .active ∨
        s.frameState = .txnOpen ∧ flush.deadlock = false →
      ∀ fp ∈ s.frameInvalidations, Withdrawn s.registry fp)

def Live (s : WriterSystem ρ) : Prop := Inv s ∧ Flushing s

omit inv in
theorem Flushing.withRegistry (flushing : Flushing s) (mild : Mild s.registry registry) :
    Flushing { s with registry } := by
  intro flush found
  obtain ⟨delivered, gone⟩ := flushing flush found
  exact ⟨delivered, fun far fp hm => (gone far fp hm).mild mild⟩

omit inv in
theorem Flushing.of_none (free : next.flushing = none) : Flushing next :=
  fun _ found => absurd (free.symm.trans found) nofun

theorem Inv.batchFlush {policy : CachePolicy} {deadlock : Bool} {lsn : Nat}
    (keepAlive : Option Nat) (calm : NoPinnedFlag s deadlock) (delivered : lsn ≤ s.originLsn) :
    Live (s.batchFlush policy deadlock lsn keepAlive) := by
  have flushed := mild_frameInvalidationsFlush s policy
  have mild : Mild s.registry (s.batchFlush policy deadlock lsn keepAlive).registry := by
    unfold WriterSystem.batchFlush
    dsimp only
    split
    · exact flushed
    · exact flushed
    · exact .refl _
    · exact .refl _
  have moved := inv.withRegistry mild
  refine ⟨⟨moved.backed, moved.populations, inv.batch, inv.applied, inv.idle, moved.overTouched,
    moved.flagged⟩, ?_⟩
  rintro _ ⟨⟩
  refine ⟨delivered, fun far fp hm => ?_⟩
  have open_ : s.frameState = .active ∨ s.frameState = .txnOpen ∧ deadlock = false :=
    far.resolve_left nofun
  have gone : Withdrawn (s.frameInvalidationsFlush policy) fp :=
    withdrawn_frameInvalidationsFlush inv.backed hm (calm open_ fp hm)
  unfold WriterSystem.batchFlush
  rcases open_ with active | ⟨txnOpen, -⟩
  · rw [active]
    exact gone
  · rw [txnOpen]
    exact gone

theorem Inv.commit {flush : Flush} (flushing : Flushing s) (running : s.flushing = some flush) :
    Live { s with
      registry := s.frameCommit flush.deadlock
      flushing := some { flush with committed := true } } := by
  have mild := mild_frameCommit s flush.deadlock
  have moved := inv.withRegistry mild
  obtain ⟨delivered, gone⟩ := flushing flush running
  refine ⟨⟨moved.backed, moved.populations, inv.batch, inv.applied, inv.idle, moved.overTouched,
    moved.flagged⟩, ?_⟩
  rintro _ ⟨⟩
  refine ⟨delivered, fun _ fp hm => ?_⟩
  have recovered := withdrawn_frameRecover inv.backed (inv.overTouched fp hm)
  change Withdrawn (s.frameCommit flush.deadlock) fp
  cases state : s.frameState with
  | idle =>
    have none : fp ∈ s.frameInvalidations := hm
    rw [inv.idle state] at none
    cases none
  | active => exact (gone (.inr (.inl state)) fp hm).mild mild
  | txnOpen =>
    cases answer : flush.deadlock with
    | false => exact answer ▸ (gone (.inr (.inr ⟨state, answer⟩)) fp hm).mild mild
    | true => simpa only [WriterSystem.frameCommit, state, if_true] using recovered
  | recovering => simpa only [WriterSystem.frameCommit, state] using recovered

theorem Inv.publish {flush : Flush} (flushing : Flushing s) (running : s.flushing = some flush)
    (committed : flush.committed = true) : Inv (s.publish flush) := by
  obtain ⟨delivered, gone⟩ := flushing flush running
  have grown : s.settledLsn ≤ (s.publish flush).settledLsn ∧
      flush.lsn ≤ (s.publish flush).settledLsn := by
    have applied := inv.applied
    unfold WriterSystem.publish
    cases flush.keepAlive <;> dsimp only [Option.elim] <;> split <;> omega
  refine ⟨inv.backed, inv.populations, inv.batch, ?_, fun _ => rfl, nofun, fun fp lsn hf => ?_⟩
  · exact max_le (inv.applied.trans grown.1) grown.2
  · simp only [WriterSystem.publish] at hf
    split at hf
    · next hm =>
      cases hf
      exact ⟨delivered, grown.2, Withdrawn.sound (gone (.inl committed) fp hm : Withdrawn _ fp) _⟩
    · obtain ⟨og, settled, sound⟩ := inv.flagged fp lsn hf
      exact ⟨og, settled.trans grown.1, sound⟩

theorem Inv.snapshot {take : Population → Population} (takes : ∀ pop,
      (take pop).fingerprint = pop.fingerprint ∧
      (take pop).generation = pop.generation ∧
      (take pop).startedAt = pop.startedAt ∧
      ((take pop).snapshotLsn = pop.snapshotLsn ∨ (take pop).snapshotLsn = some s.originLsn)) :
    Inv { s with populations := s.populations.map take } := by
  refine ⟨inv.backed, ?_, inv.batch, inv.applied, inv.idle, inv.overTouched, ?_⟩
  · intro _ hm
    obtain ⟨old, there, rfl⟩ := mem_map.mp hm
    obtain ⟨-, generations, started, took⟩ := takes old
    obtain ⟨b, og, late⟩ := inv.populations old there
    rw [generations, started]
    refine ⟨b, og, fun snapshot hf => ?_⟩
    rcases took with same | now
    · exact late snapshot (same.symm.trans hf)
    · cases now.symm.trans hf
      exact og
  · intro o lsn hf
    obtain ⟨og, settled, sound⟩ := inv.flagged o lsn hf
    refine ⟨og, settled, sound.1, fun q shown hv _ hm own same => ?_⟩
    obtain ⟨old, there, rfl⟩ := mem_map.mp hm
    obtain ⟨fingerprints, generations, started, -⟩ := takes old
    exact started ▸ sound.2 q shown hv old there (fingerprints.symm.trans own)
      (generations.symm.trans same)

theorem Inv.row {relationOid : Oid} {state : FrameState}
    (flags : List Fingerprint) (inFrame : state ≠ .idle) :
    Inv { s with
      frameState := state
      frameRelationOids := s.frameRelationOids.insert relationOid
      frameInvalidations :=
        flags.filter (isOver s.registry relationOid) ++ s.frameInvalidations } where
  backed := inv.backed
  populations := inv.populations
  batch := inv.batch
  applied := inv.applied
  idle isIdle := absurd isIdle inFrame
  overTouched fp hm query cached := by
    rcases mem_append.mp hm with flag | old
    · have overTouched := (mem_filter.mp flag).2
      rw [isOver, cached, any_some, decide_eq_true_iff] at overTouched
      exact ⟨relationOid, mem_insert_self, overTouched⟩
    · obtain ⟨oid, there, covers⟩ := inv.overTouched fp old query cached
      exact ⟨oid, mem_insert_of_mem there, covers⟩
  flagged := inv.flagged

omit inv in
theorem populationStart_flushing (s : WriterSystem ρ) (fp : Fingerprint) :
    (s.populationStart fp).flushing = s.flushing := by
  unfold WriterSystem.populationStart
  split <;> rfl

omit inv in
theorem registerCommand_flushing (s : WriterSystem ρ) (fp : Fingerprint)
    (out : Registry.RegisterOutcome ρ) : (registerCommand s fp out).flushing = s.flushing := by
  unfold registerCommand
  dsimp only
  split
  · exact populationStart_flushing _ _
  · cases out <;> first | exact populationStart_flushing _ _ | rfl

theorem Inv.command {ev : WriterEvent ρ} (calm : Calm s ev) (busy : ev.beside = false)
    (free : s.flushing = none) (hs : command s ev = some next) : Live next := by
  cases ev with
  | origin | dispatch | snapshot => cases busy
  | commit | publish => cases hs
  | register fp out =>
    cases hs
    exact ⟨inv.register out calm, .of_none ((registerCommand_flushing s fp out).trans free)⟩
  | readmission fp =>
    cases hs
    exact ⟨inv.queryReadmit, .of_none ((populationStart_flushing _ fp).trans free)⟩
  | limitBump fp newMaxLimit =>
    cases hs
    exact ⟨inv.limitBump newMaxLimit, .of_none ((populationStart_flushing _ fp).trans free)⟩
  | evict fp =>
    cases hs
    exact ⟨inv.withRegistry (mild_cacheQueryEvict _), .of_none free⟩
  | fail fp =>
    cases hs
    exact ⟨inv.withRegistry mild_queryFailedCleanup, .of_none free⟩
  | expire hitDelta fp =>
    cases hs
    exact ⟨inv.withRegistry (mild_staleEntryCleanup _), .of_none free⟩
  | merge fp generation =>
    obtain ⟨pop, hf, taken⟩ := bind_eq_some_iff.mp hs
    obtain ⟨snapshot, took, merges⟩ := bind_eq_some_iff.mp taken
    obtain ⟨⟨-, -, allowed⟩, he⟩ := ite_none_right_eq_some.mp merges
    have named := find?_some hf
    rw [Bool.and_eq_true, beq_iff_eq, beq_iff_eq] at named
    cases he
    exact ⟨inv.merge (mem_of_find?_eq_some hf) named.1 named.2 took allowed, .of_none free⟩
  | begin =>
    obtain ⟨-, he⟩ := ite_none_left_eq_some.mp hs
    cases he
    refine ⟨⟨inv.backed, inv.populations, inv.batch, inv.applied, fun isIdle => ?_,
      inv.overTouched, inv.flagged⟩, .of_none free⟩
    by_cases idle : s.frameState = .idle
    · exact inv.idle idle
    · exact absurd ((if_neg idle).symm.trans isIdle) idle
  | row relationOid flags writes =>
    obtain ⟨inFrame, ⟨⟩⟩ := ite_none_right_eq_some.mp hs
    refine ⟨inv.row flags ?_, .of_none free⟩
    cases writes <;> rcases inFrame with state | state <;> simp [state]
  | truncate relationOids =>
    obtain ⟨-, ⟨⟩⟩ := ite_none_right_eq_some.mp hs
    have moved := inv.withRegistry (mild_frameRecover relationOids s.registry)
    refine ⟨⟨moved.backed, moved.populations, moved.batch, moved.applied,
      fun isIdle => (nomatch isIdle), fun fp hm q hc => ?_, moved.flagged⟩, .of_none free⟩
    obtain ⟨oid, there, covers⟩ := moved.overTouched fp hm q hc
    exact ⟨oid, mem_append_right _ there, covers⟩
  | deadlock =>
    obtain ⟨-, ⟨⟩⟩ := ite_none_right_eq_some.mp hs
    exact ⟨⟨inv.backed, inv.populations, inv.batch, inv.applied,
      fun isIdle => (nomatch isIdle), inv.overTouched, inv.flagged⟩, .of_none free⟩
  | commitMark lsn flush policy deadlock =>
    obtain ⟨⟨-, delivered, -⟩, marks⟩ := ite_none_right_eq_some.mp hs
    have marked : Inv { s with
        frameOpen := false, batchFrames := s.batchFrames + 1, batchLastLsn := lsn } :=
      ⟨inv.backed, inv.populations, delivered, inv.applied, inv.idle, inv.overTouched, inv.flagged⟩
    by_cases flushes : flush = true ∨ s.frameState = .recovering
    · rw [if_pos flushes] at marks
      cases marks
      exact marked.batchFlush none (calm flushes) delivered
    · rw [if_neg flushes] at marks
      cases marks
      exact ⟨marked, .of_none free⟩
  | keepAliveMark lsn policy deadlock =>
    by_cases hm : s.frameOpen = true
    · rw [SettledRun.command, if_pos hm] at hs
      cases hs
      exact ⟨inv, .of_none free⟩
    · rw [SettledRun.command, if_neg hm] at hs
      obtain ⟨-, hs⟩ := ite_none_left_eq_some.mp hs
      split at hs
      · next batched =>
        cases hs
        exact inv.batchFlush (some lsn) (calm (Bool.eq_false_iff.mpr hm) batched) inv.batch
      · cases hs
        refine ⟨⟨inv.backed, inv.populations, inv.batch, inv.applied.trans (le_max_left _ _),
          inv.idle, inv.overTouched, fun fp i hf => ?_⟩, .of_none free⟩
        obtain ⟨og, settled, sound⟩ := inv.flagged fp i hf
        exact ⟨og, settled.trans (le_max_left _ _), sound⟩

theorem Inv.beside {ev : WriterEvent ρ} (flushing : Flushing s) (idle : ev.beside = true)
    (hs : SettledRun.command s ev = some next) : Live next := by
  cases ev with
  | origin lsn =>
    obtain ⟨later, ⟨⟩⟩ := ite_none_right_eq_some.mp hs
    refine ⟨⟨inv.backed, fun pop hm => ?_, inv.batch.trans later, inv.applied, inv.idle,
      inv.overTouched, fun fp i hf => ?_⟩, fun flush found => ?_⟩
    · obtain ⟨b, started, late⟩ := inv.populations pop hm
      exact ⟨b, started.trans later, late⟩
    · obtain ⟨hb, rest⟩ := inv.flagged fp i hf
      exact ⟨hb.trans later, rest⟩
    · obtain ⟨delivered, gone⟩ := flushing flush found
      exact ⟨delivered.trans later, gone⟩
  | dispatch fp input budget =>
    cases hs
    have mild : Mild s.registry (s.registry.queryDispatch s.now fp input budget) :=
      mild_queryDispatch _ _ _
    exact ⟨inv.withRegistry mild, flushing.withRegistry mild⟩
  | snapshot fp generation =>
    cases hs
    exact ⟨inv.snapshot fun pop => by split <;> simp, flushing⟩
  | _ => cases idle

theorem Inv.step {ev : WriterEvent ρ} (flushing : Flushing s) (calm : Calm s ev)
    (hs : step s ev = some next) : Live next := by
  by_cases commits : ev = .commit
  · subst commits
    obtain ⟨flush, running, hs⟩ := bind_eq_some_iff.mp hs
    obtain ⟨-, ⟨⟩⟩ := ite_none_left_eq_some.mp hs
    exact inv.commit flushing running
  by_cases publishes : ev = .publish
  · subst publishes
    obtain ⟨flush, running, hs⟩ := bind_eq_some_iff.mp hs
    obtain ⟨committed, ⟨⟩⟩ := ite_none_right_eq_some.mp hs
    exact ⟨inv.publish flushing running committed, .of_none rfl⟩
  obtain ⟨allowed, hs⟩ : ¬ (s.flushing.isSome = true ∧ ev.beside = false) ∧
      SettledRun.command s ev = some next := by
    cases ev with
    | commit => exact absurd rfl commits
    | publish => exact absurd rfl publishes
    | _ => exact ite_none_left_eq_some.mp hs
  cases aside : ev.beside with
  | true => exact inv.beside flushing aside hs
  | false =>
    have free : s.flushing = none := by
      simpa using fun running => allowed ⟨running, aside⟩
    exact inv.command calm aside free hs

omit inv

/-- What is served of a query that a published batch flagged was merged from a snapshot at or past
the batch, and the published position has reached the batch. -/
theorem settled_flag_out_of_service (events : List (WriterEvent ρ))
    (calm : Allowed step Calm (.new : WriterSystem ρ) events)
    (ran : runs step .new events = some s) (fp : Fingerprint) (lsn : Nat)
    (flagged : s.flagged fp = some lsn) :
    lsn ≤ s.settledLsn ∧ ∀ view, s.registry.stateView.lookup fp = some view → view.state = .ready →
        ∃ snapshot, s.merged fp = some (view.generation, snapshot) ∧ lsn ≤ snapshot := by
  have inv : Live s :=
    runs_invariant (fun _ _ _ (holds : Live _) allowed moved => holds.1.step holds.2 allowed moved)
      ⟨inv_new, .of_none rfl⟩ calm ran
  obtain ⟨-, settled, sound⟩ := inv.1.flagged fp lsn flagged
  exact ⟨settled, sound.1⟩

end Invariant

def request : DecisionInput := ⟨none, 1, .clock, false, 0⟩

def populated (pinned : Bool) : List (WriterEvent Unit) :=
  [.dispatch 0 request true, .register 0 (.admitted pinned ⟨[1], (), none, none, .gated⟩),
    .origin 5, .snapshot 0 1, .keepAliveMark 5 .clock false, .merge 0 1]

def flaggingFrame : List (WriterEvent Unit) :=
  [.origin 10, .begin, .row 1 [0] true, .commitMark 10 true .clock false, .dispatch 0 request true,
    .commit, .publish]

/-- A pinned query is still `Ready`, from the snapshot at 5, when the position 10 is published: its
readmission is only queued. -/
theorem pinned_query_served_past_settled : ∃ events : List (WriterEvent Unit), ∃ s view,
      runs step .new events = some s ∧ s.flagged 0 = some 10 ∧ s.settledLsn = 10 ∧
      s.registry.stateView.lookup 0 = some view ∧ view.state = .ready ∧
      s.merged 0 = some (view.generation, 5) :=
  ⟨populated true ++ flaggingFrame, _, _, rfl, rfl, rfl, rfl, rfl, rfl⟩

theorem readmitted_query_reads_past_flag : ∃ s view,
      runs step .new (populated false ++ flaggingFrame ++
        [.readmission 0, .snapshot 0 2, .merge 0 2]) = some s ∧
      s.flagged 0 = some 10 ∧
      s.registry.stateView.lookup 0 = some view ∧ view.state = .ready ∧
      10 ≤ s.settledLsn ∧
      ∃ snapshot, s.merged 0 = some (view.generation, snapshot) ∧ 10 ≤ snapshot := by
  have calm : Allowed step Calm (.new : WriterSystem Unit) (populated false ++ flaggingFrame ++
      [.readmission 0, .snapshot 0 2, .merge 0 2]) := by
    refine .cons rfl trivial (.cons rfl ?_ (.cons rfl trivial (.cons rfl trivial (.cons rfl ?_
      (.cons rfl trivial (.cons rfl trivial (.cons rfl trivial (.cons rfl trivial (.cons rfl ?_
        (.cons rfl trivial (.cons rfl trivial (.cons rfl trivial (.cons rfl trivial
          (.cons rfl trivial (.cons rfl trivial trivial)))))))))))))))
    · intro _ inside
      cases inside
    · intro _ batched
      cases batched
    · intro _ _ fp inside query cached
      obtain rfl := mem_singleton.mp inside
      cases cached
      rfl
  have result := settled_flag_out_of_service _ calm rfl 0 10 rfl
  exact ⟨_, _, rfl, rfl, rfl, rfl, result.1, result.2 _ rfl rfl⟩

end PgCache.Cache.SettledRun
