/- source: cache/query_cache/dispatch.rs, cache/query_cache/serve.rs, cache/query_cache/coalesce.rs,
     cache/query_cache/register.rs, cache/serve.rs, cache/writer/cdc/frame.rs
   digest: Requests decided on an entry and executed later, interleaved with flushes, merges and
     purges, and when the rows they return are those of one commit of the origin. -/
import PgCache.Cache.Entries
import PgCache.Data.Machine

set_option autoImplicit false

namespace PgCache.Cache.ServeRun

open Data.Machine Maintenance Decision Mv Entries Option List

variable {ρ Λ D R : Type}

/-- The statements over the committed rows `D` of the cache database, under the limit clause `Λ` of
a request, and the same queries on the origin as of a commit. -/
structure ServedQueries (Λ D R : Type) where
  /-- `limit_rows_needed` -/
  rowsNeeded : Λ → Option Nat
  cached : Fingerprint → MvServe → Λ → D → R
  origin : Fingerprint → Λ → Nat → R

structure ServeRequest (Λ : Type) where
  fingerprint : Fingerprint
  generation : Nat
  mv : MvServe
  limit : Λ
  appliedLsn : Nat
  deriving DecidableEq

/-- What a worker answered, with the last commit of the origin at that moment. -/
structure Answer (Λ R : Type) where
  request : ServeRequest Λ
  rows : R
  originLsn : Nat
  deriving DecidableEq

/-- What makes the dispatch side serve without a decision of its own: `WriterNotify::Ready`, with
the limit of the entry, or `SubsumptionResult::Subsumed`, after which no limit is tested. -/
structure Notice where
  fingerprint : Fingerprint
  generation : Nat
  maxLimit : Option Nat
  deriving DecidableEq

structure ServeSystem (ρ Λ D R : Type) where
  registry : Registry ρ
  notices : List Notice
  requests : List (ServeRequest Λ)
  answers : List (Answer Λ R)
  frameInvalidations : List Fingerprint
  db : D
  /-- the commit of the origin up to which batches are committed in the cache database -/
  rowsLsn : Nat
  appliedLsn : Nat
  originLsn : Nat
  now : Nat

def ServeSystem.new (db : D) : ServeSystem ρ Λ D R := ⟨.new, [], [], [], [], db, 0, 0, 0, 0⟩

inductive ServeEvent (ρ Λ D : Type) where
  /-- the origin commits up to a position -/
  | origin (lsn : Nat)
  | dispatch (fp : Fingerprint) (limit : Λ) (input : DecisionInput) (budget : Bool)
  /-- `waiting_drain_ready` or the subsumed arm of `subsumption_await` -/
  | answerNotice (notice : Notice) (limit : Λ)
  /-- a worker runs the statement of a request -/
  | execute (request : ServeRequest Λ)
  | register (fp : Fingerprint) (outcome : Registry.RegisterOutcome ρ)
  | ready (fp : Fingerprint) (generation : Nat)
  | readmission (fp : Fingerprint)
  | limitBump (fp : Fingerprint) (newMaxLimit : Option Nat)
  | mvState (fp : Fingerprint) (mv : MvMeta → MvMeta)
  | evict (fp : Fingerprint)
  | fail (fp : Fingerprint)
  | expire (hitDelta : Nat) (fp : Fingerprint)
  /-- a replayed row event flags a query -/
  | flag (fp : Fingerprint)
  /-- `frame_invalidations_flush` reaches a query -/
  | invalidate (policy : CachePolicy) (fp : Fingerprint)
  /-- the batch is committed, or its relations are truncated after `40P01` -/
  | commit (change : D → D) (lsn : Nat)
  /-- `applied_lsn_advance` -/
  | publish
  /-- a committed change that is no batch: a merge chunk, a purge, a build of a result -/
  | rows (change : D → D)
  | tick

/-- The backend `mv_dispatch_decide` selects. -/
def backend (mv : MvMeta) (now : Nat) (rowsNeeded : Option Nat) : MvServe :=
  match mvServeDecide mv now rowsNeeded with
  | .serve serve => serve
  | .needsSchedule _ => .sourceRow

def poolServe (qs : ServedQueries Λ D R) (s : ServeSystem ρ Λ D R)
    (fp : Fingerprint) (generation : Nat) (limit : Λ) : ServeRequest Λ :=
  let mv := match s.registry.stateView.lookup fp with
    | some view => backend view.mv s.now (qs.rowsNeeded limit)
    | none => .sourceRow
  ⟨fp, generation, mv, limit, s.appliedLsn⟩

def dispatched (qs : ServedQueries Λ D R) (s : ServeSystem ρ Λ D R)
    (fp : Fingerprint) (limit : Λ) (input : DecisionInput) (budget : Bool) :
    List (ServeRequest Λ) :=
  match s.registry.decide fp { input with rowsNeeded := qs.rowsNeeded limit }
      budget, s.registry.stateView.lookup fp with
  | .hit, some view =>
    if view.resolved.isSome then [poolServe qs s fp view.generation limit]
    else []
  | _, _ => []

def noticeOf (registry : Registry ρ) (fp : Fingerprint) (subsumed : Bool) : List Notice :=
  match registry.cachedQueries.lookup fp with
  | some query => [⟨fp, query.generation, if subsumed then none else query.maxLimit⟩]
  | none => []

def registerNotices (s : ServeSystem ρ Λ D R) (fp : Fingerprint)
    (outcome : Registry.RegisterOutcome ρ) : List Notice :=
  if (s.registry.cachedQueries.lookup fp).any (·.invalidated) then []
  else
    match outcome with
    | .subsumed .. =>
      noticeOf (s.registry.queryRegister s.now fp outcome) fp true
    | .failed | .admitted .. | .checked _ => []

section Step

variable [DecidableEq Λ] (qs : ServedQueries Λ D R) (s : ServeSystem ρ Λ D R)

def step : ServeEvent ρ Λ D → Option (ServeSystem ρ Λ D R)
  | .origin lsn => if s.originLsn ≤ lsn then some { s with originLsn := lsn } else none
  | .dispatch fp limit input budget =>
    some { s with
      registry := s.registry.queryDispatch s.now fp
        { input with rowsNeeded := qs.rowsNeeded limit } budget
      requests := dispatched qs s fp limit input budget ++ s.requests }
  | .answerNotice notice limit =>
    if notice ∈ s.notices ∧ limitIsSufficient notice.maxLimit (qs.rowsNeeded limit) then
      some { s with
        registry := s.registry.mvDispatchDecide s.now notice.fingerprint (qs.rowsNeeded limit)
        requests :=
          poolServe qs s notice.fingerprint notice.generation limit :: s.requests }
    else none
  | .execute request =>
    -- the worker does not look at the entry again
    if request ∈ s.requests then
      some { s with
        requests := s.requests.erase request
        answers := ⟨request, qs.cached request.fingerprint request.mv request.limit s.db,
          s.originLsn⟩ :: s.answers }
    else none
  | .register fp outcome =>
    some { s with
      registry := s.registry.queryRegister s.now fp outcome
      notices := registerNotices s fp outcome ++ s.notices }
  | .ready fp generation =>
    if populationFinalizeAllowed (s.registry.cachedQueries.lookup fp) generation then
      let finalized := s.registry.queryReadyFinalize s.now fp
      some { s with
        registry := finalized
        notices := noticeOf finalized fp false ++ s.notices }
    else none
  | .readmission fp =>
    some { s with registry := s.registry.queryReadmit s.now fp }
  | .limitBump fp newMaxLimit =>
    some { s with
      registry := s.registry.limitBumpHandle s.now fp newMaxLimit }
  | .mvState fp mv =>
    some { s with
      registry := s.registry.viewModify fp fun view =>
        { view with mv := mv view.mv } }
  | .evict fp =>
    some { s with registry := s.registry.cacheQueryEvict fp }
  | .fail fp =>
    some { s with registry := s.registry.queryFailedCleanup fp }
  | .expire hitDelta fp =>
    some { s with registry := s.registry.staleEntryCleanup hitDelta fp }
  | .flag fp =>
    some { s with frameInvalidations := s.frameInvalidations.insert fp }
  | .invalidate policy fp =>
    if fp ∈ s.frameInvalidations then
      some { s with
        registry := s.registry.cacheQueryCdcInvalidate s.now policy fp
        frameInvalidations := s.frameInvalidations.erase fp }
    else none
  | .commit change lsn =>
    if s.frameInvalidations = [] ∧ s.rowsLsn ≤ lsn ∧ lsn ≤ s.originLsn then
      some { s with db := change s.db, rowsLsn := lsn }
    else none
  | .publish => some { s with appliedLsn := s.rowsLsn }
  | .rows change => some { s with db := change s.db }
  | .tick => some { s with now := s.now + 1 }

def Offers (view : CachedQueryView ρ) (mv : MvServe) (limit : Λ) : Prop :=
  mv = .sourceRow ∨ ∃ plan, mv = .mv plan ∧ view.mv.state = .fresh ∧
    view.mv.servePlan = some plan ∧ limitIsSufficient view.mv.limit (qs.rowsNeeded limit) = true

def Stands (registry : Registry ρ) (fp : Fingerprint) (mv : MvServe) (limit : Λ) : Prop :=
  ∃ view, registry.stateView.lookup fp = some view ∧ view.state = .ready ∧
    limitIsSufficient view.maxLimit (qs.rowsNeeded limit) = true ∧
    Offers qs view mv limit

def Right : Prop :=
  ∀ fp mv limit, Stands qs s.registry fp mv limit →
    qs.cached fp mv limit s.db = qs.origin fp limit s.rowsLsn

def Maintained (event : ServeEvent ρ Λ D) : Prop :=
  ∀ next, step qs s event = some next → Right qs next

/-- No committed change passes a waiting request whose entry no longer stands, unless it leaves the
rows of the request's statement alone. -/
def Undisturbed (change : D → D) : Prop :=
  ∀ request ∈ s.requests, Stands qs s.registry request.fingerprint request.mv request.limit ∨
      qs.cached request.fingerprint request.mv request.limit (change s.db) =
        qs.cached request.fingerprint request.mv request.limit s.db

/-- The schedules on which a decided request still finds what it was decided on. -/
def Calm : ServeEvent ρ Λ D → Prop
  | .commit change _ | .rows change => Undisturbed qs s change
  | .answerNotice notice limit =>
    ∃ view, s.registry.stateView.lookup notice.fingerprint = some view ∧
      view.state = .ready ∧ limitIsSufficient view.maxLimit (qs.rowsNeeded limit) = true
  | _ => True

end Step

section Invariant

variable [DecidableEq Λ] {qs : ServedQueries Λ D R} {s next : ServeSystem ρ Λ D R}

def OneCommit (qs : ServedQueries Λ D R) (request : ServeRequest Λ) (rows : R) (last : Nat) :
    Prop :=
  ∃ point, request.appliedLsn ≤ point ∧ point ≤ last ∧
    rows = qs.origin request.fingerprint request.limit point

structure Inv (qs : ServedQueries Λ D R) (s : ServeSystem ρ Λ D R) : Prop where
  applied : s.appliedLsn ≤ s.rowsLsn
  delivered : s.rowsLsn ≤ s.originLsn
  right : Right qs s
  decided : ∀ request ∈ s.requests, request.appliedLsn ≤ s.rowsLsn
  requests : ∀ request ∈ s.requests, OneCommit qs request
    (qs.cached request.fingerprint request.mv request.limit s.db) s.originLsn
  answers : ∀ answer ∈ s.answers, OneCommit qs answer.request answer.rows answer.originLsn

omit [DecidableEq Λ] in
theorem inv_new (db : D) : Inv qs (.new db : ServeSystem ρ Λ D R) where
  applied := le_rfl
  delivered := le_rfl
  right fp mv limit stands := by
    obtain ⟨view, hf, -⟩ := stands
    simp [ServeSystem.new, Registry.new] at hf
  decided request inside := by simp [ServeSystem.new] at inside
  requests request inside := by simp [ServeSystem.new] at inside
  answers answer inside := by simp [ServeSystem.new] at inside

omit [DecidableEq Λ] in
theorem offers_backend (view : CachedQueryView ρ) (now : Nat) (limit : Λ) :
    Offers qs view (backend view.mv now (qs.rowsNeeded limit)) limit := by
  unfold backend mvServeDecide
  split
  · rename_i serve hd
    split at hd
    · rename_i plan fresh planned
      split at hd
      · rename_i enough
        cases hd
        exact .inr ⟨plan, rfl, fresh, planned, enough⟩
      · cases hd
        exact .inl rfl
    · split at hd <;> cases hd
      exact .inl rfl
    all_goals
      cases hd
      exact .inl rfl
  · exact .inl rfl

omit [DecidableEq Λ] in
theorem stands_poolServe {fp : Fingerprint} {view : CachedQueryView ρ} {limit : Λ}
    (generation : Nat) (hf : s.registry.stateView.lookup fp = some view)
    (ready : view.state = .ready)
    (enough : limitIsSufficient view.maxLimit (qs.rowsNeeded limit) = true) :
    Stands qs s.registry fp (poolServe qs s fp generation limit).mv limit := by
  refine ⟨view, hf, ready, enough, ?_⟩
  simp only [poolServe, hf]
  exact offers_backend view s.now limit

omit [DecidableEq Λ] in
theorem Inv.oneCommit {r : ServeRequest Λ} (inv : Inv qs s)
    (stands : Stands qs s.registry r.fingerprint r.mv r.limit)
    (hd : r.appliedLsn ≤ s.rowsLsn) :
    OneCommit qs r (qs.cached r.fingerprint r.mv r.limit s.db) s.originLsn :=
  ⟨s.rowsLsn, hd, inv.delivered, inv.right _ _ _ stands⟩

omit [DecidableEq Λ] in
theorem Inv.withRegistry {registry : Registry ρ} {notices : List Notice}
    {flags : List Fingerprint} (sent : List (ServeRequest Λ)) (inv : Inv qs s)
    (right : Right qs { s with
      registry, notices, frameInvalidations := flags, requests := sent ++ s.requests })
    (standing : ∀ request ∈ sent, request.appliedLsn = s.appliedLsn ∧
      Stands qs s.registry request.fingerprint request.mv request.limit) :
    Inv qs { s with
      registry, notices, frameInvalidations := flags, requests := sent ++ s.requests } where
  applied := inv.applied
  delivered := inv.delivered
  right := right
  decided request inside := by
    rcases mem_append.mp inside with new | old
    · exact (standing request new).1 ▸ inv.applied
    · exact inv.decided request old
  requests request inside := by
    rcases mem_append.mp inside with new | old
    · obtain ⟨now, stands⟩ := standing request new
      exact inv.oneCommit stands (now ▸ inv.applied)
    · exact inv.requests request old
  answers := inv.answers

omit [DecidableEq Λ] in
theorem Inv.withRows {change : D → D} {lsn : Nat} (inv : Inv qs s)
    (calm : Undisturbed qs s change) (grown : s.rowsLsn ≤ lsn)
    (delivered : lsn ≤ s.originLsn)
    (right : Right qs { s with db := change s.db, rowsLsn := lsn }) :
    Inv qs { s with db := change s.db, rowsLsn := lsn } where
  applied := inv.applied.trans grown
  delivered := delivered
  right := right
  decided request inside := (inv.decided request inside).trans grown
  requests request inside := by
    rcases calm request inside with stands | same
    · exact ⟨lsn, (inv.decided request inside).trans grown, delivered, right _ _ _ stands⟩
    · show OneCommit qs request (qs.cached _ _ _ (change s.db)) _
      rw [same]
      exact inv.requests request inside
  answers := inv.answers

omit [DecidableEq Λ] in
theorem standing_dispatched {fp : Fingerprint} {limit : Λ} {input : DecisionInput}
    {budget : Bool} {r : ServeRequest Λ}
    (sent : r ∈ dispatched qs s fp limit input budget) :
    r.appliedLsn = s.appliedLsn ∧ Stands qs s.registry r.fingerprint r.mv r.limit := by
  unfold dispatched at sent
  split at sent
  · rename_i view hit hf
    split at sent
    · obtain rfl := mem_singleton.mp sent
      obtain ⟨maxLimit, e, enough⟩ := (serveDecide_eq_hit_iff _ _ _).mp hit
      rw [hf, map_some, some_inj, EntrySnapshot.mk.injEq] at e
      obtain ⟨ready, rfl⟩ := e
      exact ⟨rfl, stands_poolServe _ hf ready enough⟩
    · cases sent
  · cases sent

theorem Inv.step {event : ServeEvent ρ Λ D} (inv : Inv qs s)
    (maintained : Maintained qs s event) (calm : Calm qs s event)
    (stepped : step qs s event = some next) : Inv qs next := by
  have right := maintained next stepped
  cases event with
  | origin lsn =>
    obtain ⟨later, ⟨⟩⟩ := ite_none_right_eq_some.mp stepped
    refine ⟨inv.applied, inv.delivered.trans later, right, inv.decided, fun request inside => ?_,
      inv.answers⟩
    obtain ⟨point, after, hb, same⟩ := inv.requests request inside
    exact ⟨point, after, hb.trans later, same⟩
  | dispatch fp limit input budget =>
    cases stepped
    exact inv.withRegistry _ right fun request sent => standing_dispatched sent
  | answerNotice notice limit =>
    obtain ⟨-, ⟨⟩⟩ := ite_none_right_eq_some.mp stepped
    obtain ⟨view, found, ready, enough⟩ := calm
    refine inv.withRegistry [_] right fun request sent => ?_
    obtain rfl := mem_singleton.mp sent
    exact ⟨rfl, stands_poolServe _ found ready enough⟩
  | execute request =>
    obtain ⟨waiting, ⟨⟩⟩ := ite_none_right_eq_some.mp stepped
    refine ⟨inv.applied, inv.delivered, right,
      fun other inside => inv.decided other (mem_of_mem_erase inside),
      fun other inside => inv.requests other (mem_of_mem_erase inside), fun answer inside => ?_⟩
    rcases mem_cons.mp inside with rfl | old
    · exact inv.requests request waiting
    · exact inv.answers answer old
  | ready fp generation =>
    obtain ⟨-, ⟨⟩⟩ := ite_none_right_eq_some.mp stepped
    exact inv.withRegistry [] right fun _ sent => nomatch sent
  | invalidate policy fp =>
    obtain ⟨-, ⟨⟩⟩ := ite_none_right_eq_some.mp stepped
    exact inv.withRegistry [] right fun _ sent => nomatch sent
  | commit change lsn =>
    obtain ⟨⟨-, grown, delivered⟩, ⟨⟩⟩ := ite_none_right_eq_some.mp stepped
    exact inv.withRows calm grown delivered right
  | publish =>
    cases stepped
    exact ⟨le_rfl, inv.delivered, right, inv.decided, inv.requests, inv.answers⟩
  | rows change =>
    cases stepped
    exact inv.withRows calm le_rfl inv.delivered right
  | tick =>
    cases stepped
    exact ⟨inv.applied, inv.delivered, right, inv.decided, inv.requests, inv.answers⟩
  | register | readmission | limitBump | mvState | evict | fail | expire | flag =>
    cases stepped
    exact inv.withRegistry [] right fun _ sent => nomatch sent

/-- The rows of every answer are the query's result on the origin as of one commit, not before what
was applied at the decision and not after the execution. -/
theorem answer_is_one_commit (qs : ServedQueries Λ D R) (db : D) (events : List (ServeEvent ρ Λ D))
    (maintained : Allowed (step qs) (Maintained qs) (.new db) events)
    (calm : Allowed (step qs) (Calm qs) (.new db) events)
    (ran : runs (step qs) (.new db) events = some s) (answer : Answer Λ R)
    (answered : answer ∈ s.answers) :
    ∃ point, answer.request.appliedLsn ≤ point ∧ point ≤ answer.originLsn ∧
      answer.rows = qs.origin answer.request.fingerprint answer.request.limit point := by
  have inv : Inv qs s :=
    runs_invariant (fun _ _ _ holds allowed moved => holds.step allowed.1 allowed.2 moved)
      (inv_new db) (maintained.and calm) ran
  exact inv.answers answer answered

end Invariant

def joinQueries : ServedQueries Unit (List Nat × List Nat) (List Nat) where
  rowsNeeded _ := none
  cached _ _ _ db := db.1.filter (· ∈ db.2)
  origin _ _ lsn := if lsn < 10 then [1] else [2]

def request : DecisionInput := ⟨none, 1, .clock, false, 0⟩

abbrev JoinEvent := ServeEvent Unit Unit (List Nat × List Nat)

def decidedHit : List JoinEvent :=
  [.dispatch 0 () request true, .register 0 (.admitted false ⟨[1, 2], (), none, none, .gated⟩),
    .rows fun _ => ([1], [1]), .ready 0 1, .dispatch 0 () request true]

variable {s : ServeSystem Unit Unit (List Nat × List Nat) (List Nat)}

theorem right_of_out (keys : s.registry.stateView.keys = [0])
    (out : (s.registry.stateView.lookup 0).map (·.state) ≠ some .ready) :
    Right joinQueries s := by
  rintro fp mv limit ⟨view, hf, ready, -⟩
  have hm : fp ∈ s.registry.stateView.keys :=
    AList.mem_keys.mp (AList.lookup_isSome.mp (hf ▸ rfl))
  rw [keys, mem_singleton] at hm
  subst hm
  rw [hf, map_some, ready] at out
  exact absurd rfl out

theorem right_of_rows (same : s.db.1.filter (· ∈ s.db.2) = if s.rowsLsn < 10 then [1] else [2]) :
    Right joinQueries s :=
  fun _ _ _ _ => same

theorem maintained_of {event : JoinEvent}
    {next : ServeSystem Unit Unit (List Nat × List Nat) (List Nat)}
    (stepped : step joinQueries s event = some next) (right : Right joinQueries next) :
    Maintained joinQueries s event := by
  intro other same
  rw [stepped] at same
  cases same
  exact right

def hitDecided : ServeSystem Unit Unit (List Nat × List Nat) (List Nat) where
  registry :=
    ⟨AList.insert 0 ⟨1, [1, 2], (), none, none, false, false⟩ ∅,
      AList.insert 0 ⟨.ready, 1, some (), none,
        ⟨.gated, .scheduled false, none, none, none, 0, none⟩⟩ ∅, 1, [1]⟩
  notices := [⟨0, 1, none⟩]
  requests := [⟨0, 1, .sourceRow, (), 0⟩]
  answers := []
  frameInvalidations := []
  db := ([1], [1])
  rowsLsn := 0
  appliedLsn := 0
  originLsn := 0
  now := 0

theorem runs_decidedHit : runs (step joinQueries) (.new ([], [])) decidedHit = some hitDecided :=
  rfl

theorem maintained_decidedHit :
    Allowed (step joinQueries) (Maintained joinQueries) (.new ([], [])) decidedHit :=
  .cons rfl (maintained_of rfl (right_of_out rfl (by decide))) (.cons rfl
    (maintained_of rfl (right_of_out rfl (by decide))) (.cons rfl
    (maintained_of rfl (right_of_rows rfl)) (.cons rfl (maintained_of rfl (right_of_rows rfl))
    (.cons rfl (maintained_of rfl (right_of_rows rfl)) trivial))))

theorem calm_decidedHit :
    Allowed (step joinQueries) (Calm joinQueries) (.new ([], [])) decidedHit := by
  refine .cons rfl trivial (.cons rfl trivial (.cons rfl ?_ (.cons rfl trivial
    (.cons rfl trivial trivial))))
  intro waiting hm
  cases hm

/-- Between the decision and the read a batch invalidates the join, since the row of `b` that the
new row needs is not cached, and commits its delete. The worker returns no row, which is the result
of no commit of the origin. -/
theorem invalidated_hit_mixes_commits : ∃ events : List JoinEvent, ∃ s answer,
      Allowed (step joinQueries) (Maintained joinQueries) (.new ([], [])) events ∧
      runs (step joinQueries) (.new ([], [])) events = some s ∧ answer ∈ s.answers ∧
      ∀ point, answer.rows ≠
        joinQueries.origin answer.request.fingerprint answer.request.limit point := by
  refine ⟨decidedHit ++ [.origin 10, .flag 0, .invalidate .clock 0,
    .commit (fun db => (db.1.erase 1, db.2)) 10, .execute ⟨0, 1, .sourceRow, (), 0⟩], _,
    ⟨⟨0, 1, .sourceRow, (), 0⟩, [], 10⟩, maintained_decidedHit.append runs_decidedHit ?_,
    (runs_append runs_decidedHit).trans rfl, mem_singleton.mpr rfl, ?_⟩
  · exact .cons rfl (maintained_of rfl (right_of_rows rfl)) (.cons rfl
      (maintained_of rfl (right_of_rows rfl)) (.cons rfl (maintained_of rfl (right_of_rows rfl))
      (.cons rfl (maintained_of rfl (right_of_out rfl (by decide))) (.cons rfl
      (maintained_of rfl (right_of_out rfl (by decide))) trivial))))
  · intro point
    simp only [joinQueries]
    split <;> simp

theorem maintained_hit_is_one_commit : ∃ s,
      runs (step joinQueries) (.new ([], [])) (decidedHit ++ [.origin 10,
        .commit (fun _ => ([2], [1, 2])) 10, .execute ⟨0, 1, .sourceRow, (), 0⟩, .publish]) =
          some s ∧
      (⟨⟨0, 1, .sourceRow, (), 0⟩, [2], 10⟩ : Answer Unit (List Nat)) ∈ s.answers ∧
      ∃ point, 0 ≤ point ∧ point ≤ 10 ∧ [2] = joinQueries.origin 0 () point := by
  have maintained : Allowed (step joinQueries) (Maintained joinQueries) hitDecided
      [.origin 10, .commit (fun _ => ([2], [1, 2])) 10, .execute ⟨0, 1, .sourceRow, (), 0⟩,
        .publish] :=
    .cons rfl (maintained_of rfl (right_of_rows rfl)) (.cons rfl
      (maintained_of rfl (right_of_rows rfl)) (.cons rfl (maintained_of rfl (right_of_rows rfl))
      (.cons rfl (maintained_of rfl (right_of_rows rfl)) trivial)))
  have calm : Allowed (step joinQueries) (Calm joinQueries) hitDecided
      [.origin 10, .commit (fun _ => ([2], [1, 2])) 10, .execute ⟨0, 1, .sourceRow, (), 0⟩,
        .publish] := by
    refine .cons rfl trivial (.cons rfl ?_ (.cons rfl trivial (.cons rfl trivial trivial)))
    intro waiting inside
    obtain rfl := mem_singleton.mp inside
    exact .inl ⟨_, rfl, rfl, rfl, .inl rfl⟩
  refine ⟨_, (runs_append runs_decidedHit).trans rfl, mem_singleton.mpr rfl, ?_⟩
  exact answer_is_one_commit joinQueries ([], []) _
    (maintained_decidedHit.append runs_decidedHit maintained)
    (calm_decidedHit.append runs_decidedHit calm) ((runs_append runs_decidedHit).trans rfl)
    ⟨⟨0, 1, .sourceRow, (), 0⟩, [2], 10⟩ (mem_singleton.mpr rfl)

end PgCache.Cache.ServeRun
