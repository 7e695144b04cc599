/- source: query/ast/fingerprint.rs, cache/query_cache/dispatch.rs, cache/query_cache/register.rs,
     cache/query_cache/coalesce.rs, cache/writer/registration/register.rs
   digest: Requests of sessions with their own search paths that share an entry by fingerprint, and
     when the relations of the entry are those each session means. -/
import PgCache.Cache.Entries
import PgCache.Cache.TableResolve
import PgCache.Data.Machine

set_option autoImplicit false

namespace PgCache.Cache.SessionRun

open Catalog Data.Keyed Data.Machine Maintenance
open Decision Mv Entries TableResolve Registry Option List AList

variable {ρ Q : Type}

/-- Queries without their limit: the table nodes in the order of the traversal and
`query_expr_fingerprint`, taken to tell queries with different table nodes apart. -/
structure SessionQueries (Q : Type) where
  nodes : Q → List TableNode
  fingerprint : Q → Fingerprint
  nodes_eq : ∀ query other, fingerprint query = fingerprint other → nodes query = nodes other

/-- `QueryRequest`: the query, and the search path of the session. `implicit` is not in the source:
the relations that Postgres finds before the path, in the session's temporary schema and in
`pg_catalog`. -/
structure Request (Q : Type) where
  query : Q
  searchPath : SearchPath
  implicit : List (String × Oid)
  deriving DecidableEq

structure RegisterCommand (Q : Type) where
  request : Request Q
  pinned : Bool
  admitAction : AdmitAction
  deriving DecidableEq

structure Notice where
  fingerprint : Fingerprint
  relations : List Oid
  deriving DecidableEq

structure Verdict where
  subsumed : Bool
  relationOids : List Oid
  maxLimit : Option Nat
  mvLimit : Option Nat
  shapeGate : ShapeGate

/-- The entries with the relations they were registered with. `claimed` is bookkeeping of the
statement: the search path a fingerprint was first asked for with. -/
structure SessionSystem (Q : Type) where
  registry : Registry (List Oid)
  tables : CacheTables
  commands : List (RegisterCommand Q)
  waiting : List (Request Q)
  notices : List Notice
  answers : List (Request Q × List Oid)
  claimed : Fingerprint → Option SearchPath
  now : Nat

def SessionSystem.new : SessionSystem Q := ⟨.new, ∅, [], [], [], [], fun _ => none, 0⟩

inductive SessionEvent (Q : Type) where
  | request (request : Request Q) (input : DecisionInput) (budget : Bool)
  /-- `pinned_queries_register`, for one query -/
  | pinned (query : Q)
  | register (command : RegisterCommand Q) (verdict : Verdict)
  | ready (fp : Fingerprint) (generation : Nat)
  /-- `waiting_drain_ready`; the waiters that are not `served` are forwarded -/
  | drain (notice : Notice) (served : List (Request Q))
  | readmission (fp : Fingerprint)
  | limitBump (fp : Fingerprint) (newMaxLimit : Option Nat)
  | invalidate (policy : CachePolicy) (fp : Fingerprint)
  | evict (fp : Fingerprint)
  | fail (fp : Fingerprint)
  | expire (hitDelta : Nat) (fp : Fingerprint)
  /-- an unreferenced cache table is dropped -/
  | dropTable (schema name : String)
  | tick

def claim (claimed : Fingerprint → Option SearchPath) (fp : Fingerprint)
    (path : SearchPath) : Fingerprint → Option SearchPath :=
  if (claimed fp).isSome then claimed else Function.update claimed fp (some path)

def hitAnswers (registry : Registry (List Oid)) (fp : Fingerprint) (request : Request Q) :
    List (Request Q × List Oid) :=
  match (registry.stateView.lookup fp).bind (·.resolved) with
  | some relations => [(request, relations)]
  | none => []

def registerOutcome (command : RegisterCommand Q) (verdict : Verdict) :
    Option (List Oid) → Registry.RegisterOutcome (List Oid)
  | none => .failed
  | some relations =>
    let resolution : QueryResolution (List Oid) :=
      ⟨verdict.relationOids, relations, verdict.maxLimit, verdict.mvLimit, verdict.shapeGate⟩
    if verdict.subsumed then .subsumed command.pinned resolution
    else
      match command.admitAction with
      | .admission => .admitted command.pinned resolution
      | .checkOnly => .checked resolution

def subsumedAnswers (command : RegisterCommand Q) (verdict : Verdict) :
    Option (List Oid) → List (Request Q × List Oid)
  | some relations =>
    if verdict.subsumed && !command.pinned then [(command.request, relations)] else []
  | none => []

def readyNotice (registry : Registry (List Oid)) (fp : Fingerprint) : List Notice :=
  match registry.cachedQueries.lookup fp with
  | some query => [⟨fp, query.resolved⟩]
  | none => []

section Step

variable [DecidableEq Q] (qs : SessionQueries Q) (origin : Origin) (s : SessionSystem Q)

def dispatch (request : Request Q) (input : DecisionInput) (budget : Bool) : SessionSystem Q :=
  let fp := qs.fingerprint request.query
  let decided := { s with
    registry := s.registry.queryDispatch s.now fp input budget
    claimed := claim s.claimed fp request.searchPath }
  match s.registry.decide fp input budget with
  | .hit =>
    { decided with answers := hitAnswers s.registry fp request ++ s.answers }
  | .coalesce => { decided with waiting := request :: s.waiting }
  | .register _ action => { decided with commands := ⟨request, false, action⟩ :: s.commands }
  | .limitBump _ | .forward _ => decided

/-- `query_register`. -/
def registerCommand (command : RegisterCommand Q) (verdict : Verdict) : SessionSystem Q :=
  let fp := qs.fingerprint command.request.query
  let handled := { s with commands := s.commands.erase command }
  if (s.registry.cachedQueries.lookup fp).any (·.invalidated) then
    { handled with registry := s.registry.queryReadmit s.now fp }
  else
    let resolved := queryResolve origin s.tables command.request.searchPath
      (qs.nodes command.request.query)
    { handled with
      registry := s.registry.queryRegister s.now fp (registerOutcome command verdict resolved.2)
      tables := resolved.1
      answers := subsumedAnswers command verdict resolved.2 ++ s.answers }

def step : SessionEvent Q → Option (SessionSystem Q)
  | .request request input budget => some (dispatch qs s request input budget)
  | .pinned query =>
    let fp := qs.fingerprint query
    some { s with
      registry := { s.registry with
        stateView := s.registry.stateView.insert fp ⟨.loading, 0, none, none, .new .skip none⟩ }
      commands := ⟨⟨query, ["public"], []⟩, true, .admission⟩ :: s.commands
      claimed := claim s.claimed fp ["public"] }
  | .register command verdict =>
    if command ∈ s.commands then some (registerCommand qs origin s command verdict)
    else none
  | .ready fp generation =>
    if populationFinalizeAllowed (s.registry.cachedQueries.lookup fp) generation then
      some { s with
        registry := s.registry.queryReadyFinalize s.now fp
        notices := readyNotice s.registry fp ++ s.notices }
    else none
  | .drain notice served =>
    if notice ∈ s.notices ∧ ∀ request ∈ served, request ∈ s.waiting ∧
        qs.fingerprint request.query = notice.fingerprint then
      some { s with
        notices := s.notices.erase notice
        waiting := s.waiting.filter fun request =>
          qs.fingerprint request.query ≠ notice.fingerprint
        answers := (served.map fun request => (request, notice.relations)) ++ s.answers }
    else none
  | .readmission fp =>
    some { s with registry := s.registry.queryReadmit s.now fp }
  | .limitBump fp newMaxLimit =>
    some { s with
      registry := s.registry.limitBumpHandle s.now fp newMaxLimit }
  | .invalidate policy fp =>
    some { s with
      registry := s.registry.cacheQueryCdcInvalidate s.now policy fp }
  | .evict fp =>
    some { s with registry := s.registry.cacheQueryEvict fp }
  | .fail fp =>
    some { s with registry := s.registry.queryFailedCleanup fp }
  | .expire hitDelta fp =>
    some { s with registry := s.registry.staleEntryCleanup hitDelta fp }
  | .dropTable schema name => some { s with tables := s.tables.erase (schema, name) }
  | .tick => some { s with now := s.now + 1 }

def SamePath (query : Q) (path : SearchPath) : Prop :=
  ∀ first, s.claimed (qs.fingerprint query) = some first →
    visiblePath origin (qs.nodes query) path = visiblePath origin (qs.nodes query) first

/-- The relation a table of the query is for Postgres. -/
def Request.meaning (request : Request Q) (node : TableNode) : Option Oid :=
  match node.schema with
  | none =>
    (request.implicit.lookup node.name).or (sessionMeaning origin request.searchPath node)
  | some _ => sessionMeaning origin request.searchPath node

/-- No unqualified name of the query is one of a temporary table or of a catalog table. -/
def Shown (request : Request Q) : Prop :=
  ∀ node ∈ qs.nodes request.query, node.schema = none → request.implicit.lookup node.name = none

/-- Sessions that share a fingerprint see its tables alike, in the schemas of their paths, and a
registration meets no cached namesake of a table. -/
def Calm : SessionEvent Q → Prop
  | .request request _ _ =>
    Shown qs request ∧ SamePath qs origin s request.query request.searchPath
  | .pinned query => SamePath qs origin s query ["public"]
  | .register command _ =>
    (s.registry.cachedQueries.lookup
      (qs.fingerprint command.request.query)).any (·.invalidated) = false →
      Unshadowed origin s.tables command.request.searchPath (qs.nodes command.request.query)
  | _ => True

end Step

section Stored

def Stores (registry : Registry ρ) (fp : Fingerprint) (resolved : ρ) : Prop :=
  (∃ query, registry.cachedQueries.lookup fp = some query ∧ query.resolved = resolved) ∨
    ∃ view, registry.stateView.lookup fp = some view ∧ view.resolved = some resolved

def Keeps (registry next : Registry ρ) : Prop :=
  ∀ fp resolved, Stores next fp resolved → Stores registry fp resolved

variable {registry middle next : Registry ρ} {fp : Fingerprint} {resolved : ρ}

theorem Keeps.trans (first : Keeps registry middle) (snd : Keeps middle next) :
    Keeps registry next :=
  fun fp resolved stored => first _ _ (snd fp resolved stored)

theorem Stores.of_onlyAt {o : Fingerprint} (only : Registry.OnlyAt fp registry next) (hne : o ≠ fp)
    (stored : Stores next o resolved) : Stores registry o resolved := by
  obtain ⟨hc, view⟩ := only o hne
  unfold Stores at stored ⊢
  rwa [hc, view] at stored

theorem Keeps.at (only : Registry.OnlyAt fp registry next)
    (here : ∀ resolved, Stores next fp resolved → Stores registry fp resolved) :
    Keeps registry next := by
  intro o resolved stored
  by_cases he : o = fp
  · subst he
    exact here resolved stored
  · exact stored.of_onlyAt only he

theorem keeps_viewModify {change : CachedQueryView ρ → CachedQueryView ρ}
    (same : ∀ view, (change view).resolved = view.resolved) :
    Keeps registry (registry.viewModify fp change) := by
  refine .at (onlyAt_viewModify _) fun resolved stored => ?_
  rcases stored with hc | ⟨view, hf, h⟩
  · exact .inl hc
  · rw [lookup_viewModify] at hf
    obtain ⟨old, hb, rfl⟩ := map_eq_some_iff.mp hf
    exact .inr ⟨old, hb, (same old).symm.trans h⟩

theorem keeps_rewrite {q old : CachedQuery ρ} {changed : Registry ρ}
    {state : CachedQueryState} {serving : QueryServing ρ}
    (hc : registry.cachedQueries.lookup fp = some old)
    (changedTo : changed.cachedQueries.lookup fp = some q)
    (same : q.resolved = old.resolved) (from' : serving.resolved = old.resolved)
    (only : Registry.OnlyAt fp registry (changed.stateViewWrite fp state serving)) :
    Keeps registry (changed.stateViewWrite fp state serving) := by
  refine .at only fun resolved stored => .inl ⟨old, hc, ?_⟩
  rcases stored with ⟨now, found, h⟩ | ⟨view, found, h⟩
  · have found' : changed.cachedQueries.lookup fp = some now := found
    rw [changedTo, some_inj] at found'
    rw [← same, found', h]
  · rw [lookup_stateViewWrite, some_inj] at found
    rw [← from', ← some_inj, ← h, ← found]

theorem keeps_readmission (now : Nat) : Keeps registry (registry.queryReadmit now fp) := by
  have only : Registry.OnlyAt fp registry (registry.queryReadmit now fp) :=
    onlyAt_queryReadmit now
  unfold queryReadmit at only ⊢
  split at only
  · exact fun _ _ stored => stored
  · rename_i old hc
    exact keeps_rewrite hc (lookup_insert _) rfl rfl only

theorem keeps_queryReadyMark : Keeps registry (registry.queryReadyMark fp) := by
  have only : Registry.OnlyAt fp registry (registry.queryReadyMark fp) :=
    onlyAt_queryReadyMark
  unfold queryReadyMark at only ⊢
  split at only
  · exact fun _ _ stored => stored
  · rename_i old hc
    exact keeps_rewrite hc (lookup_insert _) rfl rfl only

theorem keeps_queryReadyFinalize (now : Nat) :
    Keeps registry (registry.queryReadyFinalize now fp) := by
  have marked : Keeps registry (registry.queryReadyMark fp) := keeps_queryReadyMark
  refine marked.trans ?_
  unfold queryReadyFinalize mvPinnedBootstrap
  split
  · refine keeps_viewModify fun view => ?_
    split
    · split <;> rfl
    · rfl
  · exact fun _ _ stored => stored

theorem keeps_limitBumpHandle (now : Nat) (newMaxLimit : Option Nat) :
    Keeps registry (registry.limitBumpHandle now fp newMaxLimit) := by
  have only : Registry.OnlyAt fp registry (registry.limitBumpHandle now fp newMaxLimit) :=
    onlyAt_limitBumpHandle now newMaxLimit
  unfold limitBumpHandle at only ⊢
  split at only
  · exact fun _ _ stored => stored
  · rename_i old hc
    exact keeps_rewrite hc (lookup_insert _) rfl rfl only

theorem keeps_of_gone (only : Registry.OnlyAt fp registry next)
    (hc : next.cachedQueries.lookup fp = none)
    (view : next.stateView.lookup fp = none) : Keeps registry next := by
  refine .at only fun resolved stored => ?_
  simp [Stores, hc, view] at stored

theorem keeps_cacheQueryEvict : Keeps registry (registry.cacheQueryEvict fp) := by
  have only : Registry.OnlyAt fp registry (registry.cacheQueryEvict fp) :=
    onlyAt_cacheQueryEvict
  unfold cacheQueryEvict at only ⊢
  split at only
  · exact fun _ _ stored => stored
  · exact keeps_of_gone only (lookup_erase _ _) (lookup_erase _ _)

theorem keeps_queryFailedCleanup : Keeps registry (registry.queryFailedCleanup fp) :=
  keeps_of_gone onlyAt_queryFailedCleanup (lookup_erase _ _) (lookup_erase _ _)

theorem keeps_cacheQueryCdcInvalidate (now : Nat) (policy : CachePolicy) :
    Keeps registry (registry.cacheQueryCdcInvalidate now policy fp) := by
  unfold cacheQueryCdcInvalidate
  split
  · exact fun _ _ stored => stored
  · exact fun _ _ stored => stored
  · exact keeps_cacheQueryEvict
  · refine .at (onlyAt_queryInvalidatedMark _ _) fun resolved stored => ?_
    rcases stored with ⟨q, hf, h⟩ | ⟨view, hf, h⟩
    · simp only [queryInvalidatedMark, viewModify_cachedQueries, lookup_adjust, if_true] at hf
      obtain ⟨old, hb, rfl⟩ := map_eq_some_iff.mp hf
      exact .inl ⟨old, hb, h⟩
    · rw [queryInvalidatedMark, lookup_viewModify] at hf
      obtain ⟨old, hb, rfl⟩ := map_eq_some_iff.mp hf
      exact .inr ⟨old, hb, h⟩

theorem keeps_staleEntryCleanup (hitDelta : Nat) :
    Keeps registry (registry.staleEntryCleanup hitDelta fp) := by
  refine .at (onlyAt_staleEntryCleanup hitDelta) fun resolved stored => ?_
  rcases stored with ⟨q, hf, h⟩ | ⟨view, hf, h⟩
  · refine .inl ⟨q, ?_, h⟩
    rcases staleEntryCleanup_cached hitDelta with same | ⟨gone, -⟩
    · exact same.symm.trans hf
    · cases gone.symm.trans hf
  · obtain ⟨old, hb, rfl | ⟨state, -, rfl⟩⟩ := lookup_staleEntryCleanup hf
    · exact .inr ⟨_, hb, h⟩
    · exact .inr ⟨old, hb, h⟩

theorem keeps_insertView {view : CachedQueryView ρ} (empty : view.resolved = none) :
    Keeps registry { registry with stateView := registry.stateView.insert fp view } := by
  have only : Registry.OnlyAt fp registry
      { registry with stateView := registry.stateView.insert fp view } :=
    fun o far => ⟨rfl, by simp [far]⟩
  refine .at only fun resolved stored => ?_
  rcases stored with hc | ⟨now, hf, h⟩
  · exact .inl hc
  · rw [lookup_insert, some_inj] at hf
    rw [← hf, empty] at h
    cases h

theorem keeps_queryDispatch (now : Nat) (input : DecisionInput) (budget : Bool) :
    Keeps registry (registry.queryDispatch now fp input budget) := by
  unfold queryDispatch
  split
  · unfold mvDispatchDecide
    split
    · refine keeps_viewModify fun view => ?_
      split <;> rfl
    · exact fun _ _ stored => stored
  · unfold transitionApply
    split
    · exact fun _ _ stored => stored
    · split
      · exact keeps_insertView rfl
      · exact keeps_viewModify fun _ => rfl

theorem stores_cachedQueryInsert {now : Nat} {pinned : Bool} {res : QueryResolution ρ}
    (stored : Stores (registry.cachedQueryInsert now fp pinned res) fp
      resolved) : Stores registry fp resolved ∨ resolved = res.resolved := by
  rcases stored with ⟨q, hf, h⟩ | view
  · rw [cachedQueryInsert, lookup_insert, some_inj] at hf
    exact .inr (h.symm.trans (hf ▸ rfl))
  · exact .inl (.inr view)

theorem stores_queryRegister {now : Nat} {out : Registry.RegisterOutcome ρ}
    (stored : Stores (registry.queryRegister now fp out) fp resolved) :
    Stores registry fp resolved ∨ ∃ pinned res, resolved = res.resolved ∧
      (out = .subsumed pinned res ∨ out = .admitted pinned res) := by
  have reset : ∀ res : QueryResolution ρ, Keeps registry
      (registry.mvStateSet fp res.shapeGate res.mvLimit) :=
    fun res => keeps_viewModify fun _ => rfl
  unfold queryRegister at stored
  split at stored
  · exact .inl (keeps_readmission now _ _ stored)
  · cases out with
    | failed => exact .inl (keeps_queryFailedCleanup _ _ stored)
    | subsumed pinned res =>
      rcases stores_cachedQueryInsert (keeps_queryReadyMark _ _ stored) with old | new
      · exact .inl (reset res _ _ old)
      · exact .inr ⟨pinned, res, new, .inl rfl⟩
    | admitted pinned res =>
      rcases stores_cachedQueryInsert stored with old | new
      · exact .inl (reset res _ _ old)
      · exact .inr ⟨pinned, res, new, .inr rfl⟩
    | checked res => exact .inl (reset res _ _ stored)

end Stored

section Invariant

variable [DecidableEq Q] {qs : SessionQueries Q} {origin : Origin} {s next : SessionSystem Q}

def Means (qs : SessionQueries Q) (origin : Origin)
    (claimed : Fingerprint → Option SearchPath) (fp : Fingerprint)
    (relations : List Oid) : Prop :=
  ∃ path, claimed fp = some path ∧ ∀ query, qs.fingerprint query = fp →
    (qs.nodes query).map (sessionMeaning origin path) = relations.map some

def Agrees (qs : SessionQueries Q) (origin : Origin)
    (claimed : Fingerprint → Option SearchPath) (request : Request Q) : Prop :=
  Shown qs request ∧ ∃ path, claimed (qs.fingerprint request.query) = some path ∧
    visiblePath origin (qs.nodes request.query) request.searchPath =
      visiblePath origin (qs.nodes request.query) path

def Meant (qs : SessionQueries Q) (origin : Origin) (request : Request Q)
    (relations : List Oid) : Prop :=
  (qs.nodes request.query).map (request.meaning origin) = relations.map some

structure Inv (qs : SessionQueries Q) (origin : Origin) (s : SessionSystem Q) : Prop where
  within : Within origin s.tables
  stored : ∀ fp relations, Stores s.registry fp relations → Means qs origin s.claimed fp relations
  notices : ∀ notice ∈ s.notices, Means qs origin s.claimed notice.fingerprint notice.relations
  waiting : ∀ request ∈ s.waiting, Agrees qs origin s.claimed request
  commands : ∀ command ∈ s.commands, Agrees qs origin s.claimed command.request
  answers : ∀ answer ∈ s.answers, Meant qs origin answer.1 answer.2

omit [DecidableEq Q] in
theorem inv_new : Inv qs origin (.new : SessionSystem Q) where
  within schema name oid found := by simp [SessionSystem.new] at found
  stored fp relations stored := by
    simp [Stores, SessionSystem.new, new] at stored
  notices notice inside := by simp [SessionSystem.new] at inside
  waiting request inside := by simp [SessionSystem.new] at inside
  commands command inside := by simp [SessionSystem.new] at inside
  answers answer inside := by simp [SessionSystem.new] at inside

section Claims

variable {claimed : Fingerprint → Option SearchPath} {request : Request Q} {relations : List Oid}
  {fp : Fingerprint} {path : SearchPath}

omit [DecidableEq Q] in
theorem meaning_congr {o : SearchPath} {q : Q}
    (same : visiblePath origin (qs.nodes q) path = visiblePath origin (qs.nodes q) o) :
    (qs.nodes q).map (sessionMeaning origin path) = (qs.nodes q).map (sessionMeaning origin o) :=
  map_congr_left fun _ hm => sessionMeaning_congr hm same

omit [DecidableEq Q] in
theorem Shown.meaning (shown : Shown qs request) :
    (qs.nodes request.query).map (request.meaning origin) =
      (qs.nodes request.query).map (sessionMeaning origin request.searchPath) := by
  refine map_congr_left fun node hm => ?_
  unfold Request.meaning
  split
  · next bare => rw [shown node hm bare, none_or]
  · rfl

omit [DecidableEq Q] in
theorem Agrees.meant (agrees : Agrees qs origin claimed request)
    (means : Means qs origin claimed (qs.fingerprint request.query) relations) :
    Meant qs origin request relations := by
  obtain ⟨shown, path, first, same⟩ := agrees
  obtain ⟨path', first', all⟩ := means
  rw [first, some_inj] at first'
  subst first'
  exact shown.meaning.trans ((meaning_congr same).trans (all request.query rfl))

omit [DecidableEq Q] in
theorem Agrees.means (agrees : Agrees qs origin claimed request)
    (meant : Meant qs origin request relations) :
    Means qs origin claimed (qs.fingerprint request.query) relations := by
  obtain ⟨shown, path, first, same⟩ := agrees
  refine ⟨path, first, fun q he => ?_⟩
  rw [qs.nodes_eq q request.query he, ← meaning_congr same, ← shown.meaning]
  exact meant

theorem claim_of_some (first : claimed fp = some path) (o : Fingerprint)
    (otherPath : SearchPath) : claim claimed o otherPath fp = some path := by
  unfold claim
  split
  · exact first
  · rename_i unclaimed
    by_cases he : fp = o
    · subst he
      rw [first] at unclaimed
      exact absurd rfl unclaimed
    · rw [Function.update_of_ne he, first]

omit [DecidableEq Q] in
theorem Means.claim (means : Means qs origin claimed fp relations)
    (o : Fingerprint) (otherPath : SearchPath) :
    Means qs origin (claim claimed o otherPath) fp relations := by
  obtain ⟨path, first, all⟩ := means
  exact ⟨path, claim_of_some first o otherPath, all⟩

omit [DecidableEq Q] in
theorem Agrees.claim (agrees : Agrees qs origin claimed request)
    (o : Fingerprint) (otherPath : SearchPath) :
    Agrees qs origin (claim claimed o otherPath) request := by
  obtain ⟨shown, path, first, same⟩ := agrees
  exact ⟨shown, path, claim_of_some first o otherPath, same⟩

omit [DecidableEq Q] in
theorem agrees_claim (shown : Shown qs request)
    (same : SamePath qs origin s request.query request.searchPath) :
    Agrees qs origin
      (claim s.claimed (qs.fingerprint request.query) request.searchPath) request := by
  refine ⟨shown, ?_⟩
  cases first : s.claimed (qs.fingerprint request.query) with
  | some old => exact ⟨old, claim_of_some first _ _, same old first⟩
  | none =>
    refine ⟨request.searchPath, ?_, rfl⟩
    simp [SessionRun.claim, first]

end Claims

variable (inv : Inv qs origin s)
include inv

omit [DecidableEq Q] in
theorem Inv.withRegistry {registry : Registry (List Oid)}
    (keeps : Keeps s.registry registry) : Inv qs origin { s with registry } :=
  ⟨inv.within, fun fp relations stored =>
    inv.stored fp relations (keeps _ _ stored), inv.notices, inv.waiting, inv.commands,
    inv.answers⟩

omit [DecidableEq Q] in
theorem Inv.withClaim (fp : Fingerprint) (path : SearchPath) :
    Inv qs origin { s with claimed := claim s.claimed fp path } :=
  ⟨inv.within, fun _ _ stored => (inv.stored _ _ stored).claim _ _,
    fun _ hm => (inv.notices _ hm).claim _ _,
    fun _ hm => (inv.waiting _ hm).claim _ _,
    fun _ hm => (inv.commands _ hm).claim _ _, inv.answers⟩

omit [DecidableEq Q] in
theorem Inv.dispatch {request : Request Q} {input : DecisionInput} {budget : Bool}
    (calm : Calm qs origin s (.request request input budget)) :
    Inv qs origin (dispatch qs s request input budget) := by
  have agrees : Agrees qs origin (claim s.claimed (qs.fingerprint request.query)
      request.searchPath) request := agrees_claim calm.1 calm.2
  have kept : Keeps s.registry (s.registry.queryDispatch s.now
      (qs.fingerprint request.query) input budget) := keeps_queryDispatch _ _ _
  have hd := (inv.withRegistry kept).withClaim (qs.fingerprint request.query) request.searchPath
  simp only [SessionRun.dispatch]
  split
  · refine ⟨hd.within, hd.stored, hd.notices, hd.waiting, hd.commands, fun answer hm => ?_⟩
    rcases mem_append.mp hm with new | old
    · unfold hitAnswers at new
      split at new
      · rename_i relations held
        obtain rfl := mem_singleton.mp new
        obtain ⟨view, hf, h⟩ := bind_eq_some_iff.mp held
        exact agrees.meant ((inv.stored _ relations (.inr ⟨view, hf, h⟩)).claim _ _)
      · cases new
    · exact inv.answers answer old
  · refine ⟨hd.within, hd.stored, hd.notices, fun o hm => ?_, hd.commands, hd.answers⟩
    rcases mem_cons.mp hm with rfl | old
    · exact agrees
    · exact hd.waiting o old
  · refine ⟨hd.within, hd.stored, hd.notices, hd.waiting, fun command hm => ?_, hd.answers⟩
    rcases mem_cons.mp hm with rfl | old
    · exact agrees
    · exact hd.commands command old
  · exact hd
  · exact hd

theorem Inv.register {command : RegisterCommand Q} {verdict : Verdict}
    (waits : command ∈ s.commands)
    (calm : Calm qs origin s (.register command verdict)) :
    Inv qs origin (registerCommand qs origin s command verdict) := by
  have left : ∀ o ∈ s.commands.erase command, Agrees qs origin s.claimed o.request :=
    fun o hm => inv.commands o (mem_of_mem_erase hm)
  have agrees := inv.commands command waits
  simp only [registerCommand]
  split
  · have kept : Keeps s.registry (s.registry.queryReadmit s.now
        (qs.fingerprint command.request.query)) := keeps_readmission _
    have moved := inv.withRegistry kept
    exact ⟨moved.within, moved.stored, moved.notices, moved.waiting, left, moved.answers⟩
  · rename_i hv
    -- what is resolved now is what the session of the command means
    have resolves : ∀ relations, (queryResolve origin s.tables command.request.searchPath
        (qs.nodes command.request.query)).2 = some relations →
        Meant qs origin command.request relations := fun relations hf => agrees.1.meaning.trans
      (queryResolve_meaning inv.within (calm (Bool.eq_false_iff.mpr hv)) (Prod.ext rfl hf))
    refine ⟨within_queryResolve inv.within, fun fp relations stored => ?_, inv.notices,
      inv.waiting, left, fun answer hm => ?_⟩
    · by_cases he : fp = qs.fingerprint command.request.query
      · subst he
        rcases stores_queryRegister stored with old | ⟨pinned, res, rfl, out⟩
        · exact inv.stored _ relations old
        · refine agrees.means (resolves res.resolved ?_)
          cases hf : (queryResolve origin s.tables command.request.searchPath
              (qs.nodes command.request.query)).2 with
          | none => simp [hf, registerOutcome] at out
          | some resolved =>
            simp only [hf, registerOutcome] at out
            split at out
            · rcases out with same | same <;> cases same
              rfl
            · split at out <;> rcases out with same | same <;> cases same
              rfl
      · exact inv.stored fp relations (stored.of_onlyAt (onlyAt_queryRegister _ _) he)
    · rcases mem_append.mp hm with new | old
      · cases hf : (queryResolve origin s.tables command.request.searchPath
            (qs.nodes command.request.query)).2 with
        | none => simp [hf, subsumedAnswers] at new
        | some resolved =>
          simp only [hf, subsumedAnswers] at new
          split at new
          · obtain rfl := mem_singleton.mp new
            exact resolves resolved hf
          · cases new
      · exact inv.answers answer old

theorem Inv.step {ev : SessionEvent Q} (calm : Calm qs origin s ev)
    (hs : step qs origin s ev = some next) : Inv qs origin next := by
  cases ev with
  | request request input budget =>
    cases hs
    exact inv.dispatch calm
  | pinned q =>
    cases hs
    have fresh : Keeps s.registry { s.registry with
        stateView := s.registry.stateView.insert (qs.fingerprint q)
          ⟨.loading, 0, none, none, .new .skip none⟩ } := keeps_insertView rfl
    have hd := (inv.withRegistry fresh).withClaim (qs.fingerprint q) ["public"]
    refine ⟨hd.within, hd.stored, hd.notices, hd.waiting, fun command hm => ?_, hd.answers⟩
    rcases mem_cons.mp hm with rfl | old
    · have shown : Shown qs ⟨q, ["public"], []⟩ := fun _ _ _ => rfl
      exact agrees_claim shown calm
    · exact hd.commands command old
  | register command verdict =>
    obtain ⟨waits, ⟨⟩⟩ := ite_none_right_eq_some.mp hs
    exact inv.register waits calm
  | ready fp generation =>
    obtain ⟨-, ⟨⟩⟩ := ite_none_right_eq_some.mp hs
    have kept : Keeps s.registry (s.registry.queryReadyFinalize s.now fp) :=
      keeps_queryReadyFinalize _
    have moved := inv.withRegistry kept
    refine ⟨moved.within, moved.stored, fun notice hm => ?_, moved.waiting, moved.commands,
      moved.answers⟩
    rcases mem_append.mp hm with new | old
    · unfold readyNotice at new
      split at new
      · rename_i q hc
        obtain rfl := mem_singleton.mp new
        exact inv.stored fp q.resolved (.inl ⟨q, hc, rfl⟩)
      · cases new
    · exact inv.notices notice old
  | drain notice served =>
    obtain ⟨⟨told, all⟩, ⟨⟩⟩ := ite_none_right_eq_some.mp hs
    refine ⟨inv.within, inv.stored, fun o hm => inv.notices o (mem_of_mem_erase hm),
      fun request hm => inv.waiting request (mem_filter.mp hm).1, inv.commands,
      fun answer hm => ?_⟩
    rcases mem_append.mp hm with new | old
    · obtain ⟨request, there, rfl⟩ := mem_map.mp new
      obtain ⟨waits, own⟩ := all request there
      exact (inv.waiting request waits).meant (own ▸ inv.notices notice told)
    · exact inv.answers answer old
  | readmission fp =>
    cases hs
    exact inv.withRegistry (keeps_readmission _)
  | limitBump fp newMaxLimit =>
    cases hs
    exact inv.withRegistry (keeps_limitBumpHandle _ _)
  | invalidate policy fp =>
    cases hs
    exact inv.withRegistry (keeps_cacheQueryCdcInvalidate _ _)
  | evict fp =>
    cases hs
    exact inv.withRegistry keeps_cacheQueryEvict
  | fail fp =>
    cases hs
    exact inv.withRegistry keeps_queryFailedCleanup
  | expire hitDelta fp =>
    cases hs
    exact inv.withRegistry (keeps_staleEntryCleanup _)
  | dropTable schema name =>
    cases hs
    refine ⟨fun o name' oid hf => inv.within o name' oid ?_, inv.stored, inv.notices,
      inv.waiting, inv.commands, inv.answers⟩
    by_cases same : (o, name') = (schema, name)
    · rw [same, lookup_erase] at hf
      cases hf
    · rwa [lookup_erase_ne same] at hf
  | tick =>
    cases hs
    exact ⟨inv.within, inv.stored, inv.notices, inv.waiting, inv.commands, inv.answers⟩

omit inv

/-- What a request is served from is, for every table of its query, the relation its own session
means. -/
theorem served_relations_are_meant (qs : SessionQueries Q) (origin : Origin)
    (events : List (SessionEvent Q))
    (calm : Allowed (step qs origin) (Calm qs origin) .new events)
    (ran : runs (step qs origin) .new events = some s) (request : Request Q)
    (relations : List Oid) (served : (request, relations) ∈ s.answers) :
    (qs.nodes request.query).map (request.meaning origin) = relations.map some := by
  have inv : Inv qs origin s :=
    runs_invariant (fun _ _ _ holds allowed moved => holds.step allowed moved) inv_new calm ran
  exact inv.answers (request, relations) served

end Invariant

def tenants : Origin := fun schema name =>
  if name = "t" then
    if schema = "tenant1" then some ⟨1, true, true⟩
    else if schema = "tenant2" then some ⟨2, true, true⟩
    else none
  else none

def selectT : SessionQueries Unit where
  nodes _ := [⟨none, "t"⟩]
  fingerprint _ := 0
  nodes_eq _ _ _ := rfl

def input : DecisionInput := ⟨none, 1, .clock, false, 0⟩

def sharedEntry (path : SearchPath) : List (SessionEvent Unit) :=
  [.request ⟨(), ["tenant1"], []⟩ input true,
    .register ⟨⟨(), ["tenant1"], []⟩, false, .admission⟩ ⟨false, [1], none, none, .gated⟩,
    .request ⟨(), path, []⟩ input true, .ready 0 1, .drain ⟨0, [1]⟩ [⟨(), path, []⟩],
    .request ⟨(), path, []⟩ input true]

/-- The second tenant is served, coalesced and by a hit, from the table of the first. -/
theorem tenant_served_from_other_tenant :
    ∃ s, runs (step selectT tenants) .new (sharedEntry ["tenant2"]) = some s ∧
      s.answers = [(⟨(), ["tenant2"], []⟩, [1]), (⟨(), ["tenant2"], []⟩, [1])] ∧
      (selectT.nodes ()).map (Request.meaning tenants ⟨(), ["tenant2"], []⟩) = [some 2] :=
  ⟨_, rfl, rfl, rfl⟩

theorem same_tenant_shares_entry : ∃ s,
      runs (step selectT tenants) .new (sharedEntry ["app", "tenant1"]) = some s ∧
      (⟨(), ["app", "tenant1"], []⟩, [1]) ∈ s.answers ∧
      (selectT.nodes ()).map (Request.meaning tenants ⟨(), ["app", "tenant1"], []⟩) =
        [1].map some := by
  have calm : Allowed (step selectT tenants) (Calm selectT tenants) .new
      (sharedEntry ["app", "tenant1"]) := by
    refine .cons rfl ?_ (.cons rfl ?_ (.cons rfl ?_ (.cons rfl trivial (.cons rfl trivial
      (.cons rfl ?_ trivial)))))
    · refine ⟨fun _ _ _ => rfl, fun first claimed => ?_⟩
      cases claimed
    · intro _ node inside _ schema found
      obtain rfl := mem_singleton.mp inside
      obtain rfl : "tenant1" = schema := some_inj.mp found
      refine ⟨rfl, fun other onPath present => ?_⟩
      rcases present with cached | named
      · cases cached
      · cases mem_singleton.mp named
    · refine ⟨fun _ _ _ => rfl, fun first claimed => ?_⟩
      obtain rfl : ["tenant1"] = first := some_inj.mp claimed
      rfl
    · refine ⟨fun _ _ _ => rfl, fun first claimed => ?_⟩
      obtain rfl : ["tenant1"] = first := some_inj.mp claimed
      rfl
  exact ⟨_, rfl, mem_cons_self, served_relations_are_meant selectT tenants _ calm rfl
    ⟨(), ["app", "tenant1"], []⟩ [1] mem_cons_self⟩

end PgCache.Cache.SessionRun
