/- source: proxy/connection/transaction_isolation.rs, proxy/connection/relay.rs,
     proxy/connection/search_path_intercept.rs, proxy/search_path/mutations.rs,
     query/write.rs, query/ast/convert_raw/write.rs
   digest: What the proxy knows of the isolation level of the open transaction block, and the
     probes it sends for it. -/
import PgCache.Proxy.Connection

set_option autoImplicit false

namespace PgCache.Proxy.Isolation

open Connection

/-- `IsolationLevel`; `parse` reads READ UNCOMMITTED as READ COMMITTED. -/
inductive IsolationLevel where
  | readCommitted
  | repeatableRead
  | serializable
  deriving DecidableEq

inductive TransactionStatus where
  | idle
  | inTransaction
  | failed
  deriving DecidableEq

inductive IsolationEffect where
  | none
  | transaction (level : IsolationLevel)
  | sessionDefault (level : IsolationLevel)
  | sessionUnknown
  deriving DecidableEq

inductive TransactionBoundary where
  | begins
  | ends
  deriving DecidableEq

structure StatementEffects where
  isolation : IsolationEffect
  transaction : Option TransactionBoundary
  deriving DecidableEq

def StatementEffects.default : StatementEffects := ⟨.none, none⟩

inductive MutationKind where
  | searchPathSet
  | discardAll
  | txnEnd
  deriving DecidableEq

def MutationKind.piggybackable : MutationKind → Bool
  | .searchPathSet | .txnEnd => true
  | .discardAll => false

/-- How a change of default_transaction_isolation is written: as a value the parser reads, as
RESET ALL, as DISCARD ALL, or as RESET, SET … TO DEFAULT or `set_config`. -/
inductive DefaultText where
  | value
  | resetAll
  | discardAll
  | indirect
  deriving DecidableEq

inductive Statement where
  /-- BEGIN and START TRANSACTION -/
  | begin (level : Option IsolationLevel)
  /-- SET TRANSACTION and SET transaction_isolation; `readable` says that the parser reads the
  level as a value -/
  | setTransaction (level : IsolationLevel) (readable : Bool)
  /-- a change of default_transaction_isolation, SET LOCAL among them -/
  | setDefault (level : IsolationLevel) (text : DefaultText) (isLocal : Bool)
  | commit (chain : Bool)
  | rollback (chain : Bool)
  /-- every other statement -/
  | other (mutation : Option MutationKind)
  deriving DecidableEq

def stmtClassifyRaw : Statement → Option MutationKind
  | .setDefault _ .resetAll _ => some .searchPathSet
  | .setDefault _ .discardAll _ => some .discardAll
  | .commit _ | .rollback _ => some .txnEnd
  | .other mutation => mutation
  | .begin _ | .setTransaction _ _ | .setDefault _ _ _ => none

structure SearchPathMutations where
  any : Bool
  singlePiggybackable : Option MutationKind
  deriving DecidableEq

def searchPathMutationsRaw (statements : List Statement) : SearchPathMutations :=
  { any := statements.any fun statement => (stmtClassifyRaw statement).isSome
    singlePiggybackable :=
      match statements with
      | [statement] => (stmtClassifyRaw statement).filter MutationKind.piggybackable
      | _ => none }

inductive IsolationScope where
  | transaction
  | session
  deriving DecidableEq

def IsolationScope.effect : IsolationScope → Option IsolationLevel → IsolationEffect
  | .transaction, some level => .transaction level
  | .transaction, none => .transaction .serializable
  | .session, some level => .sessionDefault level
  | .session, none => .sessionUnknown

/-- `transaction_classify` for COMMIT and ROLLBACK: AND CHAIN re-enters a transaction. -/
def endBoundary (chain : Bool) : StatementEffects :=
  ⟨.none, some (if chain then .begins else .ends)⟩

def nonSelectClassify : Statement → StatementEffects
  | .begin none => ⟨.none, some .begins⟩
  | .begin (some level) => ⟨IsolationScope.transaction.effect (some level), some .begins⟩
  | .setTransaction level readable =>
    ⟨IsolationScope.transaction.effect (if readable then some level else none), none⟩
  | .setDefault level text isLocal =>
    ⟨IsolationScope.session.effect (if text = .value ∧ isLocal = false then some level else none),
      none⟩
  | .commit chain | .rollback chain => endBoundary chain
  | .other _ => .default

inductive IsolationState where
  | unknown
  | known (level : IsolationLevel)
  deriving DecidableEq

structure Tracker where
  transactionStatus : TransactionStatus
  sessionIsolation : IsolationState
  blockIsolation : IsolationState
  pendingBlockIsolation : Option IsolationLevel
  beginsForwarded : Nat
  isolationMutatedInBlock : Bool
  originIntercept : OriginIntercept
  /-- `search_path_state` is `Resolved` -/
  searchPathResolved : Bool
  searchPathJustPiggybackResolved : Bool
  searchPathAutoReported : Bool
  deriving DecidableEq

namespace Tracker

def new (reported : Bool) : Tracker :=
  ⟨.idle, .unknown, .unknown, none, 0, false, .none, reported, false, reported⟩

variable (t : Tracker)

def inTransaction : Bool :=
  t.transactionStatus ≠ .idle

def forwardingIntoBlock : Bool :=
  t.inTransaction || 0 < t.beginsForwarded

def transactionIsolationApply (level : IsolationLevel) (begins : Bool) : Tracker :=
  if level = .readCommitted then t
  else if begins then { t with pendingBlockIsolation := some level }
  else if t.forwardingIntoBlock then { t with blockIsolation := .known level }
  else t

def sessionIsolationSet (state : IsolationState) : Tracker :=
  { t with
    sessionIsolation := state
    isolationMutatedInBlock := t.isolationMutatedInBlock || t.forwardingIntoBlock }

def isolationEffectsApply (effects : StatementEffects) : Tracker :=
  let begins := effects.transaction = some .begins
  let t :=
    match effects.isolation with
    | .none => t
    | .transaction level => t.transactionIsolationApply level begins
    | .sessionDefault .readCommitted | .sessionUnknown => t.sessionIsolationSet .unknown
    | .sessionDefault level => t.sessionIsolationSet (.known level)
  if begins then { t with beginsForwarded := t.beginsForwarded + 1 } else t

inductive TransactionForwardReason where
  | failed
  | isolationUnknown
  | isolationStrict
  deriving DecidableEq

def transactionServeCheck : Except TransactionForwardReason Unit :=
  match t.transactionStatus with
  | .idle => .ok ()
  | .failed => .error .failed
  | .inTransaction =>
    match t.blockIsolation with
    | .known .readCommitted => .ok ()
    | .known _ => .error .isolationStrict
    | .unknown => .error .isolationUnknown

def blockEnter : Tracker :=
  { t with
    blockIsolation :=
      match t.pendingBlockIsolation with
      | some level => .known level
      | none => t.sessionIsolation
    pendingBlockIsolation := none
    beginsForwarded := t.beginsForwarded - 1 }

def blockExit : Tracker :=
  { t with
    blockIsolation := .unknown
    isolationMutatedInBlock := false
    sessionIsolation :=
      if t.isolationMutatedInBlock then .unknown else t.sessionIsolation }

def isolationBlockTransition (previous : TransactionStatus) : Tracker :=
  match decide (previous ≠ .idle), t.inTransaction with
  | false, true => t.blockEnter
  | true, false => t.blockExit
  | _, _ => t

def isolationProbeNeeded : Bool :=
  t.sessionIsolation = .unknown && !t.inTransaction

def isolationProbeInject : Tracker × Option Probe :=
  if t.isolationProbeNeeded ∧ t.originIntercept = .none then
    ({ t with originIntercept := .defaultTransactionIsolation }, some .isolation)
  else (t, none)

def sessionDiscoveryInject : Tracker × Option Probe :=
  if t.originIntercept ≠ .none then (t, none)
  else if t.searchPathResolved = false then
    ({ t with originIntercept := .searchPath }, some .searchPath)
  else t.isolationProbeInject

/-- The probe of `write_log_maintain`: `ready` says that the log holds a write without an LSN and
that no request is on its way. -/
def writeLogMaintain (ready : Bool) : Tracker × Option Probe :=
  if ready ∧ t.inTransaction = false ∧ t.originIntercept = .none then
    ({ t with originIntercept := .walLsnProbe }, some .walLsn)
  else (t, none)

def searchPathResetNeeded (wasInTransaction : Bool) : Bool :=
  (wasInTransaction && !t.inTransaction) &&
    !(t.searchPathJustPiggybackResolved || t.searchPathAutoReported)

/-- `ready_for_query_handle` up to the block transition. -/
def statusReceive (status : TransactionStatus) : Tracker :=
  let reset := { t with transactionStatus := status }.searchPathResetNeeded t.inTransaction
  { t with
    transactionStatus := status
    searchPathResolved := t.searchPathResolved && !reset
    searchPathJustPiggybackResolved := false }

def readyForQueryHandle (status : TransactionStatus) : Tracker × Option Probe :=
  ((t.statusReceive status).isolationBlockTransition t.transactionStatus).sessionDiscoveryInject

structure Message where
  messageType : PgBackendMessageType
  level : Option IsolationLevel
  deriving DecidableEq

/-- `origin_intercept_handle` on a message before the `ReadyForQuery`. -/
def messageHandle (msg : Message) : Tracker :=
  let isRow := msg.messageType = .dataRows
  let inShow := t.originIntercept = .trailingShowSearchPath .inShow
  { t with
    originIntercept := (originInterceptHandle t.originIntercept msg.messageType).2
    sessionIsolation :=
      if isRow ∧ t.originIntercept = .defaultTransactionIsolation then
        msg.level.elim t.sessionIsolation .known
      else t.sessionIsolation
    searchPathResolved :=
      t.searchPathResolved || decide (isRow ∧ (inShow ∨ t.originIntercept = .searchPath))
    searchPathJustPiggybackResolved :=
      t.searchPathJustPiggybackResolved || decide (isRow ∧ inShow) }

/-- `handle_origin_message` over an answer, with whether its `ReadyForQuery` is swallowed and the
SHOW that is sent at it; a swallowed one is followed by `intercept_ready_followup`. -/
def answerHandle (messages : List Message) (status : TransactionStatus) :
    Tracker × Bool × Option Probe :=
  let t := messages.foldl messageHandle t
  let (consumed, intercept) := originInterceptHandle t.originIntercept .readyForQuery
  let t := { t with originIntercept := intercept }
  let (t, probe) := if consumed then t.isolationProbeInject else t.readyForQueryHandle status
  (t, consumed, probe)

/-- `search_path_inspect_query`, with whether `; SHOW search_path` is appended to the query. -/
def searchPathInspectQuery (mutations : SearchPathMutations) : Tracker × Bool :=
  if t.searchPathAutoReported then (t, false)
  else
    let t := { t with searchPathResolved := t.searchPathResolved && !mutations.any }
    if mutations.singlePiggybackable.isSome ∧ t.originIntercept = .none then
      ({ t with originIntercept := .trailingShowSearchPath .preShow }, true)
    else (t, false)

def searchPathParseInspect (mutations : SearchPathMutations) : Tracker :=
  { t with
    searchPathResolved :=
      t.searchPathResolved && (t.searchPathAutoReported || !mutations.any) }

def lazyParseInstall (needed : Bool) : Tracker :=
  if needed ∧ t.originIntercept = .none then { t with originIntercept := .lazyParseInline } else t

def SameProbe (t next : Tracker) : Prop :=
  next.originIntercept = t.originIntercept ∨
    next.originIntercept.swallows = false ∧ t.originIntercept.swallows = false

structure Kept (t next : Tracker) : Prop where
  status : next.transactionStatus = t.transactionStatus
  session : next.sessionIsolation = t.sessionIsolation
  block : next.blockIsolation = t.blockIsolation
  pending : next.pendingBlockIsolation = t.pendingBlockIsolation
  intercept : SameProbe t next

structure Tightened (t next : Tracker) : Prop where
  status : next.transactionStatus = t.transactionStatus
  intercept : SameProbe t next
  session : next.sessionIsolation = .known .readCommitted →
    t.sessionIsolation = .known .readCommitted
  block : next.blockIsolation = .known .readCommitted →
    t.blockIsolation = .known .readCommitted
  pending : next.pendingBlockIsolation = some .readCommitted →
    t.pendingBlockIsolation = some .readCommitted

variable {t} {middle next : Tracker}

theorem SameProbe.trans (first : SameProbe t middle) (snd : SameProbe middle next) :
    SameProbe t next := by
  rcases first with same | ⟨calm, was⟩
  · rw [SameProbe, ← same]
    exact snd
  · rcases snd with same | ⟨still, _⟩
    · exact .inr ⟨same ▸ calm, was⟩
    · exact .inr ⟨still, was⟩

theorem Kept.trans (first : Kept t middle) (snd : Kept middle next) : Kept t next :=
  ⟨snd.status.trans first.status, snd.session.trans first.session, snd.block.trans first.block,
    snd.pending.trans first.pending, first.intercept.trans snd.intercept⟩

theorem Kept.tightened (kept : Kept t next) : Tightened t next :=
  ⟨kept.status, kept.intercept, kept.session.symm.trans, kept.block.symm.trans,
    kept.pending.symm.trans⟩

theorem Tightened.refl (t : Tracker) : Tightened t t :=
  ⟨rfl, .inl rfl, id, id, id⟩

theorem Tightened.trans (first : Tightened t middle) (snd : Tightened middle next) :
    Tightened t next :=
  ⟨snd.status.trans first.status, first.intercept.trans snd.intercept,
    first.session ∘ snd.session, first.block ∘ snd.block, first.pending ∘ snd.pending⟩

variable (t)

private theorem transactionIsolationApply_tightens (level : IsolationLevel)
    (begins : Bool) : Tightened t (t.transactionIsolationApply level begins) := by
  unfold transactionIsolationApply
  split
  · exact .refl t
  · next strict =>
    split
    · exact ⟨rfl, .inl rfl, id, id, fun same => absurd (Option.some_inj.mp same) strict⟩
    · split
      · exact ⟨rfl, .inl rfl, id, fun same => absurd (IsolationState.known.inj same) strict, id⟩
      · exact .refl t

private theorem sessionIsolationSet_tightens {state : IsolationState}
    (strict : state ≠ .known .readCommitted) : Tightened t (t.sessionIsolationSet state) :=
  ⟨rfl, .inl rfl, fun same => absurd same strict, id, id⟩

theorem isolationEffectsApply_tightens (effects : StatementEffects) :
    Tightened t (t.isolationEffectsApply effects) := by
  have counted : ∀ next : Tracker, Tightened t next → ∀ begins : Prop, [Decidable begins] →
      Tightened t
        (if begins then { next with beginsForwarded := next.beginsForwarded + 1 } else next) := by
    intro next tightened begins _
    split
    · exact ⟨tightened.status, tightened.intercept, tightened.session, tightened.block,
        tightened.pending⟩
    · exact tightened
  refine counted _ ?_ _
  split
  · exact .refl t
  · exact transactionIsolationApply_tightens t _ _
  · exact sessionIsolationSet_tightens t nofun
  · exact sessionIsolationSet_tightens t nofun
  · next strict _ =>
    refine sessionIsolationSet_tightens t fun same => ?_
    exact strict (IsolationState.known.inj same)

theorem kept_searchPathInspectQuery (mutations : SearchPathMutations) :
    Kept t (t.searchPathInspectQuery mutations).1 := by
  unfold searchPathInspectQuery
  split
  · exact ⟨rfl, rfl, rfl, rfl, .inl rfl⟩
  · dsimp only
    split
    · next free => exact ⟨rfl, rfl, rfl, rfl, .inr ⟨rfl, by rw [free.2]; rfl⟩⟩
    · exact ⟨rfl, rfl, rfl, rfl, .inl rfl⟩

theorem kept_lazyParseInstall (needed : Bool) : Kept t (t.lazyParseInstall needed) := by
  unfold lazyParseInstall
  split
  · next free => exact ⟨rfl, rfl, rfl, rfl, .inr ⟨rfl, by rw [free.2]; rfl⟩⟩
  · exact ⟨rfl, rfl, rfl, rfl, .inl rfl⟩

variable {t}

theorem kept_messageHandle (calm : t.originIntercept.swallows = false) {msg : Message}
    (hm : msg.messageType ≠ .readyForQuery) : Kept t (t.messageHandle msg) := by
  refine ⟨rfl, if_neg fun read => ?_, rfl, rfl, .inr ⟨?_, calm⟩⟩
  · rw [read.2] at calm
    cases calm
  · exact (originInterceptHandle_type _ hm).1.trans calm

structure Sends (t : Tracker) (result : Tracker × Option Probe) : Prop where
  unsent : result.2 = none → result.1 = t
  sent : ∀ probe, result.2 = some probe →
    t.originIntercept = .none ∧ result.1 = { t with originIntercept := probe.intercept } ∧
      (probe ≠ .searchPath → t.inTransaction = false)

variable (t)

theorem sends_isolationProbeInject : Sends t t.isolationProbeInject := by
  unfold isolationProbeInject
  split
  · next needed =>
    refine ⟨nofun, fun probe sent => ?_⟩
    cases sent
    have outside := (Bool.and_eq_true_iff.mp needed.1).2
    exact ⟨needed.2, rfl, fun _ => Bool.not_eq_true' _ ▸ outside⟩
  · exact ⟨fun _ => rfl, nofun⟩

theorem sends_sessionDiscoveryInject : Sends t t.sessionDiscoveryInject := by
  unfold sessionDiscoveryInject
  split
  · exact ⟨fun _ => rfl, nofun⟩
  · next free =>
    split
    · refine ⟨nofun, fun probe sent => ?_⟩
      cases sent
      exact ⟨not_not.mp free, rfl, fun other => absurd rfl other⟩
    · exact sends_isolationProbeInject t

theorem sends_writeLogMaintain (ready : Bool) : Sends t (t.writeLogMaintain ready) := by
  unfold writeLogMaintain
  split
  · next free =>
    refine ⟨nofun, fun probe sent => ?_⟩
    cases sent
    exact ⟨free.2.2, rfl, fun _ => free.2.1⟩
  · exact ⟨fun _ => rfl, nofun⟩

end Tracker

end PgCache.Proxy.Isolation
