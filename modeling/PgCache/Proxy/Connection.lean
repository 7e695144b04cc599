/- source: proxy/connection/relay.rs, proxy/connection/extended.rs,
     proxy/connection/cache_batch.rs, proxy/connection/search_path_intercept.rs,
     proxy/connection/transaction_isolation.rs, proxy/connection/describe_synth.rs
   digest: One client connection as far as it drives the egress queue. -/
import PgCache.Proxy.Egress

set_option autoImplicit false

namespace PgCache.Proxy.Connection

open Egress

/-- `PgBackendMessageType`, with the types the intercepts look at. `other` is every other one,
the asynchronous `NotificationResponse`, `NoticeResponse` and `ParameterStatus` among them. -/
inductive PgBackendMessageType where
  | readyForQuery
  | commandComplete
  | errorResponse
  | dataRows
  | rowDescription
  | parseComplete
  | other
  deriving DecidableEq

structure PgBackendMessage where
  messageType : PgBackendMessageType
  data : Bytes
  nonempty : data ≠ []
  deriving DecidableEq

inductive TrailingShowState where
  | preShow
  | inShow
  | error
  deriving DecidableEq

inductive OriginIntercept where
  | none
  | searchPath
  | lazyParseInline
  | trailingShowSearchPath (s : TrailingShowState)
  | walLsnProbe
  | defaultTransactionIsolation
  deriving DecidableEq

def trailingShowSearchPathHandle : TrailingShowState → PgBackendMessageType → Bool × OriginIntercept
  | .preShow, .commandComplete => (false, .trailingShowSearchPath .inShow)
  | .preShow, .errorResponse => (false, .trailingShowSearchPath .error)
  | .preShow, _ => (false, .trailingShowSearchPath .preShow)
  | .inShow, .readyForQuery => (false, .none)
  | .inShow, .dataRows | .inShow, .rowDescription | .inShow, .commandComplete =>
    (true, .trailingShowSearchPath .inShow)
  | .inShow, _ => (false, .trailingShowSearchPath .inShow)
  | .error, .readyForQuery => (false, .none)
  | .error, _ => (false, .trailingShowSearchPath .error)

/-- `origin_intercept_handle`: whether the message is consumed, and the intercept after it. -/
def originInterceptHandle : OriginIntercept → PgBackendMessageType → Bool × OriginIntercept
  | .none, _ => (false, .none)
  | .searchPath, messageType =>
    (true, if messageType = .readyForQuery then .none else .searchPath)
  | .lazyParseInline, messageType => (messageType = .parseComplete, .none)
  | .trailingShowSearchPath s, messageType => trailingShowSearchPathHandle s messageType
  | .defaultTransactionIsolation, messageType =>
    (true, if messageType = .readyForQuery then .none else .defaultTransactionIsolation)
  | .walLsnProbe, messageType =>
    (true, if messageType = .readyForQuery then .none else .walLsnProbe)

/-- An intercept that consumes every message up to a `ReadyForQuery`, and that one too. -/
def OriginIntercept.swallows : OriginIntercept → Bool
  | .searchPath | .walLsnProbe | .defaultTransactionIsolation => true
  | .none | .lazyParseInline | .trailingShowSearchPath _ => false

theorem originInterceptHandle_type (ic : OriginIntercept) {messageType : PgBackendMessageType}
    (hm : messageType ≠ .readyForQuery) :
    (originInterceptHandle ic messageType).2.swallows = ic.swallows ∧
      (ic.swallows = true → (originInterceptHandle ic messageType).1 = true) := by
  cases ic with
  | trailingShowSearchPath phase =>
    cases phase <;> cases messageType <;> first | exact absurd rfl hm | decide
  | _ => cases messageType <;> first | exact absurd rfl hm | decide

theorem originInterceptHandle_ready (ic : OriginIntercept) :
    (originInterceptHandle ic .readyForQuery).2.swallows = false ∧
      (originInterceptHandle ic .readyForQuery).1 = ic.swallows := by
  cases ic with
  | trailingShowSearchPath phase => cases phase <;> decide
  | _ => decide

inductive ProxyMode where
  | read
  | originDrain
  deriving DecidableEq

/-- `ConnectionState`, with what of it drives the egress queue; `C` is the cache message.
`leased` says that the client socket is with the cache worker, `closed` that the connection
loop has ended. `owed` is no field of the source: it counts the `ReadyForQuery` messages origin
still owes for what was forwarded to it. -/
structure ConnectionState (C : Type) where
  egress : EgressQueue C
  proxyMode : ProxyMode
  originIntercept : OriginIntercept
  flushDescribePending : Bool
  deferredCloseCompletes : Nat
  groupOriginForwarded : Bool
  batch : List C
  leased : Bool
  closed : Bool
  owed : Nat
  deriving DecidableEq

variable {C : Type}

def ConnectionState.new : ConnectionState C :=
  ⟨.new, .read, .none, false, 0, false, [], false, false, 0⟩

inductive Probe where
  | searchPath
  | isolation
  | walLsn
  deriving DecidableEq

def Probe.intercept : Probe → OriginIntercept
  | .searchPath => .searchPath
  | .isolation => .defaultTransactionIsolation
  | .walLsn => .walLsnProbe

variable (s : ConnectionState C)

/-- `session_discovery_inject`, `isolation_probe_inject` and the probe of `write_log_maintain`,
given which probe the session state asks for. Only one intercept is active at a time, and the
LSN probe waits until nothing is in flight. -/
def ConnectionState.probeInject : Option Probe → Option (ConnectionState C)
  | none => some s
  | some probe =>
    if s.originIntercept = .none ∧
        (probe = .walLsn → s.proxyMode = .read ∧ s.egress.originAllSealed = true) then
      some { s with originIntercept := probe.intercept, owed := s.owed + 1 }
    else none

def ConnectionState.originMessageRelay (msg : PgBackendMessage) : ConnectionState C :=
  let egress := s.egress.originAppend msg.data
  { s with
    egress := if msg.messageType = .readyForQuery then egress.originSeal else egress }

/-- `handle_origin_message`. A probe is injected only at a `ReadyForQuery`; after one that was
swallowed, `intercept_ready_followup` does not ask for the search path. -/
def ConnectionState.handleOriginMessage (msg : PgBackendMessage)
    (probe : Option Probe) : Option (ConnectionState C) :=
  let (consumed, intercept) := originInterceptHandle s.originIntercept msg.messageType
  let s := { s with originIntercept := intercept }
  let s := if consumed then s else s.originMessageRelay msg
  if msg.messageType = .readyForQuery then
    if consumed ∧ probe = some .searchPath then none
    else { s with owed := s.owed - 1 }.probeInject probe
  else if probe = none then some s
  else none

def closeCompleteMsg : Bytes := [0x33, 0, 0, 0, 4]

def readyForQueryMessage (status : UInt8) : Bytes := [0x5a, 0, 0, 0, 5, status]

def ConnectionState.deferredCloseCompletesFlush : ConnectionState C :=
  { s with
    deferredCloseCompletes := 0
    egress := s.egress.synthPush
      (List.replicate s.deferredCloseCompletes closeCompleteMsg).flatten }

/-- `origin_dispatch`, and any forward that opens a slot: origin answers it with messages that
end in `ReadyForQuery`. -/
def ConnectionState.originDispatch : ConnectionState C :=
  { s with egress := s.egress.originOpen, owed := s.owed + 1 }

def ConnectionState.lazyParseInstall (needed : Bool) : ConnectionState C :=
  if needed ∧ s.originIntercept = .none then
    { s with originIntercept := .lazyParseInline }
  else s

inductive SyncPlan (C : Type) where
  | bare
  | cacheBatch (first : C) (rest : List C)
  | synthesized (out : Bytes)
  | forwarded (lazyParse : Bool)

/-- Client messages by what the handlers make of them. -/
inductive ClientMessage (C : Type) where
  /-- a simple query that is forwarded, perhaps with `; SHOW search_path` appended -/
  | queryForward (piggyback : Bool)
  /-- a simple query that is looked up in the cache -/
  | queryCache (msg : C)
  | sync (plan : SyncPlan C) (status : UInt8)
  /-- Flush, with or without buffered messages -/
  | flush (buffered lazyParse : Bool)
  /-- a Close that is answered locally -/
  | closeLocal
  /-- any other Close -/
  | closeForward
  | sslRequest
  /-- the startup packet and FunctionCall: forwarded without a slot, answered with
  `ReadyForQuery` -/
  | forwardUnslotted
  /-- Parse, Bind, Describe, Execute (buffered), password, COPY data -/
  | other

/-- `cache_batch_dispatch`; `cache_slot_begin` pushes the slot of the first execute. -/
def ConnectionState.cacheBatchDispatch (first : C) (rest : List C) : ConnectionState C :=
  { s with
    egress := s.egress.cachePush first
    batch := rest
    proxyMode := .originDrain }

def ConnectionState.handleSyncMessage (plan : SyncPlan C) (status : UInt8) : ConnectionState C :=
  let localCloses := s.deferredCloseCompletes
  let groupOriginForwarded := s.groupOriginForwarded
  let s := { s.deferredCloseCompletesFlush with groupOriginForwarded := false }
  match plan with
  | .bare =>
    if localCloses > 0 ∧ groupOriginForwarded = false then
      { s with egress := s.egress.synthPush (readyForQueryMessage status) }
    else s.originDispatch
  | .cacheBatch first rest => s.cacheBatchDispatch first rest
  | .synthesized out => { s with egress := s.egress.synthPush out }
  | .forwarded lazyParse => (s.lazyParseInstall lazyParse).originDispatch

/-- `handle_flush_message`. The slot of a forwarded buffer is opened, but its response has no
`ReadyForQuery`. -/
def ConnectionState.handleFlushMessage (buffered lazyParse : Bool) : ConnectionState C :=
  let s := { s.deferredCloseCompletesFlush with groupOriginForwarded := true }
  if buffered then
    let s := s.lazyParseInstall lazyParse
    { s with egress := s.egress.originOpen, flushDescribePending := true }
  else s

def ConnectionState.flushDescribeSeal : ConnectionState C :=
  if s.flushDescribePending then
    { s with flushDescribePending := false, egress := s.egress.originSeal }
  else s

def ConnectionState.handleClientMessage (msg : ClientMessage C) : ConnectionState C :=
  let s := s.flushDescribeSeal
  match msg with
  | .queryForward piggyback =>
    let s :=
      if piggyback ∧ s.originIntercept = .none then
        { s with originIntercept := .trailingShowSearchPath .preShow }
      else s
    s.originDispatch
  | .queryCache msg => { s with egress := s.egress.cachePush msg, proxyMode := .originDrain }
  | .sync plan status => s.handleSyncMessage plan status
  | .flush buffered lazyParse => s.handleFlushMessage buffered lazyParse
  | .closeLocal => { s with deferredCloseCompletes := s.deferredCloseCompletes + 1 }
  | .closeForward => { s.deferredCloseCompletesFlush with groupOriginForwarded := true }
  | .sslRequest => { s with egress := s.egress.synthPush [0x4e] }
  | .forwardUnslotted => { s with owed := s.owed + 1 }
  | .other => s

/-- `forward_current_and_rest`: the head slot waits for origin now, and the whole batch is
answered with one `ReadyForQuery`. -/
def ConnectionState.forwardCurrentAndRest (lazyParse : Bool) : ConnectionState C :=
  let s := s.lazyParseInstall lazyParse
  { s with
    egress := s.egress.cacheToOrigin
    batch := []
    proxyMode := .read
    owed := s.owed + 1 }

inductive CacheOutcome where
  | complete
  | forward (lazyParse : Bool)
  | abandon
  deriving DecidableEq

def ConnectionState.cacheBatchAdvance : ConnectionState C :=
  match s.batch with
  | next :: rest =>
    { s with egress := s.egress.cachePush next, batch := rest, proxyMode := .originDrain }
  | [] => { s with proxyMode := .read }

def ConnectionState.handleCacheOutcome : CacheOutcome → ConnectionState C
  | .complete => { s with egress := s.egress.cacheDone }.cacheBatchAdvance
  | .forward lazyParse => s.forwardCurrentAndRest lazyParse
  | .abandon => { s with egress := s.egress.cacheDone, closed := true }

inductive DispatchOutcome where
  | lease
  | forward (lazyParse : Bool)
  deriving DecidableEq

/-- What a connection takes part in. -/
inductive Event (C : Type) where
  | client (msg : ClientMessage C)
  | origin (msg : PgBackendMessage) (probe : Option Probe)
  /-- the client socket takes `n` bytes -/
  | write (n : Nat)
  | dispatch (outcome : DispatchOutcome)
  | reply (outcome : CacheOutcome)
  /-- an I/O error, the end of a stream, or a worker that died -/
  | hangup

/-- One turn of `handle_connection`: `connection_select` in `Read`, `cache_dispatch` and
`connection_select_drain` in `OriginDrain`, `cache_serve_wait` while the socket is leased.
Origin sends a `ReadyForQuery` only for something forwarded to it. -/
def ConnectionState.step : Event C → Option (ConnectionState C)
  | .client msg =>
    if s.proxyMode = .read ∧ s.leased = false ∧ s.closed = false then
      some (s.handleClientMessage msg)
    else none
  | .origin msg probe =>
    if s.closed = false ∧ (msg.messageType = .readyForQuery → 0 < s.owed) then
      s.handleOriginMessage msg probe
    else none
  | .write n =>
    if s.leased = false ∧ s.closed = false ∧ s.egress.hasWritable = true ∧
        0 < n ∧ n ≤ s.egress.writeChunk.length then
      some { s with egress := s.egress.advance n }
    else none
  | .dispatch outcome =>
    if s.proxyMode = .originDrain ∧ s.leased = false ∧ s.closed = false then
      match s.egress.cacheDispatch, outcome with
      | (some _, egress), .lease => some { s with egress, leased := true }
      | (some _, egress), .forward lazyParse =>
        some ({ s with egress }.forwardCurrentAndRest lazyParse)
      | (none, _), _ => none
    else none
  | .reply outcome =>
    if s.leased = true ∧ s.closed = false then
      some ({ s with leased := false }.handleCacheOutcome outcome)
    else none
  | .hangup => some { s with closed := true }

end PgCache.Proxy.Connection
