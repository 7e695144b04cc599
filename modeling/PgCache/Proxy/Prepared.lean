/- source: proxy/connection/extended.rs, proxy/connection/extended_buffer.rs,
     proxy/connection/cache_batch.rs, proxy/connection/relay.rs, pg/protocol/session.rs
   digest: The statement and portal tables of a connection, and the executes buffered from them. -/
import PgCache.Cache.Serve.Relay

set_option autoImplicit false

namespace PgCache.Proxy.Prepared

open Cache.Serve.Relay Function

inductive StatementType where
  | cacheable
  | nonSelect
  | uncacheableSelect
  | parseError
  deriving DecidableEq

inductive ResultFormats where
  | implicit
  | uniform (code : Int)
  | perColumn (codes : List Int)
  deriving DecidableEq

inductive Target where
  | statement
  | portal
  deriving DecidableEq

structure PreparedStatement (Q : Type) where
  sql : Q
  parameterOids : List Nat
  sqlType : StatementType
  parameterDescription : Bool
  originPrepared : Bool

structure Portal (V : Type) where
  statementName : String
  parameters : V
  resultFormats : ResultFormats

structure CacheCandidate (Q V : Type) where
  cacheableQuery : Q
  parameters : V
  parameterOids : List Nat
  resultFormats : ResultFormats
  statementName : String
  originPrepared : Bool

structure Segment where
  messages : Nat
  hasParse : Bool
  hasBind : Bool
  describe : PipelineDescribe
  dirty : Bool
  deriving DecidableEq

def Segment.default : Segment := ⟨0, false, false, .none, false⟩

/-- `ExecuteEntry`. `atOrigin` is no field of the source: it is what origin would have run for this
Execute. -/
structure ExecuteEntry (Q V : Type) where
  prep : Segment
  portalName : String
  candidate : Option (CacheCandidate Q V)
  atOrigin : Option (Q × V)

structure ExtendedBuffer (Q V : Type) where
  entries : List (ExecuteEntry Q V)
  pending : Segment

structure Tables (Q V : Type) where
  preparedStatements : String → Option (PreparedStatement Q)
  portals : String → Option (Portal V)
  buffer : Option (ExtendedBuffer Q V)

variable {Q V : Type}

def Tables.new : Tables Q V := ⟨fun _ => none, fun _ => none, none⟩

variable (tables : Tables Q V)

def Tables.bufferGetOrCreate : ExtendedBuffer Q V :=
  tables.buffer.getD ⟨[], .default⟩

def Tables.buffered (change : Segment → Segment) : Tables Q V :=
  let buffer := tables.bufferGetOrCreate
  let pending := change buffer.pending
  { tables with
    buffer := some { buffer with pending := { pending with messages := pending.messages + 1 } } }

/-- `statement_store`: the unnamed statement is replaced, a named one that is there stays. -/
def Tables.statementStore (name : String) (stmt : PreparedStatement Q) : Tables Q V :=
  { tables with
    preparedStatements :=
      if name = "" ∨ tables.preparedStatements name = none then
        update tables.preparedStatements name (some stmt)
      else tables.preparedStatements }

def Tables.handleParseMessage (analyze : Q → StatementType) (tables : Tables Q V) (name : String)
    (sql : Q) (oids : List Nat) : Tables Q V :=
  (tables.statementStore name ⟨sql, oids, analyze sql, false, false⟩).buffered fun segment =>
    { segment with dirty := segment.dirty || segment.hasParse, hasParse := true }

def Tables.portalStore (name statementName : String) (parameters : V)
    (resultFormats : ResultFormats) : Tables Q V :=
  { tables with
    portals := update tables.portals name (some ⟨statementName, parameters, resultFormats⟩) }

def Tables.handleBindMessage (name statementName : String) (parameters : V)
    (resultFormats : ResultFormats) : Tables Q V :=
  (tables.portalStore name statementName parameters resultFormats).buffered fun segment =>
    { segment with dirty := segment.dirty || segment.hasBind, hasBind := true }

def Tables.handleDescribeMessage (target : Target) : Tables Q V :=
  tables.buffered fun segment =>
    { segment with
      dirty := segment.dirty || segment.describe ≠ .none
      describe := match target with
        | .statement => .statement
        | .portal => .portal }

def Tables.portalStatement (portalName : String) : Option (Portal V × PreparedStatement Q) :=
  (tables.portals portalName).bind fun portal =>
    (tables.preparedStatements portal.statementName).map fun stmt => (portal, stmt)

def Tables.executeCacheCandidate (portalName : String)
    (describe : PipelineDescribe) : Option (CacheCandidate Q V) :=
  (tables.portalStatement portalName).bind fun (portal, stmt) =>
    match portal.resultFormats, stmt.sqlType with
    | .perColumn _, _ => none
    | _, .cacheable =>
      if describe = .statement ∧ stmt.parameterDescription = false then none
      else some ⟨stmt.sql, portal.parameters, stmt.parameterOids, portal.resultFormats,
        portal.statementName, stmt.originPrepared⟩
    | _, .nonSelect | _, .uncacheableSelect | _, .parseError => none

def Tables.pendingDescribe : PipelineDescribe :=
  (tables.buffer.map fun buffer => buffer.pending.describe).getD .none

def Tables.handleExecuteMessage (portalName : String) (atOrigin : Option (Q × V)) : Tables Q V :=
  let candidate := tables.executeCacheCandidate portalName tables.pendingDescribe
  let buffer := tables.bufferGetOrCreate
  let prep := { buffer.pending with messages := buffer.pending.messages + 1 }
  { tables with
    buffer := some ⟨buffer.entries ++ [⟨prep, portalName, candidate, atOrigin⟩], .default⟩ }

/-- `handle_close_message`. A Close is answered locally only with no buffer, and any other flushes
the buffer to origin. -/
def Tables.handleCloseMessage (target : Target) (name : String) : Tables Q V :=
  match target with
  | .statement =>
    { tables with
      preparedStatements := update tables.preparedStatements name none, buffer := none }
  | .portal => { tables with portals := update tables.portals name none, buffer := none }

def Tables.bufferTake : Tables Q V := { tables with buffer := none }

def Tables.statementModify (name : String)
    (change : PreparedStatement Q → PreparedStatement Q) : Tables Q V :=
  { tables with
    preparedStatements := update tables.preparedStatements name
      ((tables.preparedStatements name).map change) }

def Tables.parameterDescriptionReceived (name : String) (oids : List Nat) : Tables Q V :=
  tables.statementModify name fun stmt =>
    { stmt with parameterOids := oids, parameterDescription := true }

def Tables.parseComplete (name : String) : Tables Q V :=
  tables.statementModify name fun stmt => { stmt with originPrepared := true }

/-- `ready_for_query_handle`: the unnamed portal goes when no block is open. -/
def Tables.readyForQueryHandle (inTransaction : Bool) : Tables Q V :=
  if inTransaction then tables
  else { tables with portals := update tables.portals "" none }

def ExecuteEntry.needsLazyParse (entry : ExecuteEntry Q V) : Bool :=
  !entry.prep.hasParse &&
    entry.candidate.any fun candidate => !candidate.originPrepared && candidate.statementName ≠ ""

/-- `cache_batch_eligible`, given `cache_dispatch_possible` and a normal proxy status. -/
def cacheBatchEligible (possible : Bool) (buffer : ExtendedBuffer Q V) : Bool :=
  !buffer.entries.isEmpty && buffer.pending.messages = 0 && possible &&
    buffer.entries.all (fun entry => !entry.prep.dirty && entry.candidate.isSome) &&
    buffer.entries.countP ExecuteEntry.needsLazyParse ≤ 1

section Lemmas

variable {tables : Tables Q V}

theorem of_executeCacheCandidate {portalName : String} {describe : PipelineDescribe}
    {candidate : CacheCandidate Q V}
    (hf : tables.executeCacheCandidate portalName describe = some candidate) :
    ∃ portal stmt, tables.portals portalName = some portal ∧
      tables.preparedStatements portal.statementName = some stmt ∧
      candidate.cacheableQuery = stmt.sql ∧ candidate.parameters = portal.parameters := by
  obtain ⟨⟨portal, stmt⟩, looked, taken⟩ := Option.bind_eq_some_iff.mp hf
  obtain ⟨b, there, named⟩ := Option.bind_eq_some_iff.mp looked
  obtain ⟨held, stored, pair⟩ := Option.map_eq_some_iff.mp named
  obtain ⟨rfl, rfl⟩ := Prod.mk.inj pair
  refine ⟨b, held, there, stored, ?_⟩
  dsimp only at taken
  split at taken
  · cases taken
  · split at taken
    · cases taken
    · cases taken
      exact ⟨rfl, rfl⟩
  all_goals cases taken

def Tables.text (tables : Tables Q V) (name : String) : Option Q :=
  (tables.preparedStatements name).map PreparedStatement.sql

theorem text_statementStore (name other : String) (stmt : PreparedStatement Q) :
    (tables.statementStore name stmt).text other =
      if other = name ∧ (name = "" ∨ tables.text name = none) then some stmt.sql
      else tables.text other := by
  simp only [Tables.text, Tables.statementStore, Option.map_eq_none_iff]
  by_cases stores : name = "" ∨ tables.preparedStatements name = none <;>
    by_cases same : other = name <;> simp [stores, same]

theorem text_statementModify {change : PreparedStatement Q → PreparedStatement Q}
    (same : ∀ stmt, (change stmt).sql = stmt.sql) (name other : String) :
    (tables.statementModify name change).text other = tables.text other := by
  unfold Tables.text Tables.statementModify
  by_cases here : other = name
  · subst here
    simp only [update_self, Option.map_map]
    exact congrArg (fun read => (tables.preparedStatements other).map read) (funext same)
  · simp only [update_of_ne here]

end Lemmas

end PgCache.Proxy.Prepared
