/- source: cache/serve.rs, cache/serve/relay.rs, cache/serve/response_state.rs,
     pg/protocol/encode.rs, cache/query_cache/mod.rs
   digest: One serve, from the frames of the cache database to the bytes the client receives,
     over every schedule of writes and every failure. -/
import PgCache.Cache.Serve.Queue
import PgCache.Data.Machine
import PgCache.Proxy.Isolation

set_option autoImplicit false

namespace PgCache.Cache.Serve.Relay

open Queue Data.Machine Proxy.Egress Proxy.Isolation List Option

def lengthWord (n : Nat) : Bytes :=
  [UInt8.ofNat (n / 2 ^ 24), UInt8.ofNat (n / 2 ^ 16), UInt8.ofNat (n / 2 ^ 8), UInt8.ofNat n]

structure Message where
  tag : UInt8
  body : Bytes
  fits : body.length + 4 < 2 ^ 31
  deriving DecidableEq

def Message.encode (message : Message) : Bytes :=
  message.tag :: lengthWord (message.body.length + 4) ++ message.body

def encodeAll (messages : List Message) : Bytes := messages.flatMap Message.encode

def parseCompleteMsg : Message := ⟨0x31, [], by decide⟩

def bindCompleteMsg : Message := ⟨0x32, [], by decide⟩

def readyForQueryMessage : TransactionStatus → Message
  | .idle => ⟨0x5a, [0x49], by decide⟩
  | .inTransaction => ⟨0x5a, [0x54], by decide⟩
  | .failed => ⟨0x5a, [0x45], by decide⟩

/-- `SERVE_ERROR_MSG`: the fields `SERROR`, `C58000` and `Mpgcache: cache serve failed`. -/
def serveErrorMsg : Message :=
  ⟨0x45, [83, 69, 82, 82, 79, 82, 0, 67, 53, 56, 48, 48, 48, 0, 77, 112, 103, 99, 97, 99, 104, 101,
    58, 32, 99, 97, 99, 104, 101, 32, 115, 101, 114, 118, 101, 32, 102, 97, 105, 108, 101, 100, 0,
    0], by decide⟩

inductive PgBackendMessageType where
  | parseComplete
  | bindComplete
  | closeComplete
  | rowDescription
  | dataRows
  | commandComplete
  | readyForQuery
  | errorResponse
  | parameterStatus
  | noticeResponse
  | notificationResponse
  | other
  deriving DecidableEq

structure Frame where
  messageType : PgBackendMessageType
  messages : List Message
  deriving DecidableEq

structure PrepareOutcome where
  sentSetgenParse : Bool
  sentParse : Bool
  sentClose : Bool
  deriving DecidableEq

inductive PipelineDescribe where
  | none
  | statement
  | portal
  deriving DecidableEq

/-- `ServeRequest`, with what shapes the response; `mv` says that it is served from a materialized
view, `prepare` is what was sent to the cache database. -/
structure ServeRequest where
  mv : Bool
  prepare : PrepareOutcome
  simple : Bool
  emitRfq : Bool
  hasParse : Bool
  hasBind : Bool
  pipelineDescribe : PipelineDescribe
  parameterDescription : Option Message
  transactionStatus : TransactionStatus
  deriving DecidableEq

def ServeRequest.includeDescribe (request : ServeRequest) : Bool :=
  request.simple || request.pipelineDescribe ≠ .none

def ServeRequest.trailingRfq (request : ServeRequest) : Option Message :=
  if request.simple || request.emitRfq then some (readyForQueryMessage request.transactionStatus)
  else none

def ServeRequest.inBlock (request : ServeRequest) : Bool :=
  request.transactionStatus = .inTransaction

inductive ServeResponseState where
  | setGenParse
  | setGenBind
  | setGenData
  | closeComplete
  | parseComplete
  | bindComplete
  | describeRow
  | dataRows
  | done
  deriving DecidableEq

namespace ServeResponseState

def initial (mv : Bool) (prepare : PrepareOutcome) : ServeResponseState :=
  if mv then .parseComplete else if prepare.sentSetgenParse then .setGenParse else .setGenBind

def selectStart (prepare : PrepareOutcome) : ServeResponseState :=
  if prepare.sentParse then .parseComplete else .bindComplete

def inSetConfig : ServeResponseState → Bool
  | .setGenParse | .setGenBind | .setGenData => true
  | .closeComplete | .parseComplete | .bindComplete | .describeRow | .dataRows | .done => false

def advance (prepare : PrepareOutcome) (includeDescribe : Bool) (state : ServeResponseState)
    (messageType : PgBackendMessageType) : Option ServeResponseState :=
  match state, messageType with
  | .setGenParse, .parseComplete => some .setGenBind
  | .setGenBind, .bindComplete => some .setGenData
  | .setGenData, .dataRows => some .setGenData
  | .setGenData, .commandComplete =>
    some (if prepare.sentClose then .closeComplete else selectStart prepare)
  | .closeComplete, .closeComplete => some (selectStart prepare)
  | .parseComplete, .parseComplete => some .bindComplete
  | .bindComplete, .bindComplete => some (if includeDescribe then .describeRow else .dataRows)
  | state, .readyForQuery => if state.inSetConfig then none else some .done
  | _, _ => none

end ServeResponseState

/-- What becomes of the request. `forwarded` is any error but `ServeAbandonedInBlock`, on which
the connection is closed. -/
inductive Outcome where
  | complete
  | forwarded
  | abandoned
  deriving DecidableEq

/-- `Relay` and `ServeClient`. `relayed` and `received` are no fields of the source: the messages
that were queued for the client, and the bytes its socket has taken. -/
structure Serving where
  request : ServeRequest
  state : ServeResponseState
  parameterDescription : Option Message
  queue : WriteQueue
  committed : Bool
  bytesSent : Bool
  gone : Bool
  relayed : List Message
  received : Bytes
  outcome : Option Outcome

namespace Serving

/-- `push_and_broadcast`, for the client of this serve. -/
def push (serve : Serving) (messages : List Message) : Serving :=
  { serve with
    queue := serve.queue.push (encodeAll messages)
    relayed := serve.relayed ++ messages }

/-- `handle_cached_query` up to its loop. -/
def start (request : ServeRequest) : Serving :=
  let serve : Serving :=
    { request
      state := .initial request.mv request.prepare
      parameterDescription := request.parameterDescription
      queue := .new
      committed := false
      bytesSent := false
      gone := false
      relayed := []
      received := []
      outcome := none }
  let serve := if request.hasParse then serve.push [parseCompleteMsg] else serve
  if request.hasBind then serve.push [bindCompleteMsg] else serve

def rowDescriptionRelay (serve : Serving) (messages : List Message) : Serving :=
  let serve :=
    match serve.request.pipelineDescribe, serve.parameterDescription with
    | .statement, some description =>
      { serve.push [description] with parameterDescription := none }
    | _, _ => serve
  { serve.push messages with state := .dataRows }

def frameRelay (serve : Serving) (frame : Frame) : Option Serving :=
  match serve.state, frame.messageType with
  | .describeRow, .rowDescription => some (serve.rowDescriptionRelay frame.messages)
  | .dataRows, .dataRows | .dataRows, .commandComplete => some (serve.push frame.messages)
  | _, _ => none

def isAsync : PgBackendMessageType → Bool
  | .parameterStatus | .noticeResponse | .notificationResponse => true
  | _ => false

/-- `frame_apply`: `none` on an `ErrorResponse` and on a frame out of sequence. -/
def frameApply (serve : Serving) (frame : Frame) : Option Serving :=
  match serve.state.advance serve.request.prepare serve.request.includeDescribe
      frame.messageType with
  | some next => some { serve with state := next }
  | none =>
    match serve.frameRelay frame with
    | some next => some next
    | none => if isAsync frame.messageType then some serve else none

def writeAll (serve : Serving) : Serving :=
  { serve with
    received := if serve.gone then serve.received else serve.received ++ serve.queue.bytes
    queue := serve.queue.advance serve.queue.bytes.length }

/-- What `failure_resolve` queues in place of the rest of the response. -/
def errorQueue (serve : Serving) : WriteQueue :=
  let queue := serve.queue.clear.push serveErrorMsg.encode
  if serve.request.inBlock then queue
  else
    match serve.request.trailingRfq with
    | some rfq => queue.push rfq.encode
    | none => queue

def failureResolve (serve : Serving) : Serving :=
  if serve.bytesSent then
    { { serve with queue := serve.errorQueue }.writeAll with
      outcome := some (if serve.request.inBlock then .abandoned else .complete) }
  else { serve with outcome := some .forwarded }

def turnEnd (serve : Serving) : Serving :=
  { serve with
    committed := serve.committed || serve.state = .dataRows || serve.state = .done
    queue := if serve.gone then serve.queue.clear else serve.queue }

def finalQueue (serve : Serving) : WriteQueue :=
  match serve.request.trailingRfq with
  | some rfq => serve.queue.push rfq.encode
  | none => serve.queue

def finish (serve : Serving) (released : Bool) : Serving :=
  if released then
    { { serve with queue := serve.finalQueue }.writeAll with outcome := some .complete }
  else { serve with outcome := some .forwarded }

end Serving

/-- What can happen to a serve. `closed` is the end of the cache connection or a frame the codec
rejects. -/
inductive Event where
  | frame (frame : Frame)
  | closed
  | deadline
  /-- the client's socket takes `cnt` bytes -/
  | write (cnt : Nat)
  | writeError
  /-- the cache database is silent while it is drained for a client that is gone -/
  | drainStall
  /-- the loop has ended -/
  | finish (released : Bool)
  deriving DecidableEq

def Serving.writable (serve : Serving) : Bool :=
  serve.committed && !serve.queue.isEmpty && !serve.gone

/-- One turn of the loop of `handle_cached_query`. -/
def Serving.turn (serve : Serving) : Event → Option Serving
  | .frame frame =>
    match serve.frameApply frame with
    | some next => some next.turnEnd
    | none => some serve.failureResolve
  | .closed | .deadline => some serve.failureResolve
  | .write cnt =>
    if serve.writable ∧ cnt ≤ serve.queue.bytes.length then
      some { serve with
        received := serve.received ++ serve.queue.bytes.take cnt
        queue := serve.queue.advance cnt
        bytesSent := serve.bytesSent || 0 < cnt }.turnEnd
    else none
  | .writeError => if serve.writable then some { serve with gone := true }.turnEnd else none
  | .drainStall => if serve.gone then some { serve with outcome := some .forwarded } else none
  | .finish _ => none

/-- `handle_cached_query`: turns until the response is done, and then `finish`. -/
def Serving.step (serve : Serving) (event : Event) : Option Serving :=
  if serve.outcome ≠ none then none
  else if serve.state = .done then
    match event with
    | .finish released => some (serve.finish released)
    | _ => none
  else serve.turn event

@[simp] theorem encodeAll_append (messages others : List Message) :
    encodeAll (messages ++ others) = encodeAll messages ++ encodeAll others := flatMap_append

@[simp] theorem encodeAll_singleton (message : Message) : encodeAll [message] = message.encode :=
  flatMap_singleton ..

structure Queued (serve next : Serving) (messages : List Message) : Prop where
  request : next.request = serve.request
  relayed : next.relayed = serve.relayed ++ messages
  bytes : next.queue.bytes = serve.queue.bytes ++ encodeAll messages
  received : next.received = serve.received
  bytesSent : next.bytesSent = serve.bytesSent
  gone : next.gone = serve.gone
  outcome : next.outcome = serve.outcome

private theorem queued_push (serve : Serving) (messages : List Message) :
    Queued serve (serve.push messages) messages :=
  ⟨rfl, rfl, WriteQueue.bytes_push .., rfl, rfl, rfl, rfl⟩

variable {serve next : Serving} {event : Event}

private theorem queued_frameRelay {frame : Frame} (relays : serve.frameRelay frame = some next) :
    ∃ messages, Queued serve next messages := by
  unfold Serving.frameRelay at relays
  split at relays
  · cases relays
    unfold Serving.rowDescriptionRelay
    split
    · next description _ _ =>
      have described := queued_push serve [description]
      have rows := queued_push { serve.push [description] with parameterDescription := none }
        frame.messages
      refine ⟨[description] ++ frame.messages, rfl, ?_, ?_, rfl, rfl, rfl, rfl⟩
      · exact append_assoc ..
      · rw [encodeAll_append, ← append_assoc, ← described.bytes]
        exact rows.bytes
    · have rows := queued_push serve frame.messages
      exact ⟨frame.messages, rfl, rfl, rows.bytes, rfl, rfl, rfl, rfl⟩
  · cases relays
    exact ⟨_, queued_push serve frame.messages⟩
  · cases relays
    exact ⟨_, queued_push serve frame.messages⟩
  · cases relays

private theorem queued_frameApply {frame : Frame} (applied : serve.frameApply frame = some next) :
    ∃ messages, Queued serve next messages := by
  have unchanged : ∀ state, Queued serve { serve with state } [] :=
    fun _ => ⟨rfl, (append_nil _).symm, (append_nil _).symm, rfl, rfl, rfl, rfl⟩
  unfold Serving.frameApply at applied
  split at applied
  · cases applied
    exact ⟨[], unchanged _⟩
  · split at applied
    · next relays =>
      cases applied
      exact queued_frameRelay relays
    · split at applied
      · cases applied
        exact ⟨[], unchanged serve.state⟩
      · cases applied

structure Flowing (serve : Serving) : Prop where
  sent : serve.bytesSent = true ↔ serve.received ≠ []
  flow : serve.gone = false → serve.received ++ serve.queue.bytes = encodeAll serve.relayed

theorem Flowing.queued {messages : List Message} (flowing : Flowing serve)
    (queued : Queued serve next messages) : Flowing next := by
  refine ⟨?_, fun alive => ?_⟩
  · rw [queued.bytesSent, queued.received]
    exact flowing.sent
  · rw [queued.received, queued.bytes, queued.relayed, encodeAll_append,
      ← flowing.flow (queued.gone ▸ alive), append_assoc]

theorem Flowing.turnEnd (flowing : Flowing serve) : Flowing serve.turnEnd := by
  refine ⟨flowing.sent, fun alive => ?_⟩
  have still : serve.gone = false := alive
  have same : serve.turnEnd.queue = serve.queue := by
    change (if serve.gone then _ else _) = _
    rw [still]
    rfl
  rw [same]
  exact flowing.flow still

theorem flowing_start (r : ServeRequest) : Flowing (.start r) := by
  have pushed : ∀ (serve : Serving) (asked : Bool) (message : Message), Flowing serve →
      Flowing (if asked then serve.push [message] else serve) := by
    intro serve asked message flowing
    cases asked
    · exact flowing
    · exact flowing.queued (queued_push serve [message])
  refine pushed _ _ _ (pushed _ _ _ ?_)
  exact ⟨⟨nofun, fun hne => absurd rfl hne⟩, fun _ => rfl⟩

private theorem failureResolve_ends (serve : Serving) : serve.failureResolve.outcome ≠ none := by
  unfold Serving.failureResolve
  split <;> nofun

private theorem finish_ends (serve : Serving) (released : Bool) :
    (serve.finish released).outcome ≠ none := by
  cases released <;> nofun

private theorem flowing_write {cnt : Nat} (flowing : Flowing serve)
    (fits : cnt ≤ serve.queue.bytes.length) :
    Flowing { serve with
      received := serve.received ++ serve.queue.bytes.take cnt
      queue := serve.queue.advance cnt
      bytesSent := serve.bytesSent || 0 < cnt } := by
  have taken : serve.queue.bytes.take cnt = [] ↔ cnt = 0 := by
    rw [← length_eq_zero_iff, length_take, Nat.min_eq_left fits]
  refine ⟨?_, fun alive => ?_⟩
  · change (serve.bytesSent || decide (0 < cnt)) = true ↔
      serve.received ++ serve.queue.bytes.take cnt ≠ []
    rw [Bool.or_eq_true, flowing.sent, decide_eq_true_eq, Ne, Ne, append_eq_nil_iff, taken,
      not_and_or, Nat.pos_iff_ne_zero]
  · change serve.received ++ serve.queue.bytes.take cnt ++ (serve.queue.advance cnt).bytes = _
    rw [WriteQueue.bytes_advance, append_assoc, take_append_drop]
    exact flowing.flow alive

private theorem flowing_turn (flowing : Flowing serve) (turned : serve.turn event = some next)
    (running : next.outcome = none) : Flowing next := by
  cases event with
  | frame frame =>
    simp only [Serving.turn] at turned
    split at turned
    · next applied =>
      cases turned
      obtain ⟨messages, queued⟩ := queued_frameApply applied
      exact (flowing.queued queued).turnEnd
    · cases turned
      exact absurd running (failureResolve_ends serve)
  | closed | deadline =>
    cases turned
    exact absurd running (failureResolve_ends serve)
  | write cnt =>
    obtain ⟨fits, ⟨⟩⟩ := ite_none_right_eq_some.mp turned
    exact (flowing_write flowing fits.2).turnEnd
  | writeError =>
    obtain ⟨_, ⟨⟩⟩ := ite_none_right_eq_some.mp turned
    exact Flowing.turnEnd ⟨flowing.sent, nofun⟩
  | drainStall =>
    obtain ⟨_, ⟨⟩⟩ := ite_none_right_eq_some.mp turned
    cases running
  | finish => cases turned

theorem flowing_step (flowing : Flowing serve) (hs : serve.step event = some next)
    (running : next.outcome = none) : Flowing next := by
  unfold Serving.step at hs
  split at hs
  · cases hs
  · split at hs
    · split at hs
      · cases hs
        exact absurd running (finish_ends serve _)
      · cases hs
    · exact flowing_turn flowing hs running

private theorem running_of_step (hs : serve.step event = some next) : serve.outcome = none := by
  unfold Serving.step at hs
  split at hs
  · cases hs
  · next running => exact not_not.mp running

theorem flowing_run {r : ServeRequest} {evs : List Event}
    (ran : runs Serving.step (.start r) evs = some serve) (running : serve.outcome = none) :
    Flowing serve := by
  have kept : ∀ (serve : Serving) (event : Event) (next : Serving),
      (serve.outcome = none → Flowing serve) → serve.step event = some next →
      next.outcome = none → Flowing next := by
    intro serve event next flowing hs
    exact flowing_step (flowing (running_of_step hs)) hs
  exact runs_preserves kept (fun _ => flowing_start r) ran running

def Serving.CutAtMessage (serve : Serving) : Prop :=
  ∃ n, serve.received.length = (encodeAll (serve.relayed.take n)).length

def ServeRequest.errorTail (request : ServeRequest) : List Message :=
  serveErrorMsg :: if request.inBlock then [] else request.trailingRfq.toList

/-- Nothing was written and the request is forwarded, or the client has received whole messages of
the response and then the error. -/
def Serving.WellFramed (serve : Serving) : Prop :=
  serve.outcome = some .forwarded ∧ serve.received = [] ∨ serve.outcome ≠ some .forwarded ∧
      ∃ n, serve.received = encodeAll (serve.relayed.take n ++ serve.request.errorTail)

/-- A failure of the serve: an `ErrorResponse` or a frame out of sequence, a closed connection, the
deadline, or a pool that does not take the connection back. -/
def Serving.Fails (serve : Serving) : Event → Prop
  | .frame frame => serve.frameApply frame = none
  | .closed | .deadline => True
  | .finish released => released = false
  | .write _ | .writeError | .drainStall => False

private theorem received_of_cut (flowing : Flowing serve) (alive : serve.gone = false) {n : Nat}
    (cut : serve.received.length = (encodeAll (serve.relayed.take n)).length) :
    serve.received = encodeAll (serve.relayed.take n) := by
  have flow := flowing.flow alive
  rw [← take_append_drop n serve.relayed, encodeAll_append] at flow
  exact (append_inj flow cut).1

private theorem received_writeAll (alive : serve.gone = false) :
    serve.writeAll.received = serve.received ++ serve.queue.bytes := by
  change (if serve.gone then _ else _) = _
  rw [alive]
  rfl

private theorem bytes_errorQueue (serve : Serving) :
    serve.errorQueue.bytes = encodeAll serve.request.errorTail := by
  have error : (serve.queue.clear.push serveErrorMsg.encode).bytes = encodeAll [serveErrorMsg] := by
    rw [WriteQueue.bytes_push, WriteQueue.bytes_clear, nil_append, encodeAll_singleton]
  unfold Serving.errorQueue ServeRequest.errorTail
  cases serve.request.inBlock with
  | true => exact error
  | false =>
    cases serve.request.trailingRfq with
    | none => exact error
    | some rfq =>
      refine (WriteQueue.bytes_push _ _).trans ?_
      rw [error, ← encodeAll_singleton rfq, ← encodeAll_append]
      rfl

private theorem failureResolve_sent (alive : serve.gone = false) (sent : serve.bytesSent = true) :
    serve.failureResolve.outcome ≠ some .forwarded ∧ serve.failureResolve.relayed = serve.relayed ∧
      serve.failureResolve.request = serve.request ∧
      serve.failureResolve.received = serve.received ++ encodeAll serve.request.errorTail := by
  have written : Serving.received (Serving.writeAll { serve with queue := serve.errorQueue }) =
      serve.received ++ serve.errorQueue.bytes := received_writeAll alive
  rw [Serving.failureResolve, if_pos sent, ← bytes_errorQueue]
  refine ⟨?_, rfl, rfl, written⟩
  cases serve.request.inBlock <;> nofun

private theorem step_of_fails {last : Serving} (hs : serve.step event = some last)
    (fails : serve.Fails event) :
    event = .finish false ∧ last = { serve with outcome := some .forwarded } ∨
      event ≠ .finish false ∧ last = serve.failureResolve := by
  unfold Serving.step at hs
  split at hs
  · cases hs
  · split at hs
    · split at hs
      · next released =>
        have refused : released = false := fails
        subst refused
        exact .inl ⟨rfl, (some_inj.mp hs).symm⟩
      · cases hs
    · cases event with
      | frame frame =>
        have rejected : serve.frameApply frame = none := fails
        simp only [Serving.turn, rejected] at hs
        exact .inr ⟨nofun, (some_inj.mp hs).symm⟩
      | closed | deadline => exact .inr ⟨nofun, (some_inj.mp hs).symm⟩
      | write | writeError | drainStall => exact fails.elim
      | finish => cases hs

/-- A serve that fails leaves the client's stream well framed exactly when nothing was written yet
or the bytes written so far end with a message. -/
theorem failed_serve_framed_iff {request : ServeRequest} {events : List Event}
    {serve last : Serving}
    {event : Event} (ran : runs Serving.step (.start request) events = some serve)
    (stepped : serve.step event = some last) (fails : serve.Fails event)
    (alive : serve.gone = false) :
    last.WellFramed ↔ serve.received = [] ∨ event ≠ .finish false ∧ serve.CutAtMessage := by
  have flowing := flowing_run ran (running_of_step stepped)
  rcases step_of_fails stepped fails with ⟨rfl, rfl⟩ | ⟨resolved, rfl⟩
  · constructor
    · rintro (⟨_, empty⟩ | ⟨notForwarded, _⟩)
      · exact .inl empty
      · exact absurd rfl notForwarded
    · rintro (empty | ⟨notFinish, _⟩)
      · exact .inl ⟨rfl, empty⟩
      · exact absurd rfl notFinish
  · cases sent : serve.bytesSent with
    | false =>
      have empty : serve.received = [] := by
        refine not_not.mp fun nonempty => ?_
        exact absurd (sent.symm.trans (flowing.sent.mpr nonempty)) nofun
      have forwarded : serve.failureResolve = { serve with outcome := some .forwarded } := by
        rw [Serving.failureResolve, if_neg (by rw [sent]; exact Bool.false_ne_true)]
      rw [forwarded]
      exact ⟨fun _ => .inl empty, fun _ => .inl ⟨rfl, empty⟩⟩
    | true =>
      obtain ⟨outcome, relayed, same, received⟩ := failureResolve_sent alive sent
      have nonempty := flowing.sent.mp sent
      unfold Serving.WellFramed
      rw [relayed, same, received]
      constructor
      · rintro (⟨forwarded, _⟩ | ⟨_, n, framed⟩)
        · exact absurd forwarded outcome
        · rw [encodeAll_append] at framed
          exact .inr ⟨resolved, n, congrArg length (append_cancel_right framed)⟩
      · rintro (empty | ⟨_, n, cut⟩)
        · exact absurd empty nonempty
        · refine .inr ⟨outcome, n, ?_⟩
          rw [encodeAll_append, received_of_cut flowing alive cut]

def simpleRequest : ServeRequest :=
  { mv := true
    prepare := ⟨false, true, false⟩
    simple := true
    emitRfq := false
    hasParse := false
    hasBind := false
    pipelineDescribe := .none
    parameterDescription := none
    transactionStatus := .idle }

def noColumns : Message := ⟨0x54, [0, 0], by decide⟩

def described : List Event :=
  [.frame ⟨.parseComplete, [parseCompleteMsg]⟩, .frame ⟨.bindComplete, [bindCompleteMsg]⟩,
    .frame ⟨.rowDescription, [noColumns]⟩]

theorem closed_after_whole_message :
    ∃ serve last, runs Serving.step (.start simpleRequest) (described ++ [.write 7]) = some serve ∧
      serve.step .closed = some last ∧ last.WellFramed := by
  have reached : (runs Serving.step (.start simpleRequest)
    (described ++ [.write 7])).map (fun serve =>
      (serve.outcome, serve.state, serve.gone, serve.received, serve.relayed)) =
      some (none, .dataRows, false, noColumns.encode, [noColumns]) := by
    rfl
  obtain ⟨serve, ran, same⟩ := map_eq_some_iff.mp reached
  simp only [Prod.mk.injEq] at same
  obtain ⟨running, state, alive, received, relayed⟩ := same
  have stepped : serve.step .closed = some serve.failureResolve := by
    simp only [Serving.step, running, state, Serving.turn, ne_eq, not_true, if_false, reduceCtorEq]
  have cut : serve.CutAtMessage := ⟨1, by rw [received, relayed]; rfl⟩
  exact ⟨serve, _, ran, stepped,
    (failed_serve_framed_iff ran stepped trivial alive).mpr (.inr ⟨nofun, cut⟩)⟩

/-- The connection closes in the middle of a message, and the pool is gone after the response. -/
theorem stream_cut_inside_message :
    (∃ last, runs Serving.step (.start simpleRequest)
      (described ++ [.write 3, .closed]) = some last ∧
      ¬ last.WellFramed) ∧
    ∃ last, runs Serving.step (.start simpleRequest) (described ++
        [.write 7, .frame ⟨.readyForQuery, [readyForQueryMessage .idle]⟩,
          .finish false]) = some last ∧
      last.outcome = some .forwarded ∧ last.received = noColumns.encode := by
  constructor
  · have reached : (runs Serving.step (.start simpleRequest) (described ++ [.write 3, .closed])).map
        (fun last => (last.outcome, last.received, last.relayed, last.request)) =
        some (some .complete, noColumns.encode.take 3 ++
          encodeAll [serveErrorMsg, readyForQueryMessage .idle], [noColumns], simpleRequest) := by
      decide +kernel
    obtain ⟨last, ran, same⟩ := map_eq_some_iff.mp reached
    simp only [Prod.mk.injEq] at same
    obtain ⟨outcome, received, relayed, request⟩ := same
    refine ⟨last, ran, ?_⟩
    rintro (⟨forwarded, _⟩ | ⟨_, n, framed⟩)
    · exact absurd (outcome.symm.trans forwarded) nofun
    · rw [received, relayed, request] at framed
      have lengths := congrArg length framed
      rcases n with _ | n
      · exact absurd lengths (by decide +kernel)
      · rw [take_succ_cons, take_nil] at lengths
        exact absurd lengths (by decide +kernel)
  · have reached : (runs Serving.step (.start simpleRequest) (described ++
        [.write 7, .frame ⟨.readyForQuery, [readyForQueryMessage .idle]⟩, .finish false])).map
        (fun last => (last.outcome, last.received)) = some (some .forwarded, noColumns.encode) := by
      decide +kernel
    obtain ⟨last, ran, same⟩ := map_eq_some_iff.mp reached
    simp only [Prod.mk.injEq] at same
    exact ⟨last, ran, same⟩

end PgCache.Cache.Serve.Relay
