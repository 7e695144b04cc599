/- source: proxy/egress.rs, proxy/connection/relay.rs, proxy/connection/extended.rs
   digest: A connection between its client and origin: what each sends, and what the client is to
     get. -/
import PgCache.Proxy.Replies

set_option autoImplicit false

namespace PgCache.Proxy.Stream

open Egress Egress.EgressQueue Connection Replies

variable {C : Type}

section Machine

def ended (forClient : Bool) (answer : List Reply) : Bool :=
  answer.getLast?.any (fun last => last.forClient = forClient && last.msg.messageType =
    .readyForQuery) &&
    answer.dropLast.all fun reply => reply.msg.messageType ≠ .readyForQuery

def unended (answer : List Reply) : Bool :=
  answer.all fun reply => reply.msg.messageType ≠ .readyForQuery

def ownScreened (state next : ConnectionState C) (answer : List Reply) : Bool :=
  answer.all Reply.forClient || next.originIntercept ≠ state.originIntercept

def syncsLocally (state : ConnectionState C) : Bool :=
  0 < state.deferredCloseCompletes && !state.groupOriginForwarded

/-- What origin may send for a client message. A Close is answered locally only in a group of
which nothing was forwarded. -/
def answers (state : ConnectionState C) (answer : List Reply) : ClientMessage C → Bool
  | .queryForward _ | .sync (.forwarded _) _ | .forwardUnslotted => ended true answer
  | .sync .bare _ => if syncsLocally state then answer.isEmpty else ended true answer
  | .flush true _ | .closeForward => unended answer
  | .closeLocal => answer.isEmpty && !state.groupOriginForwarded
  | .queryCache _ | .sync (.cacheBatch _ _) _ | .sync (.synthesized _) _ | .flush false _
  | .sslRequest | .other => answer.isEmpty

def answersForward (response : C → Bytes) (state : ConnectionState C) (request : Option C)
    (forward : Bool) (answer : List Reply) : Bool :=
  if forward then
    ended true answer &&
      clientBytes answer = (request.map response).getD [] ++ state.batch.flatMap response
  else answer.isEmpty

def due (response : C → Bytes) (state : ConnectionState C) (answer : List Reply) :
    ClientMessage C → Bytes
  | .queryCache msg => response msg
  | .sync (.cacheBatch first rest) _ => (first :: rest).flatMap response
  | .sync (.synthesized out) _ => out
  | .sync .bare status =>
    if syncsLocally state then readyForQueryMessage status else clientBytes answer
  | .closeLocal => closeCompleteMsg
  | .sslRequest => [0x4e]
  | .queryForward _ | .sync (.forwarded _) _ | .flush _ _ | .closeForward | .forwardUnslotted
  | .other => clientBytes answer

structure Traffic (C : Type) where
  connection : ConnectionState C
  wire : List Reply
  served : Option C
  received : Bytes
  expected : Bytes

def Traffic.new : Traffic C := ⟨.new, [], none, [], []⟩

/-- The events of the connection, with what origin will send for what they forward. A worker that
gives up has written `n` bytes. -/
inductive Exchange (C : Type) where
  | client (msg : ClientMessage C) (answer : List Reply)
  | origin (probe : Option Probe) (answer : List Reply)
  | write (n : Nat)
  | dispatch (outcome : DispatchOutcome) (answer : List Reply)
  | reply (outcome : CacheOutcome) (n : Nat) (answer : List Reply)
  | hangup

def dispatchForwards : DispatchOutcome → Bool
  | .forward _ => true
  | .lease => false

def replyForwards : CacheOutcome → Bool
  | .forward _ => true
  | .complete | .abandon => false

def workerBytes (whole : Bytes) (n : Nat) : CacheOutcome → Bytes
  | .complete => whole
  | .forward _ => []
  | .abandon => whole.take n

def answersProbe (probe : Option Probe) (answer : List Reply) : Bool :=
  if probe.isSome then ended false answer && answer.all fun reply => !reply.forClient
  else answer.isEmpty

variable (response : C → Bytes)

/-- One event. `response` is the complete response of a cache request, whoever gives it. -/
def Traffic.step (t : Traffic C) : Exchange C → Option (Traffic C)
  | .client msg answer =>
    (t.connection.step (.client msg)).bind fun connection =>
      if answers t.connection answer msg && ownScreened t.connection connection answer then
        some { t with
          connection
          wire := t.wire ++ answer
          expected := t.expected ++ due response t.connection answer msg }
      else none
  | .origin probe answer =>
    match t.wire with
    | [] => none
    | reply :: wire =>
      (t.connection.step (.origin reply.msg probe)).bind fun connection =>
        if answersProbe probe answer then some { t with connection, wire := wire ++ answer }
        else none
  | .write n =>
    (t.connection.step (.write n)).map fun connection =>
      { t with
        connection
        received := t.received ++ t.connection.egress.writeChunk.take n }
  | .dispatch outcome answer =>
    (t.connection.step (.dispatch outcome)).bind fun connection =>
      let served := t.connection.egress.cacheDispatch.1
      if answersForward response t.connection served (dispatchForwards outcome) answer &&
          ownScreened t.connection connection answer then
        some { t with connection, wire := t.wire ++ answer, served }
      else none
  | .reply outcome n answer =>
    (t.connection.step (.reply outcome)).bind fun connection =>
      if answersForward response t.connection t.served (replyForwards outcome) answer &&
          ownScreened t.connection connection answer then
        some { t with
          connection
          wire := t.wire ++ answer
          received := t.received ++ workerBytes ((t.served.map response).getD []) n outcome }
      else none
  | .hangup =>
    (t.connection.step .hangup).map fun connection => { t with connection }

end Machine

section Pace

def pushes (state : ConnectionState C) : ClientMessage C → Bool
  | .queryCache _ | .sslRequest | .sync (.cacheBatch _ _) _ | .sync (.synthesized _) _ => true
  | .sync _ _ | .flush _ _ | .closeForward => 0 < state.deferredCloseCompletes
  | .queryForward _ | .closeLocal | .forwardUnslotted | .other => false

def passesCloses : ClientMessage C → Bool
  | .queryForward _ | .queryCache _ | .sslRequest | .forwardUnslotted => true
  | .sync _ _ | .flush _ _ | .closeLocal | .closeForward | .other => false

def takesOwn (state next : ConnectionState C) (replies : List Reply) : Bool :=
  next.originIntercept = state.originIntercept || screens next.originIntercept replies

/-- What keeps the responses in order. After a Flush a client goes on only when no response before
it is outstanding; what is answered locally finds no reply on the way that has no slot; deferred
`CloseComplete`s are not passed by; a reply without a slot comes only while the end of its response
does; and an intercept cannot take another answer for its own. -/
def Paced (t : Traffic C) : Exchange C → Prop
  | .client msg answer =>
    (t.connection.flushDescribePending = true → leading t.connection.egress.slots = 0) ∧
    (pushes t.connection msg = true →
      NoneForClient (loose t.connection.flushDescribeSeal.egress.slots t.wire)) ∧
    (passesCloses msg = true → t.connection.deferredCloseCompletes = 0) ∧
    takesOwn t.connection (t.connection.handleClientMessage msg) (t.wire ++ answer) = true
  | .origin probe answer =>
    match t.wire with
    | [] => True
    | reply :: wire =>
      (reply.forClient = true → unsealed t.connection.egress.slots = 0 →
        t.connection.flushDescribePending = true ∨ 0 < sealing (reply :: wire)) ∧
      probe.all (fun kind => screens kind.intercept (wire ++ answer)) = true
  | .dispatch outcome answer =>
    (t.connection.step (.dispatch outcome)).all
      (fun next => takesOwn t.connection next (t.wire ++ answer)) = true
  | .reply outcome _ answer =>
    (t.connection.step (.reply outcome)).all
      (fun next => takesOwn t.connection next (t.wire ++ answer)) = true
  | .write _ | .hangup => True

end Pace

end PgCache.Proxy.Stream
