/- source: proxy/connection/transaction_isolation.rs, proxy/connection/relay.rs,
     proxy/connection/search_path_intercept.rs, proxy/connection/extended.rs, proxy/query.rs
   digest: The tracked isolation level against the block origin is really in, over every
     interleaving of forwarded requests and their answers. -/
import PgCache.Data.Machine
import PgCache.Proxy.Isolation

set_option autoImplicit false

namespace PgCache.Proxy.IsolationRun

open Connection Data.Machine Isolation Tracker List

structure Block where
  level : IsolationLevel
  failed : Bool
  deriving DecidableEq

/-- The session of the server: `default_transaction_isolation` as it reads now, as it will read
once the transaction has committed and once it has rolled back, and the open block. -/
structure Origin where
  default : IsolationLevel
  onCommit : IsolationLevel
  onRollback : IsolationLevel
  block : Option Block
  deriving DecidableEq

namespace Origin

def status (origin : Origin) : TransactionStatus :=
  match origin.block with
  | none => .idle
  | some block => if block.failed then .failed else .inTransaction

def committed (origin : Origin) : Origin :=
  ⟨origin.onCommit, origin.onCommit, origin.onCommit, none⟩

def rolledBack (origin : Origin) : Origin :=
  ⟨origin.onRollback, origin.onRollback, origin.onRollback, none⟩

def chained (origin : Origin) (chain : Bool) (level : IsolationLevel) : Origin :=
  if chain then { origin with block := some ⟨level, false⟩ } else origin

def errored (origin : Origin) : Origin :=
  match origin.block with
  | some block => { origin with block := some { block with failed := true } }
  | none => origin.rolledBack

/-- The statements other than COMMIT and ROLLBACK, where they succeed. BEGIN inside a block is a
warning, but its level is applied; SET TRANSACTION outside one does nothing. -/
def applied (origin : Origin) : Statement → Origin
  | .begin level =>
    { origin with
      block := some (match origin.block with
        | some block => { block with level := level.getD block.level }
        | none => ⟨level.getD origin.default, false⟩) }
  | .setTransaction level _ =>
    { origin with block := origin.block.map fun block => { block with level } }
  | .setDefault level _ isLocal =>
    { origin with
      default := level
      onCommit := if isLocal then origin.onCommit else level }
  | .commit _ | .rollback _ | .other _ => origin

def ended (origin : Origin) (commits chain : Bool) : Origin × Bool :=
  let next := if commits then origin.committed else origin.rolledBack
  match origin.block with
  | some block => (next.chained chain block.level, true)
  | none => if chain then (origin.errored, false) else (next, true)

/-- One statement, and whether it succeeds; `error` makes it fail where it could succeed. COMMIT
of a failed block rolls back, and a COMMIT that fails ends the block. -/
def exec (origin : Origin) (statement : Statement) (error : Bool) : Origin × Bool :=
  let failed := origin.block.any Block.failed
  match statement with
  | .commit chain => if error then (origin.rolledBack, false) else origin.ended (!failed) chain
  | .rollback chain => origin.ended false chain
  | statement =>
    if failed || error then (origin.errored, false) else (origin.applied statement, true)

def ran (origin : Origin) : List Statement → List Bool → Origin
  | [], _ => origin
  | statement :: statements, errors =>
    let (next, succeeded) := origin.exec statement (errors.headD false)
    if succeeded then next.ran statements errors.tail else next

def ready (origin : Origin) : Origin :=
  if origin.block = none then origin.committed else origin

def answered (origin : Origin) (statements : List Statement) (errors : List Bool) : Origin :=
  (origin.ran statements errors).ready

end Origin

/-- What the client sends up to one `ReadyForQuery`: a simple query, or an extended group ended by
Sync with the statements it parses and those it executes. -/
inductive Request where
  | query (statements : List Statement)
  | group (parsed statements : List Statement)
  deriving DecidableEq

def Request.statements : Request → List Statement
  | .query statements | .group _ statements => statements

def Request.effects : Request → List StatementEffects
  | .query [statement] => [nonSelectClassify statement]
  | .query _ => [.default]
  | .group _ statements => statements.map nonSelectClassify

/-- The search path inspection of a request, which may append `; SHOW search_path` to it. -/
def Request.inspected (tracker : Tracker) : Request → Tracker × Request
  | .query statements =>
    let (tracker, appended) :=
      tracker.searchPathInspectQuery (searchPathMutationsRaw statements)
    (tracker, .query (if appended then statements ++ [.other none] else statements))
  | .group parsed statements =>
    (tracker.searchPathParseInspect (searchPathMutationsRaw parsed), .group parsed statements)

inductive Flight where
  | request (request : Request)
  | probe (probe : Probe)
  deriving DecidableEq

def Flight.isRequest : Flight → Bool
  | .request _ => true
  | .probe _ => false

structure System where
  tracker : Tracker
  origin : Origin
  wire : List Flight
  unsealed : Nat
  deriving DecidableEq

def effectsApply (tracker : Tracker) (request : Request) : Tracker :=
  request.effects.foldl isolationEffectsApply tracker

/-- A client request is forwarded, perhaps with a Parse in front, or origin answers the oldest
thing it was sent. `errors` says which statements fail, `messages` what a client request is
answered with before the `ReadyForQuery`, `unstamped` whether the write log then holds a write
without an LSN while the proxy reads and has nothing left to write. -/
inductive Event where
  | forward (request : Request) (lazyParse : Bool)
  | answer (errors : List Bool) (messages : List Message) (unstamped : Bool)
  deriving DecidableEq

def Origin.shown (origin : Origin) (probe : Probe) : List Message :=
  if origin.status = .failed then [⟨.errorResponse, none⟩]
  else
    let level := if probe = .isolation then some origin.default else none
    [⟨.rowDescription, none⟩, ⟨.dataRows, level⟩, ⟨.commandComplete, none⟩]

namespace System

def originAfter (origin : Origin) (flight : Flight) (errors : List Bool) : Origin :=
  match flight with
  | .request request => origin.answered request.statements errors
  | .probe _ => origin

def messagesOf (origin : Origin) (flight : Flight) (messages : List Message) : List Message :=
  match flight with
  | .request _ => messages
  | .probe probe => origin.shown probe

def received (s : System) (flight : Flight) (rest : List Flight) (errors : List Bool)
    (messages : List Message) (unstamped : Bool) : System :=
  let origin := originAfter s.origin flight errors
  let (tracker, consumed, probe) :=
    s.tracker.answerHandle (messagesOf s.origin flight messages) origin.status
  let unsealed := if consumed then s.unsealed else s.unsealed - 1
  let (tracker, lsnProbe) := tracker.writeLogMaintain (unstamped && unsealed == 0)
  { tracker
    origin
    wire := rest ++ (probe.toList ++ lsnProbe.toList).map .probe
    unsealed }

def step (s : System) : Event → Option System
  | .forward request lazyParse =>
    let (tracker, request) := request.inspected s.tracker
    some { s with
      tracker := (effectsApply tracker request).lazyParseInstall lazyParse
      wire := s.wire ++ [.request request]
      unsealed := s.unsealed + 1 }
  | .answer errors messages unstamped =>
    match s.wire with
    | [] => none
    | flight :: rest =>
      if messages.all fun msg => msg.messageType ≠ .readyForQuery then
        some (s.received flight rest errors messages unstamped)
      else none

def start (reported : Bool) (level : IsolationLevel) : System :=
  let (tracker, probe) := (new reported).readyForQueryHandle .idle
  { tracker
    origin := ⟨level, level, level, none⟩
    wire := probe.toList.map .probe
    unsealed := 0 }

def probeSent (s : System) (errors : List Bool) (messages : List Message) : Option Probe :=
  s.wire.head?.bind fun flight =>
    (s.tracker.answerHandle (messagesOf s.origin flight messages)
      (originAfter s.origin flight errors).status).2.2

end System

def Statement.isOther : Statement → Bool
  | .other _ => true
  | .begin _ | .setTransaction _ _ | .setDefault _ _ _ | .commit _ | .rollback _ => false

/-- A statement that leaves the level of a block to the session default or sets it to READ
COMMITTED. -/
def Plain : Statement → Prop
  | .begin level => level = none ∨ level = some .readCommitted
  | .setTransaction level readable => level = .readCommitted ∧ readable = true
  | .setDefault _ _ _ => False
  | .commit _ | .rollback _ | .other _ => True

instance : DecidablePred Plain
  | .begin level => inferInstanceAs (Decidable (level = none ∨ level = some .readCommitted))
  | .setTransaction level readable =>
    inferInstanceAs (Decidable (level = .readCommitted ∧ readable = true))
  | .setDefault _ _ _ => .isFalse id
  | .commit _ | .rollback _ | .other _ => .isTrue trivial

/-- At most one statement of transactions, and that one plain. -/
def Ordinary : List Statement → Prop
  | [] => True
  | statement :: statements =>
    Statement.isOther statement = true ∧ Ordinary statements ∨
      Plain statement ∧ statements.all Statement.isOther = true

instance : DecidablePred Ordinary
  | [] => .isTrue trivial
  | _ :: statements =>
    have := instDecidablePredListStatementOrdinary statements
    inferInstanceAs (Decidable (_ ∧ _ ∨ _ ∧ _))

/-- A statement that is not plain is sent while no answer to a request is outstanding, and as it
is: BEGIN with a level outside a block only, and a change of the session default only while that
default is not being probed. -/
def SentAlone (s : System) (request : Request) : Prop :=
  s.wire.all (fun flight => !flight.isRequest) = true ∧
    (request.inspected s.tracker).2 = request ∧
    match request.statements with
    | [.begin _] => s.tracker.transactionStatus = .idle
    | [.setDefault _ _ _] => s.tracker.originIntercept ≠ .defaultTransactionIsolation
    | [.setTransaction _ _] => True
    | _ => False

instance (s : System) (request : Request) : Decidable (SentAlone s request) := by
  unfold SentAlone
  split <;> infer_instance

/-- The client does not run ahead of the answers its transaction statements depend on, nor of an
answer at which the proxy sends a SHOW of its own. -/
def InStep (s : System) : Event → Prop
  | .forward request _ => Ordinary request.statements ∨ SentAlone s request
  | .answer errors messages _ =>
    s.probeSent errors messages = none ∨
      s.wire.tail.all (fun flight => !flight.isRequest) = true

instance (s : System) : DecidablePred (InStep s)
  | .forward request _ =>
    inferInstanceAs (Decidable (Ordinary request.statements ∨ SentAlone s request))
  | .answer _ _ _ => inferInstanceAs (Decidable (_ = none ∨ _ = true))

def Prepared (tracker : Tracker) (origin : Origin) : Statement → Prop
  | .begin _ => tracker.pendingBlockIsolation ≠ none ∧ origin.block = none
  | .setTransaction _ _ => origin.block ≠ none → tracker.blockIsolation ≠ .known .readCommitted
  | .setDefault _ _ _ => tracker.sessionIsolation ≠ .known .readCommitted ∧
      tracker.originIntercept ≠ .defaultTransactionIsolation
  | .commit _ | .rollback _ | .other _ => False

def Waiting (tracker : Tracker) (origin : Origin) : List Request → Prop
  | [] => True
  | first :: later =>
    (Ordinary first.statements ∨
      ∃ statement, first.statements = [statement] ∧ Prepared tracker origin statement) ∧
      ∀ request ∈ later, Ordinary request.statements

def DefaultsCommitted (origin : Origin) : Prop :=
  origin.default = .readCommitted ∧ origin.onCommit = .readCommitted ∧
    origin.onRollback = .readCommitted

def Settled (origin : Origin) : Prop :=
  origin.block = none → origin.onCommit = origin.default ∧ origin.onRollback = origin.default

structure Believed (tracker : Tracker) (origin : Origin) : Prop where
  settled : Settled origin
  session : tracker.sessionIsolation = .known .readCommitted → DefaultsCommitted origin
  block : ∀ block, origin.block = some block →
    tracker.blockIsolation = .known .readCommitted → block.level = .readCommitted

structure Agrees (tracker : Tracker) (origin : Origin) : Prop extends Believed tracker origin where
  status : tracker.transactionStatus = origin.status
  pending : tracker.pendingBlockIsolation ≠ some .readCommitted

def ProbeFirst (tracker : Tracker) (origin : Origin) (wire requests : List Flight) : Prop :=
  tracker.originIntercept.swallows = false ∧ wire = requests ∨
    ∃ probe : Probe, tracker.originIntercept = probe.intercept ∧ wire = .probe probe :: requests ∧
      (probe = .isolation → origin.block = none)

structure Tracked (s : System) : Prop extends Agrees s.tracker s.origin where
  wire : ∃ requests, Waiting s.tracker s.origin requests ∧ s.unsealed = requests.length ∧
    ProbeFirst s.tracker s.origin s.wire (requests.map .request)

structure Moved (tracker : Tracker) (origin after : Origin) : Prop where
  session : tracker.sessionIsolation = .known .readCommitted → DefaultsCommitted after
  entered : origin.block = none → ∀ block, after.block = some block →
    tracker.pendingBlockIsolation = none → tracker.sessionIsolation = .known .readCommitted →
    block.level = .readCommitted
  stayed : origin.block ≠ none → ∀ block, after.block = some block →
    tracker.blockIsolation = .known .readCommitted → block.level = .readCommitted

variable {origin after : Origin} {tracker next : Tracker} {statement : Statement}
  {request : Request} {s : System} {requests : List Request} {statements : List Statement}

theorem DefaultsCommitted.ended (reads : DefaultsCommitted origin) :
    DefaultsCommitted origin.committed ∧ DefaultsCommitted origin.rolledBack :=
  ⟨⟨reads.2.1, reads.2.1, reads.2.1⟩, reads.2.2, reads.2.2, reads.2.2⟩

theorem moved_outside (closed : after.block = none)
    (reads : tracker.sessionIsolation = .known .readCommitted → DefaultsCommitted after) :
    Moved tracker origin after := by
  refine ⟨reads, ?_, ?_⟩ <;>
  · intro _ block opened
    exact absurd (closed.symm.trans opened) nofun

theorem moved_inside {block last : Block} (inside : origin.block = some block)
    (opened : after.block = some last)
    (reads : tracker.sessionIsolation = .known .readCommitted → DefaultsCommitted after)
    (level : tracker.blockIsolation = .known .readCommitted → last.level = .readCommitted) :
    Moved tracker origin after := by
  refine ⟨reads, ?_, ?_⟩
  · intro outside
    exact absurd (outside.symm.trans inside) nofun
  · intro _ other isOther known
    obtain rfl : last = other := Option.some_inj.mp (opened.symm.trans isOther)
    exact level known

theorem moved_refl (believed : Believed tracker origin) : Moved tracker origin origin := by
  cases hm : origin.block with
  | none => exact moved_outside hm believed.session
  | some block => exact moved_inside hm hm believed.session (believed.block block hm)

theorem Moved.errored (moved : Moved tracker origin after) :
    Moved tracker origin after.errored := by
  unfold Origin.errored
  cases opened : after.block with
  | none => exact moved_outside rfl fun known => (moved.session known).ended.2
  | some block =>
    refine ⟨moved.session, fun outside last isLast => ?_, fun inside last isLast => ?_⟩
    · obtain rfl : ({ block with failed := true } : Block) = last := Option.some_inj.mp isLast
      exact moved.entered outside block opened
    · obtain rfl : ({ block with failed := true } : Block) = last := Option.some_inj.mp isLast
      exact moved.stayed inside block opened

theorem Moved.ready (moved : Moved tracker origin after) : Moved tracker origin after.ready := by
  unfold Origin.ready
  split
  · exact moved_outside rfl fun known => (moved.session known).ended.1
  · exact moved

theorem settled_ready (origin : Origin) : Settled origin.ready := by
  unfold Origin.ready
  split
  · exact fun _ => ⟨rfl, rfl⟩
  · next opened => exact fun closed => absurd closed opened

theorem moved_applied (believed : Believed tracker origin)
    (fits : Plain statement ∨ Prepared tracker origin statement) :
    Moved tracker origin (origin.applied statement) := by
  cases statement with
  | begin level =>
    cases hm : origin.block with
    | none =>
      have opened : (origin.applied (.begin level)).block =
          some ⟨level.getD origin.default, false⟩ := by
        simp only [Origin.applied, hm]
      refine ⟨believed.session, ?_, ?_⟩
      · intro _ last isLast pending hk
        cases opened.symm.trans isLast
        rcases fits with (rfl | rfl) | prepared
        · exact (believed.session hk).1
        · rfl
        · exact absurd pending prepared.1
      · intro occupied
        exact absurd hm occupied
    | some block =>
      have opened : (origin.applied (.begin level)).block =
          some { block with level := level.getD block.level } := by
        simp only [Origin.applied, hm]
      refine moved_inside hm opened believed.session fun hk => ?_
      rcases fits with (rfl | rfl) | prepared
      · exact believed.block block hm hk
      · rfl
      · exact absurd (prepared.2.symm.trans hm) nofun
  | setTransaction level readable =>
    cases hm : origin.block with
    | none =>
      refine moved_outside ?_ believed.session
      simp only [Origin.applied, hm, Option.map_none]
    | some block =>
      have opened : (origin.applied (.setTransaction level readable)).block =
          some { block with level } := by
        simp only [Origin.applied, hm, Option.map_some]
      refine moved_inside hm opened believed.session fun hk => ?_
      rcases fits with plain | prepared
      · exact plain.1
      · exact absurd hk (prepared (by rw [hm]; nofun))
  | setDefault level text isLocal =>
    have changed : tracker.sessionIsolation ≠ .known .readCommitted := by
      rcases fits with plain | prepared
      · exact plain.elim
      · exact prepared.1
    cases hm : origin.block with
    | none => exact moved_outside hm fun hk => absurd hk changed
    | some block =>
      exact moved_inside hm hm (fun hk => absurd hk changed) (believed.block block hm)
  | commit | rollback | other => exact moved_refl believed

theorem moved_ended (commits chain : Bool) (believed : Believed tracker origin) :
    Moved tracker origin (origin.ended commits chain).1 := by
  obtain ⟨last, isLast, closed, reads⟩ : ∃ last : Origin,
      (if commits then origin.committed else origin.rolledBack) = last ∧ last.block = none ∧
        (tracker.sessionIsolation = .known .readCommitted → DefaultsCommitted last) := by
    cases commits
    · exact ⟨_, rfl, rfl, fun known => (believed.session known).ended.2⟩
    · exact ⟨_, rfl, rfl, fun known => (believed.session known).ended.1⟩
  unfold Origin.ended
  rw [isLast]
  cases hm : origin.block with
  | none =>
    cases chain
    · exact moved_outside closed reads
    · exact (moved_refl believed).errored
  | some block =>
    cases chain with
    | false => exact moved_outside closed reads
    | true => exact moved_inside hm rfl reads (believed.block block hm)

theorem moved_exec (believed : Believed tracker origin)
    (fits : Plain statement ∨ Prepared tracker origin statement) (error : Bool) :
    Moved tracker origin (origin.exec statement error).1 := by
  cases statement with
  | commit chain =>
    cases error with
    | false => exact moved_ended _ chain believed
    | true => exact moved_outside rfl fun known => (believed.session known).ended.2
  | rollback chain => exact moved_ended false chain believed
  | begin | setTransaction | setDefault | other =>
    dsimp only [Origin.exec]
    split
    · exact (moved_refl believed).errored
    · exact moved_applied believed fits

theorem eq_other (isOther : Statement.isOther statement = true) :
    ∃ mutation, statement = .other mutation := by
  cases statement with
  | other mutation => exact ⟨mutation, rfl⟩
  | _ => cases isOther

theorem Moved.others (moved : Moved tracker origin after)
    (others : statements.all Statement.isOther = true) (errors : List Bool) :
    Moved tracker origin (after.ran statements errors) := by
  induction statements generalizing errors with
  | nil => exact moved
  | cons statement statements ih =>
    obtain ⟨isOther, rest⟩ := Bool.and_eq_true_iff.mp (List.all_cons ▸ others)
    obtain ⟨mutation, rfl⟩ := eq_other isOther
    dsimp only [Origin.ran, Origin.exec]
    split
    · exact moved.errored
    · exact ih rest errors.tail

theorem moved_ordinary (believed : Believed tracker origin) (ordinary : Ordinary statements)
    (errors : List Bool) : Moved tracker origin (origin.ran statements errors) := by
  induction statements generalizing errors with
  | nil => exact moved_refl believed
  | cons statement statements ih =>
    rcases ordinary with ⟨isOther, rest⟩ | ⟨plain, others⟩
    · obtain ⟨mutation, rfl⟩ := eq_other isOther
      dsimp only [Origin.ran, Origin.exec]
      split
      · exact (moved_refl believed).errored
      · exact ih rest errors.tail
    · have moved := moved_exec believed (.inl plain) (errors.headD false)
      dsimp only [Origin.ran]
      split
      · exact moved.others others errors.tail
      · exact moved

theorem moved_answered {first : Request} {later : List Request}
    (believed : Believed tracker origin) (waiting : Waiting tracker origin (first :: later))
    (errors : List Bool) : Moved tracker origin (origin.answered first.statements errors) := by
  rcases waiting.1 with ordinary | ⟨statement, single, prepared⟩
  · exact (moved_ordinary believed ordinary errors).ready
  · have ran : origin.ran [statement] errors = (origin.exec statement (errors.headD false)).1 :=
      ite_self _
    rw [single, Origin.answered, ran]
    exact (moved_exec believed (.inr prepared) _).ready

theorem effectsApply_tightens (tracker : Tracker) (request : Request) :
    Tightened tracker (effectsApply tracker request) := by
  unfold effectsApply
  induction request.effects generalizing tracker with
  | nil => exact .refl tracker
  | cons effects rest ih =>
    exact (tracker.isolationEffectsApply_tightens effects).trans (ih _)

theorem kept_plain (tracker : Tracker) (plain : Plain statement) :
    Kept tracker (tracker.isolationEffectsApply (nonSelectClassify statement)) := by
  cases statement with
  | begin level => rcases plain with rfl | rfl <;> exact ⟨rfl, rfl, rfl, rfl, .inl rfl⟩
  | setTransaction level readable =>
    obtain ⟨rfl, rfl⟩ := plain
    exact ⟨rfl, rfl, rfl, rfl, .inl rfl⟩
  | setDefault => exact plain.elim
  | commit chain | rollback chain => cases chain <;> exact ⟨rfl, rfl, rfl, rfl, .inl rfl⟩
  | other => exact ⟨rfl, rfl, rfl, rfl, .inl rfl⟩

theorem Ordinary.plain (ordinary : Ordinary statements) :
    ∀ statement ∈ statements, Plain statement := by
  have ofOther : ∀ statement, Statement.isOther statement = true → Plain statement := by
    intro statement isOther
    obtain ⟨mutation, rfl⟩ := eq_other isOther
    trivial
  induction statements with
  | nil => nofun
  | cons statement statements ih =>
    rcases ordinary with ⟨isOther, rest⟩ | ⟨plain, others⟩
    · exact forall_mem_cons.mpr ⟨ofOther statement isOther, ih rest⟩
    · exact forall_mem_cons.mpr ⟨plain, fun other among =>
        ofOther other (all_eq_true.mp others other among)⟩

theorem kept_ordinary (tracker : Tracker) (ordinary : Ordinary request.statements) :
    Kept tracker (effectsApply tracker request) := by
  have folded : ∀ (statements : List Statement) (tracker : Tracker),
      (∀ statement ∈ statements, Plain statement) →
      Kept tracker ((statements.map nonSelectClassify).foldl isolationEffectsApply tracker) := by
    intro statements
    induction statements with
    | nil => exact fun _ _ => ⟨rfl, rfl, rfl, rfl, .inl rfl⟩
    | cons statement statements ih =>
      intro tracker plain
      have here := kept_plain tracker (plain statement mem_cons_self)
      exact here.trans (ih _ fun other among => plain other (mem_cons_of_mem _ among))
  cases request with
  | group parsed statements => exact folded statements tracker ordinary.plain
  | query statements =>
    rcases statements with _ | ⟨statement, _ | ⟨snd, statements⟩⟩
    · exact ⟨rfl, rfl, rfl, rfl, .inl rfl⟩
    · exact folded [statement] tracker ordinary.plain
    · exact ⟨rfl, rfl, rfl, rfl, .inl rfl⟩

theorem kept_inspected (tracker : Tracker) (request : Request) :
    Kept tracker (request.inspected tracker).1 := by
  cases request with
  | query statements => exact kept_searchPathInspectQuery tracker _
  | group parsed statements => exact ⟨rfl, rfl, rfl, rfl, .inl rfl⟩

theorem Ordinary.append (ordinary : Ordinary statements) :
    Ordinary (statements ++ [.other none]) := by
  induction statements with
  | nil => exact .inl ⟨rfl, trivial⟩
  | cons statement statements ih =>
    rcases ordinary with ⟨isOther, rest⟩ | ⟨plain, others⟩
    · exact .inl ⟨isOther, ih rest⟩
    · refine .inr ⟨plain, ?_⟩
      change (statements ++ [Statement.other none]).all Statement.isOther = true
      rw [all_append, others]
      rfl

theorem ordinary_inspected (tracker : Tracker) (ordinary : Ordinary request.statements) :
    Ordinary (request.inspected tracker).2.statements := by
  cases request with
  | group => exact ordinary
  | query statements =>
    simp only [Request.inspected, Request.statements]
    split
    · exact Ordinary.append ordinary
    · exact ordinary

theorem status_idle_iff (origin : Origin) : origin.status = .idle ↔ origin.block = none := by
  unfold Origin.status
  cases origin.block with
  | none => simp
  | some block => cases failed : block.failed <;> simp [failed]

theorem Agrees.inTransaction (agrees : Agrees tracker origin) :
    tracker.inTransaction = decide (origin.block ≠ none) := by
  unfold Tracker.inTransaction
  rw [agrees.status]
  exact decide_eq_decide.mpr (status_idle_iff origin).not

theorem Agrees.outside (agrees : Agrees tracker origin) (idle : tracker.inTransaction = false) :
    origin.block = none :=
  not_not.mp (of_decide_eq_false (agrees.inTransaction.symm.trans idle))

theorem Agrees.tightened (agrees : Agrees tracker origin) (tightened : Tightened tracker next) :
    Agrees next origin :=
  { settled := agrees.settled
    session := fun known => agrees.session (tightened.session known)
    block := fun block opened known => agrees.block block opened (tightened.block known)
    status := tightened.status.trans agrees.status
    pending := fun same => agrees.pending (tightened.pending same) }

theorem Prepared.kept (prepared : Prepared tracker origin statement) (kept : Kept tracker next) :
    Prepared next origin statement := by
  cases statement with
  | begin => exact ⟨kept.pending ▸ prepared.1, prepared.2⟩
  | setTransaction => exact fun inside => kept.block ▸ prepared inside
  | setDefault =>
    refine ⟨kept.session ▸ prepared.1, fun probed => ?_⟩
    rcases kept.intercept with same | ⟨calm, _⟩
    · exact prepared.2 (same.symm.trans probed)
    · rw [probed] at calm
      cases calm
  | commit | rollback | other => exact prepared

theorem Waiting.kept (waiting : Waiting tracker origin requests) (kept : Kept tracker next) :
    Waiting next origin requests := by
  cases requests with
  | nil => trivial
  | cons first later =>
    refine ⟨waiting.1.imp id ?_, waiting.2⟩
    rintro ⟨statement, single, prepared⟩
    exact ⟨statement, single, prepared.kept kept⟩

theorem Waiting.append (waiting : Waiting tracker origin requests)
    (ordinary : Ordinary request.statements) :
    Waiting tracker origin (requests ++ [request]) := by
  cases requests with
  | nil => exact ⟨.inl ordinary, nofun⟩
  | cons first later =>
    refine ⟨waiting.1, fun other among => ?_⟩
    rcases mem_append.mp among with among | new
    · exact waiting.2 other among
    · exact mem_singleton.mp new ▸ ordinary

theorem Waiting.of_ordinary (ordinary : ∀ request ∈ requests, Ordinary request.statements) :
    Waiting tracker origin requests := by
  cases requests with
  | nil => trivial
  | cons first later =>
    exact ⟨.inl (ordinary first mem_cons_self),
      fun request among => ordinary request (mem_cons_of_mem _ among)⟩

theorem ProbeFirst.sameProbe {wire flights : List Flight}
    (first : ProbeFirst tracker origin wire flights) (same : SameProbe tracker next) :
    ProbeFirst next origin wire flights := by
  rcases first with ⟨calm, isWire⟩ | ⟨probe, taken, isWire, idle⟩
  · refine .inl ⟨?_, isWire⟩
    rcases same with same | ⟨still, _⟩
    · exact same ▸ calm
    · exact still
  · refine .inr ⟨probe, ?_, isWire, idle⟩
    rcases same with same | ⟨_, free⟩
    · exact same.trans taken
    · rw [taken] at free
      cases probe <;> cases free

theorem ProbeFirst.append {wire flights : List Flight} (flight : Flight)
    (first : ProbeFirst tracker origin wire flights) :
    ProbeFirst tracker origin (wire ++ [flight]) (flights ++ [flight]) := by
  rcases first with ⟨calm, isWire⟩ | ⟨probe, taken, isWire, idle⟩
  · exact .inl ⟨calm, congrArg (· ++ _) isWire⟩
  · exact .inr ⟨probe, taken, congrArg (· ++ _) isWire, idle⟩

theorem requests_nil
    (quiet : (requests.map Flight.request).all (fun flight => !flight.isRequest) = true) :
    requests = [] := by
  cases requests with
  | nil => rfl
  | cons first later => cases quiet

theorem ProbeFirst.quiet {wire : List Flight}
    (first : ProbeFirst tracker origin wire (requests.map .request))
    (quiet : wire.all (fun flight => !flight.isRequest) = true) : requests = [] := by
  rcases first with ⟨_, rfl⟩ | ⟨probe, _, rfl, _⟩ <;> exact requests_nil quiet

theorem block_tightened (inside : tracker.inTransaction = true) {level : IsolationLevel}
    (strict : level ≠ .readCommitted) :
    (tracker.transactionIsolationApply level false).blockIsolation = .known level := by
  have forwarding : tracker.forwardingIntoBlock = true := by
    rw [forwardingIntoBlock, inside, Bool.true_or]
  rw [transactionIsolationApply, if_neg strict, if_neg Bool.false_ne_true, if_pos forwarding]

theorem prepared_forwarded (agrees : Agrees tracker origin) (tight : ¬ Plain statement)
    (begins : (∃ level, statement = .begin level) → tracker.transactionStatus = .idle)
    (unprobed : (∃ level text isLocal, statement = .setDefault level text isLocal) →
      tracker.originIntercept ≠ .defaultTransactionIsolation) :
    Prepared (tracker.isolationEffectsApply (nonSelectClassify statement)) origin statement := by
  cases statement with
  | begin level =>
    refine ⟨?_, (status_idle_iff _).mp (agrees.status.symm.trans (begins ⟨level, rfl⟩))⟩
    rcases level with _ | _ | _ | _
    · exact absurd (.inl rfl) tight
    · exact absurd (.inr rfl) tight
    · nofun
    · nofun
  | setTransaction level readable =>
    intro inside
    have forwarded : tracker.inTransaction = true := by
      rw [agrees.inTransaction]
      exact decide_eq_true inside
    have tightened : ∀ strict : IsolationLevel, strict ≠ .readCommitted →
        (tracker.transactionIsolationApply strict false).blockIsolation ≠
          .known .readCommitted := by
      intro strict isStrict
      rw [block_tightened forwarded isStrict]
      exact fun same => isStrict (IsolationState.known.inj same)
    cases readable with
    | false => exact tightened .serializable nofun
    | true => exact tightened level fun same => tight ⟨same, rfl⟩
  | setDefault level text isLocal =>
    have free := unprobed ⟨level, text, isLocal, rfl⟩
    cases text <;> cases isLocal <;> cases level <;> exact ⟨nofun, free⟩
  | commit | rollback | other => exact absurd trivial tight

theorem effectsApply_single (single : request.statements = [statement]) :
    effectsApply tracker request =
      tracker.isolationEffectsApply (nonSelectClassify statement) := by
  cases request with
  | query statements | group parsed statements =>
    cases (single : statements = [statement])
    rfl

theorem SentAlone.prepared (alone : SentAlone s request)
    (agrees : Agrees (request.inspected s.tracker).1 s.origin)
    (tight : ¬ Ordinary request.statements) :
    ∃ statement, request.statements = [statement] ∧
      Prepared (effectsApply (request.inspected s.tracker).1 request) s.origin statement := by
  obtain ⟨-, -, sent⟩ := alone
  have kept := kept_inspected s.tracker request
  have single : ∀ statement, request.statements = [statement] →
      ((∃ level, statement = .begin level) → s.tracker.transactionStatus = .idle) →
      ((∃ level text isLocal, statement = .setDefault level text isLocal) →
        s.tracker.originIntercept ≠ .defaultTransactionIsolation) →
      ∃ statement, request.statements = [statement] ∧
        Prepared (effectsApply (request.inspected s.tracker).1 request) s.origin statement := by
    intro statement isSingle begins unprobed
    have strict : ¬ Plain statement := by
      rw [isSingle] at tight
      exact fun plain => tight (.inr ⟨plain, rfl⟩)
    refine ⟨statement, isSingle, ?_⟩
    rw [effectsApply_single isSingle]
    refine prepared_forwarded agrees strict (fun isBegin => kept.status.trans (begins isBegin)) ?_
    intro changes probed
    rcases kept.intercept with same | ⟨calm, _⟩
    · exact unprobed changes (same.symm.trans probed)
    · rw [probed] at calm
      cases calm
  split at sent
  · next isSingle => exact single _ isSingle (fun _ => sent) nofun
  · next isSingle => exact single _ isSingle nofun fun _ => sent
  · next isSingle => exact single _ isSingle nofun nofun
  · exact sent.elim

theorem tracked_forward {lazyParse : Bool} {last : System} (tracked : Tracked s)
    (inStep : InStep s (.forward request lazyParse))
    (hs : s.step (.forward request lazyParse) = some last) : Tracked last := by
  cases hs
  obtain ⟨requests, waiting, unsealed, first⟩ := tracked.wire
  have inspected := kept_inspected s.tracker request
  have tightened := effectsApply_tightens (request.inspected s.tracker).1
    (request.inspected s.tracker).2
  have installed := kept_lazyParseInstall
    (effectsApply (request.inspected s.tracker).1 (request.inspected s.tracker).2) lazyParse
  have forwarded := (inspected.tightened.trans tightened).trans installed.tightened
  refine ⟨tracked.toAgrees.tightened forwarded,
    requests ++ [(request.inspected s.tracker).2], ?_, ?_, ?_⟩
  · by_cases ordinary : Ordinary request.statements
    · have later := ordinary_inspected s.tracker ordinary
      have kept := (inspected.trans (kept_ordinary _ later)).trans installed
      exact (waiting.kept kept).append later
    · have alone := inStep.resolve_left ordinary
      obtain rfl := first.quiet alone.1
      obtain ⟨statement, single, prepared⟩ :=
        alone.prepared (tracked.toAgrees.tightened inspected.tightened) ordinary
      rw [← alone.2.1] at single prepared
      refine ⟨.inr ⟨statement, single, ?_⟩, nofun⟩
      exact Prepared.kept (by rwa [alone.2.1] at prepared ⊢) installed
  · rw [length_append, length_singleton, ← unsealed]
  · rw [map_append]
    exact (first.sameProbe forwarded.intercept).append _

theorem transition_cases (before : TransactionStatus) (was : before = origin.status)
    (now : tracker.transactionStatus = after.status) :
    origin.block = none ∧ after.block ≠ none ∧
        tracker.isolationBlockTransition before = tracker.blockEnter ∨
      origin.block ≠ none ∧ after.block = none ∧
        tracker.isolationBlockTransition before = tracker.blockExit ∨
      (origin.block = none ↔ after.block = none) ∧
        tracker.isolationBlockTransition before = tracker := by
  have left : decide (before ≠ .idle) = decide (origin.block ≠ none) := by
    rw [was]
    exact decide_eq_decide.mpr (status_idle_iff origin).not
  have right : tracker.inTransaction = decide (after.block ≠ none) := by
    rw [Tracker.inTransaction, now]
    exact decide_eq_decide.mpr (status_idle_iff after).not
  rw [isolationBlockTransition, left, right]
  by_cases was : origin.block = none <;> by_cases closed : after.block = none <;>
    simp [was, closed]

theorem agrees_transition {before : TransactionStatus} (was : before = origin.status)
    (now : tracker.transactionStatus = after.status) (moved : Moved tracker origin after)
    (settled : Settled after) (pending : tracker.pendingBlockIsolation ≠ some .readCommitted) :
    Agrees (tracker.isolationBlockTransition before) after ∧
      (tracker.isolationBlockTransition before).originIntercept = tracker.originIntercept := by
  rcases transition_cases before was now with ⟨outside, _, isNext⟩ | ⟨_, closed, isNext⟩ |
    ⟨same, isNext⟩
  · rw [isNext]
    refine ⟨⟨⟨settled, moved.session, fun block opened known => ?_⟩, now, nofun⟩, rfl⟩
    cases awaited : tracker.pendingBlockIsolation with
    | none =>
      rw [blockEnter] at known
      simp only [awaited] at known
      exact moved.entered outside block opened awaited known
    | some level =>
      rw [blockEnter] at known
      simp only [awaited] at known
      exact absurd (awaited.trans (congrArg some (IsolationState.known.inj known))) pending
  · rw [isNext]
    refine ⟨⟨⟨settled, fun known => moved.session ?_, fun block opened => ?_⟩, now, pending⟩, rfl⟩
    · rw [blockExit] at known
      simp only at known
      split at known
      · cases known
      · exact known
    · exact absurd (closed.symm.trans opened) nofun
  · rw [isNext]
    refine ⟨⟨⟨settled, moved.session, fun block opened known => ?_⟩, now, pending⟩, rfl⟩
    refine moved.stayed (fun outside => ?_) block opened known
    exact absurd ((same.mp outside).symm.trans opened) nofun

theorem Moved.kept (moved : Moved tracker origin after) (kept : Kept tracker next) :
    Moved next origin after :=
  ⟨fun known => moved.session (kept.session ▸ known),
    fun outside block opened awaited known =>
      moved.entered outside block opened (kept.pending ▸ awaited) (kept.session ▸ known),
    fun inside block opened known => moved.stayed inside block opened (kept.block ▸ known)⟩

theorem kept_messages {messages : List Message} (calm : tracker.originIntercept.swallows = false)
    (unready : ∀ msg ∈ messages, msg.messageType ≠ .readyForQuery) :
    Kept tracker (messages.foldl messageHandle tracker) ∧
      (messages.foldl messageHandle tracker).originIntercept.swallows = false := by
  induction messages generalizing tracker with
  | nil => exact ⟨⟨rfl, rfl, rfl, rfl, .inl rfl⟩, calm⟩
  | cons msg messages ih =>
    have here := kept_messageHandle calm (unready msg mem_cons_self)
    have still := (originInterceptHandle_type tracker.originIntercept
      (unready msg mem_cons_self)).1.trans calm
    obtain ⟨later, last⟩ := @ih (tracker.messageHandle msg) still
      fun other among => unready other (mem_cons_of_mem _ among)
    exact ⟨here.trans later, last⟩

theorem agrees_relayed {messages : List Message} (agrees : Agrees tracker origin)
    (moved : Moved tracker origin after) (settled : Settled after)
    (calm : tracker.originIntercept.swallows = false)
    (unready : ∀ msg ∈ messages, msg.messageType ≠ .readyForQuery) :
    ∃ ready next sent, tracker.answerHandle messages after.status = (next, false, sent) ∧
      Agrees ready after ∧ ready.originIntercept.swallows = false ∧ Sends ready (next, sent) := by
  obtain ⟨kept, still⟩ := kept_messages calm unready
  obtain ⟨relayed, consumed⟩ :=
    originInterceptHandle_ready (messages.foldl messageHandle tracker).originIntercept
  rw [still] at consumed
  have moved := moved.kept kept
  have pending : (messages.foldl messageHandle tracker).pendingBlockIsolation ≠
      some .readCommitted := kept.pending ▸ agrees.pending
  have was := kept.status.trans agrees.status
  simp only [answerHandle, consumed, Bool.false_eq_true, if_false, readyForQueryHandle]
  generalize messages.foldl messageHandle tracker = heard at *
  generalize isFree : { heard with
    originIntercept := (originInterceptHandle heard.originIntercept .readyForQuery).2 } = free
  have movedFree : Moved (free.statusReceive after.status) origin after := by
    rw [← isFree]
    exact ⟨moved.session, moved.entered, moved.stayed⟩
  obtain ⟨agreed, same⟩ := agrees_transition was rfl movedFree settled (by rwa [← isFree])
  refine ⟨_, _, _, rfl, agreed, ?_, sends_sessionDiscoveryInject _⟩
  rw [same, ← isFree]
  exact relayed

theorem shown_heard {probe : Probe} (taken : tracker.originIntercept = probe.intercept)
    (idle : probe = .isolation → origin.block = none) :
    ∃ resolved, (origin.shown probe).foldl messageHandle tracker =
      { tracker with
        sessionIsolation :=
          if probe = .isolation then .known origin.default else tracker.sessionIsolation
        searchPathResolved := resolved } := by
  have healthy : probe = .isolation → origin.status ≠ .failed := by
    intro isolates failed
    rw [(status_idle_iff origin).mpr (idle isolates)] at failed
    cases failed
  unfold Origin.shown
  split
  · next failed =>
    have other : probe ≠ .isolation := fun isolates => healthy isolates failed
    cases probe with
    | isolation => exact absurd rfl other
    | searchPath | walLsn =>
      simp [messageHandle, taken, Probe.intercept, originInterceptHandle]
  · cases probe <;> simp [messageHandle, taken, Probe.intercept, originInterceptHandle]

theorem agrees_swallowed {probe : Probe} (agrees : Agrees tracker origin)
    (waiting : Waiting tracker origin requests) (taken : tracker.originIntercept = probe.intercept)
    (idle : probe = .isolation → origin.block = none) :
    ∃ ready next sent,
      tracker.answerHandle (origin.shown probe) origin.status = (next, true, sent) ∧
      Agrees ready origin ∧ Waiting ready origin requests ∧
      ready.originIntercept.swallows = false ∧ Sends ready (next, sent) := by
  obtain ⟨resolved, heard⟩ := shown_heard taken idle
  have handled : originInterceptHandle probe.intercept .readyForQuery = (true, .none) := by
    cases probe <;> rfl
  simp only [answerHandle, heard, taken, handled, if_true]
  generalize isReady : ({ tracker with
    sessionIsolation :=
      if probe = .isolation then .known origin.default else tracker.sessionIsolation
    originIntercept := .none
    searchPathResolved := resolved } : Tracker) = ready
  refine ⟨ready, _, _, rfl, ?_, ?_, ?_, sends_isolationProbeInject ready⟩ <;> subst isReady
  · refine ⟨⟨agrees.settled, fun known => ?_, agrees.block⟩, agrees.status, agrees.pending⟩
    change (if probe = .isolation then _ else _) = _ at known
    split at known
    · next isolates =>
      have reads : origin.default = .readCommitted := IsolationState.known.inj known
      obtain ⟨onCommit, onRollback⟩ := agrees.settled (idle isolates)
      exact ⟨reads, onCommit.trans reads, onRollback.trans reads⟩
    · exact agrees.session known
  · cases requests with
    | nil => trivial
    | cons first later =>
      refine ⟨waiting.1.imp id ?_, waiting.2⟩
      rintro ⟨statement, single, prepared⟩
      refine ⟨statement, single, ?_⟩
      cases statement with
      | setDefault =>
        have other : probe ≠ .isolation := by
          rintro rfl
          exact prepared.2 taken
        exact ⟨by simpa only [other, if_false] using prepared.1, nofun⟩
      | begin | setTransaction | commit | rollback | other => exact prepared
  · rfl

theorem tracked_sends {ready : Tracker} {result : Tracker × Option Probe}
    (agrees : Agrees ready origin) (waiting : Waiting ready origin requests)
    (calm : ready.originIntercept.swallows = false) (sends : Sends ready result)
    (alone : result.2 = none ∨ requests = []) :
    Tracked ⟨result.1, origin, requests.map .request ++ result.2.toList.map .probe,
      requests.length⟩ := by
  obtain ⟨next, sent⟩ := result
  cases sent with
  | none =>
    obtain rfl : next = ready := sends.unsent rfl
    exact ⟨agrees, requests, waiting, rfl, .inl ⟨calm, append_nil _⟩⟩
  | some probe =>
    obtain ⟨-, isNext, outside⟩ := sends.sent probe rfl
    obtain rfl : requests = [] := alone.resolve_left nofun
    have same : next = { ready with originIntercept := probe.intercept } := isNext
    rw [same]
    refine ⟨⟨⟨agrees.settled, agrees.session, agrees.block⟩, agrees.status, agrees.pending⟩, [],
      trivial, rfl, .inr ⟨probe, rfl, rfl, fun isolates => agrees.outside (outside ?_)⟩⟩
    rw [isolates]
    nofun

theorem writeLogMaintain_taken {ready : Bool} (taken : tracker.originIntercept ≠ .none) :
    tracker.writeLogMaintain ready = (tracker, none) :=
  if_neg fun free => taken free.2.2

theorem tracked_received {ready : Tracker} {messages : List Message} {flight : Flight}
    {errors : List Bool} {consumed : Bool} {sent : Option Probe} (unstamped : Bool)
    (handled : s.tracker.answerHandle (System.messagesOf s.origin flight messages)
      (System.originAfter s.origin flight errors).status = (next, consumed, sent))
    (agrees : Agrees ready (System.originAfter s.origin flight errors))
    (waiting : Waiting ready (System.originAfter s.origin flight errors) requests)
    (calm : ready.originIntercept.swallows = false) (sends : Sends ready (next, sent))
    (unsealed : (if consumed then s.unsealed else s.unsealed - 1) = requests.length)
    (alone : sent = none ∨ requests = []) :
    Tracked (s.received flight (requests.map .request) errors messages unstamped) := by
  simp only [System.received, handled, unsealed]
  cases sent with
  | some probe =>
    have taken : next.originIntercept ≠ .none := by
      have isNext : next = { ready with originIntercept := probe.intercept } :=
        (sends.sent probe rfl).2.1
      rw [isNext]
      cases probe <;> nofun
    simp only [writeLogMaintain_taken taken]
    exact tracked_sends agrees waiting calm sends alone
  | none =>
    obtain rfl : next = ready := sends.unsent rfl
    refine tracked_sends agrees waiting calm (sends_writeLogMaintain next _) ?_
    unfold writeLogMaintain
    split
    · next free =>
      have none : (requests.length == 0) = true := (Bool.and_eq_true_iff.mp free.1).2
      exact .inr (length_eq_zero_iff.mp (beq_iff_eq.mp none))
    · exact .inl rfl

theorem tracked_answer {errors : List Bool} {messages : List Message} {unstamped : Bool}
    {last : System} (tracked : Tracked s) (inStep : InStep s (.answer errors messages unstamped))
    (hs : s.step (.answer errors messages unstamped) = some last) : Tracked last := by
  obtain ⟨requests, waiting, unsealed, first⟩ := tracked.wire
  simp only [System.step] at hs
  cases isWire : s.wire with
  | nil => simp [isWire] at hs
  | cons flight rest =>
    simp only [isWire, Option.ite_none_right_eq_some] at hs
    obtain ⟨unready, hs⟩ := hs
    cases hs
    have unready : ∀ msg ∈ messages, msg.messageType ≠ .readyForQuery := by
      simpa using unready
    simp only [InStep, System.probeSent, isWire, head?_cons, Option.bind_some, tail_cons] at inStep
    rcases first with ⟨calm, same⟩ | ⟨probe, taken, same, idle⟩
    · cases requests with
      | nil => exact absurd (isWire.symm.trans same) nofun
      | cons request later =>
        obtain ⟨rfl, rfl⟩ := cons.inj (isWire.symm.trans same)
        obtain ⟨ready, next, sent, handled, agrees, free, sends⟩ :=
          agrees_relayed tracked.toAgrees (moved_answered tracked.toBelieved waiting errors)
            (settled_ready _) calm unready
        refine tracked_received unstamped handled agrees (.of_ordinary waiting.2) free sends ?_ ?_
        · exact (if_neg Bool.false_ne_true).trans (congrArg (· - 1) unsealed)
        · exact inStep.imp (congrArg (·.2.2) handled).symm.trans requests_nil
    · obtain ⟨rfl, rfl⟩ := cons.inj (isWire.symm.trans same)
      obtain ⟨ready, next, sent, handled, agrees, waits, free, sends⟩ :=
        agrees_swallowed tracked.toAgrees waiting taken idle
      refine tracked_received unstamped handled agrees waits free sends ?_ ?_
      · exact (if_pos rfl).trans unsealed
      · exact inStep.imp (congrArg (·.2.2) handled).symm.trans requests_nil

theorem tracked_step {last : System} {ev : Event} (tracked : Tracked s)
    (inStep : InStep s ev) (hs : s.step ev = some last) : Tracked last := by
  cases ev with
  | forward request lazyParse => exact tracked_forward tracked inStep hs
  | answer errors messages unstamped => exact tracked_answer tracked inStep hs

theorem tracked_start (reported : Bool) (level : IsolationLevel) :
    Tracked (.start reported level) := by
  cases reported
  · exact ⟨⟨⟨fun _ => ⟨rfl, rfl⟩, nofun, nofun⟩, rfl, nofun⟩, [], trivial, rfl,
      .inr ⟨.searchPath, rfl, rfl, nofun⟩⟩
  · exact ⟨⟨⟨fun _ => ⟨rfl, rfl⟩, nofun, nofun⟩, rfl, nofun⟩, [], trivial, rfl,
      .inr ⟨.isolation, rfl, rfl, fun _ => rfl⟩⟩

/-- A read at the head of the egress queue: nothing before it waits for a `ReadyForQuery`, and the
transaction gate lets it be served from the cache. -/
def System.Serves (s : System) : Prop :=
  s.unsealed = 0 ∧ s.tracker.transactionServeCheck = .ok ()

instance (s : System) : Decidable s.Serves := by
  unfold System.Serves
  infer_instance

def Origin.readCommitted (origin : Origin) : Bool :=
  origin.block.all fun block => block.level = .readCommitted

theorem readCommitted_of_tracked (tracked : Tracked s) (serves : s.Serves) :
    s.origin.readCommitted = true := by
  have checked := serves.2
  have status := tracked.status
  unfold Origin.readCommitted
  cases hm : s.origin.block with
  | none => rfl
  | some block =>
    unfold transactionServeCheck at checked
    split at checked
    · next idle =>
      exact absurd (((status_idle_iff _).mp (status.symm.trans idle)).symm.trans hm) nofun
    · cases checked
    · split at checked
      · next hk => exact decide_eq_true (tracked.block block hm hk)
      · cases checked
      · cases checked

def complete : List Message := [⟨.commandComplete, none⟩]

def done : Event := .answer [] complete false

def sent (statement : Statement) : Event := .forward (.query [statement]) false

def orderlyRun : List Event :=
  [done, done, sent (.begin (some .serializable)), done, sent (.commit false),
    .answer [] (complete ++ [⟨.dataRows, none⟩]) false,
    .forward (.group [.other none] [.other none]) true, .answer [] complete true, done,
    sent (.begin none), sent (.other none), done, done]

/-- Nine sessions: whether the server reports its search path, its default, and what happens. -/
def strictReads : List (Bool × IsolationLevel × List Event) :=
  -- SET TRANSACTION behind a BEGIN that is not answered yet: the edge overwrites its level
  [(true, .readCommitted, [done, sent (.begin none), sent (.setTransaction .serializable true),
      done, done]),
    -- both in one Sync group
    (true, .readCommitted,
      [done, .forward (.group [] [.begin none, .setTransaction .serializable true]) false, done]),
    -- BEGIN with a level inside a block, one statement at a time
    (true, .readCommitted, [done, sent (.begin none), done,
      sent (.begin (some .serializable)), done]),
    -- the level of the second block is taken by the edge of the first
    (true, .readCommitted, [done, sent (.begin none), sent (.commit false),
      sent (.begin (some .serializable)), done, done, done]),
    -- the answer of the probe overwrites a default that was set behind it
    (true, .readCommitted, [sent (.setDefault .serializable .value false), done, done,
      sent (.begin none), done]),
    -- a simple query of two statements
    (true, .readCommitted,
      [done, .forward (.query [.begin (some .serializable), .other none]) false, done]),
    -- the probe is sent behind requests, and takes their rows for its own
    (true, .readCommitted, [done, sent (.begin none), done,
      sent (.setDefault .serializable .value false), done, sent (.commit false),
      sent (.other none), sent (.begin none), done,
      .answer [] [⟨.dataRows, some .readCommitted⟩] false, done, done]),
    -- the same behind the probe of the search path
    (false, .serializable, [sent (.begin none), sent (.other none), done, done,
      .answer [] [⟨.dataRows, some .readCommitted⟩] false, done, done]),
    -- RESET ALL: with the SHOW appended it is analyzed as two statements
    (false, .serializable, [done, done, sent (.setDefault .readCommitted .value false), done, done,
      sent (.setDefault .serializable .resetAll false),
      .answer [] (complete ++ [⟨.dataRows, none⟩]) false, sent (.begin none), done])]

end PgCache.Proxy.IsolationRun
