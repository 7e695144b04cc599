/- source: proxy/egress.rs, proxy/connection/relay.rs
   digest: When every response slot of a connection is delivered in the end. -/
import PgCache.Data.Temporal
import PgCache.Proxy.Ledger

set_option autoImplicit false

namespace PgCache.Proxy.Delivery

open Data.Temporal Egress Egress.EgressQueue Connection Ledger ConnectionState EgressSlot Option

variable {C : Type}

structure Run (C : Type) where
  state : Nat → ConnectionState C
  event : Nat → Option (Event C)
  start : state 0 = .new
  next : ∀ n, match event n with
    | none => state (n + 1) = state n
    | some event => (state n).step event = some (state (n + 1))

def canDispatch (state : ConnectionState C) : Prop :=
  state.proxyMode = .originDrain ∧ state.leased = false ∧ state.closed = false ∧
    state.egress.cacheDispatch.1.isSome = true

def canWrite (state : ConnectionState C) : Prop :=
  state.leased = false ∧ state.closed = false ∧ state.egress.hasWritable = true

/-- Origin answers what was forwarded to it with messages that end in `ReadyForQuery`, the client
socket takes bytes, the connection loop goes on, and the worker gives the socket back. -/
structure Run.Fair (run : Run C) : Prop where
  answers : ∀ n, ∃ m, n ≤ m ∧ ((run.state m).closed = true ∨ (run.state m).owed = 0 ∨
    ∃ msg probe, run.event m = some (.origin msg probe) ∧ msg.messageType = .readyForQuery)
  writes : ∀ n, ∃ m, n ≤ m ∧ (¬canWrite (run.state m) ∨ ∃ k, run.event m = some (.write k))
  loops : ∀ n, ∃ m, n ≤ m ∧
    (¬canDispatch (run.state m) ∨ ∃ outcome, run.event m = some (.dispatch outcome))
  serves : ∀ n, ∃ m, n ≤ m ∧ ((run.state m).closed = true ∨ (run.state m).leased = false ∨
    ∃ outcome, run.event m = some (.reply outcome))

/-- No message from origin opens a slot unasked, no Flush slot is sealed before its bytes came,
and the proxy's own probes do not follow each other for ever. -/
structure Run.Calm (run : Run C) : Prop where
  orderly : ∀ n event, run.event n = some event → Orderly (run.state n) event
  probes : ∀ n, ∃ m, n ≤ m ∧ (run.state m).originIntercept.swallows = false

/-- Slot number `i` has left the queue; or it is the slot of a Flush, whose bytes are written as
they come, with nothing behind it; or the connection has ended. -/
def Delivered (i : Nat) (state : ConnectionState C) : Prop :=
  state.closed = true ∨ i < state.egress.popped ∨
    state.egress.popped = i ∧ state.flushDescribePending = true ∧ state.egress.slots.length = 1

def AtHead (i stage : Nat) (state : ConnectionState C) : Prop :=
  state.closed = false ∧ state.egress.popped = i ∧
    ∃ slot, state.egress.slots.head? = some slot ∧ slot.stage = stage

section Steps

variable {state state' : ConnectionState C} {event : Event C}

theorem closed_step (hs : state.step event = some state') (closed : state.closed = true) :
    state'.closed = true := by
  cases event with
  | hangup => rw [← some_inj.mp hs]
  | _ =>
    simp only [step, closed] at hs
    simp at hs

theorem swallows_handleClientMessage (idle : state.originIntercept.swallows = false)
    (msg : ClientMessage C) : (state.handleClientMessage msg).originIntercept.swallows = false := by
  have settled : state.flushDescribeSeal.originIntercept.swallows = false := by
    unfold flushDescribeSeal
    split <;> exact idle
  unfold handleClientMessage
  generalize state.flushDescribeSeal = state at settled
  cases msg with
  | queryForward piggyback =>
    dsimp only
    split
    · rfl
    · exact settled
  | sync plan status =>
    unfold handleSyncMessage
    cases plan with
    | bare => dsimp only; split <;> exact settled
    | forwarded lp => exact (lazyParseInstall_keeps _ lp).2.2.2.2.2.2.trans settled
    | _ => exact settled
  | flush buffered lp =>
    unfold handleFlushMessage
    cases buffered with
    | false => exact settled
    | true => exact (lazyParseInstall_keeps _ lp).2.2.2.2.2.2.trans settled
  | _ => exact settled

theorem swallows_step (hs : state.step event = some state')
    (idle : state.originIntercept.swallows = false)
    (hm : ∀ msg probe, event = .origin msg probe → msg.messageType ≠ .readyForQuery) :
    state'.originIntercept.swallows = false := by
  cases event with
  | client msg =>
    obtain ⟨-, ⟨⟩⟩ := ite_none_right_eq_some.mp hs
    exact swallows_handleClientMessage idle msg
  | origin msg probe =>
    obtain ⟨-, handled⟩ := ite_none_right_eq_some.mp hs
    obtain ⟨ic, ⟨-, same, rfl | ⟨-, -, rfl⟩⟩ | ⟨ready, -⟩⟩ := handleOriginMessage_cases handled
    · exact same.trans idle
    · exact same.trans idle
    · exact absurd ready (hm msg probe rfl)
  | write n =>
    obtain ⟨-, ⟨⟩⟩ := ite_none_right_eq_some.mp hs
    exact idle
  | dispatch out =>
    obtain ⟨-, msg, rest, -, ⟨-, rfl⟩ | ⟨lp, -, rfl⟩⟩ := dispatch_cases hs
    · exact idle
    · exact (lazyParseInstall_keeps _ lp).2.2.2.2.2.2.trans idle
  | reply out =>
    obtain ⟨-, ⟨⟩⟩ := ite_none_right_eq_some.mp hs
    cases out with
    | complete =>
      unfold handleCacheOutcome cacheBatchAdvance
      dsimp only
      split <;> exact idle
    | forward lp => exact (lazyParseInstall_keeps _ lp).2.2.2.2.2.2.trans idle
    | abandon => exact idle
  | hangup =>
    cases hs
    exact idle

variable {i : Nat}

theorem atHead_step {stage : Nat} (hs : state.step event = some state')
    (waiting : AtHead i stage state) :
    Delivered i state' ∨ ∃ stage' ≤ stage, AtHead i stage' state' := by
  obtain ⟨-, rfl, slot, head, rfl⟩ := waiting
  have moves := moves_step hs
  cases ended : state'.closed with
  | true => exact .inl (.inl ended)
  | false =>
    rcases moves.popped_le.lt_or_eq with gone | same
    · exact .inl (.inr (.inl gone))
    · obtain ⟨slot', head', follows⟩ := moves.head slot head same.symm
      refine .inr ⟨slot'.stage, ?_, ended, same.symm, slot', head', rfl⟩
      rcases follows with closer | ⟨he, -⟩
      · exact closer.le
      · exact he.le

theorem canDispatch_of_atHead (facts : Facts state) (waiting : AtHead i 3 state) :
    canDispatch state := by
  obtain ⟨alive, -, slot, head, pending⟩ := waiting
  obtain ⟨rest, shape⟩ := List.head?_eq_some_iff.mp head
  obtain ⟨msg, rfl⟩ := eq_of_stage_three pending
  have ledger := facts.ledger
  have free : state.leased = false := by
    cases leased : state.leased with
    | false => rfl
    | true =>
      obtain ⟨rest', shape'⟩ := ledger.serving leased
      simp [shape] at shape'
  have hk := (ledger.pending free msg false (by simp [shape])).2
  rw [shape] at ledger
  exact ⟨by simpa using ledger.uncached.1, free, alive, by simpa [cacheDispatch, shape] using hk⟩

theorem atHead_forward (state : ConnectionState C) {msg : Option C} {serving : Bool}
    {rest : List (EgressSlot C)}
    (alive : state.closed = false) (shape : state.egress.slots = .cache msg serving :: rest)
    (lp : Bool) :
    AtHead state.egress.popped 1 (state.forwardCurrentAndRest lp) := by
  refine ⟨?_, ?_, .origin [] false, ?_, rfl⟩ <;>
    simp [forwardCurrentAndRest, EgressQueue.cacheToOrigin, shape, alive]

theorem atHead_dispatch {out : DispatchOutcome} (waiting : AtHead i 3 state)
    (hs : state.step (.dispatch out) = some state') :
    ∃ stage' < 3, AtHead i stage' state' := by
  obtain ⟨alive, rfl, -⟩ := waiting
  obtain ⟨-, msg, rest, shape, ⟨-, rfl⟩ | ⟨lp, -, rfl⟩⟩ := dispatch_cases hs
  · exact ⟨2, by omega, alive, rfl, _, rfl, rfl⟩
  · refine ⟨1, by omega, ?_⟩
    exact atHead_forward
      { state with egress := { state.egress with slots := .cache none true :: rest } }
      alive rfl lp

theorem leased_of_atHead (facts : Facts state) (waiting : AtHead i 2 state) :
    state.leased = true := by
  obtain ⟨-, -, slot, head, served⟩ := waiting
  obtain ⟨rest, shape⟩ := List.head?_eq_some_iff.mp head
  obtain ⟨msg, rfl⟩ := eq_of_stage_two served
  by_contra free
  have free : state.leased = false := by simpa using free
  have hk := (facts.ledger.pending free msg true (by simp [shape])).1
  cases hk

theorem atHead_reply {out : CacheOutcome} (waiting : AtHead i 2 state)
    (hs : state.step (.reply out) = some state') :
    Delivered i state' ∨ ∃ stage' < 2, AtHead i stage' state' := by
  obtain ⟨alive, rfl, slot, head, served⟩ := waiting
  obtain ⟨rest, shape⟩ := List.head?_eq_some_iff.mp head
  obtain ⟨msg, rfl⟩ := eq_of_stage_two served
  obtain ⟨-, ⟨⟩⟩ := ite_none_right_eq_some.mp hs
  have done : state.egress.popped < state.egress.cacheDone.popped := by
    simp [EgressQueue.cacheDone, shape]
  cases out with
  | complete =>
    refine .inl (.inr (.inl (done.trans_le ?_)))
    exact (moves_cacheBatchAdvance
      { state with egress := state.egress.cacheDone, leased := false }).popped_le
  | forward lp =>
    exact .inr ⟨1, by omega, atHead_forward { state with leased := false } alive shape lp⟩
  | abandon => exact .inl (.inl rfl)

theorem visible_of_atHead (facts : Facts state) (waiting : AtHead i 1 state) :
    Delivered i state ∨ 0 < visible state := by
  obtain ⟨-, rfl, slot, head, waits⟩ := waiting
  obtain ⟨rest, shape⟩ := List.head?_eq_some_iff.mp head
  obtain ⟨buf, rfl⟩ := eq_of_stage_one waits
  have backed := facts.ledger.backed
  rw [shape] at backed
  cases streaming : state.flushDescribePending with
  | false =>
    rw [streaming, unsealed_cons] at backed
    simp only [Bool.false_eq_true, ↓reduceIte, isUnsealed, Bool.not_false] at backed
    exact .inr (by omega)
  | true =>
    by_cases alone : rest = []
    · exact .inl (.inr (.inr ⟨rfl, streaming, by simp [shape, alone]⟩))
    · rw [streaming, leading_cons _ alone] at backed
      simp only [↓reduceIte, isUnsealed, Bool.not_false] at backed
      exact .inr (by omega)

theorem atHead_ready {msg : PgBackendMessage} {probe : Option Probe}
    (idle : state.originIntercept.swallows = false) (ready : msg.messageType = .readyForQuery)
    (waiting : AtHead i 1 state) (hs : state.step (.origin msg probe) = some state') :
    Delivered i state' ∨ AtHead i 0 state' := by
  obtain ⟨alive, rfl, slot, head, waits⟩ := waiting
  obtain ⟨-, handled⟩ := ite_none_right_eq_some.mp hs
  obtain ⟨ic, ⟨hm, -⟩ | ⟨-, -, injected⟩⟩ := handleOriginMessage_cases handled
  · exact absurd ready hm
  · rw [idle] at injected
    have sealed : state'.closed = false ∧
        state'.egress = (state.egress.originAppend msg.data).originSeal := by
      obtain rfl | ⟨-, kind, rfl⟩ := probeInject_eq_some injected <;> exact ⟨alive, rfl⟩
    have appended := moves_originAppend state.egress msg.data
    have moved := moves_originSeal (state.egress.originAppend msg.data)
    rw [Delivered, AtHead, sealed.1, sealed.2]
    rcases (appended.popped_le.trans moved.popped_le).lt_or_eq with gone | same
    · exact .inl (.inr (.inl gone))
    · have middle := le_antisymm (moved.popped_le.trans same.symm.le) appended.popped_le
      obtain ⟨slot', head', follows⟩ := appended.head slot head middle
      rcases originSeal_cases head' (by unfold EgressSlot.Follows at follows; omega) with
        gone | ⟨slot'', head'', closed⟩
      · exact .inl (.inr (.inl (middle ▸ gone)))
      · exact .inr ⟨rfl, same.symm, slot'', head'', closed⟩

theorem canWrite_of_atHead (facts : Facts state) (waiting : AtHead i 0 state) : canWrite state := by
  obtain ⟨alive, -, slot, head, left⟩ := waiting
  obtain ⟨rest, shape⟩ := List.head?_eq_some_iff.mp head
  have sound := facts.ledger.sound slot (by simp [shape])
  refine ⟨?_, alive, ?_⟩
  · cases leased : state.leased with
    | false => rfl
    | true =>
      obtain ⟨rest', shape'⟩ := facts.ledger.serving leased
      simp only [shape, List.cons.injEq] at shape'
      rw [shape'.1] at left
      cases left
  · cases slot with
    | origin buf isSealed =>
      cases isSealed with
      | false => cases left
      | true => simpa [hasWritable, shape] using sound.2 rfl
    | synth buf => simp [hasWritable, shape]
    | cache msg serving => cases serving <;> cases left

def headSize (state : ConnectionState C) : Nat :=
  (state.egress.slots.head?.map size).getD 0

theorem atHead_write {n : Nat} (facts : Facts state) (waiting : AtHead i 0 state)
    (hs : state.step (.write n) = some state') :
    Delivered i state' ∨ AtHead i 0 state' ∧ headSize state' < headSize state := by
  obtain ⟨alive, rfl, slot, head, left⟩ := waiting
  obtain ⟨rest, shape⟩ := List.head?_eq_some_iff.mp head
  have sound := facts.ledger.sound slot (by simp [shape])
  obtain ⟨allowed, ⟨⟩⟩ := ite_none_right_eq_some.mp hs
  have moved := moves_advance state.egress n
  rcases moved.popped_le.lt_or_eq with gone | same
  · exact .inl (.inr (.inl gone))
  · rcases advance_head head sound left allowed.2.2.2.1 with gone | ⟨slot', head', left', less⟩
    · exact .inl (.inr (.inl gone))
    · refine .inr ⟨⟨alive, same.symm, slot', head', left'⟩, ?_⟩
      simpa [headSize, head, head'] using less

theorem headSize_step (hs : state.step event = some state') (waiting : AtHead i 0 state) :
    Delivered i state' ∨ AtHead i 0 state' ∧ headSize state' ≤ headSize state := by
  obtain ⟨-, rfl, slot, head, left⟩ := waiting
  have moves := moves_step hs
  cases ended : state'.closed with
  | true => exact .inl (.inl ended)
  | false =>
    rcases moves.popped_le.lt_or_eq with gone | same
    · exact .inl (.inr (.inl gone))
    · obtain ⟨slot', head', follows⟩ := moves.head slot head same.symm
      unfold EgressSlot.Follows at follows
      refine .inr ⟨⟨ended, same.symm, slot', head', by omega⟩, ?_⟩
      simp only [headSize, head, head', map_some, getD_some]
      omega

end Steps

section Traces

def replay (state : ConnectionState C) : List (Event C) → Nat → ConnectionState C
  | [], _ | _ :: _, 0 => state
  | event :: events, n + 1 => replay ((state.step event).getD state) events n

def accepts (state : ConnectionState C) : List (Event C) → Bool
  | [] => true
  | event :: events =>
    match state.step event with
    | some state' => accepts state' events
    | none => false

theorem replay_next {state : ConnectionState C} {evs : List (Event C)}
    (accepted : accepts state evs = true) (n : Nat) :
    match evs[n]? with
    | none => replay state evs (n + 1) = replay state evs n
    | some event => (replay state evs n).step event = some (replay state evs (n + 1)) := by
  induction evs generalizing state n with
  | nil => simp [replay]
  | cons event evs ih =>
    unfold accepts at accepted
    split at accepted
    · rename_i state' hs
      cases n with
      | zero => cases evs <;> simp [replay, hs]
      | succ n =>
        have rest := ih accepted n
        simpa [replay, hs] using rest
    · cases accepted

def Run.ofEvents (events : List (Event C)) (accepted : accepts .new events = true) : Run C where
  state := replay .new events
  event n := events[n]?
  start := by cases events <;> rfl
  next := replay_next accepted

theorem replay_last (state : ConnectionState C) (evs : List (Event C)) {n : Nat}
    (past : evs.length ≤ n) : replay state evs n = replay state evs evs.length := by
  induction evs generalizing state n with
  | nil => cases n <;> rfl
  | cons event evs ih =>
    obtain ⟨k, rfl⟩ : ∃ k, n = k + 1 := ⟨n - 1, by simp at past; omega⟩
    exact ih _ (by simpa using past)

theorem fair_ofEvents {evs : List (Event C)} {accepted : accepts .new evs = true}
    (settled : (replay .new evs evs.length).owed = 0)
    (written : (replay .new evs evs.length).egress.hasWritable = false)
    (dispatched : (replay .new evs evs.length).egress.cacheDispatch.1 = none)
    (free : (replay .new evs evs.length).leased = false) :
    (Run.ofEvents evs accepted).Fair := by
  have rests : ∀ n, (Run.ofEvents evs accepted).state (n + evs.length) =
      replay .new evs evs.length := fun n => replay_last _ evs (by omega)
  refine ⟨fun n => ⟨n + evs.length, by omega, .inr (.inl ?_)⟩,
    fun n => ⟨n + evs.length, by omega, .inl ?_⟩, fun n => ⟨n + evs.length, by omega, .inl ?_⟩,
    fun n => ⟨n + evs.length, by omega, .inr (.inl ?_)⟩⟩
  · rw [rests, settled]
  · rw [rests, canWrite, written]
    simp
  · rw [rests, canDispatch, dispatched]
    simp
  · rw [rests, free]

end Traces

section Runs

variable {run : Run C}

theorem Run.turn (run : Run C) (n : Nat) : run.event n = none ∧ run.state (n + 1) = run.state n ∨
      ∃ event, run.event n = some event ∧ (run.state n).step event = some (run.state (n + 1)) := by
  have next := run.next n
  cases happens : run.event n with
  | none => exact .inl ⟨rfl, by simpa [happens] using next⟩
  | some event => exact .inr ⟨event, rfl, by simpa [happens] using next⟩

theorem Run.step_of_event (run : Run C) {n : Nat} {event : Event C}
    (happens : run.event n = some event) :
    (run.state n).step event = some (run.state (n + 1)) := by
  have next := run.next n
  simpa [happens] using next

theorem Run.moves (run : Run C) {n m : Nat} (le : n ≤ m) :
    Moves (run.state n).egress (run.state m).egress := by
  induction m, le using Nat.le_induction with
  | base => exact .refl _
  | succ m le ih =>
    rcases run.turn m with ⟨-, same⟩ | ⟨event, -, hs⟩
    · rw [same]
      exact ih
    · exact ih.trans (moves_step hs)

theorem Run.facts (calm : run.Calm) (n : Nat) (alive : (run.state n).closed = false) :
    Facts (run.state n) := by
  induction n with
  | zero =>
    rw [run.start]
    exact facts_new
  | succ n ih =>
    rcases run.turn n with ⟨-, same⟩ | ⟨event, happens, hs⟩
    · rw [same] at alive ⊢
      exact ih alive
    · have hb : (run.state n).closed = false := by
        by_contra ended
        rw [closed_step hs (by simpa using ended)] at alive
        cases alive
      exact (ih hb).step (calm.orderly n event happens) hs alive

theorem Run.atHead_next (run : Run C) {i stage n : Nat} (waiting : AtHead i stage (run.state n)) :
    AtHead i stage (run.state (n + 1)) ∨ Delivered i (run.state (n + 1)) ∨
      ∃ stage' < stage, AtHead i stage' (run.state (n + 1)) := by
  rcases run.turn n with ⟨-, same⟩ | ⟨event, -, hs⟩
  · exact .inl (same ▸ waiting)
  · rcases atHead_step hs waiting with out | ⟨stage', le, waits⟩
    · exact .inr (.inl out)
    · rcases le.lt_or_eq with less | rfl
      · exact .inr (.inr ⟨stage', less, waits⟩)
      · exact .inl waits

def Closer (run : Run C) (i stage n : Nat) : Prop :=
  Delivered i (run.state n) ∨ ∃ stage' < stage, AtHead i stage' (run.state n)

variable (fair : run.Fair)
include fair

variable (calm : run.Calm)
include calm

theorem leadsTo_dispatch (i : Nat) :
    LeadsTo (fun n => AtHead i 3 (run.state n)) (Closer run i 3) := by
  refine .ensures (fun n waiting => run.atHead_next waiting)
    (a := fun n => ∃ out, run.event n = some (.dispatch out)) (fun n => ?_) ?_
  · obtain ⟨m, later, stuck | acts⟩ := fair.loops n
    · exact ⟨m, later, .inl fun waiting =>
        stuck (canDispatch_of_atHead (run.facts calm m waiting.1) waiting)⟩
    · exact ⟨m, later, .inr acts⟩
  · rintro n waiting ⟨out, happens⟩
    exact .inr (atHead_dispatch waiting (run.step_of_event happens))

theorem leadsTo_reply (i : Nat) : LeadsTo (fun n => AtHead i 2 (run.state n)) (Closer run i 2) := by
  refine .ensures (fun n waiting => run.atHead_next waiting)
    (a := fun n => ∃ out, run.event n = some (.reply out)) (fun n => ?_) ?_
  · obtain ⟨m, later, ended | free | acts⟩ := fair.serves n
    · exact ⟨m, later, .inl fun waiting => by simp [waiting.1] at ended⟩
    · refine ⟨m, later, .inl fun waiting => ?_⟩
      rw [leased_of_atHead (run.facts calm m waiting.1) waiting] at free
      cases free
    · exact ⟨m, later, .inr acts⟩
  · rintro n waiting ⟨out, happens⟩
    exact atHead_reply waiting (run.step_of_event happens)

theorem leadsTo_ready (i : Nat) : LeadsTo (fun n => AtHead i 1 (run.state n)) (Closer run i 1) := by
  let waits n := AtHead i 1 (run.state n) ∧ (run.state n).originIntercept.swallows = false ∧
    ¬Delivered i (run.state n)
  let answered n := ∃ msg probe,
    run.event n = some (.origin msg probe) ∧ msg.messageType = .readyForQuery
  have effect : ∀ n, waits n → answered n → Closer run i 1 (n + 1) := by
    rintro n ⟨waiting, idle, -⟩ ⟨msg, probe, happens, ready⟩
    exact (atHead_ready idle ready waiting (run.step_of_event happens)).imp id
      fun sealed => ⟨0, by omega, sealed⟩
  have stays : ∀ n, waits n → waits (n + 1) ∨ Closer run i 1 (n + 1) := by
    intro n h
    by_cases ready : answered n
    · exact .inr (effect n h ready)
    · have idle : (run.state (n + 1)).originIntercept.swallows = false := by
        rcases run.turn n with ⟨-, same⟩ | ⟨event, happens, hs⟩
        · rw [same]
          exact h.2.1
        · refine swallows_step hs h.2.1 fun msg probe same isReady => ready ?_
          exact ⟨msg, probe, same ▸ happens, isReady⟩
      by_cases out : Delivered i (run.state (n + 1))
      · exact .inr (.inl out)
      · exact (run.atHead_next h.1).imp (fun still => ⟨still, idle, out⟩) id
  have owed : ∀ n, ∃ m, n ≤ m ∧ (¬waits m ∨ answered m) := by
    intro n
    obtain ⟨m, later, ended | settled | acts⟩ := fair.answers n
    · exact ⟨m, later, .inl fun h => by simp [h.1.1] at ended⟩
    · refine ⟨m, later, .inl ?_⟩
      rintro ⟨waiting, -, pending⟩
      rcases visible_of_atHead (run.facts calm m waiting.1) waiting with out | due
      · exact pending out
      · simp [visible, settled] at due
    · exact ⟨m, later, .inr acts⟩
  have paused : LeadsTo (fun n => AtHead i 1 (run.state n)) fun n =>
    Closer run i 1 n ∨ waits n := by
    have meets : LeadsTo (fun n => AtHead i 1 (run.state n)) fun n => Closer run i 1 n ∨
        AtHead i 1 (run.state n) ∧ (run.state n).originIntercept.swallows = false :=
      .meets (fun n waiting => run.atHead_next waiting) calm.probes
    refine meets.weaken ?_
    rintro n (closer | ⟨waiting, idle⟩)
    · exact .inl closer
    · by_cases out : Delivered i (run.state n)
      · exact .inl (.inl out)
      · exact .inr ⟨waiting, idle, out⟩
  exact paused.finish (.ensures stays owed effect)

theorem leadsTo_written (i : Nat) :
    LeadsTo (fun n => AtHead i 0 (run.state n)) fun n => Delivered i (run.state n) := by
  refine .of_rank (fun n => headSize (run.state n)) fun size => ?_
  refine .ensures (a := fun n => ∃ k, run.event n = some (.write k)) ?_ (fun n => ?_) ?_
  · rintro n ⟨waiting, rfl⟩
    rcases run.turn n with ⟨-, same⟩ | ⟨event, -, hs⟩
    · exact .inl ⟨same ▸ waiting, by rw [same]⟩
    · rcases headSize_step hs waiting with out | ⟨waits, le⟩
      · exact .inr (.inl out)
      · rcases le.lt_or_eq with less | he
        · exact .inr (.inr ⟨waits, less⟩)
        · exact .inl ⟨waits, he⟩
  · obtain ⟨m, later, stuck | acts⟩ := fair.writes n
    · exact ⟨m, later, .inl fun waiting =>
        stuck (canWrite_of_atHead (run.facts calm m waiting.1.1) waiting.1)⟩
    · exact ⟨m, later, .inr acts⟩
  · rintro n ⟨waiting, rfl⟩ ⟨k, happens⟩
    exact atHead_write (run.facts calm n waiting.1) waiting (run.step_of_event happens)

theorem leadsTo_delivered (i stage : Nat) :
    LeadsTo (fun n => AtHead i stage (run.state n)) fun n => Delivered i (run.state n) := by
  induction stage using Nat.strong_induction_on with
  | _ stage ih =>
    have closer : stage ≠ 0 →
      LeadsTo (fun n => AtHead i stage (run.state n)) (Closer run i stage) := by
      intro more n waiting
      obtain ⟨-, -, slot, -, same⟩ := id waiting
      have b : stage ≤ 3 := same ▸ slot.stage_le
      obtain rfl | rfl | rfl : stage = 1 ∨ stage = 2 ∨ stage = 3 := by omega
      · exact leadsTo_ready fair calm i n waiting
      · exact leadsTo_reply fair calm i n waiting
      · exact leadsTo_dispatch fair calm i n waiting
    by_cases last : stage = 0
    · subst last
      exact leadsTo_written fair calm i
    · refine (closer last).finish fun n ⟨stage', less, waiting⟩ => ?_
      exact ih stage' less n waiting

omit calm

omit fair

/-- Every slot that is pushed is delivered in the end: it gets to the head, since the slots
before it do. -/
theorem every_slot_delivered (run : Run C) (fair : run.Fair) (calm : run.Calm) (n i : Nat)
    (isPushed : i < pushed (run.state n).egress) : ∃ m, n ≤ m ∧ Delivered i (run.state m) := by
  obtain ⟨ahead, same⟩ : ∃ ahead, i - (run.state n).egress.popped = ahead := ⟨_, rfl⟩
  induction ahead using Nat.strong_induction_on generalizing n with
  | _ ahead ih =>
    by_cases out : Delivered i (run.state n)
    · exact ⟨n, le_rfl, out⟩
    · have alive : (run.state n).closed = false := by
        by_contra ended
        exact out (.inl (by simpa using ended))
      have inside : (run.state n).egress.popped ≤ i := by
        by_contra gone
        exact out (.inr (.inl (by omega)))
      obtain ⟨slot, head⟩ : ∃ slot, (run.state n).egress.slots.head? = some slot := by
        cases slots : (run.state n).egress.slots with
        | nil => simp only [pushed, slots, List.length_nil] at isPushed; omega
        | cons slot rest => exact ⟨slot, rfl⟩
      obtain ⟨m, later, done⟩ := leadsTo_delivered fair calm _ _ n ⟨alive, rfl, slot, head, rfl⟩
      have stillPushed := isPushed.trans_le (run.moves later).pushed_le
      rcases done with ended | popped | ⟨popped, streaming, alone⟩
      · exact ⟨m, later, .inl ended⟩
      · by_cases here : (run.state n).egress.popped = i
        · exact ⟨m, later, .inr (.inl (here ▸ popped))⟩
        · obtain ⟨l, latest, found⟩ := ih _ (by omega) m stillPushed rfl
          exact ⟨l, later.trans latest, found⟩
      · have here : (run.state m).egress.popped = i := by
          simp only [pushed, alone] at stillPushed
          omega
        exact ⟨m, later, .inr (.inr ⟨here, streaming, alone⟩)⟩

/-- Origin sends a notice while nothing is forwarded: the slot opened for it is never sealed, and
the cache query pushed behind it never gets to the head. -/
theorem notice_blocks_cache_query :
    ∃ run : Run Unit, run.Fair ∧ ∃ n i, i < pushed (run.state n).egress ∧
      ∀ m, n ≤ m → ¬Delivered i (run.state m) := by
  let events : List (Event Unit) :=
    [.origin ⟨.other, [0x4e], by simp⟩ none, .write 1, .client (.queryCache ())]
  have accepted : accepts .new events = true := by decide
  have rests : ∀ m, 3 ≤ m → (Run.ofEvents events accepted).state m = replay .new events 3 :=
    fun m => replay_last _ events
  refine ⟨.ofEvents events accepted,
    fair_ofEvents (by decide) (by decide) (by decide) (by decide), 3, 1, ?_, ?_⟩
  · rw [rests 3 le_rfl]
    decide
  intro m later
  rw [rests m later, Delivered]
  decide

theorem forwarded_query_delivered :
    let events : List (Event Unit) := [.client (.queryForward false), .client (.queryCache ()),
      .origin ⟨.readyForQuery, [0x5a, 0, 0, 0, 5, 0x49], by simp⟩ none, .write 6,
      .dispatch .lease, .reply .complete]
    ∃ accepted : accepts .new events = true,
      1 < pushed ((Run.ofEvents events accepted).state 2).egress ∧
      ∃ m, 2 ≤ m ∧ Delivered 1 ((Run.ofEvents events accepted).state m) := by
  intro events
  have accepted : accepts .new events = true := by decide
  have behind : (Run.ofEvents events accepted).state 2 = replay .new events 2 := rfl
  have isPushed : 1 < pushed ((Run.ofEvents events accepted).state 2).egress := by
    rw [behind]
    decide
  have calm : (Run.ofEvents events accepted).Calm := by
    refine ⟨fun n event happens => ?_, fun n => ⟨n + 6, by omega, ?_⟩⟩
    · match n, happens with
      | 0, happens | 1, happens =>
        cases happens
        exact fun streaming => by cases streaming
      | 2, happens =>
        cases happens
        exact fun inside => absurd rfl inside
      | 3, happens | 4, happens | 5, happens =>
        cases happens
        trivial
    · have rests : (Run.ofEvents events accepted).state (n + 6) = replay .new events 6 :=
        replay_last _ events (by simp [events])
      rw [rests]
      decide
  have fair : (Run.ofEvents events accepted).Fair :=
    fair_ofEvents (by decide) (by decide) (by decide) (by decide)
  exact ⟨accepted, isPushed, every_slot_delivered _ fair calm 2 1 isPushed⟩

end Runs

end PgCache.Proxy.Delivery
