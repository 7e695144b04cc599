/- source: proxy/egress.rs, proxy/connection/relay.rs, proxy/connection/extended.rs
   digest: When the bytes written to a client are the responses to its requests, in order. -/
import PgCache.Data.Machine
import PgCache.Proxy.Ledger
import PgCache.Proxy.StreamOrder

set_option autoImplicit false

namespace PgCache.Proxy.StreamRun

open Data.Machine Egress Egress.EgressQueue Connection Replies Proxy.Stream StreamOrder Option List
open Traffic

variable {C : Type} {response : C → Bytes} {state : ConnectionState C} {wire answer : List Reply}
  {probe : Option Probe}

theorem handleOriginMessage_eq {next : ConnectionState C} {msg : PgBackendMessage}
    (handled : state.handleOriginMessage msg probe = some next) :
    ∃ owed, next = { (if (originInterceptHandle state.originIntercept msg.messageType).1 then state
        else state.originMessageRelay msg) with
      originIntercept :=
        (probe.map Probe.intercept).getD
          (originInterceptHandle state.originIntercept msg.messageType).2
      owed := owed } := by
  have injects : ∀ {hb : ConnectionState C}, hb.probeInject probe = some next →
      ∃ owed, next = { hb with
        originIntercept := (probe.map Probe.intercept).getD hb.originIntercept, owed } := by
    intro hb injected
    cases probe with
    | none => exact ⟨hb.owed, (some_inj.mp injected).symm⟩
    | some kind =>
      obtain ⟨-, he⟩ := ite_none_right_eq_some.mp injected
      exact ⟨hb.owed + 1, (some_inj.mp he).symm⟩
  unfold ConnectionState.handleOriginMessage at handled
  dsimp only at handled
  generalize originInterceptHandle state.originIntercept msg.messageType = handle at handled ⊢
  obtain ⟨consumed, ic⟩ := handle
  by_cases ready : msg.messageType = .readyForQuery
  · rw [if_pos ready] at handled
    obtain ⟨-, injected⟩ := ite_none_left_eq_some.mp handled
    obtain ⟨owed, he⟩ := injects injected
    refine ⟨owed, he.trans ?_⟩
    cases consumed <;> rfl
  · rw [if_neg ready] at handled
    obtain ⟨rfl, he⟩ := ite_none_right_eq_some.mp handled
    refine ⟨state.owed, (some_inj.mp he).symm.trans ?_⟩
    cases consumed <;> rfl

structure Aligned (response : C → Bytes) (t : Traffic C) : Prop where
  whole : t.received ++ pending response t.served t.connection t.wire = t.expected
  ordered : Ordered t.connection t.wire
  screened : screens t.connection.originIntercept t.wire = true

def InOrder (response : C → Bytes) (t : Traffic C) : Prop :=
  t.received <+: t.expected ∧ (t.connection.closed = false → Aligned response t)

theorem Aligned.inOrder {t : Traffic C} (aligned : Aligned response t) : InOrder response t :=
  ⟨⟨_, aligned.whole⟩, fun _ => aligned⟩

theorem screens_next {next : ConnectionState C}
    (screened : screens state.originIntercept wire = true)
    (own : ownScreened state next answer = true)
    (takes : takesOwn state next (wire ++ answer) = true) :
    screens next.originIntercept (wire ++ answer) = true := by
  rcases Bool.or_eq_true_iff.mp takes with same | taken
  · rw [of_decide_eq_true same]
    rcases Bool.or_eq_true_iff.mp own with all | changed
    · exact screens_more screened all
    · exact absurd (of_decide_eq_true same) (of_decide_eq_true changed)
  · exact taken

section Step

variable {t next : Traffic C}

variable (aligned : Aligned response t)
include aligned

theorem Aligned.client {msg : ClientMessage C} (paced : Paced t (.client msg answer))
    (hs : t.step response (.client msg answer) = some next) : Aligned response next := by
  obtain ⟨connection, moved, guarded⟩ := bind_eq_some_iff.mp hs
  obtain ⟨allowed, he⟩ := ite_none_right_eq_some.mp guarded
  obtain ⟨answered, own⟩ := Bool.and_eq_true_iff.mp allowed
  obtain ⟨reads, ⟨⟩⟩ := ite_none_right_eq_some.mp moved
  cases he
  obtain ⟨last, none, passes, takes⟩ := paced
  have both := aligned.ordered.handleClientMessage response t.served reads.1 answered
    last none passes
  refine ⟨?_, both.1, screens_next aligned.screened own takes⟩
  change _ ++ pending response t.served _ _ = _
  rw [both.2, ← aligned.whole, append_assoc]

omit aligned in
theorem none_of_answersProbe (answered : answersProbe probe answer = true) :
    NoneForClient answer := by
  unfold answersProbe at answered
  split at answered
  · intro rp hw
    have own := all_eq_true.mp (Bool.and_eq_true_iff.mp answered).2 rp hw
    simpa using own
  · rw [isEmpty_iff.mp answered]
    exact nofun

theorem Aligned.origin (paced : Paced t (.origin probe answer))
    (hs : t.step response (.origin probe answer) = some next) : Aligned response next := by
  obtain ⟨whole, ho, screened⟩ := aligned
  simp only [step] at hs
  simp only [Paced] at paced
  cases arrived : t.wire with
  | nil =>
    rw [arrived] at hs
    cases hs
  | cons rp wire =>
    rw [arrived] at hs paced ho whole screened
    obtain ⟨covered, probes⟩ := paced
    obtain ⟨connection, moved, guarded⟩ := bind_eq_some_iff.mp hs
    obtain ⟨answered, ⟨⟩⟩ := ite_none_right_eq_some.mp guarded
    obtain ⟨-, handled⟩ := ite_none_right_eq_some.mp moved
    obtain ⟨consumed, later⟩ := screens_cons screened
    obtain ⟨owed, he⟩ := handleOriginMessage_eq handled
    have own := none_of_answersProbe answered
    have screenedNext : screens connection.originIntercept (wire ++ answer) = true := by
      rw [he]
      cases probe with
      | none =>
        rw [isEmpty_iff.mp answered, append_nil]
        exact later
      | some kind => exact probes
    rw [consumed] at he
    cases forClient : rp.forClient with
    | true =>
      rw [forClient] at he
      subst he
      have relayed := ho.relay forClient (covered forClient)
      refine ⟨Eq.trans ?_ whole, Ordered.own { relayed with } own, screenedNext⟩
      exact congrArg (t.received ++ ·) ((pending_own own).trans (pending_relay forClient))
    | false =>
      rw [forClient] at he
      subst he
      have skipped := ho.skip forClient
      refine ⟨Eq.trans ?_ whole, Ordered.own { skipped with } own, screenedNext⟩
      exact congrArg (t.received ++ ·) ((pending_own own).trans (pending_skip forClient))

theorem Aligned.write {n : Nat}
    (hs : t.step response (.write n) = some next) : Aligned response next := by
  obtain ⟨connection, moved, rfl⟩ := map_eq_some_iff.mp hs
  obtain ⟨⟨free, -, writable, -, hw⟩, ⟨⟩⟩ := ite_none_right_eq_some.mp moved
  refine ⟨?_, aligned.ordered.advance free writable hw, aligned.screened⟩
  change (_ ++ _) ++ pending response t.served _ _ = _
  rw [append_assoc, pending_advance writable hw]
  exact aligned.whole

omit aligned in
theorem nothing_of_answersForward {r : Option C}
    (answered : answersForward response state r false answer = true) : answer = [] :=
  isEmpty_iff.mp answered

omit aligned in
theorem of_answersForward {r : Option C}
    (answered : answersForward response state r true answer = true) :
    ended true answer = true ∧
      clientBytes answer = (r.map response).getD [] ++ state.batch.flatMap response := by
  obtain ⟨whole, bytes⟩ := Bool.and_eq_true_iff.mp answered
  exact ⟨whole, of_decide_eq_true bytes⟩

theorem Aligned.dispatch {out : DispatchOutcome} (paced : Paced t (.dispatch out answer))
    (hs : t.step response (.dispatch out answer) = some next) :
    Aligned response next := by
  obtain ⟨connection, moved, guarded⟩ := bind_eq_some_iff.mp hs
  obtain ⟨allowed, ⟨⟩⟩ := ite_none_right_eq_some.mp guarded
  obtain ⟨answered, own⟩ := Bool.and_eq_true_iff.mp allowed
  obtain ⟨⟨mode, -⟩, -⟩ := ite_none_right_eq_some.mp moved
  simp only [Paced, moved, all_some] at paced
  have screened := screens_next aligned.screened own paced
  obtain ⟨free, msg, rest, shape, dispatched⟩ := Ledger.dispatch_cases moved
  obtain ⟨rfl, quiet, plain⟩ := aligned.ordered.alone mode shape
  have taken : t.connection.egress.cacheDispatch.1 = some msg := by
    rw [cacheDispatch, shape]
  rw [taken] at answered ⊢
  have serving : Serving { t.connection with
    egress := { t.connection.egress with slots := [.cache none true] } } t.wire :=
    ⟨rfl, quiet, plain⟩
  have same : pending response (some msg) { t.connection with
      egress := { t.connection.egress with slots := [.cache none true] } } t.wire =
      pending response t.served t.connection t.wire := by
    rw [serving.pending, pending, shape, pendingSlots_none quiet]
    simp [slotBytes]
  obtain ⟨rfl, rfl⟩ | ⟨lp, rfl, rfl⟩ := dispatched
  · obtain rfl := nothing_of_answersForward answered
    rw [append_nil] at screened ⊢
    refine ⟨Eq.trans (congrArg (t.received ++ ·) same) aligned.whole, ⟨?_, ?_, fun _ => ?_⟩,
      screened⟩
    · dsimp only
      rw [plain]
      exact Nat.zero_le _
    · intro reads
      change t.connection.proxyMode = .read at reads
      rw [mode] at reads
      cases reads
    · exact ⟨plain, quiet, [], _, rfl, rfl, rfl, fun _ => ⟨rfl, rfl⟩⟩
  · obtain ⟨whole, bytes⟩ := of_answersForward answered
    have forwarded : pending response (some msg) _ _ = _ :=
      (serving.pending_forward bytes lp).trans same
    exact ⟨Eq.trans (congrArg (t.received ++ ·) forwarded) aligned.whole,
      serving.forward free whole lp, screened⟩

theorem InOrder.reply {out : CacheOutcome} {n : Nat} (paced : Paced t (.reply out n answer))
    (hs : t.step response (.reply out n answer) = some next) :
    InOrder response next := by
  obtain ⟨connection, moved, guarded⟩ := bind_eq_some_iff.mp hs
  obtain ⟨allowed, ⟨⟩⟩ := ite_none_right_eq_some.mp guarded
  obtain ⟨answered, own⟩ := Bool.and_eq_true_iff.mp allowed
  simp only [Paced, moved, all_some] at paced
  have screened := screens_next aligned.screened own paced
  obtain ⟨⟨held, -⟩, ⟨⟩⟩ := ite_none_right_eq_some.mp moved
  have serving := aligned.ordered.leased held
  cases out with
  | complete =>
    obtain rfl := nothing_of_answersForward answered
    rw [append_nil] at screened ⊢
    refine Aligned.inOrder ⟨?_, serving.complete, screened⟩
    change (_ ++ _) ++ pending response t.served _ _ = _
    rw [append_assoc, ← aligned.whole]
    exact congrArg (t.received ++ ·) serving.pending_complete
  | forward lp =>
    obtain ⟨whole, bytes⟩ := of_answersForward answered
    have given : Serving { t.connection with leased := false } t.wire := { serving with }
    refine Aligned.inOrder ⟨?_, given.forward rfl whole lp, screened⟩
    change (_ ++ []) ++ pending response t.served _ _ = _
    rw [append_nil, ← aligned.whole]
    exact congrArg (t.received ++ ·) (given.pending_forward bytes lp)
  | abandon =>
    refine ⟨?_, nofun⟩
    have whole := aligned.whole
    rw [serving.pending, ← append_assoc] at whole
    refine List.IsPrefix.trans ?_ ⟨_, whole⟩
    exact (prefix_append_right_inj _).mpr (List.take_prefix n _)

omit aligned

theorem InOrder.step {ev : Exchange C} (inOrder : InOrder response t)
    (paced : Paced t ev) (hs : t.step response ev = some next) :
    InOrder response next := by
  cases alive : t.connection.closed with
  | true =>
    cases ev with
    | hangup =>
      cases hs
      exact ⟨inOrder.1, nofun⟩
    | origin probe answer =>
      simp only [Traffic.step] at hs
      split at hs
      · cases hs
      · simp [ConnectionState.step, alive] at hs
    | _ => simp [Traffic.step, ConnectionState.step, alive] at hs
  | false =>
    have aligned := inOrder.2 alive
    cases ev with
    | client msg answer => exact (aligned.client paced hs).inOrder
    | origin probe answer => exact (aligned.origin paced hs).inOrder
    | write n => exact (aligned.write hs).inOrder
    | dispatch out answer => exact (aligned.dispatch paced hs).inOrder
    | reply out n answer => exact InOrder.reply aligned paced hs
    | hangup =>
      cases hs
      exact ⟨inOrder.1, nofun⟩

end Step

def Quiet (t : Traffic C) : Prop :=
  t.connection.closed = false ∧ t.connection.egress.slots = [] ∧
    NoneForClient t.wire ∧ t.connection.batch = [] ∧
    t.connection.deferredCloseCompletes = 0

/-- In every paced run the client has got a beginning of the responses to what it sent, in the
order in which it sent it, and all of them once nothing is to come. -/
theorem responses_in_request_order (response : C → Bytes) {events : List (Exchange C)}
    {last : Traffic C} (paced : Allowed (step response) Paced .new events)
    (ran : runs (step response) .new events = some last) :
    last.received <+: last.expected ∧ (Quiet last → last.received = last.expected) := by
  have start : InOrder response (.new : Traffic C) := by
    refine Aligned.inOrder ⟨rfl, ⟨Nat.zero_le _, fun _ => ⟨rfl, rfl, rfl⟩, nofun⟩, rfl⟩
  obtain ⟨inOrder, aligned⟩ :=
    runs_invariant (fun _ _ _ holds paced stepped => holds.step paced stepped) start paced ran
  refine ⟨inOrder, fun ⟨alive, empty, quiet, batch, closes⟩ => ?_⟩
  have whole := (aligned alive).whole
  simp only [pending, empty, pendingSlots, quiet.clientBytes, batch, closes, flatMap_nil,
    replicate_zero, flatten_nil, append_nil] at whole
  exact whole

section Runs

instance (t : Traffic C) (event : Exchange C) : Decidable (Paced t event) := by
  unfold Paced NoneForClient
  split
  · infer_instance
  · split <;> infer_instance
  all_goals infer_instance

def message (messageType : PgBackendMessageType) (byte : UInt8) : PgBackendMessage :=
  ⟨messageType, [byte], cons_ne_nil _ _⟩

def row (byte : UInt8) : Reply := ⟨message .other byte, true⟩

def ready (byte : UInt8) : Reply := ⟨message .readyForQuery byte, true⟩

def pipelined : List (Exchange Bytes) :=
  [.client (.queryForward false) [row 1, ready 2], .client (.sync (.cacheBatch [3] [[4]]) 73) [],
    .origin none [], .write 1, .origin none [], .write 1, .dispatch .lease [],
      .reply .complete 0 [],
    .dispatch (.forward true) [⟨message .parseComplete 9, false⟩, ready 4], .origin none [],
    .origin none [], .write 1, .client (.flush true false) [row 5], .origin none [], .write 1,
    .client (.sync .bare 73) [ready 6], .origin none [], .write 1]

theorem pipelined_in_order : ∃ last, runs (step id) .new pipelined = some last ∧ Quiet last ∧
      last.received = [1, 2, 3, 4, 5, 6] ∧ last.received = last.expected := by
  have tested : allowedBy (step id) (fun t event => decide (Paced t event)) .new
      pipelined = true := by
    decide +kernel
  have paced := Allowed.of_allowedBy (fun _ _ paced => of_decide_eq_true paced) tested
  have reached : (runs (step id) .new pipelined).map (fun last =>
      (last.connection.closed, last.connection.egress.slots, last.wire, last.connection.batch,
        last.connection.deferredCloseCompletes, last.received)) =
      some (false, [], [], [], 0, [1, 2, 3, 4, 5, 6]) := rfl
  obtain ⟨last, ran, fields⟩ := map_eq_some_iff.mp reached
  simp only [Prod.mk.injEq] at fields
  obtain ⟨alive, slots, wire, batch, closes, received⟩ := fields
  have quiet : Quiet last := ⟨alive, slots, by rw [wire]; exact nofun, batch, closes⟩
  exact ⟨last, ran, quiet, received, (responses_in_request_order id paced ran).2 quiet⟩

/-- Runs in which the client does not get a beginning of its responses. A cache request is the
bytes of its response. -/
def overtakings : List (List (Exchange Bytes)) :=
  -- the slot of a Flush is sealed before origin has answered it
  [[.client (.flush true false) [row 1], .client (.sync (.cacheBatch [2] []) 73) [],
      .dispatch .lease [], .reply .complete 0 []],
    -- a Close that was forwarded has no slot, and its batch is answered from the cache
    [.client .closeForward [row 1], .client (.sync (.cacheBatch [2] []) 73) [], .dispatch .lease [],
      .reply .complete 0 []],
    -- the proxy's own query is sent behind a pipelined one, whose answer its intercept takes
    [.client (.queryForward false) [ready 1], .client (.queryForward false) [ready 2],
      .origin (some .searchPath) [⟨message .readyForQuery 3, false⟩], .write 1, .origin none [],
      .origin none [], .write 1],
    -- the intercept of a lazy Parse is over before the answer it was installed for
    [.client (.queryForward false) [ready 1],
      .client (.sync (.forwarded true) 73) [⟨message .parseComplete 2, false⟩, ready 3],
      .origin none [], .write 1, .origin none [], .write 1],
    -- a query passes a deferred CloseComplete
    [.client .closeLocal [], .client (.queryForward false) [ready 1], .origin none [], .write 1],
    -- a reply that comes before the slot of its Sync opens one: later replies come one slot early
    [.client .closeForward [row 1], .client (.flush false false) [], .origin none [],
      .client (.sync .bare 73) [ready 2], .origin none [], .write 1, .write 1,
        .client .sslRequest [],
      .client (.queryForward false) [ready 3], .origin none [], .write 1]]

theorem response_overtakes : overtakings ≠ [] ∧
    ∀ events ∈ overtakings, ∃ last, runs (step id) .new events = some last ∧
      ¬last.received <+: last.expected := by
  have reached : ∀ events ∈ overtakings, (runs (step id) .new events).any fun last =>
        decide (¬last.received <+: last.expected) := by
    decide +kernel
  refine ⟨cons_ne_nil _ _, fun events among => ?_⟩
  obtain ⟨last, ran, overtaken⟩ := (any_eq_true _ _).mp (reached events among)
  exact ⟨last, ran, of_decide_eq_true overtaken⟩

end Runs

end PgCache.Proxy.StreamRun
