/- source: proxy/egress.rs, proxy/connection/relay.rs, proxy/connection/extended.rs
   digest: What each event does to the bytes a client has still to get. -/
import PgCache.Proxy.Stream

set_option autoImplicit false

namespace PgCache.Proxy.StreamOrder

open Egress Egress.EgressQueue Connection Replies Proxy.Stream ConnectionState EgressQueue List
open EgressSlot

variable {C : Type}

variable (response : C → Bytes)

/-- What the client has still to get: what the slots and replies hold, the rest of the batch, and
the deferred `CloseComplete`s. -/
def pending (served : Option C) (s : ConnectionState C) (wire : List Reply) : Bytes :=
  pendingSlots response served s.egress.slots wire ++ (s.batch.flatMap response ++
      (replicate s.deferredCloseCompletes closeCompleteMsg).flatten)

def CacheLast (slots : List (EgressSlot C)) (leased : Bool) : Prop :=
  ∃ front slot, slots = front ++ [slot] ∧ caches front = 0 ∧ slot.isCache = true ∧
    (leased = true → front = [] ∧ slot = .cache none true)

/-- How the slots of an open connection stand to what is to come. -/
structure Ordered (s : ConnectionState C) (wire : List Reply) : Prop where
  enough : (if s.flushDescribePending then leading s.egress.slots
    else unsealed s.egress.slots) ≤ sealing wire
  reading : s.proxyMode = .read → caches s.egress.slots = 0 ∧ s.batch = [] ∧ s.leased = false
  draining : s.proxyMode = .originDrain →
    s.flushDescribePending = false ∧ NoneForClient (loose s.egress.slots wire) ∧
      CacheLast s.egress.slots s.leased

structure Settled (s : ConnectionState C) (wire : List Reply) : Prop where
  mode : s.proxyMode = .read
  plain : s.flushDescribePending = false
  enough : unsealed s.egress.slots ≤ sealing wire
  uncached : caches s.egress.slots = 0
  batch : s.batch = []
  free : s.leased = false

variable {response} {served : Option C} {s : ConnectionState C} {wire answer : List Reply}

theorem Settled.ordered (settled : Settled s wire) : Ordered s wire where
  enough := by
    rw [settled.plain, if_neg Bool.false_ne_true]
    exact settled.enough
  reading _ := ⟨settled.uncached, settled.batch, settled.free⟩
  draining drains := by
    rw [settled.mode] at drains
    cases drains

theorem sealing_append (a b : List Reply) : sealing (a ++ b) = sealing a + sealing b :=
  countP_append

theorem sealing_ended (whole : ended true answer = true) : 0 < sealing answer := by
  obtain ⟨last, hf, ends⟩ := (Option.any_eq_true _ _).mp (Bool.and_eq_true_iff.mp whole).1
  obtain ⟨own, ready⟩ := Bool.and_eq_true_iff.mp ends
  refine countP_pos_iff.mpr ⟨last, mem_of_getLast? hf, ?_⟩
  exact Bool.and_eq_true_iff.mpr ⟨of_decide_eq_true own, ready⟩

variable (settled : Settled s wire)
include settled

theorem Settled.more (answer : List Reply) : Settled s (wire ++ answer) :=
  { settled with enough := settled.enough.trans (by rw [sealing_append]; omega) }

theorem Settled.pending_more (closes : s.deferredCloseCompletes = 0) :
    pending response served s (wire ++ answer) =
      pending response served s wire ++ clientBytes answer := by
  have more : pendingSlots response served s.egress.slots (wire ++ answer) =
      pendingSlots response served s.egress.slots wire ++ clientBytes answer :=
    pendingSlots_more settled.enough answer
  simp [pending, closes, settled.batch, more]

theorem Settled.originDispatch (whole : ended true answer = true) :
    Settled s.originDispatch (wire ++ answer) where
  mode := settled.mode
  plain := settled.plain
  enough := by
    have opened : unsealed s.originDispatch.egress.slots = unsealed s.egress.slots + 1 :=
      unsealed_append _ _
    have enough := settled.enough
    have more := sealing_ended whole
    rw [opened, sealing_append]
    omega
  uncached := by
    refine (caches_append _ _).trans ?_
    rw [settled.uncached]
    rfl
  batch := settled.batch
  free := settled.free

theorem Settled.pending_originDispatch (closes : s.deferredCloseCompletes = 0) :
    pending response served s.originDispatch (wire ++ answer) =
      pending response served s wire ++ clientBytes answer := by
  rw [← settled.pending_more closes]
  exact congrArg (· ++ _) (pendingSlots_open _ _)

theorem Settled.synthPush (buf : Bytes) :
    Settled { s with egress := s.egress.synthPush buf } wire where
  mode := settled.mode
  plain := settled.plain
  enough := by
    unfold EgressQueue.synthPush
    split
    · exact settled.enough
    · exact ((unsealed_append _ _).trans (Nat.add_zero _)).trans_le settled.enough
  uncached := by
    unfold EgressQueue.synthPush
    split
    · exact settled.uncached
    · exact (caches_append _ _).trans settled.uncached
  batch := settled.batch
  free := settled.free

omit settled

theorem pendingSlots_synthPush {queue : EgressQueue C} {buf : Bytes}
    (none : buf ≠ [] → NoneForClient (loose queue.slots wire)) :
    pendingSlots response served (queue.synthPush buf).slots wire =
      pendingSlots response served queue.slots wire ++ buf := by
  unfold synthPush
  split
  · next empty => rw [isEmpty_iff.mp empty, append_nil]
  · next some_ =>
    exact pendingSlots_push rfl (none fun empty => some_ (isEmpty_iff.mpr empty)).clientBytes

theorem loose_synthPush (queue : EgressQueue C) (buf : Bytes) :
    loose (queue.synthPush buf).slots wire = loose queue.slots wire := by
  unfold synthPush
  split
  · rfl
  · exact loose_push wire rfl

variable (settled : Settled s wire)
include settled

theorem Settled.deferredCloseCompletesFlush (group : Bool) :
    Settled { s.deferredCloseCompletesFlush with groupOriginForwarded := group } wire :=
  let pushed := settled.synthPush (replicate s.deferredCloseCompletes closeCompleteMsg).flatten
  ⟨pushed.mode, pushed.plain, pushed.enough, pushed.uncached, pushed.batch, pushed.free⟩

theorem Settled.pending_deferredCloseCompletesFlush
    (none : 0 < s.deferredCloseCompletes → NoneForClient (loose s.egress.slots wire))
    (group : Bool) :
    pending response served
        { s.deferredCloseCompletesFlush with groupOriginForwarded := group } wire =
      pending response served s wire := by
  have bytes : pendingSlots response served (s.egress.synthPush
      (replicate s.deferredCloseCompletes closeCompleteMsg).flatten).slots wire =
      pendingSlots response served s.egress.slots wire ++
        (replicate s.deferredCloseCompletes closeCompleteMsg).flatten := by
    refine pendingSlots_synthPush fun some_ => none (Nat.pos_of_ne_zero fun zero => some_ ?_)
    rw [zero]
    rfl
  simp [pending, ConnectionState.deferredCloseCompletesFlush, bytes, settled.batch]

theorem Settled.cachePush
    (none : NoneForClient (loose s.egress.slots wire)) (first : C) (rest : List C) :
    Ordered (s.cacheBatchDispatch first rest) wire where
  enough := by
    have enough := settled.enough
    change (if s.flushDescribePending then _ else _) ≤ _
    rw [settled.plain, if_neg Bool.false_ne_true]
    exact ((unsealed_append _ _).trans (Nat.add_zero _)).trans_le settled.enough
  reading reads := by cases reads
  draining _ := by
    refine ⟨settled.plain, ?_, s.egress.slots, .cache (some first) false, rfl, settled.uncached,
      rfl, fun held => ?_⟩
    · have same : loose (s.egress.slots ++ [.cache (some first) false]) wire =
          loose s.egress.slots wire := loose_push wire rfl
      exact same ▸ none
    · change s.leased = true at held
      rw [settled.free] at held
      cases held

omit settled in
theorem Settled.pending_cachePush (none : NoneForClient (loose s.egress.slots wire))
    (closes : s.deferredCloseCompletes = 0) (settled : Settled s wire) (first : C)
    (rest : List C) :
    pending response served (s.cacheBatchDispatch first rest) wire =
      pending response served s wire ++ (first :: rest).flatMap response := by
  have bytes : pendingSlots response served (s.egress.cachePush first).slots wire =
      pendingSlots response served s.egress.slots wire ++ response first :=
    pendingSlots_push rfl none.clientBytes
  simp [pending, cacheBatchDispatch, bytes, settled.batch, closes]

omit settled in
theorem Ordered.flushDescribeSeal (ho : Ordered s wire) (mode : s.proxyMode = .read)
    (last : s.flushDescribePending = true → leading s.egress.slots = 0) :
    Settled s.flushDescribeSeal wire ∧
      pending response served s.flushDescribeSeal wire = pending response served s wire := by
  obtain ⟨uncached, batch, free⟩ := ho.reading mode
  have enough := ho.enough
  unfold ConnectionState.flushDescribeSeal
  split
  · next streaming =>
    have suffix : s.egress.originSeal.slots <:+ modifyOldestUnsealed sealSlot s.egress.slots :=
      dropWhile_suffix _
    refine ⟨⟨mode, rfl, ?_, ?_, batch, free⟩, ?_⟩
    · have fewer := suffix.sublist.countP_le (p := isUnsealed)
      have sealed := unsealed_seal s.egress.slots
      have alone := unsealed_le_leading s.egress.slots
      have none := last streaming
      unfold unsealed at *
      dsimp only
      omega
    · refine (caches_dropWhile_isDone _).trans ((caches_modify _ fun slot => ?_).trans uncached)
      cases slot <;> rfl
    · have bytes : pendingSlots response served s.egress.originSeal.slots wire =
          pendingSlots response served s.egress.slots wire :=
        (pendingSlots_prune _ _).trans (pendingSlots_seal_last (last streaming) wire)
      simp [pending, bytes]
  · next plain =>
    rw [if_neg plain] at enough
    exact ⟨⟨mode, Bool.eq_false_iff.mpr plain, enough, uncached, batch, free⟩, rfl⟩

omit settled in
private theorem lazyParseInstall_eq (s : ConnectionState C) (needed : Bool) :
    ∃ ic, s.lazyParseInstall needed = { s with originIntercept := ic } := by
  unfold lazyParseInstall
  split
  · exact ⟨.lazyParseInline, rfl⟩
  · exact ⟨s.originIntercept, rfl⟩

omit settled in
private theorem append_nothing (wire : List Reply) {answer : List Reply}
    (empty : answer.isEmpty = true) : wire ++ answer = wire := by
  rw [isEmpty_iff.mp empty, append_nil]

theorem Settled.pending_synthPush {buf : Bytes}
    (none : buf ≠ [] → NoneForClient (loose s.egress.slots wire))
    (closes : s.deferredCloseCompletes = 0) :
    pending response served { s with egress := s.egress.synthPush buf } wire =
      pending response served s wire ++ buf := by
  have pushed : pendingSlots response served (s.egress.synthPush buf).slots wire =
      pendingSlots response served s.egress.slots wire ++ buf :=
    pendingSlots_synthPush none
  simp [pending, pushed, settled.batch, closes]

theorem Settled.handleSyncMessage {plan : SyncPlan C}
    {status : UInt8} (answered : answers s answer (.sync plan status) = true)
    (none : pushes s (.sync plan status) = true → NoneForClient (loose s.egress.slots wire)) :
    Ordered (s.handleSyncMessage plan status) (wire ++ answer) ∧
      pending response served (s.handleSyncMessage plan status) (wire ++ answer) =
        pending response served s wire ++ due response s answer (.sync plan status) := by
  have closesNone : 0 < s.deferredCloseCompletes → NoneForClient (loose s.egress.slots wire) := by
    intro closes
    apply none
    cases plan <;> first | rfl | exact decide_eq_true closes
  have flushed := settled.deferredCloseCompletesFlush false
  have looseNext : loose s.deferredCloseCompletesFlush.egress.slots wire =
      loose s.egress.slots wire := loose_synthPush _ _
  rw [← settled.pending_deferredCloseCompletesFlush closesNone false]
  unfold ConnectionState.handleSyncMessage
  generalize reset : { s.deferredCloseCompletesFlush with groupOriginForwarded := false } = next
    at flushed ⊢
  have closes : next.deferredCloseCompletes = 0 := by rw [← reset]; rfl
  replace looseNext : loose next.egress.slots wire = loose s.egress.slots wire := by
    rw [← reset]
    exact looseNext
  rw [← looseNext] at none closesNone
  cases plan with
  | bare =>
    simp only [answers] at answered
    simp only [due]
    by_cases here : syncsLocally s = true
    · rw [if_pos here] at answered ⊢
      obtain ⟨some_, alone⟩ := Bool.and_eq_true_iff.mp here
      have some_ := of_decide_eq_true some_
      rw [if_pos ⟨some_, by simpa using alone⟩, append_nothing wire answered]
      exact ⟨(flushed.synthPush _).ordered,
        flushed.pending_synthPush (fun _ => closesNone some_) closes⟩
    · rw [if_neg here] at answered ⊢
      rw [if_neg fun both => here (Bool.and_eq_true_iff.mpr
        ⟨decide_eq_true both.1, by rw [both.2]; rfl⟩)]
      exact ⟨(flushed.originDispatch answered).ordered, flushed.pending_originDispatch closes⟩
  | cacheBatch first rest =>
    rw [append_nothing wire answered]
    exact ⟨flushed.cachePush (none rfl) first rest,
      flushed.pending_cachePush (none rfl) closes first rest⟩
  | synthesized out =>
    rw [append_nothing wire answered]
    exact ⟨(flushed.synthPush out).ordered, flushed.pending_synthPush (fun _ => none rfl) closes⟩
  | forwarded lp =>
    obtain ⟨ic, installed⟩ := lazyParseInstall_eq next lp
    dsimp only
    rw [installed]
    have moved : Settled { next with originIntercept := ic } wire := { flushed with }
    exact ⟨(moved.originDispatch answered).ordered, moved.pending_originDispatch closes⟩

theorem Settled.handleFlushMessage {buffered lp : Bool}
    (answered : answers s answer (.flush buffered lp) = true)
    (none : 0 < s.deferredCloseCompletes → NoneForClient (loose s.egress.slots wire)) :
    Ordered (s.handleFlushMessage buffered lp) (wire ++ answer) ∧
      pending response served (s.handleFlushMessage buffered lp) (wire ++ answer) =
        pending response served s wire ++ clientBytes answer := by
  have flushed := settled.deferredCloseCompletesFlush true
  rw [← settled.pending_deferredCloseCompletesFlush none true]
  unfold ConnectionState.handleFlushMessage
  generalize reset : { s.deferredCloseCompletesFlush with groupOriginForwarded := true } = next
    at flushed ⊢
  have closes : next.deferredCloseCompletes = 0 := by rw [← reset]; rfl
  cases buffered with
  | false =>
    rw [append_nothing wire answered, isEmpty_iff.mp answered]
    exact ⟨flushed.ordered, (append_nil _).symm⟩
  | true =>
    obtain ⟨ic, installed⟩ := lazyParseInstall_eq next lp
    dsimp only
    rw [if_pos rfl, installed]
    refine ⟨⟨?_, fun reads => ⟨?_, flushed.batch, flushed.free⟩, fun drains => ?_⟩, ?_⟩
    · change leading (next.egress.slots ++ [.origin [] false]) ≤ _
      rw [leading_concat, sealing_append]
      exact flushed.enough.trans (Nat.le_add_right _ _)
    · refine (caches_append _ _).trans ?_
      rw [flushed.uncached]
      rfl
    · change next.proxyMode = .originDrain at drains
      rw [flushed.mode] at drains
      cases drains
    · exact flushed.pending_originDispatch closes

omit settled

variable (response served) in
theorem Ordered.handleClientMessage (ho : Ordered s wire) (mode : s.proxyMode = .read)
    {msg : ClientMessage C} (answered : answers s answer msg = true)
    (last : s.flushDescribePending = true → leading s.egress.slots = 0)
    (none : pushes s msg = true → NoneForClient (loose s.flushDescribeSeal.egress.slots wire))
    (passes : passesCloses msg = true → s.deferredCloseCompletes = 0) :
    Ordered (s.handleClientMessage msg) (wire ++ answer) ∧
      pending response served (s.handleClientMessage msg) (wire ++ answer) =
        pending response served s wire ++ due response s answer msg := by
  obtain ⟨settled, bytes⟩ :
    Settled s.flushDescribeSeal wire ∧ pending response served s.flushDescribeSeal wire =
      pending response served s wire := ho.flushDescribeSeal mode last
  have sameDue : due response s.flushDescribeSeal answer msg = due response s answer msg := by
    unfold ConnectionState.flushDescribeSeal
    split <;> rfl
  have sameAnswers : answers s.flushDescribeSeal answer msg = answers s answer msg := by
    unfold ConnectionState.flushDescribeSeal
    split <;> rfl
  have samePushes : pushes s.flushDescribeSeal msg = pushes s msg := by
    unfold ConnectionState.flushDescribeSeal
    split <;> rfl
  have sameCloses : s.flushDescribeSeal.deferredCloseCompletes = s.deferredCloseCompletes := by
    unfold ConnectionState.flushDescribeSeal
    split <;> rfl
  rw [← bytes, ← sameDue]
  rw [← sameAnswers] at answered
  rw [← samePushes] at none
  rw [← sameCloses] at passes
  unfold ConnectionState.handleClientMessage
  generalize s.flushDescribeSeal = next at settled answered none passes ⊢
  cases msg with
  | queryForward piggyback =>
    dsimp only
    split
    · have moved : Settled { next with originIntercept := .trailingShowSearchPath .preShow } wire :=
        { settled with }
      exact ⟨(moved.originDispatch answered).ordered, moved.pending_originDispatch (passes rfl)⟩
    · exact ⟨(settled.originDispatch answered).ordered, settled.pending_originDispatch (passes rfl)⟩
  | queryCache msg =>
    rw [append_nothing wire answered]
    have bytes : pending response served (next.cacheBatchDispatch msg next.batch) wire =
        pending response served next wire ++ (msg :: next.batch).flatMap response :=
      settled.pending_cachePush (none rfl) (passes rfl) msg next.batch
    have whole : (msg :: next.batch).flatMap response = response msg := by simp [settled.batch]
    rw [whole] at bytes
    exact ⟨settled.cachePush (none rfl) msg next.batch, bytes⟩
  | sync plan status => exact settled.handleSyncMessage answered none
  | flush buffered lp =>
    exact settled.handleFlushMessage answered fun closes => none (decide_eq_true closes)
  | closeLocal =>
    obtain ⟨empty, -⟩ := Bool.and_eq_true_iff.mp answered
    rw [append_nothing wire empty]
    have later : Settled { next with
      deferredCloseCompletes := next.deferredCloseCompletes + 1 } wire := { settled with }
    refine ⟨later.ordered, ?_⟩
    simp [pending, due, settled.batch, replicate_succ']
  | closeForward =>
    have flushed := settled.deferredCloseCompletesFlush true
    have bytes : pending response served
        { next.deferredCloseCompletesFlush with groupOriginForwarded := true } wire =
        pending response served next wire :=
      settled.pending_deferredCloseCompletesFlush (fun closes => none (decide_eq_true closes)) true
    rw [← bytes]
    exact ⟨(flushed.more answer).ordered, flushed.pending_more rfl⟩
  | sslRequest =>
    rw [append_nothing wire answered]
    exact ⟨(settled.synthPush _).ordered,
      settled.pending_synthPush (fun _ => none rfl) (passes rfl)⟩
  | forwardUnslotted =>
    have owes : Settled { next with owed := next.owed + 1 } wire := { settled with }
    exact ⟨(owes.more answer).ordered, settled.pending_more (passes rfl)⟩
  | other =>
    rw [append_nothing wire answered]
    refine ⟨settled.ordered, ?_⟩
    simp only [due]
    rw [isEmpty_iff.mp answered]
    exact (append_nil _).symm

def openedSlots (slots : List (EgressSlot C)) : List (EgressSlot C) :=
  if unsealed slots = 0 then slots ++ [.origin [] false] else slots

theorem originAppend_slots {queue : EgressQueue C} {bytes : Bytes} (some_ : bytes ≠ []) :
    (queue.originAppend bytes).slots =
      modifyOldestUnsealed (appendBytes bytes) (openedSlots queue.slots) := by
  have all : queue.originAllSealed = true ↔ unsealed queue.slots = 0 := by
    simp [originAllSealed, unsealed, countP_eq_zero]
  rw [originAppend, if_neg fun empty => some_ (isEmpty_iff.mp empty), openedSlots]
  by_cases none : unsealed queue.slots = 0
  · rw [if_pos none, if_pos (all.mpr none)]
    rfl
  · rw [if_neg none, if_neg fun sealed => none (all.mp sealed)]

variable (slots : List (EgressSlot C))
include slots

theorem unsealed_openedSlots : unsealed (openedSlots slots) = max 1 (unsealed slots) := by
  unfold openedSlots
  split
  · next none => rw [unsealed_append, none]; rfl
  · omega

theorem leading_openedSlots : leading (openedSlots slots) ≤ leading slots := by
  unfold openedSlots
  split
  · next none => rw [leading_concat, none]; exact Nat.zero_le _
  · exact Nat.le_refl _

theorem caches_openedSlots : caches (openedSlots slots) = caches slots := by
  unfold openedSlots
  split
  · exact caches_append _ _
  · rfl

theorem pendingSlots_openedSlots (wire : List Reply) :
    pendingSlots response served (openedSlots slots) wire =
      pendingSlots response served slots wire := by
  unfold openedSlots
  split
  · exact pendingSlots_open slots wire
  · rfl

omit slots

def relayedSlots (msg : PgBackendMessage) (slots : List (EgressSlot C)) : List (EgressSlot C) :=
  let appended := modifyOldestUnsealed (appendBytes msg.data) (openedSlots slots)
  if msg.messageType = .readyForQuery then
    (modifyOldestUnsealed sealSlot appended).dropWhile isDone
  else appended

theorem originMessageRelay_slots (s : ConnectionState C) (msg : PgBackendMessage) :
    (s.originMessageRelay msg).egress.slots = relayedSlots msg s.egress.slots := by
  unfold originMessageRelay relayedSlots
  dsimp only
  rw [← originAppend_slots msg.nonempty]
  split <;> rfl

section Relay

variable {reply : Reply} {slots : List (EgressSlot C)}

private theorem seals_eq (own : reply.forClient = true) :
    reply.seals = decide (reply.msg.messageType = .readyForQuery) := by
  rw [Reply.seals, own, Bool.true_and]

theorem pendingSlots_relayed (own : reply.forClient = true) (slots : List (EgressSlot C))
    (wire : List Reply) :
    pendingSlots response served (relayedSlots reply.msg slots) wire =
      pendingSlots response served slots (reply :: wire) := by
  have some_ : 0 < unsealed (openedSlots slots) := by rw [unsealed_openedSlots]; omega
  rw [← pendingSlots_openedSlots slots (reply :: wire)]
  unfold relayedSlots
  dsimp only
  split
  · next ready =>
    have ends : reply.seals = true := (seals_eq own).trans (decide_eq_true ready)
    rw [pendingSlots_prune, pendingSlots_seal ends some_]
  · next hm =>
    have hm : reply.seals = false := (seals_eq own).trans (decide_eq_false hm)
    rw [pendingSlots_append own hm some_]

theorem caches_relayed (msg : PgBackendMessage) (slots : List (EgressSlot C)) :
    caches (relayedSlots msg slots) = caches slots := by
  have appended : caches (modifyOldestUnsealed (appendBytes msg.data) (openedSlots slots)) =
      caches slots :=
    (caches_modify _ fun slot => by cases slot <;> rfl).trans (caches_openedSlots slots)
  unfold relayedSlots
  dsimp only
  split
  · rw [caches_dropWhile_isDone, caches_modify _ fun slot => by cases slot <;> rfl, appended]
  · exact appended

theorem relayed_enough (own : reply.forClient = true) (streaming : Bool)
    (enough : (if streaming then leading slots else unsealed slots) ≤ sealing (reply :: wire))
    (covered : unsealed slots = 0 → streaming = true ∨ 0 < sealing (reply :: wire)) :
    (if streaming then leading (relayedSlots reply.msg slots)
      else unsealed (relayedSlots reply.msg slots)) ≤ sealing wire := by
  have count : sealing (reply :: wire) = sealing wire + if reply.seals then 1 else 0 :=
    countP_cons
  have opened := unsealed_openedSlots slots
  have first := leading_openedSlots slots
  have keptUnsealed := unsealed_modify (openedSlots slots) (isUnsealed_appendBytes reply.msg.data)
  have keptLeading := leading_modify (openedSlots slots) (isUnsealed_appendBytes reply.msg.data)
  rw [seals_eq own] at count
  unfold relayedSlots
  dsimp only
  generalize modifyOldestUnsealed (appendBytes reply.msg.data) (openedSlots slots) = appended at *
  by_cases ready : reply.msg.messageType = .readyForQuery
  · rw [if_pos ready]
    rw [decide_eq_true ready, if_pos rfl] at count
    have suffix : (modifyOldestUnsealed sealSlot appended).dropWhile isDone <:+
        modifyOldestUnsealed sealSlot appended := dropWhile_suffix _
    have fewer : unsealed ((modifyOldestUnsealed sealSlot appended).dropWhile isDone) ≤
        unsealed (modifyOldestUnsealed sealSlot appended) := suffix.sublist.countP_le
    have fewerLeading := leading_le_of_suffix suffix
    have sealedUnsealed := unsealed_seal appended
    have sealedLeading := leading_seal appended
    cases streaming <;> simp only [Bool.false_eq_true, ↓reduceIte] at enough ⊢ <;> omega
  · rw [if_neg ready]
    rw [decide_eq_false ready, if_neg Bool.false_ne_true] at count
    cases streaming <;>
      simp only [Bool.false_eq_true, ↓reduceIte, false_or] at enough covered ⊢ <;> omega

theorem loose_relayed (own : reply.forClient = true) (some_ : 0 < unsealed slots)
    (wire : List Reply) :
    loose (relayedSlots reply.msg slots) wire = loose slots (reply :: wire) := by
  unfold relayedSlots openedSlots
  rw [if_neg (Nat.ne_of_gt some_)]
  dsimp only
  split
  · next ready =>
    rw [loose_prune, loose_seal ((seals_eq own).trans (decide_eq_true ready)) some_]
  · next hm =>
    rw [loose_append ((seals_eq own).trans (decide_eq_false hm)) some_]

private theorem modify_concat {f : EgressSlot C → EgressSlot C} {slot : EgressSlot C}
    (settled : slot.isUnsealed = false) (front : List (EgressSlot C)) :
    modifyOldestUnsealed f (front ++ [slot]) = modifyOldestUnsealed f front ++ [slot] := by
  induction front with
  | nil => simp [modifyOldestUnsealed, settled]
  | cons first front ih =>
    rw [cons_append, modifyOldestUnsealed, modifyOldestUnsealed, ih]
    split <;> rfl

private theorem prune_concat {slot : EgressSlot C} (left : slot.isDone = false)
    (front : List (EgressSlot C)) :
    (front ++ [slot]).dropWhile isDone = front.dropWhile isDone ++ [slot] := by
  induction front with
  | nil => simp [left]
  | cons first front ih =>
    rw [cons_append, dropWhile_cons, dropWhile_cons, ih]
    split <;> rfl

theorem CacheLast.relayed (last : CacheLast slots false) (some_ : 0 < unsealed slots)
    (msg : PgBackendMessage) : CacheLast (relayedSlots msg slots) false := by
  obtain ⟨front, slot, rfl, plain, hc, -⟩ := last
  have settled : slot.isUnsealed = false := by cases slot <;> first | rfl | cases hc
  have left : slot.isDone = false := by cases slot <;> first | rfl | cases hc
  have waits : unsealed front ≠ 0 := by
    rw [unsealed_append, unsealed_cons, settled] at some_
    exact Nat.ne_of_gt some_
  have split : relayedSlots msg (front ++ [slot]) = relayedSlots msg front ++ [slot] := by
    unfold relayedSlots openedSlots
    rw [if_neg waits, if_neg (Nat.ne_of_gt some_)]
    dsimp only
    rw [modify_concat settled, modify_concat settled, prune_concat left]
    split <;> rfl
  exact ⟨relayedSlots msg front, slot, split, (caches_relayed msg front).trans plain, hc, nofun⟩

theorem Ordered.relay (ho : Ordered s (reply :: wire)) (own : reply.forClient = true)
    (covered : unsealed s.egress.slots = 0 →
      s.flushDescribePending = true ∨ 0 < sealing (reply :: wire)) :
    Ordered (s.originMessageRelay reply.msg) wire where
  enough := by
    rw [originMessageRelay_slots]
    exact relayed_enough own s.flushDescribePending ho.enough covered
  reading reads := by
    obtain ⟨uncached, batch, free⟩ := ho.reading reads
    rw [originMessageRelay_slots, caches_relayed]
    exact ⟨uncached, batch, free⟩
  draining drains := by
    obtain ⟨plain, none, last⟩ := ho.draining drains
    -- a reply for the client is not loose, so it has a slot in front of the cache slot
    have some_ : 0 < unsealed s.egress.slots := by
      refine Nat.pos_of_ne_zero fun zero => ?_
      rw [loose_settled zero] at none
      have o := none reply mem_cons_self
      rw [own] at o
      cases o
    have free : s.leased = false := by
      refine Bool.eq_false_iff.mpr fun held => ?_
      obtain ⟨front, slot, shape, -, -, serving⟩ := last
      obtain ⟨rfl, rfl⟩ := serving held
      rw [shape] at some_
      exact absurd some_ (Nat.lt_irrefl 0)
    rw [originMessageRelay_slots, loose_relayed own some_]
    refine ⟨plain, none, ?_⟩
    change CacheLast (relayedSlots reply.msg s.egress.slots) s.leased
    rw [free] at last ⊢
    exact last.relayed some_ reply.msg

theorem pending_relay (own : reply.forClient = true) :
    pending response served (s.originMessageRelay reply.msg) wire =
      pending response served s (reply :: wire) := by
  rw [pending, originMessageRelay_slots, pendingSlots_relayed own]
  rfl

theorem pending_skip (own : reply.forClient = false) :
    pending response served s wire = pending response served s (reply :: wire) := by
  rw [pending, pending, pendingSlots_skip own]

theorem pending_own {more : List Reply} (none : NoneForClient more) :
    pending response served s (wire ++ more) = pending response served s wire := by
  rw [pending, pending, pendingSlots_own none]

theorem Ordered.skip (ho : Ordered s (reply :: wire)) (own : reply.forClient = false) :
    Ordered s wire where
  enough := by
    have same : sealing (reply :: wire) = sealing wire := by
      simp [sealing, Reply.seals, own]
    exact same ▸ ho.enough
  reading := ho.reading
  draining drains := by
    obtain ⟨plain, none, last⟩ := ho.draining drains
    exact ⟨plain, fun o hw => none o (mem_loose_skip own hw), last⟩

theorem Ordered.own {more : List Reply} (ho : Ordered s wire) (none : NoneForClient more) :
    Ordered s (wire ++ more) where
  enough := ho.enough.trans (by rw [sealing_append]; exact Nat.le_add_right _ _)
  reading := ho.reading
  draining drains := by
    obtain ⟨plain, looseNone, last⟩ := ho.draining drains
    have enough := ho.enough
    rw [plain, if_neg Bool.false_ne_true] at enough
    refine ⟨plain, ?_, last⟩
    rw [loose_more enough]
    intro o hw
    exact (mem_append.mp hw).elim (looseNone o) (none o)

end Relay

section Write

variable {rest : List (EgressSlot C)}

private theorem CacheLast.tail {slot : EgressSlot C}
    (plain : slot.isCache = false) (last : CacheLast (slot :: rest) false) :
    CacheLast rest false := by
  obtain ⟨front, last, shape, uncached, hc, -⟩ := last
  cases front with
  | nil =>
    obtain ⟨rfl, -⟩ := cons.inj shape
    rw [plain] at hc
    cases hc
  | cons first front =>
    obtain ⟨rfl, rfl⟩ := cons.inj shape
    rw [caches_cons, plain] at uncached
    exact ⟨front, last, rfl, uncached, hc, nofun⟩

private theorem CacheLast.cons {slot : EgressSlot C}
    (plain : slot.isCache = false) (last : CacheLast rest false) :
    CacheLast (slot :: rest) false := by
  obtain ⟨front, last, rfl, uncached, hc, -⟩ := last
  refine ⟨slot :: front, last, rfl, ?_, hc, nofun⟩
  rw [caches_cons, plain, uncached]
  rfl

theorem Ordered.advance {n : Nat} (ho : Ordered s wire) (free : s.leased = false)
    (writable : s.egress.hasWritable = true) (hw : n ≤ s.egress.writeChunk.length) :
    Ordered { s with egress := s.egress.advance n } wire := by
  obtain ⟨slot, rest, shape, plain, written⟩ := advance_cases (fun _ : C => []) none writable hw
  obtain ⟨enough, reading, draining⟩ := ho
  rw [shape] at enough reading draining
  rw [free] at draining
  rw [caches_cons, plain] at reading
  obtain ⟨gone, settled, -⟩ | ⟨left, kept, waits, stays, -⟩ := written
  · have fewer := leading_le_of_suffix (suffix_cons slot rest)
    rw [unsealed_cons, settled] at enough
    refine ⟨?_, ?_, fun drains => ?_⟩
    · dsimp only
      rw [gone]
      split at enough
      · next streaming => rw [if_pos streaming]; exact fewer.trans enough
      · next streaming => rw [if_neg streaming]; exact enough
    · rw [gone]
      exact reading
    · obtain ⟨still, none, last⟩ := draining drains
      rw [loose, settled, if_neg Bool.false_ne_true] at none
      dsimp only
      rw [gone, free]
      exact ⟨still, none, last.tail plain⟩
  · refine ⟨?_, ?_, fun drains => ?_⟩
    · dsimp only
      rw [kept, leading_head waits, unsealed_cons, waits, ← unsealed_cons]
      exact enough
    · rw [kept, caches_cons, stays]
      exact reading
    · obtain ⟨still, none, last⟩ := draining drains
      rw [loose, ← waits] at none
      dsimp only
      rw [kept, free, loose]
      exact ⟨still, none, (last.tail plain).cons stays⟩

theorem pending_advance {n : Nat} (writable : s.egress.hasWritable = true)
    (hw : n ≤ s.egress.writeChunk.length) :
    s.egress.writeChunk.take n ++
        pending response served { s with egress := s.egress.advance n } wire =
      pending response served s wire := by
  obtain ⟨slot, rest, shape, -, ⟨left, settled, bytes⟩ | ⟨left, kept, waits, -, bytes⟩⟩ :=
    advance_cases response served writable hw
  · simp [pending, left, shape, pendingSlots, settled, bytes]
  · cases here : slot.isUnsealed <;> simp [pending, kept, shape, pendingSlots, waits, here, ← bytes]

end Write

section Serve

theorem Ordered.alone {msg : Option C} {serving : Bool} {rest : List (EgressSlot C)}
    (ho : Ordered s wire) (mode : s.proxyMode = .originDrain)
    (shape : s.egress.slots = .cache msg serving :: rest) :
    rest = [] ∧ NoneForClient wire ∧ s.flushDescribePending = false := by
  obtain ⟨plain, none, front, slot, split, uncached, hc, -⟩ := ho.draining mode
  rw [shape] at split none
  cases front with
  | nil =>
    obtain ⟨-, rfl⟩ := cons.inj split
    exact ⟨rfl, none, plain⟩
  | cons first front =>
    obtain ⟨rfl, -⟩ := cons.inj split
    rw [caches_cons] at uncached
    exact absurd uncached (Nat.succ_ne_zero _)

structure Serving (s : ConnectionState C) (wire : List Reply) : Prop where
  shape : s.egress.slots = [.cache none true]
  quiet : NoneForClient wire
  plain : s.flushDescribePending = false

theorem Ordered.leased (ho : Ordered s wire) (held : s.leased = true) : Serving s wire := by
  cases mode : s.proxyMode with
  | read =>
    rw [(ho.reading mode).2.2] at held
    cases held
  | originDrain =>
    obtain ⟨plain, none, front, slot, shape, -, -, serving⟩ := ho.draining mode
    obtain ⟨rfl, rfl⟩ := serving held
    rw [nil_append] at shape
    rw [shape] at none
    exact ⟨shape, none, plain⟩

variable (serving : Serving s wire)
include serving

theorem Serving.pending : pending response served s wire = (served.map response).getD [] ++
      (s.batch.flatMap response ++
        (replicate s.deferredCloseCompletes closeCompleteMsg).flatten) := by
  have slot : pendingSlots response served [.cache none true] wire =
    (served.map response).getD [] := by
    rw [pendingSlots_none serving.quiet]
    exact append_nil _
  rw [StreamOrder.pending, serving.shape, slot]

theorem Serving.forward (free : s.leased = false) (whole : ended true answer = true) (lp : Bool) :
    Ordered (s.forwardCurrentAndRest lp) (wire ++ answer) := by
  obtain ⟨ic, installed⟩ := lazyParseInstall_eq s lp
  unfold forwardCurrentAndRest
  rw [installed]
  refine ⟨?_, fun _ => ⟨?_, rfl, free⟩, nofun⟩
  · have more := sealing_ended whole
    have one : unsealed s.egress.cacheToOrigin.slots = 1 := by
      rw [cacheToOrigin, serving.shape]
      rfl
    dsimp only
    rw [serving.plain, if_neg Bool.false_ne_true, one, sealing_append]
    omega
  · simp only [cacheToOrigin, serving.shape]
    rfl

theorem Serving.pending_forward
    (bytes : clientBytes answer = (served.map response).getD [] ++ s.batch.flatMap response)
    (lp : Bool) :
    StreamOrder.pending response served (s.forwardCurrentAndRest lp) (wire ++ answer) =
      StreamOrder.pending response served s wire := by
  obtain ⟨ic, installed⟩ := lazyParseInstall_eq s lp
  have slot : pendingSlots response served [.origin [] false] (wire ++ answer) =
      clientBytes answer := by
    refine (pendingSlots_open [] _).trans ((clientBytes_append wire answer).trans ?_)
    rw [serving.quiet.clientBytes, nil_append]
  have opened : s.egress.cacheToOrigin.slots = [.origin [] false] := by
    simp only [cacheToOrigin, serving.shape]
  rw [serving.pending, forwardCurrentAndRest, installed]
  simp only [StreamOrder.pending, opened, slot, bytes, flatMap_nil, nil_append, append_assoc]

theorem Serving.complete :
    Ordered ({ s with leased := false }.handleCacheOutcome .complete) wire := by
  have gone : s.egress.cacheDone.slots = [] := by
    rw [cacheDone, serving.shape]
  simp only [handleCacheOutcome, cacheBatchAdvance]
  split
  · next next rest batch =>
    have shape : (s.egress.cacheDone.cachePush next).slots = [.cache (some next) false] := by
      rw [cachePush, gone]
      rfl
    refine ⟨?_, fun free => (by cases free), fun _ => ⟨serving.plain, ?_, [], _, shape, rfl, rfl,
      fun leased => by cases leased⟩⟩
    · dsimp only
      rw [shape, serving.plain]
      exact Nat.zero_le _
    · rw [shape]
      exact serving.quiet
  · next batch =>
    refine ⟨?_, fun _ => ⟨?_, batch, rfl⟩, fun leased => by cases leased⟩
    · dsimp only
      rw [gone, serving.plain]
      exact Nat.zero_le _
    · rw [gone]
      rfl

theorem Serving.pending_complete :
    (served.map response).getD [] ++ StreamOrder.pending response served
        ({ s with leased := false }.handleCacheOutcome .complete) wire =
      StreamOrder.pending response served s wire := by
  have gone : s.egress.cacheDone.slots = [] := by
    rw [cacheDone, serving.shape]
  rw [serving.pending]
  simp only [handleCacheOutcome, cacheBatchAdvance]
  split
  · next next rest batch =>
    have slot : pendingSlots response served (s.egress.cacheDone.cachePush next).slots wire =
        response next := by
      rw [pendingSlots_none serving.quiet, cachePush, gone]
      exact append_nil _
    change s.batch = next :: rest at batch
    simp only [StreamOrder.pending, slot, batch, flatMap_cons, append_assoc]
  · next batch =>
    simp only [StreamOrder.pending, gone, pendingSlots, serving.quiet.clientBytes, nil_append]

end Serve

end PgCache.Proxy.StreamOrder
