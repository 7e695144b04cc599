/- source: proxy/egress.rs, proxy/connection/relay.rs
   digest: What each event does to the egress queue, and that every unsealed slot keeps a
     ReadyForQuery to come. -/
import PgCache.Proxy.Connection

set_option autoImplicit false

namespace PgCache.Proxy.Ledger

open Egress Egress.EgressQueue Connection ConnectionState EgressSlot EgressQueue List Option

variable {C : Type}

/-- The `ReadyForQuery` messages still owed that will be relayed to the client. -/
def visible (s : ConnectionState C) : Nat :=
  s.owed - if s.originIntercept.swallows then 1 else 0

section Moving

variable {s : ConnectionState C}

theorem moves_flushDescribeSeal (s : ConnectionState C) :
    Moves s.egress s.flushDescribeSeal.egress := by
  unfold flushDescribeSeal
  split
  · exact moves_originSeal _
  · exact .refl _

@[simp] theorem lazyParseInstall_keeps (s : ConnectionState C) (needed : Bool) :
    (s.lazyParseInstall needed).egress = s.egress ∧
    (s.lazyParseInstall needed).flushDescribePending = s.flushDescribePending ∧
    (s.lazyParseInstall needed).owed = s.owed ∧
    (s.lazyParseInstall needed).leased = s.leased ∧
    (s.lazyParseInstall needed).closed = s.closed ∧
    (s.lazyParseInstall needed).proxyMode = s.proxyMode ∧
    (s.lazyParseInstall needed).originIntercept.swallows = s.originIntercept.swallows := by
  unfold lazyParseInstall
  split
  · rename_i allowed
    simp [allowed.2, OriginIntercept.swallows]
  · simp

theorem moves_deferredCloseCompletesFlush (s : ConnectionState C) :
    Moves s.egress s.deferredCloseCompletesFlush.egress :=
  moves_synthPush _ _

theorem moves_handleSyncMessage (s : ConnectionState C) (plan : SyncPlan C) (status : UInt8) :
    Moves s.egress (s.handleSyncMessage plan status).egress := by
  refine (moves_deferredCloseCompletesFlush s).trans ?_
  unfold handleSyncMessage
  cases plan with
  | bare =>
    dsimp only
    split
    · dsimp only
      exact moves_synthPush _ _
    · exact moves_originOpen _
  | cacheBatch first rest => exact moves_cachePush _ _
  | synthesized out => exact moves_synthPush _ _
  | forwarded lp =>
    simp only [originDispatch, lazyParseInstall_keeps]
    exact moves_originOpen _

theorem moves_handleFlushMessage (s : ConnectionState C) (buffered lp : Bool) :
    Moves s.egress (s.handleFlushMessage buffered lp).egress := by
  refine (moves_deferredCloseCompletesFlush s).trans ?_
  unfold handleFlushMessage
  cases buffered with
  | false => exact .refl _
  | true =>
    simp only [↓reduceIte, lazyParseInstall_keeps]
    exact moves_originOpen _

theorem moves_handleClientMessage (s : ConnectionState C) (msg : ClientMessage C) :
    Moves s.egress (s.handleClientMessage msg).egress := by
  refine (moves_flushDescribeSeal s).trans ?_
  unfold handleClientMessage
  cases msg with
  | queryForward piggyback =>
    dsimp only
    split <;> exact moves_originOpen _
  | queryCache msg => exact moves_cachePush _ _
  | sync plan status => exact moves_handleSyncMessage _ plan status
  | flush buffered lp => exact moves_handleFlushMessage _ buffered lp
  | closeLocal => exact .refl _
  | closeForward => exact moves_synthPush _ _
  | sslRequest =>
    dsimp only
    exact moves_synthPush _ _
  | forwardUnslotted => exact .refl _
  | other => exact .refl _

variable {s' : ConnectionState C}

theorem probeInject_eq_some {probe : Option Probe} (injected : s.probeInject probe = some s') :
    s' = s ∨ s.originIntercept = .none ∧ ∃ kind : Probe,
      s' = { s with originIntercept := kind.intercept, owed := s.owed + 1 } := by
  cases probe with
  | none => exact .inl (some_inj.mp injected).symm
  | some kind =>
    simp only [probeInject] at injected
    split at injected
    · rename_i allowed
      exact .inr ⟨allowed.1, kind, (some_inj.mp injected).symm⟩
    · cases injected

theorem moves_forwardCurrentAndRest (s : ConnectionState C) (lp : Bool) :
    Moves s.egress (s.forwardCurrentAndRest lp).egress := by
  simp only [forwardCurrentAndRest, lazyParseInstall_keeps]
  exact moves_cacheToOrigin _

theorem moves_cacheBatchAdvance (s : ConnectionState C) :
    Moves s.egress s.cacheBatchAdvance.egress := by
  unfold cacheBatchAdvance
  split
  · exact moves_cachePush _ _
  · exact .refl _

theorem handleOriginMessage_cases {msg : PgBackendMessage} {probe : Option Probe}
    (handled : s.handleOriginMessage msg probe = some s') :
    ∃ ic : OriginIntercept, msg.messageType ≠ .readyForQuery ∧
          ic.swallows = s.originIntercept.swallows ∧
          (s' = { s with originIntercept := ic } ∨ s.originIntercept.swallows = false ∧
              (originInterceptHandle s.originIntercept msg.messageType).1 = false ∧
              s' = { s with
                originIntercept := ic
                egress := s.egress.originAppend msg.data }) ∨
        msg.messageType = .readyForQuery ∧ ic.swallows = false ∧ { s with
            originIntercept := ic
            egress :=
              if s.originIntercept.swallows then s.egress
              else (s.egress.originAppend msg.data).originSeal
            owed := s.owed - 1 }.probeInject probe = some s' := by
  refine ⟨(originInterceptHandle s.originIntercept msg.messageType).2, ?_⟩
  by_cases ready : msg.messageType = .readyForQuery
  · obtain ⟨idle, consumed⟩ := originInterceptHandle_ready s.originIntercept
    refine .inr ⟨ready, by rw [ready]; exact idle, ?_⟩
    simp only [handleOriginMessage, originMessageRelay, ready, consumed, ↓reduceIte] at handled
    rw [ready]
    split at handled
    · cases handled
    · cases swallows : s.originIntercept.swallows <;> simpa [swallows] using handled
  · obtain ⟨same, consumed⟩ := originInterceptHandle_type s.originIntercept ready
    refine .inl ⟨ready, same, ?_⟩
    simp only [handleOriginMessage, originMessageRelay, ready, ↓reduceIte] at handled
    split at handled
    · cases handled
      cases stripped : (originInterceptHandle s.originIntercept msg.messageType).1 with
      | true => exact .inl (by simp)
      | false =>
        refine .inr ⟨?_, rfl, by simp⟩
        cases swallows : s.originIntercept.swallows with
        | false => rfl
        | true => rw [consumed swallows] at stripped; cases stripped
    · cases handled

theorem dispatch_cases {out : DispatchOutcome} (hs : s.step (.dispatch out) = some s') :
    s.leased = false ∧ ∃ msg slots, s.egress.slots = .cache (some msg) false :: slots ∧
      (out = .lease ∧ s' = { s with
          egress := { s.egress with slots := .cache none true :: slots }, leased := true } ∨
        ∃ lp, out = .forward lp ∧ s' = { s with
          egress := { s.egress with slots := .cache none true :: slots }
          }.forwardCurrentAndRest lp) := by
  simp only [step] at hs
  split at hs
  · rename_i allowed
    refine ⟨allowed.2.1, ?_⟩
    cases taken : s.egress.cacheDispatch with
    | mk msg egress =>
      cases msg with
      | none =>
        rw [taken] at hs
        cases out <;> cases hs
      | some msg =>
        obtain ⟨slots, shape, rfl⟩ := cacheDispatch_eq_some taken
        refine ⟨msg, slots, shape, ?_⟩
        rw [taken] at hs
        cases out with
        | lease => exact .inl ⟨rfl, (some_inj.mp hs).symm⟩
        | forward lp => exact .inr ⟨lp, rfl, (some_inj.mp hs).symm⟩
  · cases hs

theorem moves_step {ev : Event C} (hs : s.step ev = some s') : Moves s.egress s'.egress := by
  cases ev with
  | client msg =>
    obtain ⟨-, ⟨⟩⟩ := ite_none_right_eq_some.mp hs
    exact moves_handleClientMessage s msg
  | origin msg probe =>
    obtain ⟨-, handled⟩ := ite_none_right_eq_some.mp hs
    obtain ⟨ic, ⟨-, -, rfl | ⟨-, -, rfl⟩⟩ | ⟨-, -, injected⟩⟩ :=
      handleOriginMessage_cases handled
    · exact .refl _
    · exact moves_originAppend _ _
    · have relayed : Moves s.egress (if s.originIntercept.swallows then s.egress
          else (s.egress.originAppend msg.data).originSeal) := by
        split
        · exact .refl _
        · exact (moves_originAppend _ _).trans (moves_originSeal _)
      obtain rfl | ⟨-, kind, rfl⟩ := probeInject_eq_some injected <;> exact relayed
  | write n =>
    obtain ⟨-, ⟨⟩⟩ := ite_none_right_eq_some.mp hs
    exact moves_advance _ n
  | dispatch out =>
    obtain ⟨-, msg, slots, shape, dispatched⟩ := dispatch_cases hs
    have served : Moves s.egress { s.egress with slots := .cache none true :: slots } := by
      have moves := moves_cacheDispatch s.egress
      simpa only [cacheDispatch, shape] using moves
    obtain ⟨-, rfl⟩ | ⟨lp, -, rfl⟩ := dispatched
    · exact served
    · exact served.trans (moves_forwardCurrentAndRest
        { s with egress := { s.egress with slots := .cache none true :: slots } } lp)
  | reply out =>
    obtain ⟨-, ⟨⟩⟩ := ite_none_right_eq_some.mp hs
    cases out with
    | complete =>
      exact (moves_cacheDone s.egress).trans
        (moves_cacheBatchAdvance { s with egress := s.egress.cacheDone, leased := false })
    | forward lp => exact moves_forwardCurrentAndRest { s with leased := false } lp
    | abandon => exact moves_cacheDone _
  | hangup =>
    cases hs
    exact .refl _

end Moving

section Invariant

/-- What the queue of an open connection is like, as long as nothing comes from origin unasked:
`answers` is the number of `ReadyForQuery` messages that will be relayed, `streaming` says that a
Flush opened the last slot. -/
structure Answered (slots : List (EgressSlot C)) (streaming : Bool) (answers : Nat)
    (draining leased : Bool) : Prop where
  sound : ∀ slot ∈ slots, slot.Sound
  /-- each unsealed slot has its `ReadyForQuery` to come, but for the last one after a Flush -/
  backed : (if streaming then leading slots else unsealed slots) ≤ answers
  reading : streaming = true → draining = false
  counted : caches slots = if draining then 1 else 0
  pending : leased = false → ∀ msg serving, .cache msg serving ∈ slots →
    serving = false ∧ msg.isSome = true
  serving : leased = true → ∃ rest, slots = .cache none true :: rest

variable {slots : List (EgressSlot C)} {streaming draining leased : Bool} {answers : Nat}

theorem Answered.mono {more : Nat} (ledger : Answered slots streaming answers draining leased)
    (le : answers ≤ more) : Answered slots streaming more draining leased :=
  { ledger with backed := ledger.backed.trans le }

variable {streaming' : Bool} {q : EgressQueue C} {rest : List (EgressSlot C)} {msg : Option C}
  {serving : Bool} {answers' : Nat} {bytes : Bytes}

private theorem Answered.concat {slot : EgressSlot C} {draining' : Bool}
    (ledger : Answered slots streaming answers draining leased) (sound : slot.Sound)
    (backed : (if streaming' then unsealed slots else unsealed (slots ++ [slot])) ≤ answers')
    (reading : streaming' = true → draining' = false)
    (counted : caches (slots ++ [slot]) = if draining' then 1 else 0)
    (pending : ∀ msg serving, slot = .cache msg serving → serving = false ∧ msg.isSome = true) :
    Answered (slots ++ [slot]) streaming' answers' draining' leased where
  sound := by
    intro other inside
    rcases mem_append.mp inside with inside | inside
    · exact ledger.sound other inside
    · rw [mem_singleton.mp inside]
      exact sound
  backed := by simpa using backed
  reading := reading
  counted := counted
  pending free msg serving inside := by
    rcases mem_append.mp inside with inside | inside
    · exact ledger.pending free msg serving inside
    · exact pending msg serving (mem_singleton.mp inside).symm
  serving held := by
    obtain ⟨rest, shape⟩ := ledger.serving held
    exact ⟨rest ++ [slot], by simp [shape]⟩

theorem Answered.synthPush (ledger : Answered q.slots false answers draining leased) (buf : Bytes) :
    Answered (q.synthPush buf).slots false answers draining leased := by
  unfold EgressQueue.synthPush
  split
  · exact ledger
  · rename_i some
    refine ledger.concat (by simpa [EgressSlot.Sound] using some) ?_ (by simp) ?_ (by simp)
    · simpa [unsealed_cons, isUnsealed] using ledger.backed
    · simpa [Egress.caches, isCache] using ledger.counted

theorem Answered.originOpen (ledger : Answered q.slots false answers draining leased) :
    Answered q.originOpen.slots false (answers + 1) draining leased := by
  refine ledger.concat (by simp [EgressSlot.Sound]) ?_ (by simp) ?_ (by simp)
  · simpa [unsealed_cons, isUnsealed] using ledger.backed
  · simpa [Egress.caches, isCache] using ledger.counted

theorem Answered.flushOpen (ledger : Answered q.slots false answers false leased) :
    Answered q.originOpen.slots true answers false leased := by
  refine ledger.concat (by simp [EgressSlot.Sound]) ?_ (by simp) ?_ (by simp)
  · simpa using ledger.backed
  · simpa [Egress.caches, isCache] using ledger.counted

theorem Answered.cachePush (ledger : Answered q.slots false answers false leased) (msg : C) :
    Answered (q.cachePush msg).slots false answers true leased := by
  refine ledger.concat trivial ?_ (by simp) ?_ (by simp)
  · simpa [unsealed_cons, isUnsealed] using ledger.backed
  · simpa [Egress.caches, isCache] using ledger.counted

private theorem Answered.modify {f : EgressSlot C → EgressSlot C}
    (ledger : Answered slots streaming answers draining leased)
    (sound : ∀ slot ∈ modifyOldestUnsealed f slots, slot.Sound)
    (origin : ∀ slot : EgressSlot C, (f slot).isCache = slot.isCache)
    (backed : (if streaming' then leading (modifyOldestUnsealed f slots)
      else unsealed (modifyOldestUnsealed f slots)) ≤ answers')
    (reading : streaming' = true → draining = false) :
    Answered (modifyOldestUnsealed f slots) streaming' answers' draining leased where
  sound := sound
  backed := backed
  reading := reading
  counted := by rw [caches_modify slots origin, ledger.counted]
  pending free msg serving inside := by
    rcases mem_modifyOldestUnsealed inside with inside | ⟨old, -, waits, same⟩
    · exact ledger.pending free msg serving inside
    · have hc := origin old
      rw [← same] at hc
      cases old <;> simp_all [isCache, isUnsealed]
  serving held := by
    obtain ⟨rest, rfl⟩ := ledger.serving held
    exact ⟨modifyOldestUnsealed f rest, by simp [modifyOldestUnsealed, isUnsealed]⟩

private theorem originAllSealed_iff : q.originAllSealed = true ↔ unsealed q.slots = 0 := by
  simp [originAllSealed, unsealed, countP_eq_zero]

theorem Answered.originAppend (ledger : Answered q.slots streaming answers draining leased)
    (bytes : Bytes) (covered : q.originAllSealed = true → streaming = true ∨ 0 < answers) :
    Answered (q.originAppend bytes).slots streaming answers draining leased := by
  have append : ∀ {q : EgressQueue C}, bytes.isEmpty = false →
      Answered q.slots streaming answers draining leased →
      Answered (modifyOldestUnsealed (appendBytes bytes) q.slots) streaming answers draining
        leased := by
    intro q some ledger
    refine ledger.modify ?_ (fun slot => by cases slot <;> rfl) ?_ ledger.reading
    · intro slot hm
      rcases mem_modifyOldestUnsealed hm with hm | ⟨old, there, -, rfl⟩
      · exact ledger.sound slot hm
      · exact sound_appendBytes (by simpa using some) (ledger.sound old there)
    · rw [leading_modify _ (isUnsealed_appendBytes bytes),
        unsealed_modify _ (isUnsealed_appendBytes bytes)]
      exact ledger.backed
  unfold EgressQueue.originAppend
  split
  · exact ledger
  · rename_i some
    have some : bytes.isEmpty = false := by simpa using some
    split
    · rename_i settled
      have none := originAllSealed_iff.mp settled
      refine append some (ledger.concat (by simp [EgressSlot.Sound]) ?_ ledger.reading ?_ (by simp))
      · rcases covered settled with rfl | enough
        · simp [none]
        · split
          · omega
          · simp only [unsealed_append, none, unsealed_cons, unsealed_nil]
            split <;> omega
      · simpa [Egress.caches, isCache] using ledger.counted
    · exact append some ledger

private theorem Answered.sealed
    (ledger : Answered q.slots streaming answers draining leased) (ready : SealReady q.slots)
    (backed : (if streaming' then leading q.slots - 1 else unsealed q.slots - 1) ≤ answers')
    (reading : streaming' = true → draining = false) :
    Answered q.originSeal.slots streaming' answers' draining leased := by
  have suffix : q.originSeal.slots <:+ modifyOldestUnsealed sealSlot q.slots :=
    dropWhile_suffix _
  have counted : caches q.originSeal.slots = caches q.slots := by
    rw [← caches_modify q.slots (f := sealSlot) fun slot => by cases slot <;> rfl]
    exact caches_dropWhile_isDone _
  refine ⟨sound_originSeal ledger.sound ready, ?_, reading, counted.trans ledger.counted, ?_, ?_⟩
  · have unsealedLe := suffix.sublist.countP_le (p := isUnsealed)
    have leadingLe := leading_le_of_suffix suffix
    have unsealedSeal := unsealed_seal q.slots
    have leadingSeal := leading_seal q.slots
    unfold unsealed at *
    cases streaming' <;> simp only [Bool.false_eq_true, ↓reduceIte] at backed ⊢ <;> omega
  · intro free msg serving hm
    rcases mem_modifyOldestUnsealed (suffix.subset hm) with hm | ⟨old, -, waits, same⟩
    · exact ledger.pending free msg serving hm
    · cases old <;> simp_all [isUnsealed, sealSlot]
  · intro held
    obtain ⟨rest, shape⟩ := ledger.serving held
    exact ⟨modifyOldestUnsealed sealSlot rest, by
      simp [originSeal, pruneDone, shape, modifyOldestUnsealed, isUnsealed, isDone]⟩

private theorem find_append {slots : List (EgressSlot C)} :
    ∀ buf isSealed, (modifyOldestUnsealed (appendBytes bytes) slots).find? isUnsealed =
      some (.origin buf isSealed) → buf ≠ [] := by
  induction slots with
  | nil => simp [modifyOldestUnsealed]
  | cons slot slots ih =>
    intro buf isSealed hf
    unfold modifyOldestUnsealed at hf
    split at hf
    · rename_i waits
      rw [find?_cons_of_pos (by rw [isUnsealed_appendBytes, waits])] at hf
      cases slot <;> simp_all [appendBytes, isUnsealed]
      exact hf.1 ▸ by simp
    · rename_i settled
      rw [find?_cons_of_neg settled] at hf
      exact ih buf isSealed hf

theorem sealReady_originAppend (q : EgressQueue C) (some : bytes ≠ []) :
    SealReady (q.originAppend bytes).slots := by
  refine .inr ?_
  unfold originAppend
  split
  · rename_i empty
    exact absurd (isEmpty_iff.mp empty) some
  · exact find_append

theorem Answered.originReady (some : bytes ≠ [])
    (ledger : Answered q.slots streaming (answers + 1) draining leased) :
    Answered (q.originAppend bytes).originSeal.slots streaming answers draining leased := by
  have appended := ledger.originAppend bytes fun _ => .inr (Nat.succ_pos answers)
  refine appended.sealed (sealReady_originAppend q some) ?_ appended.reading
  have backed := appended.backed
  split at backed <;> simp only [↓reduceIte, Bool.false_eq_true, *] <;> omega

theorem Answered.flushSeal (ledger : Answered q.slots true answers draining leased)
    (ready : SealReady q.slots) :
    Answered q.originSeal.slots false answers draining leased := by
  refine ledger.sealed ready ?_ (by simp)
  have backed := ledger.backed
  have last := unsealed_le_leading q.slots
  simp only [↓reduceIte] at backed
  simp only [Bool.false_eq_true, ↓reduceIte]
  omega

private theorem Answered.head {old new : EgressSlot C} {leased' : Bool}
    (ledger : Answered (old :: rest) streaming answers draining leased) (sound : new.Sound)
    (waits : new.isUnsealed = old.isUnsealed) (hc : new.isCache = old.isCache)
    (pending : leased' = false → ∀ msg serving, .cache msg serving ∈ new :: rest →
      serving = false ∧ msg.isSome = true) (serving : leased' = true → new = .cache none true) :
    Answered (new :: rest) streaming answers draining leased' where
  sound := forall_mem_cons.mpr ⟨sound, (forall_mem_cons.mp ledger.sound).2⟩
  backed := by
    rw [leading_head waits, unsealed_cons, waits, ← unsealed_cons]
    exact ledger.backed
  reading := ledger.reading
  counted := by rw [caches_cons, hc, ← caches_cons, ledger.counted]
  pending := pending
  serving held := ⟨rest, by rw [serving held]⟩

private theorem Answered.tail {slot : EgressSlot C}
    (ledger : Answered (slot :: rest) streaming answers draining false)
      (plain : slot.isCache = false) :
    Answered rest streaming answers draining false where
  sound := (forall_mem_cons.mp ledger.sound).2
  backed := by
    have backed := ledger.backed
    have fewer := leading_le_of_suffix (suffix_cons slot rest)
    rw [unsealed_cons] at backed
    cases streaming <;> simp only [Bool.false_eq_true, ↓reduceIte] at backed ⊢ <;> omega
  reading := ledger.reading
  counted := by simpa [caches_cons, plain] using ledger.counted
  pending free msg serving inside :=
    ledger.pending free msg serving (mem_cons_of_mem _ inside)
  serving held := by cases held

theorem Answered.advance {n : Nat} (ledger : Answered q.slots streaming answers draining false) :
    Answered (q.advance n).slots streaming answers draining false := by
  obtain ⟨slots, popped⟩ := q
  have pendingRest : ∀ {old new : EgressSlot C} {rest : List (EgressSlot C)},
      Answered (old :: rest) streaming answers draining false → new.isCache = false →
      ∀ msg serving, .cache msg serving ∈ new :: rest → serving = false ∧ msg.isSome = true := by
    intro old new rest ledger plain msg serving hm
    rcases mem_cons.mp hm with rfl | hm
    · cases plain
    · exact ledger.pending rfl msg serving (mem_cons_of_mem _ hm)
  unfold advance
  split
  · exact ledger
  · rename_i buf rest shape
    obtain rfl : slots = .synth buf :: rest := shape
    dsimp only
    split
    · exact ledger.tail rfl
    · rename_i left
      exact ledger.head (by simpa [EgressSlot.Sound] using left) rfl rfl
        (fun _ => pendingRest ledger rfl) (by simp)
  · rename_i buf isSealed rest shape
    obtain rfl : slots = .origin buf isSealed :: rest := shape
    dsimp only
    split
    · exact ledger.tail rfl
    · rename_i left
      have sound := (forall_mem_cons.mp ledger.sound).1
      refine ledger.head ⟨consume_nonempty sound.1, fun isSealed => ?_⟩ rfl rfl
        (fun _ => pendingRest ledger rfl) (by simp)
      simpa [isSealed] using left
  · exact ledger

theorem Answered.lease {msg : C}
    (ledger : Answered (.cache (some msg) false :: rest) streaming answers draining false) :
    Answered (.cache none true :: rest) streaming answers draining true :=
  ledger.head trivial rfl rfl (by simp) (by simp)

variable (ledger : Answered (.cache msg serving :: rest) streaming answers draining leased)
include ledger

theorem Answered.uncached : draining = true ∧ caches rest = 0 := by
  have counted := ledger.counted
  rw [caches_cons] at counted
  cases draining <;> simp_all [isCache]

omit ledger in
private theorem not_mem_of_caches {slots : List (EgressSlot C)} (none : caches slots = 0)
    (msg : Option C) (serving : Bool) : .cache msg serving ∉ slots := by
  intro hm
  have plain := countP_eq_zero.mp none _ hm
  exact plain rfl

theorem Answered.cacheDone : Answered rest streaming answers false false where
  sound := (forall_mem_cons.mp ledger.sound).2
  backed := by
    have backed := ledger.backed
    have fewer := leading_le_of_suffix (suffix_cons (.cache msg serving) rest)
    rw [unsealed_cons] at backed
    cases streaming <;> simp only [Bool.false_eq_true, ↓reduceIte] at backed ⊢ <;> omega
  reading _ := rfl
  counted := ledger.uncached.2
  pending _ msg serving inside := absurd inside (not_mem_of_caches ledger.uncached.2 msg serving)
  serving held := by cases held

theorem Answered.cacheToOrigin :
    Answered (.origin [] false :: rest) streaming (answers + 1) false false := by
  have done := ledger.cacheDone
  have drain := ledger.uncached.1
  refine ⟨forall_mem_cons.mpr ⟨by simp [EgressSlot.Sound], done.sound⟩, ?_, done.reading, ?_, ?_,
    by simp⟩
  · cases streaming with
    | true => rw [ledger.reading rfl] at drain; cases drain
    | false => simpa [unsealed_cons, isUnsealed] using done.backed
  · simpa [caches_cons, isCache] using done.counted
  · intro _ msg serving hm
    exact done.pending rfl msg serving (by simpa using hm)

omit ledger

structure Facts (s : ConnectionState C) : Prop where
  ledger : Answered s.egress.slots s.flushDescribePending (visible s)
    (s.proxyMode = .originDrain) s.leased
  probing : s.originIntercept.swallows = true → 0 < s.owed

variable {s : ConnectionState C}

theorem facts_new : Facts (ConnectionState.new : ConnectionState C) where
  ledger := ⟨by simp [ConnectionState.new, EgressQueue.new], by
    simp [ConnectionState.new, EgressQueue.new], by simp [ConnectionState.new], by
    simp [ConnectionState.new, EgressQueue.new, Egress.caches], by
    simp [ConnectionState.new, EgressQueue.new], by simp [ConnectionState.new]⟩
  probing := by simp [ConnectionState.new, OriginIntercept.swallows]

/-- What the connection does to an event that the environment may choose freely: nothing that
origin was not asked for opens a slot, and a Flush slot is not sealed before its bytes came. -/
def Orderly (s : ConnectionState C) : Event C → Prop
  | .client _ => s.flushDescribePending = true → SealReady s.egress.slots
  | .origin msg _ =>
    msg.messageType ≠ .readyForQuery →
    (originInterceptHandle s.originIntercept msg.messageType).1 = false →
    s.egress.originAllSealed = true → s.flushDescribePending = true ∨ 0 < visible s
  | .write _ | .dispatch _ | .reply _ | .hangup => True

variable (facts : Facts s)
include facts

theorem Facts.visible_owe : visible s + 1 ≤ visible { s with owed := s.owed + 1 } := by
  have probing := facts.probing
  simp only [visible]
  split
  · rename_i swallows
    have owed := probing swallows
    omega
  · omega

theorem Facts.intercept {ic : OriginIntercept} (same : ic.swallows = s.originIntercept.swallows) :
    Facts { s with originIntercept := ic } where
  ledger := by
    have ledger := facts.ledger
    simp only [visible, same] at ledger ⊢
    exact ledger
  probing swallows := facts.probing (same ▸ swallows)

theorem Facts.lazyParseInstall (needed : Bool) : Facts (s.lazyParseInstall needed) := by
  unfold ConnectionState.lazyParseInstall
  split
  · rename_i allowed
    exact facts.intercept (by rw [allowed.2]; rfl)
  · exact facts

variable (plain : s.flushDescribePending = false)
include plain

theorem Facts.originDispatch : Facts s.originDispatch where
  ledger := by
    have ledger := facts.ledger
    rw [plain] at ledger
    have opened := ledger.originOpen.mono facts.visible_owe
    rwa [← plain] at opened
  probing _ := Nat.succ_pos _

theorem Facts.synthPush (buf : Bytes) : Facts { s with egress := s.egress.synthPush buf } where
  ledger := by
    have ledger := facts.ledger
    rw [plain] at ledger
    have pushed := ledger.synthPush buf
    rwa [← plain] at pushed
  probing := facts.probing

variable (read : s.proxyMode = .read)
include read

theorem Facts.cachePush (msg : C) (rest : List C) : Facts (s.cacheBatchDispatch msg rest) where
  ledger := by
    have ledger := facts.ledger
    rw [plain, read] at ledger
    have pushed := ledger.cachePush msg
    rwa [← plain] at pushed
  probing := facts.probing

theorem Facts.flushOpen :
    Facts { s with egress := s.egress.originOpen, flushDescribePending := true } where
  ledger := by
    have ledger := facts.ledger
    rw [plain, read] at ledger
    have opened := ledger.flushOpen
    simpa [read, visible] using opened
  probing := facts.probing

omit read in
theorem Facts.deferredCloseCompletesFlush : Facts s.deferredCloseCompletesFlush :=
  let flushed := facts.synthPush plain (replicate s.deferredCloseCompletes closeCompleteMsg).flatten
  ⟨flushed.ledger, flushed.probing⟩

theorem Facts.handleSyncMessage (plan : SyncPlan C) (status : UInt8) :
    Facts (s.handleSyncMessage plan status) := by
  have flushed := facts.deferredCloseCompletesFlush plain
  have reset : Facts { s.deferredCloseCompletesFlush with groupOriginForwarded := false } :=
    ⟨flushed.ledger, flushed.probing⟩
  unfold ConnectionState.handleSyncMessage
  cases plan with
  | bare =>
    dsimp only
    split
    · exact reset.synthPush plain _
    · exact reset.originDispatch plain
  | cacheBatch first rest => exact reset.cachePush plain read first rest
  | synthesized out => exact reset.synthPush plain out
  | forwarded lp =>
    refine (reset.lazyParseInstall lp).originDispatch ?_
    rw [(lazyParseInstall_keeps _ _).2.1]
    exact plain

theorem Facts.handleFlushMessage (buffered lp : Bool) :
    Facts (s.handleFlushMessage buffered lp) := by
  have flushed := facts.deferredCloseCompletesFlush plain
  have reset : Facts { s.deferredCloseCompletesFlush with groupOriginForwarded := true } :=
    ⟨flushed.ledger, flushed.probing⟩
  unfold ConnectionState.handleFlushMessage
  cases buffered with
  | false => exact reset
  | true =>
    refine (reset.lazyParseInstall lp).flushOpen ?_ ?_
    · rw [(lazyParseInstall_keeps _ _).2.1]
      exact plain
    · rw [(lazyParseInstall_keeps _ _).2.2.2.2.2.1]
      exact read

omit read

omit plain

theorem Facts.flushDescribeSeal (ready : s.flushDescribePending = true → SealReady s.egress.slots) :
    Facts s.flushDescribeSeal := by
  unfold ConnectionState.flushDescribeSeal
  split
  · rename_i streaming
    have ledger := facts.ledger
    rw [streaming] at ledger
    exact ⟨ledger.flushSeal (ready streaming), facts.probing⟩
  · exact facts

theorem Facts.handleClientMessage (read : s.proxyMode = .read)
    (ready : s.flushDescribePending = true → SealReady s.egress.slots)
    (msg : ClientMessage C) : Facts (s.handleClientMessage msg) := by
  have settled := facts.flushDescribeSeal ready
  have plain : s.flushDescribeSeal.flushDescribePending = false := by
    unfold ConnectionState.flushDescribeSeal
    split
    · rfl
    · rename_i off
      simpa using off
  have reads : s.flushDescribeSeal.proxyMode = .read := by
    unfold ConnectionState.flushDescribeSeal
    split <;> exact read
  unfold ConnectionState.handleClientMessage
  generalize s.flushDescribeSeal = s at settled plain reads
  cases msg with
  | queryForward piggyback =>
    dsimp only
    split
    · rename_i allowed
      exact (settled.intercept (by rw [allowed.2]; rfl)).originDispatch plain
    · exact settled.originDispatch plain
  | queryCache msg =>
    have pushed := settled.cachePush plain reads msg s.batch
    exact ⟨pushed.ledger, pushed.probing⟩
  | sync plan status => exact settled.handleSyncMessage plain reads plan status
  | flush buffered lp => exact settled.handleFlushMessage plain reads buffered lp
  | closeLocal => exact ⟨settled.ledger, settled.probing⟩
  | closeForward =>
    have flushed := settled.deferredCloseCompletesFlush plain
    exact ⟨flushed.ledger, flushed.probing⟩
  | sslRequest => exact settled.synthPush plain _
  | forwardUnslotted =>
    exact ⟨settled.ledger.mono ((Nat.le_succ _).trans settled.visible_owe), fun _ => Nat.succ_pos _⟩
  | other => exact settled

theorem Facts.forwardCurrentAndRest {msg' : Option C} {serving' : Bool}
    (shape : s.egress.slots = .cache msg serving :: rest) (egress : EgressQueue C)
    (shape' : egress.slots = .cache msg' serving' :: rest) (lp : Bool) :
    Facts ({ s with egress, leased := false }.forwardCurrentAndRest lp) := by
  have enough : visible s + 1 ≤
      visible ({ s with egress, leased := false }.forwardCurrentAndRest lp) := by
    have owe := facts.visible_owe
    simp only [visible] at owe
    simpa only [visible, ConnectionState.forwardCurrentAndRest, lazyParseInstall_keeps] using owe
  refine ⟨?_, fun _ => Nat.succ_pos _⟩
  have ledger := facts.ledger
  rw [shape] at ledger
  have forwarded := ledger.cacheToOrigin.mono enough
  simpa [ConnectionState.forwardCurrentAndRest, cacheToOrigin, shape'] using forwarded

omit facts in
theorem Facts.ready {s' : ConnectionState C} {ic : OriginIntercept}
    {bytes : Bytes} (hne : bytes ≠ []) {probe : Option Probe} (facts : Facts s)
    (owed : 0 < s.owed) (idle : ic.swallows = false)
    (injected : { s with
      originIntercept := ic
      egress :=
        if s.originIntercept.swallows then s.egress
        else (s.egress.originAppend bytes).originSeal
      owed := s.owed - 1 }.probeInject probe = some s') : Facts s' := by
  have ledger := facts.ledger
  have answered : Answered (if s.originIntercept.swallows then s.egress
      else (s.egress.originAppend bytes).originSeal).slots s.flushDescribePending
      (s.owed - 1) (s.proxyMode = .originDrain) s.leased := by
    cases swallows : s.originIntercept.swallows with
    | true => simpa [visible, swallows] using ledger
    | false =>
      have more : visible s = s.owed - 1 + 1 := by
        simp only [visible, swallows, Bool.false_eq_true, ↓reduceIte]
        omega
      rw [more] at ledger
      exact ledger.originReady hne
  obtain rfl | ⟨-, kind, rfl⟩ := probeInject_eq_some injected
  · exact ⟨by simpa [visible, idle] using answered, by simp [idle]⟩
  · have probes : kind.intercept.swallows = true := by cases kind <;> rfl
    exact ⟨by simpa [visible, probes] using answered, fun _ => Nat.succ_pos _⟩

theorem Facts.handleCacheOutcome {rest : List (EgressSlot C)}
    (shape : s.egress.slots = .cache none true :: rest) {out : CacheOutcome}
    (alive : ({ s with leased := false }.handleCacheOutcome out).closed = false) :
    Facts ({ s with leased := false }.handleCacheOutcome out) := by
  have ledger := facts.ledger
  rw [shape] at ledger
  have done : Facts { s with
      egress := s.egress.cacheDone, leased := false, proxyMode := .read } :=
    ⟨by simpa [cacheDone, shape, visible] using ledger.cacheDone, facts.probing⟩
  cases out with
  | complete =>
    unfold ConnectionState.handleCacheOutcome ConnectionState.cacheBatchAdvance
    dsimp only
    split
    · rename_i next more batch
      have plain : s.flushDescribePending = false := by
        cases streaming : s.flushDescribePending with
        | false => rfl
        | true =>
          have drain := ledger.uncached.1
          rw [ledger.reading streaming] at drain
          cases drain
      have pushed := done.cachePush plain rfl next more
      exact ⟨pushed.ledger, pushed.probing⟩
    · exact done
  | forward lp => exact facts.forwardCurrentAndRest shape s.egress shape lp
  | abandon => cases alive

theorem Facts.step {s' : ConnectionState C} {ev : Event C}
    (orderly : Orderly s ev) (hs : s.step ev = some s')
    (alive : s'.closed = false) : Facts s' := by
  cases ev with
  | client msg =>
    obtain ⟨allowed, ⟨⟩⟩ := ite_none_right_eq_some.mp hs
    exact facts.handleClientMessage allowed.1 orderly msg
  | origin msg probe =>
    obtain ⟨allowed, handled⟩ := ite_none_right_eq_some.mp hs
    obtain ⟨ic, ⟨hm, same, rfl | ⟨quiet, relayed, rfl⟩⟩ | ⟨ready, idle, injected⟩⟩ :=
      handleOriginMessage_cases handled
    · exact facts.intercept same
    · have moved := facts.intercept same
      exact ⟨moved.ledger.originAppend _ fun settled => by
        simpa [visible, same] using orderly hm relayed settled, moved.probing⟩
    · exact facts.ready msg.nonempty (allowed.2 ready) idle injected
  | write n =>
    obtain ⟨allowed, ⟨⟩⟩ := ite_none_right_eq_some.mp hs
    have ledger := facts.ledger
    rw [allowed.1] at ledger
    have advanced := ledger.advance (n := n)
    rw [← allowed.1] at advanced
    exact ⟨advanced, facts.probing⟩
  | dispatch out =>
    obtain ⟨free, msg, rest, shape, ⟨-, rfl⟩ | ⟨lp, -, rfl⟩⟩ := dispatch_cases hs
    · have ledger := facts.ledger
      rw [shape, free] at ledger
      exact ⟨ledger.lease, facts.probing⟩
    · have forwarded := facts.forwardCurrentAndRest shape
        { s.egress with slots := .cache none true :: rest } rfl lp
      rwa [← free] at forwarded
  | reply out =>
    obtain ⟨allowed, he⟩ := ite_none_right_eq_some.mp hs
    rw [← some_inj.mp he] at alive ⊢
    obtain ⟨rest, shape⟩ := facts.ledger.serving allowed.1
    exact facts.handleCacheOutcome shape alive
  | hangup =>
    rw [← some_inj.mp hs] at alive
    cases alive

end Invariant

end PgCache.Proxy.Ledger
