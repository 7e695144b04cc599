/- source: proxy/egress.rs, proxy/connection/search_path_intercept.rs
   digest: What origin has still to send, shared out among the slots of the egress queue. -/
import PgCache.Proxy.Connection

set_option autoImplicit false

namespace PgCache.Proxy.Replies

open Egress Egress.EgressQueue Connection List EgressSlot

/-- A message origin will send, and whether it answers something the client asked for. The others
answer what the proxy sent on its own. -/
structure Reply where
  msg : PgBackendMessage
  forClient : Bool
  deriving DecidableEq

def Reply.seals (reply : Reply) : Bool :=
  reply.forClient && reply.msg.messageType = .readyForQuery

def clientBytes (replies : List Reply) : Bytes :=
  (replies.filter Reply.forClient).flatMap fun reply => reply.msg.data

@[simp] theorem clientBytes_nil : clientBytes [] = [] := rfl

@[simp] theorem clientBytes_append (a b : List Reply) :
    clientBytes (a ++ b) = clientBytes a ++ clientBytes b := by
  simp [clientBytes]

theorem clientBytes_cons (reply : Reply) (replies : List Reply) : clientBytes (reply :: replies) =
      (if reply.forClient then reply.msg.data else []) ++ clientBytes replies := by
  unfold clientBytes
  rw [filter_cons]
  split <;> rfl

def NoneForClient (replies : List Reply) : Prop := ∀ reply ∈ replies, reply.forClient = false

variable {replies : List Reply}

theorem NoneForClient.clientBytes (none : NoneForClient replies) : clientBytes replies = [] := by
  have empty : replies.filter Reply.forClient = [] :=
    filter_eq_nil_iff.mpr fun reply hw => by simp [none reply hw]
  rw [Replies.clientBytes, empty]
  rfl

def sealing (replies : List Reply) : Nat := replies.countP Reply.seals

theorem NoneForClient.sealing (none : NoneForClient replies) : sealing replies = 0 :=
  countP_eq_zero.mpr fun reply hw => by simp [Reply.seals, none reply hw]

def portion : List Reply → List Reply × List Reply
  | [] => ([], [])
  | reply :: replies =>
    if reply.seals then ([reply], replies)
    else (reply :: (portion replies).1, (portion replies).2)

theorem portion_append (replies : List Reply) :
    (portion replies).1 ++ (portion replies).2 = replies := by
  induction replies with
  | nil => rfl
  | cons reply replies ih =>
    unfold portion
    split
    · rfl
    · exact congrArg (reply :: ·) ih

theorem portion_none (none : sealing replies = 0) : portion replies = (replies, []) := by
  induction replies with
  | nil => rfl
  | cons reply replies ih =>
    obtain ⟨here, later⟩ : reply.seals = false ∧ sealing replies = 0 := by
      simpa [sealing, countP_cons, and_comm] using none
    rw [portion, if_neg (by rw [here]; exact Bool.false_ne_true), ih later]

theorem portion_more (some_ : 0 < sealing replies) (more : List Reply) :
    portion (replies ++ more) = ((portion replies).1, (portion replies).2 ++ more) := by
  induction replies with
  | nil => exact absurd some_ (Nat.not_lt_zero _)
  | cons reply replies ih =>
    rw [cons_append, portion, portion]
    split
    · rfl
    · next here =>
      have later : 0 < sealing replies := by
        simpa [sealing, countP_cons, here] using some_
      rw [ih later]

theorem sealing_portion (replies : List Reply) :
    sealing (portion replies).2 = sealing replies - 1 := by
  induction replies with
  | nil => rfl
  | cons reply replies ih =>
    unfold portion
    split
    · next here => simp [sealing, here]
    · next here => simpa [sealing, countP_cons, here] using ih

section Slots

variable {C : Type} (response : C → Bytes) (served : Option C)

def slotBytes : EgressSlot C → Bytes
  | .origin buf _ => buf.flatten
  | .synth buf => buf
  | .cache (some msg) _ => response msg
  | .cache none _ => (served.map response).getD []

/-- What the client will get from these slots and replies: each unsealed slot gets the replies up
to the end of one response, in order. -/
def pendingSlots : List (EgressSlot C) → List Reply → Bytes
  | [], wire => clientBytes wire
  | slot :: slots, wire =>
    if slot.isUnsealed then
      slotBytes response served slot ++ clientBytes (portion wire).1 ++
        pendingSlots slots (portion wire).2
    else slotBytes response served slot ++ pendingSlots slots wire

def loose : List (EgressSlot C) → List Reply → List Reply
  | [], wire => wire
  | slot :: slots, wire =>
    if slot.isUnsealed then loose slots (portion wire).2 else loose slots wire

variable {response served}

theorem pendingSlots_open (slots : List (EgressSlot C)) (wire : List Reply) :
    pendingSlots response served (slots ++ [.origin [] false]) wire =
      pendingSlots response served slots wire := by
  induction slots generalizing wire with
  | nil =>
    change ([] : Bytes) ++ clientBytes (portion wire).1 ++ clientBytes (portion wire).2 =
      clientBytes wire
    rw [nil_append, ← clientBytes_append, portion_append]
  | cons slot slots ih =>
    rw [cons_append, pendingSlots, pendingSlots]
    split <;> rw [ih]

variable {slots : List (EgressSlot C)} {wire : List Reply} {reply : Reply}

theorem pendingSlots_more (enough : unsealed slots ≤ sealing wire) (more : List Reply) :
    pendingSlots response served slots (wire ++ more) =
      pendingSlots response served slots wire ++ clientBytes more := by
  induction slots generalizing wire with
  | nil => exact clientBytes_append wire more
  | cons slot slots ih =>
    rw [unsealed_cons] at enough
    rw [pendingSlots, pendingSlots]
    split
    · next open_ =>
      rw [if_pos open_] at enough
      rw [portion_more (by omega), ih (by rw [sealing_portion]; omega)]
      simp only [append_assoc]
    · next closed =>
      rw [if_neg closed] at enough
      rw [ih enough, append_assoc]

theorem pendingSlots_own {more : List Reply} (none : NoneForClient more)
    (slots : List (EgressSlot C)) (wire : List Reply) :
    pendingSlots response served slots (wire ++ more) =
      pendingSlots response served slots wire := by
  induction slots generalizing wire with
  | nil => exact (clientBytes_append wire more).trans (by rw [none.clientBytes, append_nil]; rfl)
  | cons slot slots ih =>
    rw [pendingSlots, pendingSlots]
    split
    · rcases Nat.eq_zero_or_pos (sealing wire) with zero | some_
      · have zero' : sealing (wire ++ more) = 0 := by
          rw [sealing, countP_append]
          exact Nat.add_eq_zero_iff.mpr ⟨zero, none.sealing⟩
        rw [portion_none zero, portion_none zero', clientBytes_append, none.clientBytes, append_nil]
      · rw [portion_more some_, ih]
    · rw [ih]

theorem loose_more (enough : unsealed slots ≤ sealing wire) (more : List Reply) :
    loose slots (wire ++ more) = loose slots wire ++ more := by
  induction slots generalizing wire with
  | nil => rfl
  | cons slot slots ih =>
    rw [unsealed_cons] at enough
    rw [loose, loose]
    split
    · next open_ =>
      rw [if_pos open_] at enough
      rw [portion_more (by omega), ih (by rw [sealing_portion]; omega)]
    · next closed =>
      rw [if_neg closed] at enough
      exact ih enough

theorem pendingSlots_push {slot : EgressSlot C} (waits : slot.isUnsealed = false)
    (none : clientBytes (loose slots wire) = []) :
    pendingSlots response served (slots ++ [slot]) wire =
      pendingSlots response served slots wire ++ slotBytes response served slot := by
  induction slots generalizing wire with
  | nil =>
    have empty : clientBytes wire = [] := none
    simp [pendingSlots, waits, empty]
  | cons first slots ih =>
    rw [cons_append, pendingSlots, pendingSlots]
    rw [loose] at none
    split
    · next open_ =>
      rw [if_pos open_] at none
      rw [ih none]
      simp only [append_assoc]
    · next closed =>
      rw [if_neg closed] at none
      rw [ih none, append_assoc]

theorem loose_push {slot : EgressSlot C} (wire : List Reply) (waits : slot.isUnsealed = false) :
    loose (slots ++ [slot]) wire = loose slots wire := by
  induction slots generalizing wire with
  | nil => simp [loose, waits]
  | cons first slots ih =>
    rw [cons_append, loose, loose]
    split <;> rw [ih]

theorem pendingSlots_skip (own : reply.forClient = false) (slots : List (EgressSlot C))
    (wire : List Reply) :
    pendingSlots response served slots (reply :: wire) =
      pendingSlots response served slots wire := by
  have skipped : ∀ replies, clientBytes (reply :: replies) = clientBytes replies := by
    intro replies
    rw [clientBytes_cons, own]
    rfl
  have ends : reply.seals = false := by rw [Reply.seals, own, Bool.false_and]
  induction slots generalizing wire with
  | nil => exact skipped wire
  | cons slot slots ih =>
    rw [pendingSlots, pendingSlots]
    split
    · rw [portion, if_neg (by rw [ends]; exact Bool.false_ne_true), skipped]
    · rw [ih]

theorem pendingSlots_append (own : reply.forClient = true) (hm : reply.seals = false)
    (some_ : 0 < unsealed slots) (wire : List Reply) :
    pendingSlots response served (modifyOldestUnsealed (appendBytes reply.msg.data) slots) wire =
      pendingSlots response served slots (reply :: wire) := by
  induction slots generalizing wire with
  | nil => exact absurd some_ (Nat.not_lt_zero _)
  | cons slot slots ih =>
    rw [modifyOldestUnsealed, pendingSlots]
    cases slot with
    | origin buf isSealed =>
      cases isSealed with
      | true => exact congrArg (buf.flatten ++ ·) (ih some_ wire)
      | false =>
        simp [pendingSlots, appendBytes, isUnsealed, slotBytes, portion, hm, clientBytes_cons, own]
    | synth buf => exact congrArg (buf ++ ·) (ih some_ wire)
    | cache msg serving =>
      exact congrArg (slotBytes response served (.cache msg serving) ++ ·) (ih some_ wire)

theorem pendingSlots_seal (ends : reply.seals = true) (some_ : 0 < unsealed slots)
    (wire : List Reply) :
    pendingSlots response served
        (modifyOldestUnsealed sealSlot
          (modifyOldestUnsealed (appendBytes reply.msg.data) slots)) wire =
      pendingSlots response served slots (reply :: wire) := by
  have own : reply.forClient = true := (Bool.and_eq_true_iff.mp ends).1
  induction slots generalizing wire with
  | nil => exact absurd some_ (Nat.not_lt_zero _)
  | cons slot slots ih =>
    rw [modifyOldestUnsealed, pendingSlots]
    cases slot with
    | origin buf isSealed =>
      cases isSealed with
      | true => exact congrArg (buf.flatten ++ ·) (ih some_ wire)
      | false =>
        simp [pendingSlots, appendBytes, modifyOldestUnsealed, sealSlot, isUnsealed,
          slotBytes, portion, ends, clientBytes_cons, own]
    | synth buf => exact congrArg (buf ++ ·) (ih some_ wire)
    | cache msg serving =>
      exact congrArg (slotBytes response served (.cache msg serving) ++ ·) (ih some_ wire)

theorem pendingSlots_none (none : NoneForClient wire) (slots : List (EgressSlot C)) :
    pendingSlots response served slots wire = slots.flatMap (slotBytes response served) := by
  induction slots generalizing wire with
  | nil => exact none.clientBytes
  | cons slot slots ih =>
    rw [pendingSlots, flatMap_cons]
    split
    · have all := portion_none none.sealing
      have rest : NoneForClient ([] : List Reply) := nofun
      rw [all, none.clientBytes, append_nil, ih rest]
    · rw [ih none]

theorem pendingSlots_seal_last (last : leading slots = 0) (wire : List Reply) :
    pendingSlots response served (modifyOldestUnsealed sealSlot slots) wire =
      pendingSlots response served slots wire := by
  induction slots with
  | nil => rfl
  | cons slot slots ih =>
    by_cases more : slots = []
    · subst more
      cases slot with
      | origin buf isSealed =>
        cases isSealed with
        | true => rfl
        | false =>
          simp [pendingSlots, modifyOldestUnsealed, sealSlot, isUnsealed, slotBytes,
            ← clientBytes_append, portion_append]
      | synth | cache => rfl
    · rw [leading_cons slot more] at last
      have waits : ¬slot.isUnsealed = true := by
        intro waits
        rw [if_pos waits] at last
        exact absurd last (Nat.succ_ne_zero _)
      rw [if_neg waits] at last
      rw [modifyOldestUnsealed, if_neg waits, pendingSlots, pendingSlots,
        if_neg waits, if_neg waits,
        ih last]

theorem pendingSlots_prune (slots : List (EgressSlot C)) (wire : List Reply) :
    pendingSlots response served (slots.dropWhile isDone) wire =
      pendingSlots response served slots wire := by
  induction slots with
  | nil => rfl
  | cons slot slots ih =>
    rw [dropWhile_cons]
    split
    · next done =>
      obtain ⟨buf, rfl, rfl⟩ : ∃ buf, slot = .origin buf true ∧ buf = [] := by
        cases slot with
        | origin buf isSealed =>
          obtain ⟨isSealed, empty⟩ := Bool.and_eq_true_iff.mp done
          exact ⟨buf, by rw [isSealed], isEmpty_iff.mp empty⟩
        | synth | cache => cases done
      exact ih
    · rfl

theorem loose_settled (settled : unsealed slots = 0) (wire : List Reply) :
    loose slots wire = wire := by
  induction slots with
  | nil => rfl
  | cons slot slots ih =>
    rw [unsealed_cons] at settled
    obtain ⟨later, here⟩ := Nat.add_eq_zero_iff.mp settled
    rw [loose, if_neg fun waits => by simp [waits] at here]
    exact ih later

theorem mem_loose_skip (own : reply.forClient = false) {o : Reply}
    (hw : o ∈ loose slots wire) : o ∈ loose slots (reply :: wire) := by
  have ends : reply.seals = false := by rw [Reply.seals, own, Bool.false_and]
  induction slots with
  | nil => exact mem_cons_of_mem _ hw
  | cons slot slots ih =>
    rw [loose] at hw ⊢
    split at hw
    · next waits => simpa [waits, portion, ends] using hw
    · next settled => simpa [settled] using ih hw

theorem loose_append (hm : reply.seals = false) (some_ : 0 < unsealed slots) (wire : List Reply) :
    loose (modifyOldestUnsealed (appendBytes reply.msg.data) slots) wire =
      loose slots (reply :: wire) := by
  induction slots with
  | nil => exact absurd some_ (Nat.not_lt_zero _)
  | cons slot slots ih =>
    rw [modifyOldestUnsealed, loose]
    split
    · next waits => simp [loose, isUnsealed_appendBytes, waits, portion, hm]
    · next settled =>
      rw [unsealed_cons, if_neg settled] at some_
      rw [loose, if_neg settled, ih some_]

theorem loose_seal (ends : reply.seals = true) (some_ : 0 < unsealed slots) (wire : List Reply) :
    loose (modifyOldestUnsealed sealSlot (modifyOldestUnsealed (appendBytes reply.msg.data) slots))
        wire =
      loose slots (reply :: wire) := by
  induction slots with
  | nil => exact absurd some_ (Nat.not_lt_zero _)
  | cons slot slots ih =>
    rw [modifyOldestUnsealed, loose]
    split
    · next waits =>
      simp [loose, modifyOldestUnsealed, isUnsealed_appendBytes, waits, portion, ends]
    · next settled =>
      rw [unsealed_cons, if_neg settled] at some_
      rw [modifyOldestUnsealed, if_neg settled, loose, if_neg settled, ih some_]

theorem loose_prune (slots : List (EgressSlot C)) (wire : List Reply) :
    loose (slots.dropWhile isDone) wire = loose slots wire := by
  induction slots with
  | nil => rfl
  | cons slot slots ih =>
    rw [dropWhile_cons]
    split
    · next done =>
      have settled : ¬slot.isUnsealed = true := by
        cases slot with
        | origin buf isSealed =>
          have isSealed := (Bool.and_eq_true_iff.mp done).1
          simp [isUnsealed, isSealed]
        | synth | cache => exact Bool.false_ne_true
      rw [loose, if_neg settled, ih]
    · rfl

private theorem consume_chunk {n : Nat} {chunk : Bytes} (hw : n ≤ chunk.length)
    (chunks : List Bytes) :
    chunk.take n ++ (consume n (chunk :: chunks)).flatten = (chunk :: chunks).flatten := by
  cases n with
  | zero => simp [consume]
  | succ n =>
    simp only [consume]
    split
    · next drained =>
      have all : chunk.length ≤ n + 1 := by simpa using drained
      have none : n + 1 - chunk.length = 0 := by omega
      rw [none, take_of_length_le all]
      cases chunks <;> simp [consume]
    · rw [flatten_cons, ← append_assoc, take_append_drop, flatten_cons]

variable (response served) in
theorem advance_cases {queue : EgressQueue C} {n : Nat} (writable : queue.hasWritable = true)
    (hw : n ≤ queue.writeChunk.length) :
    ∃ slot rest, queue.slots = slot :: rest ∧ slot.isCache = false ∧
      ((queue.advance n).slots = rest ∧ slot.isUnsealed = false ∧
          slotBytes response served slot = queue.writeChunk.take n ∨
        ∃ left, (queue.advance n).slots = left :: rest ∧ left.isUnsealed = slot.isUnsealed ∧
          left.isCache = false ∧
          queue.writeChunk.take n ++ slotBytes response served left =
            slotBytes response served slot) := by
  obtain ⟨slots, popped⟩ := queue
  match slots, writable with
  | .synth buf :: rest, _ =>
    refine ⟨.synth buf, rest, rfl, rfl, ?_⟩
    change n ≤ buf.length at hw
    simp only [EgressQueue.advance, writeChunk]
    split
    · next drained =>
      have all : buf.length ≤ n := by simpa using drained
      exact .inl ⟨rfl, rfl, (take_of_length_le all).symm⟩
    · exact .inr ⟨_, rfl, rfl, rfl, take_append_drop n buf⟩
  | .origin (chunk :: chunks) isSealed :: rest, _ =>
    refine ⟨.origin (chunk :: chunks) isSealed, rest, rfl, rfl, ?_⟩
    change n ≤ chunk.length at hw
    have bytes := consume_chunk hw chunks
    simp only [EgressQueue.advance, writeChunk]
    split
    · next drained =>
      obtain ⟨isSealed, empty⟩ := Bool.and_eq_true_iff.mp drained
      rw [isEmpty_iff.mp empty, flatten_nil, append_nil] at bytes
      exact .inl ⟨rfl, by simp [isUnsealed, isSealed], bytes.symm⟩
    · exact .inr ⟨_, rfl, rfl, rfl, bytes⟩

end Slots

section Screening

/-- An intercept that consumes exactly what is not for the client of the replies to come, and is
over after them. -/
def screens : OriginIntercept → List Reply → Bool
  | intercept, [] => intercept = .none
  | intercept, reply :: replies =>
    let (consumed, intercept) := originInterceptHandle intercept reply.msg.messageType
    consumed = !reply.forClient && screens intercept replies

variable {intercept : OriginIntercept}

theorem screens_cons {reply : Reply} {replies : List Reply}
    (screened : screens intercept (reply :: replies) = true) :
    (originInterceptHandle intercept reply.msg.messageType).1 = !reply.forClient ∧
      screens (originInterceptHandle intercept reply.msg.messageType).2 replies = true := by
  obtain ⟨here, later⟩ := Bool.and_eq_true_iff.mp screened
  exact ⟨of_decide_eq_true here, later⟩

theorem screens_more {replies more : List Reply}
    (screened : screens intercept replies = true) (own : more.all Reply.forClient = true) :
    screens intercept (replies ++ more) = true := by
  induction replies generalizing intercept with
  | nil =>
    obtain rfl : intercept = .none := of_decide_eq_true screened
    induction more with
    | nil => rfl
    | cons reply more ih =>
      obtain ⟨here, later⟩ := Bool.and_eq_true_iff.mp own
      exact Bool.and_eq_true_iff.mpr ⟨decide_eq_true (by rw [here]; rfl), ih later⟩
  | cons reply replies ih =>
    obtain ⟨here, later⟩ := Bool.and_eq_true_iff.mp screened
    exact Bool.and_eq_true_iff.mpr ⟨here, ih later⟩

end Screening

end PgCache.Proxy.Replies
