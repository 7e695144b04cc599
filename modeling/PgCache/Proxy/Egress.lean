/- source: proxy/egress.rs
   digest: The ordered queue of client-bound responses of one connection. -/
import Mathlib.Data.List.Basic
import Mathlib.Order.Nat

set_option autoImplicit false

namespace PgCache.Proxy.Egress

abbrev Bytes := List UInt8

inductive EgressSlot (C : Type) where
  | origin (buf : List Bytes) (isSealed : Bool)
  | synth (buf : Bytes)
  | cache (msg : Option C) (serving : Bool)
  deriving DecidableEq

/-- `EgressQueue`. `popped` is no field of the source: it counts the slots that have left, so
that the slot pushed as number `i` is the one at position `i - popped`. -/
structure EgressQueue (C : Type) where
  slots : List (EgressSlot C)
  popped : Nat
  deriving DecidableEq

variable {C : Type}

def EgressSlot.isUnsealed : EgressSlot C → Bool
  | .origin _ isSealed => !isSealed
  | .synth _ | .cache _ _ => false

def EgressSlot.isDone : EgressSlot C → Bool
  | .origin buf isSealed => isSealed && buf.isEmpty
  | .synth _ | .cache _ _ => false

namespace EgressQueue

def new : EgressQueue C := ⟨[], 0⟩

variable (q : EgressQueue C)

def originAllSealed : Bool :=
  !q.slots.any EgressSlot.isUnsealed

def originOpen : EgressQueue C :=
  { q with slots := q.slots ++ [.origin [] false] }

/-- A change of the slot `oldest_unsealed_origin` finds. -/
def modifyOldestUnsealed (f : EgressSlot C → EgressSlot C) : List (EgressSlot C) →
    List (EgressSlot C)
  | [] => []
  | slot :: slots => if slot.isUnsealed then f slot :: slots else slot ::
    modifyOldestUnsealed f slots

def appendBytes (bytes : Bytes) : EgressSlot C → EgressSlot C
  | .origin buf isSealed => .origin (buf ++ [bytes]) isSealed
  | slot => slot

def sealSlot : EgressSlot C → EgressSlot C
  | .origin buf _ => .origin buf true
  | slot => slot

/-- `origin_append`: the bytes go to the oldest unsealed slot, which is opened if there is none. -/
def originAppend (bytes : Bytes) : EgressQueue C :=
  if bytes.isEmpty then q
  else
    let q := if q.originAllSealed then q.originOpen else q
    { q with slots := modifyOldestUnsealed (appendBytes bytes) q.slots }

def pruneDone : EgressQueue C :=
  ⟨q.slots.dropWhile EgressSlot.isDone, q.popped + (q.slots.takeWhile EgressSlot.isDone).length⟩

def originSeal : EgressQueue C :=
  pruneDone { q with slots := modifyOldestUnsealed sealSlot q.slots }

def synthPush (buf : Bytes) : EgressQueue C :=
  if buf.isEmpty then q else { q with slots := q.slots ++ [.synth buf] }

def cachePush (msg : C) : EgressQueue C :=
  { q with slots := q.slots ++ [.cache (some msg) false] }

def hasWritable : Bool :=
  match q.slots with
  | .synth _ :: _ => true
  | .origin buf _ :: _ => !buf.isEmpty
  | .cache _ _ :: _ | [] => false

def writeChunk : Bytes :=
  match q.slots with
  | .synth buf :: _ => buf
  | .origin (chunk :: _) _ :: _ => chunk
  | _ => []

/-- The loop of `advance` over the chunks of an `Origin` slot. -/
def consume : Nat → List Bytes → List Bytes
  | 0, chunks => chunks
  | _ + 1, [] => []
  | n + 1, chunk :: chunks =>
    let rest := chunk.drop (n + 1)
    if rest.isEmpty then consume (n + 1 - chunk.length) chunks else rest :: chunks

def advance (n : Nat) : EgressQueue C :=
  match q.slots with
  | [] => q
  | .synth buf :: slots =>
    let buf := buf.drop n
    if buf.isEmpty then ⟨slots, q.popped + 1⟩ else { q with slots := .synth buf :: slots }
  | .origin buf isSealed :: slots =>
    let buf := consume n buf
    if isSealed && buf.isEmpty then ⟨slots, q.popped + 1⟩
    else { q with slots := .origin buf isSealed :: slots }
  | .cache _ _ :: _ => q

def cacheDispatch : Option C × EgressQueue C :=
  match q.slots with
  | .cache msg false :: slots => (msg, { q with slots := .cache none true :: slots })
  | _ => (none, q)

def cacheToOrigin : EgressQueue C :=
  match q.slots with
  | .cache _ _ :: slots => { q with slots := .origin [] false :: slots }
  | _ => q

def cacheDone : EgressQueue C :=
  match q.slots with
  | [] => q
  | _ :: slots => ⟨slots, q.popped + 1⟩

end EgressQueue

section Counting

open EgressQueue EgressSlot List

variable (slots : List (EgressSlot C))

/-- How many slots wait for a `ReadyForQuery`. -/
def unsealed : Nat := slots.countP isUnsealed

def leading : Nat := unsealed slots.dropLast

def EgressSlot.isCache : EgressSlot C → Bool
  | .cache _ _ => true
  | .origin _ _ | .synth _ => false

def caches : Nat := slots.countP isCache

@[simp] theorem unsealed_nil : unsealed ([] : List (EgressSlot C)) = 0 := rfl

@[simp] theorem unsealed_append (a b : List (EgressSlot C)) :
    unsealed (a ++ b) = unsealed a + unsealed b :=
  countP_append

variable (slot : EgressSlot C) (slots : List (EgressSlot C)) {f : EgressSlot C → EgressSlot C}

theorem unsealed_cons (slots : List (EgressSlot C)) :
    unsealed (slot :: slots) = unsealed slots + if slot.isUnsealed then 1 else 0 :=
  countP_cons

@[simp] theorem leading_concat (slot : EgressSlot C) :
    leading (slots ++ [slot]) = unsealed slots := by
  simp [leading]

theorem leading_cons {slots : List (EgressSlot C)} (more : slots ≠ []) :
    leading (slot :: slots) = leading slots + if slot.isUnsealed then 1 else 0 := by
  rw [leading, dropLast_cons_of_ne_nil more, unsealed_cons, leading]

theorem leading_head {old new : EgressSlot C} {rest : List (EgressSlot C)}
    (same : new.isUnsealed = old.isUnsealed) : leading (new :: rest) = leading (old :: rest) := by
  by_cases alone : rest = []
  · subst alone
    rfl
  · rw [leading_cons _ alone, leading_cons _ alone, same]

theorem unsealed_le_leading : unsealed slots ≤ leading slots + 1 := by
  rcases eq_nil_or_concat slots with rfl | ⟨init, last, rfl⟩
  · simp
  · rw [concat_eq_append, unsealed_append, leading_concat, unsealed_cons]
    split <;> simp

@[simp] theorem caches_append (a b : List (EgressSlot C)) : caches (a ++ b) = caches a + caches b :=
  countP_append

theorem caches_cons (slots : List (EgressSlot C)) :
    caches (slot :: slots) = caches slots + if slot.isCache then 1 else 0 :=
  countP_cons

theorem modifyOldestUnsealed_ne_nil {slots : List (EgressSlot C)} (some : slots ≠ []) :
    modifyOldestUnsealed f slots ≠ [] := by
  cases slots with
  | nil => exact absurd rfl some
  | cons slot slots => unfold modifyOldestUnsealed; split <;> simp

@[simp] theorem length_modifyOldestUnsealed (f : EgressSlot C → EgressSlot C)
    (slots : List (EgressSlot C)) : (modifyOldestUnsealed f slots).length = slots.length := by
  induction slots with
  | nil => rfl
  | cons slot slots ih => unfold modifyOldestUnsealed; split <;> simp [ih]

theorem unsealed_modify (keeps : ∀ slot, (f slot).isUnsealed = slot.isUnsealed) :
    unsealed (modifyOldestUnsealed f slots) = unsealed slots := by
  induction slots with
  | nil => rfl
  | cons slot slots ih =>
    unfold modifyOldestUnsealed
    split <;> simp [unsealed_cons, keeps, ih]

theorem leading_modify (keeps : ∀ slot, (f slot).isUnsealed = slot.isUnsealed) :
    leading (modifyOldestUnsealed f slots) = leading slots := by
  induction slots with
  | nil => rfl
  | cons slot slots ih =>
    by_cases more : slots = []
    · subst more
      unfold modifyOldestUnsealed
      split <;> simp [leading, modifyOldestUnsealed]
    · have more' := modifyOldestUnsealed_ne_nil (f := f) more
      unfold modifyOldestUnsealed
      split <;> simp [leading_cons _ more, leading_cons _ more', keeps, ih]

theorem isUnsealed_appendBytes (bytes : Bytes) (slot : EgressSlot C) :
    (appendBytes bytes slot).isUnsealed = slot.isUnsealed := by
  cases slot <;> rfl

@[simp] theorem isUnsealed_sealSlot : (sealSlot slot).isUnsealed = false := by
  cases slot <;> rfl

theorem unsealed_seal : unsealed (modifyOldestUnsealed sealSlot slots) = unsealed slots - 1 := by
  induction slots with
  | nil => rfl
  | cons slot slots ih =>
    unfold modifyOldestUnsealed
    split
    · rename_i waits
      simp [unsealed_cons, waits]
    · rename_i settled
      simp [unsealed_cons, settled, ih]

theorem leading_seal : leading (modifyOldestUnsealed sealSlot slots) = leading slots - 1 := by
  induction slots with
  | nil => rfl
  | cons slot slots ih =>
    by_cases more : slots = []
    · subst more
      unfold modifyOldestUnsealed
      split <;> simp [leading, modifyOldestUnsealed]
    · have more' := modifyOldestUnsealed_ne_nil (f := sealSlot) more
      unfold modifyOldestUnsealed
      split
      · rename_i waits
        simp [leading_cons _ more, waits]
      · rename_i settled
        simp [leading_cons _ more, leading_cons _ more', settled, ih]

theorem caches_modify (keeps : ∀ slot, (f slot).isCache = slot.isCache) :
    caches (modifyOldestUnsealed f slots) = caches slots := by
  induction slots with
  | nil => rfl
  | cons slot slots ih =>
    unfold modifyOldestUnsealed
    split <;> simp [caches_cons, keeps, ih]

theorem caches_dropWhile_isDone : caches (slots.dropWhile isDone) = caches slots := by
  induction slots with
  | nil => rfl
  | cons slot slots ih =>
    rw [dropWhile_cons]
    split
    · rename_i done
      have plain : slot.isCache = false := by cases slot <;> first | rfl | cases done
      rw [ih, caches_cons, plain]
      rfl
    · rfl

theorem leading_le_of_suffix {a b : List (EgressSlot C)} (suffix : a <:+ b) :
    leading a ≤ leading b := by
  obtain ⟨front, rfl⟩ := suffix
  by_cases none : a = []
  · simp [none, leading]
  · rw [leading, leading, dropLast_append_of_ne_nil none, unsealed_append]
    omega

end Counting

section Soundness

open EgressQueue

def EgressSlot.Sound : EgressSlot C → Prop
  | .origin buf isSealed => (∀ chunk ∈ buf, chunk ≠ []) ∧ (isSealed = true → buf ≠ [])
  | .synth buf => buf ≠ []
  | .cache _ _ => True

variable {slots : List (EgressSlot C)} {slot : EgressSlot C}

theorem mem_modifyOldestUnsealed {f : EgressSlot C → EgressSlot C}
    (hm : slot ∈ modifyOldestUnsealed f slots) :
    slot ∈ slots ∨ ∃ old ∈ slots, old.isUnsealed = true ∧ slot = f old := by
  induction slots with
  | nil => cases hm
  | cons first slots ih =>
    unfold modifyOldestUnsealed at hm
    split at hm
    · rename_i waits
      rcases List.mem_cons.mp hm with rfl | hm
      · exact .inr ⟨first, by simp, waits, rfl⟩
      · exact .inl (List.mem_cons_of_mem _ hm)
    · rcases List.mem_cons.mp hm with rfl | hm
      · exact .inl (by simp)
      · rcases ih hm with there | ⟨old, there, waits, rfl⟩
        · exact .inl (List.mem_cons_of_mem _ there)
        · exact .inr ⟨old, List.mem_cons_of_mem _ there, waits, rfl⟩

theorem sound_appendBytes {bytes : Bytes} (some : bytes ≠ []) (sound : slot.Sound) :
    (appendBytes bytes slot).Sound := by
  cases slot with
  | origin buf isSealed =>
    refine ⟨fun chunk hm => ?_, fun _ => by simp⟩
    rcases List.mem_append.mp hm with hm | hm
    · exact sound.1 chunk hm
    · rw [List.mem_singleton.mp hm]
      exact some
  | synth buf => exact sound
  | cache msg serving => exact sound

private theorem consume_le (n : Nat) (chunks : List Bytes) :
    (consume n chunks).flatten.length ≤ chunks.flatten.length := by
  induction chunks generalizing n with
  | nil => cases n <;> simp [consume]
  | cons chunk chunks ih =>
    cases n with
    | zero => simp [consume]
    | succ n =>
      have rest := ih (n + 1 - chunk.length)
      simp only [consume]
      split <;> simp only [List.flatten_cons, List.length_append, List.length_drop] <;> omega

theorem consume_lt {n : Nat} {chunks : List Bytes} (some : 0 < n) (chunksSome : chunks ≠ [])
    (hne : ∀ chunk ∈ chunks, chunk ≠ []) :
    (consume n chunks).flatten.length < chunks.flatten.length := by
  cases chunks with
  | nil => exact absurd rfl chunksSome
  | cons chunk chunks =>
    have bytes : 0 < chunk.length := List.length_pos_iff.mpr (hne chunk (by simp))
    obtain ⟨k, rfl⟩ : ∃ k, n = k + 1 := ⟨n - 1, by omega⟩
    simp only [consume]
    split
    · rename_i drained
      have all : chunk.length ≤ k + 1 := by simpa using drained
      have rest := consume_le (k + 1 - chunk.length) chunks
      simp only [List.flatten_cons, List.length_append]
      omega
    · simp only [List.flatten_cons, List.length_append, List.length_drop]
      omega

theorem consume_nonempty {n : Nat} {chunks : List Bytes}
    (hne : ∀ chunk ∈ chunks, chunk ≠ []) : ∀ chunk ∈ consume n chunks, chunk ≠ [] := by
  induction chunks generalizing n with
  | nil => cases n <;> simp [consume]
  | cons chunk chunks ih =>
    cases n with
    | zero => simpa [consume] using hne
    | succ n =>
      have rest : ∀ c ∈ chunks, c ≠ [] := fun c hm => hne c (List.mem_cons_of_mem _ hm)
      simp only [consume]
      split
      · exact ih rest
      · rename_i left
        intro c hm
        rcases List.mem_cons.mp hm with rfl | hm
        · simpa using left
        · exact rest c hm

theorem not_isDone_of_sound (sound : slot.Sound) : slot.isDone = false := by
  cases slot with
  | origin buf isSealed => simpa [EgressSlot.isDone, EgressSlot.Sound] using sound.2
  | synth buf => rfl
  | cache msg serving => rfl

theorem dropWhile_of_sound (sound : ∀ slot ∈ slots, slot.Sound) :
    slots.dropWhile EgressSlot.isDone = slots := by
  cases slots with
  | nil => rfl
  | cons slot slots =>
    rw [List.dropWhile_cons_of_neg]
    simp [not_isDone_of_sound (sound slot (by simp))]

def SealReady (slots : List (EgressSlot C)) : Prop :=
  (∃ buf rest, slots = .origin buf false :: rest) ∨
    ∀ buf isSealed, slots.find? EgressSlot.isUnsealed = some (.origin buf isSealed) → buf ≠ []

theorem sound_sealSlot (sound : slot.Sound)
    (bytes : ∀ buf isSealed, slot = .origin buf isSealed → buf ≠ []) : (sealSlot slot).Sound := by
  cases slot with
  | origin buf isSealed => exact ⟨sound.1, fun _ => bytes buf isSealed rfl⟩
  | synth buf => exact sound
  | cache msg serving => exact sound

private theorem sound_modify_seal (sound : ∀ slot ∈ slots, slot.Sound)
    (bytes : ∀ buf isSealed, slots.find? EgressSlot.isUnsealed = some (.origin buf isSealed) →
      buf ≠ []) : ∀ slot ∈ modifyOldestUnsealed sealSlot slots, slot.Sound := by
  induction slots with
  | nil => simp [modifyOldestUnsealed]
  | cons first slots ih =>
    obtain ⟨soundFirst, soundRest⟩ := List.forall_mem_cons.mp sound
    unfold modifyOldestUnsealed
    split
    · rename_i waits
      refine List.forall_mem_cons.mpr
        ⟨sound_sealSlot soundFirst fun buf isSealed same => ?_, soundRest⟩
      exact bytes buf isSealed (by rw [List.find?_cons_of_pos waits, same])
    · rename_i settled
      refine List.forall_mem_cons.mpr ⟨soundFirst, ih soundRest fun buf isSealed hf => ?_⟩
      exact bytes buf isSealed (by rw [List.find?_cons_of_neg (by simpa using settled), hf])

theorem sound_originSeal {q : EgressQueue C} (sound : ∀ slot ∈ q.slots, slot.Sound)
    (ready : SealReady q.slots) : ∀ slot ∈ q.originSeal.slots, slot.Sound := by
  rcases ready with ⟨buf, rest, shape⟩ | bytes
  · obtain ⟨soundFirst, soundRest⟩ := List.forall_mem_cons.mp (shape ▸ sound)
    have sealed : modifyOldestUnsealed sealSlot q.slots = .origin buf true :: rest := by
      rw [shape]
      rfl
    simp only [originSeal, pruneDone, sealed]
    by_cases empty : buf = []
    · rw [List.dropWhile_cons_of_pos (by simp [EgressSlot.isDone, empty]),
        dropWhile_of_sound soundRest]
      exact soundRest
    · have soundSealed : ∀ slot ∈ EgressSlot.origin buf true :: rest, slot.Sound :=
        List.forall_mem_cons.mpr ⟨⟨soundFirst.1, fun _ => empty⟩, soundRest⟩
      rw [dropWhile_of_sound soundSealed]
      exact soundSealed
  · have soundSealed := sound_modify_seal sound bytes
    simp only [originSeal, pruneDone, dropWhile_of_sound soundSealed]
    exact soundSealed

end Soundness

section Head

open EgressQueue

/-- How far the head slot is from being delivered: waiting for the worker, being served, waiting
for origin, only bytes left to write. -/
def EgressSlot.stage : EgressSlot C → Nat
  | .cache _ false => 3
  | .cache _ true => 2
  | .origin _ false => 1
  | .origin _ true | .synth _ => 0

theorem EgressSlot.stage_le (slot : EgressSlot C) : slot.stage ≤ 3 := by
  cases slot with
  | origin buf isSealed => cases isSealed <;> simp [stage]
  | synth buf => simp [stage]
  | cache msg serving => cases serving <;> simp [stage]

variable {slot : EgressSlot C} (q : EgressQueue C)

theorem EgressSlot.eq_of_stage_three (pending : slot.stage = 3) :
    ∃ msg, slot = .cache msg false := by
  cases slot with
  | origin buf isSealed => cases isSealed <;> cases pending
  | synth buf => cases pending
  | cache msg serving => cases serving <;> first | exact ⟨msg, rfl⟩ | cases pending

theorem EgressSlot.eq_of_stage_two (served : slot.stage = 2) : ∃ msg, slot = .cache msg true := by
  cases slot with
  | origin buf isSealed => cases isSealed <;> cases served
  | synth buf => cases served
  | cache msg serving => cases serving <;> first | exact ⟨msg, rfl⟩ | cases served

theorem EgressSlot.eq_of_stage_one (waits : slot.stage = 1) : ∃ buf, slot = .origin buf false := by
  cases slot with
  | origin buf isSealed => cases isSealed <;> first | exact ⟨buf, rfl⟩ | cases waits
  | synth buf => cases waits
  | cache msg serving => cases serving <;> cases waits

def EgressSlot.size : EgressSlot C → Nat
  | .origin buf _ => buf.flatten.length
  | .synth buf => buf.length
  | .cache _ _ => 0

def EgressSlot.Follows (old new : EgressSlot C) : Prop :=
  new.stage < old.stage ∨ new.stage = old.stage ∧ (old.stage = 0 → new.size ≤ old.size)

theorem EgressSlot.Follows.refl (slot : EgressSlot C) : slot.Follows slot :=
  .inr ⟨rfl, fun _ => le_rfl⟩

theorem EgressSlot.Follows.trans {a b c : EgressSlot C} (first : a.Follows b) (snd : b.Follows c) :
    a.Follows c := by
  unfold EgressSlot.Follows at *
  omega

def pushed (q : EgressQueue C) : Nat := q.popped + q.slots.length

structure Moves (old new : EgressQueue C) : Prop where
  popped_le : old.popped ≤ new.popped
  pushed_le : pushed old ≤ pushed new
  head : ∀ slot, old.slots.head? = some slot → new.popped = old.popped →
    ∃ slot', new.slots.head? = some slot' ∧ slot.Follows slot'

theorem Moves.refl : Moves q q :=
  ⟨le_rfl, le_rfl, fun slot head _ => ⟨slot, head, .refl slot⟩⟩

theorem Moves.trans {a b c : EgressQueue C} (first : Moves a b) (snd : Moves b c) : Moves a c where
  popped_le := first.popped_le.trans snd.popped_le
  pushed_le := first.pushed_le.trans snd.pushed_le
  head slot head same := by
    have middle : b.popped = a.popped :=
      le_antisymm (snd.popped_le.trans same.le) first.popped_le
    obtain ⟨slot', head', follows⟩ := first.head slot head middle
    obtain ⟨slot'', head'', follows'⟩ := snd.head slot' head' (same.trans middle.symm)
    exact ⟨slot'', head'', follows.trans follows'⟩

theorem moves_push (slot : EgressSlot C) : Moves q { q with slots := q.slots ++ [slot] } where
  popped_le := le_rfl
  pushed_le := by simp only [pushed, List.length_append]; omega
  head first head _ := by
    obtain ⟨rest, shape⟩ := List.head?_eq_some_iff.mp head
    exact ⟨first, by simp [shape], .refl first⟩

theorem moves_modify {f : EgressSlot C → EgressSlot C}
    (follows : ∀ slot : EgressSlot C, slot.isUnsealed = true → slot.Follows (f slot)) :
    Moves q { q with slots := modifyOldestUnsealed f q.slots } where
  popped_le := le_rfl
  pushed_le := by simp [pushed]
  head first head _ := by
    obtain ⟨rest, shape⟩ := List.head?_eq_some_iff.mp head
    rw [shape]
    unfold modifyOldestUnsealed
    split
    · rename_i waits
      exact ⟨f first, rfl, follows first waits⟩
    · exact ⟨first, rfl, .refl first⟩

theorem moves_pruneDone : Moves q q.pruneDone where
  popped_le := by simp [pruneDone]
  pushed_le := by
    have parts := congrArg List.length
      (List.takeWhile_append_dropWhile (p := EgressSlot.isDone) (l := q.slots))
    simp only [List.length_append] at parts
    simp only [pushed, pruneDone]
    omega
  head first head same := by
    obtain ⟨rest, shape⟩ := List.head?_eq_some_iff.mp head
    simp only [pruneDone, shape] at same ⊢
    cases done : first.isDone with
    | true => simp [done] at same
    | false => exact ⟨first, by simp [done], .refl first⟩

theorem moves_originOpen : Moves q q.originOpen :=
  moves_push q _

theorem moves_originAppend (bytes : Bytes) : Moves q (q.originAppend bytes) := by
  have append : ∀ q : EgressQueue C,
      Moves q { q with slots := modifyOldestUnsealed (appendBytes bytes) q.slots } :=
    fun q => moves_modify q fun slot waits => by
      cases slot <;> simp_all
        [EgressSlot.Follows, EgressSlot.stage, appendBytes, EgressSlot.isUnsealed]
  unfold originAppend
  split
  · exact .refl q
  · split
    · exact (moves_originOpen q).trans (append _)
    · exact append q

theorem moves_originSeal : Moves q q.originSeal := by
  refine (moves_modify q fun slot waits => ?_).trans (moves_pruneDone _)
  cases slot <;> simp_all [EgressSlot.Follows, EgressSlot.stage, sealSlot, EgressSlot.isUnsealed]

theorem moves_synthPush (buf : Bytes) : Moves q (q.synthPush buf) := by
  unfold synthPush
  split
  · exact .refl q
  · exact moves_push q _

theorem moves_cachePush (msg : C) : Moves q (q.cachePush msg) :=
  moves_push q _

private theorem moves_head {q : EgressQueue C} {old new : EgressSlot C}
    {rest : List (EgressSlot C)} (shape : q.slots = old :: rest) (follows : old.Follows new) :
    Moves q { q with slots := new :: rest } where
  popped_le := le_rfl
  pushed_le := by simp [pushed, shape]
  head slot head _ := by
    obtain rfl : old = slot := by simpa [shape] using head
    exact ⟨new, rfl, follows⟩

private theorem moves_pop {q : EgressQueue C} {slot : EgressSlot C} {rest : List (EgressSlot C)}
    (shape : q.slots = slot :: rest) : Moves q ⟨rest, q.popped + 1⟩ :=
  ⟨Nat.le_succ _, by simp only [pushed, shape, List.length_cons]; omega,
    fun _ _ same => by simp at same⟩

theorem moves_advance (n : Nat) : Moves q (q.advance n) := by
  unfold advance
  split
  · exact .refl _
  · rename_i buf rest shape
    dsimp only
    split
    · exact moves_pop shape
    · exact moves_head shape (.inr ⟨rfl, fun _ => by simp [EgressSlot.size]⟩)
  · rename_i buf isSealed rest shape
    dsimp only
    split
    · exact moves_pop shape
    · exact moves_head shape (.inr ⟨by cases isSealed <;> rfl, fun _ => consume_le n buf⟩)
  · exact .refl _

theorem moves_cacheDispatch : Moves q q.cacheDispatch.2 := by
  unfold cacheDispatch
  split
  · rename_i msg rest shape
    exact moves_head shape (.inl (by simp [EgressSlot.stage]))
  · exact .refl q

theorem cacheDispatch_eq_some {q q' : EgressQueue C} {msg : C}
    (taken : q.cacheDispatch = (some msg, q')) :
    ∃ slots, q.slots = .cache (some msg) false :: slots ∧
      q' = { q with slots := .cache none true :: slots } := by
  unfold cacheDispatch at taken
  split at taken
  · rename_i hf slots shape
    simp only [Prod.mk.injEq] at taken
    exact ⟨slots, taken.1 ▸ shape, taken.2.symm⟩
  · cases (Prod.ext_iff.mp taken).1

theorem moves_cacheToOrigin : Moves q q.cacheToOrigin := by
  unfold cacheToOrigin
  split
  · rename_i msg serving rest shape
    exact moves_head shape (.inl (by cases serving <;> simp [EgressSlot.stage]))
  · exact .refl q

theorem moves_cacheDone : Moves q q.cacheDone := by
  unfold cacheDone
  split
  · exact .refl q
  · rename_i shape
    exact moves_pop shape

theorem advance_head {q : EgressQueue C} {n : Nat} (head : q.slots.head? = some slot)
    (sound : slot.Sound) (bytesLeft : slot.stage = 0) (some : 0 < n) :
    q.popped < (q.advance n).popped ∨
      ∃ slot', (q.advance n).slots.head? = Option.some slot' ∧ slot'.stage = 0 ∧
        slot'.size < slot.size := by
  obtain ⟨slots, popped⟩ := q
  obtain ⟨rest, rfl⟩ := List.head?_eq_some_iff.mp head
  cases slot with
  | synth buf =>
    by_cases drained : (buf.drop n).isEmpty = true
    · exact .inl (by simp only [advance, if_pos drained]; omega)
    · refine .inr ⟨.synth (buf.drop n),
        by simp only [advance, if_neg drained, List.head?_cons], rfl, ?_⟩
      have bytes : 0 < buf.length := List.length_pos_iff.mpr sound
      simp only [EgressSlot.size, List.length_drop]
      omega
  | origin buf isSealed =>
    obtain rfl : isSealed = true := by cases isSealed <;> simp_all [EgressSlot.stage]
    by_cases drained : (consume n buf).isEmpty = true
    · exact .inl (by simp only [advance, Bool.true_and, if_pos drained]; omega)
    · refine .inr ⟨.origin (consume n buf) true, ?_, rfl, consume_lt some (sound.2 rfl) sound.1⟩
      simp only [advance, Bool.true_and, if_neg drained, List.head?_cons]
  | cache msg serving => cases serving <;> simp [EgressSlot.stage] at bytesLeft

theorem originSeal_head {q : EgressQueue C} (head : q.slots.head? = some slot)
    (waits : slot.stage = 1) :
    q.popped < q.originSeal.popped ∨
      ∃ slot', q.originSeal.slots.head? = some slot' ∧ slot'.stage = 0 := by
  obtain ⟨slots, popped⟩ := q
  obtain ⟨rest, rfl⟩ := List.head?_eq_some_iff.mp head
  obtain ⟨buf, rfl⟩ := EgressSlot.eq_of_stage_one waits
  have sealed : modifyOldestUnsealed sealSlot (.origin buf false :: rest) =
    .origin buf true :: rest :=
    rfl
  cases done : EgressSlot.isDone (.origin buf true : EgressSlot C) with
  | true =>
    refine .inl ?_
    simp only [originSeal, pruneDone, sealed, List.takeWhile_cons, done, ↓reduceIte,
      List.length_cons]
    omega
  | false =>
    refine .inr ⟨.origin buf true, ?_, rfl⟩
    simp only [originSeal, pruneDone, sealed, List.dropWhile_cons, done, Bool.false_eq_true,
      ↓reduceIte, List.head?_cons]

theorem originSeal_cases {q : EgressQueue C} (head : q.slots.head? = some slot)
    (waits : slot.stage ≤ 1) :
    q.popped < q.originSeal.popped ∨
      ∃ slot', q.originSeal.slots.head? = some slot' ∧ slot'.stage = 0 := by
  rcases waits.lt_or_eq with left | waits
  · have moved := moves_originSeal q
    rcases moved.popped_le.lt_or_eq with gone | same
    · exact .inl gone
    · obtain ⟨slot', head', follows⟩ := moved.head slot head same.symm
      exact .inr ⟨slot', head', by unfold EgressSlot.Follows at follows; omega⟩
  · exact originSeal_head head waits

end Head

end PgCache.Proxy.Egress
