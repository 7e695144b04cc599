/- source: cache/write_queue.rs
   digest: The queue of chunks a serve writes to its client, as the bytes still to be written. -/
import PgCache.Data.RingQueue
import PgCache.Proxy.Egress

set_option autoImplicit false

namespace PgCache.Cache.Serve.Queue

open Data.RingQueue Proxy.Egress List SpillQueue

def inlineCap : Nat := 8

structure WriteQueue where
  chunks : SpillQueue Bytes inlineCap
  filled : ∀ chunk ∈ chunks.toList, chunk ≠ []

/-- The loop of `advance`: `front_mut`, `advance` of the chunk, `pop_front` once it is used up. -/
def advanceLoop : Nat → SpillQueue Bytes inlineCap → Nat → SpillQueue Bytes inlineCap
  | 0, q, _ => q
  | fuel + 1, q, cnt =>
    if cnt = 0 then q
    else
      match q.front with
      | none => q
      | some front =>
        let n := min cnt front.length
        let q := q.setFront (front.drop n)
        advanceLoop fuel (if (front.drop n).isEmpty then q.popFront [] else q) (cnt - n)

def dropBytes : List Bytes → Nat → List Bytes
  | [], _ => []
  | chunk :: chunks, cnt =>
    if cnt < chunk.length then chunk.drop cnt :: chunks else dropBytes chunks (cnt - chunk.length)

theorem flatten_dropBytes (chunks : List Bytes) (cnt : Nat) :
    (dropBytes chunks cnt).flatten = chunks.flatten.drop cnt := by
  induction chunks generalizing cnt with
  | nil => exact drop_nil.symm
  | cons chunk chunks ih =>
    unfold dropBytes
    rw [flatten_cons]
    split
    · next short => rw [flatten_cons, drop_append_of_le_length short.le]
    · next long =>
      rw [ih, drop_append, drop_eq_nil_of_le (Nat.le_of_not_lt long), nil_append]

theorem filled_dropBytes {chunks : List Bytes} (filled : ∀ chunk ∈ chunks, chunk ≠ []) (cnt : Nat) :
    ∀ chunk ∈ dropBytes chunks cnt, chunk ≠ [] := by
  induction chunks generalizing cnt with
  | nil => exact filled
  | cons first rest ih =>
    have later := ih fun chunk hw => filled chunk (mem_cons_of_mem _ hw)
    unfold dropBytes
    split
    · next short =>
      intro chunk hw
      rcases mem_cons.mp hw with rfl | hw
      · exact drop_eq_nil_iff.not.mpr (Nat.not_le_of_lt short)
      · exact filled chunk (mem_cons_of_mem _ hw)
    · exact later _

private theorem advanceLoop_zero (fuel : Nat) (q : SpillQueue Bytes inlineCap) :
    advanceLoop fuel q 0 = q := by
  cases fuel <;> rfl

theorem toList_advanceLoop {fuel : Nat} {q : SpillQueue Bytes inlineCap}
    (filled : ∀ chunk ∈ q.toList, chunk ≠ []) (enough : q.toList.length < fuel) (cnt : Nat) :
    (advanceLoop fuel q cnt).toList = dropBytes q.toList cnt := by
  induction fuel generalizing q cnt with
  | zero => exact absurd enough (Nat.not_lt_zero _)
  | succ fuel ih =>
    cases isList : q.toList with
    | nil =>
      have none : q.front = none := by rw [front_eq, isList, head?_nil]
      rw [advanceLoop]
      split
      · rw [isList, dropBytes]
      · rw [none, isList, dropBytes]
    | cons front rest =>
      have first : q.front = some front := by rw [front_eq, isList, head?_cons]
      have hne : front ≠ [] := filled front (isList ▸ mem_cons_self)
      have positive : 0 < front.length := length_pos_iff.mpr hne
      rw [advanceLoop, dropBytes]
      split
      · next zero => rw [zero, if_pos positive, drop_zero, isList]
      · next some_ =>
        have set := toList_setFront isList
        simp only [first]
        by_cases short : cnt < front.length
        · have rest_ : front.drop cnt ≠ [] := drop_eq_nil_iff.not.mpr (Nat.not_le_of_lt short)
          rw [if_pos short, Nat.min_eq_left short.le, Nat.sub_self,
            if_neg (isEmpty_iff.not.mpr rest_), advanceLoop_zero, set]
        · have long := Nat.le_of_not_lt short
          have popped : ((q.setFront []).popFront []).toList = rest := by
            rw [toList_popFront, set, tail_cons]
          rw [if_neg short, Nat.min_eq_right long, drop_length, if_pos isEmpty_nil]
          rw [ih (popped ▸ fun chunk hw => filled chunk (isList ▸ mem_cons_of_mem _ hw)) ?_, popped]
          rw [popped]
          rw [isList, length_cons] at enough
          omega

namespace WriteQueue

variable (q : WriteQueue)

def bytes : Bytes := q.chunks.toList.flatten

def new : WriteQueue := ⟨.empty [], nofun⟩

def push (buf : Bytes) : WriteQueue :=
  if nonempty : buf ≠ [] then
    { chunks := q.chunks.push buf
      filled := by
        intro chunk within
        rw [toList_push] at within
        rcases mem_append.mp within with earlier | last
        · exact q.filled chunk earlier
        · exact mem_singleton.mp last ▸ nonempty }
  else q

def isEmpty : Bool := q.chunks.isEmpty

def clear (_ : WriteQueue) : WriteQueue := new

def advance (cnt : Nat) : WriteQueue :=
  { chunks := advanceLoop (q.chunks.toList.length + 1) q.chunks cnt
    filled := by
      rw [toList_advanceLoop q.filled (Nat.lt_succ_self _)]
      exact filled_dropBytes q.filled cnt }

@[simp] theorem bytes_new : new.bytes = [] := rfl

variable (q : WriteQueue)

@[simp] theorem bytes_clear : q.clear.bytes = [] := rfl

@[simp] theorem bytes_push (buf : Bytes) : (q.push buf).bytes = q.bytes ++ buf := by
  unfold push
  split
  · change (q.chunks.push buf).toList.flatten = _
    rw [toList_push, flatten_append, flatten_singleton, bytes]
  · next empty => rw [not_not.mp empty, append_nil]

@[simp] theorem bytes_advance (cnt : Nat) : (q.advance cnt).bytes = q.bytes.drop cnt := by
  change (advanceLoop _ q.chunks cnt).toList.flatten = _
  rw [toList_advanceLoop q.filled (Nat.lt_succ_self _), flatten_dropBytes, bytes]

def inline : List Bytes := (range q.chunks.len).map q.chunks.slot

def remaining : Nat := (q.inline.map length).sum + (q.chunks.spill.map length).sum

def chunk : Bytes :=
  if 0 < q.chunks.len then q.chunks.slot 0 else q.chunks.spill.head?.getD []

def chunksVectored (slots : Nat) : List Bytes :=
  q.inline.take slots ++ q.chunks.spill.take (slots - q.chunks.len)

theorem remaining_eq : q.remaining = q.bytes.length := by
  rw [bytes, length_flatten, toList, map_append, sum_append]
  rfl

theorem chunk_eq : q.chunk = q.chunks.toList.head?.getD [] := by
  rw [← front_eq, front, chunk]
  split <;> rfl

theorem chunksVectored_eq (slots : Nat) : q.chunksVectored slots = q.chunks.toList.take slots := by
  rw [toList, take_append, length_map, length_range]
  rfl

inductive Reached : WriteQueue → Bytes → Nat → Prop
  | new : Reached new [] 0
  | push {q pushed advanced} (buf : Bytes) : Reached q pushed advanced →
      Reached (q.push buf) (pushed ++ buf) advanced
  | advance {q pushed advanced} (cnt : Nat) : cnt ≤ q.remaining →
      Reached q pushed advanced → Reached (q.advance cnt) pushed (advanced + cnt)
  | clear {q pushed advanced} : Reached q pushed advanced → Reached q.clear [] 0

variable {q} {pushed : Bytes} {advanced : Nat}

theorem Reached.bytes_eq (reached : Reached q pushed advanced) :
    q.bytes = pushed.drop advanced ∧ advanced ≤ pushed.length := by
  induction reached with
  | new => exact ⟨rfl, Nat.le_refl 0⟩
  | push buf _ ih =>
    rw [bytes_push, ih.1, drop_append_of_le_length ih.2, length_append]
    exact ⟨rfl, ih.2.trans (Nat.le_add_right _ _)⟩
  | advance cnt hw _ ih =>
    rw [remaining_eq, ih.1, length_drop] at hw
    rw [bytes_advance, ih.1, drop_drop]
    exact ⟨rfl, by omega⟩
  | clear => exact ⟨rfl, Nat.le_refl 0⟩

/-- The queue is a FIFO of bytes: what was pushed and not yet advanced past, the ring's chunks
before the spilled ones. -/
theorem reached_fifo (reached : Reached q pushed advanced) :
    (q.inline ++ q.chunks.spill).flatten = pushed.drop advanced ∧
    q.remaining = (pushed.drop advanced).length ∧
    (pushed.drop advanced ≠ [] → q.chunk ≠ [] ∧ q.chunk <+: pushed.drop advanced) ∧
    (∀ slots, q.chunksVectored slots = (q.inline ++ q.chunks.spill).take slots) ∧
    q.inline.length ≤ inlineCap ∧ ∀ first ∈ q.inline.head?, q.chunk = first := by
  rw [← reached.bytes_eq.1]
  refine ⟨rfl, q.remaining_eq, fun some_ => ?_, q.chunksVectored_eq, ?_, fun first isFirst => ?_⟩
  · rw [chunk_eq]
    cases isList : q.chunks.toList with
    | nil => exact absurd (by rw [bytes, isList, flatten_nil]) some_
    | cons first rest =>
      refine ⟨q.filled first (isList ▸ mem_cons_self), ?_⟩
      rw [bytes, isList, flatten_cons]
      exact prefix_append first rest.flatten
  · rw [inline, length_map, length_range]
    exact q.chunks.fits
  · have ring : q.chunks.toList.head? = some first := by
      rw [toList, head?_append]
      change q.inline.head?.or _ = _
      rw [isFirst, Option.some_or]
    rw [chunk_eq, ring, Option.getD_some]

theorem advanced_chunk_left : ((new.push [1, 2]).advance 1).chunk <+: [2] :=
  ((reached_fifo (.advance 1 (by decide) (.push [1, 2] .new))).2.2.1 (by decide)).2

end WriteQueue

end PgCache.Cache.Serve.Queue
