/- digest: A queue kept in a ring of fixed capacity, with a list for what does not fit. -/
import Mathlib.Data.List.Range
import Mathlib.Data.Nat.ModEq
import Mathlib.Logic.Function.Basic

set_option autoImplicit false

namespace PgCache.Data.RingQueue

/-- `len` elements from position `head` of the ring on, and then `spill`. Only the positions below
`capacity` of `ring` are used. -/
structure SpillQueue (α : Type) (capacity : Nat) where
  ring : Nat → α
  head : Nat
  len : Nat
  spill : List α
  fits : len ≤ capacity

variable {α : Type} {capacity : Nat}

namespace SpillQueue

open List
open Function

variable (q : SpillQueue α capacity)

def slot (i : Nat) : α :=
  q.ring ((q.head + i) % capacity)

def toList : List α :=
  (range q.len).map q.slot ++ q.spill

def empty (blank : α) : SpillQueue α capacity := ⟨fun _ => blank, 0, 0, [], Nat.zero_le _⟩

def push (a : α) : SpillQueue α capacity :=
  if room : q.spill = [] ∧ q.len < capacity then
    { q with
      ring := update q.ring ((q.head + q.len) % capacity) a
      len := q.len + 1
      fits := room.2 }
  else { q with spill := q.spill ++ [a] }

def front : Option α :=
  if 0 < q.len then some (q.slot 0) else q.spill.head?

def setFront (a : α) : SpillQueue α capacity :=
  if 0 < q.len then
    { q with ring := update q.ring (q.head % capacity) a }
  else { q with spill := q.spill.tail.cons a }

def popFront (blank : α) : SpillQueue α capacity :=
  if 0 < q.len then
    { q with
      ring := update q.ring (q.head % capacity) blank
      head := (q.head + 1) % capacity
      len := q.len - 1
      fits := (Nat.sub_le _ _).trans q.fits }
  else { q with spill := q.spill.tail }

def isEmpty : Bool :=
  q.len = 0 && q.spill.isEmpty

private theorem place_ne {head i j : Nat} (hb : i < j) (close : j < capacity) :
    (head + i) % capacity ≠ (head + j) % capacity := by
  intro same
  have congruent : i ≡ j [MOD capacity] := Nat.ModEq.add_left_cancel' head same
  have he : i = j := congruent.eq_of_lt_of_lt (hb.trans close) close
  omega

@[simp] theorem toList_empty (blank : α) : (empty blank : SpillQueue α capacity).toList = [] := rfl

variable (q : SpillQueue α capacity)

@[simp] theorem toList_push (a : α) : (q.push a).toList = q.toList ++ [a] := by
  unfold push
  split
  · next room =>
    have older : (range q.len).map (fun i => update q.ring ((q.head + q.len) % capacity) a
          ((q.head + i) % capacity)) = (range q.len).map q.slot :=
      map_congr_left fun i hw =>
        update_of_ne (place_ne (mem_range.mp hw) room.2) _ _
    have newest : update q.ring ((q.head + q.len) % capacity) a
        ((q.head + q.len) % capacity) = a := update_self ..
    change (range (q.len + 1)).map (fun i =>
      update q.ring ((q.head + q.len) % capacity) a
        ((q.head + i) % capacity)) ++ q.spill = q.toList ++ [a]
    rw [range_succ, map_append, older, map_singleton, newest, toList, room.1,
      append_nil, append_nil]
  · exact (append_assoc _ _ _).symm

private theorem toList_ring (some_ : 0 < q.len) : q.toList = q.slot 0 ::
      ((range (q.len - 1)).map fun i => q.slot (i + 1)) ++ q.spill := by
  obtain ⟨len, isLen⟩ : ∃ len, q.len = len + 1 := ⟨q.len - 1, by omega⟩
  unfold toList
  rw [isLen, range_succ_eq_map, Nat.add_sub_cancel, map_cons, map_map]
  rfl

private theorem toList_spill (none : ¬ 0 < q.len) : q.toList = q.spill := by
  unfold toList
  rw [Nat.eq_zero_of_not_pos none]
  rfl

theorem front_eq : q.front = q.toList.head? := by
  unfold front
  split
  · next some_ =>
    rw [toList_ring q some_]
    rfl
  · next none => rw [toList_spill q none]

private theorem place_tail {q : SpillQueue α capacity} {i : Nat} (hw : i < q.len - 1) :
    (q.head + (i + 1)) % capacity ≠ q.head % capacity := by
  have fits := q.fits
  have apart : (q.head + 0) % capacity ≠ (q.head + (i + 1)) % capacity :=
    place_ne (Nat.succ_pos i) (by omega)
  exact fun same => apart same.symm

theorem toList_setFront {q : SpillQueue α capacity} {first : α} {rest : List α}
    (isList : q.toList = first :: rest) (a : α) : (q.setFront a).toList = a :: rest := by
  unfold setFront
  split
  · next some_ =>
    rw [toList_ring q some_] at isList
    have later := (cons.inj isList).2
    rw [← later]
    refine Eq.trans (toList_ring _ ?_) ?_
    · exact some_
    have first : update q.ring (q.head % capacity) a ((q.head + 0) % capacity) = a := update_self ..
    have os : (range (q.len - 1)).map (fun i =>
        update q.ring (q.head % capacity) a ((q.head + (i + 1)) % capacity)) =
        (range (q.len - 1)).map fun i => q.slot (i + 1) :=
      map_congr_left fun i hw =>
        update_of_ne (place_tail (mem_range.mp hw)) _ _
    unfold slot
    simp only [first, os]
    rfl
  · next none =>
    rw [toList_spill q none] at isList
    refine Eq.trans (toList_spill _ ?_) ?_
    · exact none
    · rw [isList, tail_cons]

theorem toList_popFront (blank : α) : (q.popFront blank).toList = q.toList.tail := by
  unfold popFront
  split
  · next some_ =>
    have os : (range (q.len - 1)).map (fun i =>
        update q.ring (q.head % capacity) blank (((q.head + 1) % capacity + i) % capacity)) =
        (range (q.len - 1)).map fun i => q.slot (i + 1) := by
      refine map_congr_left fun i hw => ?_
      have place : ((q.head + 1) % capacity + i) % capacity = (q.head + (i + 1)) % capacity := by
        rw [Nat.mod_add_mod]
        congr 1
        omega
      rw [place]
      exact update_of_ne (place_tail (mem_range.mp hw)) _ _
    rw [toList_ring q some_]
    unfold toList slot
    simp only [os]
    rfl
  · next none =>
    rw [toList_spill q none]
    exact toList_spill _ none

end SpillQueue

end PgCache.Data.RingQueue
