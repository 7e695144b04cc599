/- digest: Inner and outer joins of bags, and what their elements are glued from. -/
import Mathlib.Data.Multiset.Bind
import Mathlib.Data.Multiset.Filter

set_option autoImplicit false

namespace PgCache.Data.OuterJoin

variable {α : Type} (glue : α → α → α) (on : α → α → Bool)

def matchesOf (right : Multiset α) (a : α) : Multiset α :=
  right.filter fun b => on a b = true

def innerJoin (left right : Multiset α) : Multiset α :=
  left.bind fun a => (matchesOf on right a).map (glue a)

def paddedMatches (pad : α) (right : Multiset α) (a : α) : Multiset α :=
  if (matchesOf on right a).card = 0 then {glue a pad} else (matchesOf on right a).map (glue a)

def leftJoin (pad : α) (left right : Multiset α) : Multiset α :=
  left.bind (paddedMatches glue on pad right)

def rightJoin (pad : α) (left right : Multiset α) : Multiset α :=
  leftJoin (fun b a => glue a b) (fun b a => on a b) pad right left

def unmatched (left right : Multiset α) : Multiset α :=
  right.filter fun b => (matchesOf (fun b a => on a b) left b).card = 0

def fullJoin (padLeft padRight : α) (left right : Multiset α) : Multiset α :=
  leftJoin glue on padRight left right + (unmatched on left right).map (glue padLeft)

variable {glue on} {left right : Multiset α} {a c pad padLeft padRight : α}

theorem matchesOf_empty : (matchesOf on right a).card = 0 ↔ ∀ b ∈ right, on a b = false := by
  simp [matchesOf, Multiset.filter_eq_nil]

theorem mem_innerJoin : c ∈ innerJoin glue on left right ↔
      ∃ a ∈ left, ∃ b ∈ right, on a b = true ∧ glue a b = c := by
  simp [innerJoin, matchesOf, and_assoc]

theorem mem_paddedMatches : c ∈ paddedMatches glue on pad right a ↔
      (∃ b ∈ right, on a b = true ∧ glue a b = c) ∨
        (∀ b ∈ right, on a b = false) ∧ glue a pad = c := by
  unfold paddedMatches
  split <;> rename_i hf <;> rw [matchesOf_empty] at hf
  · have nothing : ¬ ∃ b ∈ right, on a b = true ∧ glue a b = c := by
      rintro ⟨b, hm, h, -⟩
      simp [hf b hm] at h
    rw [Multiset.mem_singleton, eq_comm]
    simp only [nothing, false_or, and_iff_right hf]
  · simp [matchesOf, hf, and_assoc]

theorem mem_leftJoin : c ∈ leftJoin glue on pad left right ↔
      (∃ a ∈ left, ∃ b ∈ right, on a b = true ∧ glue a b = c) ∨
        ∃ a ∈ left, (∀ b ∈ right, on a b = false) ∧ glue a pad = c := by
  simp only [leftJoin, Multiset.mem_bind, mem_paddedMatches, and_or_left, exists_or]

theorem mem_rightJoin : c ∈ rightJoin glue on pad left right ↔
      (∃ b ∈ right, ∃ a ∈ left, on a b = true ∧ glue a b = c) ∨
        ∃ b ∈ right, (∀ a ∈ left, on a b = false) ∧ glue pad b = c :=
  mem_leftJoin

theorem mem_fullJoin : c ∈ fullJoin glue on padLeft padRight left right ↔
      (∃ a ∈ left, ∃ b ∈ right, on a b = true ∧ glue a b = c) ∨
        (∃ a ∈ left, (∀ b ∈ right, on a b = false) ∧ glue a padRight = c) ∨
          ∃ b ∈ right, (∀ a ∈ left, on a b = false) ∧ glue padLeft b = c := by
  simp only [fullJoin, unmatched, matchesOf_empty, Multiset.mem_add, mem_leftJoin, or_assoc,
    Multiset.mem_map, Multiset.mem_filter, and_assoc]

end PgCache.Data.OuterJoin
