/- digest: Invariant rules for loops over a list, with and without an early return. -/
import Mathlib.Data.List.Basic

set_option autoImplicit false

namespace PgCache.Data.Loop

variable {σ ε α : Type}

def Outcome (next : σ → Prop) (early : ε → Prop) : Except ε σ → Prop
  | .ok state => next state
  | .error value => early value

theorem foldlM_outcome_read (body : σ → α → Except ε σ) (inv : List α → σ → Prop)
    (early : ε → Prop) (xs : List α)
    (step : ∀ read state, inv read state → ∀ x ∈ xs,
      Outcome (inv (read ++ [x])) early (body state x))
    (state : σ) (start : inv [] state) : Outcome (inv xs) early (xs.foldlM body state) := by
  suffices rest : ∀ read state, inv read state →
      Outcome (inv (read ++ xs)) early (xs.foldlM body state) from rest [] state start
  clear start
  induction xs with
  | nil =>
    intro read state h
    rw [List.append_nil]
    exact h
  | cons x xs ih =>
    intro read state h
    have first := step read state h x List.mem_cons_self
    rw [List.foldlM_cons]
    cases result : body state x with
    | error v =>
      rw [result] at first
      exact first
    | ok next =>
      rw [result] at first
      have later := ih (fun read state h y hm =>
          step read state h y (List.mem_cons_of_mem x hm)) (read ++ [x]) next first
      rw [List.append_assoc] at later
      exact later

theorem mapM_eq_some_iff {β : Type} {f : α → Option β} {xs : List α} {ys : List β} :
    xs.mapM f = some ys ↔ xs.map f = ys.map some := by
  induction xs generalizing ys with
  | nil => cases ys <;> simp
  | cons x xs ih =>
    rw [List.mapM_cons, List.map_cons]
    constructor
    · intro mapped
      obtain ⟨y, first, os⟩ := Option.bind_eq_some_iff.mp mapped
      obtain ⟨rest, later, he⟩ := Option.bind_eq_some_iff.mp os
      cases he
      rw [List.map_cons, first, ih.mp later]
    · intro mapped
      obtain ⟨y, rest, rfl, first, later⟩ := List.map_eq_cons_iff.mp mapped.symm
      rw [← first, ih.mpr later.symm]
      rfl

end PgCache.Data.Loop
