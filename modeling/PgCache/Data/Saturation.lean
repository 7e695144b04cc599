/- digest: Rounds that extend a list until one adds nothing: what a whole run keeps, and that
     it ends in a stable list when the elements come from a finite universe. -/
import Mathlib.Data.Finset.Card
import Mathlib.Logic.Function.Iterate

set_option autoImplicit false

namespace PgCache.Data.Saturation

variable {α κ : Type}

/-- Rounds until one leaves the length as it was. -/
def saturate (round : List α → List α) : Nat → List α → List α
  | 0, xs => xs
  | fuel + 1, xs =>
    let next := round xs
    if next.length = xs.length then xs else saturate round fuel next

theorem saturate_induction {round : List α → List α} (inv : List α → Prop)
    (step : ∀ xs, inv xs → inv (round xs)) (fuel : Nat) (xs : List α) (start : inv xs) :
    inv (saturate round fuel xs) := by
  induction fuel generalizing xs with
  | zero => exact start
  | succ fuel ih =>
    simp only [saturate]
    split
    · exact start
    · exact ih _ (step xs start)

theorem exists_iterate_saturate (round : List α → List α) (fuel : Nat) (xs : List α) :
    ∃ rounds ≤ fuel, saturate round fuel xs = round^[rounds] xs := by
  induction fuel generalizing xs with
  | zero => exact ⟨0, le_rfl, rfl⟩
  | succ fuel ih =>
    simp only [saturate]
    split
    · exact ⟨0, by omega, rfl⟩
    · obtain ⟨rounds, few, same⟩ := ih (round xs)
      exact ⟨rounds + 1, by omega, same⟩

section Bounded

variable [DecidableEq κ] (key : α → κ)

def keys (xs : List α) : Finset κ :=
  (xs.map key).toFinset

structure Bounded (round : List α → List α) (bound : Finset κ) : Prop where
  stays : ∀ xs, keys key xs ⊆ bound → keys key (round xs) ⊆ bound
  adds : ∀ xs, (round xs).length ≠ xs.length → (keys key xs).card < (keys key (round xs)).card

variable {key} {round : List α → List α} {bound : Finset κ}

theorem saturate_stable (bounded : Bounded key round bound) (fuel : Nat) (xs : List α)
    (hm : keys key xs ⊆ bound) (enough : bound.card < fuel + (keys key xs).card) :
    (round (saturate round fuel xs)).length = (saturate round fuel xs).length := by
  induction fuel generalizing xs with
  | zero =>
    have few := Finset.card_le_card hm
    omega
  | succ fuel ih =>
    simp only [saturate]
    split
    case isTrue stable => exact stable
    case isFalse grown =>
      have more := bounded.adds xs grown
      exact ih _ (bounded.stays xs hm) (by omega)

end Bounded

end PgCache.Data.Saturation
