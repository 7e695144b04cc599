/- digest: Kleene's three truth values, `none` for unknown. -/
import Mathlib.Data.Multiset.Filter

set_option autoImplicit false

namespace PgCache.Data.Kleene

abbrev Truth := Option Bool

def not3 : Truth → Truth :=
  Option.map Bool.not

def and3 : Truth → Truth → Truth
  | some false, _ => some false
  | _, some false => some false
  | some true, some true => some true
  | _, _ => none

def or3 : Truth → Truth → Truth
  | some true, _ => some true
  | _, some true => some true
  | some false, some false => some false
  | _, _ => none

@[simp] theorem and3_eq_true {a b : Truth} :
    and3 a b = some true ↔ a = some true ∧ b = some true := by
  rcases a with _ | _ | _ <;> rcases b with _ | _ | _ <;> simp [and3]

@[simp] theorem or3_eq_true {a b : Truth} :
    or3 a b = some true ↔ a = some true ∨ b = some true := by
  rcases a with _ | _ | _ <;> rcases b with _ | _ | _ <;> simp [or3]

@[simp] theorem not3_eq_true {a : Truth} : not3 a = some true ↔ a = some false := by
  rcases a with _ | _ | _ <;> simp [not3]

def any3 (truths : Multiset Truth) : Truth :=
  if some true ∈ truths then some true else if none ∈ truths then none else some false

@[simp] theorem any3_eq_true {truths : Multiset Truth} :
    any3 truths = some true ↔ some true ∈ truths := by
  unfold any3
  split <;> rename_i h
  · simp [h]
  · split <;> simp [h]

@[simp] theorem any3_eq_false {truths : Multiset Truth} :
    any3 truths = some false ↔ ∀ truth ∈ truths, truth = some false := by
  unfold any3
  constructor
  · intro he truth hm
    split at he
    · cases he
    · split at he
      · cases he
      · rcases truth with _ | _ | _
        · contradiction
        · rfl
        · contradiction
  · intro all
    have noTrue : some true ∉ truths := fun hm => by simpa using all _ hm
    have noUnknown : none ∉ truths := fun hm => by simpa using all _ hm
    rw [if_neg noTrue, if_neg noUnknown]

end PgCache.Data.Kleene
