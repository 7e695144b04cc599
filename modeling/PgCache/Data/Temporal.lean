/- digest: What must happen along an endless run: leads-to, from fairness and from a rank. -/
import Mathlib.Data.Nat.Init
import Mathlib.Order.Nat

set_option autoImplicit false

namespace PgCache.Data.Temporal

def LeadsTo (p q : Nat → Prop) : Prop :=
  ∀ n, p n → ∃ m, n ≤ m ∧ q m

variable {p q r : Nat → Prop}

theorem LeadsTo.of_imp (implies : ∀ n, p n → q n) : LeadsTo p q :=
  fun n h => ⟨n, le_rfl, implies n h⟩

theorem LeadsTo.trans (first : LeadsTo p q) (snd : LeadsTo q r) : LeadsTo p r := by
  intro n h
  obtain ⟨m, later, middle⟩ := first n h
  obtain ⟨k, hlt, last⟩ := snd m middle
  exact ⟨k, later.trans hlt, last⟩

theorem LeadsTo.weaken (leads : LeadsTo p q) (implies : ∀ n, q n → r n) : LeadsTo p r :=
  leads.trans (.of_imp implies)

/-- `p` stays until `q`, and an action that establishes `q` cannot be put off for ever while
`p` stays. -/
theorem LeadsTo.ensures {a : Nat → Prop} (stays : ∀ n, p n → p (n + 1) ∨ q (n + 1))
    (fair : ∀ n, ∃ m, n ≤ m ∧ (¬p m ∨ a m)) (effect : ∀ n, p n → a n → q (n + 1)) :
    LeadsTo p q := by
  intro n h
  by_contra never
  have ha : ∀ m, n ≤ m → ¬q m := fun m later hf => never ⟨m, later, hf⟩
  have persists : ∀ m, n ≤ m → p m := by
    intro m later
    induction m, later using Nat.le_induction with
    | base => exact h
    | succ m later ih => exact (stays m ih).resolve_right (ha (m + 1) (by omega))
  obtain ⟨m, later, gone | action⟩ := fair n
  · exact gone (persists m later)
  · exact ha (m + 1) (by omega) (effect m (persists m later) action)

theorem LeadsTo.meets (stays : ∀ n, p n → p (n + 1) ∨ q (n + 1))
    (often : ∀ n, ∃ m, n ≤ m ∧ r m) : LeadsTo p fun n => q n ∨ p n ∧ r n := by
  intro n h
  obtain ⟨m, later, again⟩ := often n
  have until_ : ∀ k, n ≤ k → (∃ l, n ≤ l ∧ q l) ∨ p k := by
    intro k later
    induction k, later using Nat.le_induction with
    | base => exact .inr h
    | succ k later ih =>
      rcases ih with hf | still
      · exact .inl hf
      · exact (stays k still).symm.imp (fun hf => ⟨k + 1, by omega, hf⟩) id
  rcases until_ m later with ⟨l, after, hf⟩ | still
  · exact ⟨l, after, .inl hf⟩
  · exact ⟨m, later, .inr ⟨still, again⟩⟩

theorem LeadsTo.finish (first : LeadsTo p fun n => q n ∨ r n) (snd : LeadsTo r q) :
    LeadsTo p q := by
  refine first.trans fun n reached => ?_
  rcases reached with hf | middle
  · exact ⟨n, le_rfl, hf⟩
  · exact snd n middle

theorem LeadsTo.of_rank (rank : Nat → Nat)
    (lower : ∀ k, LeadsTo (fun n => p n ∧ rank n = k) fun n => q n ∨ p n ∧ rank n < k) :
    LeadsTo p q := by
  have all : ∀ k n, p n → rank n = k → ∃ m, n ≤ m ∧ q m := by
    intro k
    induction k using Nat.strong_induction_on with
    | _ k ih =>
      intro n h same
      obtain ⟨m, later, hf | ⟨still, less⟩⟩ := lower k n ⟨h, same⟩
      · exact ⟨m, later, hf⟩
      · obtain ⟨l, hlt, hf⟩ := ih (rank m) less m still rfl
        exact ⟨l, later.trans hlt, hf⟩
  exact fun n h => all (rank n) n h rfl

end PgCache.Data.Temporal
