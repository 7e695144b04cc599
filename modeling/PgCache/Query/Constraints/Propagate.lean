/- source: query/constraints/extract.rs
   digest: The propagation loop ends after finitely many rounds, in a set of constraints closed
     under the recorded equivalences. -/
import PgCache.Data.Saturation
import PgCache.Query.Constraints.Extract
import Mathlib.Tactic.Ring

set_option autoImplicit false

namespace PgCache.Query.Constraints.Propagate

open Data.Saturation Resolved.Ast Extract ColumnConstraint
open List hiding keys

/-! ### Insertion into a set kept as a list -/

section Insertion

variable {α : Type} (same : α → α → Bool)

theorem subset_insertNew (xs : List α) (x : α) : xs ⊆ insertNew same xs x := by
  unfold insertNew
  split
  · exact List.Subset.refl _
  · exact subset_append_left xs [x]

theorem subset_foldl_insertNew (more xs : List α) : xs ⊆ more.foldl (insertNew same) xs := by
  induction more generalizing xs with
  | nil => exact List.Subset.refl _
  | cons x more ih => exact List.Subset.trans (subset_insertNew same xs x) (ih _)

variable {xs more : List α}

theorem mem_insertNew {x y : α} (hm : y ∈ insertNew same xs x) : y ∈ xs ∨ y = x := by
  unfold insertNew at hm
  split at hm
  · exact .inl hm
  · simpa using hm

theorem mem_foldl_insertNew {y : α} (hm : y ∈ more.foldl (insertNew same) xs) :
    y ∈ xs ∨ y ∈ more := by
  induction more generalizing xs with
  | nil => exact .inl hm
  | cons x more ih =>
    rcases ih hm with early | late
    · rcases mem_insertNew same early with old | rfl
      · exact .inl old
      · exact .inr mem_cons_self
    · exact .inr (mem_cons_of_mem x late)

variable {same}

theorem exists_same_insertNew (refl : ∀ x, same x x = true) (xs : List α) (x : α) :
    ∃ kept ∈ insertNew same xs x, same x kept = true := by
  unfold insertNew
  split
  case isTrue present =>
    obtain ⟨kept, hm, he⟩ := any_eq_true.mp present
    exact ⟨kept, hm, he⟩
  case isFalse => exact ⟨x, by simp, refl x⟩

theorem exists_same_foldl (refl : ∀ x, same x x = true) (xs : List α) {x : α} (hl : x ∈ more) :
    ∃ kept ∈ more.foldl (insertNew same) xs, same x kept = true := by
  induction more generalizing xs with
  | nil => cases hl
  | cons y more ih =>
    rw [foldl_cons]
    rcases mem_cons.mp hl with rfl | later
    · obtain ⟨kept, hm, he⟩ := exists_same_insertNew refl xs x
      exact ⟨kept, subset_foldl_insertNew same more _ hm, he⟩
    · exact ih _ later

theorem foldl_insertNew_of_length (stable : (more.foldl (insertNew same) xs).length = xs.length) :
    more.foldl (insertNew same) xs = xs := by
  suffices start : xs <+: more.foldl (insertNew same) xs from
    (start.eq_of_length stable.symm).symm
  clear stable
  induction more generalizing xs with
  | nil => exact prefix_rfl
  | cons x more ih =>
    refine List.IsPrefix.trans ?_ ih
    unfold insertNew
    split
    · exact prefix_rfl
    · exact prefix_append xs [x]

theorem card_keys_lt {κ : Type} [DecidableEq κ] {key : α → κ}
    (separates : ∀ a b, same a b = true ↔ key a = key b)
    (grown : (more.foldl (insertNew same) xs).length ≠ xs.length) :
    (keys key xs).card < (keys key (more.foldl (insertNew same) xs)).card := by
  suffices new : ∃ x ∈ more.foldl (insertNew same) xs, key x ∉ keys key xs by
    obtain ⟨x, hm, fresh⟩ := new
    refine Finset.card_lt_card (Finset.ssubset_iff_subset_ne.mpr ⟨?_, ?_⟩)
    · intro k hl
      simp only [keys, mem_toFinset, mem_map] at hl ⊢
      obtain ⟨y, old, rfl⟩ := hl
      exact ⟨y, subset_foldl_insertNew same more xs old, rfl⟩
    · intro he
      rw [he] at fresh
      exact fresh (by simpa [keys] using ⟨x, hm, rfl⟩)
  induction more generalizing xs with
  | nil => exact absurd rfl grown
  | cons x more ih =>
    by_cases hp : xs.any (same x) = true
    · have unchanged : insertNew same xs x = xs := if_pos hp
      rw [foldl_cons, unchanged] at grown ⊢
      exact ih grown
    · refine ⟨x, subset_foldl_insertNew same more _ ?_, ?_⟩
      · simp [insertNew, hp]
      · simp only [keys, mem_toFinset, mem_map, not_exists, not_and]
        intro y old he
        exact hp (any_eq_true.mpr ⟨y, old, (separates x y).mpr he.symm⟩)

end Insertion

/-! ### Constraints up to the alias of their column -/

def unaliased (constraint : ColumnConstraint) : ColumnConstraint :=
  constraint.withColumn { constraint.column with tableAlias := none }

variable (constraint : ColumnConstraint)

@[simp] theorem withColumn_withColumn (first second : ResolvedColumnNode) :
    (constraint.withColumn first).withColumn second = constraint.withColumn second := by
  cases constraint <;> rfl

@[simp] theorem column_withColumn (column : ResolvedColumnNode) :
    (constraint.withColumn column).column = column := by
  cases constraint <;> rfl

@[simp] theorem withColumn_column : constraint.withColumn constraint.column = constraint := by
  cases constraint <;> rfl

theorem withColumn_of_unaliased {a b : ColumnConstraint} (equal : unaliased a = unaliased b)
    (column : ResolvedColumnNode) : a.withColumn column = b.withColumn column := by
  have both := congrArg (withColumn column) equal
  simpa [unaliased] using both

private theorem same_column_iff (a b : ResolvedColumnNode) :
    a.same b = true ↔ { a with tableAlias := none } = { b with tableAlias := none } := by
  obtain ⟨schema, table, tableAlias, column, metadata⟩ := a
  obtain ⟨schema', table', tableAlias', column', metadata'⟩ := b
  simp [ResolvedColumnNode.same]

theorem same_iff_unaliased (a b : ColumnConstraint) :
    a.same b = true ↔ unaliased a = unaliased b := by
  simp only [same, Bool.and_eq_true, decide_eq_true_eq, same_column_iff]
  constructor
  · rintro ⟨columns, rest⟩
    rw [unaliased, unaliased, columns, ← rest]
    simp
  · intro equal
    have columns := congrArg column equal
    simp only [unaliased, column_withColumn] at columns
    exact ⟨columns, by rw [withColumn_of_unaliased equal, withColumn_column]⟩

theorem same_refl : constraint.same constraint = true :=
  (same_iff_unaliased _ _).mpr rfl

theorem across_eq {constraint copy : ColumnConstraint} {equiv : ColumnEquivalence}
    (copied : across constraint equiv = some copy) :
    ∃ o, copy = constraint.withColumn o ∧
      (constraint.column.same equiv.left = true ∧ o = equiv.right ∨
        constraint.column.same equiv.right = true ∧ o = equiv.left) := by
  unfold across at copied
  simp only at copied
  have end_of : ∀ o, (if constraint.column.same equiv.left then some equiv.right
      else if constraint.column.same equiv.right then some equiv.left else none) = some o →
      constraint.column.same equiv.left = true ∧ o = equiv.right ∨
        constraint.column.same equiv.right = true ∧ o = equiv.left := by
    intro o hf
    split at hf
    case isTrue left => exact .inl ⟨left, (Option.some.inj hf).symm⟩
    case isFalse =>
      split at hf
      case isTrue right => exact .inr ⟨right, (Option.some.inj hf).symm⟩
      case isFalse => cases hf
  split at copied
  case h_1 hf => exact ⟨_, (Option.some.inj copied).symm, end_of _ hf⟩
  case h_2 hf => exact ⟨_, (Option.some.inj copied).symm, end_of _ hf⟩
  case h_3 => cases copied

/-! ### The loop -/

section Rounds

variable (equivalences : List ColumnEquivalence)

theorem propagateLoop_eq_saturate (fuel : Nat) (constraints : List ColumnConstraint) :
    propagateLoop equivalences fuel constraints =
      saturate (propagateRound equivalences) fuel constraints := by
  induction fuel generalizing constraints with
  | zero => rfl
  | succ fuel ih => simp only [propagateLoop, saturate, ih]

theorem mem_propagateRound {constraints : List ColumnConstraint} {constraint : ColumnConstraint}
    (hm : constraint ∈ propagateRound equivalences constraints) :
    constraint ∈ constraints ∨
      ∃ equiv ∈ equivalences, ∃ old ∈ constraints, across old equiv = some constraint := by
  rcases mem_foldl_insertNew _ hm with old | new
  · exact .inl old
  · obtain ⟨equiv, hl, copied⟩ := mem_flatMap.mp new
    obtain ⟨old, hp, copy⟩ := mem_filterMap.mp copied
    exact .inr ⟨equiv, hl, old, hp, copy⟩

def ends : List ColumnEquivalence → List ResolvedColumnNode
  | [] => []
  | equiv :: equivalences => equiv.left :: equiv.right :: ends equivalences

private theorem mem_ends {c : ResolvedColumnNode} : c ∈ ends equivalences ↔
      ∃ equiv ∈ equivalences, c = equiv.left ∨ c = equiv.right := by
  induction equivalences with
  | nil => simp [ends]
  | cons equiv equivalences ih => simp [ends, ih, or_assoc]

private theorem length_ends : (ends equivalences).length = 2 * equivalences.length := by
  induction equivalences with
  | nil => rfl
  | cons equiv equivalences ih =>
    simp only [ends, length_cons, ih]
    ring

def reachable (constraints : List ColumnConstraint) : Finset ColumnConstraint :=
  (constraints.flatMap fun constraint => (constraint.column :: ends equivalences).map
    fun column => unaliased (constraint.withColumn column)).toFinset

private theorem mem_reachable {constraints : List ColumnConstraint} {key : ColumnConstraint} :
    key ∈ reachable equivalences constraints ↔ ∃ constraint ∈ constraints, ∃ c,
      (c = constraint.column ∨ ∃ equiv ∈ equivalences, c = equiv.left ∨ c = equiv.right) ∧
      unaliased (constraint.withColumn c) = key := by
  simp only [reachable, mem_toFinset, mem_flatMap, mem_map, mem_cons, mem_ends]

variable (constraints : List ColumnConstraint)

theorem card_reachable : (reachable equivalences constraints).card ≤
      constraints.length * (1 + 2 * equivalences.length) := by
  refine (toFinset_card_le _).trans (le_of_eq ?_)
  induction constraints with
  | nil => simp
  | cons constraint constraints ih =>
    rw [flatMap_cons, length_append, ih, length_map, length_cons, length_cons, length_ends]
    ring

theorem bounded_propagateRound :
    Bounded unaliased (propagateRound equivalences) (reachable equivalences constraints) where
  stays := by
    intro current inside key listed
    simp only [keys, mem_toFinset, mem_map] at listed
    obtain ⟨constraint, member, rfl⟩ := listed
    rcases mem_propagateRound equivalences member with old | ⟨equiv, known, old, present, copied⟩
    · exact inside (by simpa [keys] using ⟨constraint, old, rfl⟩)
    · have reached := inside (show unaliased old ∈ keys unaliased current by
        simpa [keys] using ⟨old, present, rfl⟩)
      obtain ⟨first, collected, column, _, equal⟩ := (mem_reachable equivalences).mp reached
      obtain ⟨other, rfl, side⟩ := across_eq copied
      refine (mem_reachable equivalences).mpr ⟨first, collected, other, .inr ⟨equiv, known, ?_⟩, ?_⟩
      · rcases side with ⟨_, rfl⟩ | ⟨_, rfl⟩ <;> simp
      · have copies := withColumn_of_unaliased equal other
        rw [withColumn_withColumn] at copies
        rw [copies]
  adds current grown := card_keys_lt same_iff_unaliased grown

def Closed (constraints : List ColumnConstraint) : Prop :=
  ∀ constraint ∈ constraints, ∀ equiv ∈ equivalences, ∀ copy,
    across constraint equiv = some copy → ∃ kept ∈ constraints, copy.same kept = true

theorem closed_of_stable {constraints : List ColumnConstraint}
    (stable : propagateRound equivalences constraints = constraints) :
    Closed equivalences constraints := by
  intro constraint hm equiv hk copy copied
  have hl : copy ∈ equivalences.flatMap fun equiv =>
      constraints.filterMap (across · equiv) :=
    mem_flatMap.mpr ⟨equiv, hk, mem_filterMap.mpr ⟨constraint, hm, copied⟩⟩
  have kept := exists_same_foldl same_refl constraints hl
  rwa [show (equivalences.flatMap fun equiv => constraints.filterMap (across · equiv)).foldl
    (insertNew same) constraints = constraints from stable] at kept

theorem propagateConstraints_stable : (∃ rounds, propagateConstraints equivalences constraints =
      (propagateRound equivalences)^[rounds] constraints) ∧
    propagateRound equivalences (propagateConstraints equivalences constraints) =
      propagateConstraints equivalences constraints := by
  unfold propagateConstraints
  rw [propagateLoop_eq_saturate]
  constructor
  · obtain ⟨rounds, _, same⟩ := exists_iterate_saturate (propagateRound equivalences)
      (constraints.length * (constraints.length + 2 * equivalences.length)) constraints
    exact ⟨rounds, same⟩
  · cases constraints with
    | nil =>
      have nothing : (equivalences.flatMap fun equiv =>
          ([] : List ColumnConstraint).filterMap (across · equiv)) = [] :=
        flatMap_eq_nil_iff.mpr fun _ _ => rfl
      rw [length_nil, Nat.zero_mul, saturate, propagateRound, nothing, foldl_nil]
    | cons first rest =>
      refine foldl_insertNew_of_length (saturate_stable
        (bounded_propagateRound equivalences (first :: rest)) _ _ ?_ ?_)
      · intro key hl
        simp only [keys, mem_toFinset, mem_map] at hl
        obtain ⟨constraint, hm, rfl⟩ := hl
        exact (mem_reachable equivalences).mpr
          ⟨constraint, hm, constraint.column, .inl rfl, by rw [withColumn_column]⟩
      · have few := card_reachable equivalences (first :: rest)
        have some_ : 0 < (keys unaliased (first :: rest)).card :=
          Finset.card_pos.mpr ⟨unaliased first, by simp [keys]⟩
        have least : (first :: rest).length * (1 + 2 * equivalences.length) ≤
            (first :: rest).length * ((first :: rest).length + 2 * equivalences.length) :=
          Nat.mul_le_mul_left _ (by simp [length_cons])
        omega

theorem subset_propagateConstraints :
    constraints ⊆ propagateConstraints equivalences constraints := by
  unfold propagateConstraints
  rw [propagateLoop_eq_saturate]
  exact saturate_induction (fun current => constraints ⊆ current)
    (fun _ hw => List.Subset.trans hw (subset_foldl_insertNew _ _ _)) _ _ (List.Subset.refl _)

omit equivalences constraints in
theorem across_of_same {a b : ColumnConstraint} (hak : a.same b = true)
    (equiv : ColumnEquivalence) : across a equiv = across b equiv := by
  obtain ⟨columns, rest⟩ := Bool.and_eq_true_iff.mp hak
  have ends : ∀ c, a.column.same c = b.column.same c := fun c => by
    rw [Bool.eq_iff_iff, same_column_iff, same_column_iff, (same_column_iff _ _).mp columns]
  rw [← of_decide_eq_true rest]
  simp only [across, column_withColumn, ends]
  generalize (if b.column.same equiv.left = true then _ else _) = other
  cases other <;> cases a <;> rfl

/-- The propagated constraints are the least set that holds the collected ones and is closed. -/
theorem propagateConstraints_least :
    constraints ⊆ propagateConstraints equivalences constraints ∧
    Closed equivalences (propagateConstraints equivalences constraints) ∧
    ∀ bound : List ColumnConstraint, Closed equivalences bound →
      (∀ constraint ∈ constraints, ∃ kept ∈ bound, constraint.same kept = true) →
      ∀ constraint ∈ propagateConstraints equivalences constraints,
        ∃ kept ∈ bound, constraint.same kept = true := by
  refine ⟨subset_propagateConstraints _ _,
    closed_of_stable _ (propagateConstraints_stable equivalences constraints).2, ?_⟩
  intro bound closed collected
  unfold propagateConstraints
  rw [propagateLoop_eq_saturate]
  refine saturate_induction (fun current => ∀ c ∈ current, ∃ kept ∈ bound, same c kept = true)
    ?_ _ _ collected
  intro current within c hm
  obtain old | ⟨equiv, hk, old, hp, copied⟩ := mem_propagateRound equivalences hm
  · exact within c old
  · obtain ⟨kept, hb, alike⟩ := within old hp
    rw [across_of_same alike] at copied
    exact closed kept hb equiv hk c copied

end Rounds

end PgCache.Query.Constraints.Propagate
