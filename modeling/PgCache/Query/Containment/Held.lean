/- source: query/constraint_index/column_index.rs, query/constraint_index/value_key.rs
   digest: What the index of one column holds, slot by slot: how insertion and removal change
     it, and which slots each probe reads. -/
import PgCache.Query.Containment
import PgCache.Data.Rounding

set_option autoImplicit false

namespace PgCache.Query.Containment.Held

open Data.Keyed (KeyedMap modify retain mem_entries_iff lookup_modify lookup_retain)
open Data.Rounding Literal Constraints.Range Containment ColumnIndex
open List hiding all

section Keys

theorem i64AsF64_eq (i : Int64) :
    i64AsF64 i = .fin (if i.toInt < 0 then -(roundNearest 52 i.toInt.natAbs : ℚ)
      else roundNearest 52 i.toInt.natAbs) := rfl

theorem i64AsF64_mono {i j : Int64} (below : i.toInt ≤ j.toInt) :
    (i64AsF64 i).cmp (i64AsF64 j) ≠ .gt := by
  rw [i64AsF64_eq, i64AsF64_eq]
  suffices ho : (if i.toInt < 0 then -(roundNearest 52 i.toInt.natAbs : ℚ)
      else roundNearest 52 i.toInt.natAbs) ≤
      (if j.toInt < 0 then -(roundNearest 52 j.toInt.natAbs : ℚ)
      else roundNearest 52 j.toInt.natAbs) by
    rw [F64.cmp, ne_eq, compare_gt_iff_gt, not_lt]
    exact ho
  have nonneg : ∀ n : Nat, (0 : ℚ) ≤ roundNearest 52 n := fun n => Nat.cast_nonneg _
  have mono : ∀ m n : Nat, m ≤ n → (roundNearest 52 m : ℚ) ≤ roundNearest 52 n :=
    fun m n less => by exact_mod_cast roundNearest_mono less
  by_cases left : i.toInt < 0
  · rw [if_pos left]
    by_cases right : j.toInt < 0
    · rw [if_pos right]
      exact neg_le_neg (mono _ _ (by omega))
    · rw [if_neg right]
      exact (neg_nonpos.mpr (nonneg _)).trans (nonneg _)
  · rw [if_neg left, if_neg (by omega)]
    exact mono _ _ (by omega)

theorem keys_of_order {a b : LiteralValue} {ord : Ordering}
    (hd : literalValueOrder a b = some ord) :
    ∃ keyA keyB, ValueKey.tryNew a = some keyA ∧ ValueKey.tryNew b = some keyB ∧
      (ord ≠ .gt → keyA.le keyB = true) ∧ (ord ≠ .lt → keyB.le keyA = true) := by
  match a, b, hd with
  | .integer a, .integer b, hd =>
    cases hd
    refine ⟨_, _, rfl, rfl, fun notGreater => ?_, fun notLess => ?_⟩
    · have below : a.toInt ≤ b.toInt := by
        rw [ne_eq, compare_gt_iff_gt] at notGreater
        omega
      exact decide_eq_true (i64AsF64_mono below)
    · have below : b.toInt ≤ a.toInt := by
        rw [ne_eq, compare_lt_iff_lt] at notLess
        omega
      exact decide_eq_true (i64AsF64_mono below)
  | .float a, .float b, hd =>
    cases hd
    refine ⟨_, _, rfl, rfl, fun notGreater => decide_eq_true notGreater, fun notLess => ?_⟩
    apply decide_eq_true
    intro greater
    have swapped := F64.cmp_swap b a
    rw [show b.cmp a = .gt from greater] at swapped
    exact notLess swapped.symm

end Keys

section Postings

variable {κ L : Type} [DecidableEq κ]

def Posted (postings : Postings κ L) (key : κ) (entry : L) : Prop :=
  entry ∈ (postings.lookup key).getD []

variable (postings : Postings κ L)

theorem posted_iff (key : κ) (entry : L) :
    Posted postings key entry ↔ ∃ entries, postings.lookup key =
      some entries ∧ entry ∈ entries := by
  unfold Posted
  cases postings.lookup key <;> simp

theorem not_posted_empty (key : κ) (entry : L) : ¬ Posted (∅ : Postings κ L) key entry := by
  simp [Posted]

theorem posted_push (key key' : κ) (entry entry' : L) :
    Posted (modify key [] (· ++ [entry]) postings) key' entry' ↔
      Posted postings key' entry' ∨ (key' = key ∧ entry' = entry) := by
  unfold Posted
  rw [lookup_modify]
  split
  · rename_i same
    subst same
    simp
  · rename_i hne
    simp [hne]

theorem posted_remove (key key' : κ) (drop : L → Bool) (entry : L) :
    Posted (postingsRemove key drop postings) key' entry ↔
      Posted postings key' entry ∧ ¬ (key' = key ∧ drop entry = true) := by
  rw [posted_iff, posted_iff]
  constructor
  · rintro ⟨entries, found, inside⟩
    obtain ⟨old, foundOld, kept⟩ := (lookup_retain _ _ _ _).mp found
    split at kept
    · rename_i same
      have filtered : old.filter (fun entry => !drop entry) = entries := by
        split at kept
        · cases kept
        · exact Option.some_inj.mp kept
      rw [← filtered, mem_filter] at inside
      exact ⟨⟨old, foundOld, inside.1⟩, fun ⟨_, dropped⟩ => by simp [dropped] at inside⟩
    · rename_i different
      obtain rfl := Option.some_inj.mp kept
      exact ⟨⟨old, foundOld, inside⟩, fun ⟨same, _⟩ => different same⟩
  · rintro ⟨⟨old, found, inside⟩, stays⟩
    by_cases same : key' = key
    · have kept : entry ∈ old.filter (fun entry => !drop entry) := by
        rw [mem_filter]
        exact ⟨inside, by simpa using fun dropped => stays ⟨same, dropped⟩⟩
      refine ⟨old.filter (fun entry => !drop entry), ?_, kept⟩
      refine (lookup_retain _ _ _ _).mpr ⟨old, found, ?_⟩
      rw [if_pos same]
      cases filtered : old.filter (fun entry => !drop entry) with
      | nil => simp [filtered] at kept
      | cons first rest => rfl
    · exact ⟨old, (lookup_retain _ _ _ _).mpr ⟨old, found, by rw [if_neg same]⟩, inside⟩

theorem mem_postingsWhere (test : κ → Bool) (postings : Postings κ L) (entry : L) :
    entry ∈ postingsWhere test postings ↔ ∃ key, test key = true ∧ Posted postings key entry := by
  simp only [postingsWhere, mem_flatMap, mem_filter, posted_iff, ← mem_entries_iff]
  constructor
  · rintro ⟨⟨key, entries⟩, ⟨inside, passes⟩, member⟩
    exact ⟨key, passes, entries, inside, member⟩
  · rintro ⟨key, passes, entries, inside, member⟩
    exact ⟨⟨key, entries⟩, ⟨inside, passes⟩, member⟩

end Postings

/-- Where the index of a column may hold an entry. -/
inductive Slot where
  | eq (key : ValueKey)
  | inset (key : ValueKey)
  | lower (key : ValueKey)
  | upper (key : ValueKey)
  | both (lower upper : ValueKey)
  | unplaced

def slotsOf : Placement → List Slot
  | .eq key => [.eq key]
  | .inSet keys => keys.map .inset
  | .rangeLower key => [.lower key]
  | .rangeUpper key => [.upper key]
  | .rangeBoth lower upper => [.both lower upper]
  | .unplaced => [.unplaced]

variable {K : Type} [DecidableEq K]

def Holds (index : ColumnIndex K) (fp : K) : Slot → Prop
  | .eq key => Posted index.eq key fp
  | .inset key => Posted index.inset key fp
  | .lower key => Posted index.rangeLower key fp
  | .upper key => Posted index.rangeUpper key fp
  | .both lower upper => Posted index.rangeBoth lower (upper, fp)
  | .unplaced => fp ∈ index.unplaced

omit [DecidableEq K] in
theorem not_holds_empty (fp : K) (slot : Slot) : ¬ Holds empty fp slot := by
  cases slot with
  | unplaced => simp [Holds, empty]
  | _ => exact not_posted_empty _ _

omit [DecidableEq K] in
private theorem posted_pushAll (keys : List ValueKey) (postings : Postings ValueKey K)
    (key : ValueKey) (fp o : K) :
    Posted (keys.foldl (fun inset key => modify key [] (· ++ [fp]) inset) postings) key o ↔
      Posted postings key o ∨ (o = fp ∧ key ∈ keys) := by
  induction keys generalizing postings with
  | nil => simp
  | cons first keys ih =>
    rw [foldl_cons, ih, posted_push, mem_cons]
    tauto

private theorem posted_removeAll (keys : List ValueKey) (postings : Postings ValueKey K)
    (key : ValueKey) (fp o : K) :
    Posted (keys.foldl (fun inset key => postingsRemove key (· = fp) inset) postings) key o ↔
      Posted postings key o ∧ ¬ (o = fp ∧ key ∈ keys) := by
  induction keys generalizing postings with
  | nil => simp
  | cons first keys ih =>
    rw [foldl_cons, ih, posted_remove, mem_cons, decide_eq_true_iff]
    tauto

omit [DecidableEq K] in
theorem holds_insert (index : ColumnIndex K) (fp o : K) (range : ColumnRange) (slot : Slot) :
    Holds (index.insert fp range) o slot ↔
      Holds index o slot ∨ (o = fp ∧ slot ∈ slotsOf (placement range)) := by
  unfold ColumnIndex.insert
  cases placement range <;> cases slot <;>
    simp [Holds, slotsOf, posted_push, posted_pushAll] <;> tauto

theorem holds_remove_other {index : ColumnIndex K} {fp o : K} (hne : o ≠ fp)
    (range : ColumnRange) (slot : Slot) :
    Holds (index.remove fp range) o slot ↔ Holds index o slot := by
  unfold remove
  cases placement range <;> cases slot <;> simp [Holds, posted_remove, posted_removeAll, hne]

theorem not_holds_remove {index : ColumnIndex K} {fp : K} {range : ColumnRange}
    (only : ∀ slot, Holds index fp slot → slot ∈ slotsOf (placement range)) (slot : Slot) :
    ¬ Holds (index.remove fp range) fp slot := by
  revert only
  unfold remove
  intro only held
  have hb : Holds index fp slot := by
    revert held
    cases placement range <;> cases slot <;>
      simp +contextual [Holds, posted_remove, posted_removeAll]
  have placed := only slot hb
  revert held placed
  cases placement range <;> cases slot <;>
    simp +contextual [Holds, slotsOf, posted_remove, posted_removeAll]

section Probes

variable (index : ColumnIndex K)

omit [DecidableEq K] in
theorem exists_held_iff (fp : K) (test : Slot → Prop) : (∃ slot, test slot ∧ Holds index fp slot) ↔
      (∃ key, test (.eq key) ∧ Posted index.eq key fp) ∨
      (∃ key, test (.inset key) ∧ Posted index.inset key fp) ∨
      (∃ key, test (.lower key) ∧ Posted index.rangeLower key fp) ∨
      (∃ key, test (.upper key) ∧ Posted index.rangeUpper key fp) ∨
      (∃ lower upper, test (.both lower upper) ∧ Posted index.rangeBoth lower (upper, fp)) ∨
      (test .unplaced ∧ fp ∈ index.unplaced) := by
  constructor
  · rintro ⟨slot, passes, held⟩
    cases slot with
    | eq key => exact .inl ⟨key, passes, held⟩
    | inset key => exact .inr (.inl ⟨key, passes, held⟩)
    | lower key => exact .inr (.inr (.inl ⟨key, passes, held⟩))
    | upper key => exact .inr (.inr (.inr (.inl ⟨key, passes, held⟩)))
    | both lower upper => exact .inr (.inr (.inr (.inr (.inl ⟨lower, upper, passes, held⟩))))
    | unplaced => exact .inr (.inr (.inr (.inr (.inr ⟨passes, held⟩))))
  · rintro (⟨key, passes, held⟩ | ⟨key, passes, held⟩ | ⟨key, passes, held⟩ | ⟨key, passes, held⟩ |
      ⟨lower, upper, passes, held⟩ | ⟨passes, held⟩)
    · exact ⟨.eq key, passes, held⟩
    · exact ⟨.inset key, passes, held⟩
    · exact ⟨.lower key, passes, held⟩
    · exact ⟨.upper key, passes, held⟩
    · exact ⟨.both lower upper, passes, held⟩
    · exact ⟨.unplaced, passes, held⟩

omit [DecidableEq K] in
private theorem mem_map_snd (fp : K) (entries : List (ValueKey × K)) :
    fp ∈ entries.map Prod.snd ↔ ∃ upper, (upper, fp) ∈ entries := by
  simp

omit [DecidableEq K] in
theorem mem_all (fp : K) : fp ∈ index.all ↔ ∃ slot, slot ≠ .unplaced ∧ Holds index fp slot := by
  rw [exists_held_iff]
  simp only [all, mem_append, mem_map_snd, mem_postingsWhere, true_and, ne_eq,
    reduceCtorEq, not_false_eq_true, not_true_eq_false, false_and, or_false, or_assoc]
  rw [exists_comm]

omit [DecidableEq K] in
theorem mem_twoSided (low high : ValueKey) (fp : K) : fp ∈ index.twoSided low high ↔
      ∃ lower upper, (lower.le low = true ∧ high.le upper = true) ∧
        Posted index.rangeBoth lower (upper, fp) := by
  simp only [twoSided, mem_map_snd, mem_filter, mem_postingsWhere]
  constructor
  · rintro ⟨upper, ⟨lower, below, held⟩, above⟩
    exact ⟨lower, upper, ⟨below, above⟩, held⟩
  · rintro ⟨lower, upper, ⟨below, above⟩, held⟩
    exact ⟨upper, ⟨lower, below, held⟩, above⟩

def Slot.meets (key : ValueKey) : Slot → Bool
  | .eq key' | .inset key' => key' = key
  | .lower bound => bound.le key
  | .upper bound => key.le bound
  | .both low high => low.le key && key.le high
  | .unplaced => true

theorem mem_containing_point {value : LiteralValue} {key : ValueKey}
    (keyed : ValueKey.tryNew value = some key) (index : ColumnIndex K) (fp : K) :
    fp ∈ index.containing (.equal value) ↔
      ∃ slot, Slot.meets key slot = true ∧ Holds index fp slot := by
  rw [exists_held_iff]
  simp only [containing, lowerCovering, upperCovering,
    twoSidedLit, keyed, mem_append, mem_postingsWhere, mem_twoSided, Slot.meets,
    decide_eq_true_eq, exists_eq_left, Bool.and_eq_true, true_and, Posted]
  rw [or_comm]
  simp only [or_assoc]

theorem mem_containing_unknown (fp : K) :
    fp ∈ index.containing .unknown ↔ ∃ slot, Holds index fp slot := by
  rw [containing, mem_append, mem_all]
  constructor
  · rintro (held | ⟨slot, -, held⟩)
    · exact ⟨.unplaced, held⟩
    · exact ⟨slot, held⟩
  · rintro ⟨slot, held⟩
    by_cases unplaced : slot = .unplaced
    · subst unplaced
      exact .inl held
    · exact .inr ⟨slot, unplaced, held⟩

end Probes

end PgCache.Query.Containment.Held
