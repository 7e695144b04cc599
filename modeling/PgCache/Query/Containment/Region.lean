/- source: query/constraint_index/index.rs, query/constraint_index/column_index.rs,
     query/constraints/subsume.rs
   digest: Which entries that subsume a new constraint list the region probe returns: all but
     the equality-pure ones on a column the new list does not reduce to one value. -/
import PgCache.Query.Containment.Classify

set_option autoImplicit false

namespace PgCache.Query.Containment.Region

open Data.Keyed (KeyedMap count_pos_iff mem_entries_iff)
open Data.Loop Literal Constraints.Range Constraints.Extract
open Constraints.Subsume Containment Held Run Classify ValueKey ColumnIndex ConstraintIndex Option
open List (mem_cons_self all_eq_true mem_map_of_mem mem_filter mem_append zipWith)

variable {K : Type} [DecidableEq K]

/-! ### One column -/

section Column

omit [DecidableEq K] in
theorem mem_intersectAll [DecidableEq K] (lists : List (List K)) (fp : K) :
    fp ∈ intersectAll lists ↔ lists ≠ [] ∧ ∀ list ∈ lists, fp ∈ list := by
  cases lists with
  | nil => simp [intersectAll]
  | cons first rest => simp [intersectAll]

def HeldBy (column : ColumnIndex K) (fp : K) (range : ColumnRange) : Prop :=
  ∀ slot ∈ slotsOf (placement range), Holds column fp slot

variable {column : ColumnIndex K} {fp : K} {range : ColumnRange} {view : RangeView}
  {value : LiteralValue}

omit [DecidableEq K] in
theorem HeldBy.exists_slot (held : HeldBy column fp range) (full : range ≠ .inSet []) :
    ∃ slot, Holds column fp slot := by
  suffices some : ∃ slot, slot ∈ slotsOf (placement range) by
    obtain ⟨slot, hl⟩ := some
    exact ⟨slot, held slot hl⟩
  cases placed : placement range with
  | inSet keys =>
    cases keys with
    | cons key keys => exact ⟨.inset key, by simp [slotsOf]⟩
    | nil =>
      exfalso
      cases range with
      | inSet vs =>
        cases keyed : vs.mapM tryNew with
        | none => simp [placement, keyed] at placed
        | some keys =>
          have empty : keys = [] := by simpa [placement, keyed] using placed
          have images := mapM_eq_some_iff.mp keyed
          rw [empty] at images
          exact full (by rw [List.map_eq_nil_iff.mp images])
      | equal value => cases keyed : tryNew value <;> simp [placement, keyed] at placed
      | range view =>
        simp only [placement] at placed
        split at placed
        · rename_i lb _ _
          cases keyed : tryNew lb.value <;> simp [keyed] at placed
        · rename_i ub _ _
          cases keyed : tryNew ub.value <;> simp [keyed] at placed
        · split at placed <;> cases placed
        · cases placed
      | _ => cases placed
  | _ => exact ⟨_, mem_cons_self⟩

inductive RangeHeld (column : ColumnIndex K) (fp : K) (view : RangeView) : Prop
  | unplaced : fp ∈ column.unplaced → RangeHeld column fp view
  | lower {bound : RangeBound} {key : ValueKey} : view.lower = some bound →
      tryNew bound.value = some key → Posted column.rangeLower key fp →
      RangeHeld column fp view
  | upper {bound : RangeBound} {key : ValueKey} : view.upper = some bound →
      tryNew bound.value = some key → Posted column.rangeUpper key fp →
      RangeHeld column fp view
  | both {lower upper : RangeBound} {low high : ValueKey} : view.lower = some lower →
      view.upper = some upper → tryNew lower.value = some low →
      tryNew upper.value = some high → Posted column.rangeBoth low (high, fp) →
      RangeHeld column fp view

omit [DecidableEq K] in
theorem rangeHeld (held : HeldBy column fp (.range view)) : RangeHeld column fp view := by
  unfold HeldBy at held
  simp only [placement] at held
  split at held
  · rename_i b below _
    cases keyed : tryNew b.value with
    | none => exact .unplaced (held .unplaced (by simp [keyed, slotsOf]))
    | some key => exact .lower below keyed (held (.lower key) (by simp [keyed, slotsOf]))
  · rename_i b _ above
    cases keyed : tryNew b.value with
    | none => exact .unplaced (held .unplaced (by simp [keyed, slotsOf]))
    | some key => exact .upper above keyed (held (.upper key) (by simp [keyed, slotsOf]))
  · rename_i lower upper below above
    split at held
    · rename_i low high keyedLow keyedHigh
      exact .both below above keyedLow keyedHigh (held (.both low high) mem_cons_self)
    · exact .unplaced (held .unplaced mem_cons_self)
  · exact .unplaced (held .unplaced mem_cons_self)

def keyInside : BoundSide → ValueKey → ValueKey → Bool
  | .lower, bound, key => bound.le key
  | .upper, bound, key => key.le bound

theorem keyInside_of_order {side : BoundSide} {b : LiteralValue}
    {ord : Ordering} {key keyB : ValueKey} (hd : literalValueOrder value b = some ord)
    (inner : side.orient ord ≠ .lt) (keyed : tryNew value = some key)
    (keyedB : tryNew b = some keyB) : keyInside side keyB key = true := by
  obtain ⟨key', keyB', same, sameB, up, down⟩ := keys_of_order hd
  cases keyed.symm.trans same
  cases keyedB.symm.trans sameB
  cases side with
  | lower => exact down inner
  | upper => exact up fun greater => inner (by rw [greater]; rfl)

private theorem keyInside_of_contains {side : BoundSide}
    {b : RangeBound} {key keyB : ValueKey} (contains : rangeContainsValue view value = true)
    (hf : view.bound side = some b) (keyed : tryNew value = some key)
    (keyedB : tryNew b.value = some keyB) : keyInside side keyB key = true := by
  simp only [rangeContainsValue, Bool.and_eq_true, List.all_eq_true] at contains
  have here := contains.1 side (by cases side <;> simp [BoundSide.both])
  rw [hf, all_some, decide_eq_true_eq, valueSatisfies, map_eq_some_iff] at here
  obtain ⟨ord, hd, admits⟩ := here
  refine keyInside_of_order hd (fun outer => ?_) keyed keyedB
  simp [BoundSide.admits, outer] at admits

private theorem keyInside_of_covered {side : BoundSide} {cached new : RangeBound}
    {key keyB : ValueKey} (covered : boundAtLeastAsTight side new cached = some true)
    (keyed : tryNew new.value = some key)
    (keyedB : tryNew cached.value = some keyB) : keyInside side keyB key = true := by
  rw [boundAtLeastAsTight, map_eq_some_iff] at covered
  obtain ⟨ord, hd, tight⟩ := covered
  refine keyInside_of_order hd (fun outer => ?_) keyed keyedB
  simp [outer] at tight

private theorem keyExtremes_mem (first : ValueKey) (rest : List ValueKey) :
    (keyExtremes first rest).1 ∈ first :: rest ∧ (keyExtremes first rest).2 ∈ first :: rest := by
  unfold keyExtremes
  suffices folded : ∀ (seen : List ValueKey) (low high : ValueKey), low ∈ seen → high ∈ seen →
      (rest.foldl (fun (extremes : ValueKey × ValueKey) key =>
        (if key.le extremes.1 then key else extremes.1,
          if extremes.2.le key then key else extremes.2)) (low, high)).1 ∈ seen ++ rest ∧
      (rest.foldl (fun (extremes : ValueKey × ValueKey) key =>
        (if key.le extremes.1 then key else extremes.1,
          if extremes.2.le key then key else extremes.2)) (low, high)).2 ∈ seen ++ rest from
    folded [first] first first mem_cons_self mem_cons_self
  induction rest with
  | nil =>
    intro seen low high lowSeen highSeen
    simp [lowSeen, highSeen]
  | cons key rest ih =>
    intro seen low high lowSeen highSeen
    have next := ih (seen ++ [key]) (if key.le low then key else low)
      (if high.le key then key else high) (by split <;> simp [lowSeen])
      (by split <;> simp [highSeen])
    simpa using next

variable (held : HeldBy column fp range)
include held

theorem mem_whole (full : range ≠ .inSet []) : fp ∈ column.unplaced ++ column.all :=
  (mem_containing_unknown column fp).mpr (held.exists_slot full)

private theorem mem_containing_equal
    (full : range ≠ .inSet []) (subsumes : columnRangeSubsumes range (.equal value) = true) :
    fp ∈ column.containing (.equal value) := by
  cases keyed : tryNew value with
  | none =>
    have whole := mem_whole held full
    simpa only [containing, keyed] using whole
  | some key =>
    rw [mem_containing_point keyed]
    cases range with
    | unknown | empty => cases subsumes
    | unconstrained => exact ⟨.unplaced, rfl, held .unplaced mem_cons_self⟩
    | equal value' =>
      obtain rfl := of_decide_eq_true subsumes
      refine ⟨.eq key, decide_eq_true rfl, held _ ?_⟩
      simp [placement, keyed, slotsOf]
    | inSet vs =>
      cases keys : vs.mapM tryNew with
      | none => exact ⟨.unplaced, rfl, held _ (by simp [placement, keys, slotsOf])⟩
      | some keys' =>
        have image : tryNew value ∈ vs.map tryNew :=
          mem_map_of_mem (of_decide_eq_true subsumes)
        rw [mapM_eq_some_iff.mp keys, keyed] at image
        have hm : key ∈ keys' := by simpa using image
        exact ⟨.inset key, decide_eq_true rfl, held _ (by simpa [placement, keys, slotsOf])⟩
    | range view =>
      have contains : rangeContainsValue view value = true := subsumes
      cases rangeHeld held with
      | unplaced there => exact ⟨.unplaced, rfl, there⟩
      | @lower bound keyB found keyedB there =>
        exact ⟨.lower keyB, @keyInside_of_contains view value .lower _ _ _ contains found
          keyed keyedB, there⟩
      | @upper bound keyB found keyedB there =>
        exact ⟨.upper keyB, @keyInside_of_contains view value .upper _ _ _ contains found
          keyed keyedB, there⟩
      | @both lower upper low high below above keyedLow keyedHigh there =>
        have left := @keyInside_of_contains view value .lower _ _ _ contains below keyed keyedLow
        have right := @keyInside_of_contains view value .upper _ _ _ contains above keyed keyedHigh
        exact ⟨.both low high, Bool.and_eq_true_iff.mpr ⟨left, right⟩, there⟩

omit held in
private theorem keyInside_of_members {vs : List LiteralValue}
    {keys : List ValueKey} (covers : vs.all (rangeContainsValue view) = true)
    (keyed : vs.dedup.mapM tryNew = some keys) {side : BoundSide} {b : RangeBound}
    {keyB : ValueKey} (hf : view.bound side = some b)
    (keyedB : tryNew b.value = some keyB) {key : ValueKey} (hl : key ∈ keys) :
    keyInside side keyB key = true := by
  have image : some key ∈ vs.dedup.map tryNew := by
    rw [mapM_eq_some_iff.mp keyed]
    exact mem_map_of_mem hl
  obtain ⟨value, hm, keyedValue⟩ := List.mem_map.mp image
  exact keyInside_of_contains (List.all_eq_true.mp covers value (List.mem_dedup.mp hm)) hf
    keyedValue keyedB

private theorem mem_containing_inSet {values : List LiteralValue}
    (full : range ≠ .inSet []) (nonempty : values ≠ [])
    (subsumes : columnRangeSubsumes range (.inSet values) = true) :
    fp ∈ column.containing (.inSet values) := by
  have unplaced : fp ∈ column.unplaced → fp ∈ column.containing (.inSet values) :=
    fun there => List.mem_append_left _ there
  cases keyed : values.dedup.mapM tryNew with
  | none =>
    have whole := mem_whole held full
    simpa only [containing, containingInset, keyed] using whole
  | some keys =>
    cases keys with
    | nil =>
      have images := mapM_eq_some_iff.mp keyed
      have noMember : values.dedup = [] := List.map_eq_nil_iff.mp images
      exact absurd ((List.dedup_eq_nil _).mp noMember) nonempty
    | cons first rest =>
      obtain ⟨lowListed, highListed⟩ := keyExtremes_mem first rest
      cases range with
      | unknown | empty | equal => cases subsumes
      | unconstrained => exact unplaced (held .unplaced List.mem_cons_self)
      | inSet cached =>
        cases cachedKeys : cached.mapM tryNew with
        | none => exact unplaced (held .unplaced (by simp [placement, cachedKeys, slotsOf]))
        | some keys' =>
          have posted : ∀ key ∈ first :: rest, Posted column.inset key fp := by
            intro key listed
            have image : some key ∈ values.dedup.map tryNew := by
              rw [mapM_eq_some_iff.mp keyed]
              exact List.mem_map_of_mem listed
            obtain ⟨value, inside, keyedValue⟩ := List.mem_map.mp image
            have member : value ∈ cached := of_decide_eq_true
              (List.all_eq_true.mp subsumes value (List.mem_dedup.mp inside))
            have image' : some key ∈ cached.map tryNew :=
              keyedValue ▸ List.mem_map_of_mem member
            rw [mapM_eq_some_iff.mp cachedKeys] at image'
            have inside' : key ∈ keys' := by simpa using image'
            exact held (.inset key) (by simpa [placement, cachedKeys, slotsOf])
          have members : fp ∈ ((column.inset.lookup first).getD []).filter fun fp =>
              rest.all fun key => fp ∈ (column.inset.lookup key).getD [] := by
            rw [List.mem_filter, List.all_eq_true]
            exact ⟨posted first List.mem_cons_self, fun key listed =>
              decide_eq_true (posted key (List.mem_cons_of_mem _ listed))⟩
          simp only [containing, containingInset, keyed, List.mem_append]
          exact .inr (.inl (.inl (.inl (.inl members))))
      | range view =>
        have covers : values.all (rangeContainsValue view) = true := subsumes
        simp only [containing, containingInset, keyed,
          List.mem_append, mem_postingsWhere, mem_twoSided]
        cases rangeHeld held with
        | unplaced there => exact .inl there
        | @lower bound keyB found keyedB there =>
          have inner := @keyInside_of_members view values _ covers keyed .lower _ _ found
            keyedB _ lowListed
          exact .inr (.inl (.inl (.inr ⟨keyB, inner, there⟩)))
        | @upper bound keyB found keyedB there =>
          have inner := @keyInside_of_members view values _ covers keyed .upper _ _ found
            keyedB _ highListed
          exact .inr (.inl (.inr ⟨keyB, inner, there⟩))
        | @both lower upper low high below above keyedLow keyedHigh there =>
          have left := @keyInside_of_members view values _ covers keyed .lower _ _ below
            keyedLow _ lowListed
          have right := @keyInside_of_members view values _ covers keyed .upper _ _ above
            keyedHigh _ highListed
          exact .inr (.inr ⟨low, high, ⟨left, right⟩, there⟩)

omit held in
private theorem covered_bound {cached new : RangeView} {side : BoundSide} {bound : RangeBound}
    {keyB : ValueKey} (covers : rangeSubsumesRange cached new = true)
    (hf : cached.bound side = some bound)
    (keyedB : tryNew bound.value = some keyB) :
    ∃ bound', new.bound side = some bound' ∧
      ∀ key, tryNew bound'.value = some key → keyInside side keyB key = true := by
  simp only [rangeSubsumesRange, Bool.and_eq_true, List.all_eq_true] at covers
  have here := covers.1 side (by cases side <;> simp [BoundSide.both])
  rw [hf] at here
  cases bounded : new.bound side with
  | none =>
    rw [bounded] at here
    cases here
  | some bound' =>
    rw [bounded] at here
    exact ⟨bound', rfl, fun key keyed => keyInside_of_covered (of_decide_eq_true here) keyed keyedB⟩

private theorem mem_containing_range (subsumes : columnRangeSubsumes range (.range view) = true) :
    fp ∈ column.containing (.range view) := by
  have unplaced : fp ∈ column.unplaced → fp ∈ column.containing (.range view) :=
    fun there => List.mem_append_left _ there
  cases range with
  | unknown | empty | equal | inSet => cases subsumes
  | unconstrained => exact unplaced (held .unplaced mem_cons_self)
  | range cached =>
    have covers : rangeSubsumesRange cached view = true := subsumes
    cases rangeHeld held with
    | unplaced there => exact unplaced there
    | @lower bound keyB found keyedB there =>
      obtain ⟨bound', bounded, inner⟩ := @covered_bound cached view .lower _ _ covers found keyedB
      have listed : fp ∈ column.lowerCovering bound'.value := by
        unfold lowerCovering
        cases keyed : tryNew bound'.value with
        | none => exact (mem_postingsWhere _ _ _).mpr ⟨keyB, rfl, there⟩
        | some key => exact (mem_postingsWhere _ _ _).mpr ⟨keyB, inner key keyed, there⟩
      simp only [containing, show view.lower = some bound' from bounded,
        map_some, getD_some, mem_append]
      exact .inr (.inl (.inl listed))
    | @upper bound keyB found keyedB there =>
      obtain ⟨bound', bounded, inner⟩ := @covered_bound cached view .upper _ _ covers found keyedB
      have listed : fp ∈ column.upperCovering bound'.value := by
        unfold upperCovering
        cases keyed : tryNew bound'.value with
        | none => exact (mem_postingsWhere _ _ _).mpr ⟨keyB, rfl, there⟩
        | some key => exact (mem_postingsWhere _ _ _).mpr ⟨keyB, inner key keyed, there⟩
      simp only [containing, show view.upper = some bound' from bounded,
        map_some, getD_some, mem_append]
      exact .inr (.inl (.inr listed))
    | @both lower upper low high below above keyedLow keyedHigh there =>
      obtain ⟨lower', boundedLow, innerLow⟩ :=
        @covered_bound cached view .lower _ _ covers below keyedLow
      obtain ⟨upper', boundedHigh, innerHigh⟩ :=
        @covered_bound cached view .upper _ _ covers above keyedHigh
      have listed : fp ∈ column.twoSidedLit lower'.value upper'.value := by
        unfold twoSidedLit
        split
        · rename_i keyLow keyHigh keyedLow' keyedHigh'
          exact (mem_twoSided _ _ _ _).mpr ⟨low, high,
            ⟨innerLow keyLow keyedLow', innerHigh keyHigh keyedHigh'⟩, there⟩
        · exact List.mem_map.mpr ⟨(high, fp), (mem_postingsWhere _ _ _).mpr ⟨low, rfl, there⟩, rfl⟩
      simp only [containing, show view.lower = some lower' from boundedLow,
        show view.upper = some upper' from boundedHigh, mem_append]
      exact .inr (.inr listed)

theorem mem_containing {query : ColumnRange}
    (full : range ≠ .inSet []) (nonempty : query ≠ .inSet [])
    (subsumes : columnRangeSubsumes range query = true) : fp ∈ column.containing query := by
  cases query with
  | unknown | empty | unconstrained => exact mem_whole held full
  | equal value => exact mem_containing_equal held full subsumes
  | inSet values =>
    exact mem_containing_inSet held full (fun none => nonempty (by rw [none])) subsumes
  | range view => exact mem_containing_range held subsumes

omit held

theorem mem_containing_congr {left right : ColumnIndex K} {fp : K}
    (same : ∀ slot, Holds left fp slot ↔ Holds right fp slot) (query : ColumnRange) :
    fp ∈ left.containing query ↔ fp ∈ right.containing query := by
  have eq : ∀ key, Posted left.eq key fp ↔ Posted right.eq key fp := fun key => same (.eq key)
  have inset : ∀ key, Posted left.inset key fp ↔ Posted right.inset key fp :=
    fun key => same (.inset key)
  have lower : ∀ test, fp ∈ postingsWhere test left.rangeLower ↔
      fp ∈ postingsWhere test right.rangeLower := by
    intro test
    simp only [mem_postingsWhere]
    exact exists_congr fun key => and_congr_right fun _ => same (.lower key)
  have upper : ∀ test, fp ∈ postingsWhere test left.rangeUpper ↔
      fp ∈ postingsWhere test right.rangeUpper := by
    intro test
    simp only [mem_postingsWhere]
    exact exists_congr fun key => and_congr_right fun _ => same (.upper key)
  have both : ∀ low high, fp ∈ left.twoSided low high ↔ fp ∈ right.twoSided low high := by
    intro low high
    simp only [mem_twoSided]
    exact exists_congr fun _ => exists_congr fun _ => and_congr_right fun _ => same (.both _ _)
  have pairs : fp ∈ (postingsWhere (fun _ => true) left.rangeBoth).map Prod.snd ↔
      fp ∈ (postingsWhere (fun _ => true) right.rangeBoth).map Prod.snd := by
    simp only [List.mem_map, Prod.exists, exists_eq_right, mem_postingsWhere, true_and]
    exact exists_congr fun _ => exists_congr fun _ => same (.both _ _)
  have all : fp ∈ left.all ↔ fp ∈ right.all := by
    rw [mem_all, mem_all]
    exact exists_congr fun slot => and_congr_right fun _ => same slot
  have covering : ∀ bound, (fp ∈ left.lowerCovering bound ↔ fp ∈ right.lowerCovering bound) ∧
      (fp ∈ left.upperCovering bound ↔ fp ∈ right.upperCovering bound) := by
    intro bound
    unfold lowerCovering upperCovering
    cases ValueKey.tryNew bound with
    | none => exact ⟨lower _, upper _⟩
    | some key => exact ⟨lower _, upper _⟩
  have literals : ∀ low high, fp ∈ left.twoSidedLit low high ↔ fp ∈ right.twoSidedLit low high := by
    intro low high
    unfold twoSidedLit
    split
    · exact both _ _
    · exact pairs
  unfold containing
  rw [List.mem_append, List.mem_append]
  refine or_congr (same .unplaced) ?_
  cases query with
  | unknown | empty | unconstrained => exact all
  | equal value =>
    dsimp only
    split
    · simp only [List.mem_append]
      exact or_congr (or_congr (or_congr (or_congr (eq _) (inset _)) (covering _).1)
        (covering _).2) (literals _ _)
    · exact all
  | inSet values =>
    dsimp only [containingInset]
    split
    · exact all
    · exact Iff.rfl
    · rename_i first rest _
      simp only [List.mem_append]
      refine or_congr (or_congr (or_congr (or_congr ?_ ?_) (lower _)) (upper _)) (both _ _)
      · simp only [List.mem_filter, List.all_eq_true, decide_eq_true_eq]
        exact and_congr (inset first) (forall₂_congr fun key _ => inset key)
      · split
        · exact eq first
        · exact Iff.rfl
  | range view =>
    simp only [List.mem_append]
    refine or_congr (or_congr ?_ ?_) ?_
    · cases view.lower with
      | none => exact Iff.rfl
      | some bound => exact (covering bound.value).1
    · cases view.upper with
      | none => exact Iff.rfl
      | some bound => exact (covering bound.value).2
    · split
      · exact literals _ _
      · exact Iff.rfl

private theorem containing_empty (q : ColumnRange) :
    (ColumnIndex.empty : ColumnIndex K).containing q = [] := by
  have posted : ∀ {κ L : Type} (test : κ → Bool), postingsWhere test (∅ : Postings κ L) = [] :=
    fun _ => rfl
  cases q with
  | unknown | empty | unconstrained => rfl
  | equal value =>
    simp only [containing, lowerCovering, upperCovering, twoSidedLit, twoSided, all, posted,
      ColumnIndex.empty]
    cases tryNew value <;> simp
  | inSet vs =>
    simp only [containing, containingInset, twoSided, all, posted, ColumnIndex.empty]
    split <;> simp
  | range view =>
    obtain ⟨lower, upper⟩ := view
    simp only [containing, lowerCovering, upperCovering, twoSidedLit, twoSided, posted,
      ColumnIndex.empty]
    cases lower <;> cases upper <;> simp <;> grind

theorem holds_of_mem_containing {q : ColumnRange} (hf : fp ∈ column.containing q) :
    ∃ slot, Holds column fp slot := by
  by_contra nowhere
  have none : ∀ slot, Holds column fp slot ↔ Holds ColumnIndex.empty fp slot := fun slot =>
    iff_of_false (fun held => nowhere ⟨slot, held⟩) (not_holds_empty fp slot)
  rw [mem_containing_congr none, containing_empty] at hf
  cases hf

end Column

/-! ### One class, and all of them -/

section Classes

theorem mem_candidates (index : ConstraintIndex K) (cs : List TableConstraint) (fp : K) :
    fp ∈ index.candidates cs ↔ ∃ cols cls, index.classes.lookup cols = some cls ∧
        cols.Sublist (classify cs).columns ∧
        fp ∈ subsetProbe cs cols cls := by
  unfold candidates
  dsimp only
  split
  · simp only [List.mem_flatMap, mem_columnSetPowerset]
    constructor
    · rintro ⟨cols, hw, probed⟩
      cases hf : index.classes.lookup cols with
      | none => simp [hf] at probed
      | some cls =>
        rw [hf, map_some, getD_some] at probed
        exact ⟨cols, cls, hf, hw, probed⟩
    · rintro ⟨cols, cls, hf, hw, probed⟩
      refine ⟨cols, hw, ?_⟩
      rw [hf, map_some, getD_some]
      exact probed
  · simp only [List.mem_flatMap, mem_filter, columnSetIsSubset, List.isSublist_iff_sublist]
    constructor
    · rintro ⟨⟨cols, cls⟩, ⟨hl, hw⟩, probed⟩
      exact ⟨cols, cls, (mem_entries_iff _ _ _).mp hl, hw, probed⟩
    · rintro ⟨cols, cls, hf, hw, probed⟩
      exact ⟨⟨cols, cls⟩, ⟨(mem_entries_iff _ _ _).mpr hf, hw⟩, probed⟩

theorem mem_subsetProbe (cs : List TableConstraint) (cols : ColumnSet)
    (cls : SubsumptionClass K) (fp : K) :
    fp ∈ subsetProbe cs cols cls ↔ (∃ key, (cols.map (rangeOn cs)).mapM equalKey = some key ∧
        Posted cls.equality key fp) ∨
      fp ∈ cls.complex.candidates (cols.map (rangeOn cs)) := by
  unfold subsetProbe
  dsimp only
  rw [mem_append, columnRanges_eq]
  refine or_congr ?_ Iff.rfl
  split
  · rename_i key keyed
    simp only [keyed, some_inj, exists_eq_left']
    rfl
  · rename_i keyed
    simp [keyed]

variable {payload : K → Option MembershipPayload} {cls : SubsumptionClass K}

theorem complex_of_mem_intersect {α : Type} {probe : ColumnIndex K → α → List K} {args : List α}
    {width : Nat}
    (tracks : Tracks width cls payload) {fp : K}
    (sound : ∀ column arg, fp ∈ probe column arg → ∃ slot, Holds column fp slot)
    (hf : fp ∈ intersectAll (zipWith probe cls.complex.perColumn args)) :
    ∃ placed, payload fp = some (.complex placed) := by
  rw [mem_intersectAll] at hf
  obtain ⟨hne, everywhere⟩ := hf
  obtain ⟨list, rest, lists⟩ := List.exists_cons_of_ne_nil hne
  have first : (zipWith probe cls.complex.perColumn args)[0]? = some list := by
    rw [lists]
    rfl
  obtain ⟨column, arg, foundColumn, -, rfl⟩ := List.getElem?_zipWith_eq_some.mp first
  obtain ⟨slot, there⟩ := sound column arg
    (everywhere (probe column arg) (by rw [lists]; exact mem_cons_self))
  obtain ⟨placed, _, complex, -⟩ := (tracks.held 0 column foundColumn fp slot).mp there
  exact ⟨placed, complex⟩

theorem mem_intersect_iff {α : Type} {probe : ColumnIndex K → α → List K} {args : String → α}
    {found : String → Prop}
    {fp : K} {cols : ColumnSet} {ranges : String → ColumnRange}
    (tracks : Tracks cols.length cls payload) (hne : cols ≠ [])
    (placed : payload fp = some (.complex (cols.map ranges)))
    (decides : ∀ column ∈ cols, ∀ index : ColumnIndex K,
      (∀ slot, Holds index fp slot ↔ slot ∈ slotsOf (placement (ranges column))) →
        (fp ∈ probe index (args column) ↔ found column)) :
    fp ∈ intersectAll (zipWith probe cls.complex.perColumn (cols.map args)) ↔
      ∀ column ∈ cols, found column := by
  have indexed : ∀ (i : Nat) (index : ColumnIndex K) (column : String),
      cls.complex.perColumn[i]? = some index → cols[i]? = some column →
        (fp ∈ probe index (args column) ↔ found column) := by
    intro i index column foundIndex foundColumn
    refine decides column (List.mem_of_getElem? foundColumn) index fun slot => ?_
    rw [tracks.held i index foundIndex, placed]
    simp [foundColumn]
  rw [mem_intersectAll]
  constructor
  · rintro ⟨-, everywhere⟩ column hl
    obtain ⟨i, foundColumn⟩ := List.mem_iff_getElem?.mp hl
    have hm : i < cls.complex.perColumn.length := by
      rw [tracks.width]
      exact (List.getElem?_eq_some_iff.mp foundColumn).1
    have foundIndex := List.getElem?_eq_getElem hm
    refine (indexed i _ column foundIndex foundColumn).mp (everywhere _ ?_)
    refine List.mem_of_getElem? (List.getElem?_zipWith_eq_some.mpr ⟨_, _, foundIndex, ?_, rfl⟩)
    rw [List.getElem?_map, foundColumn, map_some]
  · intro everywhere
    refine ⟨fun none => ?_, fun list hl => ?_⟩
    · have short := congrArg List.length none
      rw [List.length_zipWith, tracks.width, List.length_map, Nat.min_self] at short
      exact hne (List.length_eq_zero_iff.mp short)
    · obtain ⟨i, there⟩ := List.mem_iff_getElem?.mp hl
      obtain ⟨index, arg, foundIndex, foundArg, rfl⟩ := List.getElem?_zipWith_eq_some.mp there
      rw [List.getElem?_map, map_eq_some_iff] at foundArg
      obtain ⟨column, foundColumn, rfl⟩ := foundArg
      exact (indexed i index column foundIndex foundColumn).mpr
        (everywhere column (List.mem_of_getElem? foundColumn))

theorem complex_of_probed {width : Nat} (tracks : Tracks width cls payload) {fp : K}
    {forms : List (List ColumnRange)} (hf : fp ∈ cls.complex.candidatesPoint forms) :
    ∃ placed, payload fp = some (.complex placed) := by
  unfold ComplexIndex.candidatesPoint at hf
  split at hf
  · cases hf
  · refine complex_of_mem_intersect tracks (fun column forms probed => ?_) hf
    obtain ⟨form, -, hm⟩ := List.mem_flatMap.mp probed
    exact holds_of_mem_containing hm

theorem mem_candidatesPoint (index : ConstraintIndex K) (formsOf : String → List ColumnRange)
    (fp : K) :
    fp ∈ index.candidatesPoint formsOf ↔ ∃ cols cls, index.classes.lookup cols = some cls ∧
        fp ∈ classPoint (cols.map formsOf) cls := by
  unfold candidatesPoint
  rw [List.mem_flatMap]
  constructor
  · rintro ⟨⟨cols, cls⟩, hl, probed⟩
    exact ⟨cols, cls, (mem_entries_iff _ _ _).mp hl, probed⟩
  · rintro ⟨cols, cls, hf, probed⟩
    exact ⟨⟨cols, cls⟩, (mem_entries_iff _ _ _).mpr hf, probed⟩

end Classes

/-! ### The region probe after any run -/

section Probe

def isPure (constraints : List TableConstraint) : Bool :=
  match classify constraints with
  | .equalityPure _ _ => true
  | .complex _ => false

private theorem unconstrained_of_subsumes {range : ColumnRange}
    (subsumes : columnRangeSubsumes range .unconstrained = true) : range = .unconstrained := by
  cases range with
  | unconstrained => rfl
  | _ => cases subsumes

variable {new cached : QueryConstraints} {table : String}

variable (subsumed : tableConstraintsSubsumed new cached table = true)
include subsumed

theorem columns_within : (classify (constraintsOn cached table)).columns.Sublist
      (classify (constraintsOn new table)).columns := by
  rw [classify_columns, classify_columns]
  apply columnSet_sublist
  intro column listed
  obtain ⟨k, inside, rfl⟩ := List.mem_map.mp listed
  have here : k ∈ bucket (constraintBucketKey k) (constraintsOn cached table) :=
    List.mem_filter.mpr ⟨inside, decide_eq_true rfl⟩
  have subsumes := bucket_subsumes subsumed (List.ne_nil_of_mem here)
  have constrained : bucket (constraintBucketKey k) (constraintsOn new table) ≠ [] := by
    intro free
    rw [free] at subsumes
    have unconstrained := unconstrained_of_subsumes subsumes
    exact List.ne_nil_of_mem here (columnRangeBuild_unconstrained unconstrained)
  obtain ⟨o, listed'⟩ := List.exists_mem_of_ne_nil _ constrained
  obtain ⟨inside', same⟩ := List.mem_filter.mp listed'
  refine List.mem_map.mpr ⟨o, inside', ?_⟩
  have cols := congrArg Prod.fst (of_decide_eq_true same)
  cases k <;> cases o <;> exact cols

theorem mem_containing_of_subsumed {column : String} {index : ColumnIndex K} {fp : K}
    (held : HeldBy index fp (rangeOn (constraintsOn cached table) column)) :
    fp ∈ index.containing (rangeOn (constraintsOn new table) column) := by
  have anywhere : fp ∈ index.unplaced →
      fp ∈ index.containing (rangeOn (constraintsOn new table) column) :=
    fun there => List.mem_append_left _ there
  rcases rangeOn_cases (constraintsOn cached table) column with unknown | built
  · rw [unknown] at held
    exact anywhere (held .unplaced mem_cons_self)
  · rw [built] at held
    by_cases free : bucket (column, none) (constraintsOn cached table) = []
    · rw [free] at held
      exact anywhere (held .unplaced mem_cons_self)
    · have full := columnRangeBuild_ne_emptySet (bucket (column, none) (constraintsOn cached table))
      rcases rangeOn_cases (constraintsOn new table) column with unknown' | built'
      · rw [unknown']
        exact mem_whole held full
      · rw [built']
        exact mem_containing held full (columnRangeBuild_ne_emptySet _)
          (bucket_subsumes subsumed free)

theorem key_of_subsumed {column : String} {mine value : LiteralValue}
    (pure : rangeOn (constraintsOn cached table) column = .equal mine)
    (reduced : rangeOn (constraintsOn new table) column = .equal value) : mine = value := by
  rcases rangeOn_cases (constraintsOn cached table) column with unknown | built
  · cases unknown.symm.trans pure
  rcases rangeOn_cases (constraintsOn new table) column with unknown | built'
  · cases unknown.symm.trans reduced
  have constrained : bucket (column, none) (constraintsOn cached table) ≠ [] := by
    intro free
    rw [free] at built
    cases built.symm.trans pure
  have subsumes := bucket_subsumes subsumed constrained
  rw [← built, ← built', pure, reduced] at subsumes
  exact of_decide_eq_true subsumes

omit subsumed

theorem complex_entry_returned {index : ConstraintIndex K}
    {es : KeyedMap K (List TableConstraint)} (represents : Represents index es) {fp : K}
    {cols : ColumnSet} (live : es.lookup fp = some (constraintsOn cached table))
    (subsumed : tableConstraintsSubsumed new cached table = true)
    (classified : classify (constraintsOn cached table) = .complex cols) :
    fp ∈ index.candidates (constraintsOn new table) := by
  obtain ⟨consistent, recorded⟩ := represents
  have mem : index.membership.lookup fp =
      some ⟨cols, .complex (cols.map (rangeOn (constraintsOn cached table)))⟩ := by
    rw [recorded fp, live, map_some, membershipOf, classified]
    rfl
  obtain ⟨cls, hf⟩ := consistent.classed fp _ mem
  have counted : cls.complex.len ≠ 0 := by
    rw [consistent.counted cols cls hf]
    exact ((count_pos_iff _ _).mpr ⟨fp, _, mem, by simp [complexAt]⟩).ne'
  have hw := columns_within subsumed
  rw [classified] at hw
  refine (mem_candidates _ _ _).mpr ⟨cols, cls, hf, hw, ?_⟩
  refine (mem_subsetProbe _ _ _ _).mpr (Or.inr ?_)
  rw [ComplexIndex.candidates, if_neg counted]
  refine (mem_intersect_iff (consistent.tracks cols cls hf) (classify_complex classified)
    ((payloadAt_iff _ _ _ _).mpr mem) fun column hl index held => ?_).mpr
    fun column hl => trivial
  exact iff_true_intro (mem_containing_of_subsumed subsumed fun slot hm => (held slot).mpr hm)

theorem pure_entry_returned_iff {index : ConstraintIndex K}
    {es : KeyedMap K (List TableConstraint)} (represents : Represents index es) {fp : K}
    {columns : ColumnSet} {vs : List ValueKey}
    (live : es.lookup fp = some (constraintsOn cached table))
    (subsumed : tableConstraintsSubsumed new cached table = true)
    (classified : classify (constraintsOn cached table) = .equalityPure columns vs) :
    fp ∈ index.candidates (constraintsOn new table) ↔
      ∀ column ∈ columns, ∃ value, rangeOn (constraintsOn new table) column = .equal value := by
  obtain ⟨consistent, recorded⟩ := represents
  have hm : index.membership.lookup fp = some ⟨columns, .equality vs⟩ := by
    rw [recorded fp, live, map_some, membershipOf, classified]
  obtain ⟨cls, found⟩ := consistent.classed fp _ hm
  obtain ⟨single, keys⟩ := classify_pure classified
  constructor
  · intro returned column hl
    obtain ⟨columns', cls', found', -, probed⟩ := (mem_candidates _ _ _).mp returned
    have tracks := consistent.tracks columns' cls' found'
    rcases (mem_subsetProbe _ _ _ _).mp probed with ⟨key, keyed, posted⟩ | complex
    · have filed := (payloadAt_iff _ _ _ _).mp ((tracks.equality key fp).mp posted)
      rw [hm] at filed
      cases filed
      have image : equalKey (rangeOn (constraintsOn new table) column) ∈
          (columns.map (rangeOn (constraintsOn new table))).map equalKey :=
        mem_map_of_mem (mem_map_of_mem hl)
      rw [mapM_eq_some_iff.mp keyed] at image
      obtain ⟨key, -, same⟩ := List.mem_map.mp image
      cases reduced : rangeOn (constraintsOn new table) column with
      | equal value => exact ⟨value, rfl⟩
      | _ =>
        rw [reduced] at same
        cases same
    · unfold ComplexIndex.candidates at complex
      split at complex
      · cases complex
      obtain ⟨ranges, placed⟩ := complex_of_mem_intersect tracks
        (fun column range => holds_of_mem_containing) complex
      have filed := (payloadAt_iff _ _ _ _).mp placed
      rw [hm] at filed
      cases filed
  · intro reduced
    have hw := columns_within subsumed
    rw [classified] at hw
    refine (mem_candidates _ _ _).mpr ⟨columns, cls, found, hw, ?_⟩
    refine (mem_subsetProbe _ _ _ _).mpr (Or.inl ⟨vs, ?_, ?_⟩)
    · rw [mapM_eq_some_iff] at keys ⊢
      rw [← keys, List.map_map, List.map_map]
      refine List.map_congr_left fun column hl => ?_
      obtain ⟨mine, pure⟩ := single column hl
      obtain ⟨value, he⟩ := reduced column hl
      rw [Function.comp_apply, Function.comp_apply, pure, he, key_of_subsumed subsumed pure he]
    · exact ((consistent.tracks columns cls found).equality vs fp).mpr
        ((payloadAt_iff _ _ _ _).mpr hm)

/-- The region probe returns a live entry that subsumes the new list, unless the entry is filed by
its values and the new list does not reduce one of its columns to a value. -/
theorem subsuming_entry_returned (ops : List (IndexOp K)) (new cached : QueryConstraints)
    (table : String) (fp : K)
    (live : (liveAfter ops).lookup fp = some (constraintsOn cached table))
    (subsumed : tableConstraintsSubsumed new cached table = true) :
    fp ∈ (indexAfter ops).candidates (constraintsOn new table) ↔
      (isPure (constraintsOn cached table) = true →
        ∀ column ∈ (classify (constraintsOn cached table)).columns,
          ∃ value, rangeOn (constraintsOn new table) column = .equal value) := by
  have represents := represents_after ops
  cases classified : classify (constraintsOn cached table) with
  | complex columns =>
    have returned := complex_entry_returned represents live subsumed classified
    exact iff_of_true returned (by simp [isPure, classified])
  | equalityPure columns values =>
    rw [pure_entry_returned_iff represents live subsumed classified]
    simp [isPure, classified, Classification.columns]

def queryOn (table : String) (constraints : List TableConstraint) : QueryConstraints :=
  ⟨[], [], AList.singleton table constraints, true⟩

theorem narrower_query_finds_parent : tableConstraintsSubsumed
        (queryOn "t" [.comparison "id" .equal (.integer 5),
          .comparison "name" .equal (.string "a")])
        (queryOn "t" [.comparison "id" .equal (.integer 5)]) "t" = true ∧
      1 ∈ (indexAfter [.insert 1 [.comparison "id" .equal (.integer 5)]]).candidates
        [.comparison "id" .equal (.integer 5), .comparison "name" .equal (.string "a")] := by
  have subsumed : tableConstraintsSubsumed
      (queryOn "t" [.comparison "id" .equal (.integer 5), .comparison "name" .equal (.string "a")])
      (queryOn "t" [.comparison "id" .equal (.integer 5)]) "t" = true := by decide +kernel
  refine ⟨subsumed, ?_⟩
  refine (subsuming_entry_returned [.insert 1 [.comparison "id" .equal (.integer 5)]] _ _ "t" 1
    rfl subsumed).mpr fun _ column listed => ?_
  have only : column = "id" := by
    have columns : (classify (constraintsOn
        (queryOn "t" [.comparison "id" .equal (.integer 5)]) "t")).columns = ["id"] := by
      decide +kernel
    simpa [columns] using listed
  subst only
  exact ⟨.integer 5, by decide +kernel⟩

/-- The cached `id = 5` subsumes `id = 3 AND id = 4`, whose range is empty, and
`id = 5 AND id::text = '5'`, whose column is hidden by the cast. The probe returns it for
neither. -/
theorem parent_missed_without_value :
    let cached := [TableConstraint.comparison "id" .equal (.integer 5)]
    let emptied := [TableConstraint.comparison "id" .equal (.integer 3),
      .comparison "id" .equal (.integer 4)]
    let hidden := [TableConstraint.comparison "id" .equal (.integer 5),
      .castComparison "id" .text .equal (.string "5")]
    let ops : List (IndexOp Nat) := [.insert 1 cached]
    (liveAfter ops).lookup 1 = some cached ∧
      (tableConstraintsSubsumed (queryOn "t" emptied) (queryOn "t" cached) "t" = true ∧
        1 ∉ (indexAfter ops).candidates emptied) ∧
      (tableConstraintsSubsumed (queryOn "t" hidden) (queryOn "t" cached) "t" = true ∧
        1 ∉ (indexAfter ops).candidates hidden) := by
  decide +kernel

end Probe

end PgCache.Query.Containment.Region
