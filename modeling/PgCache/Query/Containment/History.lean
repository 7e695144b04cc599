/- source: query/constraint_index/index.rs, query/constraint_index/column_index.rs
   digest: The index answers from the surviving entries and their last constraints alone,
     whatever insertions and removals came before. -/
import PgCache.Query.Containment.Region

set_option autoImplicit false

namespace PgCache.Query.Containment.History

open Data.Keyed Literal Constraints.Range Containment Held Run Region ColumnIndex ConstraintIndex
open List hiding insert_eq

variable {K : Type} [DecidableEq K]

/-! ### Classes that hold the same entries -/

section Classes

/-- Two columns hold the same entries in the same slots. -/
def SameHeld (left right : ColumnIndex K) : Prop :=
  ∀ fp slot, Holds left fp slot ↔ Holds right fp slot

structure Alike (left right : SubsumptionClass K) : Prop where
  equality : ∀ key fp, Posted left.equality key fp ↔ Posted right.equality key fp
  len : left.complex.len = right.complex.len
  columns : List.Forall₂ SameHeld left.complex.perColumn right.complex.perColumn

variable {left right : SubsumptionClass K}

theorem mem_intersect_congr {α : Type} {probe : ColumnIndex K → α → List K}
    (reads : ∀ left right, SameHeld left right → ∀ arg fp,
      fp ∈ probe left arg ↔ fp ∈ probe right arg)
    (alike : Alike left right) (args : List α) (fp : K) :
    fp ∈ (if left.complex.len = 0 then []
        else intersectAll (zipWith probe left.complex.perColumn args)) ↔
      fp ∈ if right.complex.len = 0 then []
        else intersectAll (zipWith probe right.complex.perColumn args) := by
  rw [alike.len]
  split
  · exact Iff.rfl
  rw [mem_intersectAll, mem_intersectAll]
  have cols := alike.columns
  generalize left.complex.perColumn = lefts at cols
  generalize right.complex.perColumn = rights at cols
  refine and_congr ?_ ?_
  · cases cols <;> cases args <;> simp
  · induction cols generalizing args with
    | nil => simp
    | cons same _ ih =>
      cases args with
      | nil => simp
      | cons arg args =>
        simp only [zipWith_cons_cons, forall_mem_cons]
        exact and_congr (reads _ _ same arg fp) (ih args)

theorem Alike.subsetProbe (alike : Alike left right) (cs : List TableConstraint)
    (cols : ColumnSet) (fp : K) :
    fp ∈ ConstraintIndex.subsetProbe cs cols left ↔
      fp ∈ ConstraintIndex.subsetProbe cs cols right := by
  rw [mem_subsetProbe, mem_subsetProbe]
  refine or_congr ?_ (mem_intersect_congr (fun _ _ same range fp =>
    mem_containing_congr (same fp) range) alike _ fp)
  exact exists_congr fun key => and_congr_right fun _ => alike.equality key fp

theorem Alike.classPoint (alike : Alike left right) (forms : List (List ColumnRange)) (fp : K) :
    fp ∈ ConstraintIndex.classPoint forms left ↔ fp ∈ ConstraintIndex.classPoint forms right := by
  unfold ConstraintIndex.classPoint
  dsimp only
  rw [mem_append, mem_append]
  refine or_congr ?_ (mem_intersect_congr (fun _ _ same forms fp => ?_) alike _ fp)
  · split
    · simp only [mem_flatMap]
      exact exists_congr fun key => and_congr_right fun _ => alike.equality key fp
    · simp only [mem_postingsWhere]
      exact exists_congr fun key => and_congr_right fun _ => alike.equality key fp
  · simp only [mem_flatMap]
    exact exists_congr fun form => and_congr_right fun _ => mem_containing_congr (same fp) form

end Classes

/-! ### Classes that hold something -/

section Kept

structure Kept (cls : SubsumptionClass K) : Prop where
  filed : ∀ values entries, cls.equality.lookup values = some entries → entries ≠ []
  nonempty : (cls.equality.entries.isEmpty && cls.complex.len = 0) = false

def Occupied (index : ConstraintIndex K) : Prop :=
  ∀ columns cls, index.classes.lookup columns = some cls → Kept cls

variable {index : ConstraintIndex K}

theorem Occupied.remove (occupied : Occupied index) (fp : K) : Occupied (index.remove fp) := by
  cases hf : index.membership.lookup fp with
  | none =>
    unfold ConstraintIndex.remove
    rw [hf]
    exact occupied
  | some hm =>
    intro cols cls lk
    obtain ⟨old, there, after⟩ := (lookup_remove_classes hf cols cls).mp lk
    have kept := occupied cols old there
    split at after
    · obtain ⟨hne, rfl⟩ := after
      refine ⟨fun vs es filed => ?_, hne⟩
      cases payload : hm.payload with
      | complex ranges =>
        rw [payload] at filed
        exact kept.filed vs es filed
      | equality tuple =>
        rw [payload] at filed
        obtain ⟨hb, was, stays⟩ := (lookup_retain _ _ _ _).mp filed
        split at stays
        · split at stays
          · cases stays
          · rename_i rem
            cases stays
            exact rem
        · cases stays
          exact kept.filed vs _ was
    · subst after
      exact kept

omit [DecidableEq K] in
theorem kept_classAdd {cls : SubsumptionClass K} (fp : K) (payload : MembershipPayload)
    (filed : ∀ vs es, cls.equality.lookup vs = some es → es ≠ []) :
    Kept (classAdd fp payload cls) := by
  cases payload with
  | equality tuple =>
    refine ⟨fun vs es lk => ?_, rfl⟩
    rw [classAdd, lookup_modify] at lk
    split at lk
    · cases lk
      simp
    · exact filed vs es lk
  | complex ranges =>
    refine ⟨filed, ?_⟩
    simp [classAdd, ComplexIndex.insert]

theorem Occupied.insert (occupied : Occupied index) (fp : K)
    (cs : List TableConstraint) : Occupied (index.insert fp cs) := by
  rw [insert_eq]
  have removed := occupied.remove fp
  generalize index.remove fp = index at removed
  intro cols cls lk
  rw [lookup_modify] at lk
  split at lk
  · rename_i same
    cases lk
    refine kept_classAdd fp _ fun vs es filed => ?_
    cases there : index.classes.lookup (membershipOf cs).columns with
    | none =>
      rw [there] at filed
      cases filed
    | some old =>
      rw [there] at filed
      exact (removed _ old there).filed vs es filed
  · exact removed cols cls lk

theorem occupied_after (ops : List (IndexOp K)) : Occupied (indexAfter ops) := by
  suffices rest : ∀ index : ConstraintIndex K, Occupied index →
      Occupied (ops.foldl IndexOp.apply index) from
    rest _ fun cols cls lk => by cases lk
  induction ops with
  | nil => exact fun index occupied => occupied
  | cons op ops ih =>
    intro index occupied
    refine ih _ ?_
    cases op with
    | insert fp cs => exact occupied.insert fp cs
    | remove fp => exact occupied.remove fp

theorem Kept.member {columns : ColumnSet} {cls : SubsumptionClass K} (kept : Kept cls)
    (consistent : Consistent index) (found : index.classes.lookup columns = some cls) :
    ∃ fp payload, index.membership.lookup fp = some ⟨columns, payload⟩ := by
  have tracks := consistent.tracks columns cls found
  cases listed : cls.equality.entries with
  | cons entry rest =>
    obtain ⟨values, entries⟩ := entry
    have filed : cls.equality.lookup values = some entries :=
      (mem_entries_iff _ _ _).mp (by simp [listed])
    obtain ⟨fp, inside⟩ := exists_mem_of_ne_nil _ (kept.filed values entries filed)
    have posted := (posted_iff _ _ _).mpr ⟨entries, filed, inside⟩
    exact ⟨fp, _, (payloadAt_iff _ _ _ _).mp ((tracks.equality values fp).mp posted)⟩
  | nil =>
    have some : 0 < count (complexAt columns) index.membership := by
      have nonempty := kept.nonempty
      rw [listed, consistent.counted columns cls found] at nonempty
      simpa [Nat.pos_iff_ne_zero] using nonempty
    obtain ⟨fp, ⟨columns', payload⟩, lookup, test⟩ := (count_pos_iff _ _).mp some
    simp only [complexAt, Bool.and_eq_true, decide_eq_true_eq] at test
    exact ⟨fp, payload, test.1 ▸ lookup⟩

end Kept

/-! ### Indices with the same members -/

section Members

variable {index other : ConstraintIndex K}

theorem alike_of_members (consistent : Consistent index) (consistent' : Consistent other)
    (occupied : Occupied index)
    (same : ∀ fp, index.membership.lookup fp = other.membership.lookup fp)
    {columns : ColumnSet} {cls : SubsumptionClass K}
    (found : index.classes.lookup columns = some cls) :
    ∃ cls', other.classes.lookup columns = some cls' ∧ Alike cls cls' := by
  obtain ⟨fp, payload, member⟩ := (occupied columns cls found).member consistent found
  obtain ⟨cls', found'⟩ := consistent'.classed fp _ (same fp ▸ member)
  have tracks := consistent.tracks columns cls found
  have tracks' := consistent'.tracks columns cls' found'
  have payloads : payloadAt index.membership columns = payloadAt other.membership columns := by
    funext fp
    rw [payloadAt, payloadAt, same]
  rw [← payloads] at tracks'
  refine ⟨cls', found', fun key fp => ?_, ?_, ?_⟩
  · rw [tracks.equality, tracks'.equality]
  · rw [consistent.counted columns cls found, consistent'.counted columns cls' found']
    refine List.Perm.countP_eq _ (lookup_ext index.membership.nodupKeys
      other.membership.nodupKeys fun fp member => ?_)
    rw [Option.mem_def, Option.mem_def]
    exact iff_of_eq (congrArg (· = some member) (same fp))
  · refine forall₂_iff_get.mpr ⟨tracks.width.trans tracks'.width.symm, ?_⟩
    intro i inside inside' fp slot
    rw [get_eq_getElem, get_eq_getElem, tracks.held i _ (getElem?_eq_getElem inside),
      tracks'.held i _ (getElem?_eq_getElem inside')]

structure Answers (index other : ConstraintIndex K) : Prop where
  candidates : ∀ constraints fp, fp ∈ index.candidates constraints →
    fp ∈ other.candidates constraints
  candidatesPoint : ∀ formsOf fp,
    fp ∈ index.candidatesPoint formsOf → fp ∈ other.candidatesPoint formsOf
  columns : index.columns ⊆ other.columns

omit [DecidableEq K] in
theorem mem_columns (index : ConstraintIndex K) (column : String) : column ∈ index.columns ↔
      ∃ columns cls, index.classes.lookup columns = some cls ∧ column ∈ columns := by
  unfold ConstraintIndex.columns
  rw [mem_dedup, mem_flatMap]
  constructor
  · rintro ⟨⟨columns, cls⟩, listed, inside⟩
    exact ⟨columns, cls, (mem_entries_iff _ _ _).mp listed, inside⟩
  · rintro ⟨columns, cls, found, inside⟩
    exact ⟨⟨columns, cls⟩, (mem_entries_iff _ _ _).mpr found, inside⟩

theorem answers_of_members (consistent : Consistent index) (consistent' : Consistent other)
    (occupied : Occupied index)
    (same : ∀ fp, index.membership.lookup fp = other.membership.lookup fp) :
    Answers index other := by
  have alike := fun cols cls =>
    @alike_of_members K _ index other consistent consistent' occupied same cols cls
  refine ⟨fun cs fp hf => ?_, fun formsOf fp hf => ?_, fun c hf => ?_⟩
  · obtain ⟨cols, cls, lookup, hw, probed⟩ := (mem_candidates _ _ _).mp hf
    obtain ⟨cls', lookup', same⟩ := alike cols cls lookup
    exact (mem_candidates _ _ _).mpr
      ⟨cols, cls', lookup', hw, (same.subsetProbe cs cols fp).mp probed⟩
  · obtain ⟨cols, cls, lookup, probed⟩ := (mem_candidatesPoint _ _ _).mp hf
    obtain ⟨cls', lookup', same⟩ := alike cols cls lookup
    exact (mem_candidatesPoint _ _ _).mpr ⟨cols, cls', lookup', (same.classPoint _ fp).mp probed⟩
  · obtain ⟨cols, cls, lookup, hm⟩ := (mem_columns _ _).mp hf
    obtain ⟨cls', lookup', -⟩ := alike cols cls lookup
    exact (mem_columns _ _).mpr ⟨cols, cls', lookup', hm⟩

theorem member_of_candidates (consistent : Consistent index) {fp : K} :
    (∀ cs, fp ∈ index.candidates cs → index.membership.lookup fp ≠ none) ∧
      ∀ formsOf, fp ∈ index.candidatesPoint formsOf → index.membership.lookup fp ≠ none := by
  have hm : ∀ cols cls payload, index.classes.lookup cols = some cls →
      payloadAt index.membership cols fp = some payload →
      index.membership.lookup fp ≠ none := by
    intro cols cls payload lk hf ha
    rw [payloadAt, ha] at hf
    cases hf
  refine ⟨fun cs hf => ?_, fun formsOf hf => ?_⟩
  · obtain ⟨cols, cls, lk, -, probed⟩ := (mem_candidates _ _ _).mp hf
    have tracks := consistent.tracks cols cls lk
    rcases (mem_subsetProbe _ _ _ _).mp probed with ⟨key, -, posted⟩ | complex
    · exact hm cols cls _ lk ((tracks.equality key fp).mp posted)
    · unfold ComplexIndex.candidates at complex
      split at complex
      · cases complex
      · obtain ⟨placed, payload⟩ := complex_of_mem_intersect tracks
          (fun _ _ => holds_of_mem_containing) complex
        exact hm cols cls _ lk payload
  · obtain ⟨cols, cls, lk, probed⟩ := (mem_candidatesPoint _ _ _).mp hf
    have tracks := consistent.tracks cols cls lk
    rcases mem_append.mp probed with he | complex
    · have posted : ∃ key, Posted cls.equality key fp := by
        split at he
        · obtain ⟨key, -, posted⟩ := mem_flatMap.mp he
          exact ⟨key, posted⟩
        · obtain ⟨key, -, posted⟩ := (mem_postingsWhere _ _ _).mp he
          exact ⟨key, posted⟩
      obtain ⟨key, posted⟩ := posted
      exact hm cols cls _ lk ((tracks.equality key fp).mp posted)
    · obtain ⟨placed, payload⟩ := complex_of_probed tracks complex
      exact hm cols cls _ lk payload

end Members

/-! ### Every run against a rebuilt index -/

section Rebuilt

def rebuild (entries : List (Sigma fun _ : K => List TableConstraint)) : List (IndexOp K) :=
  entries.map fun entry => .insert entry.1 entry.2

theorem liveAfter_rebuild (es : List (Sigma fun _ : K => List TableConstraint))
    (distinct : es.NodupKeys) (fp : K) :
    (liveAfter (rebuild es)).lookup fp = es.dlookup fp := by
  suffices rest : ∀ live : KeyedMap K (List TableConstraint),
      ((rebuild es).foldl IndexOp.live live).lookup fp = (es.dlookup fp).or (live.lookup fp) by
    simpa [liveAfter] using rest ∅
  induction es with
  | nil => simp [rebuild]
  | cons e es ih =>
    intro live
    obtain ⟨key, cs⟩ := e
    obtain ⟨fresh, distinct⟩ := nodupKeys_cons.mp distinct
    refine (ih distinct _).trans ?_
    by_cases same : fp = key
    · subst same
      have ha := dlookup_eq_none.mpr fresh
      rw [ha, dlookup_cons_eq]
      exact AList.lookup_insert live
    · rw [dlookup_cons_ne _ _ same]
      exact congrArg _ (AList.lookup_insert_ne same)

theorem index_history_independent (ops : List (IndexOp K))
    (survivors : List (Sigma fun _ : K => List TableConstraint))
    (listed : survivors.Perm (liveAfter ops).entries) :
    (∀ constraints fp, fp ∈ (indexAfter ops).candidates constraints ↔
        fp ∈ (indexAfter (rebuild survivors)).candidates constraints) ∧
      (∀ formsOf fp, fp ∈ (indexAfter ops).candidatesPoint formsOf ↔
        fp ∈ (indexAfter (rebuild survivors)).candidatesPoint formsOf) ∧
      (indexAfter ops).columns.Perm (indexAfter (rebuild survivors)).columns ∧
      (∀ fp, (liveAfter ops).lookup fp = none →
        (∀ constraints, fp ∉ (indexAfter ops).candidates constraints) ∧
          ∀ formsOf, fp ∉ (indexAfter ops).candidatesPoint formsOf) ∧
      ∀ columns cls, (indexAfter ops).classes.lookup columns = some cls →
        (cls.equality.entries.isEmpty && cls.complex.len = 0) = false ∧
          ∃ fp constraints, (liveAfter ops).lookup fp = some constraints ∧
            (classify constraints).columns = columns := by
  have represents := represents_after ops
  have represents' := represents_after (rebuild survivors)
  have occupied := occupied_after ops
  have same : ∀ fp, (indexAfter ops).membership.lookup fp =
      (indexAfter (rebuild survivors)).membership.lookup fp := by
    intro fp
    have distinct : survivors.NodupKeys :=
      (perm_nodupKeys listed).mpr (liveAfter ops).nodupKeys
    rw [represents.recorded, represents'.recorded, liveAfter_rebuild survivors distinct]
    exact congrArg _ (perm_dlookup fp distinct listed).symm
  have there := answers_of_members represents.consistent represents'.consistent occupied same
  have back := answers_of_members represents'.consistent represents.consistent
    (occupied_after _) fun fp => (same fp).symm
  refine ⟨fun constraints fp => ⟨there.candidates constraints fp, back.candidates constraints fp⟩,
    fun formsOf fp => ⟨there.candidatesPoint formsOf fp, back.candidatesPoint formsOf fp⟩,
    ?_, fun fp dead => ?_, fun columns cls found => ?_⟩
  · exact (perm_ext_iff_of_nodup (nodup_dedup _) (nodup_dedup _)).mpr
      fun column => ⟨@there.columns column, @back.columns column⟩
  · have absent : (indexAfter ops).membership.lookup fp = none := by
      rw [represents.recorded, dead, Option.map_none]
    obtain ⟨region, point⟩ := @member_of_candidates K _ _ represents.consistent fp
    exact ⟨fun constraints found => region constraints found absent,
      fun formsOf found => point formsOf found absent⟩
  · obtain ⟨fp, payload, member⟩ :=
      (occupied columns cls found).member represents.consistent found
    rw [represents.recorded, Option.map_eq_some_iff] at member
    obtain ⟨constraints, live, is⟩ := member
    refine ⟨(occupied columns cls found).nonempty, fp, constraints, live, ?_⟩
    have columnsOf : (membershipOf constraints).columns = (classify constraints).columns := by
      unfold membershipOf
      cases classify constraints <;> rfl
    rw [← columnsOf, is]

def refiled : List (IndexOp Nat) :=
  [.insert 1 [.comparison "id" .equal (.integer 7)], .insert 2 [.anyOf "id" [.integer 7]],
    .insert 1 [.comparison "name" .greaterThan (.string "a")], .remove 2, .remove 3]

theorem refiled_rebuilt : (liveAfter refiled).lookup 2 = none ∧
      (indexAfter refiled).columns.Perm (indexAfter (rebuild
        [⟨1, [.comparison "name" .greaterThan (.string "a")]⟩])).columns ∧
      ∀ formsOf, 2 ∉ (indexAfter refiled).candidatesPoint formsOf := by
  obtain ⟨-, -, columns, removed, -⟩ := index_history_independent refiled
    [⟨1, [.comparison "name" .greaterThan (.string "a")]⟩] (by exact .refl _)
  exact ⟨rfl, columns, (removed 2 rfl).2⟩

end Rebuilt

end PgCache.Query.Containment.History
