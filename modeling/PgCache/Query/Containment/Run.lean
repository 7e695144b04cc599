/- source: query/constraint_index/index.rs
   digest: After any sequence of insertions and removals the index holds exactly the live
     entries, each under its own columns and in the slots of its own ranges. -/
import PgCache.Query.Containment.Held

set_option autoImplicit false

namespace PgCache.Query.Containment.Run

open Data.Keyed Constraints.Range Containment Held ConstraintIndex Function AList

variable {K : Type} [DecidableEq K]

def membershipOf (constraints : List TableConstraint) : Membership :=
  match classify constraints with
  | .equalityPure columns values => ⟨columns, .equality values⟩
  | .complex columns => ⟨columns, .complex (columnRanges constraints columns)⟩

section Classes

def classAdd (fp : K) (payload : MembershipPayload) (cls : SubsumptionClass K) :
    SubsumptionClass K :=
  match payload with
  | .equality values => { cls with equality := modify values [] (· ++ [fp]) cls.equality }
  | .complex ranges => { cls with complex := cls.complex.insert fp ranges }

def classDrop (fp : K) (payload : MembershipPayload) (cls : SubsumptionClass K) :
    SubsumptionClass K :=
  match payload with
  | .equality values => { cls with equality := postingsRemove values (· = fp) cls.equality }
  | .complex ranges => { cls with complex := cls.complex.remove fp ranges }

theorem classRemove_eq (cls : SubsumptionClass K) (fp : K) (payload : MembershipPayload) :
    classRemove cls fp payload =
      if (classDrop fp payload cls).equality.entries.isEmpty &&
          (classDrop fp payload cls).complex.len = 0 then none
      else some (classDrop fp payload cls) := rfl

theorem insert_eq (index : ConstraintIndex K) (fp : K) (cs : List TableConstraint) :
    index.insert fp cs = let hm := membershipOf cs
      { classes := modify hm.columns (.new hm.columns.length)
          (classAdd fp hm.payload) (index.remove fp).classes
        membership := (index.remove fp).membership.insert fp hm } := by
  unfold ConstraintIndex.insert membershipOf
  cases classify cs <;> rfl

theorem membershipOf_lengths {cs : List TableConstraint} {ranges : List ColumnRange}
    (complex : (membershipOf cs).payload = .complex ranges) :
    ranges.length = (membershipOf cs).columns.length := by
  unfold membershipOf at complex ⊢
  cases classified : classify cs with
  | equalityPure columns vs =>
    rw [classified] at complex
    cases complex
  | complex columns =>
    rw [classified] at complex
    cases complex
    simp [columnRanges]

structure Tracks (width : Nat) (cls : SubsumptionClass K)
    (payload : K → Option MembershipPayload) : Prop where
  equality : ∀ key fp, Posted cls.equality key fp ↔ payload fp = some (.equality key)
  width : cls.complex.perColumn.length = width
  held : ∀ (i : Nat) (column : ColumnIndex K), cls.complex.perColumn[i]? = some column → ∀ fp slot,
    Holds column fp slot ↔ ∃ ranges range, payload fp = some (.complex ranges) ∧
      ranges[i]? = some range ∧ slot ∈ slotsOf (placement range)

omit [DecidableEq K] in
theorem Tracks.new (width : Nat) :
    Tracks width (SubsumptionClass.new width : SubsumptionClass K) fun _ => none where
  equality := fun key fp => by simpa [SubsumptionClass.new] using not_posted_empty key fp
  width := List.length_replicate
  held := by
    intro i c hf fp slot
    have empty : c = ColumnIndex.empty :=
      List.eq_of_mem_replicate (List.mem_of_getElem? hf)
    subst empty
    simpa using not_holds_empty fp slot

variable {payload : K → Option MembershipPayload}

theorem Tracks.add {width : Nat} {cls : SubsumptionClass K}
    (tracks : Tracks width cls payload) {fp : K}
    (absent : payload fp = none) {new : MembershipPayload}
    (lengths : ∀ ranges, new = .complex ranges → ranges.length = width) :
    Tracks width (classAdd fp new cls) (update payload fp (some new)) := by
  have os : ∀ {other : K}, other ≠ fp → update payload fp (some new) other = payload other :=
    fun different => update_of_ne different _ _
  cases new with
  | equality values =>
    refine ⟨fun key other => ?_, tracks.width, fun i column found other slot => ?_⟩
    · rw [classAdd, posted_push, tracks.equality]
      by_cases same : other = fp
      · subst same
        simp [absent, eq_comm]
      · simp [same]
    · rw [tracks.held i column found]
      by_cases same : other = fp
      · subst same
        simp [absent]
      · rw [os same]
  | complex ranges =>
    have fits := lengths ranges rfl
    refine ⟨fun key other => ?_, ?_, fun i column found other slot => ?_⟩
    · rw [classAdd, tracks.equality]
      by_cases same : other = fp
      · subst same
        simp [absent]
      · rw [os same]
    · simp [classAdd, ComplexIndex.insert, tracks.width, fits]
    · obtain ⟨old, range, foundOld, foundRange, rfl⟩ := List.getElem?_zipWith_eq_some.mp found
      rw [holds_insert, tracks.held i old foundOld]
      by_cases same : other = fp
      · subst same
        simp [absent, foundRange]
      · simp [same]

theorem Tracks.drop {width : Nat} {cls : SubsumptionClass K}
    (tracks : Tracks width cls payload) {fp : K}
    {old : MembershipPayload} (present : payload fp = some old)
    (lengths : ∀ ranges, old = .complex ranges → ranges.length = width) :
    Tracks width (classDrop fp old cls) (update payload fp none) := by
  have os : ∀ {other : K}, other ≠ fp → update payload fp none other = payload other :=
    fun different => update_of_ne different _ _
  cases old with
  | equality values =>
    refine ⟨fun key other => ?_, tracks.width, fun i column found other slot => ?_⟩
    · rw [classDrop, posted_remove, tracks.equality]
      by_cases same : other = fp
      · subst same
        simp [present, eq_comm]
      · simp [same]
    · rw [tracks.held i column found]
      by_cases same : other = fp
      · subst same
        simp [present]
      · rw [os same]
  | complex ranges =>
    have fits := lengths ranges rfl
    refine ⟨fun key other => ?_, ?_, fun i column found other slot => ?_⟩
    · rw [classDrop, tracks.equality]
      by_cases same : other = fp
      · subst same
        simp [present]
      · rw [os same]
    · simp [classDrop, ComplexIndex.remove, tracks.width, fits]
    · obtain ⟨old, range, foundOld, foundRange, rfl⟩ := List.getElem?_zipWith_eq_some.mp found
      by_cases same : other = fp
      · subst same
        have only : ∀ slot, Holds old other slot → slot ∈ slotsOf (placement range) := by
          intro slot held
          obtain ⟨ranges', range', present', found', inside⟩ :=
            (tracks.held i old foundOld other slot).mp held
          rw [present] at present'
          cases present'
          rw [foundRange] at found'
          cases found'
          exact inside
        simpa using not_holds_remove only slot
      · rw [holds_remove_other same, tracks.held i old foundOld, os same]

end Classes

section Index

def payloadAt (membership : KeyedMap K Membership) (columns : ColumnSet) (fp : K) :
    Option MembershipPayload :=
  (membership.lookup fp).bind fun member =>
    if member.columns = columns then some member.payload else none

variable (membership : KeyedMap K Membership) {columns : ColumnSet} {index : ConstraintIndex K}

theorem payloadAt_iff (columns : ColumnSet) (fp : K) (payload : MembershipPayload) :
    payloadAt membership columns fp = some payload ↔
      membership.lookup fp = some ⟨columns, payload⟩ := by
  unfold payloadAt
  cases membership.lookup fp with
  | none => simp
  | some hm =>
    obtain ⟨columns', payload'⟩ := hm
    by_cases same : columns' = columns <;> simp [same]

theorem payloadAt_erase (columns : ColumnSet) (fp : K) : payloadAt (membership.erase fp) columns =
      update (payloadAt membership columns) fp none := by
  funext o
  by_cases same : o = fp
  · subst same
    simp [payloadAt]
  · simp [payloadAt, update_of_ne same, lookup_erase_ne same]

theorem payloadAt_insert (columns : ColumnSet) (fp : K) (member : Membership) :
    payloadAt (membership.insert fp member) columns = update (payloadAt membership columns) fp
        (if member.columns = columns then some member.payload else none) := by
  funext o
  by_cases same : o = fp
  · subst same
    simp [payloadAt]
  · simp [payloadAt, update_of_ne same, lookup_insert_ne same]

def complexAt (columns : ColumnSet) (member : Membership) : Bool :=
  member.columns = columns && match member.payload with
    | .complex _ => true
    | .equality _ => false

/-- The classes and the membership table of an index agree. -/
structure Consistent (index : ConstraintIndex K) : Prop where
  tracks : ∀ columns cls, index.classes.lookup columns = some cls →
    Tracks columns.length cls (payloadAt index.membership columns)
  counted : ∀ columns cls, index.classes.lookup columns = some cls →
    cls.complex.len = count (complexAt columns) index.membership
  classed : ∀ fp member, index.membership.lookup fp = some member →
    ∃ cls, index.classes.lookup member.columns = some cls
  lengths : ∀ fp columns ranges, index.membership.lookup fp = some ⟨columns, .complex ranges⟩ →
    ranges.length = columns.length

theorem Consistent.empty : Consistent (ConstraintIndex.empty : ConstraintIndex K) where
  tracks := by simp [ConstraintIndex.empty]
  counted := by simp [ConstraintIndex.empty]
  classed := by simp [ConstraintIndex.empty]
  lengths := by simp [ConstraintIndex.empty]

private theorem no_payload_of_empty {cls : SubsumptionClass K} {membership : KeyedMap K Membership}
    (tracks : Tracks columns.length cls (payloadAt membership columns))
    (counted : cls.complex.len = count (complexAt columns) membership)
    (empty : (cls.equality.entries.isEmpty && cls.complex.len = 0) = true) (fp : K) :
    payloadAt membership columns fp = none := by
  simp only [Bool.and_eq_true, List.isEmpty_iff, decide_eq_true_eq] at empty
  obtain ⟨noEquality, noComplex⟩ := empty
  cases hf : payloadAt membership columns fp with
  | none => rfl
  | some payload =>
    cases payload with
    | equality vs =>
      obtain ⟨es, lk, -⟩ := (posted_iff _ _ _).mp ((tracks.equality vs fp).mpr hf)
      rw [← mem_entries_iff, noEquality] at lk
      cases lk
    | complex ranges =>
      have hm := (payloadAt_iff membership columns fp _).mp hf
      have positive : 0 < count (complexAt columns) membership :=
        (count_pos_iff _ _).mpr ⟨fp, _, hm, by simp [complexAt]⟩
      omega

private theorem counted_drop {membership : KeyedMap K Membership} {fp : K}
    {payload : MembershipPayload} (hf : membership.lookup fp = some ⟨columns, payload⟩)
    {cls : SubsumptionClass K} (counted : cls.complex.len = count (complexAt columns) membership) :
    (classDrop fp payload cls).complex.len = count (complexAt columns) (membership.erase fp) := by
  have erased := count_erase (complexAt columns) membership fp _ hf
  cases payload with
  | equality vs =>
    simp only [complexAt, Bool.and_false, Bool.false_eq_true, if_false] at erased
    simp only [classDrop, counted]
    exact erased
  | complex ranges =>
    simp only [complexAt, decide_true, Bool.and_true, if_true] at erased
    simp only [classDrop, ComplexIndex.remove, counted]
    omega

theorem remove_membership (index : ConstraintIndex K) (fp : K) :
    (index.remove fp).membership = index.membership.erase fp := by
  unfold remove
  cases hf : index.membership.lookup fp with
  | none => exact (erase_of_absent _ _ hf).symm
  | some hm => rfl

theorem lookup_membership_remove (index : ConstraintIndex K) (fp fp' : K) :
    (index.remove fp).membership.lookup fp' =
      if fp' = fp then none else index.membership.lookup fp' := by
  rw [remove_membership]
  split
  · rename_i same
    rw [same, lookup_erase]
  · rename_i o
    rw [lookup_erase_ne o]

theorem lookup_membership_insert (index : ConstraintIndex K) (fp fp' : K)
    (cs : List TableConstraint) :
    (index.insert fp cs).membership.lookup fp' =
      if fp' = fp then some (membershipOf cs) else index.membership.lookup fp' := by
  rw [insert_eq]
  split
  · rename_i same
    rw [same, lookup_insert]
  · rename_i o
    rw [lookup_insert_ne o, lookup_membership_remove, if_neg o]

theorem lookup_remove_classes {fp : K} {member : Membership}
    (hf : index.membership.lookup fp = some member) (columns : ColumnSet)
    (cls : SubsumptionClass K) :
    (index.remove fp).classes.lookup columns = some cls ↔
      ∃ old, index.classes.lookup columns = some old ∧ if columns = member.columns then
          (cls.equality.entries.isEmpty && cls.complex.len = 0) = false ∧
            cls = classDrop fp member.payload old
        else cls = old := by
  unfold remove
  simp only [hf, lookup_retain]
  refine exists_congr fun old => and_congr_right fun _ => ?_
  by_cases same : columns = member.columns
  · rw [if_pos same, if_pos same, classRemove_eq]
    split
    · rename_i empty
      simp only [reduceCtorEq, false_iff, not_and]
      intro hne he
      rw [he, empty] at hne
      cases hne
    · rename_i hne
      rw [Option.some_inj, eq_comm]
      refine ⟨fun he => ⟨?_, he⟩, And.right⟩
      rw [he]
      exact Bool.eq_false_iff.mpr hne
  · rw [if_neg same, if_neg same, Option.some_inj, eq_comm]

private theorem count_erase_elsewhere {membership : KeyedMap K Membership} {fp : K}
    {hm : Membership} (hf : membership.lookup fp = some hm)
    (hne : columns ≠ hm.columns) :
    count (complexAt columns) membership = count (complexAt columns) (membership.erase fp) := by
  have erased := count_erase (complexAt columns) membership fp _ hf
  have o : complexAt columns hm = false := by simp [complexAt, Ne.symm hne]
  rw [o] at erased
  exact erased

variable (consistent : Consistent index)
include consistent

theorem Consistent.remove (fp : K) : Consistent (index.remove fp) := by
  cases hf : index.membership.lookup fp with
  | none =>
    have unchanged : index.remove fp = index := by
      unfold ConstraintIndex.remove
      rw [hf]
    rw [unchanged]
    exact consistent
  | some member =>
    obtain ⟨columns, payload⟩ := member
    have hp : payloadAt index.membership columns fp = some payload :=
      (payloadAt_iff _ _ _ _).mpr hf
    have lengths : ∀ ranges, payload = .complex ranges → ranges.length = columns.length :=
      fun ranges same => consistent.lengths fp columns ranges (same ▸ hf)
    have survivors : ∀ o member', (index.membership.erase fp).lookup o = some member' →
        o ≠ fp ∧ index.membership.lookup o = some member' := by
      intro o member' lk
      have hne : o ≠ fp := by
        intro same
        subst same
        simp at lk
      rw [lookup_erase_ne hne] at lk
      exact ⟨hne, lk⟩
    refine ⟨fun columns' cls' lk => ?_, fun columns' cls' lk => ?_,
      fun o member' lk => ?_, fun o columns' ranges lk => ?_⟩
    · obtain ⟨cls, old, kept⟩ := (lookup_remove_classes hf columns' cls').mp lk
      rw [remove_membership, payloadAt_erase]
      split at kept
      · rename_i same
        subst same
        rw [kept.2]
        exact (consistent.tracks _ cls old).drop hp lengths
      · rename_i hne
        have elsewhere : payloadAt index.membership columns' fp = none := by
          simp [payloadAt, hf, Ne.symm hne]
        rw [kept, Function.update_eq_self_iff.mpr elsewhere.symm]
        exact consistent.tracks columns' cls old
    · obtain ⟨cls, old, kept⟩ := (lookup_remove_classes hf columns' cls').mp lk
      rw [remove_membership]
      split at kept
      · rename_i same
        subst same
        rw [kept.2]
        exact counted_drop hf (consistent.counted _ cls old)
      · rename_i hne
        rw [kept, ← count_erase_elsewhere hf hne]
        exact consistent.counted columns' cls old
    · rw [remove_membership] at lk
      obtain ⟨hne, hb⟩ := survivors o member' lk
      obtain ⟨cls, old⟩ := consistent.classed o member' hb
      by_cases same : member'.columns = columns
      · -- The class still holds this entry, so it is not dropped.
        obtain ⟨columns', payload'⟩ := member'
        subst same
        have tracks := (consistent.tracks columns' cls old).drop hp lengths
        rw [← payloadAt_erase] at tracks
        refine ⟨classDrop fp payload cls, (lookup_remove_classes hf _ _).mpr ⟨cls, old, ?_⟩⟩
        rw [if_pos rfl]
        refine ⟨Bool.eq_false_iff.mpr fun empty => ?_, rfl⟩
        have gone := no_payload_of_empty tracks
          (counted_drop hf (consistent.counted columns' cls old)) empty o
        rw [(payloadAt_iff _ _ _ _).mpr lk] at gone
        cases gone
      · exact ⟨cls, (lookup_remove_classes hf _ _).mpr ⟨cls, old, by rw [if_neg same]⟩⟩
    · rw [remove_membership] at lk
      exact consistent.lengths o columns' ranges (survivors o _ lk).2

private theorem Consistent.class_or_new (columns : ColumnSet) :
    Tracks columns.length ((index.classes.lookup columns).getD (.new columns.length))
        (payloadAt index.membership columns) ∧
      ((index.classes.lookup columns).getD (.new columns.length)).complex.len =
        count (complexAt columns) index.membership := by
  cases hf : index.classes.lookup columns with
  | some cls => exact ⟨consistent.tracks columns cls hf, consistent.counted columns cls hf⟩
  | none =>
    have nobody : ∀ fp payload, index.membership.lookup fp ≠ some ⟨columns, payload⟩ := by
      intro fp payload lk
      obtain ⟨cls, classed⟩ := consistent.classed fp _ lk
      rw [hf] at classed
      cases classed
    have nothing : payloadAt index.membership columns = fun _ => none := by
      funext fp
      cases at' : payloadAt index.membership columns fp with
      | none => rfl
      | some payload => exact absurd ((payloadAt_iff _ _ _ _).mp at') (nobody fp payload)
    refine ⟨by rw [nothing]; exact Tracks.new columns.length, ?_⟩
    have zero : ¬ 0 < count (complexAt columns) index.membership := by
      intro positive
      obtain ⟨fp, ⟨columns', payload⟩, lk, test⟩ := (count_pos_iff _ _).mp positive
      simp only [complexAt, Bool.and_eq_true, decide_eq_true_eq] at test
      exact nobody fp payload (test.1 ▸ lk)
    simp only [Option.getD_none, SubsumptionClass.new, ComplexIndex.new]
    omega

theorem Consistent.insert (fp : K)
    (cs : List TableConstraint) : Consistent (index.insert fp cs) := by
  rw [insert_eq]
  have removed := consistent.remove fp
  have ha : (index.remove fp).membership.lookup fp = none := by
    rw [remove_membership, lookup_erase]
  generalize index.remove fp = index at removed ha
  have sized : ∀ ranges, (membershipOf cs).payload = .complex ranges →
      ranges.length = (membershipOf cs).columns.length :=
    fun ranges => membershipOf_lengths
  generalize membershipOf cs = member at sized
  obtain ⟨columns, payload⟩ := member
  have nowhere : ∀ columns', payloadAt index.membership columns' fp = none := by
    intro columns'
    simp [payloadAt, ha]
  refine ⟨fun columns' cls lk => ?_, fun columns' cls lk => ?_,
    fun o member' lk => ?_, fun o columns' ranges lk => ?_⟩
  · rw [lookup_modify] at lk
    rw [payloadAt_insert]
    split at lk
    · rename_i same
      subst same
      cases lk
      rw [if_pos rfl]
      exact (removed.class_or_new columns').1.add (nowhere columns') sized
    · rename_i hne
      rw [if_neg (Ne.symm hne), Function.update_eq_self_iff.mpr (nowhere columns').symm]
      exact removed.tracks columns' cls lk
  · have hi := count_insert (complexAt columns') index.membership fp ⟨columns, payload⟩
    rw [erase_of_absent _ _ ha] at hi
    rw [lookup_modify] at lk
    split at lk
    · rename_i same
      subst same
      cases lk
      have hb := (removed.class_or_new columns').2
      cases payload with
      | equality vs => simp_all [classAdd, complexAt]
      | complex ranges => simp_all [classAdd, complexAt, ComplexIndex.insert]
    · rename_i hne
      rw [removed.counted columns' cls lk, hi]
      simp [complexAt, Ne.symm hne]
  · rw [lookup_modify]
    split
    · exact ⟨_, rfl⟩
    · rename_i hne
      have old : o ≠ fp := by
        intro same
        subst same
        rw [lookup_insert] at lk
        cases lk
        exact hne rfl
      rw [lookup_insert_ne old] at lk
      exact removed.classed o member' lk
  · by_cases same : o = fp
    · subst same
      rw [lookup_insert] at lk
      cases lk
      exact sized ranges rfl
    · rw [lookup_insert_ne same] at lk
      exact removed.lengths o columns' ranges lk

end Index

section Runs

inductive IndexOp (K : Type) where
  | insert (fp : K) (constraints : List TableConstraint)
  | remove (fp : K)

def IndexOp.apply (index : ConstraintIndex K) : IndexOp K → ConstraintIndex K
  | .insert fp constraints => index.insert fp constraints
  | .remove fp => index.remove fp

def IndexOp.live (entries : KeyedMap K (List TableConstraint)) :
    IndexOp K → KeyedMap K (List TableConstraint)
  | .insert fp constraints => entries.insert fp constraints
  | .remove fp => entries.erase fp

def indexAfter (ops : List (IndexOp K)) : ConstraintIndex K :=
  ops.foldl IndexOp.apply .empty

/-- The live entries after a sequence of operations. -/
def liveAfter (ops : List (IndexOp K)) : KeyedMap K (List TableConstraint) :=
  ops.foldl IndexOp.live ∅

structure Represents (index : ConstraintIndex K) (entries : KeyedMap K (List TableConstraint)) :
    Prop where
  consistent : Consistent index
  recorded : ∀ fp, index.membership.lookup fp = (entries.lookup fp).map membershipOf

theorem Represents.apply {index : ConstraintIndex K} {es : KeyedMap K (List TableConstraint)}
    (represents : Represents index es) (op : IndexOp K) :
    Represents (op.apply index) (op.live es) := by
  cases op with
  | insert fp cs =>
    refine ⟨represents.consistent.insert fp cs, fun o => ?_⟩
    rw [IndexOp.apply, IndexOp.live, lookup_membership_insert]
    split
    · rename_i same
      rw [same, lookup_insert, Option.map_some]
    · rename_i hne
      rw [lookup_insert_ne hne, represents.recorded]
  | remove fp =>
    refine ⟨represents.consistent.remove fp, fun o => ?_⟩
    rw [IndexOp.apply, IndexOp.live, lookup_membership_remove]
    split
    · rename_i same
      rw [same, lookup_erase, Option.map_none]
    · rename_i hne
      rw [lookup_erase_ne hne, represents.recorded]

theorem represents_after (ops : List (IndexOp K)) :
    Represents (indexAfter ops) (liveAfter ops) := by
  suffices rest : ∀ (index : ConstraintIndex K) es, Represents index es →
      Represents (ops.foldl IndexOp.apply index) (ops.foldl IndexOp.live es) from
    rest _ _ ⟨Consistent.empty, fun fp => by simp [empty]⟩
  induction ops with
  | nil => exact fun index es represents => represents
  | cons op ops ih => exact fun index es represents => ih _ _ (represents.apply op)

end Runs

end PgCache.Query.Containment.Run
