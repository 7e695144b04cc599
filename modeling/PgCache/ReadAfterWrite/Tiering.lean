/- digest: No run of the write log loses a write: each is held by a predicate that covers its rows
   until a purge passes the position it was stamped with. -/
import PgCache.ReadAfterWrite.Safety

set_option autoImplicit false

namespace PgCache.ReadAfterWrite.Tiering

open Data.Keyed Query.Literal
open Query.Constraints.RangeOverlap Query.Constraints.RangeMeaning Query.Write Aggregate Log
open Coverage Effects ReadAfterWrite.Disjoint Safety TableTiers WaitingTier Option
open List hiding isEmpty isEmpty_iff

/-! ### The rows an aggregate covers -/

section Rows

variable {V : Type} [LinearOrder V] (S : ColumnValues V)

def HasValues (columns : List String) (values : List LiteralValue) (row : Row V) : Prop :=
  ∀ column literal, (column, literal) ∈ columns.zip values → row column = S.literal column literal

def ImageWithin (ranges : ColumnRanges) (row : Row V) : Prop :=
  ∀ column range, ranges.lookup column = some range → S.Admits column range (row column) ∨
      ∃ literal, range = .equal literal ∧ row column = S.literal column literal

def Touches (aggregate : TableAggregate) (row : Row V) : Prop :=
  aggregate.isOpaque = true ∨
  (∃ inserts ∈ aggregate.inserts, ∃ cells ∈ inserts.rows, Describes S inserts.columns cells row) ∨
  (∃ columns, ∃ tuples ∈ aggregate.mergedDeletes.lookup columns, ∃ values ∈ tuples,
    HasValues S columns values row) ∨
  (∃ ranges ∈ aggregate.deletes, RowWithin S ranges row) ∨
  (∃ shape, ∃ tuples ∈ aggregate.mergedUpdates.lookup shape, ∃ tuple ∈ tuples,
    HasValues S shape.1 tuple.1 row ∨
    (∀ column literal, (column, literal) ∈ shape.1.zip tuple.1 → column ∉ shape.2 →
      row column = S.literal column literal) ∧ Describes S shape.2 tuple.2 row) ∨
  ∃ predicate ∈ aggregate.updates,
    RowWithin S predicate.whereRanges row ∨ ImageWithin S predicate.imageRanges row

variable {S} {aggregate : TableAggregate} {row : Row V} {update : UpdateStatement}
  {comparisons : List (String × BinaryOp × LiteralValue)} {columns : List String}
  {values : List LiteralValue}

theorem hasValues_of_matches (built : equalityTupleBuild comparisons = some (columns, values))
    (h : RowMatches S comparisons row) : HasValues S columns values row := by
  intro c l hm
  obtain ⟨i, hf⟩ := mem_iff_getElem?.mp hm
  obtain ⟨hc, hv⟩ := getElem?_zip_eq_some.mp hf
  exact value_of_equality h (mem_of_equalityTupleBuild built hc hv)

theorem image_hasValues {whereColumns setColumns : List String}
    {whereValues : List LiteralValue} {setValues : SetTuple}
    (built : updateTupleBuild update = some ((whereColumns, setColumns), (whereValues, setValues)))
    {old : Row V} (h : RowMatches S update.whereComparisons old)
    (image : Image S update.set old row) :
    (∀ c l, (c, l) ∈ whereColumns.zip whereValues → c ∉ setColumns →
      row c = S.literal c l) ∧ Describes S setColumns setValues row := by
  obtain ⟨whereTuple, distinct, assigned, names⟩ := mem_of_updateTupleBuild built
  refine ⟨?_, ?_⟩
  · intro c l hk untouched
    have same := image c
    cases last : lastAssignment update.set c with
    | some v =>
      have named := mem_map_of_mem (f := Prod.fst) (lastAssignment_mem last)
      exact (untouched ((names c).mpr named)).elim
    | none =>
      rw [last] at same
      exact same.trans (hasValues_of_matches whereTuple h c l hk)
  · intro c l hk
    obtain ⟨i, hf⟩ := mem_iff_getElem?.mp hk
    obtain ⟨hc, hv⟩ := getElem?_zip_eq_some.mp hf
    have same := image c
    rw [lastAssignment_of_nodup distinct (assigned i c _ hc hv)] at same
    exact same

theorem imageWithin_of_image
    (alike : ∀ c, EqualitiesSpelledAlike S c (onColumn update.whereComparisons c))
    {old : Row V} (h : RowMatches S update.whereComparisons old)
    (image : Image S update.set old row) :
    ImageWithin S (updatePredicateBuild update).imageRanges row := by
  intro c range hf
  have same := image c
  rw [lookup_imageRanges] at hf
  split at hf
  · rename_i l last
    cases hf
    rw [last] at same
    exact Or.inr ⟨l, rfl, same⟩
  · cases hf
  · rename_i last
    rw [last] at same
    rw [same]
    exact Or.inl (rowWithin_columnRangesFromComparisons alike h c range hf)

theorem touches_of_covers {write : WriteClass} (covers : Covers aggregate write)
    (alike : ∀ c, EqualitiesSpelledAlike S c (onColumn (whereOf write) c))
    (effect : Removes S write row ∨ Adds S write row) : Touches S aggregate row := by
  refine covers.imp id fun stores => ?_
  cases write with
  | insertRows insert =>
    obtain ⟨cells, inside, described⟩ := effect.resolve_left id
    obtain ⟨inserts, hf, held⟩ := stores
    obtain ⟨stored, inside', hw⟩ := held cells inside
    exact Or.inl ⟨inserts, hf, stored, inside', fun c l hk => described c l (hw c l hk)⟩
  | deleteRows delete =>
    have h := effect.resolve_right id
    simp only [Stores] at stores
    split at stores
    · rename_i columns values built
      obtain ⟨tuples, hf, inside⟩ := stores
      exact Or.inr (Or.inl ⟨columns, tuples, hf, values, inside, hasValues_of_matches built h⟩)
    · exact Or.inr (Or.inr (Or.inl ⟨_, stores, rowWithin_columnRangesFromComparisons alike h⟩))
  | updateRows update =>
    refine Or.inr (Or.inr (Or.inr ?_))
    simp only [Stores] at stores
    split at stores
    · rename_i shape tuple built
      obtain ⟨tuples, hf, inside⟩ := stores
      refine Or.inl ⟨shape, tuples, hf, tuple, inside, effect.imp ?_ ?_⟩
      · exact hasValues_of_matches (mem_of_updateTupleBuild built).1
      · rintro ⟨_, h, image⟩
        exact image_hasValues built h image
    · refine Or.inr ⟨_, stores, effect.imp ?_ ?_⟩
      · exact rowWithin_columnRangesFromComparisons alike
      · rintro ⟨_, h, image⟩
        exact imageWithin_of_image alike h image
  | table | connection | connectionUnstampable => exact stores.elim

end Rows

/-! ### Tiers of a table after a call -/

variable (log : WriteLog) (relation : RelationRef)

theorem tiersOf_tableActive (target : RelationRef) (seq : Nat)
    (change : TableAggregate → TableAggregate) :
    tiersOf (log.tableActive target seq change) relation =
      if relation = target then (tiersOf log relation).activeModify seq change
      else tiersOf log relation := by
  obtain ⟨schema, name⟩ := relation
  simp only [tiersOf, WriteLog.tableActive, lookup_modify]
  by_cases sameName : name = target.name
  · subst sameName
    by_cases sameSchema : schema = target.schema
    · subst sameSchema
      cases log.tables.lookup target.name <;> simp [lookup_modify]
    · have other : (⟨schema, target.name⟩ : RelationRef) ≠ target :=
        fun same => sameSchema (congrArg RelationRef.schema same)
      cases log.tables.lookup target.name <;> simp [lookup_modify, sameSchema, other]
  · have other : (⟨schema, name⟩ : RelationRef) ≠ target :=
      fun same => sameName (congrArg RelationRef.name same)
    simp [sameName, other]

theorem tiersOf_stamp (stampSeq : Nat) (lsn : Lsn) :
    tiersOf (log.stamp stampSeq lsn) relation = (tiersOf log relation).stamp stampSeq lsn := by
  simp only [tiersOf, WriteLog.stamp, lookup_retain_bind]
  cases log.tables.lookup relation.name with
  | none => rfl
  | some bucket =>
    simp only [bind_some, lookup_retain_bind]
    cases bucket.lookup relation.schema <;> rfl

theorem purge_getD (tiers : TableTiers) (watermark : Lsn) : (tiers.purge watermark).getD {} =
      { tiers with waiting := tiers.waiting.filter fun tier => tier.bound > watermark } := by
  simp only [purge]
  split
  · rename_i empty
    simp only [isEmpty, Bool.and_eq_true, List.isEmpty_iff, isNone_iff_eq_none] at empty
    rw [empty.1, empty.2]
    rfl
  · rfl

theorem tiersOf_purge (watermark : Lsn) : tiersOf (log.purge watermark) relation =
      { tiersOf log relation with
        waiting := (tiersOf log relation).waiting.filter fun tier => tier.bound > watermark } := by
  simp only [tiersOf, WriteLog.purge, lookup_retain_bind]
  cases log.tables.lookup relation.name with
  | none => rfl
  | some bucket =>
    have kept := lookup_retain_bind (fun _ tiers => purge tiers watermark) bucket relation.schema
    simp only [bind_some]
    -- A bucket left without tables is dropped, and has no tiers either way.
    have dropped : ∀ map : SchemaBucket,
        (if map.entries.isEmpty then none else some map).bind (·.lookup relation.schema) =
          map.lookup relation.schema := by
      rintro ⟨_ | _, _⟩ <;> rfl
    rw [dropped, kept]
    cases bucket.lookup relation.schema with
    | none => rfl
    | some tiers => exact purge_getD tiers watermark

theorem connection_purge (tiers : ConnectionTiers) (watermark : Lsn) :
    tiers.purge watermark = { tiers with waiting := tiers.waiting.filter (· > watermark) } := by
  obtain ⟨waiting, active, unstampable⟩ := tiers
  cases waiting with
  | none => rfl
  | some b =>
    by_cases passed : b ≤ watermark
    · simp [ConnectionTiers.purge, Option.filter, passed]
    · simp [ConnectionTiers.purge, Option.filter, passed, not_le.mp passed]

/-! ### The position a write is stamped with -/

variable (operations : List Operation)

def stampLsns : List Lsn :=
  operations.filterMap fun
    | .stamp _ lsn => some lsn
    | _ => none

def stampedAt (seq index : Nat) : Option Lsn :=
  match operations[index]? with
  | some (.stamp stampSeq lsn) =>
    (recorded (operations.take index))[seq]?.bind fun write =>
      if (newest (run (operations.take index)) write.relation?).any (· ≤ stampSeq) then some lsn
      else none
  | _ => none

def bounds (seq : Nat) : Option Lsn :=
  (range operations.length).findSome? (stampedAt operations seq)

variable {log} {operations : List Operation} {seq : Nat} {lsn : Lsn} {write : WriteClass}
  {stampSeq : Nat}

theorem mem_stampLsns {index : Nat} {before : List Operation} {rest : List Operation}
    (stamped : stampedAt (before ++ rest) seq index = some lsn) (hm : index < before.length) :
    lsn ∈ stampLsns before := by
  unfold stampedAt at stamped
  rw [getElem?_append_left hm] at stamped
  split at stamped
  · rename_i hf
    obtain ⟨_, _, taken⟩ := bind_eq_some_iff.mp stamped
    obtain ⟨_, same⟩ := ite_none_right_eq_some.mp taken
    exact mem_filterMap.mpr ⟨_, mem_of_getElem? hf, same⟩
  · cases stamped

theorem bounds_settle {before after : List Operation}
    (ordered : (stampLsns (before ++ .stamp stampSeq lsn :: after)).Pairwise (· ≤ ·)) :
    Settles (bounds (before ++ .stamp stampSeq lsn :: after)) before (run before) stampSeq lsn := by
  intro _ seq write hlt hf awaited _ old
  have here : stampedAt (before ++ .stamp stampSeq lsn :: after) seq before.length = some lsn := by
    simp [stampedAt, hf, awaited, old]
  unfold CommittedBy bounds
  cases first : (range (before ++ .stamp stampSeq lsn :: after).length).findSome?
      (stampedAt (before ++ .stamp stampSeq lsn :: after) seq) with
  | none =>
    have ha := findSome?_eq_none_iff.mp first before.length (by simp)
    rw [here] at ha
    cases ha
  | some b =>
    -- the first stamp that takes the write is this one or an earlier one
    refine ⟨b, rfl, ?_⟩
    obtain ⟨earlier, index, later, cut, stamped, passed⟩ := findSome?_eq_some_iff.mp first
    have rising : (earlier ++ index :: later).Pairwise (· < ·) := cut ▸ pairwise_lt_range
    have mem : before.length ∈ earlier ++ index :: later := cut ▸ mem_range.mpr (by simp)
    rcases mem_append.mp mem with mem | mem
    · rw [passed _ mem] at here
      cases here
    rcases mem_cons.mp mem with rfl | mem
    · exact (some.inj (stamped.symm.trans here)).le
    · have hm := (pairwise_cons.mp (pairwise_append.mp rising).2.1).1 _ mem
      have stampMem := mem_stampLsns stamped hm
      simp only [stampLsns, filterMap_append, pairwise_append] at ordered
      exact ordered.2.2 _ stampMem _ (by simp)

theorem unstampable_step (enabled : log.enabled = true) (operation : Operation)
    (barred : log.connection.unstampable = true) :
    (step log operation).connection.unstampable = true := by
  cases operation with
  | record write => exact (record_enabled enabled write).2.2 barred
  | stamp stampSeq lsn => simp [step, WriteLog.stamp, ConnectionTiers.stamp, barred]
  | purge watermark =>
    simp only [step, WriteLog.purge, ConnectionTiers.purge]
    split <;> exact barred
  | stampSeq | decide => exact barred

variable (operations)

theorem run_concat (operation : Operation) :
    run (operations ++ [operation]) = step (run operations) operation := by
  simp [run]

theorem unstampable_of_recorded (hm : .connectionUnstampable ∈ recorded operations) :
    (run operations).connection.unstampable = true := by
  induction operations using reverseRecOn with
  | nil => cases hm
  | append_singleton operations operation ih =>
    have account : Accounted (fun _ => some 0) operations (run operations) :=
      accounted_run operations fun _ _ _ _ _ _ _ _ _ _ _ _ _ => ⟨0, rfl, Nat.zero_le _⟩
    have enabled := account.enabled
    rw [run_concat]
    rw [recorded_concat, mem_append] at hm
    rcases hm with earlier | now
    · exact unstampable_step enabled operation (ih earlier)
    · cases operation with
      | record write =>
        obtain rfl := mem_singleton.mp now
        simp only [step, WriteLog.record, enabled, Bool.not_true, Bool.false_eq_true, if_false]
        split
        · assumption
        · rfl
      | _ => cases now

/-! ### The order of the waiting tiers -/

theorem bounds_mergeIntoNewest (aggregate : TableAggregate) (tiers : List WaitingTier)
    (below : ∀ tier ∈ tiers, tier.bound ≤ lsn) :
    (mergeIntoNewest aggregate lsn tiers).map bound = (tiers.map bound).dropLast ++ [lsn] := by
  fun_induction mergeIntoNewest aggregate lsn tiers with
  | case1 => rfl
  | case2 newest => simp [below newest mem_cons_self]
  | case3 first rest hne ih =>
    rw [map_cons, ih fun tier hm => below tier (mem_cons_of_mem _ hm),
      map_cons, dropLast_cons_of_ne_nil, cons_append]
    exact fun empty => hne (map_eq_nil_iff.mp empty)

theorem bounds_stamp (tiers : TableTiers) (below : ∀ tier ∈ tiers.waiting, tier.bound ≤ lsn) :
    ((tiers.stamp stampSeq lsn).waiting.map bound).Sublist (tiers.waiting.map bound ++ [lsn]) := by
  unfold stamp
  split
  · split
    · split
      · rw [bounds_mergeIntoNewest _ _ below]
        exact (dropLast_sublist _).append_right _
      · simp
    · exact sublist_append_left _ _
  · exact sublist_append_left _ _

theorem waiting_record (relation : RelationRef) (write : WriteClass) :
    (tiersOf (log.record write) relation).waiting.Sublist (tiersOf log relation).waiting := by
  have kept (tg : RelationRef) (seq : Nat) (change : TableAggregate → TableAggregate) :
      (tiersOf (WriteLog.tableActive { log with nextSeq := log.nextSeq + 1 } tg seq change)
        relation).waiting = (tiersOf log relation).waiting := by
    rw [tiersOf_tableActive]
    split <;> rfl
  unfold WriteLog.record
  split
  · exact .refl _
  · simp only
    split
    · exact .refl _
    · cases write with
      | connection => exact .refl _
      | connectionUnstampable => exact nil_sublist _
      | _ => rw [kept]

theorem waiting_sublist (ho : (stampLsns operations).Pairwise (· ≤ ·)) :
    ((tiersOf (run operations) relation).waiting.map bound).Sublist (stampLsns operations) := by
  induction operations using reverseRecOn with
  | nil => exact nil_sublist _
  | append_singleton operations operation ih =>
    rw [stampLsns, filterMap_append] at ho ⊢
    have hb := ih (pairwise_append.mp ho).1
    rw [run_concat]
    cases operation with
    | record write =>
      exact (((waiting_record relation write).map _).trans hb).trans (sublist_append_left _ _)
    | stamp stampSeq lsn =>
      rw [step, tiersOf_stamp]
      refine (bounds_stamp _ ?_).trans (hb.append_right [lsn])
      intro tier hm
      exact (pairwise_append.mp ho).2.2 _ (hb.subset (mem_map_of_mem hm)) lsn mem_cons_self
    | purge watermark =>
      rw [step, tiersOf_purge]
      exact ((filter_sublist.map _).trans hb).trans (sublist_append_left _ _)
    | stampSeq | decide => exact hb.trans (sublist_append_left _ _)

theorem raised_stamp (tiers : TableTiers) {tier : WaitingTier} (hm : tier ∈ tiers.waiting) :
    ∃ tier' ∈ (tiers.stamp stampSeq lsn).waiting, tier.bound ≤ tier'.bound ∧
      Grows tier.aggregate tier'.aggregate := by
  have same : ∃ tier' ∈ tiers.waiting, tier.bound ≤ tier'.bound ∧
      Grows tier.aggregate tier'.aggregate := ⟨tier, hm, le_rfl, Grows.refl _⟩
  unfold stamp
  split
  · rename_i aggregate _
    split
    · split
      · exact (held_mergeIntoNewest aggregate lsn tiers.waiting).2 tier hm
      · exact ⟨tier, mem_append_left _ hm, le_rfl, Grows.refl _⟩
    · exact same
  · exact same

/-! ### No write is lost -/

section Kept

variable {V : Type} [LinearOrder V] (S : ColumnValues V)

/-- A write stamped at `own` may be held under a bound: an unstamped write only without one, a
stamped one under no lower bound than its own. -/
def HeldUnder (own bound : Option Lsn) : Prop :=
  ∀ held, bound = some held → ∃ lsn, own = some lsn ∧ lsn ≤ held

/-- The log stands for a write: the connection is barred for good, or a tier of the write's table
covers its rows, or the connection tiers hold it. -/
def Represented (log : WriteLog) (write : WriteClass) (own : Option Lsn) : Prop :=
  log.connection.unstampable = true ∨
  match write.relation? with
  | some relation =>
    ∃ bounded ∈ (tiersOf log relation).aggregatesBounded, HeldUnder own bounded.1 ∧
      ∀ row, Removes S write row ∨ Adds S write row → Touches S bounded.2 row
  | none =>
    log.connection.active.isSome ∨
      ∃ bound, log.connection.waiting = some bound ∧ HeldUnder own (some bound)

variable {S}

theorem represented_of_logged {commit : Nat → Option Lsn} (logged : Logged commit log seq write)
    (alike : ∀ c, EqualitiesSpelledAlike S c (onColumn (whereOf write) c)) :
    Represented S log write (commit seq) := by
  refine Or.inr ?_
  unfold Logged at logged
  cases tg : write.relation? with
  | some relation =>
    simp only [tg] at logged ⊢
    obtain ⟨bucket, tiers, foundBucket, foundTiers, held⟩ := logged
    have same : tiersOf log relation = tiers := by simp [tiersOf, foundBucket, foundTiers]
    rw [same]
    rcases held with ⟨hlt, aggregate, active, _, covers⟩ | ⟨tier, hm, committed, covers⟩
    · refine ⟨(none, aggregate), by simp [aggregatesBounded, active], ?_,
        fun row => touches_of_covers covers alike⟩
      rintro held ⟨⟩
    · refine ⟨(some tier.bound, tier.aggregate), mem_append_left _ (mem_map_of_mem hm), ?_,
        fun row => touches_of_covers covers alike⟩
      rintro held ⟨⟩
      exact committed
  | none =>
    simp only [tg] at logged ⊢
    rcases logged with ⟨hlt, active, _⟩ | ⟨b, waiting, committed⟩
    · exact Or.inl (by rw [active]; rfl)
    · refine Or.inr ⟨b, waiting, ?_⟩
      rintro held ⟨⟩
      exact committed

/-- No write is lost by the tiers, along every run with non-decreasing stamp positions whose writes
spell equal values of one column alike: a write that is unstampable, unstamped or stamped above
every watermark stands in the log, waiting bounds do not decrease, and a purge drops exactly the
tiers it has passed. -/
theorem no_write_lost (S : ColumnValues V) (operations : List Operation)
    (ordered : (stampLsns operations).Pairwise (· ≤ ·))
    (alike : ∀ write ∈ recorded operations, ∀ column,
      EqualitiesSpelledAlike S column (onColumn (whereOf write) column)) :
    (∀ seq write, (recorded operations)[seq]? = some write →
      write = .connectionUnstampable ∨ isPending (bounds operations) operations seq = true →
        Represented S (run operations) write (bounds operations seq)) ∧
    (∀ relation,
      ((tiersOf (run operations) relation).waiting.map bound).Pairwise (· ≤ ·)) ∧
    (∀ relation stampSeq lsn, ∀ tier ∈ (tiersOf (run operations) relation).waiting,
      ∃ raised ∈ (tiersOf ((run operations).stamp stampSeq lsn) relation).waiting,
        tier.bound ≤ raised.bound ∧
        ∀ write, Covers tier.aggregate write → Covers raised.aggregate write) ∧
    ∀ watermark, (∀ relation, tiersOf ((run operations).purge watermark) relation =
        { tiersOf (run operations) relation with
          waiting := (tiersOf (run operations) relation).waiting.filter
            fun tier => tier.bound > watermark }) ∧
      ((run operations).purge watermark).connection = { (run operations).connection with
          waiting := (run operations).connection.waiting.filter (· > watermark) } := by
  refine ⟨?_, fun relation => ordered.sublist (waiting_sublist relation operations ordered), ?_, ?_⟩
  · have account : Accounted (bounds operations) operations (run operations) := by
      refine accounted_run operations ?_
      rintro before stampSeq lsn after rfl
      exact bounds_settle ordered
    intro seq write found due
    rcases due with rfl | pending
    · exact Or.inl (unstampable_of_recorded operations (mem_of_getElem? found))
    · rcases account.logged with barred | logged
      · exact Or.inl barred
      · exact represented_of_logged (logged seq write found pending)
          (alike write (mem_of_getElem? found))
  · intro relation stampSeq lsn tier inside
    rw [tiersOf_stamp]
    obtain ⟨raised, inside', higher, grows⟩ :=
      raised_stamp (tiersOf (run operations) relation) inside
    exact ⟨raised, inside', higher, fun write => covers_of_grows grows⟩
  · exact fun watermark => ⟨fun relation => tiersOf_purge _ relation watermark,
      connection_purge _ watermark⟩

/-- The DELETE that spells one number twice is held by a predicate that covers no row, although
it takes out the row it names. -/
theorem delete_twice_spelled_lost : (stampLsns deleteTwiceSpelled).Pairwise (· ≤ ·) ∧
    isPending (bounds deleteTwiceSpelled) deleteTwiceSpelled 0 = true ∧
    ∃ write, (recorded deleteTwiceSpelled)[0]? = some write ∧
      Removes numericValues write (rowWithId 5) ∧
      ¬ Represented numericValues (run deleteTwiceSpelled) write (bounds deleteTwiceSpelled 0) := by
  refine ⟨List.Pairwise.nil, by decide, _, rfl, removes_twiceSpelled, ?_⟩
  rintro (barred | ⟨bounded, inside, _, touched⟩)
  · cases barred
  · rw [mem_singleton.mp inside] at touched
    rcases touched (rowWithId 5) (Or.inl removes_twiceSpelled) with
      found | ⟨_, found, _⟩ | ⟨_, _, found, _⟩ | ⟨_, found, within⟩ |
        ⟨_, _, found, _⟩ | ⟨_, found, _⟩
    case inr.inr.inr.inr.inl =>
      rw [mem_singleton.mp found] at within
      exact within "id" .empty (by decide)
    all_goals cases found

theorem insert_then_update_kept : Represented numericValues (run insertThenUpdate)
      (.insertRows ⟨items, ["id"], [[some (.integer 7)]]⟩) (some 20) := by
  exact (no_write_lost numericValues insertThenUpdate (by decide)
    equalities_insertThenUpdate).1 0 _ rfl (Or.inr (by decide))

end Kept

/-! ### The log empties -/

section Empties

variable {top watermark : Lsn}

theorem active_stamp (tiers : TableTiers)
    (haw : ∀ seq ∈ tiers.active.map Prod.fst, seq ≤ stampSeq) :
    (tiers.stamp stampSeq lsn).active = none := by
  unfold stamp
  split
  · rename_i seq aggregate active
    rw [if_pos (haw seq (by simp [active]))]
    split <;> rfl
  · assumption

theorem connection_run (never : .connectionUnstampable ∉ recorded operations)
    (low : ∀ lsn ∈ stampLsns operations, lsn ≤ top) :
    (run operations).connection.unstampable = false ∧
      ∀ bound ∈ (run operations).connection.waiting, bound ≤ top := by
  induction operations using reverseRecOn with
  | nil => exact ⟨rfl, fun _ hm => nomatch hm⟩
  | append_singleton operations operation ih =>
    rw [recorded_concat, mem_append, not_or] at never
    simp only [stampLsns, filterMap_append, mem_append, or_imp, forall_and] at low
    obtain ⟨stampable, held⟩ := ih never.1 low.1
    rw [run_concat]
    cases operation with
    | record write =>
      cases write with
      | connectionUnstampable => exact absurd mem_cons_self never.2
      | _ =>
        simp only [step, WriteLog.record, stampable, Bool.false_eq_true, if_false]
        split <;> first | exact ⟨rfl, held⟩ | exact ⟨stampable, held⟩
    | stamp stampSeq lsn =>
      have new : lsn ≤ top := low.2 lsn mem_cons_self
      simp only [step, WriteLog.stamp, ConnectionTiers.stamp, stampable, Bool.false_eq_true,
        if_false]
      split
      · refine ⟨rfl, ?_⟩
        rintro _ ⟨⟩
        cases hw : (run operations).connection.waiting with
        | none => exact new
        | some b => exact max_le new (held b hw)
      · exact ⟨stampable, held⟩
    | purge watermark =>
      simp only [step, WriteLog.purge, connection_purge]
      exact ⟨stampable, fun b hm => held b (Option.filter_eq_some_iff.mp hm).1⟩
    | stampSeq | decide => exact ⟨stampable, held⟩

theorem newest_le_stampSeq (hlt : ∀ seq ∈ log.stampSeq, seq ≤ stampSeq)
    (scope : Option RelationRef) : ∀ seq ∈ newest log scope, seq ≤ stampSeq := by
  intro seq hs
  have hm : seq ∈ log.tiers.filterMap (fun tiers => tiers.active.map Prod.fst) ++
      log.connection.active.toList := by
    cases scope with
    | none => exact mem_append_right _ (mem_toList.mpr hs)
    | some relation =>
      refine mem_append_left _ (mem_filterMap.mpr ⟨tiersOf log relation, ?_, hs⟩)
      simp only [newest, tiersOf] at hs ⊢
      cases hb : log.tables.lookup relation.name with
      | none => simp [hb] at hs
      | some bucket =>
        cases ht : bucket.lookup relation.schema with
        | none => simp [hb, ht] at hs
        | some tiers =>
          have inside := (mem_entries_iff bucket _ _).mpr ht
          refine mem_flatMap.mpr ⟨_, (mem_entries_iff _ _ _).mpr hb, ?_⟩
          exact mem_map.mpr ⟨_, inside, by simp [ht]⟩
  cases hmax : log.stampSeq with
  | none => simp [List.max?_eq_none_iff.mp hmax] at hm
  | some top => exact ((List.max?_eq_some_iff.mp hmax).2 seq hm).trans (hlt top hmax)

theorem tableIntersects_clear (clear : ∀ relation, tiersOf log relation = {}) (table : TableNode)
    (ranges : Option ColumnRanges) (kinds : DisjointKinds) :
    log.tableIntersects table ranges kinds = (none, kinds) := by
  unfold WriteLog.tableIntersects
  split
  · rfl
  · rename_i bucket hb
    refine foldlRecOn (motive := (· = (none, kinds))) _ _ rfl ?_
    rintro _ rfl ⟨schema, tiers⟩ hm
    have ht := clear ⟨schema, table.name⟩
    simp only [tiersOf, hb, bind_some, (mem_entries_iff _ _ _).mp hm, getD_some] at ht
    simp [ht, aggregatesBounded]

theorem walkTables_clear (clear : ∀ relation, tiersOf log relation = {})
    (ranges : Option ColumnRanges) (kinds : DisjointKinds) (tables : List TableNode) :
    log.walkTables ranges kinds tables = (none, kinds) := by
  induction tables with
  | nil => rfl
  | cons table tables ih => simp only [WriteLog.walkTables, tableIntersects_clear clear, ih]

theorem connection_idle {tiers : ConnectionTiers} (stampable : tiers.unstampable = false)
    (haw : ∀ seq ∈ tiers.active, seq ≤ stampSeq)
    (low : ∀ bound ∈ (tiers.stamp stampSeq lsn).waiting, bound ≤ watermark) :
    (tiers.stamp stampSeq lsn).purge watermark = {} := by
  have settled : (tiers.stamp stampSeq lsn).active = none ∧
      (tiers.stamp stampSeq lsn).unstampable = false := by
    simp only [ConnectionTiers.stamp, stampable, Bool.false_eq_true, if_false]
    cases active : tiers.active with
    | none => simpa [active] using stampable
    | some seq => simp [haw seq active]
  rw [connection_purge, settled.1, settled.2, Option.filter_eq_none_iff.mpr fun b hm => by
    simpa using low b hm]

/-- Once the newest sequence has its bound and the watermark has passed it, the log forwards no
read, whatever came before; only an unstampable write keeps it closed for good. -/
theorem reopens_iff_stampable (operations : List Operation) (stampSeq : Nat) (lsn watermark : Lsn)
    (latest : ∀ seq ∈ (run operations).stampSeq, seq ≤ stampSeq)
    (ordered : (stampLsns operations ++ [lsn]).Pairwise (· ≤ ·)) (passed : lsn ≤ watermark) :
    (∀ tables readRanges,
      (run (operations ++ [.stamp stampSeq lsn, .purge watermark])).decide tables readRanges =
        .serve) ↔
    .connectionUnstampable ∉ recorded operations := by
  constructor
  · intro served unstampable
    have barred := unstampable_of_recorded (operations ++ [.stamp stampSeq lsn, .purge watermark])
      (by rw [recorded, filterMap_append]; exact mem_append_left _ unstampable)
    have forwarded := served [] none
    simp [WriteLog.decide, ConnectionTiers.isEmpty, barred] at forwarded
  · intro never tables ranges
    have stamps : stampLsns (operations ++ [.stamp stampSeq lsn]) =
      stampLsns operations ++ [lsn] := by
      simp [stampLsns]
    have low : ∀ stamped ∈ stampLsns (operations ++ [.stamp stampSeq lsn]),
      stamped ≤ watermark := by
      rw [stamps]
      intro stamped hm
      rcases mem_append.mp hm with hm | hm
      · exact ((pairwise_append.mp ordered).2.2 stamped hm lsn mem_cons_self).trans passed
      · exact mem_singleton.mp hm ▸ passed
    have awaited := newest_le_stampSeq latest
    have clear : ∀ relation,
        tiersOf (((run operations).stamp stampSeq lsn).purge watermark) relation = {} := by
      intro relation
      have held := waiting_sublist relation (operations ++ [.stamp stampSeq lsn]) (stamps ▸ ordered)
      rw [run_concat, step, tiersOf_stamp] at held
      rw [tiersOf_purge, tiersOf_stamp]
      simpa [active_stamp _ (awaited (some relation))] using
        fun tier hm => low _ (held.subset (mem_map_of_mem hm))
    have bounded := (connection_run (operations ++ [.stamp stampSeq lsn])
      (by simpa [recorded_concat, recorded] using never) low).2
    have stampable := (connection_run operations never fun stamped hm =>
      low stamped (stamps ▸ mem_append_left _ hm)).1
    rw [run_concat] at bounded
    have idle : (((run operations).stamp stampSeq lsn).purge watermark).connection = {} :=
      connection_idle stampable (awaited none) bounded
    have same : run (operations ++ [.stamp stampSeq lsn, .purge watermark]) =
        ((run operations).stamp stampSeq lsn).purge watermark := by
      simp [run, step]
    rw [same, WriteLog.decide, idle, walkTables_clear clear]
    rfl

theorem change_stamped_reopens :
    (run [.record (.table items), .stamp 0 5, .purge 5]).decide [⟨none, "items"⟩]
      none = .serve := by
  exact (reopens_iff_stampable [.record (.table items)] 0 5 5 (by decide) (by decide) le_rfl).mpr
    (by simp [recorded]) _ _

end Empties

end PgCache.ReadAfterWrite.Tiering
