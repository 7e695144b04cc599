/- source: query/constraint_index/point.rs, cache/writer/cdc/row_match.rs
   digest: Which entries whose constraints a replicated row meets the point probe returns: all but
     those whose decimals are near the row's text and not equal to it, and those whose value set
     lost the member the text is. -/
import PgCache.Cache.Cdc.Invalidation
import PgCache.Query.Constraints.RangeFits
import PgCache.Query.Containment.History

set_option autoImplicit false

namespace PgCache.Cache.Cdc.PointProbe

open Catalog Data.Keyed Data.Loop Query.Literal Query.Cast
open Query.Evaluate Query.Constraints.Range Query.Constraints.RangeScan
open Query.Constraints.RangeExact Query.Constraints.RangeFits Query.Constraints.RangeSubsume
open Query.Constraints.Extract
open Query.Constraints.Subsume Query.Containment Query.Containment.Held Query.Containment.Run
open Query.Containment.Classify Query.Containment.Region Invalidation ConstraintIndex List ValueKey
open Option hiding all_eq_true map_map mem_map

variable (doubles : Doubles)

def ReadsIntegers : Prop :=
  ∀ text i, parseI64 text = some i → doubles.parse text = some (i64AsF64 i)

def rowText (table : TableMetadata) (row : RowData) (column : String) : Option String :=
  (table.columns.get column).bind fun metadata => (row[metadata.index]?).join

def textKeys (text : String) : List ValueKey :=
  .str text :: ((doubles.parse text).map num).toList ++
    ((boolWireTextParse text).map bool).toList

/-- A text is the value of a literal: exactly, and for a number as the nearest double. A literal
that names no value is never keyed. -/
def Reads (text : String) : LiteralValue → Prop
  | .string s | .stringWithCast s _ => s = text
  | .integer i => doubles.parse text = some (i64AsF64 i)
  | .float f => doubles.parse text = some f
  | .boolean b => boolWireTextParse text = some b
  | .null | .nullWithCast _ | .parameter _ | .array _ _ => True

/-- How the literals of a column must be written for a text: a decimal the column is set equal to
is the double of the text, and where the column has a value set, and members of it that the other
comparisons are seen to let through, the text is one of these. -/
def Spelled (text : String) (constraints : List TableConstraint) : Prop :=
  (∀ f, (.equal, .float f) ∈ comparisonsOf constraints → Listed constraints (.float f) →
    doubles.parse text = some f) ∧
  ((∀ value, (.equal, value) ∉ comparisonsOf constraints) → inSetsOf constraints ≠ [] →
    (∃ value, Listed constraints value) →
      ∃ value, Listed constraints value ∧ Reads doubles text value)

def onColumn (constraints : List TableConstraint) (column : String) : List TableConstraint :=
  constraints.filter fun constraint => constraintColumn constraint = column

/-- Nothing is asked of a column under a cast, with two value sets or with a NULL among the
members: such a column is not indexed. -/
def SpelledOn (text : String) (constraints : List TableConstraint) (column : String) : Prop :=
  (∀ target op value, .castComparison column target op value ∉ constraints) →
    Reduced (onColumn constraints column) → Spelled doubles text (onColumn constraints column)

def Reached (text : String) (range : ColumnRange) : Prop :=
  ∃ key ∈ textKeys doubles text, ∃ slot ∈ slotsOf (placement range), Slot.meets key slot = true

/-! ### The readings of a row -/

section Forms

variable {doubles : Doubles} {table : TableMetadata} {row : RowData} {column text : String}

theorem rowValueForms_absent (ha : rowText table row column = none) :
    rowValueForms doubles table row column = [.unknown] := by
  unfold rowText at ha
  rw [rowValueForms, ha]

theorem rowValueForms_present (hp : rowText table row column = some text) :
    rowValueForms doubles table row column = .equal (.string text) ::
        ((doubles.parse text).map fun f => ColumnRange.equal (.float f)).toList ++
        ((boolWireTextParse text).map fun b => ColumnRange.equal (.boolean b)).toList := by
  unfold rowText at hp
  rw [rowValueForms, hp]

theorem formKeys_present (hp : rowText table row column = some text) :
    (rowValueForms doubles table row column).filterMap equalKey = textKeys doubles text := by
  rw [rowValueForms_present hp, textKeys]
  cases doubles.parse text <;> cases boolWireTextParse text <;> rfl

theorem formKeys_absent (ha : rowText table row column = none) :
    (rowValueForms doubles table row column).filterMap equalKey = [] := by
  rw [rowValueForms_absent ha]
  rfl

variable {K : Type} [DecidableEq K]

theorem mem_keyed_forms {forms : List ColumnRange}
    (keyed : ∀ form ∈ forms, ∃ v key, form = .equal v ∧ tryNew v = some key)
    (index : ColumnIndex K) (fp : K) :
    fp ∈ forms.flatMap index.containing ↔ ∃ key ∈ forms.filterMap equalKey,
        ∃ slot, Slot.meets key slot = true ∧ Holds index fp slot := by
  simp only [mem_flatMap, mem_filterMap]
  constructor
  · rintro ⟨form, hl, hf⟩
    obtain ⟨v, key, rfl, hasKey⟩ := keyed form hl
    exact ⟨key, ⟨_, hl, hasKey⟩, (mem_containing_point hasKey index fp).mp hf⟩
  · rintro ⟨key, ⟨form, hl, reads⟩, held⟩
    obtain ⟨v, key', rfl, hasKey⟩ := keyed form hl
    cases hasKey.symm.trans reads
    exact ⟨_, hl, (mem_containing_point hasKey index fp).mpr held⟩

theorem mem_forms_present (hp : rowText table row column = some text)
    (index : ColumnIndex K) (fp : K) :
    fp ∈ (rowValueForms doubles table row column).flatMap index.containing ↔
      ∃ key ∈ textKeys doubles text, ∃ slot, Slot.meets key slot = true ∧ Holds index fp slot := by
  rw [← formKeys_present hp]
  apply mem_keyed_forms
  intro form hl
  rw [rowValueForms_present hp] at hl
  simp only [cons_append, mem_cons, mem_append, mem_toList, map_eq_some_iff] at hl
  rcases hl with rfl | ⟨f, -, rfl⟩ | ⟨b, -, rfl⟩ <;> exact ⟨_, _, rfl, rfl⟩

theorem mem_forms_absent (ha : rowText table row column = none) (index : ColumnIndex K) (fp : K) :
    fp ∈ (rowValueForms doubles table row column).flatMap index.containing ↔
      ∃ slot, Holds index fp slot := by
  rw [rowValueForms_absent ha, flatMap_singleton, mem_containing_unknown]

end Forms

/-! ### The equality bucket -/

section Equality

theorem mem_valueKeyProduct (keySets : List (List ValueKey)) (tuple : List ValueKey) :
    tuple ∈ valueKeyProduct keySets ↔ List.Forall₂ (fun key keys => key ∈ keys) tuple keySets := by
  unfold valueKeyProduct
  suffices extended : ∀ (tuples : List (List ValueKey)), tuple ∈ keySets.foldl (fun tuples keys =>
        tuples.flatMap fun tuple => keys.map fun key => tuple ++ [key]) tuples ↔
      ∃ start ∈ tuples, ∃ rest, tuple = start ++ rest ∧
        List.Forall₂ (fun key keys => key ∈ keys) rest keySets by
    rw [extended]
    simp
  induction keySets with
  | nil => simp
  | cons keys keySets ih =>
    intro tuples
    rw [foldl_cons, ih]
    simp only [mem_flatMap, mem_map]
    constructor
    · rintro ⟨_, ⟨start, hl, key, hm, rfl⟩, rest, rfl, os⟩
      exact ⟨start, hl, key :: rest, by simp, .cons hm os⟩
    · rintro ⟨start, hl, rest, rfl, matched⟩
      cases matched with
      | @cons key _ rest _ hm os =>
        exact ⟨start ++ [key], ⟨start, hl, key, hm, rfl⟩, rest, by simp, os⟩

def Admitted (formsOf : String → List ColumnRange) (key : ValueKey) (column : String) : Prop :=
  (formsOf column).filterMap equalKey = [] ∨ key ∈ (formsOf column).filterMap equalKey

variable {columns : List String} {keysOf : String → List ValueKey}

theorem scan_iff {tuple : List ValueKey} (wide : tuple.length = columns.length) :
    (((columns.map keysOf).zip tuple).all fun (keys, v) => keys = [] || v ∈ keys) = true ↔
      List.Forall₂ (fun key column => keysOf column = [] ∨ key ∈ keysOf column) tuple columns := by
  induction columns generalizing tuple with
  | nil => cases tuple <;> simp_all
  | cons column columns ih =>
    cases tuple with
    | nil => cases wide
    | cons key tuple =>
      have rest := ih (Nat.succ.inj wide)
      simp only [map_cons, zip_cons_cons, all_cons, Bool.and_eq_true, rest,
        forall₂_cons, Bool.or_eq_true, decide_eq_true_eq]

theorem product_iff {tuple : List ValueKey} (keyed : ∀ column ∈ columns, keysOf column ≠ []) :
    List.Forall₂ (fun key column => key ∈ keysOf column) tuple columns ↔
      List.Forall₂ (fun key column => keysOf column = [] ∨ key ∈ keysOf column) tuple columns := by
  induction columns generalizing tuple with
  | nil => simp
  | cons column columns ih =>
    cases tuple with
    | nil => simp
    | cons key tuple =>
      have rest := @ih tuple fun column hl => keyed column (mem_cons_of_mem _ hl)
      simp [rest, keyed column mem_cons_self]

variable {K : Type} [DecidableEq K]

theorem mem_classPoint {formsOf : String → List ColumnRange} {columns : ColumnSet}
    {cls : SubsumptionClass K} {fp : K}
    (wide : ∀ tuple, Posted cls.equality tuple fp → tuple.length = columns.length) :
    fp ∈ classPoint (columns.map formsOf) cls ↔
      (∃ tuple, List.Forall₂ (Admitted formsOf) tuple columns ∧ Posted cls.equality tuple fp) ∨
      fp ∈ cls.complex.candidatesPoint (columns.map formsOf) := by
  unfold classPoint
  dsimp only
  rw [mem_append, map_map]
  refine or_congr ?_ Iff.rfl
  split
  · rename_i hne
    have keyed : ∀ column ∈ columns, (formsOf column).filterMap equalKey ≠ [] := by
      intro column hl
      have here := all_eq_true.mp hne _ (mem_map_of_mem hl)
      simpa using here
    simp only [mem_flatMap, mem_valueKeyProduct, forall₂_map_right_iff]
    exact exists_congr fun tuple => and_congr_left' (product_iff keyed)
  · rw [mem_postingsWhere]
    exact exists_congr fun tuple => and_congr_left fun posted => scan_iff (wide tuple posted)

theorem forall₂_filed {R : ValueKey → String → Prop} {keyOf : String → Option ValueKey}
    {vs : List ValueKey} (filed : columns.map keyOf = vs.map some) :
    List.Forall₂ R vs columns ↔
      ∀ column ∈ columns, ∀ key, keyOf column = some key → R key column := by
  induction columns generalizing vs with
  | nil =>
    cases vs with
    | nil => simp
    | cons key vs => cases filed
  | cons column columns ih =>
    cases vs with
    | nil => cases filed
    | cons key vs =>
      obtain ⟨first, rest⟩ := cons.inj filed
      rw [forall₂_cons, ih rest, forall_mem_cons]
      refine and_congr_left' ?_
      simp [first]

end Equality

/-! ### The probe after any run -/

section Probe

variable {K : Type} [DecidableEq K] {doubles : Doubles} {table : TableMetadata} {row : RowData}

theorem keyed_iff {text : String} {v : LiteralValue} :
    (∀ key, tryNew v = some key → key ∈ textKeys doubles text) ↔ Reads doubles text v := by
  cases v with
  | boolean b => cases b <;> cases boolWireTextParse text <;> simp [tryNew, textKeys, Reads]
  | _ => simp [tryNew, textKeys, Reads]

theorem reached_equal {text : String} {v : LiteralValue} :
    Reached doubles text (.equal v) ↔ Reads doubles text v := by
  rw [← keyed_iff]
  unfold Reached
  cases keyed : tryNew v with
  | none => simp [placement, keyed, slotsOf, Slot.meets, textKeys]
  | some key => simp [placement, keyed, slotsOf, Slot.meets]

theorem mapM_tryNew_isSome {vs : List LiteralValue} (keyed : ∀ v ∈ vs, tryNew v ≠ none) :
    vs.mapM tryNew ≠ none := by
  induction vs with
  | nil => simp
  | cons v vs ih =>
    obtain ⟨key, here⟩ := ne_none_iff_exists'.mp (keyed v mem_cons_self)
    obtain ⟨keys, rest⟩ := ne_none_iff_exists'.mp
      (ih fun v listed => keyed v (mem_cons_of_mem _ listed))
    simp [mapM_cons, here, rest]

theorem reached_inSet {text : String} {vs : List LiteralValue} :
    Reached doubles text (.inSet vs) ↔ ∃ v ∈ vs, Reads doubles text v := by
  simp only [← keyed_iff]
  cases keyed : vs.mapM tryNew with
  | none =>
    refine iff_of_true ⟨.str text, mem_cons_self, .unplaced, ?_, rfl⟩ ?_
    · simp [placement, keyed, slotsOf]
    · by_contra all
      refine mapM_tryNew_isSome (fun v listed bare => all ⟨v, listed, ?_⟩) keyed
      simp [bare]
  | some keys =>
    have names := mapM_eq_some_iff.mp keyed
    have placed : Reached doubles text (.inSet vs) ↔
        ∃ key ∈ textKeys doubles text, key ∈ keys := by
      simp [Reached, placement, keyed, slotsOf, Slot.meets]
    rw [placed]
    constructor
    · rintro ⟨key, hit, listed⟩
      have inside : some key ∈ vs.map tryNew := by
        rw [names]
        exact mem_map_of_mem listed
      obtain ⟨v, member, is⟩ := mem_map.mp inside
      refine ⟨v, member, fun key' is' => ?_⟩
      cases is.symm.trans is'
      exact hit
    · rintro ⟨v, member, hit⟩
      have inside : tryNew v ∈ keys.map some := by
        rw [← names]
        exact mem_map_of_mem member
      obtain ⟨key, listed, is⟩ := mem_map.mp inside
      exact ⟨key, hit key is.symm, listed⟩

variable {constraints : List TableConstraint} {entries : KeyedMap K (List TableConstraint)}

theorem length_filed {columns : ColumnSet} {values : List ValueKey}
    (filed : membershipOf constraints = ⟨columns, .equality values⟩) :
    values.length = columns.length := by
  unfold membershipOf at filed
  split at filed
  · rename_i columns' values' classified
    cases filed
    have keys := congrArg length (mapM_eq_some_iff.mp (classify_pure classified).2)
    simpa using keys.symm
  · cases filed

theorem probed_iff {index : ConstraintIndex K}
    (represents : Represents index entries) {fp : K} (live : entries.lookup fp = some constraints)
    (formsOf : String → List ColumnRange) :
    fp ∈ index.candidatesPoint formsOf ↔
      ∃ cls, index.classes.lookup (membershipOf constraints).columns = some cls ∧
        ((∃ vs, (membershipOf constraints).payload = .equality vs ∧
            List.Forall₂ (Admitted formsOf) vs (membershipOf constraints).columns) ∨
          fp ∈ cls.complex.candidatesPoint ((membershipOf constraints).columns.map formsOf)) := by
  obtain ⟨consistent, recorded⟩ := represents
  have hm : index.membership.lookup fp = some (membershipOf constraints) := by
    rw [recorded fp, live, map_some]
  have filed : ∀ columns cls tuple, index.classes.lookup columns = some cls →
      (Posted cls.equality tuple fp ↔ membershipOf constraints = ⟨columns, .equality tuple⟩) := by
    intro columns cls tuple hf
    rw [(consistent.tracks columns cls hf).equality, payloadAt_iff, hm, some_inj]
  have wide : ∀ columns cls, index.classes.lookup columns = some cls →
      ∀ tuple, Posted cls.equality tuple fp → tuple.length = columns.length :=
    fun columns cls hf tuple posted => length_filed ((filed columns cls tuple hf).mp posted)
  rw [mem_candidatesPoint]
  constructor
  · rintro ⟨columns, cls, hf, probed⟩
    rcases (mem_classPoint (wide columns cls hf)).mp probed with ⟨tuple, admitted, posted⟩ | complex
    · have is := (filed columns cls tuple hf).mp posted
      rw [is]
      exact ⟨cls, hf, .inl ⟨tuple, rfl, admitted⟩⟩
    · obtain ⟨ranges, placed⟩ := complex_of_probed (consistent.tracks columns cls hf) complex
      rw [payloadAt_iff, hm, some_inj] at placed
      rw [placed]
      exact ⟨cls, hf, .inr complex⟩
  · rintro ⟨cls, hf, ⟨vs, is, admitted⟩ | complex⟩
    · refine ⟨_, cls, hf, (mem_classPoint (wide _ cls hf)).mpr (.inl ⟨vs, admitted, ?_⟩)⟩
      refine (filed _ cls vs hf).mpr ?_
      rw [← is]
    · exact ⟨_, cls, hf, (mem_classPoint (wide _ cls hf)).mpr (.inr complex)⟩

theorem admitted_iff {column : String} {v : LiteralValue} : (∀ key, tryNew v = some key →
        Admitted (rowValueForms doubles table row) key column) ↔
      ∀ text, rowText table row column = some text → Reached doubles text (.equal v) := by
  cases has : rowText table row column with
  | none => simp [Admitted, formKeys_absent has]
  | some text =>
    have keys : textKeys doubles text ≠ [] := by simp [textKeys]
    simp only [Admitted, formKeys_present has, keys, false_or, some_inj, forall_eq']
    exact keyed_iff.trans reached_equal.symm

theorem mem_forms_iff {column : String} {range : ColumnRange} {index : ColumnIndex K}
    {fp : K} (full : range ≠ .inSet [])
    (held : ∀ slot, Holds index fp slot ↔ slot ∈ slotsOf (placement range)) :
    fp ∈ (rowValueForms doubles table row column).flatMap index.containing ↔
      ∀ text, rowText table row column = some text → Reached doubles text range := by
  cases has : rowText table row column with
  | none =>
    rw [mem_forms_absent has]
    have placed : HeldBy index fp range := fun slot hm => (held slot).mpr hm
    exact iff_of_true (placed.exists_slot full) (by simp)
  | some text =>
    rw [mem_forms_present has]
    simp only [some_inj, forall_eq', Reached, held, and_comm]

theorem entry_probed_iff {index : ConstraintIndex K}
    (represents : Represents index entries) {fp : K} (live : entries.lookup fp = some constraints) :
    fp ∈ index.candidatesPoint (rowValueForms doubles table row) ↔
      ∀ column ∈ (classify constraints).columns, ∀ text, rowText table row column = some text →
        Reached doubles text (rangeOn constraints column) := by
  rw [probed_iff represents live]
  obtain ⟨consistent, recorded⟩ := represents
  have hm : index.membership.lookup fp = some (membershipOf constraints) := by
    rw [recorded fp, live, map_some]
  obtain ⟨cls, hf⟩ := consistent.classed fp _ hm
  have tracks := consistent.tracks _ cls hf
  have counted := consistent.counted _ cls hf
  have payload := (payloadAt_iff index.membership (membershipOf constraints).columns fp
    (membershipOf constraints).payload).mpr hm
  simp only [hf, some_inj, exists_eq_left']
  cases classified : classify constraints with
  | equalityPure columns vs =>
    have is : membershipOf constraints = ⟨columns, .equality vs⟩ := by
      rw [membershipOf, classified]
    rw [is] at tracks payload ⊢
    obtain ⟨single, keys⟩ := classify_pure classified
    have noComplex : fp ∉ cls.complex.candidatesPoint
        (columns.map (rowValueForms doubles table row)) := by
      intro complex
      obtain ⟨placed, o⟩ := complex_of_probed tracks complex
      cases payload.symm.trans o
    rw [mapM_eq_some_iff, map_map] at keys
    simp only [noComplex, or_false, MembershipPayload.equality.injEq, exists_eq_left',
      forall₂_filed keys]
    refine forall₂_congr fun column hl => ?_
    obtain ⟨v, he⟩ := single column hl
    rw [Function.comp_apply, he]
    exact admitted_iff
  | complex columns =>
    have is : membershipOf constraints =
        ⟨columns, .complex (columns.map (rangeOn constraints))⟩ := by
      rw [membershipOf, classified]
      rfl
    rw [is] at hm tracks counted payload ⊢
    have some : cls.complex.len ≠ 0 := by
      rw [counted]
      exact ((count_pos_iff _ _).mpr ⟨fp, _, hm, by simp [complexAt]⟩).ne'
    simp only [reduceCtorEq, false_and, exists_false, false_or]
    rw [ComplexIndex.candidatesPoint, if_neg some]
    exact mem_intersect_iff tracks (classify_complex classified) payload
      fun column hl index held => mem_forms_iff (rangeOn_ne_emptySet constraints column) held

/-- After any history, the point probe returns the live entries all of whose columns the row's
texts reach, and nothing else. -/
theorem point_probe_exact (ops : List (IndexOp K)) (fp : K) :
    fp ∈ (indexAfter ops).candidatesPoint (rowValueForms doubles table row) ↔
      ∃ constraints, (liveAfter ops).lookup fp = some constraints ∧
        ∀ column ∈ (classify constraints).columns, ∀ text, rowText table row column = some text →
          Reached doubles text (rangeOn constraints column) := by
  have represents := represents_after ops
  constructor
  · intro probed
    have member := (History.member_of_candidates represents.consistent).2 _ probed
    rw [represents.recorded, ne_eq, map_eq_none_iff] at member
    obtain ⟨constraints, live⟩ := ne_none_iff_exists'.mp member
    exact ⟨constraints, live, (entry_probed_iff represents live).mp probed⟩
  · rintro ⟨constraints, live, reached⟩
    exact (entry_probed_iff represents live).mpr reached

end Probe

/-! ### Rows the constraints accept -/

section Accepted

variable {doubles : Doubles} {table : TableMetadata} {row : RowData}

def readingOf (doubles : Doubles) (text : String) : LiteralValue → Option ValueKey
  | .string _ | .stringWithCast _ _ => some (.str text)
  | .integer _ | .float _ => (doubles.parse text).map .num
  | .boolean _ => (boolWireTextParse text).map .bool
  | .null | .nullWithCast _ | .parameter _ | .array _ _ => none

variable {text column : String} {side : BoundSide} {constraints : List TableConstraint}

theorem readingOf_mem {v : LiteralValue} {key : ValueKey}
    (reads : readingOf doubles text v = some key) : key ∈ textKeys doubles text := by
  cases v <;> simp_all [readingOf, textKeys]

theorem orient_of_holds {op : BinaryOp} {ord : Ordering}
    (kind : Bounding side op) (h : op.holds ord = true) : side.orient ord ≠ .lt := by
  cases side <;> rcases kind with rfl | rfl <;> cases ord <;>
    simp_all [BinaryOp.holds, BoundSide.orient]

theorem keyInside_str {filter : String} (inner : side.orient (compare text filter) ≠ .lt) :
    keyInside side (.str filter) (.str text) = true := by
  have swapped : compare filter text = (compare text filter).swap := Std.OrientedOrd.eq_swap
  cases side with
  | lower =>
    refine decide_eq_true fun greater => inner ?_
    rw [show compare filter text = .gt from greater] at swapped
    exact (Ordering.swap_eq_gt.mp swapped.symm)
  | upper =>
    refine decide_eq_true fun greater => inner ?_
    rw [BoundSide.orient, show compare text filter = .gt from greater]
    rfl

theorem keyInside_of_accepted (reads : ReadsIntegers doubles) {v : LiteralValue} {op : BinaryOp}
    (kind : Bounding side op)
    (accepted : whereValueCompareString doubles v text op = true) :
    ∃ b key, tryNew v = some b ∧ readingOf doubles text v = some key ∧
      keyInside side b key = true := by
  cases v with
  | string filter => exact ⟨_, _, rfl, rfl, keyInside_str (orient_of_holds kind accepted)⟩
  | stringWithCast filter cast =>
    exact ⟨_, _, rfl, rfl, keyInside_str (orient_of_holds kind accepted)⟩
  | integer filter =>
    obtain ⟨i, parsed, h⟩ := (any_eq_true _ _).mp accepted
    refine ⟨_, .num (i64AsF64 i), rfl, by rw [readingOf, reads text i parsed]; rfl, ?_⟩
    have hd : literalValueOrder (.integer i) (.integer filter) =
        some (compare i.toInt filter.toInt) := rfl
    exact keyInside_of_order hd (orient_of_holds kind h) rfl rfl
  | float filter =>
    obtain ⟨f, parsed, h⟩ := (any_eq_true _ _).mp accepted
    have compares : op.holds (f.cmp filter) = true := by
      cases side <;> rcases kind with rfl | rfl <;> exact h
    refine ⟨_, .num f, rfl, by rw [readingOf, parsed]; rfl, ?_⟩
    have hd : literalValueOrder (.float f) (.float filter) = some (f.cmp filter) := rfl
    exact keyInside_of_order hd (orient_of_holds kind compares) rfl rfl
  | boolean filter =>
    exfalso
    cases read : boolWireTextParse text <;> cases side <;> rcases kind with rfl | rfl <;>
      simp [whereValueCompareString, boolTextCompare, read] at accepted
  | null | nullWithCast | parameter | array => cases accepted

theorem readingOf_ordered {a b : LiteralValue} {ord : Ordering}
    (hd : literalValueOrder a b = some ord) :
    readingOf doubles text a = readingOf doubles text b := by
  unfold literalValueOrder at hd
  split at hd
  · rfl
  · rfl
  · cases hd

theorem reached_range (reads : ReadsIntegers doubles) {comparisons : List (BinaryOp × LiteralValue)}
    {view : RangeView} (built : comparisonRangeBuild comparisons = .range view)
    (accepted : ∀ c ∈ comparisons, whereValueCompareString doubles c.2 text c.1 = true) :
    Reached doubles text (.range view) := by
  have bounded : ∀ side b, view.bound side = some b → ∃ keyB key, tryNew b.value = some keyB ∧
        readingOf doubles text b.value = some key ∧ keyInside side keyB key = true := by
    intro side b hf
    obtain ⟨op, kind, hl⟩ := bounding_comparisonRangeBuild built hf
    exact keyInside_of_accepted reads kind (accepted _ hl)
  cases below : view.lower with
  | none =>
    cases above : view.upper with
    | none =>
      refine ⟨.str text, mem_cons_self, .unplaced, ?_, rfl⟩
      simp [placement, below, above, slotsOf]
    | some upper =>
      obtain ⟨keyB, key, keyed, read, inner⟩ := bounded .upper upper above
      refine ⟨key, readingOf_mem read, .upper keyB, ?_, inner⟩
      simp [placement, below, above, keyed, slotsOf]
  | some lower =>
    obtain ⟨keyL, key, keyedL, read, innerL⟩ := bounded .lower lower below
    cases above : view.upper with
    | none =>
      refine ⟨key, readingOf_mem read, .lower keyL, ?_, innerL⟩
      simp [placement, below, above, keyedL, slotsOf]
    | some upper =>
      obtain ⟨keyU, key', keyedU, read', innerU⟩ := bounded .upper upper above
      have same : key = key' := by
        rw [readingOf_ordered (interval_ordered built below above), read'] at read
        exact (some_inj.mp read).symm
      subst same
      refine ⟨key, readingOf_mem read, .both keyL keyU, ?_,
        Bool.and_eq_true_iff.mpr ⟨innerL, innerU⟩⟩
      simp [placement, below, above, keyedL, keyedU, slotsOf]

theorem slot_of_text (hp : rowText table row column = some text) :
    ((table.columns.get column).bind fun metadata => row[metadata.index]?) = some (some text) := by
  obtain ⟨metadata, hf, joined⟩ := bind_eq_some_iff.mp hp
  rw [hf, bind_some]
  exact join_eq_some_iff.mp joined

theorem reads_of_accepted (reads : ReadsIntegers doubles) {v : LiteralValue}
    (accepted : whereValueCompareString doubles v text .equal = true)
    (exact_ : ∀ f, v = .float f → doubles.parse text = some f) : Reads doubles text v := by
  cases v with
  | string filter | stringWithCast filter cast =>
    have same : compare text filter = .eq := of_decide_eq_true accepted
    exact (Std.compare_eq_iff_eq.mp same).symm
  | integer filter =>
    obtain ⟨i, parsed, h⟩ := (any_eq_true _ _).mp accepted
    have same : compare i.toInt filter.toInt = .eq := of_decide_eq_true h
    obtain rfl : i = filter := Int64.toInt_inj.mp (compare_eq_iff_eq.mp same)
    exact reads text i parsed
  | float filter => exact exact_ filter rfl
  | boolean filter =>
    cases read : boolWireTextParse text <;>
      simp_all [whereValueCompareString, boolTextCompare, Reads]
  | null | nullWithCast | parameter | array => cases accepted

theorem reads_of_pinned (reads : ReadsIntegers doubles) {v : LiteralValue}
    (typed : (numberType v).isSome)
    (above : whereValueCompareString doubles v text .greaterThanOrEqual = true)
    (below : whereValueCompareString doubles v text .lessThanOrEqual = true) :
    Reads doubles text v := by
  have level {ord : Ordering} (up : BinaryOp.greaterThanOrEqual.holds ord = true)
      (down : BinaryOp.lessThanOrEqual.holds ord = true) : ord = .eq := by
    cases ord <;> simp_all [BinaryOp.holds]
  cases v <;> cases typed
  case integer.refl filter =>
    obtain ⟨i, parsed, up⟩ := (any_eq_true _ _).mp above
    obtain ⟨i', parsed', down⟩ := (any_eq_true _ _).mp below
    cases parsed.symm.trans parsed'
    obtain rfl : i = filter := Int64.toInt_inj.mp (compare_eq_iff_eq.mp (level up down))
    exact reads text i parsed
  case float.refl filter =>
    obtain ⟨f, parsed, up⟩ := (any_eq_true _ _).mp above
    obtain ⟨f', parsed', down⟩ := (any_eq_true _ _).mp below
    cases parsed.symm.trans parsed'
    obtain rfl : f = filter := (F64.cmp_eq_iff f filter).mp (level up down)
    exact parsed

variable {range : ColumnRange}

theorem reached_unplaced (only : slotsOf (placement range) = [.unplaced]) :
    Reached doubles text range :=
  ⟨.str text, mem_cons_self, .unplaced, by rw [only]; exact mem_cons_self, rfl⟩

theorem reached_named (full : range ≠ .inSet [])
    (names : (∃ v, range = .equal v) ∨ ∃ vs, range = .inSet vs) :
    (∃ v, Fitting range v) ∧
      (Reached doubles text range ↔ ∃ v, Fitting range v ∧ Reads doubles text v) := by
  rcases names with ⟨v, rfl⟩ | ⟨vs, rfl⟩
  · refine ⟨⟨v, rfl⟩, ?_⟩
    rw [reached_equal]
    simp [Fitting]
  · refine ⟨?_, reached_inSet⟩
    cases vs with
    | nil => exact absurd rfl full
    | cons v vs => exact ⟨v, mem_cons_self⟩

section Matched

variable (reads : ReadsIntegers doubles) (matched : ∀ c ∈ comparisonsOf constraints,
  whereValueCompareString doubles c.2 text c.1 = true)
include reads matched

theorem equality_reads {v : LiteralValue} (listed : (.equal, v) ∈ comparisonsOf constraints) :
    Reads doubles text v ↔ ∀ f, v = .float f → doubles.parse text = some f := by
  refine ⟨?_, reads_of_accepted reads (matched _ listed)⟩
  rintro read f rfl
  exact read

theorem named_spelled (listed : ∃ v, Listed constraints v)
    (sets : (∀ v, (.equal, v) ∉ comparisonsOf constraints) → inSetsOf constraints ≠ []) :
    (∃ v, Listed constraints v ∧ Reads doubles text v) ↔ Spelled doubles text constraints := by
  by_cases equated : ∃ v, (.equal, v) ∈ comparisonsOf constraints
  · obtain ⟨v, compared⟩ := equated
    have only {w : LiteralValue} (lw : Listed constraints w) : v = w := (lw.1 _ compared).2
    obtain ⟨w, lw⟩ := listed
    cases only lw
    have read := equality_reads reads matched compared
    constructor
    · rintro ⟨w, lw', here⟩
      cases only lw'
      refine ⟨fun f compared' lf => read.mp here f (only lf), fun none => absurd compared (none v)⟩
    · rintro ⟨decimals, -⟩
      refine ⟨v, lw, read.mpr ?_⟩
      rintro f rfl
      exact decimals f compared lw
  · rw [not_exists] at equated
    exact ⟨fun here => ⟨fun f compared => absurd compared (equated _), fun _ _ _ => here⟩,
      fun here => here.2 equated (sets equated) listed⟩

theorem reached_iff (reduced : Reduced constraints)
    (full : columnRangeBuild constraints ≠ .inSet []) :
    Reached doubles text (columnRangeBuild constraints) ↔ Spelled doubles text constraints := by
  have fits (v : LiteralValue) := @fitting_columnRangeBuild v constraints reduced
  have unlisted (none : ∀ v, ¬ Fitting (columnRangeBuild constraints) v)
      (v : LiteralValue) : ¬ Listed constraints v := fun listed => none v ((fits v).mpr listed)
  have named (names : (∃ v, columnRangeBuild constraints = .equal v) ∨
      ∃ vs, columnRangeBuild constraints = .inSet vs)
      (sets : (∀ v, (.equal, v) ∉ comparisonsOf constraints) → inSetsOf constraints ≠ []) := by
    obtain ⟨listed, reached⟩ := @reached_named doubles text _ full names
    simp only [fits] at listed reached
    exact reached.trans (named_spelled reads matched listed sets)
  cases shape : columnRangeBuild constraints with
  | unknown | empty =>
    have none := unlisted (by simp [shape, Fitting])
    exact iff_of_true (reached_unplaced rfl)
      ⟨fun f _ listed => absurd listed (none _), fun _ _ found => found.elim fun v listed =>
        absurd listed (none v)⟩
  | unconstrained =>
    have all (v : LiteralValue) : Listed constraints v := (fits v).mp (by simp [shape, Fitting])
    refine iff_of_true (reached_unplaced rfl)
      ⟨fun f compared _ => ?_, fun _ _ _ => ⟨.string text, all _, rfl⟩⟩
    cases ((all .null).1 _ compared).2
  | range view =>
    have none := inSetsOf_of_range shape
    have interval := (columnRangeBuild_bare none).symm.trans shape
    refine iff_of_true (reached_range reads interval matched)
      ⟨fun f compared _ => ?_, fun _ some => absurd none some⟩
    exact absurd (.inl compared) ((interval_comparisonRangeBuild interval).1 _)
  | equal v =>
    by_cases sets : inSetsOf constraints = []
    · obtain ⟨pins, only, typed, -, -⟩ :=
        point_comparisonRangeBuild ((columnRangeBuild_bare sets).symm.trans shape)
      by_cases equated : (.equal, v) ∈ comparisonsOf constraints
      · exact shape ▸ named (.inl ⟨v, shape⟩) fun none => absurd equated (none v)
      · obtain ⟨above, below⟩ := pins.resolve_left equated
        have read := reads_of_pinned reads (typed.resolve_left equated) (matched _ above)
          (matched _ below)
        refine iff_of_true (reached_equal.mpr read)
          ⟨fun f compared => ?_, fun _ some => absurd sets some⟩
        exact absurd (only _ compared ▸ compared) equated
    · exact shape ▸ named (.inl ⟨v, shape⟩) fun _ => sets
  | inSet vs =>
    refine shape ▸ named (.inr ⟨vs, shape⟩) fun _ none => ?_
    exact not_inSet ((columnRangeBuild_bare none).symm.trans shape)

end Matched

theorem matched_onColumn
    (accepted : ∀ k ∈ constraints, constraintRowMatches doubles k table row = true)
    (hp : rowText table row column = some text)
    (uncast : ∀ target op value, .castComparison column target op value ∉ constraints) :
    ∀ c ∈ comparisonsOf (onColumn constraints column),
      whereValueCompareString doubles c.2 text c.1 = true := by
  intro c listed
  obtain ⟨k, hk, reads⟩ := mem_filterMap.mp listed
  obtain ⟨member, here⟩ := mem_filter.mp hk
  have onThis : constraintColumn k = column := of_decide_eq_true here
  cases k with
  | comparison column' op value =>
    cases reads
    obtain rfl : column' = column := onThis
    have matched := accepted _ member
    rw [constraintRowMatches, constraintColumn, slot_of_text hp] at matched
    exact matched
  | castComparison column' target op value =>
    obtain rfl : column' = column := onThis
    exact absurd member (uncast target op value)
  | anyOf column' values => cases reads

theorem reached_iff_spelled (reads : ReadsIntegers doubles)
    (accepted : ∀ k ∈ constraints, constraintRowMatches doubles k table row = true)
    (hp : rowText table row column = some text) :
    Reached doubles text (rangeOn constraints column) ↔
      SpelledOn doubles text constraints column := by
  have full := rangeOn_ne_emptySet constraints column
  unfold rangeOn at full ⊢
  dsimp only at full ⊢
  split at full
  · rename_i cast
    obtain ⟨k, listed, isCast⟩ := any_eq_true.mp cast
    obtain ⟨member, here⟩ := mem_filter.mp listed
    rw [if_pos cast]
    refine iff_of_true (reached_unplaced rfl) fun uncast => ?_
    cases k with
    | castComparison column' target op value =>
      cases of_decide_eq_true here
      exact absurd member (uncast target op value)
    | comparison | anyOf => cases isCast
  · rename_i bare
    rw [if_neg bare]
    have uncast (target : CastTarget) (op : BinaryOp) (value : LiteralValue) :
        .castComparison column target op value ∉ constraints := fun member =>
      bare (any_eq_true.mpr ⟨_, mem_filter.mpr ⟨member, decide_eq_true rfl⟩, rfl⟩)
    change Reached doubles text (columnRangeBuild (onColumn constraints column)) ↔ _
    by_cases reduced : Reduced (onColumn constraints column)
    · rw [reached_iff reads (matched_onColumn accepted hp uncast) reduced full]
      exact ⟨fun spelled _ _ => spelled, fun spelled => spelled uncast reduced⟩
    · refine iff_of_true ?_ fun _ reduced' => absurd reduced' reduced
      rcases columnRangeBuild_unreduced reduced with is | is <;> rw [is] <;>
        exact reached_unplaced rfl

/-- The point probe returns a live entry whose constraints accept the row exactly when every column
of it that has a text in the row is spelled as the text is. -/
theorem accepting_entry_probed {K : Type} [DecidableEq K] (reads : ReadsIntegers doubles)
    (ops : List (IndexOp K)) (constraints : QueryConstraints) (fp : K)
    (live : (liveAfter ops).lookup fp = some (constraintsOn constraints table.name))
    (accepted : rowConstraintsMatch doubles constraints table row = true) :
    fp ∈ (indexAfter ops).candidatesPoint (rowValueForms doubles table row) ↔
      ∀ column ∈ (classify (constraintsOn constraints table.name)).columns,
        ∀ text, rowText table row column = some text →
          SpelledOn doubles text (constraintsOn constraints table.name) column := by
  have matches' : ∀ constraint ∈ constraintsOn constraints table.name,
      constraintRowMatches doubles constraint table row = true := by
    unfold rowConstraintsMatch at accepted
    unfold constraintsOn
    cases found : constraints.tableConstraints.lookup table.name with
    | none => simp
    | some onTable =>
      rw [found, all_some, all_eq_true] at accepted
      exact accepted
  rw [entry_probed_iff (represents_after ops) live]
  exact forall₂_congr fun column _ => forall₂_congr fun text present =>
    reached_iff_spelled reads matches' present

end Accepted

section Prices

def pricesTable : TableMetadata where
  relationOid := 16400
  name := "prices"
  schema := "public"
  primaryKeyColumns := ["id"]
  columns := ⟨[⟨"id", 1, .int4, true⟩, ⟨"price", 2, .float8, false⟩], by decide⟩
  replicaIdentityFull := false

-- Integer texts, and the double after 0.3.
def pricesDoubles : Doubles where
  parse := fun text =>
    if text = "0.30000000000000004" then some (.fin (5404319552844596 / 2 ^ 54))
    else (parseI64 text).map i64AsF64
  gap := fun
    | .fin a, .fin b => some (.fin |a - b|)
    | _, _ => none

theorem pricesDoubles_reads : ReadsIntegers pricesDoubles := by
  intro text i parsed
  have o : text ≠ "0.30000000000000004" := by
    rintro rfl
    have unread : parseI64 "0.30000000000000004" = none := by decide +kernel
    cases unread.symm.trans parsed
  simp [pricesDoubles, o, parsed]

def pricesWhere (constraints : List TableConstraint) : QueryConstraints :=
  ⟨[], [], AList.singleton "prices" constraints, true⟩

def sevenForTwelve : List TableConstraint :=
  [.anyOf "id" [.integer 5, .integer 7], .comparison "id" .greaterThan (.integer 4),
    .comparison "price" .equal (.float (.fin 12))]

theorem priced_row_finds_entry :
    rowConstraintsMatch pricesDoubles (pricesWhere sevenForTwelve) pricesTable
        [some "7", some "12"] = true ∧
      1 ∈ (indexAfter [.insert 1 sevenForTwelve]).candidatesPoint
        (rowValueForms pricesDoubles pricesTable [some "7", some "12"]) := by
  have accepted : rowConstraintsMatch pricesDoubles (pricesWhere sevenForTwelve) pricesTable
      [some "7", some "12"] = true := by decide +kernel
  refine ⟨accepted, ?_⟩
  refine (accepting_entry_probed pricesDoubles_reads [.insert 1 sevenForTwelve]
    (pricesWhere sevenForTwelve) 1 rfl accepted).mpr fun column listed text present _ _ => ?_
  have columns : (classify (constraintsOn (pricesWhere sevenForTwelve) pricesTable.name)).columns =
      ["id", "price"] := by decide +kernel
  have listed : column = "id" ∨ column = "price" := by simpa [columns] using listed
  rcases listed with rfl | rfl
  · have read : rowText pricesTable [some "7", some "12"] "id" = some "7" := by decide +kernel
    cases read.symm.trans present
    have only : onColumn (constraintsOn (pricesWhere sevenForTwelve) pricesTable.name) "id" =
        [.anyOf "id" [.integer 5, .integer 7], .comparison "id" .greaterThan (.integer 4)] := by
      decide +kernel
    rw [only]
    refine ⟨by simp [comparisonsOf], fun _ _ _ => ⟨.integer 7, ⟨?_, by simp [inSetsOf]⟩, ?_⟩⟩
    · intro c compared
      obtain rfl : c = (.greaterThan, .integer 4) := by simpa [comparisonsOf] using compared
      exact ⟨rfl, .lower, .inl rfl, by decide⟩
    · exact pricesDoubles_reads "7" 7 (by decide +kernel)
  · have read : rowText pricesTable [some "7", some "12"] "price" = some "12" := by decide +kernel
    cases read.symm.trans present
    have only : onColumn (constraintsOn (pricesWhere sevenForTwelve) pricesTable.name) "price" =
        [.comparison "price" .equal (.float (.fin 12))] := by decide +kernel
    rw [only]
    refine ⟨fun f compared _ => ?_, fun none => absurd mem_cons_self (none (.float (.fin 12)))⟩
    obtain rfl : f = .fin 12 := by simpa [comparisonsOf] using compared
    decide +kernel

/-- Two entries the matcher accepts and the probe misses. `price = 0.3` accepts the next double,
which is less than an epsilon away and has a key of its own. `id IN (5, 7.0) AND id > 4` accepts
`7`, but its range dropped `7.0`, which the code cannot order against `4`. -/
theorem accepting_entries_missed :
    let nearly := [TableConstraint.comparison "price" .equal
      (.float (.fin (5404319552844595 / 2 ^ 54)))]
    let mixed := [TableConstraint.anyOf "id" [.integer 5, .float (.fin 7)],
      .comparison "id" .greaterThan (.integer 4)]
    let row := [some "7", some "0.30000000000000004"]
    let ops : List (IndexOp Nat) := [.insert 1 nearly, .insert 2 mixed]
    ((liveAfter ops).lookup 1 = some nearly ∧
        rowConstraintsMatch pricesDoubles (pricesWhere nearly) pricesTable row = true ∧
        1 ∉ (indexAfter ops).candidatesPoint (rowValueForms pricesDoubles pricesTable row)) ∧
      ((liveAfter ops).lookup 2 = some mixed ∧
        rowConstraintsMatch pricesDoubles (pricesWhere mixed) pricesTable row = true ∧
        2 ∉ (indexAfter ops).candidatesPoint (rowValueForms pricesDoubles pricesTable row)) := by
  decide +kernel

end Prices

end PgCache.Cache.Cdc.PointProbe
