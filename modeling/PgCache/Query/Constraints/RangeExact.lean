/- source: query/constraints/range.rs, query/constraints/range_overlap.rs
   digest: What is lost when comparisons are reduced to a range: a value inside the bounds of a
     built range meets every comparison but perhaps an exclusion, and both answers of the
     containment test and the disjointness test are judged by that. -/
import PgCache.Query.Constraints.RangeMeaning

set_option autoImplicit false

namespace PgCache.Query.Constraints.RangeExact

open Literal Range RangeOverlap RangeScan RangeMeaning List BinaryOp BoundSide

variable {V : Type} [LinearOrder V]

def Spans (S : ColumnValues V) (column : String) : ColumnRange → Option V → Prop
  | .range view, value =>
    ∀ side bound, view.bound side = some bound → S.Within column side bound value
  | range, value => S.Admits column range value

def Valued (S : ColumnValues V) (column : String) (literals : List LiteralValue) : Prop :=
  ∀ literal ∈ literals, literalValueIsIncomparable literal = false →
    ∃ x, S.literal column literal = some x

def boundLiterals (cs : List (BinaryOp × LiteralValue)) : List LiteralValue :=
  cs.filterMap fun
    | (.greaterThan, value) | (.greaterThanOrEqual, value)
    | (.lessThan, value) | (.lessThanOrEqual, value) => some value
    | _ => none

def Excludes : ColumnRange → LiteralValue → Prop
  | .equal literal, other => literal ≠ other
  | .inSet literals, other => other ∉ literals
  | .range view, other => other ∈ view.notEqual
  | .unconstrained, _ => False
  | .unknown, _ | .empty, _ => True

variable {S : ColumnValues V} {column : String}

/-! ### The invariant of the scan -/

variable {side : BoundSide} {x : V} {value : Option V}
  {cs read : List (BinaryOp × LiteralValue)} {literal : LiteralValue} {bound : RangeBound}

def numberType : LiteralValue → Option Bool
  | .integer _ => some true
  | .float _ => some false
  | _ => none

theorem isSome_literalValueOrder {a b : LiteralValue} : (literalValueOrder a b).isSome ↔
    ∃ type, numberType a = some type ∧ numberType b = some type := by
  cases a <;> cases b <;> simp [literalValueOrder, numberType]

theorem ordered_trans {a b c : LiteralValue} (hab : (literalValueOrder a b).isSome)
    (hbc : (literalValueOrder b c).isSome) : (literalValueOrder a c).isSome := by
  obtain ⟨type, ha, hb⟩ := isSome_literalValueOrder.mp hab
  obtain ⟨type', hb', hc⟩ := isSome_literalValueOrder.mp hbc
  cases hb.symm.trans hb'
  exact isSome_literalValueOrder.mpr ⟨type, ha, hc⟩

theorem literalValueOrder_swap (a b : LiteralValue) :
    literalValueOrder b a = (literalValueOrder a b).map Ordering.swap := by
  cases a <;> cases b <;> try rfl
  case integer.integer i j =>
    exact congrArg some (Int.compare_swap i.toInt j.toInt).symm
  case float.float f g => exact congrArg some (F64.cmp_swap f g).symm

theorem ordered_symm {a b : LiteralValue} (hab : (literalValueOrder a b).isSome) :
    (literalValueOrder b a).isSome := by
  rw [literalValueOrder_swap, Option.isSome_map]
  exact hab

/-- One literal, or two of one numeric type of which the second is no less far inside. -/
def Behind (side : BoundSide) (a b : LiteralValue) : Prop :=
  a = b ∨ ∃ ord, literalValueOrder a b = some ord ∧ side.orient ord ≠ .gt

theorem orient_trans {m n k : F64} (hmn : side.orient (m.cmp n) ≠ .gt)
    (hnk : side.orient (n.cmp k) ≠ .gt) : side.orient (m.cmp k) ≠ .gt := by
  have := F64.transCmp
  cases side with
  | lower =>
    simp only [orient, ← Ordering.isLE_iff_ne_gt, ne_eq] at hmn hnk ⊢
    exact Std.TransCmp.isLE_trans hmn hnk
  | upper =>
    simp only [orient, F64.cmp_swap, ← Ordering.isLE_iff_ne_gt, ne_eq] at hmn hnk ⊢
    exact Std.TransCmp.isLE_trans hnk hmn

theorem Behind.trans {a b c : LiteralValue} (hab : Behind side a b) (hbc : Behind side b c) :
    Behind side a c := by
  rcases hab with rfl | ⟨o, ho, near⟩
  · exact hbc
  rcases hbc with rfl | ⟨o', ho', near'⟩
  · exact .inr ⟨o, ho, near⟩
  obtain ⟨m, n, hm, hn, rfl⟩ := literalValueOrder_numeric ho
  obtain ⟨n', k, hn', hk, rfl⟩ := literalValueOrder_numeric ho'
  cases hn.symm.trans hn'
  obtain ⟨o, far⟩ := Option.isSome_iff_exists.mp
    (ordered_trans (Option.isSome_of_eq_some ho) (Option.isSome_of_eq_some ho'))
  obtain ⟨m', k', hm', hk', rfl⟩ := literalValueOrder_numeric far
  cases hm.symm.trans hm'
  cases hk.symm.trans hk'
  exact .inr ⟨_, far, orient_trans near near'⟩

theorem Behind.flip {a b : LiteralValue} (hab : Behind .upper a b) : Behind .lower b a := by
  rcases hab with rfl | ⟨ord, ho, near⟩
  · exact .inl rfl
  · exact .inr ⟨ord.swap, by rw [literalValueOrder_swap, ho]; rfl, near⟩

theorem Behind.ordered {a b c : LiteralValue} (hab : (literalValueOrder a b).isSome)
    (hcb : Behind side c b) : (literalValueOrder a c).isSome := by
  rcases hcb with rfl | ⟨o, ho, -⟩
  · exact hab
  · exact ordered_trans hab (ordered_symm (Option.isSome_of_eq_some ho))

theorem bounding_unique {op : BinaryOp} {other : BoundSide} (here : Bounding side op)
    (there : Bounding other op) : other = side := by
  cases side <;> cases other <;> rcases here with rfl | rfl <;> simp [Bounding] at there ⊢

structure ScanUniform (read : List (BinaryOp × LiteralValue)) (scan : ComparisonScan) : Prop
    extends ScanOrigin read scan where
  comparable : ∀ c ∈ read, literalValueIsIncomparable c.2 = false
  equals : ∀ literal, (equal, literal) ∈ read → scan.equalValue = some literal
  excluded : ∀ literal, (notEqual, literal) ∈ read → literal ∈ scan.notEqual
  bounds : ∀ side op literal, Bounding side op → (op, literal) ∈ read →
    ∃ bound, scanBound scan side = some bound ∧ Behind side literal bound.value
  source : ∀ side bound, scanBound scan side = some bound →
    ∃ op, Bounding side op ∧ (op, bound.value) ∈ read ∧ bound = boundOf op bound.value

theorem ScanUniform.start : ScanUniform [] {} :=
  ⟨.start, by simp, by simp, by simp, by simp, by
    intro side bound found
    cases side <;> cases found⟩

theorem eq_of_level {a b : LiteralValue} (level : literalValueOrder a b = some .eq) : a = b := by
  cases a <;> cases b <;> simp only [literalValueOrder, reduceCtorEq, Option.some_inj] at level
  case integer.integer => rw [Int64.toInt_inj.mp (compare_eq_iff_eq.mp level)]
  case float.float f g => rw [(F64.cmp_eq_iff f g).mp level]

theorem boundMerge_behind {slot : Option RangeBound} {candidate merged : RangeBound}
    (merge : boundMerge slot side candidate = some merged) :
    Behind side candidate.value merged.value ∧
      (∀ bound, slot = some bound → Behind side bound.value merged.value) ∧
      (merged = candidate ∨ slot = some merged) := by
  cases slot with
  | none =>
    cases merge
    exact ⟨.inl rfl, by simp, .inl rfl⟩
  | some existing =>
    simp only [boundMerge, boundTighten, Option.map_eq_some_iff] at merge
    obtain ⟨ord, ho, rfl⟩ := merge
    have back : literalValueOrder candidate.value existing.value = some ord.swap := by
      rw [literalValueOrder_swap, ho]
      rfl
    have swapped : side.orient ord.swap = (side.orient ord).swap := by cases side <;> rfl
    split
    · rename_i behind
      refine ⟨.inl rfl, fun bound same => ?_, .inl rfl⟩
      cases same
      exact .inr ⟨_, ho, by simp [behind]⟩
    · rename_i ahead
      refine ⟨.inr ⟨_, back, by simp [swapped, ahead]⟩, fun bound same => ?_, .inr rfl⟩
      cases same
      exact .inl rfl
    · rename_i level
      obtain rfl : ord = .eq := by cases side <;> cases ord <;> cases level <;> rfl
      have same := eq_of_level ho
      refine ⟨.inl same.symm, fun bound slot => ?_, ?_⟩
      · cases slot
        exact .inl rfl
      · obtain ⟨value, closed⟩ := existing
        obtain ⟨value', closed'⟩ := candidate
        cases same
        cases closed <;> cases closed' <;> simp

theorem ScanUniform.next {scan after : ComparisonScan} {op : BinaryOp}
    (hb : ScanUniform read scan) (comparable : literalValueIsIncomparable literal = false)
    (step : ScanRead scan literal op after) : ScanUniform (read ++ [(op, literal)]) after := by
  have origin := hb.toScanOrigin.next step
  have comparable : ∀ c ∈ read ++ [(op, literal)], literalValueIsIncomparable c.2 = false := by
    simpa [or_imp, forall_and, comparable] using hb.comparable
  have older {op' : BinaryOp} {other : LiteralValue} (different : op' ≠ op)
      (listed : (op', other) ∈ read ++ [(op, literal)]) : (op', other) ∈ read := by
    rcases mem_append.mp listed with listed | last
    · exact listed
    · cases mem_singleton.mp last
      exact absurd rfl different
  have plain (unbounding : ∀ side, ¬ Bounding side op)
      (same : ∀ side, scanBound after side = scanBound scan side) :
      (∀ side op' other, Bounding side op' → (op', other) ∈ read ++ [(op, literal)] →
        ∃ bound, scanBound after side = some bound ∧ Behind side other bound.value) ∧
      ∀ side bound, scanBound after side = some bound → ∃ op', Bounding side op' ∧
        (op', bound.value) ∈ read ++ [(op, literal)] ∧ bound = boundOf op' bound.value := by
    refine ⟨fun side op' other kind listed => ?_, fun side bound found => ?_⟩
    · rw [same]
      exact hb.bounds side op' other kind
        (older (fun equal => unbounding side (equal ▸ kind)) listed)
    · rw [same] at found
      obtain ⟨op', kind, listed, is⟩ := hb.source side bound found
      exact ⟨op', kind, mem_append_left _ listed, is⟩
  cases step with
  | equal same =>
    obtain ⟨bounds, source⟩ := plain (by rintro (_ | _) <;> simp [Bounding])
      (by rintro (_ | _) <;> rfl)
    refine ⟨origin, comparable, fun other listed => ?_,
      fun other listed => hb.excluded other (older (by simp) listed), bounds, source⟩
    rcases mem_append.mp listed with listed | last
    · rw [same other (hb.equals other listed)]
    · cases mem_singleton.mp last
      rfl
  | notEqual =>
    obtain ⟨bounds, source⟩ := plain (by rintro (_ | _) <;> simp [Bounding])
      (by rintro (_ | _) <;> rfl)
    refine ⟨origin, comparable, fun other listed => hb.equals other (older (by simp) listed),
      fun other listed => ?_, bounds, source⟩
    rcases mem_append.mp listed with listed | last
    · exact mem_append_left _ (hb.excluded other listed)
    · cases mem_singleton.mp last
      exact mem_append_right _ mem_cons_self
  | @bound side _ merged kind merge =>
    obtain ⟨last, earlier, either⟩ := boundMerge_behind merge
    have here : scanBound (withBound scan merged side) side = some merged := by cases side <;> rfl
    refine ⟨origin, comparable, fun other listed => ?_, fun other listed => ?_,
      fun side' op' other kind' listed => ?_, fun side' bound found => ?_⟩
    · have found := hb.equals other
        (older (by rintro rfl; cases side <;> simp [Bounding] at kind) listed)
      cases side <;> exact found
    · have found := hb.excluded other
        (older (by rintro rfl; cases side <;> simp [Bounding] at kind) listed)
      cases side <;> exact found
    · by_cases same : side' = side
      · subst same
        refine ⟨merged, here, ?_⟩
        rcases mem_append.mp listed with listed | now
        · obtain ⟨bound, found, behind⟩ := hb.bounds side' op' other kind' listed
          exact behind.trans (earlier bound found)
        · cases mem_singleton.mp now
          exact last
      · have different : op' ≠ op := by
          rintro rfl
          exact same (bounding_unique kind kind')
        obtain ⟨bound, found, behind⟩ := hb.bounds side' op' other kind' (older different listed)
        refine ⟨bound, ?_, behind⟩
        cases side <;> cases side' <;> first | exact absurd rfl same | exact found
    · rcases scanBound_withBound found with ⟨rfl, rfl⟩ | old
      · rcases either with rfl | slot
        · exact ⟨op, kind, mem_append_right _ mem_cons_self, rfl⟩
        · obtain ⟨op', kind', listed, is⟩ := hb.source side' bound slot
          exact ⟨op', kind', mem_append_left _ listed, is⟩
      · obtain ⟨op', kind', listed, is⟩ := hb.source side' bound old
        exact ⟨op', kind', mem_append_left _ listed, is⟩

theorem comparisonRangeBuild_uniform (cs : List (BinaryOp × LiteralValue)) :
    Built (ScanUniform cs) cs (comparisonRangeBuild cs) :=
  built_of_invariant .start fun _ _ _ _ _ hb _ comparable step => hb.next comparable step

structure Scanned (S : ColumnValues V) (column : String)
    (read : List (BinaryOp × LiteralValue)) (scan : ComparisonScan) : Prop
    extends ScanUniform read scan where
  spans : ∀ value, ScanSpans S column scan value →
    ∀ c ∈ read, c.1 ≠ .notEqual → S.Holds column c.1 value c.2
  valued : ∀ c ∈ read, ∃ x, S.literal column c.2 = some x

theorem Scanned.start : Scanned S column [] {} :=
  ⟨.start, by simp, by simp⟩

theorem admits_behind {v y : V} {inclusive o : Bool} (behind : side.orient (compare x y) = .lt)
    (meets : side.admits (compare v y) inclusive = true) :
    side.admits (compare v x) o = true := by
  cases side with
  | lower =>
    have order : x < y := compare_lt_iff_lt.mp behind
    rcases admits_lower.mp meets with h | ⟨_, h⟩ <;> exact admits_lower.mpr (Or.inl (by order))
  | upper =>
    have order : y < x := compare_gt_iff_gt.mp (Ordering.swap_eq_lt.mp behind)
    rcases admits_upper.mp meets with h | ⟨_, h⟩ <;> exact admits_upper.mpr (Or.inl (by order))

theorem orient_swap {y : V} (ahead : side.orient (compare x y) = .gt) :
    side.orient (compare y x) = .lt := by
  rw [Std.OrientedOrd.eq_swap (a := y) (b := x)]
  cases side <;> simp_all [orient]

theorem eq_of_orient {y : V} (level : side.orient (compare x y) = .eq) : x = y := by
  cases side <;> simpa [orient, compare_eq_iff_eq] using level

private theorem admits_and {ord : Ordering} {a b : Bool} (meets : side.admits ord (a && b) = true) :
    side.admits ord a = true ∧ side.admits ord b = true := by
  unfold admits at meets ⊢
  split at meets <;> simp_all

private theorem within_both_of_boundTighten {existing candidate tight : RangeBound}
    (tightened : boundTighten side existing candidate = some tight)
    (he : ∃ x, S.literal column existing.value = some x)
    (hc : ∃ x, S.literal column candidate.value = some x)
    (inside : S.Within column side tight value) :
    S.Within column side existing value ∧ S.Within column side candidate value := by
  simp only [boundTighten, Option.map_eq_some_iff] at tightened
  obtain ⟨ord, ho, rfl⟩ := tightened
  obtain ⟨x, hx⟩ := he
  obtain ⟨y, hy⟩ := hc
  have order := compare_of_order (literalValueOrder_le_numeric ho) hx hy
  subst order
  split at inside
  · rename_i behind
    obtain ⟨v, z, rfl, hz, meets⟩ := id inside
    cases hy.symm.trans hz
    exact ⟨⟨v, x, rfl, hx, admits_behind behind meets⟩, inside⟩
  · rename_i ahead
    obtain ⟨v, z, rfl, hz, meets⟩ := id inside
    cases hx.symm.trans hz
    exact ⟨inside, ⟨v, y, rfl, hy, admits_behind (orient_swap ahead) meets⟩⟩
  · rename_i level
    cases eq_of_orient level
    obtain ⟨v, z, rfl, hz, meets⟩ := inside
    cases hx.symm.trans hz
    have both := admits_and meets
    exact ⟨⟨v, x, rfl, hx, both.1⟩, ⟨v, x, rfl, hy, both.2⟩⟩

private theorem within_both_of_boundMerge {slot : Option RangeBound} {candidate merged : RangeBound}
    (merge : boundMerge slot side candidate = some merged)
    (hs : ∀ bound, slot = some bound → ∃ x, S.literal column bound.value = some x)
    (hc : ∃ x, S.literal column candidate.value = some x)
    (inside : S.Within column side merged value) :
    (∀ bound, slot = some bound → S.Within column side bound value) ∧
      S.Within column side candidate value := by
  cases slot with
  | none =>
    cases merge
    exact ⟨by simp, inside⟩
  | some existing =>
    have both := within_both_of_boundTighten merge (hs existing rfl) hc inside
    refine ⟨?_, both.2⟩
    intro bound hf
    cases hf
    exact both.1

theorem mem_boundLiterals {op : BinaryOp} (kind : Bounding side op)
    (hl : (op, literal) ∈ cs) : literal ∈ boundLiterals cs := by
  refine mem_filterMap.mpr ⟨(op, literal), hl, ?_⟩
  cases side <;> rcases kind with rfl | rfl <;> rfl

theorem Scanned.boundValued {scan : ComparisonScan}
    (scanned : Scanned S column read scan) (side : BoundSide)
    (hf : scanBound scan side = some bound) : ∃ x, S.literal column bound.value = some x := by
  obtain ⟨op, _, hl⟩ := scanned.boundFrom side bound hf
  exact scanned.valued _ hl

theorem Scanned.next {scan next : ComparisonScan}
    {op : BinaryOp} (hb : Scanned S column read scan)
    (comparable : literalValueIsIncomparable literal = false)
    (valued : ∃ x, S.literal column literal = some x) (step : ScanRead scan literal op next) :
    Scanned S column (read ++ [(op, literal)]) next := by
  have allValued : ∀ c ∈ read ++ [(op, literal)], ∃ x, S.literal column c.2 = some x := by
    intro c inside
    rcases mem_append.mp inside with inside | inside
    · exact hb.valued c inside
    · cases mem_singleton.mp inside
      exact valued
  have spansOf (value : Option V) (kept : ScanSpans S column scan value)
      (now : op ≠ .notEqual → S.Holds column op value literal) :
      ∀ c ∈ read ++ [(op, literal)], c.1 ≠ .notEqual → S.Holds column c.1 value c.2 := by
    intro c inside compares
    rcases mem_append.mp inside with inside | inside
    · exact hb.spans value kept c inside compares
    · cases mem_singleton.mp inside
      exact now compares
  refine ⟨hb.toScanUniform.next comparable step, fun value inside => ?_, allValued⟩
  cases step with
  | equal same =>
    have now := inside.equal literal rfl
    refine spansOf value ⟨?_, ?_⟩ fun _ => now
    · intro o hf
      rw [same o hf]
      exact now
    · intro side bound hf
      cases side <;> exact inside.within _ bound hf
  | notEqual =>
    refine spansOf value ⟨inside.equal, ?_⟩ fun bare => absurd rfl bare
    intro side bound hf
    cases side <;> exact inside.within _ bound hf
  | @bound side _ merged kind merge =>
    have both := within_both_of_boundMerge merge (fun bound slot => hb.boundValued side slot) valued
      (inside.within side merged (by cases side <;> rfl))
    refine spansOf value ⟨?_, ?_⟩ fun _ => (holds_iff_within kind).mpr both.2
    · intro o hf
      exact inside.equal o (by cases side <;> exact hf)
    · intro o bound hf
      by_cases here : o = side
      · subst here
        exact both.1 bound hf
      · exact inside.within o bound
          (by cases side <;> cases o <;> simp_all [scanBound, withBound])

/-! ### The built range -/

theorem comparisonRangeBuild_scanned (valued : Valued S column (cs.map Prod.snd)) :
    Built (Scanned S column cs) cs (comparisonRangeBuild cs) :=
  built_of_invariant .start fun _ _ _ _ _ hb inside comparable step =>
    hb.next comparable (valued _ (mem_map_of_mem inside) comparable) step

theorem within_of_valueSatisfies (satisfied : valueSatisfies side literal bound = some true)
    (valued : ∃ x, S.literal column bound.value = some x)
    (h : S.Holds column .equal value literal) : S.Within column side bound value := by
  simp only [valueSatisfies, Option.map_eq_some_iff] at satisfied
  obtain ⟨ord, ho, admitted⟩ := satisfied
  obtain ⟨v, x, _, hx, _⟩ := id h
  obtain ⟨y, hy⟩ := valued
  refine ⟨x, y, value_eq_of_holds h hx, hy, ?_⟩
  rw [compare_of_order (literalValueOrder_le_numeric ho) hx hy]
  exact admitted

private theorem within_of_equalValidate {bounds : List (BoundSide × Option RangeBound)}
    (passed : equalValidate literal bounds = none)
    (valued : ∀ side bound, (side, some bound) ∈ bounds →
      ∃ x, S.literal column bound.value = some x) (h : S.Holds column .equal value literal) :
    ∀ side bound, (side, some bound) ∈ bounds → S.Within column side bound value := by
  fun_induction equalValidate literal bounds with
  | case1 => simp
  | case2 side rest ih =>
    intro o bound inside
    rcases mem_cons.mp inside with same | inside
    · cases same
    · exact ih passed (fun side bound hf => valued side bound (mem_cons_of_mem _ hf)) o bound inside
  | case3 side first rest satisfied ih =>
    intro o bound inside
    rcases mem_cons.mp inside with same | inside
    · cases same
      exact within_of_valueSatisfies satisfied (valued side first mem_cons_self) h
    · exact ih passed (fun side bound hf => valued side bound (mem_cons_of_mem _ hf)) o bound inside
  | case4 | case5 => cases passed

variable (valued : Valued S column (cs.map Prod.snd))
include valued

variable (known : comparisonRangeBuild cs ≠ .unknown)
include known

variable (inside : Spans S column (comparisonRangeBuild cs) value)
include inside

private theorem scanned_of_spans :
    cs = [] ∨ ∃ scan, Scanned S column cs scan ∧ ScanSpans S column scan value := by
  have is := comparisonRangeBuild_scanned valued
  generalize comparisonRangeBuild cs = range at is known inside
  cases is with
  | gaveUp early =>
    rcases early with rfl | rfl
    · exact absurd rfl known
    · exact inside.elim
  | free none => exact .inl none
  | @equal scan literal scanned hf passed free =>
    refine .inr ⟨scan, scanned, ?_, ?_⟩
    · intro o same
      cases hf.symm.trans same
      exact inside
    · intro side bound slot
      refine within_of_equalValidate passed ?_ inside side bound ?_
      · intro side bound listed
        simp only [mem_cons, Prod.mk.injEq, not_mem_nil, or_false] at listed
        rcases listed with ⟨rfl, same⟩ | ⟨rfl, same⟩
        · exact scanned.boundValued .lower same.symm
        · exact scanned.boundValued .upper same.symm
      · cases side with
        | lower => simp [show scan.lower = some bound from slot]
        | upper => simp [show scan.upper = some bound from slot]
  | @point scan lower upper scanned free hl hu level closedBelow closedAbove included =>
    refine .inr ⟨scan, scanned, by simp [free], ?_⟩
    intro side bound slot
    obtain ⟨v, x, _, hx, _⟩ := id inside
    have here : value = some x := value_eq_of_holds inside hx
    obtain ⟨y, hy⟩ := scanned.boundValued .upper hu
    have same := compare_of_order (literalValueOrder_le_numeric level) hx hy
    cases side with
    | lower =>
      cases hl.symm.trans slot
      exact ⟨x, x, here, hx, by simp [admits, orient, closedBelow]⟩
    | upper =>
      cases hu.symm.trans slot
      exact ⟨x, y, here, hy, by simp [admits, orient, same, closedAbove]⟩
  | @interval scan scanned free _ =>
    refine .inr ⟨scan, scanned, by simp [free], ?_⟩
    intro side bound hf
    cases side <;> exact inside _ bound hf

theorem holds_of_spans : ∀ c ∈ cs, c.1 ≠ .notEqual → S.Holds column c.1 value c.2 := by
  rcases scanned_of_spans valued known inside with rfl | ⟨scan, scanned, spans⟩
  · simp
  · exact scanned.spans value spans

theorem valued_of_known : ∀ c ∈ cs, ∃ x, S.literal column c.2 = some x := by
  rcases scanned_of_spans valued known inside with rfl | ⟨scan, scanned, -⟩
  · simp
  · exact scanned.valued

omit inside

omit known

theorem excludes_comparisonRangeBuild (hx : (notEqual, literal) ∈ cs) :
    Excludes (comparisonRangeBuild cs) literal := by
  have is := comparisonRangeBuild_scanned valued
  generalize comparisonRangeBuild cs = range at is
  cases is with
  | gaveUp early => rcases early with rfl | rfl <;> trivial
  | free none => simp [none] at hx
  | equal scanned hf passed free =>
    exact fun same => free (same ▸ scanned.excluded literal hx)
  | point scanned _ _ _ _ _ _ free =>
    exact fun same => free (same ▸ scanned.excluded literal hx)
  | interval scanned _ _ => exact scanned.excluded literal hx

theorem bound_comparisonRangeBuild
    {view : RangeView} (built : comparisonRangeBuild cs = .range view)
    (hf : view.bound side = some bound) :
    bound.value ∈ boundLiterals cs ∧ ∃ x, S.literal column bound.value = some x := by
  obtain ⟨op, kind, hl⟩ := bounding_comparisonRangeBuild built hf
  refine ⟨mem_boundLiterals kind hl, ?_⟩
  have is := comparisonRangeBuild_scanned valued
  rw [built] at is
  cases is with
  | gaveUp early => rcases early with same | same <;> cases same
  | interval scanned _ _ => exact scanned.boundValued side (by cases side <;> exact hf)

omit valued

/-! ### The literals of a built range -/

theorem ScanUniform.ordered {scan : ComparisonScan} (uniform : ScanUniform cs scan)
    (decided : ∀ side bound, scanBound scan side = some bound →
      (literalValueOrder literal bound.value).isSome) :
    ∀ bound ∈ boundLiterals cs, (literalValueOrder literal bound).isSome := by
  intro other listed
  obtain ⟨⟨op, value⟩, compared, bounds⟩ := mem_filterMap.mp listed
  obtain ⟨side, kind, rfl⟩ : ∃ side, Bounding side op ∧ value = other := by
    cases op <;> cases bounds
    case greaterThan | greaterThanOrEqual => exact ⟨.lower, by simp [Bounding], rfl⟩
    case lessThan | lessThanOrEqual => exact ⟨.upper, by simp [Bounding], rfl⟩
  obtain ⟨bound, found, behind⟩ := uniform.bounds side op value kind compared
  exact behind.ordered (decided side bound found)

theorem ordered_of_equalValidate {bounds : List (BoundSide × Option RangeBound)}
    (passed : equalValidate literal bounds = none) :
    ∀ side bound, (side, some bound) ∈ bounds → (literalValueOrder literal bound.value).isSome := by
  fun_induction equalValidate literal bounds with
  | case1 => simp
  | case2 side rest ih => simpa using ih passed
  | case3 side first rest satisfied ih =>
    intro other bound listed
    rcases mem_cons.mp listed with same | listed
    · cases same
      obtain ⟨ord, ho, -⟩ := Option.map_eq_some_iff.mp satisfied
      exact Option.isSome_of_eq_some ho
    · exact ih passed other bound listed
  | case4 | case5 => cases passed

/-- The comparisons leave one literal: an equality, or two closed bounds. -/
def Pins (cs : List (BinaryOp × LiteralValue)) (literal : LiteralValue) : Prop :=
  (equal, literal) ∈ cs ∨ (greaterThanOrEqual, literal) ∈ cs ∧ (lessThanOrEqual, literal) ∈ cs

theorem point_comparisonRangeBuild (built : comparisonRangeBuild cs = .equal literal) :
    Pins cs literal ∧ (∀ other, (equal, other) ∈ cs → other = literal) ∧
      ((equal, literal) ∈ cs ∨ (numberType literal).isSome) ∧ (notEqual, literal) ∉ cs ∧
      ∀ bound ∈ boundLiterals cs, (literalValueOrder literal bound).isSome := by
  have is := comparisonRangeBuild_uniform cs
  rw [built] at is
  cases is with
  | gaveUp early => rcases early with same | same <;> cases same
  | @equal scan _ uniform found passed free =>
    have here := uniform.equalFrom literal found
    refine ⟨.inl here, fun other listed => ?_, .inl here, fun out => free (uniform.excluded _ out),
      uniform.ordered fun side bound slot => ordered_of_equalValidate passed side bound ?_⟩
    · exact Option.some_inj.mp ((uniform.equals other listed).symm.trans found)
    · cases side with
      | lower => simp [show scan.lower = some bound from slot]
      | upper => simp [show scan.upper = some bound from slot]
  | @point scan lower upper uniform free below above level closedBelow closedAbove included =>
    have decided := Option.isSome_of_eq_some level
    have under : (greaterThanOrEqual, lower.value) ∈ cs := by
      obtain ⟨op, kind, listed, is⟩ := uniform.source .lower lower below
      rw [is] at closedBelow
      rcases kind with rfl | rfl
      · simp [boundOf] at closedBelow
      · exact listed
    have over_ : (lessThanOrEqual, upper.value) ∈ cs := by
      obtain ⟨op, kind, listed, is⟩ := uniform.source .upper upper above
      rw [is] at closedAbove
      rcases kind with rfl | rfl
      · simp [boundOf] at closedAbove
      · exact listed
    rw [← eq_of_level level] at over_
    obtain ⟨type, typed, -⟩ := isSome_literalValueOrder.mp decided
    refine ⟨.inr ⟨under, over_⟩, fun other listed => ?_, .inr (Option.isSome_of_eq_some typed),
      fun out => included (uniform.excluded _ out), uniform.ordered fun side bound slot => ?_⟩
    · cases free.symm.trans (uniform.equals other listed)
    · cases side with
      | lower =>
        cases below.symm.trans slot
        exact ordered_trans decided (ordered_symm decided)
      | upper =>
        cases above.symm.trans slot
        exact decided

theorem interval_comparisonRangeBuild {view : RangeView}
    (built : comparisonRangeBuild cs = .range view) :
    (∀ literal, ¬ Pins cs literal) ∧
      (∀ literal, literal ∈ view.notEqual ↔ (notEqual, literal) ∈ cs) ∧
      (∀ literal, (∀ side bound, view.bound side = some bound →
          (literalValueOrder literal bound.value).isSome) →
        ∀ bound ∈ boundLiterals cs, (literalValueOrder literal bound).isSome) ∧
      ∀ side bound, view.bound side = some bound →
        ∃ op, Bounding side op ∧ (op, bound.value) ∈ cs ∧ bound = boundOf op bound.value := by
  have is := comparisonRangeBuild_uniform cs
  rw [built] at is
  cases is with
  | gaveUp early => rcases early with same | same <;> cases same
  | @interval scan uniform free apart =>
    refine ⟨?_, fun literal => ⟨uniform.notEqualFrom literal, uniform.excluded literal⟩,
      fun literal decided => uniform.ordered fun side bound slot =>
        decided side bound (by cases side <;> exact slot), fun side bound found =>
        uniform.source side bound (by cases side <;> exact found)⟩
    rintro literal (listed | ⟨above, below⟩)
    · cases free.symm.trans (uniform.equals literal listed)
    · obtain ⟨lower, hl, up⟩ := uniform.bounds .lower _ literal (by simp [Bounding]) above
      obtain ⟨upper, hu, down⟩ := uniform.bounds .upper _ literal (by simp [Bounding]) below
      have strict := apart lower upper hl hu
      -- the upper bound is at most the literal and the literal at most the lower bound
      rcases down.flip.trans up with same | ⟨ord, ho, near⟩
      · have twist := literalValueOrder_swap lower.value lower.value
        rw [same] at strict
        simp [strict] at twist
      · rw [literalValueOrder_swap, strict] at ho
        cases ho
        exact near rfl

private theorem boundsAdmit_true {view : RangeView} (sides : List BoundSide)
    (contained : boundsAdmit view literal sides = some true) :
    ∀ side ∈ sides, ∀ bound, view.bound side = some bound →
      ∃ ord, literalValueOrderNumeric literal bound.value = some ord ∧
        side.admits ord bound.inclusive = true := by
  induction sides with
  | nil => simp
  | cons side sides ih =>
    intro o hl bound hf
    unfold boundsAdmit at contained
    split at contained
    · rename_i ha
      rcases mem_cons.mp hl with rfl | hl
      · rw [ha] at hf
        cases hf
      · exact ih contained o hl bound hf
    · rename_i first hp
      simp only [Option.bind_eq_bind, Option.bind_eq_some_iff, Option.pure_def,
        Option.some.injEq, Bool.and_eq_true] at contained
      obtain ⟨ord, ho, rest, tail, admitted, rfl⟩ := contained
      rcases mem_cons.mp hl with rfl | hl
      · cases hp.symm.trans hf
        exact ⟨ord, ho, admitted⟩
      · exact ih tail o hl bound hf

/-! ### Both answers of the code -/

def Meets (S : ColumnValues V) (column : String) (cs : List (BinaryOp × LiteralValue))
    (x : V) : Prop :=
  ∀ c ∈ cs, S.Holds column c.1 (some x) c.2

def OneEquality (cs : List (BinaryOp × LiteralValue)) : Prop :=
  ∀ a b, (equal, a) ∈ cs → (equal, b) ∈ cs → a = b

/-- What a literal must not be told when it is asked for a value that meets the comparisons: that it
differs from their equality or, where they pin none, that it equals an exclusion. -/
def Probed (cs : List (BinaryOp × LiteralValue)) (literal : LiteralValue) : Prop :=
  (∀ other, (equal, other) ∈ cs → literalValueEq other literal ≠ some false) ∧
  ((∀ other, ¬ Pins cs other) → ∀ other, (notEqual, other) ∈ cs →
    literalValueEq other literal ≠ some true)

/-- What makes the answer "contained" right: an equality the literal is told to equal has its value,
and an exclusion of that value is the literal the comparisons pin or, where they pin none, is told
to be equal. -/
def Placed (S : ColumnValues V) (column : String) (cs : List (BinaryOp × LiteralValue))
    (literal : LiteralValue) (x : V) : Prop :=
  (∀ other, (equal, other) ∈ cs → literalValueEq other literal = some true →
    S.literal column other = some x) ∧
  ∀ excluded, (notEqual, excluded) ∈ cs → S.literal column excluded = some x →
    (∀ other, Pins cs other → other = excluded) ∧
      ((∀ other, ¬ Pins cs other) → literalValueEq excluded literal = some true)

theorem numeric_of_type (typed : (numberType literal).isSome) :
    ∃ m, literal.numeric? = some m := by
  cases literal <;> first | exact ⟨_, rfl⟩ | cases typed

theorem eqAgrees_of_type {other : LiteralValue} (typed : (numberType literal).isSome) :
    S.EqAgrees column other literal := by
  obtain ⟨m, hm⟩ := numeric_of_type typed
  cases hn : other.numeric? with
  | some n => exact eqAgrees_of_numeric hn hm
  | none =>
    intro y z decision _ _ decided
    cases literal <;> cases typed <;> cases other <;>
      first | (cases hn; done) | cases decided

theorem value_of_equal (h : S.Holds column .equal (some x) literal) :
    S.literal column literal = some x := by
  obtain ⟨_, y, _, hy, _⟩ := id h
  cases value_eq_of_holds h hy
  exact hy

theorem probed_of_type (meets : Meets S column cs x) (hx : S.literal column literal = some x)
    (typed : (numberType literal).isSome) : Probed cs literal := by
  refine ⟨fun other listed apart => ?_, fun _ other listed same => ?_⟩
  · have hy := value_of_equal (meets _ listed)
    simpa using (eqAgrees_of_type typed x x false hy hx apart)
  · obtain ⟨v, y, here, hy, differs⟩ := meets _ listed
    cases here
    have equal := (eqAgrees_of_type typed y x true hy hx same).mp rfl
    simp [holds, equal] at differs

theorem admits_of_oneEquality (one : OneEquality cs)
    (meets : ∀ c ∈ cs, S.Holds column c.1 value c.2) :
    S.Admits column (comparisonRangeBuild cs) value :=
  comparisonRangeBuild_sound (fun a b _ ha hb _ _ => one a b ha hb) meets

theorem contains_of_probed (meets : Meets S column cs x) (hx : S.literal column literal = some x)
    (one : OneEquality cs) (probed : Probed cs literal) :
    columnRangeContains (comparisonRangeBuild cs) literal ≠ some false := by
  intro outside
  have admitted := admits_of_oneEquality one meets
  unfold columnRangeContains at outside
  split at outside
  · cases outside
  cases shape : comparisonRangeBuild cs with
  | unknown | unconstrained =>
    rw [shape] at outside
    cases outside
  | empty =>
    rw [shape] at admitted
    exact admitted
  | equal other =>
    rw [shape] at outside admitted
    obtain ⟨-, -, kind, -, -⟩ := point_comparisonRangeBuild shape
    rcases kind with listed | typed
    · exact probed.1 other listed outside
    · have agrees : S.EqAgrees column other literal := eqAgrees_symm (eqAgrees_of_type typed)
      simpa using agrees x x false (value_of_equal admitted) hx outside
  | inSet literals => exact not_inSet shape
  | range view =>
    rw [shape] at outside admitted
    obtain ⟨unpinned, exclusions, -⟩ := interval_comparisonRangeBuild shape
    simp only [rangeContains] at outside
    split at outside
    · rename_i explicit
      obtain ⟨other, listed, same⟩ := any_eq_true.mp explicit
      exact probed.2 unpinned other ((exclusions other).mp listed) (by simpa using same)
    · obtain ⟨side, bound, ord, found, ho, refused⟩ := boundsAdmit_false _ outside
      obtain ⟨v, y, here, hy, inside⟩ := admitted.1 side bound found
      cases here
      rw [compare_of_order ho hx hy, refused] at inside
      cases inside

section Known

variable (hk : comparisonRangeBuild cs ≠ .unknown) (hne : comparisonRangeBuild cs ≠ .empty)
include hk hne

theorem uniform_of_filled (hm : cs ≠ []) : ∃ scan, ScanUniform cs scan := by
  have is := comparisonRangeBuild_uniform cs
  generalize comparisonRangeBuild cs = range at is hk hne
  cases is with
  | gaveUp early => exact (early.elim hk hne).elim
  | free none => exact absurd none hm
  | equal uniform | point uniform | interval uniform => exact ⟨_, uniform⟩

theorem oneEquality_of_filled : OneEquality cs := by
  intro a b ha hb
  obtain ⟨scan, uniform⟩ := uniform_of_filled hk hne (ne_nil_of_mem ha)
  exact Option.some_inj.mp ((uniform.equals a ha).symm.trans (uniform.equals b hb))

theorem comparable_of_filled {op : BinaryOp} (listed : (op, literal) ∈ cs) :
    literalValueIsIncomparable literal = false := by
  obtain ⟨scan, uniform⟩ := uniform_of_filled hk hne (ne_nil_of_mem listed)
  exact uniform.comparable _ listed

theorem equal_of_listed (listed : (equal, literal) ∈ cs) :
    comparisonRangeBuild cs = .equal literal := by
  have is := comparisonRangeBuild_uniform cs
  generalize comparisonRangeBuild cs = range at is hk hne
  cases is with
  | gaveUp early => exact (early.elim hk hne).elim
  | free none => simp [none] at listed
  | equal uniform found => rw [Option.some_inj.mp (found.symm.trans (uniform.equals _ listed))]
  | point uniform found | interval uniform found =>
    cases found.symm.trans (uniform.equals _ listed)

theorem probed_of_contains (comparable : literalValueIsIncomparable literal = false)
    (right : columnRangeContains (comparisonRangeBuild cs) literal ≠ some false) :
    Probed cs literal := by
  refine ⟨fun other listed => ?_, fun unpinned other listed same => right ?_⟩
  · rw [equal_of_listed hk hne listed] at right
    simpa [columnRangeContains, comparable] using right
  · cases shape : comparisonRangeBuild cs with
    | unknown => exact absurd shape hk
    | empty => exact absurd shape hne
    | unconstrained => simp [nil_of_unconstrained shape] at listed
    | equal point => exact absurd (point_comparisonRangeBuild shape).1 (unpinned point)
    | inSet literals => exact absurd shape not_inSet
    | range view =>
      have excluded := ((interval_comparisonRangeBuild shape).2.1 other).mpr listed
      have found : (view.notEqual.any fun excluded =>
          literalValueEq excluded literal = some true) = true :=
        any_eq_true.mpr ⟨other, excluded, by simpa using same⟩
      simp [columnRangeContains, comparable, rangeContains, found]

end Known

theorem spans_of_contains (valued : Valued S column (cs.map Prod.snd))
    (contained : columnRangeContains (comparisonRangeBuild cs) literal = some true)
    (hx : S.literal column literal = some x)
    (placed : ∀ other, (equal, other) ∈ cs → literalValueEq other literal = some true →
      S.literal column other = some x) :
    comparisonRangeBuild cs ≠ .unknown ∧ Spans S column (comparisonRangeBuild cs) (some x) := by
  unfold columnRangeContains at contained
  split at contained
  · cases contained
  have scanned := comparisonRangeBuild_scanned valued
  cases shape : comparisonRangeBuild cs with
  | unknown | empty =>
    rw [shape] at contained
    cases contained
  | unconstrained => exact ⟨by simp, trivial⟩
  | inSet literals => exact absurd shape not_inSet
  | equal other =>
    rw [shape] at contained
    refine ⟨by simp, x, x, rfl, ?_, by simp [holds]⟩
    obtain ⟨-, -, kind, -, -⟩ := point_comparisonRangeBuild shape
    rcases kind with listed | typed
    · exact placed other listed contained
    · have listed : other ∈ cs.map Prod.snd :=
        literalsOf_comparisonRangeBuild (by simp [shape, literalsOf])
      obtain ⟨y, hy⟩ := valued other listed (by cases other <;> first | rfl | cases typed)
      have agrees : S.EqAgrees column other literal := eqAgrees_symm (eqAgrees_of_type typed)
      rw [hy, (agrees y x true hy hx contained).mp rfl]
  | range view =>
    rw [shape] at contained scanned
    refine ⟨by simp, ?_⟩
    intro side bound hf
    simp only [rangeContains] at contained
    split at contained
    · cases contained
    · obtain ⟨ord, ho, admitted⟩ :=
        boundsAdmit_true both contained side (by cases side <;> simp [both]) bound hf
      obtain ⟨y, hy⟩ := (bound_comparisonRangeBuild valued shape hf).2
      refine ⟨x, y, rfl, hy, ?_⟩
      rw [compare_of_order ho hx hy]
      exact admitted

theorem meets_iff_placed (valued : Valued S column (cs.map Prod.snd))
    (hx : S.literal column literal = some x)
    (contained : columnRangeContains (comparisonRangeBuild cs) literal = some true) :
    Meets S column cs x ↔ Placed S column cs literal x := by
  refine ⟨fun meets => ⟨fun other listed _ => value_of_equal (meets _ listed),
    fun excluded listed same => ?_⟩, fun placed c hm => ?_⟩
  · obtain ⟨v, y, here, hy, differs⟩ := meets _ listed
    cases here
    cases same.symm.trans hy
    simp [holds] at differs
  · obtain ⟨known, inside⟩ := spans_of_contains valued contained hx placed.1
    by_cases exclusion : c.1 = .notEqual
    · obtain ⟨op, excluded⟩ := c
      cases exclusion
      obtain ⟨y, hy⟩ := valued_of_known valued known inside _ hm
      refine ⟨x, y, rfl, hy, ?_⟩
      by_contra equals
      have same : x = y := by_contra fun differs => equals (by simp [holds, differs])
      obtain ⟨pinned, told⟩ := placed.2 excluded hm (by rw [hy, same])
      unfold columnRangeContains at contained
      split at contained
      · cases contained
      cases shape : comparisonRangeBuild cs with
      | unknown | empty =>
        rw [shape] at contained
        cases contained
      | unconstrained => simp [nil_of_unconstrained shape] at hm
      | inSet literals => exact not_inSet shape
      | equal other =>
        obtain ⟨pins, -, -, out, -⟩ := point_comparisonRangeBuild shape
        rw [pinned other pins] at out
        exact out hm
      | range view =>
        obtain ⟨unpinned, exclusions, -⟩ := interval_comparisonRangeBuild shape
        rw [shape] at contained
        have found : (view.notEqual.any fun excluded =>
            literalValueEq excluded literal = some true) = true :=
          any_eq_true.mpr ⟨excluded, (exclusions excluded).mpr hm, by simpa using told unpinned⟩
        simp [rangeContains, found] at contained
    · exact holds_of_spans valued known inside c hm exclusion

/-- What must hold of the literals of two predicates, column by column: the equalities of each are
one literal, and the other predicate is not misled about it. -/
def Judged (a b : List (String × BinaryOp × LiteralValue)) : Prop :=
  ∀ column, (OneEquality (onColumn a column) ∧ OneEquality (onColumn b column)) ∧
    (∀ literal, (equal, literal) ∈ onColumn a column → Probed (onColumn b column) literal) ∧
    ∀ literal, (equal, literal) ∈ onColumn b column → Probed (onColumn a column) literal

def Known (ranges : ColumnRanges) : Prop :=
  ∀ column range, ranges.lookup column = some range → range ≠ .unknown

section Predicates

variable {a b : List (String × BinaryOp × LiteralValue)} {row : Row V}

theorem contains_point {cs others : List (BinaryOp × LiteralValue)} {point : LiteralValue}
    (one : OneEquality others) (admitted : S.Holds column .equal value point)
    (shape : comparisonRangeBuild cs = .equal point)
    (probed : (equal, point) ∈ cs → Probed others point)
    (meets : ∀ c ∈ others, S.Holds column c.1 value c.2) :
    columnRangeContains (comparisonRangeBuild others) point ≠ some false := by
  obtain ⟨_, x, _, hx, _⟩ := id admitted
  cases value_eq_of_holds admitted hx
  refine contains_of_probed meets hx one ?_
  obtain ⟨-, -, kind, -, -⟩ := point_comparisonRangeBuild shape
  rcases kind with listed | typed
  · exact probed listed
  · exact probed_of_type meets hx typed

theorem not_disjoint_of_judged (judged : Judged a b) (ha : RowMatches S a row)
    (hb : RowMatches S b row) :
    columnRangesDisjoint (columnRangesFromComparisons a) (columnRangesFromComparisons b) =
      false := by
  have within (column : String) :
      S.Admits column (comparisonRangeBuild (onColumn a column)) (row column) ∧
        S.Admits column (comparisonRangeBuild (onColumn b column)) (row column) :=
    ⟨admits_of_oneEquality (judged column).1.1 (holds_onColumn ha),
      admits_of_oneEquality (judged column).1.2 (holds_onColumn hb)⟩
  by_contra disjoint
  rw [Bool.not_eq_false, columnRangesDisjoint] at disjoint
  split at disjoint
  · rename_i emptied
    rcases Bool.or_eq_true_iff.mp emptied with empty | empty
    · have inside : RowWithin S _ row := fun column range found => by
        rw [lookup_columnRangesFromComparisons found]
        exact (within column).1
      exact not_rowWithin_of_hasEmpty empty inside
    · have inside : RowWithin S _ row := fun column range found => by
        rw [lookup_columnRangesFromComparisons found]
        exact (within column).2
      exact not_rowWithin_of_hasEmpty empty inside
  · obtain ⟨column, ra, hra, shared⟩ := (Data.Keyed.any_iff _ _).mp disjoint
    obtain ⟨rb, hrb, apart⟩ := (Option.any_eq_true _ _).mp shared
    obtain ⟨⟨oneA, oneB⟩, probedB, probedA⟩ := judged column
    obtain ⟨admittedA, admittedB⟩ := within column
    have builtA := lookup_columnRangesFromComparisons hra
    have builtB := lookup_columnRangesFromComparisons hrb
    rw [← builtA] at admittedA
    rw [← builtB] at admittedB
    unfold columnRangeDisjoint at apart
    split at apart
    · exact admittedA
    · exact admittedB
    · cases apart
    · cases apart
    · rename_i point _ _
      rw [builtB] at apart
      exact contains_point oneB admittedA builtA.symm (probedB point) (holds_onColumn hb)
        (of_decide_eq_true apart)
    · rename_i point _ _ _
      rw [builtA] at apart
      exact contains_point oneA admittedB builtB.symm (probedA point) (holds_onColumn ha)
        (of_decide_eq_true apart)
    · exact not_inSet builtA.symm
    · exact not_inSet builtB.symm
    · cases apart
    · cases apart
    · exact not_admits_intervals apart admittedA admittedB

theorem filled_of_hasEmpty (full : hasEmpty (columnRangesFromComparisons a) = false)
    {column : String} (hne : onColumn a column ≠ []) :
    comparisonRangeBuild (onColumn a column) ≠ .empty := by
  intro empty
  have emptied : hasEmpty (columnRangesFromComparisons a) = true :=
    (Data.Keyed.any_iff _ _).mpr ⟨column, _, lookup_of_onColumn hne, by simp [empty]⟩
  rw [full] at emptied
  cases emptied

theorem contains_of_point_left {range : ColumnRange}
    (shared : columnRangeDisjoint (.equal literal) range = false) :
    columnRangeContains range literal ≠ some false := by
  intro outside
  cases range with
  | empty => cases shared
  | unknown =>
    unfold columnRangeContains at outside
    split at outside <;> cases outside
  | unconstrained | equal | inSet | range => simp [columnRangeDisjoint, outside] at shared

theorem contains_of_point_right {range : ColumnRange}
    (comparable : literalValueIsIncomparable literal = false)
    (points : ∀ point, range = .equal point → literalValueIsIncomparable point = false)
    (shared : columnRangeDisjoint range (.equal literal) = false) :
    columnRangeContains range literal ≠ some false := by
  intro outside
  cases range with
  | empty => cases shared
  | unknown =>
    unfold columnRangeContains at outside
    split at outside <;> cases outside
  | equal point =>
    have apart := contains_of_point_left shared
    simp only [columnRangeContains, comparable, points point rfl] at apart outside
    exact apart ((literalValueEq_comm _ _).trans outside)
  | unconstrained | inSet | range => simp [columnRangeDisjoint, outside] at shared

theorem judged_of_not_disjoint (knownA : Known (columnRangesFromComparisons a))
    (knownB : Known (columnRangesFromComparisons b))
    (shared : columnRangesDisjoint (columnRangesFromComparisons a)
      (columnRangesFromComparisons b) = false) : Judged a b := by
  unfold columnRangesDisjoint at shared
  split at shared
  · cases shared
  rename_i full
  simp only [Bool.or_eq_true, not_or, Bool.not_eq_true] at full
  have knowsA {column : String} (hne : onColumn a column ≠ []) :=
    knownA column _ (lookup_of_onColumn hne)
  have knowsB {column : String} (hne : onColumn b column ≠ []) :=
    knownB column _ (lookup_of_onColumn hne)
  have oneA (column : String) : OneEquality (onColumn a column) := by
    by_cases none : onColumn a column = []
    · simp [OneEquality, none]
    · exact oneEquality_of_filled (knowsA none) (filled_of_hasEmpty full.1 none)
  have oneB (column : String) : OneEquality (onColumn b column) := by
    by_cases none : onColumn b column = []
    · simp [OneEquality, none]
    · exact oneEquality_of_filled (knowsB none) (filled_of_hasEmpty full.2 none)
  have meet {column : String} (hneA : onColumn a column ≠ []) (hneB : onColumn b column ≠ []) :
      columnRangeDisjoint (comparisonRangeBuild (onColumn a column))
        (comparisonRangeBuild (onColumn b column)) = false := by
    by_contra apart
    refine absurd ?_ (Bool.eq_false_iff.mp shared)
    refine (Data.Keyed.any_iff _ _).mpr ⟨column, _, lookup_of_onColumn hneA, ?_⟩
    rw [lookup_of_onColumn hneB]
    simpa using apart
  refine fun column => ⟨⟨oneA column, oneB column⟩, fun literal listed => ?_,
    fun literal listed => ?_⟩
  · have hneA : onColumn a column ≠ [] := ne_nil_of_mem listed
    by_cases hneB : onColumn b column = []
    · simp [Probed, hneB]
    have knownA := knowsA hneA
    have filledA := filled_of_hasEmpty full.1 hneA
    have met := meet hneA hneB
    rw [equal_of_listed knownA filledA listed] at met
    exact probed_of_contains (knowsB hneB) (filled_of_hasEmpty full.2 hneB)
      (comparable_of_filled knownA filledA listed) (contains_of_point_left met)
  · have hneB : onColumn b column ≠ [] := ne_nil_of_mem listed
    by_cases hneA : onColumn a column = []
    · simp [Probed, hneA]
    have knownA := knowsA hneA
    have filledA := filled_of_hasEmpty full.1 hneA
    have comparable := comparable_of_filled (knowsB hneB) (filled_of_hasEmpty full.2 hneB) listed
    have met := meet hneA hneB
    rw [equal_of_listed (knowsB hneB) (filled_of_hasEmpty full.2 hneB) listed] at met
    refine probed_of_contains knownA filledA comparable
      (contains_of_point_right comparable (fun point shape => ?_) met)
    obtain ⟨pinned | ⟨closed, -⟩, -⟩ := point_comparisonRangeBuild shape
    · exact comparable_of_filled knownA filledA pinned
    · exact comparable_of_filled knownA filledA closed

end Predicates

def plainValues : ColumnValues ℚ where
  literal := fun _ literal =>
    match literal with
    | .boolean b => some (if b then 1 else 0)
    | .integer i => some i.toInt
    | .float (.fin q) => some q
    | _ => none
  numeric := by
    intro column a b x y m n hx hy hm hn
    cases a <;> cases hm <;> cases b <;> cases hn
    case integer.refl.integer.refl => cases hx; cases hy; rfl
    case integer.refl.float.refl => cases n <;> cases hx <;> cases hy; rfl
    case float.refl.integer.refl => cases m <;> cases hx; cases hy; rfl
    case float.refl.float.refl => cases m <;> cases n <;> cases hx <;> cases hy; rfl

end PgCache.Query.Constraints.RangeExact
