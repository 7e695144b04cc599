/- source: query/constraints/range.rs
   digest: The loop that reduces the comparisons on a column to a range: what one iteration does,
     the rule for the whole loop, and the forms of the result. -/
import PgCache.Data.Loop
import PgCache.Query.Constraints.Range

set_option autoImplicit false

namespace PgCache.Query.Constraints.RangeScan

open Data.Loop Literal Range

/-! ### One iteration of the scan -/

def Bounding : BoundSide → BinaryOp → Prop
  | .lower, op => op = .greaterThan ∨ op = .greaterThanOrEqual
  | .upper, op => op = .lessThan ∨ op = .lessThanOrEqual

def boundOf (op : BinaryOp) (literal : LiteralValue) : RangeBound :=
  ⟨literal, op = .greaterThanOrEqual ∨ op = .lessThanOrEqual⟩

variable (scan : ComparisonScan)

def scanBound : BoundSide → Option RangeBound
  | .lower => scan.lower
  | .upper => scan.upper

def withBound (bound : RangeBound) : BoundSide → ComparisonScan
  | .lower => { scan with lower := some bound }
  | .upper => { scan with upper := some bound }

inductive ScanRead (scan : ComparisonScan) (literal : LiteralValue) :
    BinaryOp → ComparisonScan → Prop
  | equal : (∀ other, scan.equalValue = some other → other = literal) →
      ScanRead scan literal .equal { scan with equalValue := some literal }
  | notEqual : ScanRead scan literal .notEqual { scan with notEqual := scan.notEqual ++ [literal] }
  | bound {side : BoundSide} {op : BinaryOp} {merged : RangeBound} : Bounding side op →
      boundMerge (scanBound scan side) side (boundOf op literal) = some merged →
      ScanRead scan literal op (withBound scan merged side)

/-- What the loop cannot place: a literal it cannot compare, a bound it cannot order against the
one it holds, or an operator that is no comparison. -/
def Stuck (literal : LiteralValue) (op : BinaryOp) : Prop :=
  literalValueIsIncomparable literal = true ∨ op ≠ .equal ∧ op ≠ .notEqual ∧
    ∀ side, Bounding side op → boundMerge (scanBound scan side) side (boundOf op literal) = none

def Refused (literal : LiteralValue) (op : BinaryOp) (early : ColumnRange) : Prop :=
  early = .unknown ∧ Stuck scan literal op ∨
    early = .empty ∧ op = .equal ∧ ∃ other, scan.equalValue = some other ∧ other ≠ literal

def GaveUp (range : ColumnRange) : Prop := range = .unknown ∨ range = .empty

theorem outcome_comparisonScanStep (op : BinaryOp) (literal : LiteralValue) :
    Outcome (fun next => literalValueIsIncomparable literal = false ∧ ScanRead scan literal op next)
      (Refused scan literal op) (comparisonScanStep scan (op, literal)) := by
  unfold comparisonScanStep
  simp only
  split
  · rename_i incomparable
    exact .inl ⟨rfl, .inl incomparable⟩
  · rename_i comparable
    have comparable := Bool.eq_false_of_not_eq_true comparable
    cases op with
    | equal =>
      simp only
      split
      · rename_i fresh
        exact ⟨comparable, .equal (by simp [fresh])⟩
      · rename_i existing hf
        split
        · rename_i same
          subst same
          have again : ScanRead scan existing .equal { scan with equalValue := some existing } :=
            .equal (by simp [hf])
          rw [← hf] at again
          exact ⟨comparable, again⟩
        · rename_i differs
          exact .inr ⟨rfl, rfl, existing, hf, differs⟩
    | notEqual => exact ⟨comparable, .notEqual⟩
    | greaterThan | greaterThanOrEqual =>
      simp only
      split
      · rename_i merged merge
        exact ⟨comparable, @ScanRead.bound scan literal .lower _ merged (by simp [Bounding]) merge⟩
      · rename_i undecided
        refine .inl ⟨rfl, .inr ⟨by simp, by simp, fun side kind => ?_⟩⟩
        cases side with
        | lower => exact undecided
        | upper => simp [Bounding] at kind
    | lessThan | lessThanOrEqual =>
      simp only
      split
      · rename_i merged merge
        exact ⟨comparable, @ScanRead.bound scan literal .upper _ merged (by simp [Bounding]) merge⟩
      · rename_i undecided
        refine .inl ⟨rfl, .inr ⟨by simp, by simp, fun side kind => ?_⟩⟩
        cases side with
        | lower => simp [Bounding] at kind
        | upper => exact undecided
    | and | or | like | iLike | notLike | notILike =>
      exact .inl ⟨rfl, .inr
        ⟨by simp, by simp, fun side kind => by cases side <;> simp [Bounding] at kind⟩⟩

variable {cs : List (BinaryOp × LiteralValue)} {scan : ComparisonScan}
  {literal : LiteralValue} {inv : List (BinaryOp × LiteralValue) → ComparisonScan → Prop}
  {side : BoundSide}

theorem comparisonRangeBuild_rule {early : ColumnRange → Prop} (start : inv [] {})
    (next : ∀ read scan op literal after, inv read scan → (op, literal) ∈ cs →
      literalValueIsIncomparable literal = false → ScanRead scan literal op after →
      inv (read ++ [(op, literal)]) after)
    (refused : ∀ read scan op literal range, inv read scan → (op, literal) ∈ cs →
      Refused scan literal op range → early range) :
    early (comparisonRangeBuild cs) ∨ (cs = [] ∧ comparisonRangeBuild cs = .unconstrained) ∨
      ∃ scan, inv cs scan ∧ comparisonRangeBuild cs = comparisonScanFinish scan := by
  by_cases none : cs = []
  · exact .inr (.inl ⟨none, if_pos none⟩)
  · have out := foldlM_outcome_read comparisonScanStep inv early cs (by
        rintro read scan hb ⟨op, literal⟩ hm
        have step := outcome_comparisonScanStep scan op literal
        cases result : comparisonScanStep scan (op, literal) with
        | error range =>
          rw [result] at step
          exact refused read scan op literal range hb hm step
        | ok after =>
          rw [result] at step
          exact next read scan op literal after hb hm step.1 step.2) {} start
    rw [comparisonRangeBuild, if_neg none]
    cases result : cs.foldlM comparisonScanStep {} with
    | error range =>
      rw [result] at out
      exact .inl out
    | ok scan =>
      rw [result] at out
      exact .inr (.inr ⟨scan, out, rfl⟩)

/-! ### The literals a scan holds -/

/-- Where the literals a scan holds come from. -/
structure ScanOrigin (read : List (BinaryOp × LiteralValue)) (scan : ComparisonScan) : Prop where
  equalFrom : ∀ literal, scan.equalValue = some literal → (BinaryOp.equal, literal) ∈ read
  boundFrom : ∀ side bound, scanBound scan side = some bound →
    ∃ op, Bounding side op ∧ (op, bound.value) ∈ read
  notEqualFrom : ∀ literal ∈ scan.notEqual, (BinaryOp.notEqual, literal) ∈ read

theorem ScanOrigin.start : ScanOrigin [] {} := by
  refine ⟨by simp, ?_, by simp⟩
  intro side b hf
  cases side <;> cases hf

theorem scanBound_withBound {merged : RangeBound} {other : BoundSide} {bound : RangeBound}
    (found : scanBound (withBound scan merged side) other = some bound) :
    other = side ∧ bound = merged ∨ scanBound scan other = some bound := by
  cases side <;> cases other <;> simp_all [scanBound, withBound]

private theorem boundMerge_value (source : LiteralValue → Prop) {slot : Option RangeBound}
    {candidate merged : RangeBound} (merge : boundMerge slot side candidate = some merged)
    (hs : ∀ b, slot = some b → source b.value)
    (hc : source candidate.value) : source merged.value := by
  unfold boundMerge at merge
  split at merge
  · cases merge
    exact hc
  · rename_i existing
    simp only [boundTighten, Option.map_eq_some_iff] at merge
    obtain ⟨ord, _, rfl⟩ := merge
    split
    · exact hc
    · exact hs existing rfl
    · exact hs existing rfl

theorem ScanOrigin.next {read : List (BinaryOp × LiteralValue)} {next : ComparisonScan}
    {op : BinaryOp} (hb : ScanOrigin read scan) (step : ScanRead scan literal op next) :
    ScanOrigin (read ++ [(op, literal)]) next := by
  have last : (op, literal) ∈ read ++ [(op, literal)] :=
    List.mem_append_right _ List.mem_cons_self
  have equalKept : ∀ other, scan.equalValue = some other →
      (BinaryOp.equal, other) ∈ read ++ [(op, literal)] :=
    fun other found => List.mem_append_left _ (hb.equalFrom other found)
  have excludedKept : ∀ other ∈ scan.notEqual,
      (BinaryOp.notEqual, other) ∈ read ++ [(op, literal)] :=
    fun other found => List.mem_append_left _ (hb.notEqualFrom other found)
  have boundKept : ∀ side bound, scanBound scan side = some bound →
      ∃ op', Bounding side op' ∧ (op', bound.value) ∈ read ++ [(op, literal)] := by
    intro side bound found
    obtain ⟨op', kind, listed⟩ := hb.boundFrom side bound found
    exact ⟨op', kind, List.mem_append_left _ listed⟩
  cases step with
  | equal same =>
    refine ⟨?_, fun side bound found => boundKept side bound (by cases side <;> exact found),
      excludedKept⟩
    intro other found
    cases found
    exact last
  | notEqual =>
    refine ⟨equalKept, fun side bound found => boundKept side bound (by cases side <;> exact found),
      ?_⟩
    intro other found
    rcases List.mem_append.mp found with found | found
    · exact excludedKept other found
    · exact List.mem_singleton.mp found ▸ last
  | @bound side _ merged kind merge =>
    refine ⟨fun other found => equalKept other (by cases side <;> exact found), ?_,
      fun other found => excludedKept other (by cases side <;> exact found)⟩
    intro other bound found
    rcases scanBound_withBound found with ⟨rfl, rfl⟩ | earlier
    · exact boundMerge_value
        (fun value => ∃ op', Bounding other op' ∧ (op', value) ∈ read ++ [(op, literal)])
        merge (fun bound slot => boundKept other bound slot) ⟨op, kind, last⟩
    · exact boundKept other bound earlier

/-! ### The built range -/

theorem gaveUp_of_equalValidate {bounds : List (BoundSide × Option RangeBound)}
    {early : ColumnRange} (returned : equalValidate literal bounds = some early) :
    GaveUp early := by
  fun_induction equalValidate literal bounds with
  | case1 => cases returned
  | case2 _ _ ih | case3 _ _ _ _ ih => exact ih returned
  | case4 =>
    cases returned
    exact .inr rfl
  | case5 =>
    cases returned
    exact .inl rfl

inductive Built (inv : ComparisonScan → Prop) (cs : List (BinaryOp × LiteralValue)) :
    ColumnRange → Prop
  | gaveUp {range : ColumnRange} : GaveUp range → Built inv cs range
  | free : cs = [] → Built inv cs .unconstrained
  | equal {scan : ComparisonScan} {literal : LiteralValue} : inv scan →
      scan.equalValue = some literal →
      equalValidate literal [(.lower, scan.lower), (.upper, scan.upper)] = none →
      literal ∉ scan.notEqual → Built inv cs (.equal literal)
  | point {scan : ComparisonScan} {lower upper : RangeBound} : inv scan → scan.equalValue = none →
      scan.lower = some lower → scan.upper = some upper →
      literalValueOrder lower.value upper.value = some .eq →
      lower.inclusive = true → upper.inclusive = true → lower.value ∉ scan.notEqual →
      Built inv cs (.equal lower.value)
  | interval {scan : ComparisonScan} : inv scan → scan.equalValue = none →
      (∀ lower upper, scan.lower = some lower → scan.upper = some upper →
        literalValueOrder lower.value upper.value = some .lt) →
      Built inv cs (.range ⟨scan.lower, scan.upper, scan.notEqual⟩)

theorem built_of_finish {inv : ComparisonScan → Prop} (kept : inv scan) :
    Built inv cs (comparisonScanFinish scan) := by
  unfold comparisonScanFinish
  split
  · rename_i literal hf
    split
    · rename_i early returned
      exact .gaveUp (gaveUp_of_equalValidate returned)
    · rename_i passed
      split
      · exact .gaveUp (.inr rfl)
      · rename_i free
        exact .equal kept hf passed free
  · rename_i free
    simp only
    split
    · rename_i lower upper hl hu
      split
      · exact .gaveUp (.inr rfl)
      · rename_i level
        split
        · exact .gaveUp (.inr rfl)
        · rename_i closed
          split
          · exact .gaveUp (.inr rfl)
          · rename_i included
            simp only [Bool.or_eq_true, Bool.not_eq_true', not_or, Bool.not_eq_false] at closed
            exact .point kept free hl hu level closed.1 closed.2 included
      · rename_i ho
        refine .interval kept free fun lower' upper' hl' hu' => ?_
        cases hl.symm.trans hl'
        cases hu.symm.trans hu'
        exact ho
      · exact .gaveUp (.inl rfl)
    · rename_i open_
      exact .interval kept free fun lower upper hl hu => (open_ lower upper hl hu).elim

theorem built_of_invariant (start : inv [] {})
    (next : ∀ read scan op literal after, inv read scan → (op, literal) ∈ cs →
      literalValueIsIncomparable literal = false → ScanRead scan literal op after →
      inv (read ++ [(op, literal)]) after) :
    Built (inv cs) cs (comparisonRangeBuild cs) := by
  have refused : ∀ read scan op literal range, inv read scan → (op, literal) ∈ cs →
      Refused scan literal op range → GaveUp range :=
    fun _ _ _ _ _ _ _ refused => refused.imp And.left And.left
  rcases comparisonRangeBuild_rule start next refused with early | ⟨none, same⟩ | ⟨scan, kept, same⟩
  · exact .gaveUp early
  · exact same ▸ .free none
  · exact same ▸ built_of_finish kept

theorem comparisonRangeBuild_built (cs : List (BinaryOp × LiteralValue)) :
    Built (ScanOrigin cs) cs (comparisonRangeBuild cs) :=
  built_of_invariant .start fun _ _ _ _ _ hb _ _ step => hb.next step

theorem bounding_comparisonRangeBuild {view : RangeView} {b : RangeBound}
    (built : comparisonRangeBuild cs = .range view) (hf : view.bound side = some b) :
    ∃ op, Bounding side op ∧ (op, b.value) ∈ cs := by
  have is := comparisonRangeBuild_built cs
  rw [built] at is
  cases is with
  | gaveUp early => rcases early with same | same <;> cases same
  | interval og _ _ => exact og.boundFrom side b (by cases side <;> exact hf)

theorem interval_ordered {view : RangeView} {lower upper : RangeBound}
    (built : comparisonRangeBuild cs = .range view) (below : view.lower = some lower)
    (above : view.upper = some upper) : literalValueOrder lower.value upper.value = some .lt := by
  have is := comparisonRangeBuild_built cs
  rw [built] at is
  cases is with
  | gaveUp early => rcases early with same | same <;> cases same
  | interval _ _ ho => exact ho lower upper below above

theorem not_inSet {literals : List LiteralValue} : comparisonRangeBuild cs ≠ .inSet literals := by
  intro shape
  have is := comparisonRangeBuild_built cs
  rw [shape] at is
  cases is with
  | gaveUp early => rcases early with same | same <;> cases same

theorem nil_of_unconstrained (shape : comparisonRangeBuild cs = .unconstrained) : cs = [] := by
  have is := comparisonRangeBuild_built cs
  rw [shape] at is
  cases is with
  | gaveUp early => rcases early with same | same <;> cases same
  | free none => exact none

end PgCache.Query.Constraints.RangeScan
