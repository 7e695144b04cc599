/- digest: What it means that an aggregate holds a write, and that no operation loses one. -/
import Mathlib.Data.List.Forall2
import PgCache.ReadAfterWrite.Log

set_option autoImplicit false

namespace PgCache.ReadAfterWrite.Coverage

open Data.Keyed Query.Literal
open Query.Constraints.RangeOverlap Query.Write Aggregate Log TableAggregate

/-! ### Known cells of inserted rows -/

def CellsWithin (columns : List String) (row : InsertRow) (columns' : List String)
    (row' : InsertRow) : Prop :=
  ∀ column literal, (column, some literal) ∈ columns.zip row →
    (column, some literal) ∈ columns'.zip row'

private theorem mem_zip_iff {α β : Type} (xs : List α) (ys : List β) (x : α) (y : β) :
    (x, y) ∈ xs.zip ys ↔ ∃ i : Nat, xs[i]? = some x ∧ ys[i]? = some y := by
  simp only [List.mem_iff_getElem?, List.getElem?_zip_eq_some]

private theorem columnPositionsResolve_spec (cols st : List String) :
    cols <+: (columnPositionsResolve cols st).1 ∧ List.Forall₂ (fun c i =>
          (columnPositionsResolve cols st).1[i]? = some c)
        st (columnPositionsResolve cols st).2 := by
  fun_induction columnPositionsResolve cols st with
  | case1 cols => exact ⟨List.prefix_rfl, .nil⟩
  | case2 cols c rest i hf widened positions rs ih =>
    rw [rs] at ih
    obtain ⟨b, hit, _⟩ := List.idxOf?_eq_some_iff.mp hf
    refine ⟨ih.1, .cons ?_ ih.2⟩
    rw [List.prefix_iff_getElem?.mp ih.1 i b, hit]
  | case3 cols c rest missing widened positions rs ih =>
    rw [rs] at ih
    refine ⟨(List.prefix_append cols [c]).trans ih.1, .cons ?_ ih.2⟩
    rw [List.prefix_iff_getElem?.mp ih.1 cols.length (by simp)]
    simp

private theorem rowScatter_known (pairs : List (Option LiteralValue × Nat)) (cells : InsertRow)
    (i : Nat) (l : LiteralValue)
    (hk : (pairs.foldl (fun cells cell => cells.set cell.2 cell.1) cells)[i]? = some (some l)) :
    cells[i]? = some (some l) ∨ (some l, i) ∈ pairs := by
  induction pairs generalizing cells with
  | nil => exact Or.inl hk
  | cons pair pairs ih =>
    rcases ih _ hk with earlier | later
    · rw [List.getElem?_set] at earlier
      split at earlier
      · rename_i same
        split at earlier
        · rw [← same, ← Option.some.inj earlier]
          exact Or.inr List.mem_cons_self
        · cases earlier
      · exact Or.inl earlier
    · exact Or.inr (List.mem_cons_of_mem _ later)

private theorem cellsWithin_rowScatter (columns statement : List String) (values : InsertRow) :
    CellsWithin (columnPositionsResolve columns statement).1
      (rowScatter (columnPositionsResolve columns statement).1.length
        (columnPositionsResolve columns statement).2 values)
      statement values := by
  intro column literal known
  obtain ⟨position, hcolumn, hcell⟩ := (mem_zip_iff _ _ _ _).mp known
  have blank : (List.replicate (columnPositionsResolve columns statement).1.length
      (none : Option LiteralValue))[position]? ≠ some (some literal) := by
    simp [List.getElem?_replicate]
  have placed := (rowScatter_known _ _ _ _ hcell).resolve_left blank
  obtain ⟨i, hvalue, hposition⟩ := (mem_zip_iff _ _ _ _).mp placed
  obtain ⟨lengths, aligned⟩ :=
    List.forall₂_iff_zip.mp (columnPositionsResolve_spec columns statement).2
  have bound : i < statement.length := by
    rw [lengths]
    exact (List.getElem?_eq_some_iff.mp hposition).1
  have name : statement[i]? = some statement[i] := List.getElem?_eq_getElem bound
  have same := aligned ((mem_zip_iff _ _ _ _).mpr ⟨i, name, hposition⟩)
  rw [hcolumn] at same
  refine (mem_zip_iff _ _ _ _).mpr ⟨i, ?_, hvalue⟩
  rw [name, same]

private theorem cellsWithin_widened {cols widened : List String} {row : InsertRow}
    (narrow : cols <+: widened) (fits : row.length ≤ cols.length) :
    CellsWithin widened row cols row := by
  intro c l hk
  obtain ⟨i, hcolumn, hcell⟩ := (mem_zip_iff _ _ _ _).mp hk
  have b : i < cols.length := (List.getElem?_eq_some_iff.mp hcell).1.trans_le fits
  rw [List.prefix_iff_getElem?.mp narrow i b] at hcolumn
  exact (mem_zip_iff _ _ _ _).mpr ⟨i, by rw [List.getElem?_eq_getElem b, hcolumn], hcell⟩

def RowsHeld (columns : List String) (rows : List InsertRow) (held : InsertAggregate) : Prop :=
  ∀ row ∈ rows, ∃ row' ∈ held.rows, CellsWithin held.columns row' columns row

variable (inserts : InsertAggregate) (a : TableAggregate)

theorem rowsHeld_self : RowsHeld inserts.columns inserts.rows inserts :=
  fun row hm => ⟨row, hm, fun _ _ hk => hk⟩

theorem RowsHeld.trans {cols : List String} {rows : List InsertRow} {a b : InsertAggregate}
    (first : RowsHeld cols rows a) (snd : RowsHeld a.columns a.rows b) :
    RowsHeld cols rows b := by
  intro row inside
  obtain ⟨row', inside', within⟩ := first row inside
  obtain ⟨row'', inside'', within'⟩ := snd row' inside'
  exact ⟨row'', inside'', fun c l hk => within _ _ (within' _ _ hk)⟩

private theorem rowsHeld_rowsPush_old (cols : List String) (rows : List InsertRow) :
    RowsHeld inserts.columns inserts.rows (inserts.rowsPush cols rows) := by
  intro row hm
  exact ⟨row, List.mem_append_left _ hm,
    cellsWithin_widened (columnPositionsResolve_spec _ _).1 (inserts.fits row hm)⟩

private theorem rowsHeld_rowsPush_new (cols : List String) (rows : List InsertRow) :
    RowsHeld cols rows (inserts.rowsPush cols rows) := by
  intro row hm
  exact ⟨_, List.mem_append_right _ (List.mem_map_of_mem hm), cellsWithin_rowScatter _ _ _⟩

theorem rowsHeld_fold {inserts folded : InsertAggregate} {insert : InsertStatement}
    (fold : inserts.fold insert = some folded) :
    RowsHeld inserts.columns inserts.rows folded ∧ RowsHeld insert.columns insert.rows folded := by
  unfold InsertAggregate.fold at fold
  split at fold
  · cases fold
  · cases fold
    exact ⟨rowsHeld_rowsPush_old _ _ _, rowsHeld_rowsPush_new _ _ _⟩

theorem rowsHeld_merge {inserts o merged : InsertAggregate}
    (merge : inserts.merge o = some merged) :
    RowsHeld inserts.columns inserts.rows merged ∧ RowsHeld o.columns o.rows merged := by
  unfold InsertAggregate.merge at merge
  split at merge
  · cases merge
  · split at merge
    · rename_i noRows
      cases merge
      refine ⟨?_, rowsHeld_self _⟩
      rw [noRows]
      exact fun row hm => nomatch hm
    · cases merge
      exact ⟨rowsHeld_rowsPush_old _ _ _, rowsHeld_rowsPush_new _ _ _⟩

/-! ### Aggregates that hold a write -/

def Stores (aggregate : TableAggregate) : WriteClass → Prop
  | .insertRows insert =>
    ∃ inserts, aggregate.inserts = some inserts ∧ RowsHeld insert.columns insert.rows inserts
  | .deleteRows delete =>
    match equalityTupleBuild delete.comparisons with
    | some (columns, values) =>
      ∃ tuples, aggregate.mergedDeletes.lookup columns = some tuples ∧ values ∈ tuples
    | none => columnRangesFromComparisons delete.comparisons ∈ aggregate.deletes
  | .updateRows update =>
    match updateTupleBuild update with
    | some (shape, tuple) =>
      ∃ tuples, aggregate.mergedUpdates.lookup shape = some tuples ∧ tuple ∈ tuples
    | none => updatePredicateBuild update ∈ aggregate.updates
  | .table _ | .connection | .connectionUnstampable => False

/-- An aggregate accounts for a write: it is opaque, or its finer stores hold the write. -/
def Covers (aggregate : TableAggregate) (write : WriteClass) : Prop :=
  aggregate.isOpaque = true ∨ Stores aggregate write

structure StoresGrow (a b : TableAggregate) : Prop where
  visible : a.isOpaque = false
  inserts : ∀ old, a.inserts = some old →
    ∃ new, b.inserts = some new ∧ RowsHeld old.columns old.rows new
  mergedDeletes : Includes a.mergedDeletes b.mergedDeletes
  deletes : a.deletes ⊆ b.deletes
  mergedUpdates : Includes a.mergedUpdates b.mergedUpdates
  updates : a.updates ⊆ b.updates

def Grows (a b : TableAggregate) : Prop := b.isOpaque = true ∨ StoresGrow a b

theorem covers_of_grows {a b : TableAggregate} {write : WriteClass} (grows : Grows a b)
    (covers : Covers a write) : Covers b write := by
  rcases grows with dark | grows
  · exact Or.inl dark
  · refine Or.inr ?_
    have stores : Stores a write := by
      refine covers.resolve_left ?_
      rw [grows.visible]
      exact Bool.false_ne_true
    cases write with
    | insertRows insert =>
      obtain ⟨old, found, held⟩ := stores
      obtain ⟨new, found', held'⟩ := grows.inserts old found
      exact ⟨new, found', held.trans held'⟩
    | deleteRows delete =>
      simp only [Stores] at stores ⊢
      split
      · rename_i cols vs built
        rw [built] at stores
        obtain ⟨tuples, found, hm⟩ := stores
        obtain ⟨tuples', found', subset⟩ := grows.mergedDeletes cols tuples found
        exact ⟨tuples', found', subset hm⟩
      · rename_i built
        rw [built] at stores
        exact grows.deletes stores
    | updateRows update =>
      simp only [Stores] at stores ⊢
      split
      · rename_i shape tuple built
        rw [built] at stores
        obtain ⟨tuples, found, hm⟩ := stores
        obtain ⟨tuples', found', subset⟩ := grows.mergedUpdates shape tuples found
        exact ⟨tuples', found', subset hm⟩
      · rename_i built
        rw [built] at stores
        exact grows.updates stores
    | table | connection | connectionUnstampable => exact stores.elim

theorem StoresGrow.refl {a : TableAggregate} (visible : a.isOpaque = false) : StoresGrow a a where
  visible := visible
  inserts := fun old hf => ⟨old, hf, rowsHeld_self old⟩
  mergedDeletes := Includes.refl _
  deletes := fun _ hm => hm
  mergedUpdates := Includes.refl _
  updates := fun _ hm => hm

theorem Grows.refl : Grows a a := by
  cases dark : a.isOpaque with
  | true => exact Or.inl dark
  | false => exact Or.inr (StoresGrow.refl dark)

theorem Grows.trans {a b c : TableAggregate} (ab : StoresGrow a b) (bc : Grows b c) :
    Grows a c := by
  rcases bc with dark | bc
  · exact Or.inl dark
  · refine Or.inr ⟨ab.visible, ?_, ab.mergedDeletes.trans bc.mergedDeletes,
      fun _ hm => bc.deletes (ab.deletes hm), ab.mergedUpdates.trans bc.mergedUpdates,
      fun _ hm => bc.updates (ab.updates hm)⟩
    intro old found
    obtain ⟨middle, found', held⟩ := ab.inserts old found
    obtain ⟨new, found'', held'⟩ := bc.inserts middle found'
    exact ⟨new, found'', held.trans held'⟩

theorem grows_mergedOverflow : Grows a a.mergedOverflow := by
  unfold mergedOverflow
  split
  · exact Or.inl rfl
  · exact Grows.refl a

theorem grows_predicateOverflow : Grows a a.predicateOverflow := by
  unfold predicateOverflow
  split
  · exact Or.inl rfl
  · exact Grows.refl a

/-! ### Recording -/

theorem grows_recordInsert (insert : InsertStatement) : Grows a (a.recordInsert insert) := by
  unfold recordInsert
  split
  · exact Grows.refl a
  · rename_i visible
    split
    · rename_i folded fold
      refine Or.inr { StoresGrow.refl (by simpa using visible) with inserts := ?_ }
      intro old hf
      rw [hf, Option.getD_some] at fold
      exact ⟨folded, rfl, (rowsHeld_fold fold).1⟩
    · exact Or.inl rfl

theorem covers_recordInsert (insert : InsertStatement) :
    Covers (a.recordInsert insert) (.insertRows insert) := by
  unfold recordInsert
  split
  · rename_i dark
    exact Or.inl dark
  · split
    · rename_i folded fold
      exact Or.inr ⟨folded, rfl, (rowsHeld_fold fold).2⟩
    · exact Or.inl rfl

theorem grows_recordDelete (delete : DeleteStatement) : Grows a (a.recordDelete delete) := by
  unfold recordDelete
  split
  · exact Grows.refl a
  · rename_i visible
    have visible : a.isOpaque = false := by simpa using visible
    split
    · refine Grows.trans ?_ (grows_mergedOverflow _)
      exact { StoresGrow.refl visible with mergedDeletes := includes_modify_append _ _ _ }
    · refine Grows.trans ?_ (grows_predicateOverflow _)
      exact { StoresGrow.refl visible with
        deletes := fun _ hm => List.mem_append_left _ hm }

theorem covers_recordDelete (delete : DeleteStatement) :
    Covers (a.recordDelete delete) (.deleteRows delete) := by
  unfold recordDelete
  split
  · rename_i dark
    exact Or.inl dark
  · split
    · rename_i cols vs built
      refine covers_of_grows (grows_mergedOverflow _) (Or.inr ?_)
      obtain ⟨tuples, hf, subset⟩ := subset_modify_append a.mergedDeletes cols [vs]
      simp only [Stores, built]
      exact ⟨tuples, hf, subset List.mem_cons_self⟩
    · rename_i built
      refine covers_of_grows (grows_predicateOverflow _) (Or.inr ?_)
      simp only [Stores, built]
      exact List.mem_append_right _ List.mem_cons_self

theorem grows_recordUpdate (update : UpdateStatement) : Grows a (a.recordUpdate update) := by
  unfold recordUpdate
  split
  · exact Grows.refl a
  · rename_i visible
    have visible : a.isOpaque = false := by simpa using visible
    split
    · refine Grows.trans ?_ (grows_mergedOverflow _)
      exact { StoresGrow.refl visible with mergedUpdates := includes_modify_append _ _ _ }
    · refine Grows.trans ?_ (grows_predicateOverflow _)
      exact { StoresGrow.refl visible with
        updates := fun _ hm => List.mem_append_left _ hm }

theorem covers_recordUpdate (update : UpdateStatement) :
    Covers (a.recordUpdate update) (.updateRows update) := by
  unfold recordUpdate
  split
  · rename_i dark
    exact Or.inl dark
  · split
    · rename_i shape tuple built
      refine covers_of_grows (grows_mergedOverflow _) (Or.inr ?_)
      obtain ⟨tuples, hf, subset⟩ := subset_modify_append a.mergedUpdates shape [tuple]
      simp only [Stores, built]
      exact ⟨tuples, hf, subset List.mem_cons_self⟩
    · rename_i built
      refine covers_of_grows (grows_predicateOverflow _) (Or.inr ?_)
      simp only [Stores, built]
      exact List.mem_append_right _ List.mem_cons_self

/-! ### Merging tiers -/

private theorem merge_cases (b : TableAggregate) :
    (a.merge b).isOpaque = true ∨ a.isOpaque = false ∧ b.isOpaque = false ∧
      ∃ merged : TableAggregate, (merged.inserts = a.inserts ∧ b.inserts = none ∨
          ∃ o inserts, b.inserts = some o ∧ merged.inserts = some inserts ∧
            (a.inserts.getD .empty).merge o = some inserts) ∧
        merged.mergedDeletes = extend a.mergedDeletes b.mergedDeletes ∧
        merged.mergedUpdates = extend a.mergedUpdates b.mergedUpdates ∧
        merged.deletes = a.deletes ++ b.deletes ∧
        merged.updates = a.updates ++ b.updates ∧
        a.merge b = merged.mergedOverflow.predicateOverflow := by
  unfold merge
  split
  · exact Or.inl rfl
  · rename_i visible
    simp only [Bool.or_eq_true, not_or, Bool.not_eq_true] at visible
    simp only
    split
    · rename_i noInserts
      refine Or.inr ⟨visible.1, visible.2, _, ?_, ?_, ?_, ?_, ?_, rfl⟩
      · exact Or.inl ⟨rfl, noInserts⟩
      all_goals rfl
    · rename_i o hasInserts
      split
      · rename_i inserts merge
        refine Or.inr ⟨visible.1, visible.2, _, ?_, ?_, ?_, ?_, ?_, rfl⟩
        · exact Or.inr ⟨o, inserts, hasInserts, rfl, merge⟩
        all_goals rfl
      · exact Or.inl rfl

private theorem grows_overflows : Grows a a.mergedOverflow.predicateOverflow := by
  rcases grows_mergedOverflow a with dark | grows
  · rcases grows_predicateOverflow a.mergedOverflow with dark' | grows'
    · exact Or.inl dark'
    · rw [grows'.visible] at dark
      cases dark
  · exact Grows.trans grows (grows_predicateOverflow _)

theorem grows_merge_left (b : TableAggregate) : Grows a (a.merge b) := by
  rcases merge_cases a b with dark | ⟨visible, _, merged, inserts, deletes, updates, hd, hu, same⟩
  · exact Or.inl dark
  · rw [same]
    refine Grows.trans ⟨visible, ?_, ?_, ?_, ?_, ?_⟩ (grows_overflows merged)
    · intro old hf
      rcases inserts with ⟨kept, _⟩ | ⟨o, new, _, stored, merge⟩
      · exact ⟨old, by rw [kept, hf], rowsHeld_self old⟩
      · rw [hf, Option.getD_some] at merge
        exact ⟨new, stored, (rowsHeld_merge merge).1⟩
    · rw [deletes]
      exact includes_extend_left _ _
    · rw [hd]
      exact fun _ hm => List.mem_append_left _ hm
    · rw [updates]
      exact includes_extend_left _ _
    · rw [hu]
      exact fun _ hm => List.mem_append_left _ hm

theorem grows_merge_right (b : TableAggregate) : Grows b (a.merge b) := by
  rcases merge_cases a b with dark | ⟨_, visible, merged, inserts, deletes, updates, hd, hu, same⟩
  · exact Or.inl dark
  · rw [same]
    refine Grows.trans ⟨visible, ?_, ?_, ?_, ?_, ?_⟩ (grows_overflows merged)
    · intro old hf
      rcases inserts with ⟨_, ha⟩ | ⟨o, new, hp, stored, merge⟩
      · rw [ha] at hf
        cases hf
      · rw [hp] at hf
        cases hf
        exact ⟨new, stored, (rowsHeld_merge merge).2⟩
    · rw [deletes]
      exact includes_extend_right _ _
    · rw [hd]
      exact fun _ hm => List.mem_append_right _ hm
    · rw [updates]
      exact includes_extend_right _ _
    · rw [hu]
      exact fun _ hm => List.mem_append_right _ hm

end PgCache.ReadAfterWrite.Coverage
