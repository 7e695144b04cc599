/- digest: What a classified write may do to the tables, and when it leaves a read alone. -/
import Mathlib.Data.Multiset.Filter
import PgCache.Query.Constraints.RangeMeaning
import PgCache.Query.Write

set_option autoImplicit false

namespace PgCache.ReadAfterWrite.Effects

open Query.Literal Query.Constraints.RangeMeaning Query.Write

section Replace

variable {α : Type}

def Replaced (removable addable : α → Prop) (before after : Multiset α) : Prop :=
  ∃ kept removed added, before = kept + removed ∧ after = kept + added ∧
    (∀ x ∈ removed, removable x) ∧ ∀ x ∈ added, addable x

theorem filter_of_replaced {removable addable p : α → Prop} [DecidablePred p]
    {before after : Multiset α} (replaced : Replaced removable addable before after)
    (outside : ∀ x, removable x ∨ addable x → ¬ p x) : after.filter p = before.filter p := by
  obtain ⟨kept, removed, added, rfl, rfl, hr, ha⟩ := replaced
  have noneRemoved : removed.filter p = 0 :=
    Multiset.filter_eq_nil.mpr fun x hm => outside x (Or.inl (hr x hm))
  have noneAdded : added.filter p = 0 :=
    Multiset.filter_eq_nil.mpr fun x hm => outside x (Or.inr (ha x hm))
  rw [Multiset.filter_add, Multiset.filter_add, noneRemoved, noneAdded]

end Replace

variable {V : Type} [LinearOrder V] (S : ColumnValues V)

def Describes (columns : List String) (cells : InsertRow) (row : Row V) : Prop :=
  ∀ column literal, (column, some literal) ∈ columns.zip cells →
    row column = S.literal column literal

def lastAssignment (set : List SetAssignment) (column : String) : Option (Option LiteralValue) :=
  set.foldl (fun last assignment => if assignment.1 = column then some assignment.2 else last) none

/-- `new` is an image of `old` under a SET list: literal assignments fix the new value, other
assignments leave it open, and every other column keeps its value. -/
def Image (set : List SetAssignment) (old new : Row V) : Prop :=
  ∀ column,
    match lastAssignment set column with
    | some (some literal) => new column = S.literal column literal
    | some none => True
    | none => new column = old column

def Removes : WriteClass → Row V → Prop
  | .insertRows _, _ => False
  | .deleteRows delete, row => RowMatches S delete.comparisons row
  | .updateRows update, row => RowMatches S update.whereComparisons row
  | .table _, _ | .connection, _ | .connectionUnstampable, _ => True

def Adds : WriteClass → Row V → Prop
  | .insertRows insert, row => ∃ cells ∈ insert.rows, Describes S insert.columns cells row
  | .deleteRows _, _ => False
  | .updateRows update, row =>
    ∃ old, RowMatches S update.whereComparisons old ∧ Image S update.set old row
  | .table _, _ | .connection, _ | .connectionUnstampable, _ => True

/-- A write may take out or put in rows of a predicate. -/
def Disturbs (write : WriteClass) (p : Row V → Prop) : Prop :=
  ∃ row, (Removes S write row ∨ Adds S write row) ∧ p row

/-- How the session resolves table names: two references to one table have the same name, and
the same schema where both are qualified. -/
structure NameResolution (τ : Type) where
  table : RelationRef → τ
  name_eq : ∀ {a b : RelationRef}, table a = table b → a.name = b.name
  schema_eq : ∀ {a b : RelationRef}, table a = table b →
    ∀ {x y : String}, a.schema = some x → b.schema = some y → x = y

variable {τ : Type} (names : NameResolution τ)

/-- Whether a write may reach a table: a write of unknown scope reaches every table. -/
def Reaches (write : WriteClass) (table : τ) : Prop :=
  ∀ relation, write.relation? = some relation → names.table relation = table

def Applies (write : WriteClass) (before after : τ → Multiset (Row V)) : Prop :=
  ∀ table, (Reaches names write table ∧ Replaced (Removes S write) (Adds S write)
    (before table) (after table)) ∨ after table = before table

def AppliesAll : List WriteClass → (τ → Multiset (Row V)) → (τ → Multiset (Row V)) → Prop
  | [], before, after => after = before
  | write :: writes, before, after =>
    ∃ between, Applies S names write before between ∧ AppliesAll writes between after

variable {S names}

/-- A run of writes none of which both reaches a table and disturbs a predicate leaves the rows
of the predicate in the table. -/
theorem filter_of_appliesAll {p : Row V → Prop} [DecidablePred p] {table : τ}
    (writes : List WriteClass)
    (harmless : ∀ write ∈ writes, Reaches names write table → ¬ Disturbs S write p)
    {before after : τ → Multiset (Row V)} (applied : AppliesAll S names writes before after) :
    (after table).filter p = (before table).filter p := by
  induction writes generalizing before with
  | nil => rw [show after = before from applied]
  | cons write writes ih =>
    obtain ⟨between, first, rest⟩ := applied
    have tail := ih (fun w hm => harmless w (List.mem_cons_of_mem write hm)) rest
    rw [tail]
    rcases first table with ⟨reaches, replaced⟩ | unchanged
    · refine filter_of_replaced replaced fun row touched hm => ?_
      exact harmless write List.mem_cons_self reaches ⟨row, touched, hm⟩
    · rw [unchanged]

end PgCache.ReadAfterWrite.Effects
