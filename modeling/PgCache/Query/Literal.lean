/- source: query/ast/types/expr.rs, query/cast.rs
   digest: Literal values, binary operators and cast targets shared by every later layer. -/
import Mathlib.Algebra.Order.Field.Rat
import Mathlib.Order.Compare

set_option autoImplicit false

namespace PgCache.Query.Literal

/-- A double that is not NaN, up to the sign of zero: the values `NotNan<f64>` compares.
A finite double is the rational it denotes. -/
inductive F64 where
  | negInf
  | fin (q : ℚ)
  | posInf
  deriving DecidableEq

namespace F64

def cmp : F64 → F64 → Ordering
  | .negInf, .negInf => .eq
  | .negInf, _ => .lt
  | _, .negInf => .gt
  | .posInf, .posInf => .eq
  | .posInf, _ => .gt
  | _, .posInf => .lt
  | .fin a, .fin b => compare a b

theorem cmp_eq_iff (a b : F64) : a.cmp b = .eq ↔ a = b := by
  cases a <;> cases b <;> simp [cmp]

theorem cmp_swap (a b : F64) : (a.cmp b).swap = b.cmp a := by
  cases a <;> cases b <;> simp [cmp]
  case fin.fin p q => exact Std.OrientedOrd.eq_swap.symm

theorem transCmp : Std.TransCmp cmp where
  eq_swap {a b} := (cmp_swap b a).symm
  isLE_trans {a b c} := by
    cases a <;> cases b <;> cases c <;> simp [cmp]
    case fin.fin.fin p q r => exact Std.TransCmp.isLE_trans

end F64

inductive LiteralValue where
  | string (s : String)
  | stringWithCast (s cast : String)
  | integer (i : Int64)
  | float (f : F64)
  | boolean (b : Bool)
  | null
  | nullWithCast (cast : String)
  | parameter (name : String)
  | array (elements : List LiteralValue) (cast : String)

namespace LiteralValue

mutual

def same : LiteralValue → LiteralValue → Bool
  | .string a, .string b => a = b
  | .stringWithCast a c, .stringWithCast b d => a = b ∧ c = d
  | .integer a, .integer b => a = b
  | .float a, .float b => a = b
  | .boolean a, .boolean b => a = b
  | .null, .null => true
  | .nullWithCast a, .nullWithCast b => a = b
  | .parameter a, .parameter b => a = b
  | .array as a, .array bs b => sameList as bs && a = b
  | _, _ => false

def sameList : List LiteralValue → List LiteralValue → Bool
  | [], [] => true
  | a :: as, b :: bs => same a b && sameList as bs
  | _, _ => false

end

mutual

theorem same_iff (a b : LiteralValue) : same a b = true ↔ a = b := by
  cases a with
  | array as c => cases b <;> simp [same, sameList_iff as]
  | _ => cases b <;> simp [same]

theorem sameList_iff (as bs : List LiteralValue) : sameList as bs = true ↔ as = bs := by
  cases as with
  | nil => cases bs <;> simp [sameList]
  | cons a as => cases bs <;> simp [sameList, same_iff a, sameList_iff as]

end

instance : DecidableEq LiteralValue := fun a b => decidable_of_iff _ (same_iff a b)

def numeric? : LiteralValue → Option F64
  | .integer i => some (.fin i.toInt)
  | .float f => some f
  | _ => none

end LiteralValue

inductive BinaryOp where
  | and
  | or
  | equal
  | notEqual
  | lessThan
  | lessThanOrEqual
  | greaterThan
  | greaterThanOrEqual
  | like
  | iLike
  | notLike
  | notILike
  deriving DecidableEq

namespace BinaryOp

def opFlip : BinaryOp → Option BinaryOp
  | .equal => some .equal
  | .notEqual => some .notEqual
  | .lessThan => some .greaterThan
  | .lessThanOrEqual => some .greaterThanOrEqual
  | .greaterThan => some .lessThan
  | .greaterThanOrEqual => some .lessThanOrEqual
  | .and | .or | .like | .iLike | .notLike | .notILike => none

def holds : BinaryOp → Ordering → Bool
  | .equal, ord => ord = .eq
  | .notEqual, ord => ord ≠ .eq
  | .lessThan, ord => ord = .lt
  | .lessThanOrEqual, ord => ord ≠ .gt
  | .greaterThan, ord => ord = .gt
  | .greaterThanOrEqual, ord => ord ≠ .lt
  | _, _ => false

end BinaryOp

inductive CastTarget where
  | text
  | int4
  | int8
  | bool
  | date
  | other (name : String)
  deriving DecidableEq

end PgCache.Query.Literal
