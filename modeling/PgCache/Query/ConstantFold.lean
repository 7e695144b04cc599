/- source: query/transform/constant_fold.rs, query/transform/walk.rs,
     query/ast/convert_raw/where_clause.rs
   digest: Arithmetic on literals folded to one literal, beside the server's value of the tree. -/
import PgCache.Sql.Semantics

set_option autoImplicit false

namespace PgCache.Query.ConstantFold

open Literal Resolved.Ast Sql.Semantics
open Option (map_eq_some_iff bind_eq_some_iff filter_eq_some_iff ite_none_left_eq_some)

def exactOp : ArithmeticOp → ℚ → ℚ → Option ℚ
  | .add, a, b => some (a + b)
  | .subtract, a, b => some (a - b)
  | .multiply, a, b => some (a * b)
  | .divide, a, b => if b = 0 then none else some (a / b)
  | .modulo, a, b => if b = 0 then none else some (a - b * (a / b).num.tdiv (a / b).den)

section Binary64

def exponent (q : ℚ) : Int :=
  let e : Int := q.num.natAbs.log2 - q.den.log2
  if |q| < 2 ^ e then e - 1 else e

def halfEven (q : ℚ) : Int :=
  if q - q.floor < 1 / 2 ∨ q - q.floor = 1 / 2 ∧ q.floor % 2 = 0 then q.floor else q.floor + 1

def nearest (q : ℚ) : ℚ :=
  let unit : ℚ := 2 ^ max (exponent q - 52) (-1074)
  unit * halfEven (q / unit)

inductive Double where
  | zero (negative : Bool)
  | nonzero (q : ℚ)
  | infinite (negative : Bool)
  deriving DecidableEq

namespace Double

def negative : Double → Bool
  | .zero negative | .infinite negative => negative
  | .nonzero q => q < 0

def value : Double → Option ℚ
  | .zero _ => some 0
  | .nonzero q => some q
  | .infinite _ => none

def ofRat (zeroSign : Bool) (q : ℚ) : Double :=
  if nearest q = 0 then .zero (if q = 0 then zeroSign else q < 0)
  else if 2 ^ 1024 ≤ |nearest q| then .infinite (q < 0)
  else .nonzero (nearest q)

def zeroSign (x y : Double) : ArithmeticOp → Bool
  | .add => x.negative && y.negative
  | .subtract => x.negative && !y.negative
  | .multiply | .divide => x.negative ^^ y.negative
  | .modulo => x.negative

def infiniteOp (x y : Double) (op : ArithmeticOp) : Option Double :=
  match op, x.value, y.value with
  | .add, none, none => if x = y then some x else none
  | .subtract, none, none => if x = y then none else some x
  | .add, _, none => some y
  | .subtract, some _, none => some (.infinite (!y.negative))
  | .add, _, _ | .subtract, _, _ => some x
  | .multiply, a, b =>
    if a = some 0 ∨ b = some 0 then none else some (.infinite (x.negative ^^ y.negative))
  | .divide, none, some _ => some (.infinite (x.negative ^^ y.negative))
  | .divide, some _, none => some (.zero (x.negative ^^ y.negative))
  | .modulo, some _, none => some x
  | .divide, _, _ | .modulo, _, _ => none

def op (op : ArithmeticOp) (x y : Double) : Option Double :=
  match x.value, y.value with
  | some a, some b =>
    match exactOp op a b with
    | some q => some (ofRat (zeroSign x y op) q)
    | none => if op = .divide ∧ a ≠ 0 then some (.infinite (x.negative ^^ y.negative)) else none
  | _, _ => infiniteOp x y op

end Double

def isDouble (q : ℚ) : Bool := (Double.ofRat false q).value = some q

theorem value_ofRat {q : ℚ} (zeroSign : Bool) (hd : isDouble q = true) :
    (Double.ofRat zeroSign q).value = some q := by
  have same := of_decide_eq_true hd
  unfold Double.ofRat at same ⊢
  split
  · rename_i vanishes
    rw [if_pos vanishes] at same
    exact same
  · rename_i remains
    rw [if_neg remains] at same
    exact same

theorem isDouble_zero : isDouble 0 = true := by decide +kernel

variable {op : ArithmeticOp} {x y : Double} {a b q : ℚ}

theorem op_exact (left : x.value = some a) (right : y.value = some b)
    (computed : exactOp op a b = some q) (hd : isDouble q = true) :
    ∃ z, Double.op op x y = some z ∧ z.value = some q := by
  refine ⟨.ofRat (Double.zeroSign x y op) q, ?_, value_ofRat _ hd⟩
  simp only [Double.op, left, right, computed]

theorem isSome_op_zero (divides : op = .divide ∨ op = .modulo) (left : x.value = some a)
    (right : y.value = some 0) : (Double.op op x y).isSome = true ↔ op = .divide ∧ a ≠ 0 := by
  rcases divides with rfl | rfl
  · by_cases empty : a = 0 <;> simp [Double.op, left, right, exactOp, empty]
  · simp [Double.op, left, right, exactOp]

end Binary64

/-- What the query says: an integer token, a bound parameter, a decimal token. -/
inductive Expr where
  | token (n : Int)
  | parameter (i : Int64)
  | decimal (q : ℚ)
  | arithmetic (left : Expr) (op : ArithmeticOp) (right : Expr)
  | other

/-- `ScalarExpr`. `other` is what is neither a number nor arithmetic, and stays so whatever is
folded inside it. -/
inductive ScalarExpr where
  | integer (i : Int64)
  | float (f : Double)
  | arithmetic (left : ScalarExpr) (op : ArithmeticOp) (right : ScalarExpr)
  | other
  deriving DecidableEq

/-- `const_value_extract`: the parser hands a token over as an integer only if it fits an `i32`
without its sign, and as text to `parse::<f64>` otherwise. -/
def convert : Expr → ScalarExpr
  | .token n => if n.natAbs < 2 ^ 31 then .integer (Int64.ofInt n) else .float (.ofRat false n)
  | .parameter i => .integer i
  | .decimal q => .float (.ofRat false q)
  | .arithmetic left op right => .arithmetic (convert left) op (convert right)
  | .other => .other

def fits (bits : Nat) (n : Int) : Bool := -2 ^ (bits - 1) ≤ n ∧ n < 2 ^ (bits - 1)

/-- The checked operations of `i64`; `checked_rem` refuses `i64::MIN % -1` too. -/
def integerOp (a : Int64) (op : ArithmeticOp) (b : Int64) : Option Int64 :=
  if op = .modulo ∧ a = Int64.minValue ∧ b = -1 then none
  else ((arithmeticIntegers op a.toInt b.toInt).filter (fits 64)).map Int64.ofInt

def floatOp (a : Double) (op : ArithmeticOp) (b : Double) : Option ScalarExpr :=
  (Double.op op a b).map .float

def asF64 (i : Int64) : Double := .ofRat false i.toInt

def literalArithmeticFold : ScalarExpr → ArithmeticOp → ScalarExpr → Option ScalarExpr
  | .integer a, op, .integer b => (integerOp a op b).map .integer
  | .float a, op, .float b => floatOp a op b
  | .integer a, op, .float b => floatOp (asF64 a) op b
  | .float a, op, .integer b => floatOp a op (asF64 b)
  | _, _, _ => none

def constantFold : ScalarExpr → ScalarExpr
  | .arithmetic left op right =>
    (literalArithmeticFold (constantFold left) op (constantFold right)).getD
      (.arithmetic (constantFold left) op (constantFold right))
  | expr => expr

def isLiteral : ScalarExpr → Bool
  | .integer _ | .float _ => true
  | .arithmetic .. | .other => false

def number : ScalarExpr → Option ℚ
  | .integer i => some i.toInt
  | .float f => f.value
  | .arithmetic .. | .other => none

section Server

def integral : Expr → Bool
  | .token n => fits 64 n
  | .parameter _ => true
  | .arithmetic left _ right => integral left && integral right
  | .decimal _ | .other => false

def width : Expr → Nat
  | .token n => if fits 32 n then 32 else 64
  | .parameter i => if fits 32 i.toInt then 32 else 64
  | .arithmetic left _ right => max (width left) (width right)
  | .decimal _ | .other => 64

def exactValue : Expr → Option ℚ
  | .token n => some n
  | .parameter i => some i.toInt
  | .decimal q => some q
  | .arithmetic left op right => do
    let a ← exactValue left
    let b ← exactValue right
    if integral left && integral right then
      (arithmeticIntegers op a.num b.num).map fun n : Int => (n : ℚ)
    else exactOp op a b
  | .other => none

/-- The server's value: an integer outside its type is an error, and `quotient` is its rounding of
a quotient of numerics. -/
def serverValue (quotient : ℚ → ℚ → ℚ) : Expr → Option ℚ
  | .token n => some n
  | .parameter i => some i.toInt
  | .decimal q => some q
  | .arithmetic left op right => do
    let a ← serverValue quotient left
    let b ← serverValue quotient right
    if integral left && integral right then
      ((arithmeticIntegers op a.num b.num).filter (fits (max (width left) (width right)))).map
        fun n : Int => (n : ℚ)
    else if op = .divide ∧ b ≠ 0 then some (quotient a b)
    else exactOp op a b
  | .other => none

def machine : Expr → Bool
  | .token n => n.natAbs < 2 ^ 31
  | .parameter _ => true
  | .arithmetic left _ right => machine left && machine right
  | .decimal _ | .other => false

/-- No operation on two int4 operands leaves int4, and what is computed on doubles is a double: the
operands, and the result, which no truncation, bound or rounding changes. -/
def kept (quotient : ℚ → ℚ → ℚ) : Expr → Bool
  | .arithmetic left op right =>
    kept quotient left && kept quotient right &&
    if machine left && machine right then
      max (width left) (width right) = 64 ||
        (exactValue (.arithmetic left op right)).all fun q => fits 32 q.num
    else
      match exactValue left, exactValue right with
      | some a, some b => isDouble a && isDouble b && (exactOp op a b).any fun q =>
        isDouble q && exactValue (.arithmetic left op right) = some q &&
          if integral left && integral right then fits (max (width left) (width right)) q.num
          else op ≠ .divide || quotient a b = q
      | _, _ => true
  | _ => true

/-- Without the one remainder that `checked_rem` refuses and the server computes. -/
def regular : Expr → Bool
  | .arithmetic left op right => regular left && regular right &&
    !(op = .modulo && exactValue left = some (-9223372036854775808) && exactValue right = some (-1))
  | _ => true

/-- What is folded is folded to the server's value, at every node. -/
def Sound (quotient : ℚ → ℚ → ℚ) : Expr → Prop
  | .arithmetic left op right => Sound quotient left ∧ Sound quotient right ∧
    (isLiteral (constantFold (convert (.arithmetic left op right))) = true →
      ∃ q, number (constantFold (convert (.arithmetic left op right))) = some q ∧
        serverValue quotient (.arithmetic left op right) = some q)
  | _ => True

end Server

variable {left right expr : ScalarExpr} {op : ArithmeticOp} {a b n : Int64} {q : ℚ}

theorem integerOp_exact (computed : integerOp a op b = some n) :
    arithmeticIntegers op a.toInt b.toInt = some n.toInt := by
  unfold integerOp at computed
  split at computed
  · cases computed
  · obtain ⟨v, hm, rfl⟩ := map_eq_some_iff.mp computed
    obtain ⟨exact_, bounds⟩ := filter_eq_some_iff.mp hm
    obtain ⟨low, high⟩ := of_decide_eq_true bounds
    rw [exact_, Int64.toInt_ofInt_of_le low high]

theorem integerOp_of_fits {v : Int} (computed : arithmeticIntegers op a.toInt b.toInt = some v)
    (hf : fits 64 v = true) (hr : ¬(op = .modulo ∧ a = Int64.minValue ∧ b = -1)) :
    ∃ n : Int64, integerOp a op b = some n ∧ n.toInt = v := by
  obtain ⟨low, high⟩ := of_decide_eq_true hf
  refine ⟨.ofInt v, ?_, Int64.toInt_ofInt_of_le low high⟩
  simp [integerOp, hr, computed, hf]

def asDouble : ScalarExpr → Option Double
  | .integer i => some (asF64 i)
  | .float f => some f
  | .arithmetic .. | .other => none

theorem asDouble_number (known : number expr = some q) (hd : isDouble q = true) :
    ∃ x, asDouble expr = some x ∧ x.value = some q := by
  cases expr with
  | integer i =>
    obtain rfl := Option.some_inj.mp known
    exact ⟨_, rfl, value_ofRat false hd⟩
  | float f => exact ⟨f, rfl, known⟩
  | arithmetic | other => cases known

theorem literalArithmeticFold_doubles
    (mixed : ¬∃ a b, left = .integer a ∧ right = .integer b) :
    literalArithmeticFold left op right =
      (asDouble left).bind fun x => (asDouble right).bind fun y => floatOp x op y := by
  cases left <;> cases right <;> simp_all [literalArithmeticFold, asDouble]

theorem literalArithmeticFold_literals (folded : literalArithmeticFold left op right = some expr) :
    isLiteral left = true ∧ isLiteral right = true ∧ isLiteral expr = true := by
  unfold literalArithmeticFold floatOp at folded
  split at folded
  case h_5 => cases folded
  all_goals
    obtain ⟨_, -, rfl⟩ := map_eq_some_iff.mp folded
    exact ⟨rfl, rfl, rfl⟩

theorem literalArithmeticFold_of_literal
    (lit : isLiteral (constantFold (.arithmetic left op right)) = true) :
    literalArithmeticFold (constantFold left) op (constantFold right) =
      some (constantFold (.arithmetic left op right)) := by
  rw [constantFold] at lit ⊢
  cases hf : literalArithmeticFold (constantFold left) op (constantFold right) with
  | none =>
    rw [hf] at lit
    cases lit
  | some result => rfl

theorem constantFold_of_some
    (folded : literalArithmeticFold (constantFold left) op (constantFold right) = some expr) :
    constantFold (.arithmetic left op right) = expr := by
  rw [constantFold, folded]
  rfl

theorem isLiteral_of_some
    (folded : literalArithmeticFold (constantFold left) op (constantFold right) = some expr) :
    isLiteral (constantFold (.arithmetic left op right)) = true := by
  rw [constantFold_of_some folded]
  exact (literalArithmeticFold_literals folded).2.2

theorem folded_integer (folded : constantFold (.arithmetic left op right) = .integer n) :
    ∃ a b, constantFold left = .integer a ∧ constantFold right = .integer b ∧
      integerOp a op b = some n := by
  have hf := literalArithmeticFold_of_literal (by rw [folded]; rfl)
  rw [folded] at hf
  unfold literalArithmeticFold floatOp at hf
  split at hf
  · next leftIs rightIs =>
    obtain ⟨_, computed, same⟩ := map_eq_some_iff.mp hf
    cases same
    exact ⟨_, _, leftIs, rightIs, computed⟩
  all_goals simp at hf

section Trees

variable {quotient : ℚ → ℚ → ℚ} {e l r : Expr}

theorem width_cases (e : Expr) : width e = 32 ∨ width e = 64 := by
  induction e with
  | token | parameter =>
    unfold width
    split
    · exact .inl rfl
    · exact .inr rfl
  | decimal | other => exact .inr rfl
  | arithmetic l op r ihl ihr =>
    unfold width
    omega

theorem fits_mono {v : Int} (hf : fits 32 v = true) (e : Expr) : fits (width e) v = true := by
  rcases width_cases e with narrow | wide
  · rw [narrow, hf]
  · rw [wide]
    simp only [fits, decide_eq_true_eq] at hf ⊢
    omega

theorem fits_int8 {v : Int} (hf : fits (width e) v = true) : fits 64 v = true := by
  rcases width_cases e with narrow | wide
  · rw [narrow] at hf
    simp only [fits, decide_eq_true_eq] at hf ⊢
    omega
  · rwa [wide] at hf

theorem fits_toInt (n : Int64) : fits 64 n.toInt = true :=
  decide_eq_true ⟨n.le_toInt, n.toInt_lt⟩

theorem integral_of_machine (hm : machine e = true) : integral e = true := by
  induction e with
  | token v =>
    have small := of_decide_eq_true hm
    simp only [integral, fits, decide_eq_true_eq]
    omega
  | parameter => rfl
  | decimal | other => cases hm
  | arithmetic l op r ihl ihr =>
    obtain ⟨left, right⟩ := Bool.and_eq_true_iff.mp hm
    simp [integral, ihl left, ihr right]

theorem machine_of_integer (folded : constantFold (convert e) = .integer n) :
    machine e = true := by
  induction e generalizing n with
  | token v =>
    unfold convert at folded
    split at folded
    · rename_i small
      exact decide_eq_true small
    · cases folded
  | parameter => rfl
  | decimal | other => cases folded
  | arithmetic l op r ihl ihr =>
    obtain ⟨a, b, leftIs, rightIs, -⟩ := folded_integer folded
    simp [machine, ihl leftIs, ihr rightIs]

theorem literalArithmeticFold_mixed {x y : Double} (hm : (machine l && machine r) = false)
    (left : asDouble (constantFold (convert l)) = some x)
    (right : asDouble (constantFold (convert r)) = some y) :
    literalArithmeticFold (constantFold (convert l)) op (constantFold (convert r)) =
      floatOp x op y := by
  have mixed : ¬∃ a b, constantFold (convert l) = .integer a ∧
      constantFold (convert r) = .integer b := by
    rintro ⟨i, j, foldl, foldr⟩
    simp [machine_of_integer foldl, machine_of_integer foldr] at hm
  simp [literalArithmeticFold_doubles mixed, left, right]

theorem machine_fold (hm : machine e = true)
    (lit : isLiteral (constantFold (convert e)) = true) :
    ∃ i : Int64, constantFold (convert e) = .integer i ∧ exactValue e = some (i.toInt : ℚ) := by
  induction e with
  | token v =>
    have small := of_decide_eq_true hm
    refine ⟨.ofInt v, by rw [convert, if_pos small]; rfl, ?_⟩
    rw [Int64.toInt_ofInt_of_le (by omega) (by omega)]
    rfl
  | parameter i => exact ⟨i, rfl, rfl⟩
  | decimal | other => cases hm
  | arithmetic l op r ihl ihr =>
    obtain ⟨left, right⟩ := Bool.and_eq_true_iff.mp hm
    have hf := literalArithmeticFold_of_literal lit
    obtain ⟨litl, litr, -⟩ := literalArithmeticFold_literals hf
    obtain ⟨i, foldl, exactl⟩ := ihl left litl
    obtain ⟨j, foldr, exactr⟩ := ihr right litr
    rw [foldl, foldr] at hf
    obtain ⟨n, computed, same⟩ := map_eq_some_iff.mp hf
    refine ⟨n, same.symm, ?_⟩
    simp [exactValue, exactl, exactr, integral_of_machine left, integral_of_machine right,
      integerOp_exact computed]

theorem kept_arithmetic (hk : kept quotient (.arithmetic l op r) = true) :
    kept quotient l = true ∧ kept quotient r = true := by
  simp only [kept, Bool.and_eq_true] at hk
  exact hk.1

theorem kept_machine (left : machine l = true) (right : machine r = true) :
    kept quotient (.arithmetic l op r) = true ↔
      (kept quotient l = true ∧ kept quotient r = true) ∧ (max (width l) (width r) = 64 ∨
        ∀ q, exactValue (.arithmetic l op r) = some q → fits 32 q.num = true) := by
  simp only [kept, left, right, Bool.and_self, ↓reduceIte, Bool.and_eq_true, Bool.or_eq_true,
    decide_eq_true_eq, Option.all_eq_true]

theorem kept_doubles {a b : ℚ} (hk : kept quotient (.arithmetic l op r) = true)
    (mixed : (machine l && machine r) = false) (left : exactValue l = some a)
    (right : exactValue r = some b) :
    isDouble a = true ∧ isDouble b = true ∧ ∃ q, exactOp op a b = some q ∧ isDouble q = true ∧
      exactValue (.arithmetic l op r) = some q ∧
      (serverValue quotient l = some a → serverValue quotient r = some b →
        serverValue quotient (.arithmetic l op r) = some q) := by
  simp only [kept, mixed, left, right, Bool.and_eq_true, Bool.false_eq_true, ↓reduceIte] at hk
  obtain ⟨-, ⟨doublea, doubleb⟩, hq⟩ := hk
  obtain ⟨q, computed, holds⟩ := (Option.any_eq_true _ _).mp hq
  simp only [Bool.and_eq_true, decide_eq_true_eq] at holds
  obtain ⟨⟨doubleq, exact_⟩, bounded⟩ := holds
  refine ⟨doublea, doubleb, q, computed, doubleq, exact_, fun serverl serverr => ?_⟩
  simp only [exactValue, left, right, Option.bind_eq_bind, Option.bind_some] at exact_
  simp only [serverValue, serverl, serverr, Option.bind_eq_bind, Option.bind_some]
  cases integers : integral l && integral r with
  | true =>
    rw [if_pos (Bool.and_eq_true_iff.mp integers)] at bounded
    rw [if_pos integers] at exact_
    obtain ⟨v, whole, rfl⟩ := map_eq_some_iff.mp exact_
    rw [Rat.num_intCast] at bounded
    simp [whole, bounded]
  | false =>
    have numeric : ¬(integral l = true ∧ integral r = true) := by
      simp [← Bool.and_eq_true, integers]
    simp only [numeric, ↓reduceIte, Bool.or_eq_true, decide_eq_true_eq] at bounded
    simp only [Bool.false_eq_true, ↓reduceIte]
    split
    · rename_i divides
      rw [bounded.resolve_left (by simp [divides.1])]
    · exact computed

theorem kept_value (hk : kept quotient e = true)
    (lit : isLiteral (constantFold (convert e)) = true) :
    ∃ q, exactValue e = some q ∧ serverValue quotient e = some q ∧
      (machine e = true ∨ isDouble q = true → number (constantFold (convert e)) = some q) := by
  induction e with
  | token v =>
    refine ⟨v, rfl, rfl, fun known => ?_⟩
    unfold convert
    split
    · rename_i small
      simp only [constantFold, number]
      rw [Int64.toInt_ofInt_of_le (by omega) (by omega)]
    · rename_i large
      exact value_ofRat false (known.resolve_left (by simpa [machine] using large))
  | parameter i => exact ⟨i.toInt, rfl, rfl, fun _ => rfl⟩
  | decimal v =>
    exact ⟨v, rfl, rfl, fun known => value_ofRat false (known.resolve_left (by simp [machine]))⟩
  | other => cases lit
  | arithmetic l op r ihl ihr =>
    have hf := literalArithmeticFold_of_literal lit
    obtain ⟨litl, litr, -⟩ := literalArithmeticFold_literals hf
    obtain ⟨keptl, keptr⟩ := kept_arithmetic hk
    obtain ⟨a, exactl, serverl, numberl⟩ := ihl keptl litl
    obtain ⟨b, exactr, serverr, numberr⟩ := ihr keptr litr
    cases hm : machine l && machine r with
    | true =>
      obtain ⟨left, right⟩ := Bool.and_eq_true_iff.mp hm
      obtain ⟨n, fold, exact_⟩ := machine_fold (e := .arithmetic l op r) hm lit
      refine ⟨n.toInt, exact_, ?_, fun _ => by rw [fold]; rfl⟩
      have bounded : fits (max (width l) (width r)) n.toInt = true := by
        rcases ((kept_machine left right).mp hk).2 with wide | small
        · rw [wide]
          exact fits_toInt n
        · exact fits_mono (small _ exact_) (.arithmetic l op r)
      simp only [exactValue, exactl, exactr, integral_of_machine left, integral_of_machine right,
        Option.bind_eq_bind, Option.bind_some, Bool.and_self, ↓reduceIte] at exact_
      obtain ⟨v, whole, same⟩ := map_eq_some_iff.mp exact_
      obtain rfl : v = n.toInt := by exact_mod_cast same
      simp [serverValue, serverl, serverr, integral_of_machine left, integral_of_machine right,
        whole, bounded]
    | false =>
      obtain ⟨doublea, doubleb, q, computed, doubleq, exact_, server⟩ :=
        kept_doubles hk hm exactl exactr
      refine ⟨q, exact_, server serverl serverr, fun _ => ?_⟩
      obtain ⟨x, asx, valuex⟩ := asDouble_number (numberl (.inr doublea)) doublea
      obtain ⟨y, asy, valuey⟩ := asDouble_number (numberr (.inr doubleb)) doubleb
      obtain ⟨z, result, valuez⟩ := op_exact valuex valuey computed doubleq
      have folded : literalArithmeticFold _ op _ = _ := literalArithmeticFold_mixed hm asx asy
      rw [floatOp, result] at folded
      rw [convert, constantFold_of_some folded]
      exact valuez

theorem sound_of_kept (hk : kept quotient e = true) : Sound quotient e := by
  induction e with
  | token | parameter | decimal | other => trivial
  | arithmetic l op r ihl ihr =>
    obtain ⟨keptl, keptr⟩ := kept_arithmetic hk
    refine ⟨ihl keptl, ihr keptr, fun lit => ?_⟩
    obtain ⟨q, exact_, server, literal⟩ := kept_value hk lit
    refine ⟨q, literal ?_, server⟩
    cases hm : machine l && machine r with
    | true => exact .inl hm
    | false =>
      obtain ⟨litl, litr, -⟩ :=
        literalArithmeticFold_literals (literalArithmeticFold_of_literal lit)
      obtain ⟨a, exactl, -⟩ := kept_value keptl litl
      obtain ⟨b, exactr, -⟩ := kept_value keptr litr
      obtain ⟨-, -, q', -, doubleq, exact', -⟩ := kept_doubles hk hm exactl exactr
      rw [exact_] at exact'
      cases exact'
      exact .inr doubleq

theorem fits_arithmeticIntegers {a b v : Int} (lefts : fits 32 a = true) (rights : fits 32 b = true)
    (computed : arithmeticIntegers op a b = some v) : fits 64 v = true := by
  simp only [fits, decide_eq_true_eq] at lefts rights ⊢
  cases op with
  | add | subtract =>
    obtain rfl := Option.some_inj.mp computed
    omega
  | multiply =>
    obtain rfl := Option.some_inj.mp computed
    have bound : (a * b).natAbs ≤ 2 ^ 31 * 2 ^ 31 := by
      rw [Int.natAbs_mul]
      exact Nat.mul_le_mul (by omega) (by omega)
    omega
  | divide =>
    obtain ⟨-, ⟨⟩⟩ := ite_none_left_eq_some.mp computed
    have bound := Int.natAbs_tdiv_le_natAbs a b
    omega
  | modulo =>
    obtain ⟨-, ⟨⟩⟩ := ite_none_left_eq_some.mp computed
    have bound : (a.tmod b).natAbs ≤ a.natAbs := by
      rw [Int.natAbs_tmod]
      exact Nat.mod_le ..
    omega

theorem exactValue_machine {a b : Int} (left : machine l = true) (right : machine r = true)
    (exactl : exactValue l = some (a : ℚ)) (exactr : exactValue r = some (b : ℚ)) :
    exactValue (.arithmetic l op r) =
      (arithmeticIntegers op a b).map fun n : Int => (n : ℚ) := by
  simp [exactValue, exactl, exactr, integral_of_machine left, integral_of_machine right]

theorem int4_operation (left : machine l = true) (right : machine r = true)
    (foldl : constantFold (convert l) = .integer a) (foldr : constantFold (convert r) = .integer b)
    (smalll : fits 32 a.toInt = true) (smallr : fits 32 b.toInt = true)
    (exactl : exactValue l = some (a.toInt : ℚ)) (exactr : exactValue r = some (b.toInt : ℚ))
    (known : exactValue (.arithmetic l op r) = some q) :
    ∃ n : Int64, constantFold (convert (.arithmetic l op r)) = .integer n ∧ q = (n.toInt : ℚ) := by
  rw [exactValue_machine left right exactl exactr] at known
  obtain ⟨v, whole, rfl⟩ := map_eq_some_iff.mp known
  have regular : ¬(op = .modulo ∧ a = Int64.minValue ∧ b = -1) := by
    rintro ⟨-, rfl, -⟩
    revert smalll
    decide
  obtain ⟨n, computed, rfl⟩ :=
    integerOp_of_fits whole (fits_arithmeticIntegers smalll smallr whole) regular
  refine ⟨n, constantFold_of_some ?_, rfl⟩
  rw [foldl, foldr]
  exact congrArg (Option.map ScalarExpr.integer) computed

theorem int4_folds (hm : machine e = true) (hk : kept quotient e = true) (narrow : width e = 32)
    (known : exactValue e = some q) :
    ∃ i : Int64, constantFold (convert e) = .integer i ∧ q = (i.toInt : ℚ) ∧
      fits 32 i.toInt = true := by
  induction e generalizing q with
  | token v =>
    have small := of_decide_eq_true hm
    have same : (Int64.ofInt v).toInt = v := Int64.toInt_ofInt_of_le (by omega) (by omega)
    refine ⟨.ofInt v, by rw [convert, if_pos small]; rfl, ?_, ?_⟩
    · rw [same]
      exact (Option.some_inj.mp known).symm
    · rw [same]
      simp only [width] at narrow
      split at narrow
      · assumption
      · cases narrow
  | parameter i =>
    refine ⟨i, rfl, (Option.some_inj.mp known).symm, ?_⟩
    simp only [width] at narrow
    split at narrow
    · assumption
    · cases narrow
  | decimal | other => cases hm
  | arithmetic l op r ihl ihr =>
    obtain ⟨left, right⟩ := Bool.and_eq_true_iff.mp hm
    obtain ⟨keptl, keptr⟩ := kept_arithmetic hk
    obtain ⟨a, exactl, rest⟩ := bind_eq_some_iff.mp known
    obtain ⟨b, exactr, -⟩ := bind_eq_some_iff.mp rest
    have widths := width_cases l
    have widths' := width_cases r
    simp only [width] at narrow
    obtain ⟨i, foldl, rfl, smalll⟩ := ihl left keptl (by omega) exactl
    obtain ⟨j, foldr, rfl, smallr⟩ := ihr right keptr (by omega) exactr
    have bounded := ((kept_machine left right).mp hk).2.resolve_left (by omega) q known
    obtain ⟨n, fold, rfl⟩ := int4_operation left right foldl foldr smalll smallr exactl exactr known
    exact ⟨n, fold, rfl, bounded⟩

theorem kept_of_sound (hm : machine e = true) (sound : Sound quotient e) :
    kept quotient e = true := by
  induction e with
  | token | parameter | decimal | other => rfl
  | arithmetic l op r ihl ihr =>
    obtain ⟨left, right⟩ := Bool.and_eq_true_iff.mp hm
    obtain ⟨soundl, soundr, here⟩ := sound
    have keptl := ihl left soundl
    have keptr := ihr right soundr
    refine (kept_machine left right).mpr
      ⟨⟨keptl, keptr⟩, or_iff_not_imp_left.mpr fun narrow q known => ?_⟩
    have widths := width_cases l
    have widths' := width_cases r
    obtain ⟨a, exactl, rest⟩ := bind_eq_some_iff.mp known
    obtain ⟨b, exactr, -⟩ := bind_eq_some_iff.mp rest
    obtain ⟨i, foldl, rfl, smalll⟩ := int4_folds left keptl (by omega) exactl
    obtain ⟨j, foldr, rfl, smallr⟩ := int4_folds right keptr (by omega) exactr
    obtain ⟨n, folded, rfl⟩ :=
      int4_operation left right foldl foldr smalll smallr exactl exactr known
    rw [folded] at here
    obtain ⟨q, same, server⟩ := here rfl
    obtain rfl := Option.some_inj.mp same
    obtain ⟨_, _, rights⟩ := bind_eq_some_iff.mp server
    obtain ⟨_, _, result⟩ := bind_eq_some_iff.mp rights
    rw [if_pos (by simp [integral_of_machine left, integral_of_machine right])] at result
    obtain ⟨v, bounded, equal⟩ := map_eq_some_iff.mp result
    obtain ⟨-, small⟩ := filter_eq_some_iff.mp bounded
    rw [show max (width l) (width r) = 32 by omega] at small
    obtain rfl : v = n.toInt := by exact_mod_cast equal
    exact small

theorem kept_folds (hk : kept quotient e = true) (hr : regular e = true)
    (known : serverValue quotient e = some q) :
    isLiteral (constantFold (convert e)) = true := by
  induction e generalizing q with
  | token v =>
    unfold convert
    split <;> rfl
  | parameter | decimal => rfl
  | other => cases known
  | arithmetic l op r ihl ihr =>
    obtain ⟨keptl, keptr⟩ := kept_arithmetic hk
    simp only [regular, Bool.and_eq_true] at hr
    obtain ⟨⟨regularl, regularr⟩, here⟩ := hr
    obtain ⟨a, serverl, rest⟩ := bind_eq_some_iff.mp known
    obtain ⟨b, serverr, rest⟩ := bind_eq_some_iff.mp rest
    have litl := ihl keptl regularl serverl
    have litr := ihr keptr regularr serverr
    obtain ⟨a', exactl, server', numberl⟩ := kept_value keptl litl
    cases serverl.symm.trans server'
    obtain ⟨b', exactr, server', numberr⟩ := kept_value keptr litr
    cases serverr.symm.trans server'
    cases hm : machine l && machine r with
    | true =>
      obtain ⟨left, right⟩ := Bool.and_eq_true_iff.mp hm
      obtain ⟨i, foldl, exacti⟩ := machine_fold left litl
      obtain ⟨j, foldr, exactj⟩ := machine_fold right litr
      cases exactl.symm.trans exacti
      cases exactr.symm.trans exactj
      rw [if_pos (by simp [integral_of_machine left, integral_of_machine right])] at rest
      obtain ⟨v, bounded, -⟩ := map_eq_some_iff.mp rest
      obtain ⟨whole, small⟩ := filter_eq_some_iff.mp bounded
      have computable : ¬(op = .modulo ∧ i = Int64.minValue ∧ j = -1) := by
        rintro ⟨rfl, rfl, rfl⟩
        simp [exactl, exactr] at here
      simp only [Rat.num_intCast] at whole
      obtain ⟨n, computed, -⟩ :=
        integerOp_of_fits whole (fits_int8 (e := .arithmetic l op r) small) computable
      have folded : literalArithmeticFold (constantFold (convert l)) op
          (constantFold (convert r)) = some (.integer n) := by
        rw [foldl, foldr]
        exact congrArg (Option.map ScalarExpr.integer) computed
      exact isLiteral_of_some folded
    | false =>
      obtain ⟨doublea, doubleb, q', computed, doubleq, -, -⟩ := kept_doubles hk hm exactl exactr
      obtain ⟨x, asx, valuex⟩ := asDouble_number (numberl (.inr doublea)) doublea
      obtain ⟨y, asy, valuey⟩ := asDouble_number (numberr (.inr doubleb)) doubleb
      obtain ⟨z, result, -⟩ := op_exact valuex valuey computed doubleq
      have folded : literalArithmeticFold (constantFold (convert l)) op
          (constantFold (convert r)) = some (.float z) := by
        rw [literalArithmeticFold_mixed hm asx asy, floatOp, result]
        rfl
      exact isLiteral_of_some folded

theorem folded_zero_iff {a : ℚ} (keptl : kept quotient l = true) (keptr : kept quotient r = true)
    (regularl : regular l = true) (regularr : regular r = true)
    (serverl : serverValue quotient l = some a) (hd : isDouble a = true)
    (serverr : serverValue quotient r = some 0) (divides : op = .divide ∨ op = .modulo) :
    isLiteral (constantFold (convert (.arithmetic l op r))) = true ↔
      op = .divide ∧ a ≠ 0 ∧ (machine l && machine r) = false := by
  have litl := kept_folds keptl regularl serverl
  have litr := kept_folds keptr regularr serverr
  obtain ⟨a', exactl, server', numberl⟩ := kept_value keptl litl
  cases serverl.symm.trans server'
  obtain ⟨b', exactr, server', numberr⟩ := kept_value keptr litr
  cases serverr.symm.trans server'
  have folds : isLiteral (constantFold (convert (.arithmetic l op r))) = true ↔
      (literalArithmeticFold (constantFold (convert l)) op (constantFold (convert r))).isSome =
        true := by
    refine ⟨fun lit => ?_, fun some => ?_⟩
    · rw [literalArithmeticFold_of_literal lit]
      rfl
    · obtain ⟨_, folded⟩ := Option.isSome_iff_exists.mp some
      exact isLiteral_of_some folded
  rw [folds]
  cases hm : machine l && machine r with
  | true =>
    obtain ⟨left, right⟩ := Bool.and_eq_true_iff.mp hm
    obtain ⟨i, foldl, -⟩ := machine_fold left litl
    obtain ⟨j, foldr, exactj⟩ := machine_fold right litr
    have zero : j.toInt = 0 := by
      exact_mod_cast (Option.some_inj.mp (exactr.symm.trans exactj)).symm
    rw [foldl, foldr]
    rcases divides with rfl | rfl <;>
      simp [literalArithmeticFold, integerOp, arithmeticIntegers, zero]
  | false =>
    obtain ⟨x, asx, valuex⟩ := asDouble_number (numberl (.inr hd)) hd
    obtain ⟨y, asy, valuey⟩ := asDouble_number (numberr (.inr isDouble_zero)) isDouble_zero
    rw [literalArithmeticFold_mixed hm asx asy, floatOp, Option.isSome_map,
      isSome_op_zero divides valuex valuey]
    simp

end Trees

end PgCache.Query.ConstantFold
