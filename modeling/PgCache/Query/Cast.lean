/- source: query/cast.rs
   digest: Identity casts, text coercions and the column-first form of a comparison. -/
import PgCache.Query.Resolved.Ast

set_option autoImplicit false

namespace PgCache.Query.Cast

open Catalog Literal Resolved.Ast

def digitsParse : List Char → Option Nat
  | [] => none
  | cs => cs.foldl (fun acc c => acc.bind fun n =>
    if c.isDigit then some (10 * n + (c.toNat - '0'.toNat)) else none) (some 0)

def signedParse : List Char → Option Int
  | '-' :: cs => (digitsParse cs).map fun n : Nat => -(n : Int)
  | '+' :: cs => (digitsParse cs).map Int.ofNat
  | cs => (digitsParse cs).map Int.ofNat

/-- `str::parse::<i64>`: an optional sign, digits only, no overflow. -/
def parseI64 (s : String) : Option Int64 :=
  (signedParse s.toList).bind fun i =>
    if -2 ^ 63 ≤ i ∧ i < 2 ^ 63 then some (Int64.ofInt i) else none

def castTargetIsIdentityOn (target : CastTarget) (base : DataType) : Bool :=
  match target with
  | .text => base ∈ [.text, .varchar, .int2, .int4, .int8]
  | .int4 => base = .int4
  | .int8 => base = .int8
  | .bool => base = .bool
  | .date => base = .date
  | .other _ => false

def castTargetIsCoercionSupported (target : CastTarget) (base : DataType) : Bool :=
  match target with
  | .int4 | .int8 | .bool => base ∈ [.text, .varchar]
  | .date => base = .timestamp
  | .text | .other _ => false

/-- `char::is_whitespace`: the Unicode property White_Space. -/
def isWhiteSpace (c : Char) : Bool :=
  let n := c.toNat
  (9 ≤ n && n ≤ 13) || (0x2000 ≤ n && n ≤ 0x200a) ||
    n ∈ [0x20, 0x85, 0xa0, 0x1680, 0x2028, 0x2029, 0x202f, 0x205f, 0x3000]

def trim (cs : List Char) : List Char :=
  ((cs.dropWhile isWhiteSpace).reverse.dropWhile isWhiteSpace).reverse

def boolLiteralParse (s : String) : Option Bool :=
  let trimmed := String.ofList ((trim s.toList).map Char.toLower)
  if trimmed ∈ ["t", "true", "y", "yes", "on", "1"] then some true
  else if trimmed ∈ ["f", "false", "n", "no", "off", "0"] then some false
  else none

def isCanonicalDatePrefix : List Char → Bool
  | [y0, y1, y2, y3, dash1, m0, m1, dash2, d0, d1] =>
    [y0, y1, y2, y3, m0, m1, d0, d1].all Char.isDigit && dash1 = '-' && dash2 = '-'
  | _ => false

def timestampTextToDate (s : String) : Option String :=
  let cs := s.toList
  if isCanonicalDatePrefix (cs.take 10) then
    match cs.drop 10 with
    | [] | ' ' :: _ | 'T' :: _ => some (String.ofList (cs.take 10))
    | _ => none
  else none

def isCanonicalDateLiteral (s : String) : Bool :=
  isCanonicalDatePrefix s.toList

def castTargetCoerceText (target : CastTarget) (rowText : String) : Option LiteralValue :=
  match target with
  | .int4 | .int8 => (parseI64 rowText).map .integer
  | .bool => (boolLiteralParse rowText).map .boolean
  | .date => (timestampTextToDate rowText).map .string
  | .text | .other _ => none

def resolvedStripIdentityCast (expr : ResolvedScalarExpr) : ResolvedScalarExpr :=
  match expr with
  | .typeCast (.column column) target =>
    if castTargetIsIdentityOn target column.columnMetadata.dataType then .column column
    else expr
  | _ => expr

def resolvedWhereScalarLeaf : ResolvedWhereExpr → Option ResolvedScalarExpr
  | .scalar scalar => some (resolvedStripIdentityCast scalar)
  | _ => none

def columnTarget : ResolvedScalarExpr → Option (ResolvedColumnNode × Option CastTarget)
  | .column column => some (column, none)
  | .typeCast (.column column) target => some (column, some target)
  | _ => none

structure ColumnComparison where
  column : ResolvedColumnNode
  target : Option CastTarget
  op : BinaryOp
  value : LiteralValue
  deriving DecidableEq

/-- `canonicalize_comparison`. When both operands are literals or neither is a column, there is
no canonical form. -/
def canonicalizeComparison (op : BinaryOp) (lexpr rexpr : ResolvedWhereExpr) :
    Option ColumnComparison :=
  let lleaf := resolvedWhereScalarLeaf lexpr
  let rleaf := resolvedWhereScalarLeaf rexpr
  match lleaf.bind columnTarget, rleaf with
  | some (column, target), some (.literal value) => some ⟨column, target, op, value⟩
  | _, _ =>
    match lleaf, rleaf.bind columnTarget with
    | some (.literal value), some (column, target) =>
      op.opFlip.map fun flipped => ⟨column, target, flipped, value⟩
    | _, _ => none

end PgCache.Query.Cast
