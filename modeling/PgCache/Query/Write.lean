/- source: query/write.rs
   digest: Classified write statements, as the write log receives them. -/
import PgCache.Query.Literal

set_option autoImplicit false

namespace PgCache.Query.Write

open Literal

structure RelationRef where
  schema : Option String
  name : String
  deriving DecidableEq

abbrev InsertRow := List (Option LiteralValue)

abbrev WriteComparison := String × BinaryOp × LiteralValue

abbrev SetAssignment := String × Option LiteralValue

structure InsertStatement where
  relation : RelationRef
  columns : List String
  rows : List InsertRow

structure DeleteStatement where
  relation : RelationRef
  comparisons : List WriteComparison

structure UpdateStatement where
  relation : RelationRef
  whereComparisons : List WriteComparison
  set : List SetAssignment

inductive WriteClass where
  | insertRows (insert : InsertStatement)
  | deleteRows (delete : DeleteStatement)
  | updateRows (update : UpdateStatement)
  | table (relation : RelationRef)
  | connection
  | connectionUnstampable

/-- The relation a table-scoped write targets. -/
def WriteClass.relation? : WriteClass → Option RelationRef
  | .insertRows insert => some insert.relation
  | .deleteRows delete => some delete.relation
  | .updateRows update => some update.relation
  | .table relation => some relation
  | .connection | .connectionUnstampable => none

end PgCache.Query.Write
