/- source: catalog.rs, oid.rs
   digest: Table and column metadata as the analyser and the replay path read them. -/
import Mathlib.Data.List.Nodup

set_option autoImplicit false

namespace PgCache.Catalog

abbrev Oid := Nat

inductive DataType where
  | bool
  | int2
  | int4
  | int8
  | float4
  | float8
  | numeric
  | text
  | varchar
  | date
  | timestamp
  | other (name : String)
  deriving DecidableEq

structure ColumnMetadata where
  name : String
  position : Nat
  dataType : DataType
  isPrimaryKey : Bool
  deriving DecidableEq

def ColumnMetadata.index (column : ColumnMetadata) : Nat :=
  column.position - 1

/-- `ColumnStore`: the columns of a table by position, no name twice. -/
structure ColumnStore where
  sorted : List ColumnMetadata
  nodup : (sorted.map ColumnMetadata.name).Nodup

namespace ColumnStore

def get (store : ColumnStore) (name : String) : Option ColumnMetadata :=
  store.sorted.find? fun column => column.name = name

end ColumnStore

structure TableMetadata where
  relationOid : Oid
  name : String
  schema : String
  primaryKeyColumns : List String
  columns : ColumnStore
  replicaIdentityFull : Bool

/-- One row image of the replication stream: a text per column slot, `none` for NULL. -/
abbrev RowData := List (Option String)

end PgCache.Catalog
