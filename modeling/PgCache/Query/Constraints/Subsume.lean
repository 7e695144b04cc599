/- source: query/constraints/subsume.rs
   digest: The subsumption test between the constraints of two queries on one table. -/
import PgCache.Query.Constraints.Extract

set_option autoImplicit false

namespace PgCache.Query.Constraints.Subsume

open Data.Keyed Literal Range Extract

abbrev ConstraintBucketKey := String × Option CastTarget

def constraintBucketKey : TableConstraint → ConstraintBucketKey
  | .comparison column _ _ | .anyOf column _ => (column, none)
  | .castComparison column cast _ _ => (column, some cast)

def constraintsGroupByColumn (constraints : List TableConstraint) :
    KeyedMap ConstraintBucketKey (List TableConstraint) :=
  groupBy constraintBucketKey constraints

def tableConstraintsSubsumed (new cached : QueryConstraints) (table : String) : Bool :=
  if !cached.whereAnalysisComplete then false
  else
    match cached.tableConstraints.lookup table, new.tableConstraints.lookup table with
    | none, _ => true
    | some _, none => false
    | some cachedConstraints, some newConstraints =>
      let newByColumn := constraintsGroupByColumn newConstraints
      Data.Keyed.all (fun key cachedOnColumn =>
        columnRangeSubsumes (columnRangeBuild cachedOnColumn)
          (((newByColumn.lookup key).map columnRangeBuild).getD .unconstrained))
        (constraintsGroupByColumn cachedConstraints)

def constraintsOn (constraints : QueryConstraints) (table : String) : List TableConstraint :=
  (constraints.tableConstraints.lookup table).getD []

def bucket (key : ConstraintBucketKey) (constraints : List TableConstraint) :
    List TableConstraint :=
  constraints.filter (constraintBucketKey · = key)

theorem bucket_subsumes {new cached : QueryConstraints} {table : String}
    (subsumed : tableConstraintsSubsumed new cached table = true) {key : ConstraintBucketKey}
    (constrained : bucket key (constraintsOn cached table) ≠ []) :
    columnRangeSubsumes (columnRangeBuild (bucket key (constraintsOn cached table)))
      (columnRangeBuild (bucket key (constraintsOn new table))) = true := by
  unfold tableConstraintsSubsumed at subsumed
  split at subsumed
  · cases subsumed
  unfold constraintsOn at constrained ⊢
  split at subsumed
  · rename_i none
    rw [none] at constrained
    exact absurd rfl constrained
  · cases subsumed
  · rename_i cachedConstraints newConstraints foundCached foundNew
    rw [foundCached, Option.getD_some] at constrained
    rw [foundCached, foundNew, Option.getD_some, Option.getD_some]
    have group : (constraintsGroupByColumn cachedConstraints).lookup key =
        some (bucket key cachedConstraints) := (lookup_groupBy _ _ _ _).mpr ⟨constrained, rfl⟩
    have covers := (all_iff _ _).mp subsumed key _ group
    by_cases free : bucket key newConstraints = []
    · have ha : (constraintsGroupByColumn newConstraints).lookup key = none := by
        cases hf : (constraintsGroupByColumn newConstraints).lookup key with
        | none => rfl
        | some grouped =>
          obtain ⟨hne, same⟩ := (lookup_groupBy _ _ _ _).mp hf
          exact absurd (same.symm.trans free) hne
      rw [ha] at covers
      rw [free]
      exact covers
    · have hp : (constraintsGroupByColumn newConstraints).lookup key =
          some (bucket key newConstraints) := (lookup_groupBy _ _ _ _).mpr ⟨free, rfl⟩
      rw [hp] at covers
      exact covers

end PgCache.Query.Constraints.Subsume
