/- source: cache/writer/registration/resolve.rs, cache/writer/table.rs, query/resolve/table.rs
   digest: The relations a registration finds for the table names of a query, and when they are
     those the session means. -/
import PgCache.Catalog
import PgCache.Data.Keyed
import PgCache.Data.Loop

set_option autoImplicit false

namespace PgCache.Cache.TableResolve

open Catalog Data.Keyed Data.Loop Option List AList

structure TableNode where
  schema : Option String
  name : String
  deriving DecidableEq

/-- A relation of the origin. `isTable` is `relkind IN ('r', 'p')`. -/
structure OriginRelation where
  oid : Oid
  isTable : Bool
  hasPrimaryKey : Bool
  deriving DecidableEq

abbrev Origin := String → String → Option OriginRelation

abbrev CacheTables := KeyedMap (String × String) Oid

abbrev SearchPath := List String

/-- `schema_for_table_find`: the cached tables are searched before the origin is. -/
def schemaForTableFind (origin : Origin) (tables : CacheTables) (path : SearchPath)
    (name : String) : Option String :=
  (path.find? fun schema => (tables.lookup (schema, name)).isSome).or
    (path.find? fun schema => (origin schema name).any (·.isTable))

def tableSchemaResolve (origin : Origin) (tables : CacheTables) (path : SearchPath)
    (node : TableNode) : Option String :=
  match node.schema with
  | some schema => some schema
  | none => schemaForTableFind origin tables path node.name

def cacheTableCreate (origin : Origin) (schema name : String) : Option Oid :=
  ((origin schema name).filter (·.hasPrimaryKey)).map (·.oid)

/-- `cache_tables_ensure`, and whether it came to its end. What was created before stays. -/
def cacheTablesEnsure (origin : Origin) (path : SearchPath) :
    CacheTables → List TableNode → CacheTables × Bool
  | tables, [] => (tables, true)
  | tables, node :: nodes =>
    match tableSchemaResolve origin tables path node with
    | none => (tables, false)
    | some schema =>
      if (tables.lookup (schema, node.name)).isSome then
        cacheTablesEnsure origin path tables nodes
      else
        match cacheTableCreate origin schema node.name with
        | none => (tables, false)
        | some oid =>
          cacheTablesEnsure origin path (tables.insert (schema, node.name) oid) nodes

def tableMetadataFind (tables : CacheTables) (path : SearchPath) (node : TableNode) : Option Oid :=
  match node.schema with
  | some schema => tables.lookup (schema, node.name)
  | none => path.findSome? fun schema => tables.lookup (schema, node.name)

variable (origin : Origin)

def queryResolve (tables : CacheTables) (path : SearchPath)
    (nodes : List TableNode) : CacheTables × Option (List Oid) :=
  let ensured := cacheTablesEnsure origin path tables nodes
  (ensured.1, if ensured.2 then nodes.mapM (tableMetadataFind ensured.1 path) else none)

def sessionMeaning (path : SearchPath) (node : TableNode) : Option Oid :=
  match node.schema with
  | some schema => (origin schema node.name).map (·.oid)
  | none => (path.findSome? fun schema => origin schema node.name).map (·.oid)

def firstSchema (path : SearchPath) (name : String) : Option String :=
  path.find? fun schema => (origin schema name).isSome

def visiblePath (nodes : List TableNode) (path : SearchPath) : SearchPath :=
  path.filter fun schema =>
    nodes.any fun node => node.schema.isNone && (origin schema node.name).isSome

def Within (tables : CacheTables) : Prop :=
  ∀ schema name oid, tables.lookup (schema, name) = some oid →
    ∃ relation, origin schema name = some relation ∧ relation.oid = oid

/-- What a session finds first for an unqualified name is a table, and it is cached if a namesake on
the path is cached or is named with its schema in the same query. -/
def Unshadowed (tables : CacheTables) (path : SearchPath)
    (nodes : List TableNode) : Prop :=
  ∀ node ∈ nodes, node.schema = none → ∀ schema, firstSchema origin path node.name = some schema →
    (origin schema node.name).any (·.isTable) = true ∧
      ∀ other ∈ path, (tables.lookup (other, node.name)).isSome = true ∨
          (⟨some other, node.name⟩ : TableNode) ∈ nodes →
        (tables.lookup (schema, node.name)).isSome = true

section First

variable {α β : Type}

private theorem find_eq_of_first {weak strong : α → Bool} {list : List α} {first : α}
    (weaker : ∀ element, strong element = true → weak element = true)
    (hf : list.find? weak = some first) (passes : strong first = true) :
    list.find? strong = some first := by
  induction list with
  | nil => cases hf
  | cons head rest ih =>
    by_cases here : weak head = true
    · rw [find?_cons_of_pos here, some_inj] at hf
      subst hf
      exact find?_cons_of_pos passes
    · rw [find?_cons_of_neg here] at hf
      rw [find?_cons_of_neg fun stronger => here (weaker head stronger)]
      exact ih hf

private theorem findSome_of_find {f : α → Option β} {list : List α} {first : α} {value : β}
    (found : list.find? (fun element => (f element).isSome) = some first)
    (gives : f first = some value) : list.findSome? f = some value := by
  induction list with
  | nil => cases found
  | cons head rest ih =>
    cases here : f head with
    | some image =>
      rw [find?_cons_of_pos (by rw [here]; rfl), some_inj] at found
      subst found
      rw [findSome?_cons, gives]
    | none =>
      rw [find?_cons_of_neg (by rw [here]; simp)] at found
      rw [findSome?_cons, here]
      exact ih found

private theorem findSome_filter {f : α → Option β} {keep : α → Bool} (list : List α)
    (kept : ∀ element, (f element).isSome = true → keep element = true) :
    (list.filter keep).findSome? f = list.findSome? f := by
  induction list with
  | nil => rfl
  | cons head rest ih =>
    by_cases here : keep head = true
    · rw [filter_cons_of_pos here, findSome?_cons, findSome?_cons, ih]
    · have missing : f head = none :=
        not_isSome_iff_eq_none.mp fun image => here (kept head image)
      rw [filter_cons_of_neg here, findSome?_cons, missing]
      exact ih

end First

variable {origin : Origin} {tables : CacheTables} {path : SearchPath} {nodes : List TableNode}

variable {node : TableNode} {schema : String} {more : CacheTables}

theorem sessionMeaning_congr {o : SearchPath} (hm : node ∈ nodes)
    (same : visiblePath origin nodes path = visiblePath origin nodes o) :
    sessionMeaning origin path node = sessionMeaning origin o node := by
  unfold sessionMeaning
  cases qualified : node.schema with
  | some schema => rfl
  | none =>
    have kept : ∀ schema, (origin schema node.name).isSome = true →
        (nodes.any fun node => node.schema.isNone && (origin schema node.name).isSome) = true :=
      fun schema image => any_eq_true.mpr ⟨node, hm, by simp [qualified, image]⟩
    have narrowed := findSome_filter path kept
    have narrowed' := findSome_filter o kept
    show Option.map _ (path.findSome? _) = Option.map _ (o.findSome? _)
    rw [← narrowed, ← narrowed']
    exact congrArg (fun visible : SearchPath =>
      (visible.findSome? fun schema => origin schema node.name).map (·.oid)) same

variable (within : Within origin tables)
include within

theorem Within.isSome {name : String} (hc : (tables.lookup (schema, name)).isSome = true) :
    (origin schema name).isSome = true := by
  obtain ⟨oid, hf⟩ := isSome_iff_exists.mp hc
  obtain ⟨rel, there, -⟩ := within schema name oid hf
  rw [there]
  rfl

theorem Within.insert {name : String} {oid : Oid}
    (created : cacheTableCreate origin schema name = some oid) :
    Within origin (tables.insert (schema, name) oid) := by
  intro o name' oid' hf
  by_cases same : (o, name') = (schema, name)
  · obtain ⟨rfl, rfl⟩ := Prod.mk.inj same
    rw [lookup_insert, some_inj] at hf
    obtain ⟨rel, kept, he⟩ := map_eq_some_iff.mp created
    exact ⟨rel, (filter_eq_some_iff.mp kept).1, he.trans hf⟩
  · rw [lookup_insert_ne same] at hf
    exact within o name' oid' hf

theorem within_cacheTablesEnsure :
    Within origin (cacheTablesEnsure origin path tables nodes).1 := by
  induction nodes generalizing tables with
  | nil => exact within
  | cons node nodes ih =>
    unfold cacheTablesEnsure
    split
    · exact within
    · split
      · exact ih within
      · split
        · exact within
        · rename_i oid created
          exact ih (within.insert created)

omit within in
theorem Unshadowed.insert (clear : Unshadowed origin tables path nodes) {name : String} {oid : Oid}
    (hk : (⟨some schema, name⟩ : TableNode) ∈ nodes ∨ firstSchema origin path name = some schema) :
    Unshadowed origin (tables.insert (schema, name) oid) path nodes := by
  have grows : ∀ key, (tables.lookup key).isSome = true →
      ((tables.insert (schema, name) oid).lookup key).isSome = true := by
    intro key hc
    by_cases same : key = (schema, name)
    · rw [same, lookup_insert]
      rfl
    · rwa [lookup_insert_ne same]
  intro node hm unqualified first hf
  obtain ⟨isTable, hc⟩ := clear node hm unqualified first hf
  refine ⟨isTable, fun o onPath hp => ?_⟩
  rcases hp with there | named
  · by_cases same : (o, node.name) = (schema, name)
    · obtain ⟨rfl, rfl⟩ := Prod.mk.inj same
      rcases hk with named | isFirst
      · exact grows _ (hc o onPath (.inr named))
      · rw [hf, some_inj] at isFirst
        rw [isFirst, lookup_insert]
        rfl
    · rw [lookup_insert_ne same] at there
      exact grows _ (hc o onPath (.inl there))
  · exact grows _ (hc o onPath (.inr named))

variable (clear : Unshadowed origin tables path nodes)
include clear

private theorem find_cached (hm : node ∈ nodes) (unqualified : node.schema = none)
    (hf : (path.find? fun schema => (tables.lookup (schema, node.name)).isSome) = some schema) :
    firstSchema origin path node.name = some schema := by
  have onPath := mem_of_find?_eq_some hf
  have hc := find?_some hf
  have seen : (firstSchema origin path node.name).isSome = true :=
    find?_isSome.mpr ⟨schema, onPath, within.isSome hc⟩
  obtain ⟨first, isFirst⟩ := isSome_iff_exists.mp seen
  have firstCached := (clear node hm unqualified first isFirst).2 schema onPath (.inl hc)
  have same := find_eq_of_first (fun _ => within.isSome) isFirst firstCached
  rw [hf] at same
  rw [isFirst, same]

theorem schemaForTableFind_first (hm : node ∈ nodes) (unqualified : node.schema = none)
    (hf : schemaForTableFind origin tables path node.name = some schema) :
    firstSchema origin path node.name = some schema := by
  unfold schemaForTableFind at hf
  cases hc : path.find? fun schema => (tables.lookup (schema, node.name)).isSome with
  | some first =>
    rw [hc, some_or, some_inj] at hf
    exact find_cached within clear hm unqualified (hf ▸ hc)
  | none =>
    rw [hc, none_or] at hf
    have passes := find?_some hf
    have seen : (firstSchema origin path node.name).isSome = true :=
      find?_isSome.mpr ⟨schema, mem_of_find?_eq_some hf, isSome_of_any passes⟩
    obtain ⟨first, isFirst⟩ := isSome_iff_exists.mp seen
    have same := find_eq_of_first (fun _ => isSome_of_any) isFirst
      (clear node hm unqualified first isFirst).1
    rw [hf] at same
    rw [isFirst, same]

private def Cached (origin : Origin) (tables : CacheTables) (path : SearchPath) (node : TableNode) :
    Prop :=
  match node.schema with
  | some schema => (tables.lookup (schema, node.name)).isSome = true
  | none => ∃ schema, firstSchema origin path node.name = some schema ∧
      (tables.lookup (schema, node.name)).isSome = true

omit within clear in
private theorem Cached.mono (hc : Cached origin tables path node)
    (grows : ∀ key, (tables.lookup key).isSome = true → (more.lookup key).isSome = true) :
    Cached origin more path node := by
  unfold Cached at hc ⊢
  split at hc
  · exact grows _ hc
  · obtain ⟨schema, first, there⟩ := hc
    exact ⟨schema, first, grows _ there⟩

private theorem ensured {todo : List TableNode} (part : ∀ node ∈ todo, node ∈ nodes)
    (done : cacheTablesEnsure origin path tables todo = (more, true)) :
    (∀ node ∈ todo, Cached origin more path node) ∧
      ∀ key, (tables.lookup key).isSome = true → (more.lookup key).isSome = true := by
  induction todo generalizing tables with
  | nil =>
    obtain ⟨rfl, -⟩ := Prod.mk.inj done
    exact ⟨fun _ hm => (not_mem_nil hm).elim, fun _ => id⟩
  | cons node rest ih =>
    have hm := part node mem_cons_self
    have partRest : ∀ node ∈ rest, node ∈ nodes := fun node there =>
      part node (mem_cons_of_mem _ there)
    unfold cacheTablesEnsure at done
    cases rs : tableSchemaResolve origin tables path node with
    | none => simp [rs] at done
    | some schema =>
      simp only [rs] at done
      -- the schema is the node's own or the session's
      have hk : (⟨some schema, node.name⟩ : TableNode) ∈ nodes ∨
          firstSchema origin path node.name = some schema := by
        unfold tableSchemaResolve at rs
        split at rs
        · rename_i own qualified
          rw [some_inj] at rs
          subst rs
          exact .inl (by rw [← qualified]; exact hm)
        · rename_i unqualified
          exact .inr (schemaForTableFind_first within clear hm unqualified rs)
      have isCached : ∀ tables : CacheTables, (tables.lookup (schema, node.name)).isSome = true →
          Cached origin tables path node := by
        intro tables there
        unfold Cached
        cases qualified : node.schema with
        | some own =>
          rw [tableSchemaResolve, qualified, some_inj] at rs
          exact rs ▸ there
        | none =>
          rw [tableSchemaResolve, qualified] at rs
          exact ⟨schema, schemaForTableFind_first within clear hm qualified rs, there⟩
      split at done
      · rename_i hc
        obtain ⟨all, grows⟩ := ih within clear partRest done
        refine ⟨fun o there => ?_, grows⟩
        rcases mem_cons.mp there with rfl | later
        · exact (isCached tables hc).mono grows
        · exact all o later
      · split at done
        · simp at done
        · rename_i oid created
          obtain ⟨all, grows⟩ := ih (within.insert created) (clear.insert hk) partRest done
          refine ⟨fun o there => ?_, fun key hc => grows key ?_⟩
          · rcases mem_cons.mp there with rfl | later
            · exact (isCached _ (by rw [lookup_insert]; rfl)).mono grows
            · exact all o later
          · by_cases same : key = (schema, node.name)
            · rw [same, lookup_insert]
              rfl
            · rwa [lookup_insert_ne same]

omit clear in
private theorem tableMetadataFind_meaning (hc : Cached origin tables path node) :
    tableMetadataFind tables path node = sessionMeaning origin path node := by
  unfold tableMetadataFind sessionMeaning Cached at *
  cases qualified : node.schema with
  | some schema =>
    simp only [qualified] at hc ⊢
    obtain ⟨oid, hf⟩ := isSome_iff_exists.mp hc
    obtain ⟨rel, there, same⟩ := within schema node.name oid hf
    rw [hf, there, map_some, same]
  | none =>
    simp only [qualified] at hc ⊢
    obtain ⟨schema, first, there⟩ := hc
    obtain ⟨oid, hf⟩ := isSome_iff_exists.mp there
    obtain ⟨rel, exists', same⟩ := within schema node.name oid hf
    have meets := find_eq_of_first (fun _ => within.isSome) first there
    rw [findSome_of_find meets hf, findSome_of_find first exists', map_some, same]

theorem queryResolve_meaning {relations : List Oid}
    (rs : queryResolve origin tables path nodes = (more, some relations)) :
    nodes.map (sessionMeaning origin path) = relations.map some := by
  unfold queryResolve at rs
  obtain ⟨rfl, hf⟩ := Prod.mk.inj rs
  obtain ⟨complete, mapped⟩ := ite_none_right_eq_some.mp hf
  obtain ⟨all, -⟩ := ensured within clear (fun _ => id) (Prod.ext rfl complete)
  rw [← mapM_eq_some_iff.mp mapped]
  refine map_congr_left fun node hm => ?_
  exact (tableMetadataFind_meaning (within_cacheTablesEnsure within) (all node hm)).symm

omit clear

omit within

theorem within_queryResolve (within : Within origin tables) :
    Within origin (queryResolve origin tables path nodes).1 :=
  within_cacheTablesEnsure within

end PgCache.Cache.TableResolve
