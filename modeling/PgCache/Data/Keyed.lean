/- digest: Finite maps as duplicate-free association lists, characterised by their lookups. -/
import Mathlib.Algebra.Ring.Nat
import Mathlib.Data.List.AList

set_option autoImplicit false

namespace PgCache.Data.Keyed

open List

abbrev KeyedMap (κ α : Type) := AList (fun _ : κ => α)

variable {κ α β : Type} [DecidableEq κ]

def modify (key : κ) (fallback : α) (change : α → α) (map : KeyedMap κ α) : KeyedMap κ α :=
  map.insert key (change ((map.lookup key).getD fallback))

theorem lookup_modify (key key' : κ) (fallback : α) (change : α → α) (map : KeyedMap κ α) :
    (modify key fallback change map).lookup key' =
      if key' = key then some (change ((map.lookup key).getD fallback))
      else map.lookup key' := by
  unfold modify
  split
  · rename_i he
    rw [he, AList.lookup_insert]
  · rename_i hne
    rw [AList.lookup_insert_ne hne]

def adjust (key : κ) (change : α → α) (map : KeyedMap κ α) : KeyedMap κ α :=
  match map.lookup key with
  | some value => map.insert key (change value)
  | none => map

theorem lookup_adjust (key key' : κ) (change : α → α) (map : KeyedMap κ α) :
    (adjust key change map).lookup key' =
      if key' = key then (map.lookup key').map change else map.lookup key' := by
  unfold adjust
  split
  · rename_i v hf
    split
    · rename_i he
      rw [he, AList.lookup_insert, hf, Option.map_some]
    · rename_i hne
      rw [AList.lookup_insert_ne hne]
  · rename_i ha
    split
    · rename_i he
      rw [he, ha, Option.map_none]
    · rfl

variable (test : κ → α → Bool) (map : KeyedMap κ α)

def all : Bool :=
  map.entries.all fun entry => test entry.1 entry.2

def any : Bool :=
  map.entries.any fun entry => test entry.1 entry.2

theorem mem_entries_iff (key : κ) (value : α) :
    (⟨key, value⟩ : Sigma fun _ : κ => α) ∈ map.entries ↔ map.lookup key = some value :=
  AList.mem_lookup_iff.symm

theorem all_iff : all test map = true ↔
      ∀ key value, map.lookup key = some value → test key value = true := by
  simp only [all, all_eq_true, ← mem_entries_iff]
  exact ⟨fun h key value inside => h _ inside, fun h entry inside => h _ _ inside⟩

theorem any_iff :
    any test map = true ↔ ∃ key value, map.lookup key = some value ∧ test key value = true := by
  simp only [any, any_eq_true, ← mem_entries_iff]
  exact ⟨fun ⟨entry, inside, passes⟩ => ⟨entry.1, entry.2, inside, passes⟩,
    fun ⟨key, value, inside, passes⟩ => ⟨⟨key, value⟩, inside, passes⟩⟩

def count (test : α → Bool) (map : KeyedMap κ α) : Nat :=
  map.entries.countP fun entry => test entry.2

theorem count_pos_iff (test : α → Bool) (map : KeyedMap κ α) :
    0 < count test map ↔ ∃ key value, map.lookup key = some value ∧ test value = true := by
  simp only [count, countP_pos_iff, ← mem_entries_iff]
  exact ⟨fun ⟨entry, inside, passes⟩ => ⟨entry.1, entry.2, inside, passes⟩,
    fun ⟨key, value, inside, passes⟩ => ⟨⟨key, value⟩, inside, passes⟩⟩

theorem entries_perm_erase (key : κ) (value : α) (found : map.lookup key = some value) :
    map.entries.Perm (⟨key, value⟩ :: (map.erase key).entries) := by
  have inside : (⟨key, value⟩ : Sigma fun _ : κ => α) ∈ map.entries :=
    (mem_entries_iff map key value).mpr found
  obtain ⟨entry, hb, after, -, same, split, rest⟩ :=
    exists_of_eraseP (p := fun entry : Sigma fun _ : κ => α => key = entry.1) inside (by simp)
  have whole : entry = ⟨key, value⟩ := by
    obtain ⟨key', value'⟩ := entry
    have equal : key = key' := by simpa using same
    subst equal
    have other : map.lookup key = some value' := by
      rw [← mem_entries_iff, split]
      simp
    rw [found, Option.some.injEq] at other
    rw [other]
  have erased : (map.erase key).entries = hb ++ after := rest
  rw [erased, split, whole]
  exact perm_middle

theorem count_erase (test : α → Bool) (map : KeyedMap κ α) (key : κ) (v : α)
    (hf : map.lookup key = some v) :
    count test map = count test (map.erase key) + if test v then 1 else 0 := by
  rw [count, (entries_perm_erase map key v hf).countP_eq, countP_cons, count]

theorem count_insert (test : α → Bool) (map : KeyedMap κ α) (key : κ) (v : α) :
    count test (map.insert key v) = count test (map.erase key) + if test v then 1 else 0 := by
  have es : (map.insert key v).entries = ⟨key, v⟩ :: (map.erase key).entries := rfl
  simp only [count, es, countP_cons]

/-- The weights of the values of a map, added up. -/
def total (weight : α → Nat) (map : KeyedMap κ α) : Nat :=
  (map.entries.map fun entry => weight entry.2).sum

theorem total_erase (weight : α → Nat) (map : KeyedMap κ α) (key : κ) (value : α)
    (found : map.lookup key = some value) :
    total weight map = total weight (map.erase key) + weight value := by
  rw [total, ((entries_perm_erase map key value found).map _).sum_nat, map_cons, sum_cons,
    Nat.add_comm, total]

theorem total_insert (weight : α → Nat) (map : KeyedMap κ α) (key : κ) (value : α) :
    total weight (map.insert key value) = total weight (map.erase key) + weight value := by
  rw [Nat.add_comm]
  rfl

theorem total_congr {weight weight' : α → Nat} {map : KeyedMap κ α}
    (same : ∀ key v, map.lookup key = some v → weight v = weight' v) :
    total weight map = total weight' map :=
  congrArg sum (map_congr_left fun e hm =>
    same e.1 e.2 ((mem_entries_iff _ _ _).mp hm))

omit [DecidableEq κ] in
theorem count_eq_total (test : α → Bool) (map : KeyedMap κ α) :
    count test map = total (fun v => if test v then 1 else 0) map := by
  unfold count total
  induction map.entries with
  | nil => rfl
  | cons e es ih => rw [countP_cons, ih, map_cons, sum_cons, Nat.add_comm]

theorem erase_of_absent (map : KeyedMap κ α) (key : κ) (ha : map.lookup key = none) :
    map.erase key = map := by
  apply AList.ext
  exact kerase_of_notMem_keys (AList.lookup_eq_none.mp ha)

def keptEntries (keep : κ → α → Option β) (entries : List (Sigma fun _ : κ => α)) :
    List (Sigma fun _ : κ => β) :=
  entries.filterMap fun entry => (keep entry.1 entry.2).map (Sigma.mk entry.1)

variable (keep : κ → α → Option β)
include keep

omit [DecidableEq κ] in
private theorem keptEntries_keys (entries : List (Sigma fun _ : κ => α)) :
    (keptEntries keep entries).keys.Sublist entries.keys := by
  induction entries with
  | nil => exact List.Sublist.slnil
  | cons entry entries ih =>
    cases kept : keep entry.1 entry.2 with
    | none =>
      have rest : keptEntries keep (entry :: entries) = keptEntries keep entries := by
        simp [keptEntries, kept]
      rw [rest]
      exact ih.cons entry.1
    | some value =>
      have rest : keptEntries keep (entry :: entries) =
          ⟨entry.1, value⟩ :: keptEntries keep entries := by
        simp [keptEntries, kept]
      rw [rest]
      exact ih.cons_cons entry.1

def retain (keep : κ → α → Option β) (map : KeyedMap κ α) : KeyedMap κ β where
  entries := keptEntries keep map.entries
  nodupKeys := map.keys_nodup.sublist (keptEntries_keys keep map.entries)

theorem lookup_retain (map : KeyedMap κ α) (key : κ) (value : β) :
    (retain keep map).lookup key = some value ↔
      ∃ old, map.lookup key = some old ∧ keep key old = some value := by
  rw [← mem_entries_iff]
  simp only [← mem_entries_iff, retain, keptEntries, mem_filterMap, Option.map_eq_some_iff]
  constructor
  · rintro ⟨⟨k, old⟩, inside, new, kept, equal⟩
    cases equal
    exact ⟨old, inside, kept⟩
  · rintro ⟨old, inside, kept⟩
    exact ⟨⟨key, old⟩, inside, value, kept, rfl⟩

theorem lookup_retain_bind (map : KeyedMap κ α) (key : κ) :
    (retain keep map).lookup key = (map.lookup key).bind (keep key) :=
  Option.ext fun v => (lookup_retain keep map key v).trans Option.bind_eq_some_iff.symm

omit keep

def groupBy (keyOf : α → κ) (xs : List α) : KeyedMap κ (List α) :=
  xs.foldl (fun groups x => modify (keyOf x) [] (· ++ [x]) groups) ∅

private theorem lookup_groupBy_fold (keyOf : α → κ) (xs : List α)
    (groups : KeyedMap κ (List α)) (key : κ) (seen : List α)
    (group : (groups.lookup key).getD [] = seen)
    (hp : groups.lookup key = none ↔ seen = []) :
    (xs.foldl (fun groups x => modify (keyOf x) [] (· ++ [x]) groups) groups).lookup key =
      if seen ++ xs.filter (keyOf · = key) = [] then none
      else some (seen ++ xs.filter (keyOf · = key)) := by
  induction xs generalizing groups seen with
  | nil =>
    cases hf : groups.lookup key with
    | none => simp [hf, hp.mp hf]
    | some old =>
      have hne : seen ≠ [] := fun empty => by simp [hf] at hp; exact hp empty
      simp_all
  | cons x xs ih =>
    rw [foldl_cons]
    by_cases same : keyOf x = key
    · rw [ih _ (seen ++ [x])]
      · simp [same]
      · simp [lookup_modify, same, group]
      · simp [lookup_modify, same]
    · rw [ih _ seen]
      · simp [same]
      · rw [lookup_modify, if_neg (Ne.symm same), group]
      · rw [lookup_modify, if_neg (Ne.symm same), hp]

theorem lookup_groupBy (keyOf : α → κ) (xs : List α) (key : κ) (group : List α) :
    (groupBy keyOf xs).lookup key = some group ↔
      group ≠ [] ∧ xs.filter (keyOf · = key) = group := by
  rw [groupBy, lookup_groupBy_fold keyOf xs ∅ key [] rfl (by simp), nil_append]
  split
  · rename_i empty
    simp only [empty, reduceCtorEq, false_iff, not_and]
    exact fun hne he => hne he.symm
  · rename_i hne
    simp only [Option.some.injEq]
    exact ⟨fun he => ⟨he ▸ hne, he⟩, And.right⟩

def Includes (small large : KeyedMap κ (List α)) : Prop :=
  ∀ key xs, small.lookup key = some xs → ∃ ys, large.lookup key = some ys ∧ xs ⊆ ys

variable (groups : KeyedMap κ (List α))

theorem Includes.refl : Includes groups groups :=
  fun _ xs hf => ⟨xs, hf, fun _ hm => hm⟩

theorem Includes.trans {a b c : KeyedMap κ (List α)} (ab : Includes a b) (bc : Includes b c) :
    Includes a c := by
  intro key xs hf
  obtain ⟨ys, foundY, subset⟩ := ab key xs hf
  obtain ⟨zs, foundZ, subset'⟩ := bc key ys foundY
  exact ⟨zs, foundZ, fun x hm => subset' (subset hm)⟩

theorem includes_modify_append (key : κ) (more : List α) :
    Includes groups (modify key [] (· ++ more) groups) := by
  intro key' xs hf
  rw [lookup_modify]
  split
  · rename_i same
    subst same
    exact ⟨xs ++ more, by rw [hf, Option.getD_some], fun x hm => mem_append_left _ hm⟩
  · exact ⟨xs, hf, fun _ hm => hm⟩

theorem subset_modify_append (key : κ) (more : List α) :
    ∃ ys, (modify key [] (· ++ more) groups).lookup key = some ys ∧ more ⊆ ys := by
  rw [lookup_modify, if_pos rfl]
  exact ⟨_, rfl, fun x hm => mem_append_right _ hm⟩

def extend (groups other : KeyedMap κ (List α)) : KeyedMap κ (List α) :=
  other.entries.foldl (fun groups group => modify group.1 [] (· ++ group.2) groups) groups

private theorem includes_extend_fold (es : List (Sigma fun _ : κ => List α))
    (groups : KeyedMap κ (List α)) :
    Includes groups
      (es.foldl (fun groups group => modify group.1 [] (· ++ group.2) groups) groups) := by
  induction es generalizing groups with
  | nil => exact Includes.refl groups
  | cons group es ih =>
    exact (includes_modify_append groups group.1 group.2).trans (ih _)

theorem includes_extend_left (o : KeyedMap κ (List α)) : Includes groups (extend groups o) :=
  includes_extend_fold o.entries groups

theorem includes_extend_right (o : KeyedMap κ (List α)) : Includes o (extend groups o) := by
  intro key xs hf
  rw [← mem_entries_iff] at hf
  obtain ⟨hb, after, split⟩ := append_of_mem hf
  unfold extend
  rw [split, foldl_append, foldl_cons]
  obtain ⟨ys, foundY, subset⟩ := subset_modify_append
    (hb.foldl (fun groups group => modify group.1 [] (· ++ group.2) groups) groups) key xs
  obtain ⟨zs, foundZ, subset'⟩ := includes_extend_fold after _ key ys foundY
  exact ⟨zs, foundZ, fun x hm => subset' (subset hm)⟩

end PgCache.Data.Keyed
