/- source: cache/writer/staging.rs
   digest: The keys removed by CDC while populations are in flight, and what keeps a key marked for
     a population. -/
import PgCache.Cache.Maintenance

set_option autoImplicit false

namespace PgCache.Cache.Staging

open Catalog Data.Keyed Maintenance Option AList

def populationDeletedKeyCap : Nat := 100000

abbrev PopulationKey := Fingerprint × Nat

/-- `DeletedKeyEntry`, without the versions its merges key their cached filters on. -/
structure DeletedKeyEntry (κ : Type) where
  floors : KeyedMap PopulationKey Nat
  keys : KeyedMap κ Nat
  staleKeys : KeyedMap κ Nat
  overflowed : Bool
  abortedBelow : Nat

structure PopulationDeletedKeys (κ : Type) where
  relations : KeyedMap Oid (DeletedKeyEntry κ)
  inflight : KeyedMap PopulationKey (List Oid)

variable {κ : Type}

def keysAbove (lsn : Nat) (keys : KeyedMap κ Nat) : KeyedMap κ Nat :=
  retain (fun _ stamp => if lsn < stamp then some stamp else none) keys

theorem lookup_keysAbove [DecidableEq κ] (lsn : Nat) (keys : KeyedMap κ Nat) (key : κ)
    (stamp : Nat) :
    (keysAbove lsn keys).lookup key = some stamp ↔ keys.lookup key = some stamp ∧ lsn < stamp := by
  rw [keysAbove, lookup_retain]
  constructor
  · rintro ⟨old, hf, kept⟩
    obtain ⟨above, ⟨⟩⟩ := ite_none_right_eq_some.mp kept
    exact ⟨hf, above⟩
  · rintro ⟨hf, above⟩
    exact ⟨stamp, hf, if_pos above⟩

namespace DeletedKeyEntry

def new : DeletedKeyEntry κ := ⟨∅, ∅, ∅, false, 0⟩

variable (entry : DeletedKeyEntry κ)

def prune : DeletedKeyEntry κ :=
  match (entry.floors.entries.map Sigma.snd).min? with
  | none => entry
  | some minFloor => { entry with
      keys := keysAbove minFloor entry.keys
      staleKeys := keysAbove minFloor entry.staleKeys }

def disable : DeletedKeyEntry κ :=
  { entry with keys := ∅, staleKeys := ∅, overflowed := true }

def abortBelow (lsn : Nat) (entry : DeletedKeyEntry κ) : DeletedKeyEntry κ :=
  { entry with
    abortedBelow := max entry.abortedBelow lsn
    keys := keysAbove lsn entry.keys
    staleKeys := keysAbove lsn entry.staleKeys }

def shouldAbort (snapshotLsn : Nat) : Bool :=
  entry.overflowed || decide (snapshotLsn < entry.abortedBelow)

variable [DecidableEq κ]

def record (key : κ) (lsn : Nat) (entry : DeletedKeyEntry κ) : DeletedKeyEntry κ :=
  if entry.overflowed then entry
  else
    let recorded := { entry with
      staleKeys := entry.staleKeys.erase key
      keys := entry.keys.insert key lsn }
    if populationDeletedKeyCap < recorded.keys.entries.length then recorded.disable else recorded

def recordToastStale (key : κ) (lsn : Nat) (entry : DeletedKeyEntry κ) : DeletedKeyEntry κ :=
  if entry.overflowed then entry
  else
    let recorded := { entry with
      keys := entry.keys.erase key
      staleKeys := modify key lsn (max · lsn) entry.staleKeys }
    if populationDeletedKeyCap < recorded.staleKeys.entries.length then recorded.disable
    else recorded

def cancel (key : κ) (entry : DeletedKeyEntry κ) : DeletedKeyEntry κ :=
  { entry with keys := entry.keys.erase key }

def cancelToastStale (key : κ) (entry : DeletedKeyEntry κ) : DeletedKeyEntry κ :=
  { entry with staleKeys := entry.staleKeys.erase key }

end DeletedKeyEntry

namespace PopulationDeletedKeys

def new : PopulationDeletedKeys κ := ⟨∅, ∅⟩

variable (d : PopulationDeletedKeys κ) (oid : Oid)

/-- The stamp of a key in the filter. -/
def keyAt [DecidableEq κ] (key : κ) : Option Nat :=
  (d.relations.lookup oid).bind (·.keys.lookup key)

def staleAt [DecidableEq κ] (key : κ) : Option Nat :=
  (d.relations.lookup oid).bind (·.staleKeys.lookup key)

def overflowed : Bool :=
  (d.relations.lookup oid).any (·.overflowed)

def floor (pop : PopulationKey) : Option Nat :=
  (d.relations.lookup oid).bind (·.floors.lookup pop)

def isRecording : Bool :=
  (d.relations.lookup oid).isSome

def shouldAbort (snapshotLsn : Nat) : Bool :=
  (d.relations.lookup oid).any (·.shouldAbort snapshotLsn)

/-- `stale_predicate` on one key. -/
def staleAbove [DecidableEq κ] (floor : Nat) (key : κ) : Bool :=
  (d.staleAt oid key).any fun lsn => decide (floor < lsn)

def filtered [DecidableEq κ] (key : κ) : Bool :=
  (d.relations.lookup oid).any fun entry =>
    !entry.overflowed && (entry.keys.lookup key).isSome

variable (pop : PopulationKey)

/-- One relation's share of `activate`. -/
def anchor (anchorFloor : Nat) (relations : KeyedMap Oid (DeletedKeyEntry κ)) (oid : Oid) :
    KeyedMap Oid (DeletedKeyEntry κ) :=
  modify oid DeletedKeyEntry.new
    (fun entry => { entry with floors := entry.floors.insert pop anchorFloor }) relations

def activate (relationOids : List Oid) (anchorFloor : Nat)
    (d : PopulationDeletedKeys κ) : PopulationDeletedKeys κ :=
  if (d.inflight.lookup pop).isSome then d
  else
    { relations := relationOids.foldl (anchor pop anchorFloor) d.relations
      inflight := d.inflight.insert pop relationOids }

/-- One relation's share of `deactivate`. -/
def release (relations : KeyedMap Oid (DeletedKeyEntry κ))
    (oid : Oid) : KeyedMap Oid (DeletedKeyEntry κ) :=
  match relations.lookup oid with
  | none => relations
  | some entry =>
    let left := { entry with floors := entry.floors.erase pop }
    if left.floors.entries.isEmpty then relations.erase oid
    else relations.insert oid left.prune

def deactivate (d : PopulationDeletedKeys κ) : PopulationDeletedKeys κ :=
  match d.inflight.lookup pop with
  | none => d
  | some oids =>
    { relations := oids.foldl (release pop) d.relations
      inflight := d.inflight.erase pop }

def onEntry (change : DeletedKeyEntry κ → DeletedKeyEntry κ) (oid : Oid)
    (d : PopulationDeletedKeys κ) : PopulationDeletedKeys κ :=
  { d with relations := adjust oid change d.relations }

def abortBelow (oid : Oid) (lsn : Nat) : PopulationDeletedKeys κ → PopulationDeletedKeys κ :=
  onEntry (DeletedKeyEntry.abortBelow lsn) oid

variable [DecidableEq κ]

def record (oid : Oid) (key : κ) (lsn : Nat) : PopulationDeletedKeys κ → PopulationDeletedKeys κ :=
  onEntry (DeletedKeyEntry.record key lsn) oid

def recordToastStale (oid : Oid) (key : κ) (lsn : Nat) :
    PopulationDeletedKeys κ → PopulationDeletedKeys κ :=
  onEntry (DeletedKeyEntry.recordToastStale key lsn) oid

def cancel (oid : Oid) (key : κ) : PopulationDeletedKeys κ → PopulationDeletedKeys κ :=
  onEntry (DeletedKeyEntry.cancel key) oid

def cancelToastStale (oid : Oid) (key : κ) : PopulationDeletedKeys κ → PopulationDeletedKeys κ :=
  onEntry (DeletedKeyEntry.cancelToastStale key) oid

end PopulationDeletedKeys

variable [DecidableEq κ]

/-- What stops a merge from writing a key it staged at or after `floor` and CDC changed since:
the keys are lost, or the key is recorded after the floor. -/
def DeletedKeyEntry.Marked (entry : DeletedKeyEntry κ) (key : κ) (floor : Nat) : Prop :=
  entry.overflowed = true ∨ ∃ lsn, floor < lsn ∧
      (entry.keys.lookup key = some lsn ∨ entry.staleKeys.lookup key = some lsn)

def DeletedKeyEntry.Filters (entry : DeletedKeyEntry κ) (key : κ) (stamp : Nat) : Prop :=
  entry.overflowed = false ∧ entry.keys.lookup key = some stamp

namespace DeletedKeyEntry

variable {entry : DeletedKeyEntry κ} {key key' : κ} {floor lsn stamp : Nat}

private theorem disable_marked (entry : DeletedKeyEntry κ) (key : κ) (floor : Nat) :
    entry.disable.Marked key floor :=
  .inl rfl

private theorem not_disable_filters (entry : DeletedKeyEntry κ) (key : κ) (stamp : Nat) :
    ¬ entry.disable.Filters key stamp :=
  fun filters => Bool.noConfusion filters.1

theorem marked_record (above : floor < lsn) : (entry.record key lsn).Marked key floor := by
  unfold record
  split
  · exact .inl ‹_›
  · dsimp only
    split
    · exact disable_marked _ key floor
    · exact .inr ⟨lsn, above, .inl (lookup_insert _)⟩

theorem marked_recordToastStale (above : floor < lsn) :
    (entry.recordToastStale key lsn).Marked key floor := by
  unfold recordToastStale
  split
  · exact .inl ‹_›
  · dsimp only
    split
    · exact disable_marked _ key floor
    · refine .inr ⟨_, ?_, .inr (by rw [lookup_modify, if_pos rfl])⟩
      exact lt_max_of_lt_right above

variable (marked : entry.Marked key floor)
include marked

theorem Marked.record (hab : floor < lsn) : (entry.record key' lsn).Marked key floor := by
  by_cases same : key = key'
  · exact same ▸ marked_record hab
  unfold DeletedKeyEntry.record
  split
  · exact marked
  · dsimp only
    split
    · exact disable_marked _ key floor
    · refine marked.imp id fun ⟨stamp, hla, hf⟩ => ⟨stamp, hla, ?_⟩
      rwa [lookup_insert_ne same, lookup_erase_ne same]

theorem Marked.recordToastStale (hab : floor < lsn) :
    (entry.recordToastStale key' lsn).Marked key floor := by
  by_cases same : key = key'
  · exact same ▸ marked_recordToastStale hab
  unfold DeletedKeyEntry.recordToastStale
  split
  · exact marked
  · dsimp only
    split
    · exact disable_marked _ key floor
    · refine marked.imp id fun ⟨stamp, hla, hf⟩ => ⟨stamp, hla, ?_⟩
      rwa [lookup_erase_ne same, lookup_modify, if_neg same]

theorem Marked.cancel (other : key ≠ key') : (entry.cancel key').Marked key floor := by
  refine marked.imp id fun ⟨stamp, hla, hf⟩ => ⟨stamp, hla, hf.imp_left fun kept => ?_⟩
  rwa [DeletedKeyEntry.cancel, lookup_erase_ne other]

theorem Marked.cancelToastStale (other : key ≠ key') :
    (entry.cancelToastStale key').Marked key floor := by
  refine marked.imp id fun ⟨stamp, hla, hf⟩ => ⟨stamp, hla, hf.imp_right fun kept => ?_⟩
  rwa [DeletedKeyEntry.cancelToastStale, lookup_erase_ne other]

omit marked

omit [DecidableEq κ] in
private theorem minFloor_le {pop : PopulationKey} {anchorFloor minFloor : Nat}
    (registered : entry.floors.lookup pop = some anchorFloor)
    (least : (entry.floors.entries.map Sigma.snd).min? = some minFloor) : minFloor ≤ anchorFloor :=
  (List.min?_eq_some_iff.mp least).2 anchorFloor
    (List.mem_map.mpr ⟨_, (mem_entries_iff _ _ _).mpr registered, rfl⟩)

theorem Marked.prune {pop : PopulationKey} {anchorFloor : Nat} (marked : entry.Marked key floor)
    (registered : entry.floors.lookup pop = some anchorFloor)
    (below : anchorFloor ≤ floor) : entry.prune.Marked key floor := by
  unfold DeletedKeyEntry.prune
  split
  · exact marked
  · rename_i minFloor least
    have lowest := minFloor_le registered least
    refine marked.imp id fun ⟨stamp, later, hf⟩ => ⟨stamp, later, ?_⟩
    simp only [lookup_keysAbove]
    exact hf.imp (⟨·, by omega⟩) (⟨·, by omega⟩)

theorem Filters.of_record (hfl : (entry.record key' lsn).Filters key stamp) :
    key = key' ∧ stamp = lsn ∨ entry.Filters key stamp := by
  unfold DeletedKeyEntry.record at hfl
  split at hfl
  · exact .inr hfl
  · dsimp only at hfl
    split at hfl
    · exact absurd hfl (not_disable_filters _ key stamp)
    · obtain ⟨kept, hf⟩ := hfl
      by_cases same : key = key'
      · subst same
        rw [lookup_insert] at hf
        exact .inl ⟨rfl, (some_inj.mp hf).symm⟩
      · rw [lookup_insert_ne same] at hf
        exact .inr ⟨kept, hf⟩

private theorem lookup_of_erase {keys : KeyedMap κ Nat}
    (hf : (keys.erase key').lookup key = some stamp) :
    key ≠ key' ∧ keys.lookup key = some stamp := by
  by_cases same : key = key'
  · subst same
    rw [AList.lookup_erase] at hf
    cases hf
  · rw [lookup_erase_ne same] at hf
    exact ⟨same, hf⟩

theorem Filters.of_recordToastStale (hfl : (entry.recordToastStale key' lsn).Filters key stamp) :
    key ≠ key' ∧ entry.Filters key stamp := by
  unfold DeletedKeyEntry.recordToastStale at hfl
  split at hfl
  · rename_i lost
    cases hfl.1.symm.trans lost
  · dsimp only at hfl
    split at hfl
    · exact absurd hfl (not_disable_filters _ key stamp)
    · obtain ⟨kept, hf⟩ := hfl
      exact ⟨(lookup_of_erase hf).1, kept, (lookup_of_erase hf).2⟩

theorem Filters.of_cancel (hfl : (entry.cancel key').Filters key stamp) :
    key ≠ key' ∧ entry.Filters key stamp :=
  ⟨(lookup_of_erase hfl.2).1, hfl.1, (lookup_of_erase hfl.2).2⟩

theorem Filters.of_abortBelow (hfl : (entry.abortBelow lsn).Filters key stamp) :
    lsn < stamp ∧ entry.Filters key stamp :=
  have hf := (lookup_keysAbove lsn entry.keys key stamp).mp hfl.2
  ⟨hf.2, hfl.1, hf.1⟩

theorem Filters.of_prune (filters : entry.prune.Filters key stamp) : entry.Filters key stamp := by
  unfold DeletedKeyEntry.prune at filters
  split at filters
  · exact filters
  · exact ⟨filters.1, ((lookup_keysAbove _ entry.keys key stamp).mp filters.2).1⟩

end DeletedKeyEntry

namespace PopulationDeletedKeys

variable (d : PopulationDeletedKeys κ)

def Marked (oid : Oid) (key : κ) (floor : Nat) : Prop :=
  ∃ entry, d.relations.lookup oid = some entry ∧ entry.Marked key floor

def Filters (oid : Oid) (key : κ) (stamp : Nat) : Prop :=
  ∃ entry, d.relations.lookup oid = some entry ∧ entry.Filters key stamp

def Anchored (pop : PopulationKey) (oid : Oid) (floor : Nat) : Prop :=
  ∃ entry, d.relations.lookup oid = some entry ∧ entry.floors.lookup pop = some floor

section Entry

variable {d : PopulationDeletedKeys κ} {oid oid' : Oid} {key key' : κ}
  {floor lsn stamp : Nat} {pop : PopulationKey} {change : DeletedKeyEntry κ → DeletedKeyEntry κ}

omit [DecidableEq κ] in
private theorem lookup_onEntry (change : DeletedKeyEntry κ → DeletedKeyEntry κ) (oid oid' : Oid)
    (d : PopulationDeletedKeys κ) :
    (onEntry change oid d).relations.lookup oid' =
      if oid' = oid then (d.relations.lookup oid').map change
      else d.relations.lookup oid' :=
  lookup_adjust oid oid' change d.relations

private theorem Marked.onEntry (marked : d.Marked oid key floor)
    (kept : oid = oid' → ∀ entry, entry.Marked key floor → (change entry).Marked key floor) :
    (onEntry change oid' d).Marked oid key floor := by
  obtain ⟨entry, hf, mark⟩ := marked
  by_cases same : oid = oid'
  · exact ⟨change entry, by rw [lookup_onEntry, if_pos same, hf]; rfl, kept same entry mark⟩
  · exact ⟨entry, by rw [lookup_onEntry, if_neg same, hf], mark⟩

private theorem Anchored.marked (anchored : d.Anchored pop oid floor)
    (marks : ∀ entry, (change entry).Marked key lsn) :
    (onEntry change oid d).Marked oid key lsn := by
  obtain ⟨entry, hf, -⟩ := anchored
  exact ⟨change entry, by rw [lookup_onEntry, if_pos rfl, hf]; rfl, marks entry⟩

private theorem Filters.of_onEntry (filters : (onEntry change oid' d).Filters oid key stamp) :
    oid ≠ oid' ∧ d.Filters oid key stamp ∨
      oid = oid' ∧ ∃ entry, d.relations.lookup oid = some entry ∧
        (change entry).Filters key stamp := by
  obtain ⟨entry, hf, kept⟩ := filters
  rw [lookup_onEntry] at hf
  split at hf
  · obtain ⟨old, hp, rfl⟩ := map_eq_some_iff.mp hf
    exact .inr ⟨‹_›, old, hp, kept⟩
  · exact .inl ⟨‹_›, entry, hf, kept⟩

omit [DecidableEq κ] in
private theorem Anchored.onEntry (anchored : d.Anchored pop oid floor)
    (kept : ∀ entry, (change entry).floors = entry.floors) :
    (onEntry change oid' d).Anchored pop oid floor := by
  obtain ⟨entry, hf, registered⟩ := anchored
  by_cases same : oid = oid'
  · exact ⟨change entry, by rw [lookup_onEntry, if_pos same, hf]; rfl,
      (kept entry).symm ▸ registered⟩
  · exact ⟨entry, by rw [lookup_onEntry, if_neg same, hf], registered⟩

private theorem record_floors (key : κ) (lsn : Nat) (entry : DeletedKeyEntry κ) :
    (entry.record key lsn).floors = entry.floors := by
  unfold DeletedKeyEntry.record
  split
  · rfl
  · dsimp only
    split <;> rfl

private theorem recordToastStale_floors (key : κ) (lsn : Nat) (entry : DeletedKeyEntry κ) :
    (entry.recordToastStale key lsn).floors = entry.floors := by
  unfold DeletedKeyEntry.recordToastStale
  split
  · rfl
  · dsimp only
    split <;> rfl

variable (anchored : d.Anchored pop oid floor)
include anchored

theorem Anchored.record : (d.record oid' key lsn).Anchored pop oid floor :=
  anchored.onEntry (record_floors key lsn)

theorem Anchored.recordToastStale : (d.recordToastStale oid' key lsn).Anchored pop oid floor :=
  anchored.onEntry (recordToastStale_floors key lsn)

theorem Anchored.cancel : (d.cancel oid' key).Anchored pop oid floor :=
  anchored.onEntry fun _ => rfl

theorem Anchored.cancelToastStale : (d.cancelToastStale oid' key).Anchored pop oid floor :=
  anchored.onEntry fun _ => rfl

omit [DecidableEq κ] in
theorem Anchored.abortBelow : (d.abortBelow oid' lsn).Anchored pop oid floor :=
  anchored.onEntry fun _ => rfl

omit [DecidableEq κ] in
theorem Anchored.isRecording : d.isRecording oid = true := by
  obtain ⟨entry, hf, -⟩ := anchored
  rw [PopulationDeletedKeys.isRecording, hf, isSome_some]

theorem Anchored.marked_record
    (above : floor < lsn) : (d.record oid key lsn).Marked oid key floor :=
  anchored.marked fun _ => DeletedKeyEntry.marked_record above

theorem Anchored.marked_recordToastStale
    (above : floor < lsn) : (d.recordToastStale oid key lsn).Marked oid key floor :=
  anchored.marked fun _ => DeletedKeyEntry.marked_recordToastStale above

omit anchored

variable (marked : d.Marked oid key floor)
include marked

theorem Marked.record (above : floor < lsn) : (d.record oid' key' lsn).Marked oid key floor :=
  marked.onEntry fun _ _ mark => mark.record above

theorem Marked.recordToastStale (above : floor < lsn) :
    (d.recordToastStale oid' key' lsn).Marked oid key floor :=
  marked.onEntry fun _ _ mark => mark.recordToastStale above

theorem Marked.cancel (other : (oid, key) ≠ (oid', key')) :
    (d.cancel oid' key').Marked oid key floor :=
  marked.onEntry fun same _ mark => mark.cancel fun he => other (by rw [same, he])

theorem Marked.cancelToastStale (other : (oid, key) ≠ (oid', key')) :
    (d.cancelToastStale oid' key').Marked oid key floor :=
  marked.onEntry fun same _ mark => mark.cancelToastStale fun he => other (by rw [same, he])

theorem Marked.abortBelow (other : oid ≠ oid') : (d.abortBelow oid' lsn).Marked oid key floor :=
  marked.onEntry fun same => absurd same other

omit marked

theorem Filters.of_record (filters : (d.record oid' key' lsn).Filters oid key stamp) :
    (oid, key) = (oid', key') ∧ stamp = lsn ∨ d.Filters oid key stamp := by
  obtain ⟨-, kept⟩ | ⟨rfl, entry, hf, kept⟩ := filters.of_onEntry
  · exact .inr kept
  · exact kept.of_record.imp (fun ⟨same, last⟩ => ⟨by rw [same], last⟩) fun old => ⟨entry, hf, old⟩

theorem Filters.of_recordToastStale
    (filters : (d.recordToastStale oid' key' lsn).Filters oid key stamp) :
    (oid, key) ≠ (oid', key') ∧ d.Filters oid key stamp := by
  obtain ⟨other, kept⟩ | ⟨rfl, entry, hf, kept⟩ := filters.of_onEntry
  · exact ⟨fun same => other (congrArg Prod.fst same), kept⟩
  · exact ⟨fun same => kept.of_recordToastStale.1 (congrArg Prod.snd same), entry, hf,
      kept.of_recordToastStale.2⟩

theorem Filters.of_cancel (filters : (d.cancel oid' key').Filters oid key stamp) :
    (oid, key) ≠ (oid', key') ∧ d.Filters oid key stamp := by
  obtain ⟨other, kept⟩ | ⟨rfl, entry, hf, kept⟩ := filters.of_onEntry
  · exact ⟨fun same => other (congrArg Prod.fst same), kept⟩
  · exact ⟨fun same => kept.of_cancel.1 (congrArg Prod.snd same), entry, hf, kept.of_cancel.2⟩

theorem Filters.of_cancelToastStale
    (filters : (d.cancelToastStale oid' key').Filters oid key stamp) :
    d.Filters oid key stamp := by
  obtain ⟨-, kept⟩ | ⟨rfl, entry, hf, kept⟩ := filters.of_onEntry
  · exact kept
  · exact ⟨entry, hf, kept⟩

theorem Filters.of_abortBelow (filters : (d.abortBelow oid' lsn).Filters oid key stamp) :
    d.Filters oid key stamp ∧ (oid = oid' → lsn < stamp) := by
  obtain ⟨other, kept⟩ | ⟨rfl, entry, hf, kept⟩ := filters.of_onEntry
  · exact ⟨kept, fun same => absurd same other⟩
  · exact ⟨⟨entry, hf, kept.of_abortBelow.2⟩, fun _ => kept.of_abortBelow.1⟩

end Entry

section Populations

variable {d : PopulationDeletedKeys κ} {oid : Oid} {key : κ} {floor stamp anchorFloor : Nat}
  {pop other : PopulationKey} {marks : DeletedKeyEntry κ → Prop}
  {visit : KeyedMap Oid (DeletedKeyEntry κ) → Oid → KeyedMap Oid (DeletedKeyEntry κ)}
  {relations : KeyedMap Oid (DeletedKeyEntry κ)}

private def Holds (pop : PopulationKey) (floor : Nat) (oid : Oid)
    (marks : DeletedKeyEntry κ → Prop) (relations : KeyedMap Oid (DeletedKeyEntry κ)) : Prop :=
  ∃ entry, relations.lookup oid = some entry ∧ entry.floors.lookup pop = some floor ∧ marks entry

omit [DecidableEq κ] in
private theorem Holds.fold (kept : ∀ relations visited, Holds pop floor oid marks relations →
      Holds pop floor oid marks (visit relations visited))
    (oids : List Oid)
    (h : Holds pop floor oid marks relations) :
    Holds pop floor oid marks (oids.foldl visit relations) := by
  induction oids generalizing relations with
  | nil => exact h
  | cons head oids ih => exact ih (kept relations head h)

variable (different : other ≠ pop)
include different

omit [DecidableEq κ] in
private theorem Holds.anchor
    (stable : ∀ entry floors, marks entry → marks { entry with floors := floors })
      (relations : KeyedMap Oid (DeletedKeyEntry κ)) (visited : Oid)
    (h : Holds pop floor oid marks relations) :
    Holds pop floor oid marks (anchor other anchorFloor relations visited) := by
  obtain ⟨entry, hf, registered, marked⟩ := h
  unfold Holds PopulationDeletedKeys.anchor
  rw [lookup_modify]
  split
  · rename_i same
    subst same
    rw [hf, getD_some]
    exact ⟨_, rfl, by rw [lookup_insert_ne different.symm, registered], stable _ _ marked⟩
  · exact ⟨entry, hf, registered, marked⟩

omit [DecidableEq κ] in
private theorem Holds.release
    (stable : ∀ entry floors, marks entry → floors.lookup pop = some floor →
      marks ({ entry with floors := floors }).prune)
    (relations : KeyedMap Oid (DeletedKeyEntry κ)) (visited : Oid)
    (h : Holds pop floor oid marks relations) :
    Holds pop floor oid marks (release other relations visited) := by
  obtain ⟨entry, hf, registered, marked⟩ := h
  unfold PopulationDeletedKeys.release
  by_cases same : oid = visited
  · subst same
    have left : (entry.floors.erase other).lookup pop = some floor := by
      rw [lookup_erase_ne different.symm, registered]
    have hm : (entry.floors.erase other).entries.isEmpty = false := by
      rw [List.isEmpty_eq_false_iff_exists_mem]
      exact ⟨_, (mem_entries_iff _ _ _).mpr left⟩
    simp only [hf, hm, Bool.false_eq_true, if_false]
    refine ⟨_, lookup_insert _, ?_, stable entry _ marked left⟩
    unfold DeletedKeyEntry.prune
    split <;> exact left
  · split
    · exact ⟨entry, hf, registered, marked⟩
    · dsimp only
      split
      · exact ⟨entry, by rw [lookup_erase_ne same, hf], registered, marked⟩
      · exact ⟨entry, by rw [lookup_insert_ne same, hf], registered, marked⟩

omit [DecidableEq κ] in
private theorem Holds.activate
    (stable : ∀ entry floors, marks entry → marks { entry with floors := floors })
    (oids : List Oid) (anchorFloor : Nat)
    (h : Holds pop floor oid marks d.relations) :
    Holds pop floor oid marks (d.activate other oids anchorFloor).relations := by
  unfold PopulationDeletedKeys.activate
  split
  · exact h
  · exact Holds.fold (Holds.anchor different stable) oids h

omit [DecidableEq κ] in
private theorem Holds.deactivate
    (stable : ∀ entry floors, marks entry → floors.lookup pop = some floor →
      marks ({ entry with floors := floors }).prune)
    (h : Holds pop floor oid marks d.relations) :
    Holds pop floor oid marks (d.deactivate other).relations := by
  unfold PopulationDeletedKeys.deactivate
  split
  · exact h
  · exact Holds.fold (Holds.release different stable) _ h

omit different

variable (anchored : d.Anchored pop oid floor)
include anchored

omit [DecidableEq κ] in
private theorem Anchored.holds : Holds pop floor oid (fun _ => True) d.relations :=
  anchored.imp fun _ ⟨hf, registered⟩ => ⟨hf, registered, trivial⟩

omit [DecidableEq κ] in
theorem Anchored.activate (different : other ≠ pop) (oids : List Oid) (anchorFloor : Nat) :
    (d.activate other oids anchorFloor).Anchored pop oid floor :=
  (anchored.holds.activate different (fun _ _ _ => trivial) oids anchorFloor).imp
    fun _ ⟨hf, registered, _⟩ => ⟨hf, registered⟩

omit [DecidableEq κ] in
theorem Anchored.deactivate (different : other ≠ pop) :
    (d.deactivate other).Anchored pop oid floor :=
  (anchored.holds.deactivate different fun _ _ _ _ => trivial).imp fun _ ⟨hf, registered, _⟩ =>
    ⟨hf, registered⟩

omit anchored

variable (marked : d.Marked oid key floor)
include marked

variable (anchored : d.Anchored pop oid floor)
include anchored

private theorem Marked.holds : Holds pop floor oid (·.Marked key floor) d.relations := by
  obtain ⟨entry, found, registered⟩ := anchored
  obtain ⟨entry', found', mark⟩ := marked
  cases found.symm.trans found'
  exact ⟨entry, found, registered, mark⟩

theorem Marked.activate (different : other ≠ pop) (oids : List Oid) (anchorFloor : Nat) :
    (d.activate other oids anchorFloor).Marked oid key floor :=
  ((marked.holds anchored).activate different (fun _ _ mark => mark) oids anchorFloor).imp
    fun _ ⟨hf, _, mark⟩ => ⟨hf, mark⟩

theorem Marked.deactivate (different : other ≠ pop) : (d.deactivate other).Marked oid key floor :=
  ((marked.holds anchored).deactivate different fun entry floors mark registered =>
    have kept : ({ entry with floors := floors } : DeletedKeyEntry κ).Marked key floor := mark
    kept.prune registered le_rfl).imp
    fun _ ⟨hf, _, mark⟩ => ⟨hf, mark⟩

omit anchored

omit marked

variable {oids : List Oid}

omit [DecidableEq κ] in
private theorem anchored_fold (hm : oid ∈ oids) (relations : KeyedMap Oid (DeletedKeyEntry κ)) :
    ∃ entry, (oids.foldl (anchor pop anchorFloor) relations).lookup oid = some entry ∧
      entry.floors.lookup pop = some anchorFloor := by
  induction oids using List.reverseRecOn with
  | nil => exact absurd hm List.not_mem_nil
  | append_singleton oids last ih =>
    rw [List.foldl_append, List.foldl_cons, List.foldl_nil, PopulationDeletedKeys.anchor,
      lookup_modify]
    split
    · exact ⟨_, rfl, lookup_insert _⟩
    · rename_i different
      refine ih ((List.mem_append.mp hm).resolve_right fun single => ?_)
      exact different (List.mem_singleton.mp single)

omit [DecidableEq κ] in
theorem anchored_activate (fresh : d.inflight.lookup pop = none)
    (hm : oid ∈ oids) (anchorFloor : Nat) :
    (d.activate pop oids anchorFloor).Anchored pop oid anchorFloor := by
  unfold PopulationDeletedKeys.activate
  rw [fresh]
  exact anchored_fold hm d.relations

private theorem filters_of_fold
    (back : ∀ relations visited entry, (visit relations visited).lookup oid = some entry →
      entry.Filters key stamp → ∃ old, relations.lookup oid = some old ∧ old.Filters key stamp)
    (oids : List Oid) {entry : DeletedKeyEntry κ}
    (found : (oids.foldl visit relations).lookup oid = some entry)
      (filters : entry.Filters key stamp) :
    ∃ old, relations.lookup oid = some old ∧ old.Filters key stamp := by
  induction oids generalizing relations with
  | nil => exact ⟨entry, found, filters⟩
  | cons head oids ih =>
    obtain ⟨middle, found', filters'⟩ := ih found
    exact back relations head middle found' filters'

theorem Filters.of_activate (filters : (d.activate pop oids anchorFloor).Filters oid key stamp) :
    d.Filters oid key stamp := by
  obtain ⟨entry, hf, kept⟩ := filters
  unfold PopulationDeletedKeys.activate at hf
  split at hf
  · exact ⟨entry, hf, kept⟩
  · refine filters_of_fold (fun relations visited entry hf kept => ?_) oids hf kept
    rw [PopulationDeletedKeys.anchor, lookup_modify] at hf
    split at hf
    · rename_i same
      subst same
      cases hf
      cases old : relations.lookup oid with
      | none =>
        rw [old] at kept
        cases kept.2
      | some entry =>
        rw [old] at kept
        exact ⟨entry, rfl, kept⟩
    · exact ⟨entry, hf, kept⟩

theorem Filters.of_deactivate (filters : (d.deactivate pop).Filters oid key stamp) :
    d.Filters oid key stamp := by
  obtain ⟨entry, hf, kept⟩ := filters
  unfold PopulationDeletedKeys.deactivate at hf
  split at hf
  · exact ⟨entry, hf, kept⟩
  · refine filters_of_fold (fun relations visited entry hf kept => ?_) _ hf kept
    unfold PopulationDeletedKeys.release at hf
    split at hf
    · exact ⟨entry, hf, kept⟩
    · rename_i old hp
      dsimp only at hf
      by_cases same : oid = visited
      · subst same
        split at hf
        · rw [AList.lookup_erase] at hf
          cases hf
        · rw [lookup_insert] at hf
          cases hf
          exact ⟨old, hp, kept.of_prune⟩
      · split at hf
        · rw [lookup_erase_ne same] at hf
          exact ⟨entry, hf, kept⟩
        · rw [lookup_insert_ne same] at hf
          exact ⟨entry, hf, kept⟩

end Populations

theorem filtered_iff (d : PopulationDeletedKeys κ) (oid : Oid) (key : κ) :
    d.filtered oid key = true ↔ ∃ stamp, d.Filters oid key stamp := by
  unfold filtered Filters DeletedKeyEntry.Filters
  simp only [any_eq_true, Bool.and_eq_true, Bool.not_eq_true', isSome_iff_exists]
  exact ⟨fun ⟨entry, hf, kept, stamp, key⟩ => ⟨stamp, entry, hf, kept, key⟩,
    fun ⟨stamp, entry, hf, kept, key⟩ => ⟨entry, hf, kept, stamp, key⟩⟩

variable {d : PopulationDeletedKeys κ} {oid : Oid}

omit [DecidableEq κ] in
theorem Anchored.floor_eq {pop : PopulationKey} {floor : Nat}
    (anchored : d.Anchored pop oid floor) :
    d.floor oid pop = some floor := by
  obtain ⟨entry, hf, registered⟩ := anchored
  rw [PopulationDeletedKeys.floor, hf, bind_some, registered]

theorem marked_of_overflowed (lost : d.overflowed oid = true) (key : κ) (floor : Nat) :
    d.Marked oid key floor := by
  obtain ⟨entry, hf, overflowed⟩ := (any_eq_true _ _).mp lost
  exact ⟨entry, hf, .inl overflowed⟩

theorem Marked.cases {key : κ} {floor : Nat} (marked : d.Marked oid key floor) :
    d.overflowed oid = true ∨ (∃ lsn, d.Filters oid key lsn) ∨
      ∃ lsn, floor < lsn ∧ d.staleAt oid key = some lsn := by
  obtain ⟨entry, hf, mark⟩ := marked
  have lost : d.overflowed oid = entry.overflowed := by
    rw [overflowed, hf, any_some]
  cases overflow : entry.overflowed with
  | true => exact .inl (lost.trans overflow)
  | false =>
    obtain lost | ⟨lsn, above, key | stale⟩ := mark
    · cases overflow.symm.trans lost
    · exact .inr (.inl ⟨lsn, entry, hf, overflow, key⟩)
    · exact .inr (.inr ⟨lsn, above, by rw [staleAt, hf, bind_some, stale]⟩)

theorem Filters.keyAt_eq {key : κ} {stamp : Nat}
    (filters : d.Filters oid key stamp) : d.keyAt oid key = some stamp := by
  obtain ⟨entry, hf, -, recorded⟩ := filters
  rw [keyAt, hf, bind_some, recorded]

omit [DecidableEq κ] in
theorem shouldAbort_of_overflowed (lost : d.overflowed oid = true) (snapshotLsn : Nat) :
    d.shouldAbort oid snapshotLsn = true := by
  obtain ⟨entry, hf, overflowed⟩ := (any_eq_true _ _).mp lost
  rw [shouldAbort, hf, any_some, DeletedKeyEntry.shouldAbort, overflowed, Bool.true_or]

end PopulationDeletedKeys

end PgCache.Cache.Staging
