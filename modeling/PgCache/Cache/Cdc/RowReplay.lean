/- source: cache/writer/cdc/apply.rs, cache/writer/core.rs, cache/writer/cdc/frame.rs
   digest: The row handlers of a frame as they act on keys: the cache tables as the batch leaves
     them and the keys the frame has pending, against the tables at origin. -/
import PgCache.Cache.Staging

set_option autoImplicit false

namespace PgCache.Cache.Cdc.RowReplay

open Catalog Staging PopulationDeletedKeys List Option

abbrev Tables (κ ρ : Type) := Oid → κ → Option ρ

inductive Change (κ ρ : Type) where
  | insert (oid : Oid) (key : κ) (row : ρ)
  | update (oid : Oid) (oldKey key : κ) (row : ρ)
  | delete (oid : Oid) (key : κ)
  | truncate (oids : List Oid)
  deriving DecidableEq

variable {κ ρ : Type} [DecidableEq κ]

namespace Tables

variable (tables : Tables κ ρ)

def set (oid : Oid) (key : κ) (row : Option ρ) : Tables κ ρ :=
  fun oid' key' => if (oid', key') = (oid, key) then row else tables oid' key'

def clear (oids : List Oid) : Tables κ ρ :=
  fun oid key => if oid ∈ oids then none else tables oid key

theorem set_self (oid : Oid) (key : κ) (row : Option ρ) : tables.set oid key row oid key = row :=
  if_pos rfl

theorem set_other {oid oid' : Oid} {key key' : κ} (row : Option ρ)
    (o : (oid', key') ≠ (oid, key)) : tables.set oid key row oid' key' = tables oid' key' :=
  if_neg o

end Tables

namespace Change

def apply (tables : Tables κ ρ) : Change κ ρ → Tables κ ρ
  | .insert oid key row => tables.set oid key (some row)
  | .update oid oldKey key row => (tables.set oid oldKey none).set oid key (some row)
  | .delete oid key => tables.set oid key none
  | .truncate oids => tables.clear oids

def fits (tables : Tables κ ρ) : Change κ ρ → Bool
  | .insert oid key _ => (tables oid key).isNone
  | .update oid oldKey key _ => decide (oldKey = key) || (tables oid key).isNone
  | .delete _ _ => true
  | .truncate _ => true

def Touches (oid : Oid) (key : κ) : Change κ ρ → Prop
  | .insert oid' key' _ => (oid, key) = (oid', key')
  | .update oid' oldKey key' _ => (oid, key) = (oid', oldKey) ∨ (oid, key) = (oid', key')
  | .delete oid' key' => (oid, key) = (oid', key')
  | .truncate oids => oid ∈ oids

def relations : Change κ ρ → List Oid
  | .insert oid _ _ => [oid]
  | .update oid _ _ _ => [oid]
  | .delete oid _ => [oid]
  | .truncate oids => oids

omit [DecidableEq κ] in
theorem Touches.relation {change : Change κ ρ} {oid : Oid} {key : κ}
    (touches : change.Touches oid key) : oid ∈ change.relations := by
  cases change with
  | insert oid' key' row => exact mem_singleton.mpr (congrArg Prod.fst touches)
  | update oid' oldKey key' row =>
    exact mem_singleton.mpr (touches.elim (congrArg Prod.fst) (congrArg Prod.fst))
  | delete oid' key' => exact mem_singleton.mpr (congrArg Prod.fst touches)
  | truncate oids => exact touches

theorem apply_untouched (change : Change κ ρ) {oid : Oid} {key : κ}
    (untouched : ¬ change.Touches oid key) (tables : Tables κ ρ) :
    change.apply tables oid key = tables oid key := by
  cases change with
  | insert oid' key' row => exact Tables.set_other _ _ untouched
  | update oid' oldKey key' row =>
    exact (Tables.set_other _ _ fun same => untouched (.inr same)).trans
      (Tables.set_other _ _ fun same => untouched (.inl same))
  | delete oid' key' => exact Tables.set_other _ _ untouched
  | truncate oids => exact if_neg untouched

end Change

/-- What the row handlers read and write: the cache tables as the open batch leaves them, the
keys the frame stamps at its boundary, and the keys recorded for populations. -/
structure Writer (κ ρ : Type) where
  cachedRelations : List Oid
  working : Tables κ ρ
  frameDeletedKeys : List (Oid × κ)
  frameToastStaleKeys : List (Oid × κ)
  frameTruncatedRelations : List Oid
  deletedKeys : PopulationDeletedKeys κ

namespace Writer

variable (w : Writer κ ρ) (oid : Oid) (key : κ)

def frameCacheUpsert (row : ρ) : Writer κ ρ :=
  { w with working := w.working.set oid key (some row) }

def frameDeleteBuffer (recordLostKey : Bool) : Writer κ ρ :=
  { w with
    working := w.working.set oid key none
    frameDeletedKeys :=
      if recordLostKey && w.deletedKeys.isRecording oid then
        w.frameDeletedKeys ++ [(oid, key)]
      else w.frameDeletedKeys }

def frameCacheDelete : Writer κ ρ :=
  w.frameDeleteBuffer oid key true

def keyTracked : Bool :=
  decide ((oid, key) ∈ w.frameDeletedKeys) || (w.deletedKeys.keyAt oid key).isSome ||
    (w.deletedKeys.staleAt oid key).isSome

/-- `population_deleted_key_cancel`. The keys of toast fallbacks of this frame stay. -/
def populationDeletedKeyCancel : Writer κ ρ :=
  { w with
    frameDeletedKeys := w.frameDeletedKeys.filter (· ≠ (oid, key))
    deletedKeys := (w.deletedKeys.cancel oid key).cancelToastStale oid key }

def toastStaleKeyRecord : Writer κ ρ :=
  { w with frameToastStaleKeys := w.frameToastStaleKeys ++ [(oid, key)] }

/-- `update_queries_execute_batch`: whether some query of the relation matched is given. -/
def updateQueriesExecuteBatch (matched : Bool) (oid : Oid) (key : κ) (row : ρ) : Writer κ ρ :=
  if matched then w.frameCacheUpsert oid key row else w

def handleInsert (matched : Bool) (oid : Oid) (key : κ) (row : ρ) : Writer κ ρ :=
  if oid ∉ w.cachedRelations then w
  else
    let executed := w.updateQueriesExecuteBatch matched oid key row
    let cancelled := executed.populationDeletedKeyCancel oid key
    if executed.keyTracked oid key && !matched then cancelled.frameCacheUpsert oid key row
    else cancelled

def updateCacheWrite (matched : Bool) (oid : Oid) (key : κ) (row : ρ) : Writer κ ρ :=
  if matched then w.populationDeletedKeyCancel oid key
  else if w.deletedKeys.isRecording oid then
    (w.populationDeletedKeyCancel oid key).frameCacheUpsert oid key row
  else w.frameCacheDelete oid key

def oldKeyDelete (oldKey key : κ) : Writer κ ρ :=
  if oldKey ≠ key then w.frameCacheDelete oid oldKey else w

def handleUpdate (matched : Bool) (oid : Oid) (oldKey key : κ) (row : ρ) : Writer κ ρ :=
  if oid ∉ w.cachedRelations then w
  else
    let executed := w.updateQueriesExecuteBatch matched oid key row
    (executed.updateCacheWrite matched oid key row).oldKeyDelete oid oldKey key

def toastFallbackWrite (key : κ) : Writer κ ρ :=
  if w.deletedKeys.isRecording oid then
    (w.toastStaleKeyRecord oid key).frameDeleteBuffer oid key false
  else w.frameCacheDelete oid key

def handleUpdateToastFallback (oldKey key : κ) : Writer κ ρ :=
  if oid ∉ w.cachedRelations then w
  else (w.toastFallbackWrite oid key).oldKeyDelete oid oldKey key

def handleDelete (key : κ) : Writer κ ρ :=
  if oid ∉ w.cachedRelations then w else w.frameCacheDelete oid key

def handleTruncate (oids : List Oid) : Writer κ ρ :=
  { w with
    working := w.working.clear oids
    frameTruncatedRelations := w.frameTruncatedRelations ++ oids }

/-- `event_replay`. Whether a query matched the row and whether an update's image is complete are
given. -/
def eventReplay (matched complete : Bool) : Change κ ρ → Writer κ ρ
  | .insert oid key row => w.handleInsert matched oid key row
  | .update oid oldKey key row =>
    if complete then w.handleUpdate matched oid oldKey key row
    else w.handleUpdateToastFallback oid oldKey key
  | .delete oid key => w.handleDelete oid key
  | .truncate oids => w.handleTruncate oids

def frameKeysStamp (lsn : Nat) : Writer κ ρ :=
  let deleted := w.frameDeletedKeys.foldl (fun keys entry => keys.record entry.1 entry.2 lsn)
    w.deletedKeys
  let stale := w.frameToastStaleKeys.foldl
    (fun keys entry => keys.recordToastStale entry.1 entry.2 lsn) deleted
  { w with
    frameDeletedKeys := []
    frameToastStaleKeys := []
    frameTruncatedRelations := []
    deletedKeys := w.frameTruncatedRelations.foldl (fun keys oid => keys.abortBelow oid lsn) stale }

end Writer

/-- An update that writes nothing to its new key while no population records the relation does
not meet a delete of that key pending in the same frame. -/
def Writer.Calm (w : Writer κ ρ) (matched complete : Bool) : Change κ ρ → Prop
  | .update oid _ key _ =>
    oid ∈ w.cachedRelations → w.deletedKeys.isRecording oid = false →
      (matched && complete) = false → (oid, key) ∉ w.frameDeletedKeys
  | _ => True

instance (w : Writer κ ρ) (matched complete : Bool) :
    (change : Change κ ρ) → Decidable (w.Calm matched complete change)
  | .update oid _ key _ => inferInstanceAs (Decidable
      (oid ∈ w.cachedRelations → w.deletedKeys.isRecording oid = false →
        (matched && complete) = false → (oid, key) ∉ w.frameDeletedKeys))
  | .insert _ _ _ => .isTrue trivial
  | .delete _ _ => .isTrue trivial
  | .truncate _ => .isTrue trivial

structure Outside (w next : Writer κ ρ) (touched : Oid → κ → Prop) : Prop where
  cached : next.cachedRelations = w.cachedRelations
  working : ∀ oid key, ¬ touched oid key → next.working oid key = w.working oid key
  pending : ∀ oid key, ¬ touched oid key →
    ((oid, key) ∈ next.frameDeletedKeys ↔ (oid, key) ∈ w.frameDeletedKeys)
  stale : ∀ oid key, ¬ touched oid key →
    ((oid, key) ∈ next.frameToastStaleKeys ↔ (oid, key) ∈ w.frameToastStaleKeys)
  staleKept : ∀ entry, entry ∈ w.frameToastStaleKeys → entry ∈ next.frameToastStaleKeys
  filters : ∀ oid key stamp, next.deletedKeys.Filters oid key stamp →
    w.deletedKeys.Filters oid key stamp
  marked : ∀ oid key floor, ¬ touched oid key → w.deletedKeys.Marked oid key floor →
    next.deletedKeys.Marked oid key floor
  anchored : ∀ pop oid floor, w.deletedKeys.Anchored pop oid floor →
    next.deletedKeys.Anchored pop oid floor
  recording : ∀ oid, next.deletedKeys.isRecording oid = w.deletedKeys.isRecording oid

namespace Outside

variable {w next last : Writer κ ρ} {touched touched' : Oid → κ → Prop}

theorem refl (w : Writer κ ρ) (touched : Oid → κ → Prop) : Outside w w touched :=
  ⟨rfl, fun _ _ _ => rfl, fun _ _ _ => .rfl, fun _ _ _ => .rfl, fun _ => id, fun _ _ _ => id,
    fun _ _ _ _ => id, fun _ _ _ => id, fun _ => rfl⟩

theorem trans (first : Outside w next touched) (second : Outside next last touched) :
    Outside w last touched where
  cached := second.cached.trans first.cached
  working oid key free := (second.working oid key free).trans (first.working oid key free)
  pending oid key free := (second.pending oid key free).trans (first.pending oid key free)
  stale oid key free := (second.stale oid key free).trans (first.stale oid key free)
  staleKept entry inside := second.staleKept entry (first.staleKept entry inside)
  filters oid key stamp filters :=
    first.filters oid key stamp (second.filters oid key stamp filters)
  marked oid key floor free marked :=
    second.marked oid key floor free (first.marked oid key floor free marked)
  anchored pop oid floor anchored :=
    second.anchored pop oid floor (first.anchored pop oid floor anchored)
  recording oid := (second.recording oid).trans (first.recording oid)

theorem mono (outside : Outside w next touched)
    (wider : ∀ oid key, touched oid key → touched' oid key) : Outside w next touched' :=
  { outside with
    working := fun oid key free => outside.working oid key (free ∘ wider oid key)
    pending := fun oid key free => outside.pending oid key (free ∘ wider oid key)
    stale := fun oid key free => outside.stale oid key (free ∘ wider oid key)
    marked := fun oid key floor free => outside.marked oid key floor (free ∘ wider oid key) }

end Outside

def Only (oid : Oid) (key : κ) (oid' : Oid) (key' : κ) : Prop := (oid', key') = (oid, key)

namespace Writer

variable (w : Writer κ ρ) (oid : Oid) (key : κ) (row : ρ)

theorem frameCacheUpsert_outside : Outside w (w.frameCacheUpsert oid key row) (Only oid key) :=
  { Outside.refl w (Only oid key) with
    working := fun _ _ free => Tables.set_other _ _ free }

theorem frameDeleteBuffer_outside (recordLostKey : Bool) :
    Outside w (w.frameDeleteBuffer oid key recordLostKey) (Only oid key) :=
  { Outside.refl w (Only oid key) with
    working := fun _ _ free => Tables.set_other _ _ free
    pending := fun oid' key' free => by
      unfold frameDeleteBuffer
      dsimp only
      split
      · rw [mem_append, mem_singleton]
        exact or_iff_left free
      · rfl }

theorem toastStaleKeyRecord_outside : Outside w (w.toastStaleKeyRecord oid key) (Only oid key) :=
  { Outside.refl w (Only oid key) with
    stale := fun oid' key' free => by
      rw [toastStaleKeyRecord, mem_append, mem_singleton]
      exact or_iff_left free
    staleKept := fun e hm => mem_append_left _ hm }

private theorem cancel_isRecording (deletedKeys : PopulationDeletedKeys κ) (oid' : Oid) :
    ((deletedKeys.cancel oid key).cancelToastStale oid key).isRecording oid' =
      deletedKeys.isRecording oid' := by
  simp only [cancel, cancelToastStale, onEntry, isRecording, Data.Keyed.lookup_adjust]
  split <;> simp

theorem populationDeletedKeyCancel_outside :
    Outside w (w.populationDeletedKeyCancel oid key) (Only oid key) :=
  { Outside.refl w (Only oid key) with
    pending := fun oid' key' free => by
      rw [populationDeletedKeyCancel, mem_filter]
      exact and_iff_left (decide_eq_true free)
    filters := fun _ _ _ filters => filters.of_cancelToastStale.of_cancel.2
    marked := fun _ _ _ free marked => (marked.cancel free).cancelToastStale free
    anchored := fun _ _ _ anchored => anchored.cancel.cancelToastStale
    recording := cancel_isRecording oid key w.deletedKeys }

theorem not_pending_cancel :
    (oid, key) ∉ (w.populationDeletedKeyCancel oid key).frameDeletedKeys := by
  rw [populationDeletedKeyCancel, mem_filter]
  exact fun hm => of_decide_eq_true hm.2 rfl

theorem not_filters_cancel (stamp : Nat) :
    ¬ (w.populationDeletedKeyCancel oid key).deletedKeys.Filters oid key stamp :=
  fun filters => filters.of_cancelToastStale.of_cancel.1 rfl

end Writer

def Writer.Tracked (w : Writer κ ρ) (oid : Oid) (key : κ) : Prop :=
  (oid, key) ∈ w.frameDeletedKeys ∨ ∃ stamp, w.deletedKeys.Filters oid key stamp

structure Agrees (w : Writer κ ρ) (origin : Tables κ ρ) : Prop where
  working : ∀ oid key row, w.working oid key = some row → origin oid key = some row
  tracked : ∀ oid key, w.Tracked oid key →
    origin oid key = none ∨ (oid, key) ∈ w.frameToastStaleKeys
  uncached : ∀ oid key, oid ∉ w.cachedRelations → w.working oid key = none ∧ ¬ w.Tracked oid key

def Covered (w : Writer κ ρ) (origin : Tables κ ρ) (floor : Nat) (oid : Oid) (key : κ)
    (row : ρ) : Prop :=
  (oid, key) ∈ w.frameDeletedKeys ∨ (oid, key) ∈ w.frameToastStaleKeys ∨
    w.deletedKeys.Marked oid key floor ∨ w.working oid key ≠ none ∨
    origin oid key = some row

namespace Outside

variable {w next : Writer κ ρ} {touched : Oid → κ → Prop} {oid : Oid} {key : κ}

theorem of_tracked (outside : Outside w next touched) (free : ¬ touched oid key)
    (tracked : next.Tracked oid key) : w.Tracked oid key :=
  tracked.imp (outside.pending oid key free).mp
    fun ⟨stamp, filters⟩ => ⟨stamp, outside.filters oid key stamp filters⟩

theorem covered (outside : Outside w next touched) (free : ¬ touched oid key)
    {origin origin' : Tables κ ρ} (same : origin' oid key = origin oid key) {floor : Nat} {row : ρ}
    (covered : Covered w origin floor oid key row) :
    Covered next origin' floor oid key row := by
  unfold Covered
  rw [outside.pending oid key free, outside.stale oid key free, outside.working oid key free, same]
  exact covered.imp_right (·.imp_right (·.imp_left (outside.marked oid key floor free)))

end Outside

theorem Agrees.of_outside {w next : Writer κ ρ} {origin origin' : Tables κ ρ}
    {touched : Oid → κ → Prop} (agrees : Agrees w origin)
    (outside : Outside w next touched)
    (same : ∀ oid key, ¬ touched oid key → origin' oid key = origin oid key)
    (hm : ∀ oid key, touched oid key → oid ∈ w.cachedRelations ∧
      (∀ row, next.working oid key = some row → origin' oid key = some row) ∧
      (next.Tracked oid key → origin' oid key = none ∨ (oid, key) ∈ next.frameToastStaleKeys)) :
    Agrees next origin' where
  working oid key row written := by
    by_cases free : touched oid key
    · exact (hm oid key free).2.1 row written
    · rw [same oid key free]
      exact agrees.working oid key row ((outside.working oid key free).symm.trans written)
  tracked oid key tracked := by
    by_cases free : touched oid key
    · exact (hm oid key free).2.2 tracked
    · rw [same oid key free, outside.stale oid key free]
      exact agrees.tracked oid key (outside.of_tracked free tracked)
  uncached oid key absent := by
    rw [outside.cached] at absent
    have free : ¬ touched oid key := fun touches => absent (hm oid key touches).1
    rw [outside.working oid key free]
    exact (agrees.uncached oid key absent).imp_right (· <| outside.of_tracked free ·)

namespace Writer

variable {w : Writer κ ρ} {oid : Oid} {key oldKey : κ} {row : ρ} {matched complete : Bool}

private theorem not_tracked_cancel : ¬ (w.populationDeletedKeyCancel oid key).Tracked oid key :=
  fun tracked => tracked.elim (not_pending_cancel w oid key)
    fun ⟨stamp, filters⟩ => not_filters_cancel w oid key stamp filters

private theorem not_filters_of_not_recording {deletedKeys : PopulationDeletedKeys κ} {stamp : Nat}
    (idle : deletedKeys.isRecording oid = false) : ¬ deletedKeys.Filters oid key stamp := by
  rintro ⟨e, hf, -⟩
  rw [isRecording, hf] at idle
  exact Bool.noConfusion idle

theorem updateQueriesExecuteBatch_outside :
    Outside w (w.updateQueriesExecuteBatch matched oid key row) (Only oid key) := by
  unfold updateQueriesExecuteBatch
  split
  · exact frameCacheUpsert_outside w oid key row
  · exact .refl w _

variable (cached : oid ∈ w.cachedRelations)
include cached

theorem handleInsert_outside : Outside w (w.handleInsert matched oid key row) (Only oid key) := by
  have executed : Outside w (w.updateQueriesExecuteBatch matched oid key row)
      (Only oid key) := updateQueriesExecuteBatch_outside
  have cancelled := executed.trans (populationDeletedKeyCancel_outside _ oid key)
  simp only [handleInsert, cached, not_true_eq_false, if_false]
  split
  · exact cancelled.trans (frameCacheUpsert_outside _ oid key row)
  · exact cancelled

theorem handleInsert_not_tracked : ¬ (w.handleInsert matched oid key row).Tracked oid key := by
  simp only [handleInsert, cached, not_true_eq_false, if_false]
  split
  · exact not_tracked_cancel
  · exact not_tracked_cancel

omit cached in
private theorem keyTracked_eq_false : w.keyTracked oid key = false ↔
      ((oid, key) ∉ w.frameDeletedKeys ∧ w.deletedKeys.keyAt oid key = none) ∧
        w.deletedKeys.staleAt oid key = none := by
  simp only [keyTracked, Bool.or_eq_false_iff, decide_eq_false_iff_not, isSome_eq_false_iff,
    isNone_iff_eq_none]

omit cached in
private theorem cancel_overflowed (deletedKeys : PopulationDeletedKeys κ) (key : κ) :
    ((deletedKeys.cancel oid key).cancelToastStale oid key).overflowed oid =
      deletedKeys.overflowed oid := by
  simp only [cancel, cancelToastStale, onEntry, overflowed, Data.Keyed.lookup_adjust,
    if_true, Option.any_map]
  rfl

theorem handleInsert_marked (lost : w.deletedKeys.overflowed oid = true) {floor : Nat} :
    (w.handleInsert matched oid key row).deletedKeys.Marked oid key floor := by
  have after : ((w.deletedKeys.cancel oid key).cancelToastStale oid key).Marked oid key floor :=
    marked_of_overflowed ((cancel_overflowed w.deletedKeys key).trans lost) key floor
  have same : (w.updateQueriesExecuteBatch matched oid key row).deletedKeys = w.deletedKeys := by
    unfold updateQueriesExecuteBatch
    split <;> rfl
  simp only [handleInsert, cached, not_true_eq_false, if_false]
  split <;> simpa only [populationDeletedKeyCancel, frameCacheUpsert, same] using after

theorem handleInsert_truncated : (w.handleInsert matched oid key row).frameTruncatedRelations =
      w.frameTruncatedRelations := by
  simp only [handleInsert, cached, not_true_eq_false, if_false]
  cases matched <;> split <;> rfl

theorem handleInsert_working (matched : Bool) (key : κ) (row : ρ) :
    (w.handleInsert matched oid key row).working oid key = some row ∨ w.keyTracked oid key = false ∧
        (w.handleInsert matched oid key row).working oid key = w.working oid key := by
  simp only [handleInsert, cached, not_true_eq_false, if_false]
  cases matched with
  | true =>
    rw [Bool.not_true, Bool.and_false, if_neg Bool.false_ne_true]
    exact .inl (Tables.set_self w.working oid key (some row))
  | false =>
    cases tracked : w.keyTracked oid key with
    | true =>
      refine .inl ?_
      simp only [updateQueriesExecuteBatch, Bool.false_eq_true, if_false, tracked]
      exact Tables.set_self _ oid key (some row)
    | false =>
      refine .inr ⟨rfl, ?_⟩
      simp only [updateQueriesExecuteBatch, Bool.false_eq_true, if_false, tracked]
      rfl

omit cached

theorem oldKeyDelete_outside : Outside w (w.oldKeyDelete oid oldKey key) (Only oid oldKey) := by
  unfold oldKeyDelete
  split
  · exact frameDeleteBuffer_outside w oid oldKey true
  · exact .refl w _

structure Updated (w next : Writer κ ρ) (oid : Oid) (key : κ) (row : ρ) : Prop where
  outside : Outside w next (Only oid key)
  working : ∀ other, next.working oid key = some other → other = row
  tracked : next.Tracked oid key → (oid, key) ∈ next.frameToastStaleKeys
  covered : w.deletedKeys.isRecording oid = true →
    next.working oid key ≠ none ∨ (oid, key) ∈ next.frameToastStaleKeys
  truncated : next.frameTruncatedRelations = w.frameTruncatedRelations

private theorem frameCacheDelete_working : (w.frameCacheDelete oid key).working oid key = none :=
  Tables.set_self w.working oid key none

private theorem not_tracked_frameCacheDelete (idle : w.deletedKeys.isRecording oid = false)
    (free : (oid, key) ∉ w.frameDeletedKeys) :
    ¬ (w.frameCacheDelete oid key).Tracked oid key := by
  rintro (pending | ⟨stamp, filters⟩)
  · simp only [frameCacheDelete, frameDeleteBuffer, idle, Bool.and_false, Bool.false_eq_true,
      if_false] at pending
    exact free pending
  · exact not_filters_of_not_recording idle filters

private theorem Updated.of_written {next : Writer κ ρ} (outside : Outside w next (Only oid key))
    (written : next.working oid key = some row) (free : ¬ next.Tracked oid key)
    (truncated : next.frameTruncatedRelations = w.frameTruncatedRelations) :
    Updated w next oid key row where
  outside := outside
  working _ found := (some_inj.mp (written.symm.trans found)).symm
  tracked tracked := absurd tracked free
  covered _ := .inl (written.trans_ne (some_ne_none row))
  truncated := truncated

private theorem Updated.of_deleted (idle : w.deletedKeys.isRecording oid = false)
    (free : (oid, key) ∉ w.frameDeletedKeys) :
    Updated w (w.frameCacheDelete oid key) oid key row where
  outside := frameDeleteBuffer_outside w oid key true
  working other found :=
    absurd (frameCacheDelete_working.symm.trans found) (some_ne_none other).symm
  tracked tracked := absurd tracked (not_tracked_frameCacheDelete idle free)
  covered recording := absurd (idle.symm.trans recording) Bool.false_ne_true
  truncated := rfl

theorem updateCacheWrite_updated (calm : w.deletedKeys.isRecording oid = false → matched = false →
      (oid, key) ∉ w.frameDeletedKeys) :
    Updated w ((w.updateQueriesExecuteBatch matched oid key row).updateCacheWrite matched
      oid key row) oid key row := by
  cases matched with
  | true =>
    exact .of_written ((frameCacheUpsert_outside w oid key row).trans
      (populationDeletedKeyCancel_outside _ oid key))
      (Tables.set_self w.working oid key (some row)) not_tracked_cancel rfl
  | false =>
    simp only [updateQueriesExecuteBatch, updateCacheWrite, Bool.false_eq_true, if_false]
    split
    · exact .of_written ((populationDeletedKeyCancel_outside w oid key).trans
        (frameCacheUpsert_outside _ oid key row)) (Tables.set_self _ oid key (some row))
        not_tracked_cancel rfl
    · rename_i idle
      have idle := Bool.eq_false_of_not_eq_true idle
      exact .of_deleted idle (calm idle rfl)

theorem toastFallbackWrite_updated
    (calm : w.deletedKeys.isRecording oid = false → (oid, key) ∉ w.frameDeletedKeys) :
    Updated w (w.toastFallbackWrite oid key) oid key row := by
  unfold toastFallbackWrite
  split
  · have stale : (oid, key) ∈ ((w.toastStaleKeyRecord oid key).frameDeleteBuffer oid key
        false).frameToastStaleKeys := mem_append_right _ (mem_singleton.mpr rfl)
    exact ⟨(toastStaleKeyRecord_outside w oid key).trans
        (frameDeleteBuffer_outside _ oid key false),
      fun o hf => absurd ((Tables.set_self _ oid key none).symm.trans hf)
        (some_ne_none o).symm, fun _ => stale, fun _ => .inr stale, rfl⟩
  · rename_i idle
    have idle := Bool.eq_false_of_not_eq_true idle
    exact .of_deleted idle (calm idle)

theorem frameCacheDelete_pending (recording : w.deletedKeys.isRecording oid = true) :
    (oid, key) ∈ (w.frameCacheDelete oid key).frameDeletedKeys := by
  simp only [frameCacheDelete, frameDeleteBuffer, recording, Bool.and_true, if_true]
  exact mem_append_right _ (mem_singleton.mpr rfl)

end Writer

open Writer

variable {w next : Writer κ ρ} {origin : Tables κ ρ} {oid : Oid} {key oldKey : κ} {row : ρ}
  {matched complete : Bool}

private theorem updated_outside (updated : Updated w next oid key row) :
    Outside w (next.oldKeyDelete oid oldKey key)
      (fun oid' key' => (oid', key') = (oid, oldKey) ∨ (oid', key') = (oid, key)) :=
  (updated.outside.mono fun _ _ => .inr).trans (oldKeyDelete_outside.mono fun _ _ => .inl)

private theorem oldKeyDelete_newKey (next : Writer κ ρ) (oid : Oid) (oldKey key : κ) :
    ¬ Only oid oldKey oid key ∨ next.oldKeyDelete oid oldKey key = next := by
  by_cases same : oldKey = key
  · exact .inr (if_neg (not_not.mpr same))
  · exact .inl fun he => same (congrArg Prod.snd he).symm

private theorem oldKeyDelete_working (hne : oldKey ≠ key) :
    (next.oldKeyDelete oid oldKey key).working oid oldKey = none := by
  rw [oldKeyDelete, if_pos hne]
  exact Tables.set_self next.working oid oldKey none

theorem Agrees.update (agrees : Agrees w origin) (cached : oid ∈ w.cachedRelations)
    (updated : Updated w next oid key row) :
    Agrees (next.oldKeyDelete oid oldKey key)
      ((Change.update oid oldKey key row).apply origin) := by
  refine agrees.of_outside (updated_outside updated)
    (fun oid' key' free => (Change.update oid oldKey key row).apply_untouched free origin)
    fun oid' key' touches => ?_
  by_cases new : (oid', key') = (oid, key)
  · obtain ⟨rfl, rfl⟩ := Prod.mk.inj new
    have now : (Change.update oid' oldKey key' row).apply origin oid' key' = some row :=
      Tables.set_self _ oid' key' (some row)
    refine ⟨cached, fun o written => ?_, fun tracked => .inr ?_⟩
    · obtain free | same := oldKeyDelete_newKey next oid' oldKey key'
      · rw [now, updated.working o
          ((oldKeyDelete_outside.working oid' key' free).symm.trans written)]
      · rw [now, updated.working o (same ▸ written)]
    · obtain free | same := oldKeyDelete_newKey next oid' oldKey key'
      · exact oldKeyDelete_outside.staleKept _
          (updated.tracked (oldKeyDelete_outside.of_tracked free tracked))
      · rw [same] at tracked ⊢
        exact updated.tracked tracked
  · obtain ⟨rfl, rfl⟩ := Prod.mk.inj (touches.resolve_right new)
    have hne : key' ≠ key := fun he => new (by rw [he])
    have gone : (Change.update oid' key' key row).apply origin oid' key' = none :=
      (Tables.set_other _ _ new).trans (Tables.set_self origin oid' key' none)
    refine ⟨cached, fun o written => ?_, fun _ => .inl gone⟩
    rw [oldKeyDelete_working hne] at written
    cases written

private theorem covered_update {floor : Nat} {key' : κ} {row' : ρ}
    (updated : Updated w next oid key row)
    (recording : w.deletedKeys.isRecording oid = true) (touches : key' = oldKey ∨ key' = key) :
    Covered (next.oldKeyDelete oid oldKey key)
      ((Change.update oid oldKey key row).apply origin) floor oid key' row' := by
  by_cases new : key' = key
  · subst new
    have now := updated.covered recording
    obtain free | same := oldKeyDelete_newKey next oid oldKey key'
    · rw [← oldKeyDelete_outside.working oid key' free] at now
      exact now.elim (fun hp => .inr (.inr (.inr (.inl hp))))
        fun stale => .inr (.inl (oldKeyDelete_outside.staleKept _ stale))
    · rw [same]
      exact now.elim (fun hp => .inr (.inr (.inr (.inl hp)))) fun stale => .inr (.inl stale)
  · obtain rfl := touches.resolve_right new
    refine .inl ?_
    rw [oldKeyDelete, if_pos new]
    exact frameCacheDelete_pending ((updated.outside.recording oid).trans recording)

private theorem Agrees.insert (agrees : Agrees w origin)
    (cached : oid ∈ w.cachedRelations) (fits : origin oid key = none) :
    Agrees (w.handleInsert matched oid key row) ((Change.insert oid key row).apply origin) := by
  refine agrees.of_outside (handleInsert_outside cached)
    (fun oid' key' free => (Change.insert oid key row).apply_untouched free origin)
    fun oid' key' touches => ?_
  obtain ⟨rfl, rfl⟩ := Prod.mk.inj touches
  have now : (Change.insert oid' key' row).apply origin oid' key' = some row :=
    Tables.set_self origin oid' key' (some row)
  refine ⟨cached, fun o written => ?_,
    fun tracked => absurd tracked (handleInsert_not_tracked cached)⟩
  obtain wrote | ⟨-, kept⟩ := handleInsert_working cached matched key' row
  · rw [now, ← wrote, written]
  · have before := agrees.working oid' key' o (kept.symm.trans written)
    cases fits.symm.trans before

private theorem Covered.insert {floor : Nat} {row' : ρ}
    (covered : Covered w origin floor oid key row')
    (cached : oid ∈ w.cachedRelations) (fits : origin oid key = none) :
    Covered (w.handleInsert matched oid key row)
      ((Change.insert oid key row).apply origin) floor oid key row' := by
  obtain wrote | ⟨free, kept⟩ := handleInsert_working cached matched key row
  · exact .inr (.inr (.inr (.inl (wrote.trans_ne (some_ne_none row)))))
  obtain ⟨⟨unpending, unrecorded⟩, fresh⟩ := keyTracked_eq_false.mp free
  obtain pending | stale | marked | hp | alive := covered
  · exact absurd pending unpending
  · exact .inr (.inl ((handleInsert_outside cached).staleKept _ stale))
  · obtain lost | ⟨stamp, filters⟩ | ⟨stamp, -, stale⟩ := marked.cases
    · exact .inr (.inr (.inl (handleInsert_marked cached lost)))
    · cases unrecorded.symm.trans filters.keyAt_eq
    · cases fresh.symm.trans stale
  · exact .inr (.inr (.inr (.inl (kept.trans_ne hp))))
  · cases fits.symm.trans alive

private theorem Agrees.delete (agrees : Agrees w origin) (cached : oid ∈ w.cachedRelations) :
    Agrees (w.frameCacheDelete oid key) ((Change.delete oid key).apply origin) := by
  refine agrees.of_outside (frameDeleteBuffer_outside w oid key true)
    (fun oid' key' free => (Change.delete oid key).apply_untouched free origin)
    fun oid' key' touches => ?_
  obtain ⟨rfl, rfl⟩ := Prod.mk.inj touches
  refine ⟨cached, fun o written => ?_, fun _ => .inl (Tables.set_self origin oid' key' none)⟩
  cases frameCacheDelete_working.symm.trans written

theorem handleTruncate_outside (w : Writer κ ρ) (oids : List Oid) :
    Outside w (w.handleTruncate oids) (fun oid _ => oid ∈ oids) :=
  { Outside.refl w (fun oid _ => oid ∈ oids) with
    working := fun _ _ free => if_neg free }

private theorem Agrees.truncate (agrees : Agrees w origin) (oids : List Oid) :
    Agrees (w.handleTruncate oids) ((Change.truncate oids).apply origin) where
  working oid key row written := by
    have cleared : ¬ oid ∈ oids := fun hm =>
      absurd ((if_pos hm).symm.trans written) (some_ne_none row).symm
    exact ((if_neg cleared).trans (agrees.working oid key row
      ((if_neg cleared).symm.trans written)))
  tracked oid key tracked := by
    by_cases cleared : oid ∈ oids
    · exact .inl (if_pos cleared)
    · exact (agrees.tracked oid key tracked).imp_left ((if_neg cleared).trans ·)
  uncached oid key absent := by
    refine ⟨?_, (agrees.uncached oid key absent).2⟩
    by_cases cleared : oid ∈ oids
    · exact if_pos cleared
    · exact (if_neg cleared).trans (agrees.uncached oid key absent).1

variable {change : Change κ ρ}

private theorem Agrees.skip (agrees : Agrees w origin)
    (ha : ∀ oid ∈ change.relations, oid ∉ w.cachedRelations) :
    Agrees w (change.apply origin) where
  working oid key row written := by
    have untouched : ¬ change.Touches oid key := fun touches =>
      absurd ((agrees.uncached oid key (ha oid touches.relation)).1.symm.trans written)
        (some_ne_none row).symm
    rw [change.apply_untouched untouched]
    exact agrees.working oid key row written
  tracked oid key tracked := by
    have untouched : ¬ change.Touches oid key := fun touches =>
      (agrees.uncached oid key (ha oid touches.relation)).2 tracked
    rw [change.apply_untouched untouched]
    exact agrees.tracked oid key tracked
  uncached := agrees.uncached

/-- What the handler of a change does: nothing for a relation that is not cached, and otherwise
what the kind of the change asks for. -/
inductive Replayed (w : Writer κ ρ) (matched : Bool) : Change κ ρ → Writer κ ρ → Prop where
  | skip {change : Change κ ρ} (absent : ∀ oid ∈ change.relations, oid ∉ w.cachedRelations) :
      Replayed w matched change w
  | insert {oid : Oid} {key : κ} {row : ρ} (cached : oid ∈ w.cachedRelations) :
      Replayed w matched (.insert oid key row) (w.handleInsert matched oid key row)
  | update {oid : Oid} {oldKey key : κ} {row : ρ} {next : Writer κ ρ}
      (cached : oid ∈ w.cachedRelations) (updated : Updated w next oid key row) :
      Replayed w matched (.update oid oldKey key row) (next.oldKeyDelete oid oldKey key)
  | delete {oid : Oid} {key : κ} (cached : oid ∈ w.cachedRelations) :
      Replayed w matched (.delete oid key) (w.frameCacheDelete oid key)
  | truncate (oids : List Oid) :
      Replayed w matched (.truncate oids) (w.handleTruncate oids)

private theorem Replayed.skipped (single : change.relations = [oid]) (ha : oid ∉ w.cachedRelations)
    (same : w.eventReplay matched complete change = w) :
    Replayed w matched change (w.eventReplay matched complete change) := by
  rw [same]
  refine .skip fun oid' hm => ?_
  rw [single, mem_singleton] at hm
  exact hm ▸ ha

theorem eventReplay_replayed (calm : w.Calm matched complete change) :
    Replayed w matched change (w.eventReplay matched complete change) := by
  cases change with
  | insert oid key row =>
    by_cases cached : oid ∈ w.cachedRelations
    · exact .insert cached
    · exact .skipped rfl cached (if_pos cached)
  | update oid oldKey key row =>
    by_cases cached : oid ∈ w.cachedRelations
    · have calm := calm cached
      cases complete with
      | true =>
        simp only [Writer.eventReplay, handleUpdate, cached, not_true_eq_false, if_false, if_true]
        exact .update cached (updateCacheWrite_updated fun idle free =>
          calm idle (by rw [free, Bool.false_and]))
      | false =>
        simp only [Writer.eventReplay, handleUpdateToastFallback, cached, not_true_eq_false,
          if_false, Bool.false_eq_true]
        exact .update cached (toastFallbackWrite_updated fun idle =>
          calm idle (Bool.and_false matched))
    · refine .skipped rfl cached ?_
      simp only [Writer.eventReplay, handleUpdate, handleUpdateToastFallback, cached,
        not_false_eq_true, if_true, ite_self]
  | delete oid key =>
    by_cases cached : oid ∈ w.cachedRelations
    · rw [Writer.eventReplay, handleDelete, if_neg (not_not.mpr cached)]
      exact .delete cached
    · exact .skipped rfl cached (if_pos cached)
  | truncate oids => exact .truncate oids

theorem Agrees.replayed (agrees : Agrees w origin) (fits : change.fits origin = true)
    (replayed : Replayed w matched change next) : Agrees next (change.apply origin) := by
  cases replayed with
  | skip ha => exact agrees.skip ha
  | insert cached => exact agrees.insert cached (isNone_iff_eq_none.mp fits)
  | update cached updated => exact agrees.update cached updated
  | delete cached => exact agrees.delete cached
  | truncate oids => exact agrees.truncate oids

theorem Replayed.outside (replayed : Replayed w matched change next) :
    Outside w next (fun oid key => change.Touches oid key) := by
  cases replayed with
  | skip ha => exact .refl w _
  | insert cached => exact handleInsert_outside cached
  | update cached updated => exact updated_outside updated
  | delete cached => exact frameDeleteBuffer_outside w _ _ true
  | truncate oids => exact handleTruncate_outside w oids

theorem Covered.replayed {floor : Nat} {pop : PopulationKey}
    (covered : Covered w origin floor oid key row)
    (anchored : w.deletedKeys.Anchored pop oid floor)
    (cached : oid ∈ w.cachedRelations) (fits : change.fits origin = true)
    (replayed : Replayed w matched change next)
    (kept : ∀ oids, change = .truncate oids → oid ∉ oids) :
    Covered next (change.apply origin) floor oid key row := by
  by_cases touches : change.Touches oid key
  · cases replayed with
    | skip ha => exact absurd cached (ha oid touches.relation)
    | insert cached =>
      obtain ⟨rfl, rfl⟩ := Prod.mk.inj touches
      exact covered.insert cached (isNone_iff_eq_none.mp fits)
    | update cached updated =>
      obtain ⟨rfl, same⟩ | ⟨rfl, same⟩ := touches.imp Prod.mk.inj Prod.mk.inj
      · exact covered_update updated anchored.isRecording (.inl same)
      · exact covered_update updated anchored.isRecording (.inr same)
    | delete cached =>
      obtain ⟨rfl, rfl⟩ := Prod.mk.inj touches
      exact .inl (frameCacheDelete_pending anchored.isRecording)
    | truncate oids => exact absurd touches (kept oids rfl)
  · exact replayed.outside.covered touches (change.apply_untouched touches origin) covered

theorem Replayed.truncated (replayed : Replayed w matched change next)
    (hm : oid ∈ next.frameTruncatedRelations) :
    oid ∈ w.frameTruncatedRelations ∨ ∃ oids, change = .truncate oids ∧ oid ∈ oids := by
  cases replayed with
  | skip ha => exact .inl hm
  | insert cached => exact .inl (handleInsert_truncated cached ▸ hm)
  | update cached updated =>
    rw [← updated.truncated]
    unfold oldKeyDelete at hm
    split at hm <;> exact .inl hm
  | delete cached => exact .inl hm
  | truncate oids => exact (mem_append.mp hm).imp_right fun emptied => ⟨oids, rfl, emptied⟩

theorem Agrees.retrack (agrees : Agrees w origin) {deletedKeys : PopulationDeletedKeys κ}
    (filters : ∀ oid key stamp, deletedKeys.Filters oid key stamp →
      w.deletedKeys.Filters oid key stamp) :
    Agrees { w with deletedKeys := deletedKeys } origin := by
  have back : ∀ oid key, Writer.Tracked { w with deletedKeys := deletedKeys } oid key →
      w.Tracked oid key := fun oid key tracked =>
    tracked.imp_right fun ⟨stamp, kept⟩ => ⟨stamp, filters oid key stamp kept⟩
  exact {
    working := agrees.working
    tracked := fun oid key tracked => agrees.tracked oid key (back oid key tracked)
    uncached := fun oid key ha =>
      (agrees.uncached oid key ha).imp_right (· <| back oid key ·) }

section Stamp

variable {deletedKeys : PopulationDeletedKeys κ} {floor lsn stamp : Nat} {pop : PopulationKey}

omit [DecidableEq κ] in
private theorem anchored_fold {α : Type}
    {visit : PopulationDeletedKeys κ → α → PopulationDeletedKeys κ}
    (kept : ∀ keys visited, keys.Anchored pop oid floor →
      (visit keys visited).Anchored pop oid floor) (xs : List α)
    (anchored : deletedKeys.Anchored pop oid floor) :
    (xs.foldl visit deletedKeys).Anchored pop oid floor := by
  induction xs generalizing deletedKeys with
  | nil => exact anchored
  | cons x xs ih => exact ih (kept deletedKeys x anchored)

variable (entries : List (Oid × κ))

private theorem marked_fold {visit : PopulationDeletedKeys κ → Oid × κ → PopulationDeletedKeys κ}
    (kept : ∀ keys e, keys.Anchored pop oid floor → (visit keys e).Anchored pop oid floor)
    (marks : ∀ keys e, keys.Anchored pop oid floor →
      (oid, key) = e ∨ keys.Marked oid key floor → (visit keys e).Marked oid key floor)
    (anchored : deletedKeys.Anchored pop oid floor)
    (marked : (oid, key) ∈ entries ∨ deletedKeys.Marked oid key floor) :
    (entries.foldl visit deletedKeys).Marked oid key floor := by
  induction entries generalizing deletedKeys with
  | nil => exact marked.resolve_left not_mem_nil
  | cons e entries ih =>
    refine ih (kept deletedKeys e anchored) ?_
    rw [mem_cons] at marked
    obtain (same | hm) | marked := marked
    · exact .inr (marks deletedKeys e anchored (.inl same))
    · exact .inl hm
    · exact .inr (marks deletedKeys e anchored (.inr marked))

private theorem marked_record_fold (above : floor < lsn)
    (anchored : deletedKeys.Anchored pop oid floor)
    (marked : (oid, key) ∈ entries ∨ deletedKeys.Marked oid key floor) :
    (entries.foldl (fun keys e => keys.record e.1 e.2 lsn) deletedKeys).Marked oid key floor := by
  refine marked_fold entries (fun _ _ anchored => anchored.record) ?_ anchored marked
  rintro keys e anchored (rfl | marked)
  · exact anchored.marked_record above
  · exact marked.record above

theorem marked_abortBelow_fold (oids : List Oid) (kept : oid ∉ oids)
    (marked : deletedKeys.Marked oid key floor) :
    (oids.foldl (fun keys oid => keys.abortBelow oid lsn) deletedKeys).Marked oid key floor := by
  induction oids generalizing deletedKeys with
  | nil => exact marked
  | cons head oids ih =>
    rw [mem_cons, not_or] at kept
    exact ih kept.2 (marked.abortBelow kept.1)

omit [DecidableEq κ] in
theorem anchored_abortBelow_fold (oids : List Oid) (anchored : deletedKeys.Anchored pop oid floor) :
    (oids.foldl (fun keys oid => keys.abortBelow oid lsn) deletedKeys).Anchored pop oid floor :=
  anchored_fold (fun _ _ anchored => anchored.abortBelow) oids anchored

private theorem filters_record_fold
    (filters : (entries.foldl (fun keys e => keys.record e.1 e.2 lsn)
      deletedKeys).Filters oid key stamp) :
    (oid, key) ∈ entries ∧ stamp = lsn ∨ deletedKeys.Filters oid key stamp := by
  induction entries generalizing deletedKeys with
  | nil => exact .inr filters
  | cons e entries ih =>
    obtain ⟨hm, last⟩ | kept := ih filters
    · exact .inl ⟨mem_cons_of_mem e hm, last⟩
    · refine kept.of_record.imp_left (And.imp_left fun same => ?_)
      exact mem_cons.mpr (.inl same)

private theorem filters_recordToastStale_fold
    (filters : (entries.foldl (fun keys e => keys.recordToastStale e.1 e.2 lsn)
      deletedKeys).Filters oid key stamp) :
    (oid, key) ∉ entries ∧ deletedKeys.Filters oid key stamp := by
  induction entries generalizing deletedKeys with
  | nil => exact ⟨not_mem_nil, filters⟩
  | cons e entries ih =>
    obtain ⟨outside, kept⟩ := ih filters
    refine ⟨?_, kept.of_recordToastStale.2⟩
    rw [mem_cons, not_or]
    exact ⟨kept.of_recordToastStale.1, outside⟩

theorem filters_abortBelow_fold (oids : List Oid)
    (filters : (oids.foldl (fun keys oid => keys.abortBelow oid lsn) deletedKeys).Filters oid key
      stamp) :
    deletedKeys.Filters oid key stamp ∧ (oid ∈ oids → lsn < stamp) := by
  induction oids generalizing deletedKeys with
  | nil => exact ⟨filters, fun hm => absurd hm not_mem_nil⟩
  | cons head oids ih =>
    obtain ⟨kept, above⟩ := ih filters
    refine ⟨kept.of_abortBelow.1, fun hm => ?_⟩
    rw [mem_cons] at hm
    exact hm.elim kept.of_abortBelow.2 above

theorem filters_frameKeysStamp
    (filters : (w.frameKeysStamp lsn).deletedKeys.Filters oid key stamp) :
    (oid, key) ∉ w.frameToastStaleKeys ∧ ((oid, key) ∈ w.frameDeletedKeys ∧ stamp = lsn ∨
        w.deletedKeys.Filters oid key stamp) := by
  obtain ⟨outside, kept⟩ :=
    filters_recordToastStale_fold _ (filters_abortBelow_fold _ filters).1
  exact ⟨outside, filters_record_fold _ kept⟩

theorem Agrees.frameKeysStamp (agrees : Agrees w origin) (lsn : Nat) :
    Agrees (w.frameKeysStamp lsn) origin := by
  have back : ∀ oid key, (w.frameKeysStamp lsn).Tracked oid key →
      (oid, key) ∉ w.frameToastStaleKeys ∧ w.Tracked oid key := by
    rintro oid key (pending | ⟨stamp, filters⟩)
    · cases pending
    · obtain ⟨outside, kept⟩ := filters_frameKeysStamp filters
      exact ⟨outside, kept.imp And.left fun filters => ⟨stamp, filters⟩⟩
  exact {
    working := agrees.working
    tracked := fun oid key tracked =>
      .inl ((agrees.tracked oid key (back oid key tracked).2).resolve_right
        (back oid key tracked).1)
    uncached := fun oid key ha =>
      ⟨(agrees.uncached oid key ha).1, fun tracked =>
        (agrees.uncached oid key ha).2 (back oid key tracked).2⟩ }

private theorem anchored_record_fold (anchored : deletedKeys.Anchored pop oid floor) :
    (entries.foldl (fun keys e => keys.record e.1 e.2 lsn) deletedKeys).Anchored pop oid floor :=
  anchored_fold (fun _ _ anchored => anchored.record) entries anchored

theorem anchored_frameKeysStamp (anchored : w.deletedKeys.Anchored pop oid floor)
    (lsn : Nat) : (w.frameKeysStamp lsn).deletedKeys.Anchored pop oid floor :=
  anchored_abortBelow_fold _
    (anchored_fold (fun _ _ anchored => anchored.recordToastStale) _
      (anchored_record_fold _ anchored))

theorem Covered.frameKeysStamp (covered : Covered w origin floor oid key row)
    (anchored : w.deletedKeys.Anchored pop oid floor) (above : floor < lsn)
    (kept : oid ∉ w.frameTruncatedRelations) :
    Covered (w.frameKeysStamp lsn) origin floor oid key row := by
  have marks : (oid, key) ∈ w.frameDeletedKeys ∨ (oid, key) ∈ w.frameToastStaleKeys ∨
      w.deletedKeys.Marked oid key floor →
      (w.frameKeysStamp lsn).deletedKeys.Marked oid key floor := by
    intro marked
    refine marked_abortBelow_fold _ kept
      (marked_fold _ (fun _ _ anchored => anchored.recordToastStale)
      ?_ (anchored_record_fold _ anchored) ?_)
    · rintro keys e anchored (rfl | marked)
      · exact anchored.marked_recordToastStale above
      · exact marked.recordToastStale above
    obtain pending | pendingStale | marked := marked
    · exact .inr (marked_record_fold _ above anchored (.inl pending))
    · exact .inl pendingStale
    · exact .inr (marked_record_fold _ above anchored (.inr marked))
  obtain pending | pendingStale | marked | rest := covered
  · exact .inr (.inr (.inl (marks (.inl pending))))
  · exact .inr (.inr (.inl (marks (.inr (.inl pendingStale)))))
  · exact .inr (.inr (.inl (marks (.inr (.inr marked)))))
  · exact .inr (.inr (.inr rest))

end Stamp

end PgCache.Cache.Cdc.RowReplay
