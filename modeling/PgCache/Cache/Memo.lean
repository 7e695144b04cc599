/- source: cache/memo.rs
   digest: The in-process store of captured results and its version slots. -/
import PgCache.Cache.Maintenance

set_option autoImplicit false

namespace PgCache.Cache.Memo

open Catalog Data.Keyed Maintenance

abbrev Bytes := List UInt8

def maxMemoEntryBytes : Nat := 128 * 1024

inductive SlotKey where
  | memo (fp : Fingerprint)
  | relation (oid : Oid)
  deriving DecidableEq

structure MemoShape where
  limit : Option Nat
  offset : Option Nat
  deriving DecidableEq

structure MemoKey where
  fingerprint : Fingerprint
  binary : Bool
  shape : MemoShape
  deriving DecidableEq

/-- `MemoEntry`. `stale` is no field of the source: it says that a commit after the read the
bytes come from has changed the result of the query. -/
structure MemoEntry where
  core : Bytes
  rdLen : Nat
  stamped : List (SlotKey × Nat)
  relations : List Oid
  stale : Bool
  deriving DecidableEq

def MemoEntry.size (entry : MemoEntry) : Nat := entry.core.length

structure MemoHit where
  core : Bytes
  rdLen : Nat
  deriving DecidableEq

/-- `ResultMemo`. A slot that was never touched has version 0; `budget` is the dynamic setting. -/
structure ResultMemo where
  entries : KeyedMap MemoKey MemoEntry
  slotEpochs : SlotKey → Nat
  totalBytes : Nat
  gcPending : Bool
  budget : Nat

namespace ResultMemo

def new (budget : Nat) : ResultMemo := ⟨∅, fun _ => 0, 0, false, budget⟩

variable (memo : ResultMemo)

def enabled : Bool := 0 < memo.budget

def bump (slot : SlotKey) : ResultMemo :=
  { memo with
    slotEpochs := fun other => memo.slotEpochs other + if other = slot then 1 else 0 }

def slotDirtyBegin (slot : SlotKey) : ResultMemo :=
  { memo.bump slot with gcPending := true }

def slotDirtyEnd (slot : SlotKey) : ResultMemo := memo.bump slot

def slotVersion (slot : SlotKey) : Nat := memo.slotEpochs slot

def slotsStamp (slots : List SlotKey) : Option (List (SlotKey × Nat)) :=
  slots.mapM fun slot =>
    let version := memo.slotVersion slot
    if version % 2 = 0 then some (slot, version) else none

def slotsValid (stamped : List (SlotKey × Nat)) : Bool :=
  stamped.all fun stamp => memo.slotVersion stamp.1 = stamp.2

def remove (key : MemoKey) : ResultMemo :=
  match memo.entries.lookup key with
  | some entry =>
    { memo with
      entries := memo.entries.erase key
      totalBytes := memo.totalBytes - entry.size }
  | none => memo

def get (key : MemoKey) : Option MemoHit × ResultMemo :=
  match memo.entries.lookup key with
  | none => (none, memo)
  | some entry =>
    if memo.slotsValid entry.stamped then (some ⟨entry.core, entry.rdLen⟩, memo)
    else (none, memo.remove key)

def insert (key : MemoKey) (entry : MemoEntry) : Bool × ResultMemo :=
  let size := entry.size
  if memo.budget = 0 ∨ maxMemoEntryBytes < size then (false, memo)
  else
    let prevSize := ((memo.entries.lookup key).map MemoEntry.size).getD 0
    if memo.budget < memo.totalBytes - prevSize + size then (false, memo)
    else
      (true, { memo with
        entries := memo.entries.insert key entry
        totalBytes := memo.totalBytes - prevSize + size })

def memoized (oid : Oid) (fp : Fingerprint) : Bool :=
  any (fun key entry => key.fingerprint = fp ∧ oid ∈ entry.relations) memo.entries

def candidatesMemoizedInto (relation : Oid) (candidates : List Fingerprint)
    (out : List Fingerprint) : List Fingerprint :=
  candidates.foldl
    (fun out fp => if memo.memoized relation fp then out.insert fp else out)
    out

def isEmpty : Bool := memo.entries.entries.isEmpty

def gc : ResultMemo :=
  if memo.gcPending then
    let stale := memo.entries.keys.filter fun key =>
      (memo.entries.lookup key).any fun entry => !memo.slotsValid entry.stamped
    stale.foldl remove { memo with gcPending := false }
  else memo

end ResultMemo

/-- `MemoCapture`. `hasRead` says that the serve query has read its snapshot, `stale` that a
commit since has changed the result; neither is a field of the source. -/
structure MemoCapture where
  key : MemoKey
  stamped : List (SlotKey × Nat)
  buf : Bytes
  rdLen : Nat
  aborted : Bool
  relations : List Oid
  hasRead : Bool
  stale : Bool

namespace MemoCapture

def start (memo : ResultMemo) (key : MemoKey) (relationOids : List Oid) : Option MemoCapture :=
  if memo.enabled then
    (memo.slotsStamp (relationOids.map .relation ++ [.memo key.fingerprint])).map fun stamped =>
      ⟨key, stamped, [], 0, false, relationOids, false, false⟩
  else none

variable (capture : MemoCapture)

def append (data : Bytes) : MemoCapture :=
  if capture.aborted then capture
  else if maxMemoEntryBytes < capture.buf.length + data.length then
    { capture with aborted := true, buf := [] }
  else { capture with buf := capture.buf ++ data }

def rowDescriptionPush (data : Bytes) : MemoCapture :=
  let capture := capture.append data
  if capture.aborted then capture else { capture with rdLen := capture.buf.length }

def dataPush (data : Bytes) : MemoCapture := capture.append data

def isMemoStamp : SlotKey × Nat → Bool
  | (.memo _, _) => true
  | (.relation _, _) => false

def finishes (memo : ResultMemo) : Bool := !capture.aborted && memo.slotsValid capture.stamped

def entry : MemoEntry :=
  ⟨capture.buf, capture.rdLen, capture.stamped.filter isMemoStamp, capture.relations,
    capture.stale⟩

end MemoCapture

section Lemmas

variable {memo : ResultMemo}

@[simp] theorem slotVersion_begin (memo : ResultMemo) (slot o : SlotKey) :
    (memo.slotDirtyBegin slot).slotVersion o = memo.slotVersion o + if o = slot then 1 else 0 :=
  rfl

@[simp] theorem slotVersion_end (memo : ResultMemo) (slot o : SlotKey) :
    (memo.slotDirtyEnd slot).slotVersion o = memo.slotVersion o + if o = slot then 1 else 0 :=
  rfl

theorem slotsValid_iff (stamped : List (SlotKey × Nat)) :
    memo.slotsValid stamped = true ↔ ∀ stamp ∈ stamped, memo.slotVersion stamp.1 = stamp.2 := by
  simp [ResultMemo.slotsValid]

theorem slotsStamp_eq_some {slots : List SlotKey} {stamped : List (SlotKey × Nat)}
    (stamps : memo.slotsStamp slots = some stamped) :
    stamped = slots.map (fun slot => (slot, memo.slotVersion slot)) ∧
      ∀ slot ∈ slots, memo.slotVersion slot % 2 = 0 := by
  induction slots generalizing stamped with
  | nil =>
    cases stamps
    simp
  | cons slot slots ih =>
    simp only [ResultMemo.slotsStamp, List.mapM_cons, Option.bind_eq_bind,
      Option.bind_eq_some_iff] at stamps
    obtain ⟨stamp, stable, rest, os, he⟩ := stamps
    obtain ⟨even, ⟨⟩⟩ := Option.ite_none_right_eq_some.mp stable
    obtain ⟨rfl, stableRest⟩ := ih os
    cases he
    exact ⟨rfl, List.forall_mem_cons.mpr ⟨even, stableRest⟩⟩

theorem not_memoized_of_isEmpty (empty : memo.isEmpty = true) (oid : Oid)
    (fp : Fingerprint) : memo.memoized oid fp = false := by
  have none : memo.entries.entries = [] := List.isEmpty_iff.mp empty
  simp [ResultMemo.memoized, any, none]

theorem mem_candidatesMemoizedInto (rel : Oid) (candidates out : List Fingerprint)
    (fp : Fingerprint) :
    fp ∈ memo.candidatesMemoizedInto rel candidates out ↔
      fp ∈ out ∨ fp ∈ candidates ∧ memo.memoized rel fp = true := by
  induction candidates generalizing out with
  | nil => simp [ResultMemo.candidatesMemoizedInto]
  | cons first candidates ih =>
    have rest := ih (if memo.memoized rel first then out.insert first else out)
    simp only [ResultMemo.candidatesMemoizedInto, List.foldl_cons] at rest ⊢
    rw [rest]
    cases hk : memo.memoized rel first with
    | false => grind
    | true => grind

theorem nodup_candidatesMemoizedInto (rel : Oid) (candidates : List Fingerprint)
    {out : List Fingerprint} (nodup : out.Nodup) :
    (memo.candidatesMemoizedInto rel candidates out).Nodup := by
  induction candidates generalizing out with
  | nil => exact nodup
  | cons first candidates ih =>
    simp only [ResultMemo.candidatesMemoizedInto, List.foldl_cons] at ih ⊢
    split
    · exact ih (nodup.insert)
    · exact ih nodup

theorem lookup_remove_of_eq_some {key other : MemoKey} {entry : MemoEntry}
    (found : (memo.remove key).entries.lookup other = some entry) :
    memo.entries.lookup other = some entry := by
  unfold ResultMemo.remove at found
  split at found
  · by_cases same : other = key
    · subst same
      rw [AList.lookup_erase] at found
      cases found
    · rwa [AList.lookup_erase_ne same] at found
  · exact found

@[simp] theorem slotEpochs_remove (key : MemoKey) :
    (memo.remove key).slotEpochs = memo.slotEpochs := by
  unfold ResultMemo.remove
  split <;> rfl

theorem gc_spec (memo : ResultMemo) : memo.gc.slotEpochs = memo.slotEpochs ∧
      ∀ key entry, memo.gc.entries.lookup key = some entry →
        memo.entries.lookup key = some entry := by
  have removes : ∀ (keys : List MemoKey) (memo : ResultMemo),
      (keys.foldl ResultMemo.remove memo).slotEpochs = memo.slotEpochs ∧
        ∀ key entry, (keys.foldl ResultMemo.remove memo).entries.lookup key = some entry →
          memo.entries.lookup key = some entry := by
    intro keys
    induction keys with
    | nil => exact fun memo => ⟨rfl, fun _ _ found => found⟩
    | cons first keys ih =>
      intro memo
      obtain ⟨epochs, kept⟩ := ih (memo.remove first)
      exact ⟨epochs.trans (slotEpochs_remove first), fun key entry found =>
        lookup_remove_of_eq_some (kept key entry found)⟩
  unfold ResultMemo.gc
  split
  · exact removes _ _
  · exact ⟨rfl, fun _ _ found => found⟩

theorem get_spec (memo : ResultMemo) (key : MemoKey) :
    (memo.get key).2.slotEpochs = memo.slotEpochs ∧
      ∀ other entry, (memo.get key).2.entries.lookup other = some entry →
        memo.entries.lookup other = some entry := by
  unfold ResultMemo.get
  split
  · exact ⟨rfl, fun _ _ found => found⟩
  · split
    · exact ⟨rfl, fun _ _ found => found⟩
    · exact ⟨slotEpochs_remove key, fun _ _ found => lookup_remove_of_eq_some found⟩

theorem insert_spec (memo : ResultMemo) (key : MemoKey) (entry : MemoEntry) :
    (memo.insert key entry).2.slotEpochs = memo.slotEpochs ∧
      ∀ other found, (memo.insert key entry).2.entries.lookup other = some found →
        memo.entries.lookup other = some found ∨ other = key ∧ found = entry := by
  unfold ResultMemo.insert
  dsimp only
  split
  · exact ⟨rfl, fun _ _ found => .inl found⟩
  · split
    · exact ⟨rfl, fun _ _ found => .inl found⟩
    · refine ⟨rfl, fun other found hi => ?_⟩
      by_cases same : other = key
      · subst same
        rw [AList.lookup_insert] at hi
        exact .inr ⟨rfl, (Option.some_inj.mp hi).symm⟩
      · rw [AList.lookup_insert_ne same] at hi
        exact .inl hi

variable {dirty : ResultMemo → SlotKey → ResultMemo}

theorem slotVersion_foldl (moves : ∀ memo slot o, (dirty memo slot).slotVersion o =
      memo.slotVersion o + if o = slot then 1 else 0)
    (slots : List SlotKey) (memo : ResultMemo) (slot : SlotKey) :
    (slots.foldl dirty memo).slotVersion slot = memo.slotVersion slot + slots.count slot := by
  induction slots generalizing memo with
  | nil => rfl
  | cons first slots ih =>
    rw [List.foldl_cons, ih, moves, List.count_cons]
    by_cases same : slot = first
    · simp [same]
      omega
    · simp [same, Ne.symm same]

theorem entries_foldl (keeps : ∀ memo slot, (dirty memo slot).entries = memo.entries)
    (slots : List SlotKey) (memo : ResultMemo) :
    (slots.foldl dirty memo).entries = memo.entries := by
  induction slots generalizing memo with
  | nil => rfl
  | cons first slots ih => rw [List.foldl_cons, ih, keeps]

end Lemmas

end PgCache.Cache.Memo
