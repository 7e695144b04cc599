/- source: cache/memo.rs, cache/serve.rs, cache/writer/cdc/frame.rs,
     cache/writer/cdc/invalidation.rs, cache/writer/eviction.rs
   digest: Captures, lookups, batch flushes and removals interleaved, and when a captured result
     is never served stale. -/
import PgCache.Cache.Memo
import PgCache.Data.Machine

set_option autoImplicit false

namespace PgCache.Cache.MemoRun

open Catalog Data.Keyed Data.Machine Maintenance Memo ResultMemo MemoCapture List SlotKey
open Option hiding mem_map

variable {D R : Type}

structure Queries (D R : Type) where
  result : Fingerprint → D → R
  relations : Fingerprint → List Oid

inductive Bracket where
  | replaying
  | opened (memoActive : Bool)
  | committed (memoActive : Bool)
  deriving DecidableEq

/-- The parties around the store: captures by serve worker, running or between the test of
`finish` and its insert, the queries registered with the writer, the committed rows, and the frame
being replayed. -/
structure MemoSystem (D : Type) where
  memo : ResultMemo
  captures : KeyedMap Nat MemoCapture
  finishing : KeyedMap Nat MemoCapture
  registered : Fingerprint → Bool
  db : D
  pending : D
  frameMemoEvictions : List Fingerprint
  frameRelationOids : List Oid
  bracket : Bracket

def MemoSystem.new (budget : Nat) (db : D) : MemoSystem D :=
  ⟨.new budget, ∅, ∅, fun _ => false, db, db, [], [], .replaying⟩

def bracketSlots (memoActive : Bool) (oids : List Oid) (evictions : List Fingerprint) :
    List SlotKey :=
  (if memoActive then oids.map .relation else []) ++ evictions.map .memo

namespace MemoSystem

variable (s : MemoSystem D)

def memoFrameAccumulate (oid : Oid) (candidates : List Fingerprint) : List Fingerprint :=
  if s.memo.isEmpty then s.frameMemoEvictions
  else s.memo.candidatesMemoizedInto oid candidates s.frameMemoEvictions

def memoBracketBegin : MemoSystem D :=
  let memoActive := !s.memo.isEmpty
  { s with
    memo := (bracketSlots memoActive s.frameRelationOids s.frameMemoEvictions).foldl
      slotDirtyBegin s.memo
    bracket := .opened memoActive }

def memoBracketEnd (memoActive : Bool) : MemoSystem D :=
  { s with
    memo := (bracketSlots memoActive s.frameRelationOids s.frameMemoEvictions).foldl
      slotDirtyEnd s.memo
    frameMemoEvictions := []
    frameRelationOids := []
    bracket := .replaying }

def cacheQueryEvict (fp : Fingerprint) : MemoSystem D :=
  { s with
    memo := (s.memo.slotDirtyBegin (.memo fp)).slotDirtyEnd (.memo fp)
    registered := fun other => s.registered other && other != fp }

def commit [DecidableEq R] (qs : Queries D R) (s : MemoSystem D) (memoActive : Bool) :
    MemoSystem D :=
  let changed fp : Bool :=
    qs.result fp s.pending ≠ qs.result fp s.db
  let outdated (capture : MemoCapture) : MemoCapture :=
    { capture with
      stale := capture.stale || capture.hasRead && changed capture.key.fingerprint }
  { s with
    memo := { s.memo with
      entries := retain (fun key entry =>
        some { entry with stale := entry.stale || changed key.fingerprint }) s.memo.entries }
    captures := retain (fun _ capture => some (outdated capture)) s.captures
    finishing := retain (fun _ capture => some (outdated capture)) s.finishing
    db := s.pending
    bracket := .committed memoActive }

end MemoSystem

inductive MemoEvent (D : Type) where
  /-- a serve worker begins a capture -/
  | start (worker : Nat) (key : MemoKey)
  /-- its query reads the committed rows -/
  | read (worker : Nat)
  | push (worker : Nat) (data : Bytes) (rowDescription : Bool)
  /-- `finish` tests the slots -/
  | finish (worker : Nat)
  /-- and, with nothing held since, inserts -/
  | insert (worker : Nat)
  /-- the serve fails -/
  | abandon (worker : Nat)
  | get (key : MemoKey)
  | gc
  | configure (budget : Nat)
  | register (fp : Fingerprint)
  | evict (fp : Fingerprint)
  /-- a removal that bumps no slot: a failed population, `stale_entries_cleanup` -/
  | drop (fp : Fingerprint)
  /-- one row event of the frame is replayed, mid-frame or at the flush -/
  | row (oid : Oid) (apply : D → D) (candidates : List Fingerprint)
  | truncate (oid : Oid) (apply : D → D)
  /-- `40P01` -/
  | rollback
  | bracketBegin
  | commit
  | bracketEnd

def step [DecidableEq R] (qs : Queries D R) (s : MemoSystem D) : MemoEvent D → Option (MemoSystem D)
  | .start worker key =>
    if s.captures.lookup worker = none ∧ s.finishing.lookup worker = none then
      (start s.memo key (qs.relations key.fingerprint)).map fun capture =>
        { s with captures := s.captures.insert worker capture }
    else none
  | .read worker =>
    (s.captures.lookup worker).bind fun capture =>
      if capture.hasRead then none
      else some { s with
        captures := s.captures.insert worker { capture with hasRead := true } }
  | .push worker data rowDescription =>
    (s.captures.lookup worker).map fun capture =>
      let next :=
        if rowDescription then capture.rowDescriptionPush data else capture.dataPush data
      { s with captures := s.captures.insert worker next }
  | .finish worker =>
    (s.captures.lookup worker).bind fun capture =>
      if capture.hasRead then
        some { s with
          captures := s.captures.erase worker
          finishing :=
            if capture.finishes s.memo then s.finishing.insert worker capture else s.finishing }
      else none
  | .insert worker =>
    (s.finishing.lookup worker).map fun capture =>
      { s with
        memo := (s.memo.insert capture.key capture.entry).2
        finishing := s.finishing.erase worker }
  | .abandon worker => some { s with captures := s.captures.erase worker }
  | .get key => some { s with memo := (s.memo.get key).2 }
  | .gc => some { s with memo := s.memo.gc }
  | .configure budget => some { s with memo := { s.memo with budget } }
  | .register fp =>
    some { s with registered := fun other => s.registered other || other == fp }
  | .evict fp => some (s.cacheQueryEvict fp)
  | .drop fp =>
    some { s with registered := fun other => s.registered other && other != fp }
  | .row oid apply candidates =>
    if s.bracket = .replaying then
      some { s with
        pending := apply s.pending
        frameMemoEvictions := s.memoFrameAccumulate oid candidates
        frameRelationOids := s.frameRelationOids.insert oid }
    else none
  | .truncate oid apply =>
    match s.bracket with
    | .replaying =>
      some { s with
        pending := apply s.pending
        frameRelationOids := s.frameRelationOids.insert oid }
    | .opened _ =>
      if oid ∈ s.frameRelationOids then
        some { s with pending := apply s.pending }
      else none
    | .committed _ => none
  | .rollback => some { s with pending := s.db }
  | .bracketBegin => if s.bracket = .replaying then some s.memoBracketBegin else none
  | .commit =>
    match s.bracket with
    | .opened memoActive => some (s.commit qs memoActive)
    | _ => none
  | .bracketEnd =>
    match s.bracket with
    | .committed memoActive => some (s.memoBracketEnd memoActive)
    | _ => none

def touched (qs : Queries D R) (s : MemoSystem D) (fp : Fingerprint) : Prop :=
  ∃ oid ∈ qs.relations fp, oid ∈ s.frameRelationOids

/-- The schedules on which the store is safe. A row change leaves a query alone that does not read
its relation, and its probe returns every registered query it changes. -/
def Calm (qs : Queries D R) (s : MemoSystem D) : MemoEvent D → Prop
  | .start _ key => s.registered key.fingerprint = true
  | .insert worker =>
    ∀ capture, s.finishing.lookup worker = some capture →
      s.memo.slotsValid capture.entry.stamped = true → touched qs s capture.key.fingerprint →
      s.bracket ≠ .opened true ∧
        (s.bracket = .replaying → capture.key.fingerprint ∈ s.frameMemoEvictions)
  | .drop fp =>
    (∀ key entry, s.memo.entries.lookup key = some entry → key.fingerprint ≠ fp) ∧
      (∀ worker capture, s.captures.lookup worker = some capture → capture.key.fingerprint ≠ fp) ∧
      ∀ worker capture, s.finishing.lookup worker = some capture → capture.key.fingerprint ≠ fp
  | .row oid apply candidates =>
    (∀ fp, oid ∉ qs.relations fp → qs.result fp (apply s.pending) = qs.result fp s.pending) ∧
    ∀ fp, s.registered fp = true → qs.result fp (apply s.pending) ≠ qs.result fp s.pending →
      fp ∈ candidates
  | .truncate oid apply =>
    (∀ fp, oid ∉ qs.relations fp → qs.result fp (apply s.pending) = qs.result fp s.pending) ∧
    ∀ fp, s.registered fp = true → oid ∉ qs.relations fp
  | .commit =>
    (s.bracket = .opened false → (∀ key entry, s.memo.entries.lookup key = some entry →
        ¬touched qs s key.fingerprint) ∧
      ∀ worker capture, s.captures.lookup worker = some capture → capture.hasRead = true →
        ¬touched qs s capture.key.fingerprint) ∧
    ∀ worker capture, s.finishing.lookup worker = some capture →
      s.memo.slotsValid capture.entry.stamped = true → ¬touched qs s capture.key.fingerprint
  | .finish _ | .read _ | .push .. | .abandon _ | .get _ | .gc | .configure _ |
    .register _ | .evict _
  | .rollback | .bracketBegin | .bracketEnd => True

section Invariant

def openSlots (s : MemoSystem D) : List SlotKey :=
  match s.bracket with
  | .replaying => []
  | .opened memoActive | .committed memoActive =>
    bracketSlots memoActive s.frameRelationOids s.frameMemoEvictions

def Settled (qs : Queries D R) (s : MemoSystem D) (fp : Fingerprint) : Prop :=
  s.bracket = .opened false ∨ qs.result fp s.pending = qs.result fp s.db ∨
    s.bracket = .replaying ∧ fp ∈ s.frameMemoEvictions

structure EntryOk (qs : Queries D R) (s : MemoSystem D) (key : MemoKey)
    (entry : MemoEntry) (settled : Prop) : Prop where
  relations : entry.relations = qs.relations key.fingerprint
  stamped : ∃ version, entry.stamped = [(.memo key.fingerprint, version)] ∧
    version % 2 = 0 ∧ version ≤ s.memo.slotVersion (.memo key.fingerprint) ∧
    (entry.stale = true → version < s.memo.slotVersion (.memo key.fingerprint)) ∧
    (version = s.memo.slotVersion (.memo key.fingerprint) →
      s.registered key.fingerprint = true ∧ settled)

structure CaptureOk (qs : Queries D R) (s : MemoSystem D) (capture : MemoCapture) :
    Prop where
  relations : capture.relations = qs.relations capture.key.fingerprint
  slots : capture.stamped.map Prod.fst =
    (qs.relations capture.key.fingerprint).map .relation ++ [.memo capture.key.fingerprint]
  stamped : ∀ stamp ∈ capture.stamped, stamp.2 % 2 = 0 ∧ stamp.2 ≤ s.memo.slotVersion stamp.1
  stale : capture.stale = true → ∃ stamp ∈ capture.stamped, stamp.2 < s.memo.slotVersion stamp.1
  registered : s.memo.slotsValid capture.stamped = true →
    s.registered capture.key.fingerprint = true

structure Inv (qs : Queries D R) (s : MemoSystem D) : Prop where
  oids : s.frameRelationOids.Nodup
  evictions : s.frameMemoEvictions.Nodup
  parity : ∀ slot, s.memo.slotVersion slot % 2 = if slot ∈ openSlots s then 1 else 0
  untouched : ∀ fp, ¬touched qs s fp → qs.result fp s.pending = qs.result fp s.db
  settled : ∀ memoActive, s.bracket = .committed memoActive → s.pending = s.db
  entries : ∀ key entry, s.memo.entries.lookup key = some entry →
    EntryOk qs s key entry (Settled qs s key.fingerprint)
  captures : ∀ worker capture, s.captures.lookup worker = some capture → CaptureOk qs s capture
  finishing : ∀ worker capture, s.finishing.lookup worker = some capture →
    EntryOk qs s capture.key capture.entry True

variable {qs : Queries D R} {s next : MemoSystem D} {key : MemoKey}

theorem inv_new (budget : Nat) (db : D) : Inv qs (MemoSystem.new budget db) where
  oids := nodup_nil
  evictions := nodup_nil
  parity := by simp [openSlots, MemoSystem.new, new, slotVersion]
  untouched _ _ := rfl
  settled _ same := by simp [MemoSystem.new] at same
  entries key entry found := by simp [MemoSystem.new, new] at found
  captures worker capture found := by simp [MemoSystem.new] at found
  finishing worker capture found := by simp [MemoSystem.new] at found

theorem EntryOk.grow {entry : MemoEntry} {settled : Prop} {later : Prop}
    (ok : EntryOk qs s key entry settled)
    (grows : s.memo.slotVersion (.memo key.fingerprint) ≤
      next.memo.slotVersion (.memo key.fingerprint))
    (current : next.memo.slotVersion (.memo key.fingerprint) =
        s.memo.slotVersion (.memo key.fingerprint) →
      s.registered key.fingerprint = true → settled →
      next.registered key.fingerprint = true ∧ later) : EntryOk qs next key entry later := by
  obtain ⟨version, shape, even, le, stale, hv⟩ := ok.stamped
  refine ⟨ok.relations, version, shape, even, le.trans grows,
    fun isStale => (stale isStale).trans_le grows, fun same => ?_⟩
  obtain ⟨known, holds⟩ := hv (by omega)
  exact current (by omega) known holds

theorem EntryOk.keep {entry : MemoEntry} {settled later : Prop}
    (ok : EntryOk qs s key entry settled) (epochs : next.memo.slotEpochs = s.memo.slotEpochs)
    (registered : next.registered = s.registered) (implies : settled → later) :
    EntryOk qs next key entry later := by
  have same : next.memo.slotVersion (.memo key.fingerprint) =
      s.memo.slotVersion (.memo key.fingerprint) := by
    simp only [slotVersion, epochs]
  exact ok.grow same.ge fun _ known holds => ⟨by rw [registered, known], implies holds⟩

variable {capture : MemoCapture} {captures finishing : KeyedMap Nat MemoCapture}

theorem Inv.guard (inv : Inv qs s) (ok : CaptureOk qs s capture)
    (hv : s.memo.slotsValid capture.stamped = true) (active : s.bracket = .opened true) :
    ¬touched qs s capture.key.fingerprint := by
  rintro ⟨oid, reads, inFrame⟩
  obtain ⟨stamp, hm, slot⟩ : ∃ stamp ∈ capture.stamped, stamp.1 = .relation oid := by
    have hk : relation oid ∈ capture.stamped.map Prod.fst := by
      rw [ok.slots]
      simp [reads]
    simpa using hk
  have odd := inv.parity (.relation oid)
  rw [if_pos (by simp [openSlots, active, bracketSlots, inFrame])] at odd
  have same := (slotsValid_iff _).mp hv stamp hm
  have even := (ok.stamped stamp hm).1
  rw [← same, slot] at even
  omega

theorem Inv.withMemo {memo : ResultMemo} (inv : Inv qs s)
    (versions : memo.slotEpochs = s.memo.slotEpochs)
    (entries : ∀ key entry, memo.entries.lookup key = some entry →
      EntryOk qs s key entry (Settled qs s key.fingerprint))
    (running : ∀ worker capture, captures.lookup worker = some capture → CaptureOk qs s capture)
    (checked : ∀ worker capture, finishing.lookup worker = some capture →
      EntryOk qs s capture.key capture.entry True) :
    Inv qs { s with memo, captures, finishing } where
  oids := inv.oids
  evictions := inv.evictions
  parity slot := by
    have parity := inv.parity slot
    simp only [slotVersion, ← versions] at parity
    exact parity
  untouched := inv.untouched
  settled := inv.settled
  entries key entry found := (entries key entry found).keep versions rfl fun holds => holds
  finishing worker capture found :=
    (checked worker capture found).keep versions rfl fun _ => trivial
  captures worker capture found := by
    have ok := running worker capture found
    refine ⟨ok.relations, ok.slots, ?_, ?_, ?_⟩
    · simpa only [slotVersion, versions] using ok.stamped
    · simpa only [slotVersion, versions] using ok.stale
    · intro hv
      refine ok.registered ?_
      rw [slotsValid_iff] at hv ⊢
      simpa only [slotVersion, versions] using hv

theorem captureOk_start (started : start s.memo key (qs.relations key.fingerprint) = some capture)
    (hk : s.registered key.fingerprint = true) : CaptureOk qs s capture := by
  unfold start at started
  split at started
  · obtain ⟨stamped, stamps, rfl⟩ := map_eq_some_iff.mp started
    obtain ⟨rfl, stable⟩ := slotsStamp_eq_some stamps
    refine ⟨rfl, ?_, ?_, by simp, fun _ => hk⟩
    · simp
    · simp only [mem_map]
      rintro stamp ⟨slot, hm, rfl⟩
      exact ⟨stable slot hm, le_rfl⟩
  · cases started

variable (ok : CaptureOk qs s capture)
include ok

theorem CaptureOk.bytes {other : MemoCapture}
    (key : other.key = capture.key) (stamped : other.stamped = capture.stamped)
    (relations : other.relations = capture.relations) (stale : other.stale = capture.stale) :
    CaptureOk qs s other := by
  refine ⟨?_, ?_, ?_, ?_, ?_⟩
  · rw [relations, key, ok.relations]
  · rw [stamped, key, ok.slots]
  · rw [stamped]
    exact ok.stamped
  · rw [stale, stamped]
    exact ok.stale
  · rw [stamped, key]
    exact ok.registered

omit ok in
theorem append_frame (capture : MemoCapture) (data : Bytes) :
    (capture.append data).key = capture.key ∧ (capture.append data).stamped = capture.stamped ∧
      (capture.append data).relations = capture.relations ∧
      (capture.append data).stale = capture.stale := by
  unfold append
  split
  · exact ⟨rfl, rfl, rfl, rfl⟩
  · split <;> exact ⟨rfl, rfl, rfl, rfl⟩

theorem CaptureOk.push (data : Bytes) (rowDescription : Bool) : CaptureOk qs s
      (if rowDescription then capture.rowDescriptionPush data else capture.dataPush data) := by
  obtain ⟨key, stamped, relations, stale⟩ := append_frame capture data
  cases rowDescription with
  | false => exact ok.bytes key stamped relations stale
  | true =>
    simp only [↓reduceIte, rowDescriptionPush]
    split
    · exact ok.bytes key stamped relations stale
    · exact ok.bytes key stamped relations stale

omit ok in
theorem captures_insert {worker : Nat} {P : MemoCapture → Prop}
    (all : ∀ worker capture, captures.lookup worker = some capture → P capture) (ok : P capture) :
    ∀ other found, (captures.insert worker capture).lookup other = some found → P found := by
  intro other found hi
  by_cases same : other = worker
  · subst same
    rw [AList.lookup_insert] at hi
    cases hi
    exact ok
  · rw [AList.lookup_insert_ne same] at hi
    exact all other found hi

omit ok in
theorem captures_erase (worker : Nat) {P : MemoCapture → Prop}
    (all : ∀ worker capture, captures.lookup worker = some capture → P capture) :
    ∀ other found, (captures.erase worker).lookup other = some found → P found := by
  intro other found kept
  by_cases same : other = worker
  · subst same
    rw [AList.lookup_erase] at kept
    cases kept
  · rw [AList.lookup_erase_ne same] at kept
    exact all other found kept

theorem CaptureOk.memoStamp :
    ∃ version, capture.stamped.filter isMemoStamp = [(.memo capture.key.fingerprint, version)] ∧
      (.memo capture.key.fingerprint, version) ∈ capture.stamped := by
  obtain ⟨guards, own, split, guardSlots, ownSlot⟩ := map_eq_append_iff.mp ok.slots
  obtain ⟨stamp, rest, rfl, slot, nil⟩ := map_eq_cons_iff.mp ownSlot
  obtain rfl : rest = [] := map_eq_nil_iff.mp nil
  obtain ⟨key, version⟩ := stamp
  obtain rfl : key = .memo capture.key.fingerprint := slot
  refine ⟨version, ?_, by simp [split]⟩
  have none : guards.filter isMemoStamp = [] := by
    refine filter_eq_nil_iff.mpr fun stamp hm isMemo => ?_
    have hk : stamp.1 ∈ (qs.relations capture.key.fingerprint).map relation := by
      rw [← guardSlots]
      exact mem_map_of_mem hm
    obtain ⟨oid, -, same⟩ := mem_map.mp hk
    obtain ⟨key, version⟩ := stamp
    cases same
    cases isMemo
  rw [split, filter_append, none]
  rfl

theorem CaptureOk.entry (passes : capture.finishes s.memo = true) :
    EntryOk qs s capture.key capture.entry True := by
  obtain ⟨-, hv⟩ := Bool.and_eq_true_iff.mp passes
  have current := (slotsValid_iff _).mp hv
  obtain ⟨version, own, hm⟩ := ok.memoStamp
  refine ⟨ok.relations, version, own, (ok.stamped _ hm).1, (ok.stamped _ hm).2, fun stale => ?_,
    fun _ => ⟨ok.registered hv, trivial⟩⟩
  obtain ⟨stamp, there, behind⟩ := ok.stale stale
  have he := current stamp there
  omega

omit ok in
theorem Inv.finish (inv : Inv qs s) {worker : Nat} (hf : s.captures.lookup worker = some capture) :
    Inv qs { s with
      captures := s.captures.erase worker
      finishing :=
        if capture.finishes s.memo then s.finishing.insert worker capture else s.finishing } := by
  have running := captures_erase worker inv.captures
  split
  · rename_i passes
    exact inv.withMemo rfl inv.entries running
      (captures_insert inv.finishing ((inv.captures worker capture hf).entry passes))
  · exact inv.withMemo rfl inv.entries running inv.finishing

omit ok in
theorem slotsValid_entry {entry : MemoEntry} {version : Nat}
    (shape : entry.stamped = [(.memo key.fingerprint, version)])
    (same : version = s.memo.slotVersion (.memo key.fingerprint)) :
    s.memo.slotsValid entry.stamped = true := by
  refine (slotsValid_iff _).mpr fun stamp inside => ?_
  rw [shape, mem_singleton] at inside
  rw [inside, same]

omit ok in
theorem Inv.insert (inv : Inv qs s) {worker : Nat} (hf : s.finishing.lookup worker = some capture)
    (calm : Calm qs s (.insert worker)) :
    Inv qs { s with
      memo := (s.memo.insert capture.key capture.entry).2
      finishing := s.finishing.erase worker } := by
  have ok := inv.finishing worker capture hf
  obtain ⟨epochs, kept⟩ := insert_spec s.memo capture.key capture.entry
  refine inv.withMemo epochs (fun key e stored => ?_) inv.captures
    (captures_erase worker inv.finishing)
  rcases kept key e stored with old | ⟨rfl, rfl⟩
  · exact inv.entries key e old
  · obtain ⟨version, shape, even, le, stale, hv⟩ := ok.stamped
    refine ⟨ok.relations, version, shape, even, le, stale, fun same => ⟨(hv same).1, ?_⟩⟩
    by_cases reads : touched qs s capture.key.fingerprint
    · obtain ⟨inactive, replayed⟩ := calm capture hf (slotsValid_entry shape same) reads
      cases bracket : s.bracket with
      | replaying => exact .inr (.inr ⟨bracket, replayed bracket⟩)
      | opened memoActive =>
        cases memoActive with
        | false => exact .inl bracket
        | true => exact absurd bracket inactive
      | committed memoActive => exact .inr (.inl (by rw [inv.settled memoActive bracket]))
    · exact .inr (.inl (inv.untouched _ reads))

omit ok in
theorem Inv.withRegistered {registered : Fingerprint → Bool} (inv : Inv qs s)
    (entries : ∀ key entry, s.memo.entries.lookup key = some entry →
      s.registered key.fingerprint = true → registered key.fingerprint = true)
    (running : ∀ worker capture, s.captures.lookup worker = some capture →
      s.registered capture.key.fingerprint = true →
      registered capture.key.fingerprint = true)
    (checked : ∀ worker capture, s.finishing.lookup worker = some capture →
      s.registered capture.key.fingerprint = true →
      registered capture.key.fingerprint = true) :
    Inv qs { s with registered } where
  oids := inv.oids
  evictions := inv.evictions
  parity := inv.parity
  untouched := inv.untouched
  settled := inv.settled
  entries key entry found := (inv.entries key entry found).grow le_rfl
    fun _ known holds => ⟨entries key entry found known, holds⟩
  finishing worker capture found := (inv.finishing worker capture found).grow le_rfl
    fun _ known _ => ⟨checked worker capture found known, trivial⟩
  captures worker capture found := by
    have ok := inv.captures worker capture found
    exact ⟨ok.relations, ok.slots, ok.stamped, ok.stale, fun hv =>
      running worker capture found (ok.registered hv)⟩

theorem CaptureOk.grow (grows : ∀ slot, s.memo.slotVersion slot ≤ next.memo.slotVersion slot)
    (registered : next.memo.slotsValid capture.stamped = true →
      s.registered capture.key.fingerprint = true →
      next.registered capture.key.fingerprint = true) : CaptureOk qs next capture where
  relations := ok.relations
  slots := ok.slots
  stamped stamp inside :=
    ⟨(ok.stamped stamp inside).1, (ok.stamped stamp inside).2.trans (grows stamp.1)⟩
  stale isStale := by
    obtain ⟨stamp, inside, behind⟩ := ok.stale isStale
    exact ⟨stamp, inside, behind.trans_le (grows stamp.1)⟩
  registered valid := by
    refine registered valid (ok.registered ((slotsValid_iff _).mpr fun stamp inside => ?_))
    have same := (slotsValid_iff _).mp valid stamp inside
    have bound := (ok.stamped stamp inside).2
    have more := grows stamp.1
    omega

omit ok

variable (inv : Inv qs s)
include inv

theorem Inv.evict (fp : Fingerprint) : Inv qs (s.cacheQueryEvict fp) := by
  have version : ∀ slot, (s.cacheQueryEvict fp).memo.slotVersion slot =
      s.memo.slotVersion slot + if slot = .memo fp then 2 else 0 := by
    intro slot
    simp only [MemoSystem.cacheQueryEvict, slotVersion_end, slotVersion_begin]
    split <;> rfl
  have kept : ∀ other, other ≠ fp →
      (s.cacheQueryEvict fp).registered other = s.registered other := by
    intro other different
    simp [MemoSystem.cacheQueryEvict, different]
  have grow : ∀ {key : MemoKey} {entry : MemoEntry} {settled : Prop},
      EntryOk qs s key entry settled → EntryOk qs (s.cacheQueryEvict fp) key entry settled := by
    intro key entry settled ok
    refine ok.grow (by rw [version]; omega) fun same known current => ?_
    have other : key.fingerprint ≠ fp := by
      rintro rfl
      rw [version, if_pos rfl] at same
      omega
    rw [kept _ other]
    exact ⟨known, current⟩
  refine ⟨inv.oids, inv.evictions, ?_, inv.untouched, inv.settled,
    fun key entry found => grow (inv.entries key entry found), ?_,
    fun worker capture found => grow (inv.finishing worker capture found)⟩
  · intro slot
    have parity := inv.parity slot
    rw [version, Nat.add_mod]
    have even : (if slot = memo fp then 2 else 0) % 2 = 0 := by split <;> rfl
    rw [even, Nat.add_zero, Nat.mod_mod]
    exact parity
  · intro worker capture found
    have ok := inv.captures worker capture found
    refine ok.grow (fun slot => by rw [version]; omega) fun hv known => ?_
    have other : capture.key.fingerprint ≠ fp := by
      intro own
      obtain ⟨stamp, -, inside⟩ := ok.memoStamp
      have same := (slotsValid_iff _).mp hv _ inside
      have bound := (ok.stamped _ inside).2
      rw [version, if_pos (by rw [own])] at same
      simp only at same bound
      omega
    rw [kept _ other]
    exact known

theorem Inv.withFrame {pending : D} {oids : List Oid} {evictions : List Fingerprint}
    (nodupOids : oids.Nodup) (nodupEvictions : evictions.Nodup)
    (slots : openSlots { s with
      pending, frameMemoEvictions := evictions, frameRelationOids := oids } = openSlots s)
    (untouched : ∀ fp, (∀ oid ∈ qs.relations fp, oid ∉ oids) →
      qs.result fp pending = qs.result fp s.db)
    (settled : ∀ memoActive, s.bracket = .committed memoActive → pending = s.db)
    (more : ∀ fp ∈ s.frameMemoEvictions, fp ∈ evictions)
    (covered : ∀ key entry, s.memo.entries.lookup key = some entry →
      s.registered key.fingerprint = true →
      qs.result key.fingerprint pending = qs.result key.fingerprint s.pending ∨
        s.bracket = .replaying ∧ key.fingerprint ∈ evictions) :
    Inv qs { s with
      pending, frameMemoEvictions := evictions, frameRelationOids := oids } where
  oids := nodupOids
  evictions := nodupEvictions
  parity slot := by
    rw [slots]
    exact inv.parity slot
  untouched fp free := untouched fp fun oid reads inside =>
    free ⟨oid, reads, inside⟩
  settled := settled
  entries key entry found := by
    have ok := inv.entries key entry found
    obtain ⟨version, shape, even, le, stale, hv⟩ := ok.stamped
    refine ⟨ok.relations, version, shape, even, le, stale, fun same => ?_⟩
    obtain ⟨known, fresh⟩ := hv same
    refine ⟨known, ?_⟩
    rcases covered key entry found known with unchanged | ⟨replaying, evicted⟩
    · rcases fresh with inactive | equal | ⟨replaying, evicted⟩
      · exact .inl inactive
      · exact .inr (.inl (unchanged.trans equal))
      · exact .inr (.inr ⟨replaying, more _ evicted⟩)
    · exact .inr (.inr ⟨replaying, evicted⟩)
  captures worker capture found := by
    have ok := inv.captures worker capture found
    exact ⟨ok.relations, ok.slots, ok.stamped, ok.stale, ok.registered⟩
  finishing worker capture found := (inv.finishing worker capture found).keep rfl rfl id

theorem Inv.row {oid : Oid} {apply : D → D}
    {candidates : List Fingerprint} (replaying : s.bracket = .replaying)
    (calm : Calm qs s (.row oid apply candidates)) :
    Inv qs { s with
      pending := apply s.pending
      frameMemoEvictions := s.memoFrameAccumulate oid candidates
      frameRelationOids := s.frameRelationOids.insert oid } := by
  obtain ⟨local_, complete⟩ := calm
  have mem : ∀ fp, fp ∈ s.memoFrameAccumulate oid candidates ↔ fp ∈ s.frameMemoEvictions ∨
        fp ∈ candidates ∧ s.memo.memoized oid fp = true := by
    intro fp
    unfold MemoSystem.memoFrameAccumulate
    split
    · rename_i empty
      simp [not_memoized_of_isEmpty empty]
    · exact mem_candidatesMemoizedInto ..
  refine inv.withFrame inv.oids.insert ?_ ?_ ?_ ?_ ?_ ?_
  · unfold MemoSystem.memoFrameAccumulate
    split
    · exact inv.evictions
    · exact nodup_candidatesMemoizedInto _ _ inv.evictions
  · simp [openSlots, replaying]
  · intro fp free
    have unread : oid ∉ qs.relations fp := fun reads => free oid reads (by simp)
    rw [local_ fp unread]
    refine inv.untouched fp ?_
    rintro ⟨o, reads, hm⟩
    exact free o reads (mem_insert_of_mem hm)
  · intro memoActive committed
    rw [replaying] at committed
    cases committed
  · exact fun fp hm => (mem fp).mpr (.inl hm)
  · intro key e hf hk
    by_cases same : qs.result key.fingerprint (apply s.pending) =
        qs.result key.fingerprint s.pending
    · exact .inl same
    · have reads : oid ∈ qs.relations key.fingerprint := by
        by_contra unread
        exact same (local_ _ unread)
      refine .inr ⟨replaying, (mem _).mpr (.inr ⟨complete _ hk same, ?_⟩)⟩
      refine (any_iff _ _).mpr ⟨key, e, hf, ?_⟩
      simpa [(inv.entries key e hf).relations] using reads

theorem Inv.truncate {oid : Oid} {apply : D → D}
    {oids : List Oid} (calm : Calm qs s (.truncate oid apply))
    (open_ : ∀ memoActive, s.bracket ≠ .committed memoActive) (nodup : oids.Nodup)
    (slots : openSlots { s with pending := apply s.pending, frameRelationOids := oids } =
      openSlots s) (hm : oid ∈ oids) (more : ∀ o ∈ s.frameRelationOids, o ∈ oids) :
    Inv qs { s with pending := apply s.pending, frameRelationOids := oids } := by
  obtain ⟨local_, unread⟩ := calm
  refine inv.withFrame nodup inv.evictions slots ?_ ?_ (fun _ hm => hm) ?_
  · intro fp free
    rw [local_ fp fun reads => free oid reads hm]
    refine inv.untouched fp ?_
    rintro ⟨o, reads, there⟩
    exact free o reads (more o there)
  · exact fun memoActive committed => absurd committed (open_ memoActive)
  · exact fun key e _ hk => .inl (local_ _ (unread _ hk))

omit inv

theorem count_le_one {slots : List SlotKey} (nodup : slots.Nodup) (slot : SlotKey) :
    slots.count slot = if slot ∈ slots then 1 else 0 := by
  split
  · rename_i hm
    exact count_eq_one_of_mem nodup hm
  · rename_i outside
    exact count_eq_zero_of_not_mem outside

variable (inv : Inv qs s)
include inv

theorem nodup_bracketSlots (memoActive : Bool) :
    (bracketSlots memoActive s.frameRelationOids s.frameMemoEvictions).Nodup := by
  have relations : (s.frameRelationOids.map relation).Nodup :=
    inv.oids.map fun _ _ same => relation.inj same
  have memos : (s.frameMemoEvictions.map memo).Nodup :=
    inv.evictions.map fun _ _ same => memo.inj same
  unfold bracketSlots
  refine List.Nodup.append ?_ memos ?_
  · split
    · exact relations
    · exact nodup_nil
  · intro slot left right
    obtain ⟨fp, -, rfl⟩ := mem_map.mp right
    split at left <;> simp at left

theorem Inv.bracketBegin (replaying : s.bracket = .replaying) : Inv qs s.memoBracketBegin := by
  have none : openSlots s = [] := by simp [openSlots, replaying]
  have version : ∀ slot, s.memoBracketBegin.memo.slotVersion slot =
      s.memo.slotVersion slot + if slot ∈ openSlots s.memoBracketBegin then 1 else 0 := by
    intro slot
    rw [MemoSystem.memoBracketBegin, slotVersion_foldl slotVersion_begin,
      count_le_one (nodup_bracketSlots inv _)]
    rfl
  have keeps : ∀ (memo : ResultMemo) slot, (memo.slotDirtyBegin slot).entries = memo.entries :=
    fun _ _ => rfl
  have entriesSame : s.memoBracketBegin.memo.entries = s.memo.entries :=
    entries_foldl keeps _ _
  refine ⟨inv.oids, inv.evictions, ?_, inv.untouched, by simp [MemoSystem.memoBracketBegin], ?_, ?_,
    fun worker capture found => (inv.finishing worker capture found).grow (by rw [version]; omega)
      fun _ known holds => ⟨known, holds⟩⟩
  · intro slot
    have parity := inv.parity slot
    rw [none] at parity
    simp only [not_mem_nil, ↓reduceIte] at parity
    rw [version]
    split <;> omega
  · intro key e hf
    rw [entriesSame] at hf
    refine (inv.entries key e hf).grow (by rw [version]; omega) fun same hk current => ?_
    have outside : memo key.fingerprint ∉ openSlots s.memoBracketBegin := by
      intro hm
      rw [version, if_pos hm] at same
      omega
    refine ⟨hk, ?_⟩
    rcases current with inactive | he | ⟨-, evicted⟩
    · rw [replaying] at inactive
      cases inactive
    · exact .inr (.inl he)
    · refine absurd ?_ outside
      simp [openSlots, MemoSystem.memoBracketBegin, bracketSlots, evicted]
  · intro worker capture hf
    exact (inv.captures worker capture hf).grow (fun slot => by rw [version]; omega) fun _ hk => hk

theorem Inv.bracketEnd {memoActive : Bool} (committed : s.bracket = .committed memoActive) :
    Inv qs (s.memoBracketEnd memoActive) := by
  have version : ∀ slot, (s.memoBracketEnd memoActive).memo.slotVersion slot =
      s.memo.slotVersion slot + if slot ∈ openSlots s then 1 else 0 := by
    intro slot
    rw [MemoSystem.memoBracketEnd, slotVersion_foldl slotVersion_end,
      count_le_one (nodup_bracketSlots inv _)]
    simp only [openSlots, committed]
  have keeps : ∀ (memo : ResultMemo) slot, (memo.slotDirtyEnd slot).entries = memo.entries :=
    fun _ _ => rfl
  have settled := inv.settled memoActive committed
  refine ⟨nodup_nil, nodup_nil, ?_, ?_, by simp [MemoSystem.memoBracketEnd], ?_, ?_,
    fun worker capture found => (inv.finishing worker capture found).grow (by rw [version]; omega)
      fun _ known holds => ⟨known, holds⟩⟩
  · intro slot
    have parity := inv.parity slot
    have none : openSlots (s.memoBracketEnd memoActive) = [] := rfl
    rw [version, none, if_neg not_mem_nil]
    split at parity <;> simp only [*, ↓reduceIte] <;> omega
  · intro fp _
    simp only [MemoSystem.memoBracketEnd, settled]
  · intro key e hf
    rw [MemoSystem.memoBracketEnd, entries_foldl keeps] at hf
    refine (inv.entries key e hf).grow (by rw [version]; omega) fun _ hk _ => ?_
    exact ⟨hk, .inr (.inl (by simp only [MemoSystem.memoBracketEnd, settled]))⟩
  · intro worker capture hf
    exact (inv.captures worker capture hf).grow (fun slot => by rw [version]; omega) fun _ hk => hk

theorem Inv.commit [DecidableEq R] {memoActive : Bool}
    (isOpen : s.bracket = .opened memoActive) (calm : Calm qs s .commit) :
    Inv qs (s.commit qs memoActive) := by
  refine ⟨inv.oids, inv.evictions, ?_, fun _ _ => rfl, fun _ _ => rfl, ?_, ?_, ?_⟩
  · intro slot
    have parity := inv.parity slot
    simp only [openSlots, isOpen] at parity
    exact parity
  · intro key e hf
    obtain ⟨old, there, same⟩ := (lookup_retain _ _ _ _).mp hf
    cases same
    have ok := inv.entries key old there
    obtain ⟨version, shape, even, le, stale, hv⟩ := ok.stamped
    refine ⟨ok.relations, version, shape, even, le, fun isStale => ?_, fun he =>
      ⟨(hv he).1, .inr (.inl rfl)⟩⟩
    rcases Bool.or_eq_true_iff.mp isStale with hb | now
    · exact stale hb
    · refine lt_of_le_of_ne le fun he => ?_
      have changed := of_decide_eq_true now
      rcases (hv he).2 with inactive | unchanged | ⟨replaying, -⟩
      · exact changed (inv.untouched _ ((calm.1 inactive).1 key old there))
      · exact changed unchanged
      · rw [isOpen] at replaying
        cases replaying
  · intro worker capture hf
    obtain ⟨old, there, same⟩ := (lookup_retain _ _ _ _).mp hf
    cases same
    have ok := inv.captures worker old there
    refine ⟨ok.relations, ok.slots, ok.stamped, fun isStale => ?_, ok.registered⟩
    rcases Bool.or_eq_true_iff.mp isStale with hb | now
    · exact ok.stale hb
    · obtain ⟨hasRead, changed⟩ := Bool.and_eq_true_iff.mp now
      have changed := of_decide_eq_true changed
      by_contra current
      have hv : s.memo.slotsValid old.stamped = true := by
        refine (slotsValid_iff _).mpr fun stamp hm => ?_
        have b := (ok.stamped stamp hm).2
        by_contra different
        exact current ⟨stamp, hm, lt_of_le_of_ne b (Ne.symm different)⟩
      cases memoActive with
      | true => exact changed (inv.untouched _ (inv.guard ok hv isOpen))
      | false => exact changed (inv.untouched _ ((calm.1 isOpen).2 worker old there hasRead))
  · intro worker capture hf
    obtain ⟨old, there, same⟩ := (lookup_retain _ _ _ _).mp hf
    cases same
    have ok := inv.finishing worker old there
    obtain ⟨version, shape, even, le, stale, hv⟩ := ok.stamped
    refine ⟨ok.relations, version, shape, even, le, fun isStale => ?_, hv⟩
    rcases Bool.or_eq_true_iff.mp isStale with hb | now
    · exact stale hb
    · have changed := of_decide_eq_true (Bool.and_eq_true_iff.mp now).2
      exact lt_of_le_of_ne le fun he => changed (inv.untouched _
        (calm.2 worker old there (slotsValid_entry shape he)))

theorem Inv.step [DecidableEq R] {event : MemoEvent D}
    (calm : Calm qs s event) (stepped : step qs s event = some next) :
    Inv qs next := by
  cases event with
  | start worker key =>
    obtain ⟨-, begun⟩ := ite_none_right_eq_some.mp stepped
    obtain ⟨capture, started, rfl⟩ := map_eq_some_iff.mp begun
    exact inv.withMemo rfl inv.entries
      (captures_insert inv.captures (captureOk_start started calm)) inv.finishing
  | read worker =>
    obtain ⟨capture, found, reads⟩ := bind_eq_some_iff.mp stepped
    obtain ⟨-, equal⟩ := ite_none_left_eq_some.mp reads
    cases equal
    have ok := inv.captures worker capture found
    exact inv.withMemo rfl inv.entries
      (captures_insert inv.captures (ok.bytes rfl rfl rfl rfl)) inv.finishing
  | push worker data rowDescription =>
    obtain ⟨capture, found, rfl⟩ := map_eq_some_iff.mp stepped
    have ok := (inv.captures worker capture found).push data rowDescription
    exact inv.withMemo rfl inv.entries (captures_insert inv.captures ok) inv.finishing
  | finish worker =>
    obtain ⟨capture, found, ends⟩ := bind_eq_some_iff.mp stepped
    obtain ⟨-, ⟨⟩⟩ := ite_none_right_eq_some.mp ends
    exact inv.finish found
  | insert worker =>
    obtain ⟨capture, found, rfl⟩ := map_eq_some_iff.mp stepped
    exact inv.insert found calm
  | abandon worker =>
    cases stepped
    exact inv.withMemo rfl inv.entries (captures_erase worker inv.captures) inv.finishing
  | get key =>
    cases stepped
    obtain ⟨epochs, kept⟩ := get_spec s.memo key
    exact inv.withMemo epochs
      (fun other entry found => inv.entries other entry (kept other entry found))
      inv.captures inv.finishing
  | gc =>
    cases stepped
    obtain ⟨epochs, kept⟩ := gc_spec s.memo
    exact inv.withMemo epochs
      (fun other entry found => inv.entries other entry (kept other entry found))
      inv.captures inv.finishing
  | configure budget =>
    cases stepped
    exact inv.withMemo rfl inv.entries inv.captures inv.finishing
  | register fp =>
    cases stepped
    refine inv.withRegistered (fun _ _ _ known => ?_) (fun _ _ _ known => ?_)
      fun _ _ _ known => ?_ <;> simp [known]
  | evict fp =>
    cases stepped
    exact inv.evict fp
  | drop fp =>
    cases stepped
    obtain ⟨entries, running, checked⟩ := calm
    refine inv.withRegistered (fun key entry found known => ?_)
      (fun worker capture found known => ?_) fun worker capture found known => ?_
    · simpa [known] using entries key entry found
    · simpa [known] using running worker capture found
    · simpa [known] using checked worker capture found
  | row oid apply candidates =>
    obtain ⟨replaying, ⟨⟩⟩ := ite_none_right_eq_some.mp stepped
    exact inv.row replaying calm
  | truncate oid apply =>
    simp only [MemoRun.step] at stepped
    split at stepped
    · rename_i replaying
      cases stepped
      exact inv.truncate calm (by simp [replaying]) inv.oids.insert (by simp [openSlots, replaying])
        (by simp) fun other inside => mem_insert_of_mem inside
    · rename_i memoActive isOpen
      obtain ⟨inside, ⟨⟩⟩ := ite_none_right_eq_some.mp stepped
      exact inv.truncate calm (by simp [isOpen]) inv.oids (by simp [openSlots, isOpen]) inside
        fun _ there => there
    · cases stepped
  | rollback =>
    cases stepped
    refine ⟨inv.oids, inv.evictions, inv.parity, fun _ _ => rfl, fun _ _ => rfl, ?_, ?_,
      fun worker capture found => (inv.finishing worker capture found).keep rfl rfl id⟩
    · intro key entry found
      exact (inv.entries key entry found).grow le_rfl fun _ known _ => ⟨known, .inr (.inl rfl)⟩
    · intro worker capture found
      exact (inv.captures worker capture found).grow (fun _ => le_rfl) fun _ known => known
  | bracketBegin =>
    obtain ⟨replaying, ⟨⟩⟩ := ite_none_right_eq_some.mp stepped
    exact inv.bracketBegin replaying
  | commit =>
    simp only [MemoRun.step] at stepped
    split at stepped
    · rename_i memoActive isOpen
      cases stepped
      exact inv.commit isOpen calm
    · cases stepped
  | bracketEnd =>
    simp only [MemoRun.step] at stepped
    split at stepped
    · rename_i memoActive committed
      cases stepped
      exact inv.bracketEnd committed
    · cases stepped

omit inv

/-- A result that is served was read after the last commit that changed it. -/
theorem memo_hit_fresh [DecidableEq R] (qs : Queries D R) (budget : Nat) (db : D)
    (events : List (MemoEvent D))
    (calm : Allowed (step qs) (Calm qs) (.new budget db) events)
    (ran : runs (step qs) (.new budget db) events = some s)
    (key : MemoKey) (hit : MemoHit) (served : (s.memo.get key).1 = some hit) :
    ∃ entry, s.memo.entries.lookup key = some entry ∧
      hit = ⟨entry.core, entry.rdLen⟩ ∧ entry.stale = false := by
  have inv : Inv qs s :=
    runs_invariant (fun _ _ _ holds allowed stepped => holds.step allowed stepped)
      (inv_new budget db) calm ran
  unfold ResultMemo.get at served
  split at served
  · cases served
  · rename_i entry found
    split at served
    · rename_i valid
      refine ⟨entry, found, (some_inj.mp served).symm, ?_⟩
      obtain ⟨version, shape, -, -, stale, -⟩ := (inv.entries key entry found).stamped
      have same := (slotsValid_iff _).mp valid (.memo key.fingerprint, version) (by simp [shape])
      cases old : entry.stale with
      | false => rfl
      | true =>
        have behind := stale old
        simp only at same
        omega
    · cases served

end Invariant

def oneNumber : Queries Nat Nat := ⟨fun _ db => db, fun _ => [1]⟩

def wholeKey : MemoKey := ⟨0, false, ⟨none, none⟩⟩

/-- The store is empty, so the flush brackets nothing: a capture that read before the commit and
finishes after it is stored, and served with the old rows. -/
theorem empty_store_serves_stale : ∃ events : List (MemoEvent Nat), ∃ s entry,
      runs (step oneNumber) (.new 100 0) events = some s ∧
      (s.memo.get wholeKey).1 = some ⟨entry.core, entry.rdLen⟩ ∧
      s.memo.entries.lookup wholeKey = some entry ∧ entry.stale = true := by
  let events : List (MemoEvent Nat) := [.register 0, .start 7 wholeKey, .read 7, .row 1 (· + 1) [0],
    .bracketBegin, .commit, .bracketEnd, .push 7 [1] true, .finish 7, .insert 7]
  refine ⟨events, _, ⟨[1], 1, [(.memo 0, 0)], [1], true⟩, rfl, ?_, ?_, rfl⟩ <;> decide

theorem quiet_capture_served : ∃ s entry, runs (step oneNumber) (.new 100 0)
        [.register 0, .start 7 wholeKey, .read 7, .push 7 [1] true, .finish 7, .insert 7] = some s ∧
      s.memo.entries.lookup wholeKey = some entry ∧
      (⟨[1], 1⟩ : MemoHit) = ⟨entry.core, entry.rdLen⟩ ∧ entry.stale = false := by
  have calm : Allowed (step oneNumber) (Calm oneNumber) (.new 100 0)
      [.register 0, .start 7 wholeKey, .read 7, .push 7 [1] true, .finish 7, .insert 7] := by
    refine .cons rfl trivial (.cons rfl rfl (.cons rfl trivial (.cons rfl trivial
      (.cons rfl trivial (.cons rfl ?_ trivial)))))
    rintro capture - - ⟨oid, -, inside⟩
    cases inside
  obtain ⟨entry, found, same, fresh⟩ :=
    memo_hit_fresh oneNumber 100 0 _ calm rfl wholeKey ⟨[1], 1⟩ (by decide)
  exact ⟨_, entry, rfl, found, same, fresh⟩

end PgCache.Cache.MemoRun
