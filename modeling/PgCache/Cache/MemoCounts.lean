/- source: cache/memo.rs
   digest: The calls on the memo store access by access, in any interleaving of their threads: what
     the reference counts and the byte count say of the stored results. -/
import PgCache.Cache.Memo

set_option autoImplicit false

namespace PgCache.Cache.MemoCounts

open Catalog Data.Keyed Maintenance Memo List

inductive Access where
  | relIncr (oid : Oid) (fp : Fingerprint)
  | relDecr (oid : Oid) (fp : Fingerprint)
  | entriesInsert (key : MemoKey) (entry : MemoEntry)
  | entriesRemove (key : MemoKey)
  | bytesAdd (size : Nat)
  | bytesSub (size : Nat)

/-- The store, and what each call has still to do. A count of zero is an absent one. -/
structure Store where
  entries : KeyedMap MemoKey MemoEntry
  relationFingerprints : Oid → Fingerprint → Nat
  totalBytes : Nat
  calls : List (List Access)

def insertCall (key : MemoKey) (entry : MemoEntry) : List Access :=
  entry.relations.map (.relIncr · key.fingerprint) ++
    [.entriesInsert key entry, .bytesAdd entry.size]

def reclaim (key : MemoKey) (entry : Option MemoEntry) : List Access :=
  entry.elim [] fun entry =>
    .bytesSub entry.size :: entry.relations.map (.relDecr · key.fingerprint)

namespace Store

variable (s : Store)

def new : Store := ⟨∅, fun _ _ => 0, 0, []⟩

def countModify (oid : Oid) (fp : Fingerprint) (change : Nat → Nat) : Store :=
  { s with
    relationFingerprints := fun o f =>
      if oid = o ∧ fp = f then change (s.relationFingerprints o f) else s.relationFingerprints o f }

def access : Access → Store × List Access
  | .relIncr oid fp => (s.countModify oid fp (· + 1), [])
  | .relDecr oid fp => (s.countModify oid fp (· - 1), [])
  | .entriesInsert key entry =>
    ({ s with entries := s.entries.insert key entry }, reclaim key (s.entries.lookup key))
  | .entriesRemove key =>
    ({ s with entries := s.entries.erase key }, reclaim key (s.entries.lookup key))
  | .bytesAdd size => ({ s with totalBytes := (s.totalBytes + size) % 2 ^ 64 }, [])
  | .bytesSub size =>
    ({ s with totalBytes := (s.totalBytes + (2 ^ 64 - size % 2 ^ 64)) % 2 ^ 64 }, [])

end Store

inductive Event where
  | insert (key : MemoKey) (entry : MemoEntry)
  /-- `remove`, or the removal of a stale entry in `get` -/
  | remove (key : MemoKey)
  /-- the next access of a call -/
  | access (call : Nat)

def step (s : Store) : Event → Store
  | .insert key entry =>
    if maxMemoEntryBytes < entry.size then s
    else { s with calls := s.calls ++ [insertCall key entry] }
  | .remove key => { s with calls := s.calls ++ [[.entriesRemove key]] }
  | .access call =>
    match s.calls[call]? with
    | some (first :: rest) =>
      let (next, more) := s.access first
      { next with calls := s.calls.set call (more ++ rest) }
    | _ => s

/-! ### Sums over the calls and over the entries -/

def pending (weight : Access → Nat) (calls : List (List Access)) : Nat :=
  (calls.flatten.map weight).sum

def stored (weight : MemoKey → MemoEntry → Nat) (entries : KeyedMap MemoKey MemoEntry) : Nat :=
  (entries.entries.map fun entry => weight entry.1 entry.2).sum

section Sums

variable {calls : List (List Access)} {call : Nat} {first : Access} {rest : List Access}
  (more : List Access) (weight : Access → Nat) (value : MemoKey → MemoEntry → Nat) (key : MemoKey)
  (entries : KeyedMap MemoKey MemoEntry)

theorem pending_set (running : calls[call]? = some (first :: rest)) :
    pending weight (calls.set call (more ++ rest)) + weight first =
      pending weight calls + (more.map weight).sum := by
  induction calls generalizing call with
  | nil => cases running
  | cons head tail ih =>
    cases call with
    | zero =>
      obtain rfl : head = first :: rest := by simpa using running
      simp [pending]
      omega
    | succ call =>
      have later := ih (by simpa using running : tail[call]? = some (first :: rest))
      simp [pending] at later ⊢
      omega

theorem stored_erase :
    stored value entries = stored value (entries.erase key) +
      ((entries.lookup key).map (value key)).getD 0 := by
  cases found : entries.lookup key with
  | none => simp [erase_of_absent entries key found]
  | some entry =>
    rw [stored, ((entries_perm_erase entries key entry found).map _).sum_nat, map_cons, sum_cons,
      Nat.add_comm]
    rfl

theorem stored_insert (entry : MemoEntry) : stored value (entries.insert key entry) =
    stored value (entries.erase key) + value key entry :=
  Nat.add_comm _ _

end Sums

/-! ### The invariant -/

section Balance

variable (oid : Oid) (fp : Fingerprint)

def times (key : MemoKey) (entry : MemoEntry) : Nat :=
  if key.fingerprint = fp then entry.relations.count oid else 0

def bytes (_ : MemoKey) (entry : MemoEntry) : Nat := entry.size

def incrs : Access → Nat
  | .relIncr o f => if o = oid ∧ f = fp then 1 else 0
  | _ => 0

def decrs : Access → Nat
  | .relDecr o f => if o = oid ∧ f = fp then 1 else 0
  | .entriesInsert key entry => times oid fp key entry
  | _ => 0

def adds : Access → Nat
  | .bytesAdd size => size
  | _ => 0

def subs : Access → Nat
  | .bytesSub size => size
  | .entriesInsert key entry => bytes key entry
  | _ => 0

def Guarded : List Access → Prop
  | [] => True
  | first :: rest => (∀ oid fp, ((first :: rest).map (incrs oid fp)).sum ≤
      ((first :: rest).map (decrs oid fp)).sum) ∧ Guarded rest

end Balance

structure Balanced (s : Store) : Prop where
  counts : ∀ oid fp, s.relationFingerprints oid fp + pending (incrs oid fp) s.calls =
    stored (times oid fp) s.entries + pending (decrs oid fp) s.calls
  total : (s.totalBytes + pending adds s.calls) % 2 ^ 64 =
    (stored bytes s.entries + pending subs s.calls) % 2 ^ 64
  guarded : ∀ call ∈ s.calls, Guarded call

variable {s : Store} {rest : List Access} {first : Access} (oid : Oid) (fp : Fingerprint)

theorem Guarded.le {call : List Access} (guarded : Guarded call) :
    (call.map (incrs oid fp)).sum ≤ (call.map (decrs oid fp)).sum := by
  cases call with
  | nil => exact le_rfl
  | cons first rest => exact guarded.1 oid fp

theorem pending_le {calls : List (List Access)} (guarded : ∀ call ∈ calls, Guarded call) :
    pending (incrs oid fp) calls ≤ pending (decrs oid fp) calls := by
  unfold pending
  induction calls with
  | nil => exact le_rfl
  | cons call calls ih =>
    obtain ⟨here, later⟩ := forall_mem_cons.mp guarded
    have := here.le oid fp
    have := ih later
    simp only [flatten_cons, map_append, sum_append]
    omega

theorem Guarded.append {more : List Access} (guarded : Guarded rest)
    (none : ∀ access ∈ more, ∀ oid fp, incrs oid fp access = 0) : Guarded (more ++ rest) := by
  induction more with
  | nil => exact guarded
  | cons first more ih =>
    obtain ⟨here, later⟩ := forall_mem_cons.mp none
    rw [cons_append]
    refine ⟨fun oid fp => ?_, ih later⟩
    have := (ih later).le oid fp
    simp only [map_cons, sum_cons, here]
    omega

theorem sum_zero {weight : Access → Nat} {accesses : List Access}
    (none : ∀ access ∈ accesses, weight access = 0) : (accesses.map weight).sum = 0 := by
  rw [map_congr_left none]
  simp

theorem sum_relations (relations : List Oid) (f : Fingerprint) :
    (relations.map fun o => if o = oid ∧ f = fp then 1 else 0).sum =
      if f = fp then relations.count oid else 0 := by
  induction relations with
  | nil => simp
  | cons o relations ih =>
    by_cases same : f = fp <;> by_cases own : o = oid <;> simp_all [Nat.add_comm]

theorem guarded_insertCall (key : MemoKey) (entry : MemoEntry) :
    Guarded (insertCall key entry) := by
  -- over the relations that are left to count
  suffices ∀ relations : List Oid, (∀ oid, relations.count oid ≤ entry.relations.count oid) →
      Guarded (relations.map (.relIncr · key.fingerprint) ++
        [.entriesInsert key entry, .bytesAdd entry.size]) from this _ fun _ => le_rfl
  intro relations
  induction relations with
  | nil => simp [Guarded, incrs]
  | cons o relations ih =>
    intro part
    refine ⟨fun oid fp => ?_, ih fun oid => le_trans (count_le_count_cons ..) (part oid)⟩
    have counted := sum_relations oid fp (o :: relations) key.fingerprint
    have := part oid
    change (((o :: relations).map (Access.relIncr · key.fingerprint) ++ _).map _).sum ≤
      (((o :: relations).map (Access.relIncr · key.fingerprint) ++ _).map _).sum
    simp only [map_append, map_map, sum_append, Function.comp_def, incrs, counted]
    simp [incrs, decrs, times]
    split <;> omega

theorem reclaim_incrs (key : MemoKey) (entry : Option MemoEntry) :
    ∀ access ∈ reclaim key entry, incrs oid fp access = 0 ∧ adds access = 0 := by
  cases entry <;> simp +contextual [reclaim, incrs, adds]

theorem stored_access (s : Store) (first : Access) (minus : Access → Nat)
    (value : MemoKey → MemoEntry → Nat)
    (insert : ∀ key entry, minus (.entriesInsert key entry) = value key entry)
    (remove : ∀ key, minus (.entriesRemove key) = 0)
    (given : ∀ key entry, ((reclaim key entry).map minus).sum =
      (entry.map (value key)).getD 0) :
    stored value (s.access first).1.entries + ((s.access first).2.map minus).sum =
      stored value s.entries + match first with
        | .entriesInsert .. | .entriesRemove .. => minus first
        | _ => 0 := by
  cases first with
  | entriesInsert key entry =>
    have := stored_erase value key s.entries
    simp only [Store.access, stored_insert, insert, given]
    omega
  | entriesRemove key =>
    have := stored_erase value key s.entries
    simp only [Store.access, remove, given]
    omega
  | _ => rfl

theorem Balanced.access (held : Balanced s) {call : Nat}
    (running : s.calls[call]? = some (first :: rest)) :
    Balanced { (s.access first).1 with
      calls := s.calls.set call ((s.access first).2 ++ rest) } := by
  have moved (weight : Access → Nat) := pending_set (s.access first).2 weight running
  have none : ∀ access ∈ (s.access first).2, ∀ oid fp,
      incrs oid fp access = 0 ∧ adds access = 0 := by
    intro access hm oid fp
    cases first with
    | entriesInsert key entry => exact reclaim_incrs _ _ _ _ _ hm
    | entriesRemove key => exact reclaim_incrs _ _ _ _ _ hm
    | _ => cases hm
  have guarded : ∀ other ∈ s.calls.set call ((s.access first).2 ++ rest), Guarded other := by
    intro other inside
    rcases mem_or_eq_of_mem_set inside with inside | rfl
    · exact held.guarded _ inside
    · exact (held.guarded _ (mem_of_getElem? running)).2.append fun a hm o f => (none a hm o f).1
  refine ⟨fun oid fp => ?_, ?_, guarded⟩
  · have := held.counts oid fp
    have := pending_le oid fp guarded
    have := moved (incrs oid fp)
    have := moved (decrs oid fp)
    have := sum_zero fun a hm => (none a hm oid fp).1
    have := stored_access s first (decrs oid fp) (times oid fp) (fun _ _ => rfl) (fun _ => rfl)
      (by rintro key (_ | _) <;>
        simp [reclaim, Function.comp_def, decrs, times, sum_relations])
    cases first <;> simp only [Store.access, Store.countModify, incrs, decrs] at * <;> grind
  · have := held.total
    have := moved adds
    have := moved subs
    have := sum_zero fun a hm => (none a hm 0 0).2
    have := stored_access s first subs bytes (fun _ _ => rfl) (fun _ => rfl)
      (by rintro key (_ | _) <;> simp [reclaim, Function.comp_def, subs, bytes])
    cases first <;> simp only [Store.access, Store.countModify, adds, subs] at * <;> omega

theorem Balanced.call (held : Balanced s) {call : List Access} (guarded : Guarded call)
    (counts : ∀ oid fp, (call.map (incrs oid fp)).sum = (call.map (decrs oid fp)).sum)
    (total : (call.map adds).sum = (call.map subs).sum) :
    Balanced { s with calls := s.calls ++ [call] } := by
  have grown (weight : Access → Nat) :
      pending weight (s.calls ++ [call]) = pending weight s.calls + (call.map weight).sum := by
    simp [pending]
  refine ⟨fun oid fp => ?_, ?_, fun other inside => ?_⟩
  · have := held.counts oid fp
    simp only [grown, counts]
    omega
  · have := held.total
    simp only [grown, total]
    omega
  · rcases mem_append.mp inside with inside | inside
    · exact held.guarded _ inside
    · exact mem_singleton.mp inside ▸ guarded

theorem Balanced.step (held : Balanced s) (event : Event) : Balanced (step s event) := by
  cases event with
  | insert key entry =>
    simp only [MemoCounts.step]
    split
    · exact held
    · refine held.call (guarded_insertCall key entry) (fun oid fp => ?_) ?_
      · simp [insertCall, Function.comp_def, incrs, decrs, times, sum_relations]
      · simp [insertCall, Function.comp_def, adds, subs, bytes]
  | remove key => exact held.call (by simp [Guarded, incrs]) (fun _ _ => rfl) rfl
  | access call =>
    simp only [MemoCounts.step]
    split
    · exact held.access (by assumption)
    · exact held

/-- Whatever the interleaving: a stored result is counted for each of its relations, so no change
of a relation misses it; and the counts and the byte count are exact when no call is under way. -/
theorem counts_follow_entries (events : List Event) :
    let s := events.foldl step .new
    (∀ key entry, s.entries.lookup key = some entry → ∀ oid ∈ entry.relations,
      0 < s.relationFingerprints oid key.fingerprint) ∧
    (s.calls.flatten = [] → s.totalBytes % 2 ^ 64 = stored bytes s.entries % 2 ^ 64 ∧
      ∀ oid fp, s.relationFingerprints oid fp = stored (times oid fp) s.entries) := by
  have held : Balanced (events.foldl step .new) :=
    foldlRecOn _ _ ⟨fun _ _ => rfl, rfl, nofun⟩ fun _ held event _ => held.step event
  refine ⟨fun key entry found oid inside => ?_, fun quiet => ?_⟩
  · have := held.counts oid key.fingerprint
    have := pending_le oid key.fingerprint held.guarded
    have whole := stored_erase (times oid key.fingerprint) key (events.foldl step .new).entries
    have part : 0 < times oid key.fingerprint key entry := by
      simpa [times] using count_pos_iff.mpr inside
    rw [found, Option.map_some, Option.getD_some] at whole
    omega
  · have idle (weight : Access → Nat) : pending weight (events.foldl step .new).calls = 0 := by
      simp [pending, quiet]
    have := held.total
    have := held.counts
    simp_all only [Nat.add_zero]
    exact ⟨trivial, fun _ _ => trivial⟩

end PgCache.Cache.MemoCounts
