/- source: cache/writer/staging.rs, cache/writer/registration/merge.rs,
     cache/writer/population/stream.rs
   digest: The pool of staging tables with the tables themselves, and what a failed DELETE leaves in
     its free list. -/
import PgCache.Cache.Staging
import PgCache.Data.Machine

set_option autoImplicit false

namespace PgCache.Cache.Pool

open Catalog Data.Machine List
open Staging (PopulationKey)
open Function (update update_apply)

structure StagingTable where
  oid : Oid
  slot : Nat
  deriving DecidableEq

structure StagingHold where
  table : StagingTable
  epoch : Nat

/-- `StagingPool`: a free list is a stack, its top first, and a hold stands in `checkedOut` beside
its population. The last two fields are the schema `pgcache_stage`: the epoch a table was made in,
and the population that staged each of its rows. -/
structure StagingPool where
  free : Oid → List StagingTable
  nextSlot : Oid → Nat
  epoch : Oid → Nat
  checkedOut : List (PopulationKey × StagingHold)
  made : StagingTable → Option Nat
  rows : StagingTable → List PopulationKey

namespace StagingPool

def new : StagingPool := ⟨fun _ => [], fun _ => 0, fun _ => 0, [], fun _ => none, fun _ => []⟩

variable (p : StagingPool) (key : PopulationKey) (ok : StagingTable → Bool)

def heldTables : List StagingTable := p.checkedOut.map (·.2.table)

def Holds (t : StagingTable) : Prop := ∃ hold ∈ p.checkedOut, hold.1 = key ∧ hold.2.table = t

instance (t : StagingTable) : Decidable (p.Holds key t) := by
  unfold Holds
  infer_instance

def forget : StagingPool := { p with checkedOut := p.checkedOut.filter (·.1 ≠ key) }

/-- One turn of the loop of `checkout`: a free table, or a new slot of the `u32` counter. -/
def checkoutTable (oid : Oid) : StagingPool :=
  match p.free oid with
  | t :: rest => { p with
      free := update p.free oid rest
      checkedOut := (key, ⟨t, p.epoch oid⟩) :: p.checkedOut }
  | [] => { p with
      nextSlot := update p.nextSlot oid ((p.nextSlot oid + 1) % 2 ^ 32)
      checkedOut := (key, ⟨⟨oid, p.nextSlot oid⟩, p.epoch oid⟩) :: p.checkedOut }

def checkout (oids : List Oid) : StagingPool :=
  oids.foldl (checkoutTable · key) (p.forget key)

/-- One turn of the loop of `staging_checkin`; `ok` tells which statements succeed. -/
def checkinTable (hold : StagingHold) : StagingPool :=
  let emptied := if ok hold.table then update p.rows hold.table [] else p.rows
  if p.epoch hold.table.oid ≠ hold.epoch then { p with
    made := if ok hold.table then update p.made hold.table none else p.made
    rows := emptied }
  else { p with
    rows := emptied
    free := update p.free hold.table.oid (hold.table :: p.free hold.table.oid) }

def stagingCheckin : StagingPool :=
  (p.checkedOut.filter (·.1 = key)).foldl (·.checkinTable ok ·.2) (p.forget key)

def stagingPoolRelationPurge (oid : Oid) : StagingPool := { p with
  epoch := update p.epoch oid ((p.epoch oid + 1) % 2 ^ 32)
  free := update p.free oid []
  made := fun t => if t ∈ p.free oid ∧ ok t then none else p.made t
  rows := fun t => if t ∈ p.free oid ∧ ok t then [] else p.rows t }

end StagingPool

inductive PoolEvent where
  | checkout (key : PopulationKey) (oids : List Oid)
  | forget (key : PopulationKey)
  | create (key : PopulationKey) (t : StagingTable)
  | stage (key : PopulationKey) (t : StagingTable)
  | drain (key : PopulationKey) (t : StagingTable) (count : Nat)
  | checkin (key : PopulationKey) (ok : StagingTable → Bool)
  | purge (oid : Oid) (ok : StagingTable → Bool)

def step (p : StagingPool) : PoolEvent → Option StagingPool
  | .checkout key oids => some (p.checkout key oids)
  | .forget key => some (p.forget key)
  | .create key t =>
    if p.Holds key t then
      some { p with made := update p.made t (some ((p.made t).getD (p.epoch t.oid))) }
    else none
  | .stage key t =>
    if p.Holds key t ∧ (p.made t).isSome then
      some { p with rows := update p.rows t (key :: p.rows t) }
    else none
  | .drain key t count =>
    if p.Holds key t then
      some { p with rows := update p.rows t ((p.rows t).drop count) }
    else none
  | .checkin key ok => some (p.stagingCheckin key fun t => ok t && (p.made t).isSome)
  | .purge oid ok => some (p.stagingPoolRelationPurge ok oid)

/-- What a run of clean pools never meets: a counter that wraps, and a DELETE that fails on a table
that is then released. -/
def Calm (p : StagingPool) : PoolEvent → Prop
  | .checkout _ oids => ∀ oid ∈ oids, p.nextSlot oid + oids.length < 2 ^ 32
  | .checkin key ok => ∀ hold ∈ p.checkedOut, hold.1 = key →
      p.epoch hold.2.table.oid = hold.2.epoch →
        ok hold.2.table = true ∧ (p.made hold.2.table).isSome = true
  | .purge oid _ => p.epoch oid + 1 < 2 ^ 32
  | _ => True

structure Clean (p : StagingPool) : Prop where
  apart : ∀ oid, (p.free oid ++ p.heldTables).Nodup
  minted : ∀ t, t ∈ p.free t.oid ∨ t ∈ p.heldTables → t.slot < p.nextSlot t.oid
  fresh : ∀ t, p.nextSlot t.oid ≤ t.slot → p.made t = none ∧ p.rows t = []
  free : ∀ oid, ∀ t ∈ p.free oid, t.oid = oid ∧ p.rows t = [] ∧ p.made t = some (p.epoch oid)
  held : ∀ hold ∈ p.checkedOut, (∀ row ∈ p.rows hold.2.table, row = hold.1) ∧
    hold.2.epoch ≤ p.epoch hold.2.table.oid ∧ ∀ epoch, p.made hold.2.table = some epoch →
      hold.2.epoch ≤ epoch ∧ epoch ≤ p.epoch hold.2.table.oid

variable {p : StagingPool} {key : PopulationKey} {ok : StagingTable → Bool}

namespace Clean

theorem checkedOut (clean : Clean p) {holds : List (PopulationKey × StagingHold)}
    (sub : holds.Subperm p.checkedOut) : Clean { p with checkedOut := holds } where
  apart oid := by
    obtain ⟨sorted, perm, sublist⟩ := sub
    have kept := (clean.apart oid).sublist ((sublist.map _).append_left _)
    exact ((perm.map _).append_left _).nodup_iff.mp kept
  minted t place := clean.minted t (place.imp_right (map_subset _ sub.subset ·))
  fresh := clean.fresh
  free := clean.free
  held hold inside := clean.held hold (sub.subset inside)

theorem hold (clean : Clean p) {t : StagingTable} {free : Oid → List StagingTable}
    (rest : ∀ oid, (free oid).Sublist (p.free oid)) (out : t ∉ free t.oid)
    (unheld : t ∉ p.heldTables) (minted : t.slot < p.nextSlot t.oid)
    (empty : p.rows t = [])
    (shape : ∀ epoch, p.made t = some epoch → epoch = p.epoch t.oid) :
    Clean { p with
      free := free
      checkedOut := (key, ⟨t, p.epoch t.oid⟩) :: p.checkedOut } where
  apart oid := by
    have old := (clean.apart oid).sublist ((rest oid).append_right p.heldTables)
    refine perm_middle.nodup_iff.mpr (nodup_cons.mpr ⟨?_, old⟩)
    rw [mem_append, not_or]
    refine ⟨fun inside => ?_, unheld⟩
    obtain rfl := (clean.free oid t ((rest oid).subset inside)).1
    exact out inside
  minted other := by
    rintro (there | there)
    · exact clean.minted other (.inl ((rest _).subset there))
    · rcases mem_cons.mp there with rfl | older
      · exact minted
      · exact clean.minted other (.inr older)
  fresh := clean.fresh
  free oid other inside := clean.free oid other ((rest oid).subset inside)
  held := by
    intro hold inside
    rcases mem_cons.mp inside with rfl | older
    · refine ⟨fun row there => ?_, Nat.le_refl _, fun epoch made => ?_⟩
      · rw [empty] at there
        cases there
      · rw [shape epoch made]
        exact ⟨Nat.le_refl _, Nat.le_refl _⟩
    · exact clean.held hold older

theorem checkoutTable (clean : Clean p) {oid : Oid} (room : p.nextSlot oid + 1 < 2 ^ 32) :
    Clean (p.checkoutTable key oid) := by
  unfold StagingPool.checkoutTable
  split
  · next t rest top =>
    have inside : t ∈ p.free oid := top ▸ mem_cons_self
    obtain ⟨rfl, empty, made⟩ := clean.free oid t inside
    have apart := clean.apart t.oid
    rw [top, cons_append, nodup_cons, mem_append, not_or] at apart
    refine clean.hold (fun other => ?_) ?_ apart.1.2 (clean.minted t (.inl inside)) empty ?_
    · rw [update_apply]
      split
      · next same => exact same ▸ top ▸ sublist_cons_self t rest
      · exact Sublist.refl _
    · rw [update_apply, if_pos rfl]
      exact apart.1.1
    · intro epoch isMade
      cases made.symm.trans isMade
      rfl
  · rw [Nat.mod_eq_of_lt room]
    have new : ∀ t, t.oid = oid → p.nextSlot oid ≤ t.slot →
        t ∉ p.free t.oid ∧ t ∉ p.heldTables := by
      rintro t rfl above
      rw [← not_or]
      exact fun place => absurd (clean.minted t place) (Nat.not_lt.mpr above)
    obtain ⟨unmade, empty⟩ := clean.fresh ⟨oid, p.nextSlot oid⟩ (Nat.le_refl _)
    obtain ⟨out, unheld⟩ := new ⟨oid, p.nextSlot oid⟩ rfl (Nat.le_refl _)
    have more : ∀ other, p.nextSlot other ≤ update p.nextSlot oid (p.nextSlot oid + 1) other := by
      intro other
      rw [update_apply]
      split
      · next same => exact same ▸ Nat.le_succ _
      · exact Nat.le_refl _
    have raised : Clean { p with
        nextSlot := update p.nextSlot oid (p.nextSlot oid + 1) } :=
      { clean with
        minted := fun t place => (clean.minted t place).trans_le (more _)
        fresh := fun t above => clean.fresh t ((more _).trans above) }
    refine raised.hold (fun _ => Sublist.refl _) out unheld ?_ empty ?_
    · change p.nextSlot oid < update p.nextSlot oid _ oid
      rw [update_apply, if_pos rfl]
      exact Nat.lt_succ_self _
    · intro epoch made
      cases unmade.symm.trans made

theorem change (clean : Clean p) {t : StagingTable} (made : Option Nat)
    (rows : List PopulationKey) (out : t ∉ p.free t.oid)
    (minted : t.slot < p.nextSlot t.oid)
    (own : ∀ hold ∈ p.checkedOut, hold.2.table = t → (∀ row ∈ rows, row = hold.1) ∧
      ∀ epoch, made = some epoch → hold.2.epoch ≤ epoch ∧ epoch ≤ p.epoch t.oid) :
    Clean { p with
      made := update p.made t made
      rows := update p.rows t rows } where
  apart := clean.apart
  minted := clean.minted
  fresh other above := by
    have ne : other ≠ t := by
      rintro rfl
      exact absurd minted (Nat.not_lt.mpr above)
    change update _ _ _ other = _ ∧ update _ _ _ other = _
    rw [update_apply, update_apply, if_neg ne, if_neg ne]
    exact clean.fresh other above
  free oid other inside := by
    obtain ⟨rfl, facts⟩ := clean.free oid other inside
    have ne : other ≠ t := by
      rintro rfl
      exact out inside
    change _ ∧ update _ _ _ other = _ ∧ update _ _ _ other = _
    rw [update_apply, update_apply, if_neg ne, if_neg ne]
    exact ⟨rfl, facts⟩
  held hold inside := by
    obtain ⟨rowsOwn, early, shape⟩ := clean.held hold inside
    by_cases same : hold.2.table = t
    · obtain ⟨changedRows, changedShape⟩ := own hold inside same
      refine ⟨?_, early, ?_⟩
      · change ∀ row ∈ update _ _ _ hold.2.table, _
        rwa [same, update_apply, if_pos rfl]
      · change ∀ epoch, update _ _ _ hold.2.table = _ → _
        rwa [same, update_apply, if_pos rfl]
    · refine ⟨?_, early, ?_⟩
      · change ∀ row ∈ update _ _ _ hold.2.table, _
        rwa [update_apply, if_neg same]
      · change ∀ epoch, update _ _ _ hold.2.table = _ → _
        rwa [update_apply, if_neg same]

theorem release (clean : Clean p) {t : StagingTable} (out : t ∉ p.free t.oid)
    (unheld : t ∉ p.heldTables) (minted : t.slot < p.nextSlot t.oid)
    (empty : p.rows t = []) (made : p.made t = some (p.epoch t.oid)) :
    Clean { p with free := update p.free t.oid (t :: p.free t.oid) } := by
  have cases : ∀ oid, ∀ o ∈ update p.free t.oid (t :: p.free t.oid) oid,
      o = t ∧ oid = t.oid ∨ o ∈ p.free oid := by
    intro oid o hm
    rw [update_apply] at hm
    split at hm
    · next same =>
      rcases mem_cons.mp hm with rfl | older
      · exact .inl ⟨rfl, same⟩
      · exact .inr (same ▸ older)
    · exact .inr hm
  refine ⟨fun oid => ?_, fun o place => ?_, clean.fresh, fun oid o hm => ?_, clean.held⟩
  · change (update p.free _ _ oid ++ p.heldTables).Nodup
    rw [update_apply]
    split
    · next same =>
      rw [cons_append, nodup_cons, mem_append, not_or]
      exact ⟨⟨out, unheld⟩, clean.apart _⟩
    · exact clean.apart oid
  · rcases place with free | held
    · rcases cases _ o free with ⟨rfl, -⟩ | older
      · exact minted
      · exact clean.minted o (.inl older)
    · exact clean.minted o (.inr held)
  · rcases cases oid o hm with ⟨rfl, rfl⟩ | older
    · exact ⟨rfl, empty, made⟩
    · exact clean.free oid o older

theorem checkinTable {key : PopulationKey} {hold : StagingHold}
    (clean : Clean { p with checkedOut := (key, hold) :: p.checkedOut })
    (fine : p.epoch hold.table.oid = hold.epoch →
      ok hold.table = true ∧ (p.made hold.table).isSome = true) :
    Clean (p.checkinTable ok hold) := by
  have taken : Clean p := clean.checkedOut (sublist_cons_self _ _).subperm
  have apart := perm_middle.nodup_iff.mp (clean.apart hold.table.oid)
  rw [nodup_cons, mem_append, not_or] at apart
  obtain ⟨⟨out, unheld⟩, -⟩ := apart
  have minted := clean.minted hold.table (.inr mem_cons_self)
  have unowned : ∀ made (rows : List PopulationKey), ∀ o ∈ p.checkedOut,
      o.2.table = hold.table → (∀ row ∈ rows, row = o.1) ∧
        ∀ epoch, made = some epoch → o.2.epoch ≤ epoch ∧ epoch ≤ p.epoch hold.table.oid :=
    fun made rows o hm same => absurd (mem_map.mpr ⟨o, hm, same⟩) unheld
  unfold StagingPool.checkinTable
  dsimp only
  split
  · split
    · exact taken.change none [] out minted (unowned _ _)
    · exact taken
  · next same =>
    obtain ⟨success, isMade⟩ := fine (not_not.mp same)
    obtain ⟨epoch, isMade⟩ := Option.isSome_iff_exists.mp isMade
    obtain ⟨early, late⟩ := (clean.held _ mem_cons_self).2.2 epoch isMade
    have now : p.made hold.table = some (p.epoch hold.table.oid) := by
      rw [isMade, Nat.le_antisymm late ((not_not.mp same).trans_le early)]
    have emptied := taken.change (p.made hold.table) [] out minted (unowned _ _)
    rw [Function.update_eq_self] at emptied
    rw [if_pos success]
    exact emptied.release out unheld minted (Function.update_self ..) now

theorem checkinTables : ∀ {holds : List (PopulationKey × StagingHold)} {p : StagingPool},
    Clean { p with checkedOut := holds ++ p.checkedOut } →
    (∀ hold ∈ holds, p.epoch hold.2.table.oid = hold.2.epoch →
      ok hold.2.table = true ∧ (p.made hold.2.table).isSome = true) →
    Clean (holds.foldl (·.checkinTable ok ·.2) p)
  | [], _, clean, _ => clean
  | hold :: holds, p, clean, fine => by
    have turned : Clean (StagingPool.checkinTable
        { p with checkedOut := holds ++ p.checkedOut } ok hold.2) :=
      checkinTable clean (fine hold mem_cons_self)
    have apart := (nodup_append.mp (clean.apart hold.2.table.oid)).2.1
    change Clean (holds.foldl _ (p.checkinTable ok hold.2))
    unfold StagingPool.checkinTable at turned ⊢
    dsimp only at turned ⊢
    split at turned
    · next stale =>
      rw [if_pos stale]
      refine checkinTables turned fun o hm => ?_
      have ne : o.2.table ≠ hold.2.table := fun he =>
        (nodup_cons.mp apart).1 (mem_map.mpr ⟨o, mem_append_left _ hm, he⟩)
      have kept := fine o (mem_cons_of_mem _ hm)
      dsimp only
      split
      · rwa [update_apply, if_neg ne]
      · exact kept
    · next current =>
      rw [if_neg current]
      exact checkinTables turned fun o hm => fine o (mem_cons_of_mem _ hm)

theorem stagingCheckin (clean : Clean p) (fine : ∀ hold ∈ p.checkedOut, hold.1 = key →
      p.epoch hold.2.table.oid = hold.2.epoch →
        ok hold.2.table = true ∧ (p.made hold.2.table).isSome = true) :
    Clean (p.stagingCheckin key ok) := by
  refine checkinTables (clean.checkedOut (Perm.subperm ?_)) fun hold hm => ?_
  · have perm := filter_append_perm (fun hold : PopulationKey × StagingHold => hold.1 = key)
      p.checkedOut
    simpa only [StagingPool.forget, ne_eq, decide_not] using perm
  · obtain ⟨there, own⟩ := mem_filter.mp hm
    exact fine hold there (decide_eq_true_iff.mp own)

theorem checkout (clean : Clean p) {oids : List Oid}
    (room : ∀ oid ∈ oids, p.nextSlot oid + oids.length < 2 ^ 32) :
    Clean (p.checkout key oids) := by
  have forgotten : Clean (p.forget key) := clean.checkedOut filter_sublist.subperm
  change ∀ oid ∈ oids, (p.forget key).nextSlot oid + oids.length < 2 ^ 32 at room
  unfold StagingPool.checkout
  generalize p.forget key = start at forgotten room
  induction oids generalizing start with
  | nil => exact forgotten
  | cons oid oids ih =>
    rw [length_cons] at room
    have head := room oid mem_cons_self
    refine ih _ (forgotten.checkoutTable (by omega)) fun o hm => ?_
    have later := room o (mem_cons_of_mem _ hm)
    unfold StagingPool.checkoutTable
    dsimp only
    split
    · exact (Nat.lt_succ_self _).trans later
    · dsimp only
      rw [update_apply, Nat.mod_eq_of_lt (by omega)]
      split
      · omega
      · omega

theorem purge (clean : Clean p) {oid : Oid} (room : p.epoch oid + 1 < 2 ^ 32) :
    Clean (p.stagingPoolRelationPurge ok oid) := by
  have other : ∀ t, t.oid ≠ oid → ¬(t ∈ p.free oid ∧ ok t = true) :=
    fun t ne stale => ne (clean.free oid t stale.1).1
  have kept : ∀ relation, (update p.free oid [] relation).Sublist (p.free relation) := by
    intro relation
    rw [update_apply]
    split
    · exact nil_sublist _
    · exact Sublist.refl _
  refine ⟨fun relation => (clean.apart relation).sublist ((kept relation).append_right _),
    fun t place => ?_, fun t above => ?_, fun relation t inside => ?_, fun hold inside => ?_⟩
  · exact clean.minted t (place.imp_left ((kept _).subset ·))
  · obtain ⟨unmade, empty⟩ := clean.fresh t above
    dsimp only [StagingPool.stagingPoolRelationPurge]
    rw [unmade, empty, ite_self, ite_self]
    exact ⟨rfl, rfl⟩
  · have inside' : t ∈ p.free relation := (kept relation).subset inside
    have ne : relation ≠ oid := by
      rintro rfl
      dsimp only [StagingPool.stagingPoolRelationPurge] at inside
      rw [update_apply, if_pos rfl] at inside
      cases inside
    obtain ⟨rfl, facts⟩ := clean.free relation t inside'
    dsimp only [StagingPool.stagingPoolRelationPurge]
    rw [if_neg (other t ne), if_neg (other t ne), update_apply, if_neg ne]
    exact ⟨rfl, facts⟩
  · have stays : ¬(hold.2.table ∈ p.free oid ∧ ok hold.2.table = true) := by
      intro stale
      have apart := (nodup_append.mp (clean.apart oid)).2.2
      exact apart _ stale.1 _ (mem_map.mpr ⟨hold, inside, rfl⟩) rfl
    have later : p.epoch hold.2.table.oid ≤
        (p.stagingPoolRelationPurge ok oid).epoch hold.2.table.oid := by
      dsimp only [StagingPool.stagingPoolRelationPurge]
      rw [update_apply, Nat.mod_eq_of_lt room]
      split
      · next same => exact same ▸ Nat.le_succ _
      · exact Nat.le_refl _
    obtain ⟨own, early, shape⟩ := clean.held hold inside
    refine ⟨?_, early.trans later, fun epoch made => ?_⟩
    · dsimp only [StagingPool.stagingPoolRelationPurge]
      rwa [if_neg stays]
    · dsimp only [StagingPool.stagingPoolRelationPurge] at made
      rw [if_neg stays] at made
      exact (shape epoch made).imp_right (·.trans later)

theorem holder (clean : Clean p) {hold : PopulationKey × StagingHold}
    (hm : hold ∈ p.checkedOut) : hold.2.table ∉ p.free hold.2.table.oid ∧
      hold.2.table.slot < p.nextSlot hold.2.table.oid ∧
      ∀ o ∈ p.checkedOut, o.2.table = hold.2.table → o = hold := by
  have hl : hold.2.table ∈ p.heldTables := mem_map.mpr ⟨hold, hm, rfl⟩
  obtain ⟨-, once, apart⟩ := nodup_append.mp (clean.apart hold.2.table.oid)
  refine ⟨fun free => apart _ free _ hl rfl, clean.minted _ (.inr hl), ?_⟩
  intro o there same
  exact inj_on_of_nodup_map once there hm same

theorem changeOwn (clean : Clean p) {t : StagingTable} (h : p.Holds key t)
    (made : Option Nat) (rows : List PopulationKey)
    (own : ∀ row ∈ rows, row = key ∨ row ∈ p.rows t)
    (shape : made = p.made t ∨ made = some (p.epoch t.oid)) :
    Clean { p with
      made := update p.made t made
      rows := update p.rows t rows } := by
  obtain ⟨hold, hm, rfl, rfl⟩ := h
  obtain ⟨out, minted, once⟩ := clean.holder hm
  obtain ⟨older, early, shapes⟩ := clean.held hold hm
  refine clean.change made rows out minted fun o there same => ?_
  cases once o there same
  refine ⟨fun row there => (own row there).elim id (older row), fun epoch isMade => ?_⟩
  rcases shape with rfl | rfl
  · exact shapes epoch isMade
  · cases isMade
    exact ⟨early, Nat.le_refl _⟩

theorem step {next : StagingPool} {ev : PoolEvent} (clean : Clean p) (calm : Calm p ev)
    (hs : Pool.step p ev = some next) : Clean next := by
  cases ev with
  | checkout key oids =>
    cases hs
    exact clean.checkout calm
  | forget key =>
    cases hs
    exact clean.checkedOut filter_sublist.subperm
  | create key t =>
    obtain ⟨h, ⟨⟩⟩ := Option.ite_none_right_eq_some.mp hs
    have made := clean.changeOwn h (some ((p.made t).getD (p.epoch t.oid)))
      (p.rows t) (fun _ => .inr) (by cases p.made t <;> simp)
    rwa [Function.update_eq_self] at made
  | stage key t =>
    obtain ⟨⟨h, -⟩, ⟨⟩⟩ := Option.ite_none_right_eq_some.mp hs
    have staged := clean.changeOwn h (p.made t) (key :: p.rows t) (fun _ => mem_cons.mp) (.inl rfl)
    rwa [Function.update_eq_self] at staged
  | drain key t count =>
    obtain ⟨h, ⟨⟩⟩ := Option.ite_none_right_eq_some.mp hs
    have drained := clean.changeOwn h (p.made t) ((p.rows t).drop count)
      (fun _ kept => .inr (mem_of_mem_drop kept)) (.inl rfl)
    rwa [Function.update_eq_self] at drained
  | checkin key ok =>
    cases hs
    refine clean.stagingCheckin fun hold hm own current => ?_
    obtain ⟨success, isMade⟩ := calm hold hm own current
    rw [success, isMade]
    exact ⟨rfl, rfl⟩
  | purge oid ok =>
    cases hs
    exact clean.purge calm

end Clean

/-- In every state of a calm run the free tables are empty, have the shape of their relation and are
held by no population, no two populations hold a table, and each meets only its own rows there. -/
theorem pool_stays_clean {events : List PoolEvent} {last : StagingPool}
    (calm : Allowed step Calm .new events) (ran : runs step .new events = some last) :
    (∀ oid, ∀ t ∈ last.free oid, last.rows t = [] ∧
      last.made t = some (last.epoch oid) ∧ ∀ key, ¬last.Holds key t) ∧
    (∀ key other t, last.Holds key t → last.Holds other t → key = other) ∧
    ∀ key t, last.Holds key t → ∀ row ∈ last.rows t, row = key := by
  have start : Clean .new :=
    ⟨fun _ => nodup_nil, fun _ => nofun, fun _ _ => ⟨rfl, rfl⟩, fun _ _ => nofun, fun _ => nofun⟩
  have clean : Clean last := runs_invariant (fun _ _ _ => Clean.step) start calm ran
  refine ⟨fun oid t free => ?_, ?_, ?_⟩
  · obtain ⟨rfl, facts⟩ := clean.free oid t free
    refine ⟨facts.1, facts.2, ?_⟩
    rintro key ⟨hold, inside, rfl, rfl⟩
    exact (clean.holder inside).1 free
  · rintro key other t ⟨hold, inside, rfl, rfl⟩ ⟨second, there, rfl, same⟩
    rw [(clean.holder inside).2.2 second there same]
  · rintro key t ⟨hold, inside, rfl, rfl⟩
    exact (clean.held hold inside).1

def usedOnce (ok : Bool) : List PoolEvent :=
  [.checkout (1, 1) [7], .create (1, 1) ⟨7, 0⟩, .stage (1, 1) ⟨7, 0⟩, .checkin (1, 1) fun _ => ok]

theorem returned_table_clean : ∃ last, runs step .new (usedOnce true) = some last ∧
    last.free 7 = [⟨7, 0⟩] ∧ last.rows ⟨7, 0⟩ = [] := by
  have calm : Allowed step Calm .new (usedOnce true) := by
    refine .cons rfl ?_ (.cons rfl trivial (.cons rfl trivial (.cons rfl ?_ trivial)))
    · unfold Calm
      decide
    · unfold Calm
      decide
  have clean := (pool_stays_clean calm rfl).1 7 ⟨7, 0⟩ (by decide)
  exact ⟨_, rfl, by decide, clean.1⟩

/-- The next population gets the table with the row of the first. -/
theorem failed_delete_hands_out_rows :
    (runs step .new (usedOnce false ++ [.checkout (2, 1) [7]])).any (fun last =>
      decide (last.Holds (2, 1) ⟨7, 0⟩ ∧ last.rows ⟨7, 0⟩ = [(1, 1)])) = true := by
  decide

end PgCache.Cache.Pool
