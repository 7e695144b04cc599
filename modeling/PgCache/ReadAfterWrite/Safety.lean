/- digest: Along every run of the write log, a served read sees no pending write. -/
import PgCache.ReadAfterWrite.Disjoint

set_option autoImplicit false

namespace PgCache.ReadAfterWrite.Safety

open Data.Keyed Query.Literal
open Query.Constraints.RangeOverlap Query.Constraints.RangeMeaning Query.Write Aggregate Log
open Coverage Effects ReadAfterWrite.Disjoint WriteLog List
open Option hiding mem_map

/-! ### Runs -/

inductive Operation where
  | record (write : WriteClass)
  | stampSeq
  | stamp (stampSeq : Nat) (lsn : Lsn)
  | purge (watermark : Lsn)
  | decide (tables : List TableNode) (readRanges : Option ColumnRanges)

def step (log : WriteLog) : Operation → WriteLog
  | .record write => log.record write
  | .stamp stampSeq lsn => log.stamp stampSeq lsn
  | .purge watermark => log.purge watermark
  | .stampSeq | .decide _ _ => log

variable (operations : List Operation)

def run : WriteLog := operations.foldl step {}

def recorded : List WriteClass :=
  operations.filterMap fun
    | .record write => some write
    | _ => none

def watermarks : List Lsn :=
  operations.filterMap fun
    | .purge watermark => some watermark
    | _ => none

section Commits

-- The commit position of each write; `none` while it is uncommitted.
variable (commit : Nat → Option Lsn)

def CommittedBy (seq : Nat) (lsn : Lsn) : Prop :=
  ∃ position, commit seq = some position ∧ position ≤ lsn

/-- Every stamp of a run carries a position that covers the commits of the writes recorded up
to its sequence. -/
def StampsCover (operations : List Operation) : Prop :=
  ∀ before stampSeq lsn after, operations = before ++ .stamp stampSeq lsn :: after →
    ∀ seq < (recorded before).length, seq ≤ stampSeq → CommittedBy commit seq lsn

def isPending (operations : List Operation) (seq : Nat) : Bool :=
  (watermarks operations).all fun watermark => (commit seq).all (watermark < ·)

def pendingWrites (operations : List Operation) : List WriteClass :=
  ((recorded operations).zipIdx.filter fun w => isPending commit operations w.2).map Prod.fst

def Held (tiers : TableTiers) (seq : Nat) (write : WriteClass) : Prop :=
  (∃ latest aggregate, tiers.active = some (latest, aggregate) ∧ seq ≤ latest ∧
    Covers aggregate write) ∨
  ∃ tier ∈ tiers.waiting, CommittedBy commit seq tier.bound ∧ Covers tier.aggregate write

def ConnectionHeld (tiers : ConnectionTiers) (seq : Nat) : Prop :=
  (∃ latest, tiers.active = some latest ∧ seq ≤ latest) ∨
  ∃ bound, tiers.waiting = some bound ∧ CommittedBy commit seq bound

def Logged (log : WriteLog) (seq : Nat) (write : WriteClass) : Prop :=
  match write.relation? with
  | some relation =>
    ∃ bucket tiers, log.tables.lookup relation.name = some bucket ∧
      bucket.lookup relation.schema = some tiers ∧ Held commit tiers seq write
  | none => ConnectionHeld commit log.connection seq

def tiersOf (log : WriteLog) (relation : RelationRef) : TableTiers :=
  ((log.tables.lookup relation.name).bind (·.lookup relation.schema)).getD {}

def newest (log : WriteLog) : Option RelationRef → Option Nat
  | some relation => (tiersOf log relation).active.map Prod.fst
  | none => log.connection.active

structure Accounted (operations : List Operation) (log : WriteLog) : Prop where
  enabled : log.enabled = true
  nextSeq : log.nextSeq = (recorded operations).length
  logged : log.connection.unstampable = true ∨
    ∀ seq write, (recorded operations)[seq]? = some write →
      isPending commit operations seq = true → Logged commit log seq write

end Commits

variable {commit : Nat → Option Lsn}

/-! ### One table -/

variable {tiers : TableTiers} {seq stampSeq : Nat} {write : WriteClass}
  {change : TableAggregate → TableAggregate} {log : WriteLog} (operations : List Operation)
  {operation : Operation} {readRanges : Option ColumnRanges} {relation : RelationRef}
  {watermark : Lsn}

private theorem held_activeModify {now : Nat} (held : Held commit tiers seq write)
    (earlier : seq ≤ now) (grows : ∀ agg, Grows agg (change agg)) :
    Held commit (tiers.activeModify now change) seq write := by
  rcases held with ⟨hlt, agg, active, _, covers⟩ | waiting
  · refine Or.inl ⟨now, change agg, ?_, earlier, covers_of_grows (grows agg) covers⟩
    simp [TableTiers.activeModify, active]
  · exact Or.inr waiting

private theorem held_activeModify_new (tiers : TableTiers)
    (covers : ∀ agg, Covers (change agg) write) :
    Held commit (tiers.activeModify seq change) seq write :=
  Or.inl ⟨seq, _, rfl, le_rfl, covers _⟩

theorem held_mergeIntoNewest (agg : TableAggregate) (lsn : Lsn) (tiers : List WaitingTier) :
    (∃ tier ∈ TableTiers.mergeIntoNewest agg lsn tiers, lsn ≤ tier.bound ∧
      Grows agg tier.aggregate) ∧
    ∀ tier ∈ tiers, ∃ tier' ∈ TableTiers.mergeIntoNewest agg lsn tiers,
      tier.bound ≤ tier'.bound ∧ Grows tier.aggregate tier'.aggregate := by
  fun_induction TableTiers.mergeIntoNewest agg lsn tiers with
  | case1 => exact ⟨⟨_, mem_cons_self, le_rfl, Grows.refl _⟩, fun tier inside => nomatch inside⟩
  | case2 newest =>
    refine ⟨⟨_, mem_cons_self, le_max_right _ _, grows_merge_right _ _⟩, ?_⟩
    intro tier inside
    rw [mem_singleton.mp inside]
    exact ⟨_, mem_cons_self, le_max_left _ _, grows_merge_left _ _⟩
  | case3 first rest _ ih =>
    obtain ⟨⟨tg, hTarget, bound, grows⟩, os⟩ := ih
    refine ⟨⟨tg, mem_cons_of_mem _ hTarget, bound, grows⟩, ?_⟩
    intro tier inside
    rcases mem_cons.mp inside with rfl | inside
    · exact ⟨tier, mem_cons_self, le_rfl, Grows.refl _⟩
    · obtain ⟨tier', inside', bound', grows'⟩ := os tier inside
      exact ⟨tier', mem_cons_of_mem _ inside', bound', grows'⟩

private theorem CommittedBy.mono {a b : Lsn} (committed : CommittedBy commit seq a) (le : a ≤ b) :
    CommittedBy commit seq b := by
  obtain ⟨i, hf, below⟩ := committed
  exact ⟨i, hf, below.trans le⟩

private theorem held_stamp {lsn : Lsn} (held : Held commit tiers seq write)
    (cover : ∀ latest, tiers.active.map Prod.fst = some latest → seq ≤ latest →
      latest ≤ stampSeq → CommittedBy commit seq lsn) :
    Held commit (tiers.stamp stampSeq lsn) seq write := by
  unfold TableTiers.stamp
  split
  · rename_i latest aggregate active
    split
    · rename_i old
      have stamped : (∃ tier ∈ tiers.waiting, CommittedBy commit seq tier.bound ∧
          Covers tier.aggregate write) ∨ CommittedBy commit seq lsn ∧ Covers aggregate write := by
        rcases held with ⟨latest', aggregate', active', earlier, covers⟩ | waiting
        · rw [active] at active'
          cases active'
          exact Or.inr ⟨cover latest (by rw [active]; rfl) earlier old, covers⟩
        · exact Or.inl waiting
      split
      · obtain ⟨⟨tg, hTarget, bound, grows⟩, os⟩ :=
          held_mergeIntoNewest aggregate lsn tiers.waiting
        rcases stamped with ⟨tier, inside, committed, covers⟩ | ⟨committed, covers⟩
        · obtain ⟨tier', inside', bound', grows'⟩ := os tier inside
          exact Or.inr ⟨tier', inside', committed.mono bound', covers_of_grows grows' covers⟩
        · exact Or.inr ⟨tg, hTarget, committed.mono bound, covers_of_grows grows covers⟩
      · rcases stamped with ⟨tier, inside, facts⟩ | facts
        · exact Or.inr ⟨tier, mem_append_left _ inside, facts⟩
        · exact Or.inr ⟨_, mem_append_right _ mem_cons_self, facts⟩
    · exact held
  · exact held

private theorem held_purge (held : Held commit tiers seq write)
    (pending : (commit seq).all (watermark < ·) = true) :
    ∃ kept, tiers.purge watermark = some kept ∧ Held commit kept seq write := by
  unfold TableTiers.purge
  simp only
  rcases held with ⟨hlt, agg, active, facts⟩ | ⟨tier, hm, committed, covers⟩
  · refine ⟨_, if_neg ?_, Or.inl ⟨hlt, agg, active, facts⟩⟩
    simp [TableTiers.isEmpty, active]
  · obtain ⟨i, hf, below⟩ := committed
    have above : watermark < tier.bound := by
      rw [hf] at pending
      exact (of_decide_eq_true pending).trans_le below
    have kept : tier ∈ tiers.waiting.filter fun tier => tier.bound > watermark :=
      List.mem_filter.mpr ⟨hm, by simpa using above⟩
    refine ⟨_, if_neg ?_, Or.inr ⟨tier, kept, ⟨i, hf, below⟩, covers⟩⟩
    simp only [TableTiers.isEmpty, Bool.and_eq_true, List.isEmpty_iff, not_and]
    exact fun empty => (List.ne_nil_of_mem kept empty).elim

/-! ### The connection -/

private theorem connectionHeld_stamp {tiers : ConnectionTiers} {lsn : Lsn}
    (held : ConnectionHeld commit tiers seq)
    (cover : ∀ hlt, tiers.active = some hlt → seq ≤ hlt → hlt ≤ stampSeq →
      CommittedBy commit seq lsn) :
    ConnectionHeld commit (tiers.stamp stampSeq lsn) seq := by
  unfold ConnectionTiers.stamp
  split
  · exact held
  · split
    · rename_i old
      refine Or.inr ⟨_, rfl, ?_⟩
      rcases held with ⟨hlt, active, earlier⟩ | ⟨b, waiting, committed⟩
      · rw [active] at old
        have committed := cover hlt active earlier (of_decide_eq_true old)
        cases tiers.waiting with
        | none => exact committed
        | some prior => exact committed.mono (le_max_left lsn prior)
      · rw [waiting]
        exact committed.mono (le_max_right lsn b)
    · exact held

private theorem connectionHeld_purge {tiers : ConnectionTiers}
    (held : ConnectionHeld commit tiers seq) (pending : (commit seq).all (watermark < ·) = true) :
    ConnectionHeld commit (tiers.purge watermark) seq := by
  unfold ConnectionTiers.purge
  split
  · rename_i passed
    rcases held with active | ⟨b, waiting, i, hf, below⟩
    · exact Or.inl active
    · rw [waiting] at passed
      rw [hf] at pending
      have order := (of_decide_eq_true pending).trans_le (below.trans (of_decide_eq_true passed))
      exact (lt_irrefl _ order).elim
  · exact held

/-! ### The log -/

private theorem logged_tableActive_old {now : Nat}
    (logged : Logged commit log seq write) (earlier : seq ≤ now)
    (grows : ∀ agg, Grows agg (change agg)) :
    Logged commit (log.tableActive relation now change) seq write := by
  unfold Logged at logged ⊢
  split at logged
  · rename_i tg scope
    obtain ⟨bucket, tiers, foundBucket, foundTiers, held⟩ := logged
    simp only [tableActive, lookup_modify]
    by_cases sameName : tg.name = relation.name
    · rw [if_pos sameName, ← sameName, foundBucket, getD_some]
      by_cases sameSchema : tg.schema = relation.schema
      · refine ⟨_, _, rfl, ?_, held_activeModify held earlier grows⟩
        rw [lookup_modify, if_pos sameSchema, ← sameSchema, foundTiers, getD_some]
      · exact ⟨_, tiers, rfl, by rw [lookup_modify, if_neg sameSchema, foundTiers], held⟩
    · exact ⟨bucket, tiers, by rw [if_neg sameName, foundBucket], foundTiers, held⟩
  · exact logged

private theorem logged_tableActive_new (log : WriteLog) (tg : write.relation? = some relation)
    (covers : ∀ agg, Covers (change agg) write) :
    Logged commit (log.tableActive relation seq change) seq write := by
  unfold Logged
  rw [tg]
  simp only [tableActive, lookup_modify, if_pos]
  exact ⟨_, _, rfl, (lookup_modify _ _ _ _ _).trans (if_pos rfl), held_activeModify_new _ covers⟩

private theorem logged_stamp {lsn : Lsn} (logged : Logged commit log seq write)
    (cover : ∀ hlt, newest log write.relation? = some hlt → seq ≤ hlt →
      hlt ≤ stampSeq → CommittedBy commit seq lsn) :
    Logged commit (log.stamp stampSeq lsn) seq write := by
  unfold Logged at logged ⊢
  split at logged
  · rename_i tg
    rw [tg] at cover
    obtain ⟨bucket, tiers, foundBucket, foundTiers, held⟩ := logged
    refine ⟨_, _, (lookup_retain _ _ _ _).mpr ⟨bucket, foundBucket, rfl⟩,
      (lookup_retain _ _ _ _).mpr ⟨tiers, foundTiers, rfl⟩, held_stamp held ?_⟩
    simpa only [newest, tiersOf, foundBucket, bind_some, foundTiers, getD_some] using cover
  · rename_i tg
    rw [tg] at cover
    exact connectionHeld_stamp logged cover

private theorem logged_purge (logged : Logged commit log seq write)
    (pending : (commit seq).all (watermark < ·) = true) :
    Logged commit (log.purge watermark) seq write := by
  unfold Logged at logged ⊢
  split at logged
  · obtain ⟨bucket, tiers, foundBucket, foundTiers, held⟩ := logged
    obtain ⟨kept, purged, held⟩ := held_purge held pending
    have hm := (lookup_retain (fun _ tiers => tiers.purge watermark) bucket _ kept).mpr
      ⟨tiers, foundTiers, purged⟩
    refine ⟨_, kept, (lookup_retain _ _ _ _).mpr ⟨bucket, foundBucket, if_neg ?_⟩, hm, held⟩
    simpa using ne_nil_of_mem ((mem_entries_iff _ _ _).mpr hm)
  · exact connectionHeld_purge logged pending

/-! ### Whole runs -/

theorem recorded_concat (operation : Operation) :
    recorded (operations ++ [operation]) = recorded operations ++ recorded [operation] := by
  simp [recorded, filterMap_append]

private theorem recorded_concat_other (o : ∀ write, operation ≠ .record write) :
    recorded (operations ++ [operation]) = recorded operations := by
  cases operation with
  | record write => exact (o write rfl).elim
  | _ => simp [recorded, filterMap_append]

private theorem watermarks_concat (operation : Operation) :
    watermarks (operations ++ [operation]) = watermarks operations ++ watermarks [operation] := by
  simp [watermarks, filterMap_append]

private theorem isPending_concat {operations : List Operation}
    (pending : isPending commit (operations ++ [operation]) seq = true) :
    isPending commit operations seq = true ∧
      ∀ watermark, operation = .purge watermark → (commit seq).all (watermark < ·) = true := by
  unfold isPending at pending ⊢
  rw [watermarks_concat, all_append, Bool.and_eq_true] at pending
  refine ⟨pending.1, ?_⟩
  rintro watermark rfl
  simpa [watermarks] using pending.2

private theorem logged_record (commit : Nat → Option Lsn) (enabled : log.enabled = true)
    (stampable : log.connection.unstampable = false) (write : WriteClass) :
    (log.record write).connection.unstampable = true ∨
      Logged commit (log.record write) log.nextSeq write ∧
        ∀ seq other, seq ≤ log.nextSeq → Logged commit log seq other →
          Logged commit (log.record write) seq other := by
  simp only [record, enabled, Bool.not_true, Bool.false_eq_true, if_false, stampable]
  cases write with
  | insertRows insert =>
    exact Or.inr ⟨logged_tableActive_new _ rfl fun a => covers_recordInsert a insert,
      fun seq other earlier logged => logged_tableActive_old logged earlier fun a =>
        grows_recordInsert a insert⟩
  | deleteRows delete =>
    exact Or.inr ⟨logged_tableActive_new _ rfl fun a => covers_recordDelete a delete,
      fun seq other earlier logged => logged_tableActive_old logged earlier fun a =>
        grows_recordDelete a delete⟩
  | updateRows update =>
    exact Or.inr ⟨logged_tableActive_new _ rfl fun a => covers_recordUpdate a update,
      fun seq other earlier logged => logged_tableActive_old logged earlier fun a =>
        grows_recordUpdate a update⟩
  | table relation =>
    exact Or.inr ⟨logged_tableActive_new _ rfl fun a => Or.inl rfl,
      fun seq other earlier logged => logged_tableActive_old logged earlier fun a => Or.inl rfl⟩
  | connection =>
    refine Or.inr ⟨Or.inl ⟨log.nextSeq, rfl, le_rfl⟩, ?_⟩
    intro seq other earlier logged
    unfold Logged at logged ⊢
    split at logged
    · exact logged
    · exact Or.inl ⟨log.nextSeq, rfl, earlier⟩
  | connectionUnstampable => exact Or.inl rfl

theorem record_enabled (enabled : log.enabled = true) (write : WriteClass) :
    (log.record write).enabled = true ∧ (log.record write).nextSeq = log.nextSeq + 1 ∧
      (log.connection.unstampable = true → (log.record write).connection.unstampable = true) := by
  simp only [record, enabled, Bool.not_true, Bool.false_eq_true, if_false]
  cases barred : log.connection.unstampable <;> cases write <;> simp [tableActive, barred]

private theorem accounted_concat {operations : List Operation}
    (hb : Accounted commit operations log) (o : ∀ write, operation ≠ .record write) :
    Accounted commit (operations ++ [operation]) log := by
  have same := recorded_concat_other operations o
  refine ⟨hb.enabled, by rw [same]; exact hb.nextSeq, hb.logged.imp id ?_⟩
  intro logged seq write hf pending
  rw [same] at hf
  exact logged seq write hf (isPending_concat pending).1

/-- A stamp settles a run: its position covers the commits of the writes it stamps. -/
def Settles (commit : Nat → Option Lsn) (operations : List Operation) (log : WriteLog)
    (stampSeq : Nat) (lsn : Lsn) : Prop :=
  log.connection.unstampable = false → ∀ seq write latest,
    (recorded operations)[seq]? = some write →
    newest log write.relation? = some latest → seq ≤ latest → latest ≤ stampSeq →
      CommittedBy commit seq lsn

theorem accounted_step {operations : List Operation} (before : Accounted commit operations log)
    (cover : ∀ stampSeq lsn, operation = .stamp stampSeq lsn →
      Settles commit operations log stampSeq lsn) :
    Accounted commit (operations ++ [operation]) (step log operation) := by
  obtain ⟨enabled, nextSeq, logged⟩ := before
  cases operation with
  | record write =>
    obtain ⟨enabled', nextSeq', barred⟩ := record_enabled enabled write
    refine ⟨enabled', ?_, ?_⟩
    · simp [step, nextSeq', nextSeq, recorded]
    · cases stampable : log.connection.unstampable with
      | true => exact Or.inl (barred stampable)
      | false =>
        refine (logged_record commit enabled stampable write).imp id ?_
        rintro ⟨new, old⟩ seq o hf pending
        have logged := logged.resolve_left (by rw [stampable]; exact Bool.false_ne_true)
        rw [recorded_concat] at hf
        rcases Nat.lt_or_ge seq (recorded operations).length with earlier | later
        · rw [getElem?_append_left earlier] at hf
          exact old seq o (by omega) (logged seq o hf (isPending_concat pending).1)
        · rw [getElem?_append_right later] at hf
          have last : seq = log.nextSeq ∧ o = write := by
            cases gap : seq - (recorded operations).length with
            | zero =>
              rw [gap] at hf
              cases hf
              exact ⟨by omega, rfl⟩
            | succ n =>
              rw [gap] at hf
              cases hf
          rw [last.1, last.2]
          exact new
  | stamp stampSeq lsn =>
    have same : recorded (operations ++ [.stamp stampSeq lsn]) = recorded operations :=
      recorded_concat_other operations fun _ => by simp
    refine ⟨enabled, by rw [same]; exact nextSeq, ?_⟩
    cases barred : log.connection.unstampable with
    | true =>
      left
      simp [step, stamp, ConnectionTiers.stamp, barred]
    | false =>
      right
      intro seq write hf pending
      rw [same] at hf
      have logged := logged.resolve_left (by rw [barred]; exact Bool.false_ne_true)
      exact logged_stamp (logged seq write hf (isPending_concat pending).1)
        fun hlt => cover stampSeq lsn rfl barred seq write hlt hf
  | purge watermark =>
    have same : recorded (operations ++ [.purge watermark]) = recorded operations :=
      recorded_concat_other operations fun _ => by simp
    refine ⟨enabled, by rw [same]; exact nextSeq, ?_⟩
    rcases logged with barred | logged
    · left
      simp only [step, purge, ConnectionTiers.purge]
      split <;> exact barred
    · right
      intro seq write hf pending
      rw [same] at hf
      obtain ⟨earlier, now⟩ := isPending_concat pending
      exact logged_purge (logged seq write hf earlier) (now watermark rfl)
  | stampSeq | decide => exact accounted_concat ⟨enabled, nextSeq, logged⟩ fun _ => by simp

theorem accounted_run (cover : ∀ hb stampSeq lsn after,
      operations = hb ++ .stamp stampSeq lsn :: after → Settles commit hb (run hb) stampSeq lsn) :
    Accounted commit operations (run operations) := by
  induction operations using reverseRecOn with
  | nil => exact ⟨rfl, rfl, Or.inr fun seq write hf => nomatch hf⟩
  | append_singleton operations operation ih =>
    have earlier := ih fun hb stampSeq lsn after same =>
      cover hb stampSeq lsn (after ++ [operation]) (by simp [same])
    rw [run, foldl_append]
    refine accounted_step earlier ?_
    rintro stampSeq lsn rfl
    exact cover operations stampSeq lsn [] rfl

theorem StampsCover.accounted {operations : List Operation}
    (cover : StampsCover commit operations) :
    Accounted commit operations (run operations) := by
  refine accounted_run operations ?_
  intro hb stampSeq lsn after same _ seq write hlt hf _ earlier old
  exact cover hb stampSeq lsn after same seq (List.getElem?_eq_some_iff.mp hf).1 (earlier.trans old)

/-! ### The verdict on a read -/

private theorem aggregatesIntersect_none {state : Option RawBlocker × DisjointKinds}
    {bounded : Option Lsn × TableAggregate}
    (clear : (aggregatesIntersect readRanges state bounded).1 = none) :
    state.1 = none ∧
      ∃ kinds, aggregateIntersects bounded.2 readRanges state.2 = (false, kinds) := by
  unfold aggregatesIntersect at clear
  split at clear
  · cases clear
  · rename_i kinds passed
    exact ⟨clear, kinds, passed⟩

private theorem foldl_aggregatesIntersect_none (aggregates : List (Option Lsn × TableAggregate))
    (state : Option RawBlocker × DisjointKinds)
    (clear : (aggregates.foldl (aggregatesIntersect readRanges) state).1 = none) :
    state.1 = none ∧ ∀ bounded ∈ aggregates, ∃ kinds kinds',
      aggregateIntersects bounded.2 readRanges kinds = (false, kinds') := by
  induction aggregates generalizing state with
  | nil => exact ⟨clear, fun bounded hm => nomatch hm⟩
  | cons first rest ih =>
    obtain ⟨middle, tail⟩ := ih _ clear
    obtain ⟨start, kinds, passed⟩ := aggregatesIntersect_none middle
    refine ⟨start, ?_⟩
    intro bounded hm
    rcases mem_cons.mp hm with rfl | hm
    · exact ⟨state.2, kinds, passed⟩
    · exact tail bounded hm

variable {table : TableNode}

private theorem tableIntersects_none {kinds : DisjointKinds}
    (clear : (log.tableIntersects table readRanges kinds).1 = none) {bucket : SchemaBucket}
    (hf : log.tables.lookup table.name = some bucket) {schema : Option String}
    (hm : bucket.lookup schema = some tiers)
    (matching : schemaMatches schema table.schema = true) :
    ∀ bounded ∈ tiers.aggregatesBounded, ∃ kinds kinds',
      aggregateIntersects bounded.2 readRanges kinds = (false, kinds') := by
  simp only [tableIntersects, hf] at clear
  have scan (es : List (Sigma fun _ : Option String => TableTiers))
      (state : Option RawBlocker × DisjointKinds)
      (clear : (es.foldl (fun state e =>
        if schemaMatches e.1 table.schema then
          e.2.aggregatesBounded.foldl (aggregatesIntersect readRanges) state
        else state) state).1 = none) :
      state.1 = none ∧ ∀ e ∈ es, schemaMatches e.1 table.schema = true →
        ∀ bounded ∈ e.2.aggregatesBounded, ∃ kinds kinds',
          aggregateIntersects bounded.2 readRanges kinds = (false, kinds') := by
    induction es generalizing state with
    | nil => exact ⟨clear, fun e hm => nomatch hm⟩
    | cons first rest ih =>
      obtain ⟨middle, tail⟩ := ih _ clear
      by_cases visited : schemaMatches first.1 table.schema = true
      · simp only [visited, if_true] at middle
        obtain ⟨start, passed⟩ := foldl_aggregatesIntersect_none _ _ middle
        refine ⟨start, ?_⟩
        intro e hm matching
        rcases mem_cons.mp hm with rfl | hm
        · exact passed
        · exact tail e hm matching
      · simp only [visited, Bool.false_eq_true, if_false] at middle
        refine ⟨middle, ?_⟩
        intro e hm matching
        rcases mem_cons.mp hm with rfl | hm
        · exact (visited matching).elim
        · exact tail e hm matching
  exact (scan _ _ clear).2 ⟨schema, tiers⟩ ((mem_entries_iff _ _ _).mpr hm) matching

section Verdict

variable {V τ : Type} [LinearOrder V] {S : ColumnValues V} {names : NameResolution τ}

private theorem schemaMatches_of_table_eq
    (same : names.table relation = names.table ⟨table.schema, table.name⟩) :
    schemaMatches relation.schema table.schema = true := by
  cases left : relation.schema with
  | none => rfl
  | some a =>
    cases right : table.schema with
    | none => rfl
    | some b =>
      rw [right] at same
      simp [schemaMatches, names.schema_eq same left rfl]

theorem not_disturbs_of_served {log : WriteLog}
    {readRanges : Option ColumnRanges} {p : Row V → Prop} {seq : Nat} {write : WriteClass}
    (served : (log.decide [table] readRanges).serves = true)
    (logged : Logged commit log seq write)
    (reaches : Reaches names write (names.table ⟨table.schema, table.name⟩))
    (contain : ∀ ranges, readRanges = some ranges → ∀ row, p row → RowWithin S ranges row)
    (alike : ∀ ranges, readRanges = some ranges → SpelledAlike S ranges write) :
    ¬ Disturbs S write p := by
  unfold WriteLog.decide at served
  split at served
  · cases served
  · rename_i connectionClear
    simp only [ConnectionTiers.isEmpty, Bool.not_eq_true', Bool.not_eq_false,
      Bool.and_eq_true, isNone_iff_eq_none] at connectionClear
    simp only [WriteLog.walkTables] at served
    cases verdict : log.tableIntersects table readRanges {} with
    | mk blocker kinds =>
      rw [verdict] at served
      cases blocker with
      | some blocker => cases served
      | none =>
        unfold Logged at logged
        split at logged
        · rename_i relation tg
          obtain ⟨bucket, tiers, foundBucket, foundTiers, held⟩ := logged
          have same := reaches relation tg
          rw [names.name_eq same] at foundBucket
          have passed := tableIntersects_none (by rw [verdict]) foundBucket foundTiers
            (schemaMatches_of_table_eq same)
          rcases held with ⟨hlt, agg, active, _, covers⟩ | ⟨tier, hm, _, covers⟩
          · obtain ⟨_, _, clear⟩ :=
              passed (none, agg) (by simp [TableTiers.aggregatesBounded, active])
            exact not_disturbs_of_not_intersects clear covers contain alike
          · obtain ⟨_, _, clear⟩ := passed (some tier.bound, tier.aggregate)
              (mem_append_left _ (mem_map_of_mem hm))
            exact not_disturbs_of_not_intersects clear covers contain alike
        · rcases logged with ⟨hlt, active, _⟩ | ⟨b, waiting, _⟩
          · rw [connectionClear.1.2] at active
            cases active
          · rw [connectionClear.1.1] at waiting
            cases waiting

/-- Read-after-write safety. Along any run whose stamps cover what they stamp, a single-table
read served from the cache is left alone by the pending writes of the connection applied in
order, provided the literals of those writes are spelled like the read's. -/
theorem served_read_unaffected (S : ColumnValues V) (names : NameResolution τ)
    (commit : Nat → Option Lsn) (operations : List Operation)
      (cover : StampsCover commit operations) (table : TableNode)
    (readRanges : Option ColumnRanges) (p : Row V → Prop) [DecidablePred p]
    (contain : ∀ ranges, readRanges = some ranges → ∀ row, p row → RowWithin S ranges row)
    (alike : ∀ write ∈ recorded operations, ∀ ranges, readRanges = some ranges →
      SpelledAlike S ranges write)
    (served : ((run operations).decide [table] readRanges).serves = true)
    (before after : τ → Multiset (Row V))
    (applied : AppliesAll S names (pendingWrites commit operations) before after) :
    (after (names.table ⟨table.schema, table.name⟩)).filter p =
      (before (names.table ⟨table.schema, table.name⟩)).filter p := by
  have account := cover.accounted
  refine filter_of_appliesAll _ ?_ applied
  intro write inside reaches
  obtain ⟨⟨found, seq⟩, kept, rfl⟩ := mem_map.mp inside
  obtain ⟨position, pending⟩ := mem_filter.mp kept
  have position := mem_zipIdx_iff_getElem?.mp position
  have stampable : (run operations).connection.unstampable ≠ true := by
    intro barred
    simp [WriteLog.decide, ConnectionTiers.isEmpty, barred, RawDecision.serves] at served
  have logged := account.logged.resolve_left stampable seq found position pending
  exact not_disturbs_of_served served logged reaches contain
    fun ranges same => alike found (mem_of_getElem? position) ranges same

end Verdict

/-! ### Runs on a table of numbers -/

def numericValues : ColumnValues ℚ where
  literal := fun _ literal =>
    match literal.numeric? with
    | some (.fin q) => some q
    | _ => none
  numeric := by
    intro column a b x y m n hx hy hm hn
    rw [hm] at hx
    rw [hn] at hy
    cases m <;> cases n <;> cases hx <;> cases hy
    rfl

def writtenNames : NameResolution RelationRef where
  table := id
  name_eq := fun same => congrArg RelationRef.name same
  schema_eq := by
    intro a b same x y hx hy
    rw [show a = b from same, hy] at hx
    exact (some.inj hx).symm

def items : RelationRef := ⟨none, "items"⟩

def rowWithId (id : ℚ) : Row ℚ := fun column => if column = "id" then some id else none

def idFive : ColumnRanges := (∅ : ColumnRanges).insert "id" (.equal (.integer 5))

private theorem rowWithin_idFive {row : Row ℚ} (is : row "id" = some 5) :
    RowWithin numericValues idFive row := by
  intro c range hf
  by_cases same : c = "id"
  · subst same
    rw [idFive, AList.lookup_insert] at hf
    cases hf
    exact ⟨5, 5, is, rfl, rfl⟩
  · rw [idFive, AList.lookup_insert_ne same] at hf
    cases hf

private theorem applies_items {hb after : RelationRef → Multiset (Row ℚ)}
    (tg : write.relation? = some items)
    (elsewhere : ∀ table, table ≠ items → after table = hb table)
    (replaced : Replaced (Removes numericValues write) (Adds numericValues write)
      (hb items) (after items)) : Applies numericValues writtenNames write hb after := by
  intro table
  by_cases same : table = items
  · subst same
    refine Or.inl ⟨?_, replaced⟩
    intro relation hf
    rw [tg] at hf
    cases hf
    rfl
  · exact Or.inr (elsewhere table same)

def deleteTwiceSpelled : List Operation :=
  [.record (.deleteRows ⟨items, [("id", .equal, .integer 5), ("id", .equal, .float (.fin 5))]⟩)]

def oneItem : RelationRef → Multiset (Row ℚ) := fun _ => {rowWithId 5}
def noItem : RelationRef → Multiset (Row ℚ) :=
  fun table => if table = items then 0 else oneItem table

theorem removes_twiceSpelled : Removes numericValues (.deleteRows
      ⟨items, [("id", .equal, .integer 5), ("id", .equal, .float (.fin 5))]⟩) (rowWithId 5) := by
  intro c cj
  simp only [mem_cons, not_mem_nil, or_false] at cj
  rcases cj with rfl | rfl
  · exact ⟨5, 5, rfl, rfl, rfl⟩
  · exact ⟨5, 5, rfl, rfl, rfl⟩

/-- The DELETE removes the row that a served `id = 5` read returns: its two spellings of one
number are taken for a contradiction, and an unsatisfiable predicate misses every read. -/
theorem delete_twice_spelled_served : StampsCover (fun _ => none) deleteTwiceSpelled ∧
    (∀ row : Row ℚ, row "id" = some 5 → RowWithin numericValues idFive row) ∧
    ((run deleteTwiceSpelled).decide [⟨none, "items"⟩] (some idFive)).serves = true ∧
    AppliesAll numericValues writtenNames (pendingWrites (fun _ => none) deleteTwiceSpelled)
      oneItem noItem ∧
    (noItem items).filter (fun row => row "id" = some 5) ≠
      (oneItem items).filter fun row => row "id" = some 5 := by
  refine ⟨?_, fun row is => rowWithin_idFive is, by decide, ⟨noItem, ?_, rfl⟩, ?_⟩
  · intro before stampSeq lsn after same
    rcases before with _ | ⟨first, _ | _⟩ <;> simp [deleteTwiceSpelled] at same
  · refine applies_items rfl (fun table other => if_neg other)
      ⟨0, {rowWithId 5}, 0, rfl, rfl, ?_, fun row inside => by simp at inside⟩
    intro row inside
    rw [Multiset.mem_singleton.mp inside]
    exact removes_twiceSpelled
  · have kept : (oneItem items).filter (fun row => row "id" = some 5) = {rowWithId 5} := by
      rw [oneItem, Multiset.filter_singleton]
      exact if_pos rfl
    rw [kept]
    simp [noItem]

def insertThenUpdate : List Operation :=
  [.record (.insertRows ⟨items, ["id"], [[some (.integer 7)]]⟩),
   .record (.updateRows ⟨items, [("id", .equal, .integer 7)], [("id", some (.integer 8))]⟩),
   .stampSeq, .stamp 1 20, .purge 10]

def itemsWith (id : ℚ) : RelationRef → Multiset (Row ℚ) := fun table =>
  if table = items then {rowWithId 5, rowWithId id} else oneItem table

private theorem spelledAlike_idFive (equalities : ∀ c, EqualitiesSpelledAlike numericValues c
      (onColumn (whereOf write) c))
    (numbers : ∀ c l, Mentions write c l → l.numeric?.isSome) :
    SpelledAlike numericValues idFive write := by
  refine ⟨equalities, ?_⟩
  intro c l mentioned range hf o hm
  obtain ⟨n, number⟩ := isSome_iff_exists.mp (numbers c l mentioned)
  by_cases same : c = "id"
  · subst same
    rw [idFive, AList.lookup_insert] at hf
    cases hf
    rw [mem_singleton.mp hm]
    exact eqAgrees_of_numeric rfl number
  · rw [idFive, AList.lookup_insert_ne same] at hf
    cases hf

theorem equalities_insertThenUpdate : ∀ write ∈ recorded insertThenUpdate, ∀ c,
    EqualitiesSpelledAlike numericValues c (onColumn (whereOf write) c) := by
  intro write hm c a b x ha hb _ _
  simp only [recorded, insertThenUpdate, filterMap_cons, filterMap_nil,
    mem_cons, not_mem_nil, or_false] at hm
  rcases hm with rfl | rfl
  · cases ha
  · simp only [onColumn, whereOf, mem_map, mem_filter, mem_singleton] at ha hb
    obtain ⟨_, ⟨rfl, _⟩, ha⟩ := ha
    obtain ⟨_, ⟨rfl, _⟩, hb⟩ := hb
    cases ha
    cases hb
    rfl

theorem insert_then_update_unaffected : (itemsWith 8 items).filter (fun row => row "id" = some 5) =
      (oneItem items).filter fun row => row "id" = some 5 := by
  refine served_read_unaffected numericValues writtenNames (fun seq => some (15 + seq))
    insertThenUpdate ?_ ⟨none, "items"⟩ (some idFive) _ ?_ ?_ (by decide) oneItem (itemsWith 8)
    ⟨itemsWith 7, ?_, itemsWith 8, ?_, rfl⟩
  · intro before stampSeq lsn after same seq bound _
    have stamp : Operation.stamp stampSeq lsn ∈ insertThenUpdate := by rw [same]; simp
    have count : (recorded before).length ≤ (recorded insertThenUpdate).length := by
      rw [same, recorded, recorded, filterMap_append]
      simp
    simp only [insertThenUpdate, mem_cons, reduceCtorEq, Operation.stamp.injEq, false_or,
      not_mem_nil, or_false] at stamp
    obtain ⟨rfl, rfl⟩ := stamp
    have two : (recorded insertThenUpdate).length = 2 := by decide
    refine ⟨15 + seq, rfl, ?_⟩
    change 15 + seq ≤ 20
    omega
  · intro ranges same row is
    cases same
    exact rowWithin_idFive is
  · intro write inside ranges same
    cases same
    have equalities := equalities_insertThenUpdate write inside
    simp only [recorded, insertThenUpdate, filterMap_cons, filterMap_nil,
      mem_cons, not_mem_nil, or_false] at inside
    rcases inside with rfl | rfl
    · refine spelledAlike_idFive equalities ?_
      rintro column literal ⟨cells, hcells, cell⟩
      simp only [mem_singleton] at hcells
      subst hcells
      simp only [zip_cons_cons, zip_nil_right, mem_singleton, Prod.mk.injEq,
        some.injEq] at cell
      rw [cell.2]
      rfl
    · refine spelledAlike_idFive equalities ?_
      rintro column literal (⟨op, conjunct⟩ | assignment)
      · simp only [mem_singleton, Prod.mk.injEq] at conjunct
        rw [conjunct.2.2]
        rfl
      · simp only [mem_singleton, Prod.mk.injEq, some.injEq] at assignment
        rw [assignment.2]
        rfl
  · refine applies_items rfl (fun table other => if_neg other)
      ⟨{rowWithId 5}, 0, {rowWithId 7}, rfl, rfl, fun row inside => by simp at inside, ?_⟩
    intro row inside
    rw [Multiset.mem_singleton.mp inside]
    refine ⟨_, mem_cons_self, ?_⟩
    intro column literal cell
    simp only [zip_cons_cons, zip_nil_right, mem_singleton, Prod.mk.injEq,
      some.injEq] at cell
    rw [cell.1, cell.2]
    rfl
  · refine applies_items rfl (fun table other => by simp [itemsWith, other])
      ⟨{rowWithId 5}, {rowWithId 7}, {rowWithId 8}, rfl, rfl, ?_, ?_⟩
    · intro row inside
      rw [Multiset.mem_singleton.mp inside]
      intro c conjunct
      rw [mem_singleton.mp conjunct]
      exact ⟨7, 7, rfl, rfl, rfl⟩
    · intro row inside
      rw [Multiset.mem_singleton.mp inside]
      refine ⟨rowWithId 7, ?_, ?_⟩
      · intro c conjunct
        rw [mem_singleton.mp conjunct]
        exact ⟨7, 7, rfl, rfl, rfl⟩
      · intro column
        by_cases same : "id" = column
        · subst same
          rfl
        · simp [lastAssignment, same, rowWithId, Ne.symm same]

end PgCache.ReadAfterWrite.Safety
