/- source: cache/writer/merge_queue/drain.rs, cache/writer/merge_queue/step.rs
   digest: The drain of staging tables in windows of heap blocks, whose size adapts and whose target
     may change on the way. -/
import Mathlib.Algebra.Ring.Nat
import Mathlib.Data.List.Range
import Mathlib.Order.Nat

set_option autoImplicit false

namespace PgCache.Cache.Drain

open List

inductive DrainCursor where
  | relationStart (index : Nat)
  | inRelation (index nextBlock blocks : Nat)
  | done

def DrainCursor.afterRelation (index stagedLen : Nat) : DrainCursor :=
  if index < stagedLen then .relationStart index else .done

def DrainCursor.first (stagedLen : Nat) : DrainCursor := .afterRelation 0 stagedLen

structure ChunkWindow where
  index : Nat
  loBlock : Nat
  hiBlock : Nat
  blocks : Nat

def mergeChunkBlocksInitial : Nat := 64
def mergeChunkBlocksMin : Nat := 4
def mergeChunkBlocksMax : Nat := 8192

/-- `MergeInProgress`; its target is to apply or to discard. The last field is bookkeeping of the
statement: the windows drained so far. -/
structure MergeInProgress where
  stagedLen : Nat
  applying : Bool
  cursor : DrainCursor
  chunkBlocks : Nat
  windows : List ChunkWindow

structure Turn where
  stop : Bool
  blocks : UInt32
  scaled : UInt32

namespace MergeInProgress

def new (stagedLen : Nat) (applying : Bool) : MergeInProgress :=
  ⟨stagedLen, applying, .first stagedLen, mergeChunkBlocksInitial, []⟩

variable (drain : MergeInProgress)

def chunkFinish (window : ChunkWindow) (scaled : UInt32) : MergeInProgress :=
  { drain with
    chunkBlocks := max mergeChunkBlocksMin (min scaled.toNat mergeChunkBlocksMax)
    cursor :=
      if window.hiBlock ≥ window.blocks then .afterRelation (window.index + 1) drain.stagedLen
      else .inRelation window.index window.hiBlock window.blocks
    windows := drain.windows ++ [window] }

def mergeRelationEnter (index blocks : Nat) : MergeInProgress :=
  { drain with
    cursor := if blocks = 0 then .afterRelation (index + 1) drain.stagedLen
      else .inRelation index 0 blocks }

def mergeInProgressStep (turn : Turn) : MergeInProgress :=
  if turn.stop && drain.applying then { drain with applying := false }
  else
    match drain.cursor with
    | .done => drain
    | .relationStart index => drain.mergeRelationEnter index turn.blocks.toNat
    | .inRelation index nextBlock blocks =>
      drain.chunkFinish ⟨index, nextBlock,
        min (min (nextBlock + drain.chunkBlocks) (2 ^ 32 - 1)) blocks, blocks⟩ turn.scaled

def after (turns : Nat → Turn) : Nat → MergeInProgress
  | 0 => drain
  | n + 1 => (after turns n).mergeInProgressStep (turns n)

def entered (turn : Turn) : List Nat :=
  match turn.stop && drain.applying, drain.cursor with
  | false, .relationStart _ => [turn.blocks.toNat]
  | _, _ => []

def counts (turns : Nat → Turn) (n : Nat) : List Nat :=
  (range n).flatMap fun k => (drain.after turns k).entered (turns k)

end MergeInProgress

def span (index lo hi : Nat) : List (Nat × Nat) := (range' lo (hi - lo)).map (index, ·)

def drained (windows : List ChunkWindow) : List (Nat × Nat) :=
  windows.flatMap fun window => span window.index window.loBlock window.hiBlock

def allBlocks (counts : List Nat) : List (Nat × Nat) :=
  counts.zipIdx.flatMap fun (count, index) => span index 0 count

variable {index lo mid hi stagedLen blocks : Nat} {windows : List ChunkWindow} {counts : List Nat}

theorem span_append (low : lo ≤ mid) (high : mid ≤ hi) :
    span index lo mid ++ span index mid hi = span index lo hi := by
  have joined := @range'_append lo (mid - lo) (hi - mid) 1
  rw [Nat.one_mul, Nat.add_sub_cancel' low] at joined
  rw [span, span, ← map_append, joined, span]
  congr 2
  omega

theorem drained_push (windows : List ChunkWindow) (window : ChunkWindow) :
    drained (windows ++ [window]) =
      drained windows ++ span window.index window.loBlock window.hiBlock := by
  rw [drained, flatMap_append, flatMap_singleton, drained]

theorem allBlocks_push : allBlocks (counts ++ [blocks]) =
    allBlocks counts ++ span counts.length 0 blocks := by
  rw [allBlocks, zipIdx_append, flatMap_append, allBlocks]
  simp

def Placed (stagedLen : Nat) (windows : List ChunkWindow) (counts : List Nat) : DrainCursor → Prop
  | .relationStart index =>
    index < stagedLen ∧ counts.length = index ∧ drained windows = allBlocks counts
  | .inRelation index nextBlock blocks =>
    index < stagedLen ∧ nextBlock < blocks ∧ blocks < 2 ^ 32 ∧ ∃ before,
      counts = before ++ [blocks] ∧ before.length = index ∧
        drained windows = allBlocks before ++ span index 0 nextBlock
  | .done => counts.length = stagedLen ∧ drained windows = allBlocks counts

def DrainCursor.left (stagedLen : Nat) : DrainCursor → Nat
  | .relationStart index => 2 ^ 33 * (stagedLen - index)
  | .inRelation index nextBlock blocks => 2 ^ 33 * (stagedLen - (index + 1)) + (blocks - nextBlock)
  | .done => 0

theorem placed_afterRelation (hw : index ≤ stagedLen) (entered : counts.length = index)
    (covered : drained windows = allBlocks counts) :
    Placed stagedLen windows counts (.afterRelation index stagedLen) ∧
      (DrainCursor.afterRelation index stagedLen).left stagedLen =
        2 ^ 33 * (stagedLen - index) := by
  unfold DrainCursor.afterRelation
  split
  · next more => exact ⟨⟨more, entered, covered⟩, rfl⟩
  · next past =>
    obtain rfl := Nat.le_antisymm hw (Nat.le_of_not_lt past)
    rw [Nat.sub_self, Nat.mul_zero]
    exact ⟨⟨entered, covered⟩, rfl⟩

theorem placed_at (hw : counts.length < stagedLen) (fits : hi ≤ blocks) (small : blocks < 2 ^ 32)
    (covered : drained windows = allBlocks counts ++ span counts.length 0 hi) :
    let cursor := if hi ≥ blocks then DrainCursor.afterRelation (counts.length + 1) stagedLen
      else .inRelation counts.length hi blocks
    Placed stagedLen windows (counts ++ [blocks]) cursor ∧ cursor.left stagedLen =
      2 ^ 33 * (stagedLen - (counts.length + 1)) + (blocks - hi) := by
  dsimp only
  split
  · next all =>
    obtain rfl := Nat.le_antisymm fits all
    rw [Nat.sub_self, Nat.add_zero]
    refine placed_afterRelation hw ?_ ?_
    · rw [length_append, length_singleton]
    · rw [allBlocks_push, covered]
  · next more =>
    exact ⟨⟨hw, Nat.lt_of_not_ge more, small, counts, rfl, rfl, covered⟩, rfl⟩

structure Sound (stagedLen : Nat) (counts : List Nat) (drain : MergeInProgress) : Prop where
  tables : drain.stagedLen = stagedLen
  placed : Placed drain.stagedLen drain.windows counts drain.cursor
  nonempty : ∀ window ∈ drain.windows, window.loBlock < window.hiBlock
  low : mergeChunkBlocksMin ≤ drain.chunkBlocks
  high : drain.chunkBlocks ≤ mergeChunkBlocksMax

def work (drain : MergeInProgress) : Nat :=
  drain.applying.toNat + drain.cursor.left drain.stagedLen

variable {drain : MergeInProgress}

theorem Sound.step (sound : Sound stagedLen counts drain) (turn : Turn) :
    Sound stagedLen (counts ++ drain.entered turn) (drain.mergeInProgressStep turn) ∧
      (drain.cursor = .done ∨ work (drain.mergeInProgressStep turn) < work drain) := by
  obtain ⟨rfl, placed, hne, low, high⟩ := sound
  unfold MergeInProgress.mergeInProgressStep MergeInProgress.entered
  cases stops : turn.stop && drain.applying with
  | true =>
    rw [if_pos rfl, append_nil]
    refine ⟨⟨rfl, placed, hne, low, high⟩, .inr ?_⟩
    rw [work, work, (Bool.and_eq_true_iff.mp stops).2]
    exact Nat.add_lt_add_right Nat.one_pos _
  | false =>
    rw [if_neg Bool.false_ne_true]
    cases isCursor : drain.cursor with
    | done =>
      rw [append_nil]
      exact ⟨⟨rfl, placed, hne, low, high⟩, .inl rfl⟩
    | relationStart index =>
      rw [isCursor] at placed
      obtain ⟨hw, rfl, covered⟩ := placed
      have small := turn.blocks.toNat_lt
      obtain ⟨placed, left⟩ :=
        placed_at hw (Nat.zero_le _) small (covered.trans (append_nil _).symm)
      simp only [ge_iff_le, Nat.le_zero] at placed left
      refine ⟨⟨rfl, placed, hne, low, high⟩, .inr (Nat.add_lt_add_left (left.trans_lt ?_) _)⟩
      rw [isCursor, DrainCursor.left]
      omega
    | inRelation index nextBlock blocks =>
      rw [isCursor] at placed
      obtain ⟨hw, more, small, before, rfl, rfl, covered⟩ := placed
      rw [append_nil]
      dsimp only
      generalize isHi : min (min (nextBlock + drain.chunkBlocks) (2 ^ 32 - 1)) blocks = hi
      have grows : nextBlock < hi ∧ hi ≤ blocks := by
        unfold mergeChunkBlocksMin at low
        omega
      have pushed := drained_push drain.windows ⟨before.length, nextBlock, hi, blocks⟩
      rw [covered, append_assoc, span_append (Nat.zero_le _) grows.1.le] at pushed
      obtain ⟨placed, left⟩ := placed_at hw grows.2 small pushed
      refine ⟨⟨rfl, placed, forall_mem_append.mpr ⟨hne, forall_mem_singleton.mpr grows.1⟩,
        le_max_left _ _, max_le (by decide) (min_le_right _ _)⟩,
        .inr (Nat.add_lt_add_left (left.trans_lt ?_) _)⟩
      rw [isCursor, DrainCursor.left]
      omega

section Run

variable {turns : Nat → Turn} (sound : Sound stagedLen [] drain)
include sound

theorem Sound.after (n : Nat) : Sound stagedLen (drain.counts turns n) (drain.after turns n) := by
  induction n with
  | zero => exact sound
  | succ n ih =>
    rw [MergeInProgress.counts, range_succ, flatMap_append, flatMap_singleton]
    exact (ih.step (turns n)).1

theorem work_after {n : Nat} (busy : ∀ k < n, (drain.after turns k).cursor ≠ .done) :
    work (drain.after turns n) + n ≤ work drain := by
  induction n with
  | zero => exact Nat.le_refl _
  | succ n ih =>
    have hb := ih fun k below => busy k (Nat.lt_succ_of_lt below)
    have step := ((sound.after n).step (turns n)).2.resolve_left (busy n (Nat.lt_succ_self n))
    rw [MergeInProgress.after]
    omega

end Run

/-- However the chunk size is scaled and whenever the target changes, the windows of a drain are not
empty and run through the blocks of each table in order, each once, and the drain ends. -/
theorem drain_covers_and_ends (stagedLen : Nat) (applying : Bool) (turns : Nat → Turn) :
    let drain := MergeInProgress.new stagedLen applying
    (∀ n, mergeChunkBlocksMin ≤ (drain.after turns n).chunkBlocks ∧
      (drain.after turns n).chunkBlocks ≤ mergeChunkBlocksMax ∧
      ∀ window ∈ (drain.after turns n).windows, window.loBlock < window.hiBlock) ∧
    ∃ n, (drain.after turns n).cursor = .done ∧ (drain.counts turns n).length = stagedLen ∧
      drained (drain.after turns n).windows = allBlocks (drain.counts turns n) := by
  intro drain
  have start : Sound stagedLen [] drain := ⟨rfl,
    (placed_afterRelation (Nat.zero_le _) rfl rfl).1, nofun, Nat.le_of_ble_eq_true rfl,
    Nat.le_of_ble_eq_true rfl⟩
  have sound : ∀ n, Sound stagedLen (drain.counts turns n) (drain.after turns n) := start.after
  refine ⟨fun n => ⟨(sound n).low, (sound n).high, (sound n).nonempty⟩, ?_⟩
  have ends : ∃ n, (drain.after turns n).cursor = .done := by
    by_contra! busy
    have spent := work_after start (n := work drain + 1) fun k _ => busy k
    omega
  obtain ⟨n, isDone⟩ := ends
  have placed := (sound n).placed
  rw [isDone, (sound n).tables] at placed
  exact ⟨n, isDone, placed⟩

theorem tables_of_seventy_and_three :
    let turns : Nat → Turn := fun n =>
      ⟨n == 2, if n = 0 then 70 else if n = 5 then 0 else 3, 5⟩
    let drain := MergeInProgress.new 3 true
    (drain.after turns 8).windows.map (fun window =>
        (window.index, window.loBlock, window.hiBlock)) =
      [(0, 0, 64), (0, 64, 69), (0, 69, 70), (2, 0, 3)] ∧
    drain.counts turns 8 = [70, 0, 3] ∧
    ∃ n, (drain.after turns n).cursor = .done ∧ (drain.counts turns n).length = 3 ∧
      drained (drain.after turns n).windows = allBlocks (drain.counts turns n) :=
  ⟨by decide, by decide, (drain_covers_and_ends 3 true _).2⟩

end PgCache.Cache.Drain
