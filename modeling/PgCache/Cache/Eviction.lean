/- source: cache/writer/eviction.rs, cache/types.rs
   digest: The eviction round over the cached queries, and the generations that keep the rows of
     a live query from the purge. -/
import PgCache.Cache.Entries
import PgCache.Data.Loop

set_option autoImplicit false

namespace PgCache.Cache.Eviction

open Catalog Data.Keyed Data.Loop Maintenance Decision Mv Entries Registry Option

variable {ρ : Type}

/-! ### The round -/

def maxBumps : Nat := 5

inductive CandidateAction where
  | pinnedBump
  | clockBump
  | skip
  | evict
  deriving DecidableEq

structure Effects where
  referenced : Fingerprint → Bool
  /-- the query was run again and its rows carry the new generation -/
  restamped : Fingerprint → Bool
  /-- a purge after the eviction promoted rows of generation zero -/
  promoted : Fingerprint → Bool
  /-- the purge and the drain after the eviction succeeded -/
  drained : Fingerprint → Bool

variable (effects : Effects) (r : Registry ρ)

def evictionCandidateAction (fp : Fingerprint) (pinned clockBumpAllowed : Bool) :
    CandidateAction :=
  let view := r.stateView.lookup fp
  let ready := view.any (·.state = .ready)
  if pinned then
    if ready then .pinnedBump else .skip
  else if !(clockBumpAllowed && view.any fun _ => effects.referenced fp) then .evict
  else if ready then .clockBump
  else .skip

/-- `cache_query_generation_bump`, and whether it returns `Ok`: a failed call leaves the new
generation behind. -/
def cacheQueryGenerationBump (fp : Fingerprint) : Registry ρ × Bool :=
  match r.cachedQueries.lookup fp with
  | none => (r, true)
  | some query =>
    let allocated := r.generationAllocate
    if effects.restamped fp then
      ({ allocated with
        generations := allocated.generations.erase query.generation
        cachedQueries := r.cachedQueries.insert fp
          { query with generation := allocated.generationCounter } }.viewModify fp fun view =>
            { view with generation := allocated.generationCounter }, true)
    else (allocated, false)

/-- `generation_zero_promote`: the counter moves only when rows were promoted. -/
def generationZeroPromote (promoted : Bool) : Registry ρ :=
  if promoted then { r with generationCounter := r.generationCounter + 1 } else r

def candidateEvict (fp : Fingerprint) : Registry ρ × Bool :=
  (generationZeroPromote (r.cacheQueryEvict fp) (effects.promoted fp), effects.drained fp)

def queryOf (generation : Nat) : Option (Sigma fun _ : Fingerprint => CachedQuery ρ) :=
  r.cachedQueries.entries.find? (·.2.generation = generation)

structure Round (ρ : Type) where
  registry : Registry ρ
  bumps : Nat := 0
  evicted : Nat := 0

variable (policy : CachePolicy) (countCap : Nat) (maxEvictions : Option Nat)

/-- One candidate of the loop of `eviction_run`; the early value says whether the round returns
`Ok`. -/
def candidateVisit (round : Round ρ) (candidate : Nat) : Except (Round ρ × Bool) (Round ρ) :=
  if round.registry.cachedQueries.entries.length ≤ countCap then .error (round, true)
  else
    match queryOf round.registry candidate with
    | none => .ok round
    | some ⟨fp, query⟩ =>
      let bump (bumps : Nat) :=
        let (registry, ok) := cacheQueryGenerationBump effects round.registry fp
        if ok then .ok { round with registry, bumps } else .error ({ round with registry }, false)
      match evictionCandidateAction effects round.registry fp query.pinned
        (policy = .clock && round.bumps < maxBumps) with
      | .pinnedBump => bump round.bumps
      | .clockBump => bump (round.bumps + 1)
      | .skip => .ok round
      | .evict =>
        let (registry, ok) := candidateEvict effects round.registry fp
        if !ok then .error ({ round with registry }, false)
        else
          let round : Round ρ := ⟨registry, 0, round.evicted + 1⟩
          if maxEvictions.any (· ≤ round.evicted) then .error (round, true) else .ok round

/-- `eviction_run`, over a snapshot of the generations in their order. -/
def evictionRun (frameHoldsLocks : Bool) : Registry ρ × Bool :=
  if frameHoldsLocks then (r, true)
  else
    match (r.generations.mergeSort (· ≤ ·)).foldlM
      (candidateVisit effects policy countCap maxEvictions) ⟨r, 0, 0⟩ with
    | .ok round => (round.registry, true)
    | .error (round, ok) => (round.registry, ok)

/-! ### Generations -/

structure Protected (r : Registry ρ) : Prop where
  tracked : ∀ fp q, r.cachedQueries.lookup fp = some q → q.invalidated = false →
    q.generation ∈ r.generations
  positive : ∀ g ∈ r.generations, 0 < g
  bounded : ∀ fp q, r.cachedQueries.lookup fp = some q → q.generation ≤ r.generationCounter
  own : ∀ fp fp' q q', r.cachedQueries.lookup fp = some q → r.cachedQueries.lookup fp' = some q' →
    q.generation = q'.generation → fp = fp'

variable {r} {next : Registry ρ} {fp : Fingerprint} {q : CachedQuery ρ} {effects}

theorem erased {other : Fingerprint} (hq : (r.cachedQueries.erase fp).lookup other = some q) :
    other ≠ fp ∧ r.cachedQueries.lookup other = some q := by
  by_cases same : other = fp
  · rw [same, AList.lookup_erase] at hq
    cases hq
  · exact ⟨same, by rwa [AList.lookup_erase_ne same] at hq⟩

theorem inserted {other : Fingerprint} {q' : CachedQuery ρ}
    (hq : (r.cachedQueries.insert fp q).lookup other = some q') :
    other = fp ∧ q' = q ∨ other ≠ fp ∧ r.cachedQueries.lookup other = some q' := by
  by_cases same : other = fp
  · subst same
    exact .inl ⟨rfl, by simpa [eq_comm] using hq⟩
  · exact .inr ⟨same, by rwa [AList.lookup_insert_ne same] at hq⟩

namespace Protected

variable (held : Protected r)

include held

theorem of_view (view : KeyedMap Fingerprint (CachedQueryView ρ)) :
    Protected { r with stateView := view } :=
  ⟨held.tracked, held.positive, held.bounded, held.own⟩

theorem allocate : Protected r.generationAllocate where
  tracked fp q hq valid := List.mem_insert_of_mem (held.tracked fp q hq valid)
  positive g hg := (List.mem_insert_iff.mp hg).elim (by omega) (held.positive g)
  bounded fp q hq := (held.bounded fp q hq).trans (Nat.le_succ _)
  own := held.own

theorem erase (fp : Fingerprint) :
    Protected { r with cachedQueries := r.cachedQueries.erase fp } := by
  exact ⟨fun _ _ hq => held.tracked _ _ (erased hq).2, held.positive,
    fun _ _ hq => held.bounded _ _ (erased hq).2,
    fun _ _ _ _ ha hb => held.own _ _ _ _ (erased ha).2 (erased hb).2⟩

theorem insert (tracked : q.invalidated = false → q.generation ∈ r.generations)
    (bounded : q.generation ≤ r.generationCounter)
    (own : ∀ other q', r.cachedQueries.lookup other = some q' → q'.generation = q.generation →
      other = fp) : Protected { r with cachedQueries := r.cachedQueries.insert fp q } := by
  refine ⟨fun other q' hq => ?_, held.positive, fun other q' hq => ?_,
    fun a b qa qb ha hb alike => ?_⟩
  · rcases inserted hq with ⟨_, rfl⟩ | ⟨_, hq⟩
    · exact tracked
    · exact held.tracked _ _ hq
  · rcases inserted hq with ⟨_, rfl⟩ | ⟨_, hq⟩
    · exact bounded
    · exact held.bounded _ _ hq
  · rcases inserted ha with ⟨rfl, rfl⟩ | ⟨_, ha'⟩ <;>
      rcases inserted hb with ⟨rfl, rfl⟩ | ⟨_, hb'⟩
    · rfl
    · exact (own _ _ hb' alike.symm).symm
    · exact own _ _ ha' alike
    · exact held.own _ _ _ _ ha' hb' alike

theorem drop {g : Nat} (unused : ∀ fp q, r.cachedQueries.lookup fp = some q →
      q.invalidated = false → q.generation ≠ g) :
    Protected { r with generations := r.generations.erase g } where
  tracked fp q hq valid :=
    (List.mem_erase_of_ne (unused fp q hq valid)).mpr (held.tracked fp q hq valid)
  positive g hg := held.positive g (List.mem_of_mem_erase hg)
  bounded := held.bounded
  own := held.own

theorem renew (taken : q.generation = r.generationCounter + 1) :
    Protected { r.generationAllocate with cachedQueries := r.cachedQueries.insert fp q } :=
  held.allocate.insert (fun _ => taken ▸ List.mem_insert_self) taken.le fun other q' hq alike =>
    absurd (held.bounded other q' hq) (by omega)

theorem rekey {q₀ : CachedQuery ρ} (hq₀ : r.cachedQueries.lookup fp = some q₀)
    (taken : q.generation = r.generationCounter + 1) :
    Protected { r.generationAllocate with
      cachedQueries := r.cachedQueries.insert fp q
      generations := r.generationAllocate.generations.erase q₀.generation } := by
  refine (held.renew taken).drop fun other q' hq _ alike => ?_
  have older := held.bounded fp q₀ hq₀
  rcases inserted hq with ⟨_, rfl⟩ | ⟨far, hq⟩
  · omega
  · exact far (held.own _ _ _ _ hq hq₀ alike)

theorem release (hq : r.cachedQueries.lookup fp = some q) :
    Protected { r with
      cachedQueries := r.cachedQueries.erase fp
      generations := r.generations.erase q.generation } := by
  refine (held.erase fp).drop fun other q' hq' _ alike => ?_
  exact (erased hq').1 (held.own _ _ _ _ (erased hq').2 hq alike)

theorem keep {q₀ : CachedQuery ρ} (q : CachedQuery ρ) (hq₀ : r.cachedQueries.lookup fp = some q₀)
    (same : q.generation = q₀.generation) (valid : q.invalidated = false → q₀.invalidated = false) :
    Protected { r with cachedQueries := r.cachedQueries.insert fp q } :=
  held.insert (fun now => same ▸ held.tracked fp q₀ hq₀ (valid now))
    (same ▸ held.bounded fp q₀ hq₀)
    fun _ _ hq alike => held.own _ _ _ _ hq hq₀ (alike.trans same)

theorem cacheQueryEvict (fp : Fingerprint) : Protected (r.cacheQueryEvict fp) := by
  unfold Registry.cacheQueryEvict
  split
  · exact held
  · rename_i q hq
    exact (held.release hq).of_view _

theorem queryReadmit (now : Nat) (fp : Fingerprint) : Protected (r.queryReadmit now fp) := by
  unfold Registry.queryReadmit
  split
  · exact held.allocate
  · exact (held.renew rfl).of_view _

theorem queryReadyMark (fp : Fingerprint) : Protected (r.queryReadyMark fp) := by
  unfold Registry.queryReadyMark
  split
  · exact held
  · rename_i q hq
    exact (held.keep { q with registrationStartedAt := none } hq rfl id).of_view _

theorem queryFailedCleanup (fp : Fingerprint) : Protected (r.queryFailedCleanup fp) := by
  unfold Registry.queryFailedCleanup
  cases hq : r.cachedQueries.lookup fp with
  | none => exact (held.erase fp).of_view _
  | some q => exact (held.release hq).of_view _

theorem queryRegister (now : Nat) (fp : Fingerprint) (outcome : RegisterOutcome ρ) :
    Protected (r.queryRegister now fp outcome) := by
  unfold Registry.queryRegister
  split
  · exact held.queryReadmit now fp
  · cases outcome with
    | failed => exact held.queryFailedCleanup fp
    | subsumed pinned res =>
      exact ((held.of_view _).renew (r := r.mvStateSet fp res.shapeGate res.mvLimit)
        rfl).queryReadyMark fp
    | admitted pinned res => exact (held.of_view _).renew rfl
    | checked res => exact held.of_view _

theorem limitBumpHandle (now : Nat) (fp : Fingerprint) (newMaxLimit : Option Nat) :
    Protected (r.limitBumpHandle now fp newMaxLimit) := by
  unfold Registry.limitBumpHandle
  split
  · exact held
  · rename_i q hq
    exact (held.rekey hq rfl).of_view _

theorem cacheQueryCdcInvalidate (now : Nat) (policy : CachePolicy) (fp : Fingerprint) :
    Protected (r.cacheQueryCdcInvalidate now policy fp) := by
  unfold Registry.cacheQueryCdcInvalidate
  split
  · exact held
  · exact held
  · exact held.cacheQueryEvict fp
  · rename_i generation mark
    obtain ⟨q, hq, rfl⟩ : ∃ q, r.cachedQueries.lookup fp = some q ∧ q.generation = generation := by
      simp only [cdcInvalidation] at mark
      split_ifs at mark
      split at mark
      · rename_i q hq
        split at mark
        · cases mark
        · exact ⟨q, hq, CdcInvalidation.mark.inj mark⟩
      · cases mark
    unfold queryInvalidatedMark adjust
    rw [hq]
    refine ((held.keep { q with invalidated := true } hq rfl nofun).drop
      fun other q' hq' valid alike => ?_).of_view _
    rcases inserted hq' with ⟨_, rfl⟩ | ⟨far, hq'⟩
    · cases valid
    · exact far (held.own _ _ _ _ hq' hq alike)

theorem staleEntryCleanup (hitDelta : Nat) (fp : Fingerprint) :
    Protected (r.staleEntryCleanup hitDelta fp) := by
  unfold Registry.staleEntryCleanup
  simp only
  split
  · exact (held.erase fp).of_view _
  · exact held.of_view _

theorem cacheQueryGenerationBump (effects : Effects) (fp : Fingerprint) :
    Protected (cacheQueryGenerationBump effects r fp).1 := by
  unfold Eviction.cacheQueryGenerationBump
  split
  · exact held
  · rename_i q hq
    split
    · exact (held.rekey hq rfl).of_view _
    · exact held.allocate

theorem generationZeroPromote (promoted : Bool) : Protected (generationZeroPromote r promoted) := by
  unfold Eviction.generationZeroPromote
  split
  · exact ⟨held.tracked, held.positive, fun fp q hq => (held.bounded fp q hq).trans (Nat.le_succ _),
      held.own⟩
  · exact held

theorem candidateEvict (effects : Effects) (fp : Fingerprint) :
    Protected (candidateEvict effects r fp).1 :=
  (held.cacheQueryEvict fp).generationZeroPromote _

theorem queryDispatch (now : Nat) (fp : Fingerprint) (input : DecisionInput) (budget : Bool) :
    Protected (r.queryDispatch now fp input budget) := by
  unfold Registry.queryDispatch mvDispatchDecide transitionApply
  split
  · split
    · exact held.of_view _
    · exact held
  · split
    · exact held
    · split <;> exact held.of_view _

end Protected

/-! ### What a round leaves -/

abbrev size (r : Registry ρ) : Nat := r.cachedQueries.entries.length

structure Kept (countCap : Nat) (start r : Registry ρ) : Prop where
  held : Protected r
  same : ∀ fp q, r.cachedQueries.lookup fp = some q →
    ∃ q₀, start.cachedQueries.lookup fp = some q₀ ∧ q = { q₀ with generation := q.generation }
  pinned : ∀ fp q₀, start.cachedQueries.lookup fp = some q₀ → q₀.pinned = true →
    ∃ q, r.cachedQueries.lookup fp = some q
  cap : min (size start) countCap ≤ size r

variable {start : Registry ρ} {policy countCap maxEvictions} {pinned : Bool}

theorem size_erase (hq : r.cachedQueries.lookup fp = some q) :
    size r = (r.cachedQueries.erase fp).entries.length + 1 :=
  (entries_perm_erase r.cachedQueries fp q hq).length_eq

theorem Kept.bump (kept : Kept countCap start r) (effects : Effects)
    (hq : r.cachedQueries.lookup fp = some q) :
    ∃ next ok, cacheQueryGenerationBump effects r fp = (next, ok) ∧ Kept countCap start next ∧
      size next = size r ∧ (ok = true → ∃ g,
        next.cachedQueries = r.cachedQueries.insert fp { q with generation := g }) := by
  have held := kept.held.cacheQueryGenerationBump effects fp
  simp only [cacheQueryGenerationBump, hq] at held ⊢
  split <;> rename_i stamped
  · rw [if_pos stamped] at held
    have sized := (size_erase hq).symm
    refine ⟨_, _, rfl, ⟨held, fun other q' hq' => ?_, fun other q₀ hq₀ pin => ?_, ?_⟩, sized,
      fun _ => ⟨_, rfl⟩⟩
    · rcases inserted hq' with ⟨rfl, rfl⟩ | ⟨_, hq'⟩
      · obtain ⟨q₀, hq₀, alike⟩ := kept.same _ _ hq
        exact ⟨q₀, hq₀, by rw [alike]⟩
      · exact kept.same _ _ hq'
    · by_cases same : other = fp
      · rw [same]
        exact ⟨_, AList.lookup_insert _⟩
      · obtain ⟨q', hq'⟩ := kept.pinned other q₀ hq₀ pin
        exact ⟨q', (AList.lookup_insert_ne same).trans hq'⟩
    · exact kept.cap.trans sized.ge
  · rw [if_neg stamped] at held
    exact ⟨_, _, rfl, ⟨held, kept.same, kept.pinned, kept.cap⟩, rfl, nofun⟩

theorem Kept.evict (kept : Kept countCap start r) (effects : Effects)
    (hq : r.cachedQueries.lookup fp = some q)
    (unpinned : q.pinned = false) (above : countCap < size r) :
    ∃ next, candidateEvict effects r fp = (next, effects.drained fp) ∧ Kept countCap start next ∧
      size r = size next + 1 ∧ next.cachedQueries = r.cachedQueries.erase fp := by
  have cached : (candidateEvict effects r fp).1.cachedQueries = r.cachedQueries.erase fp := by
    simp only [candidateEvict, generationZeroPromote, cacheQueryEvict, hq]
    split <;> rfl
  have sized : size r = size (candidateEvict effects r fp).1 + 1 := by
    rw [size_erase hq, size, cached]
  have low : countCap ≤ size (candidateEvict effects r fp).1 := by omega
  refine ⟨_, rfl, ⟨kept.held.candidateEvict effects fp, fun other q' hq' => ?_,
    fun other q₀ hq₀ pin => ?_, (min_le_right _ _).trans low⟩, sized, cached⟩
  · exact kept.same _ _ (erased (cached ▸ hq')).2
  · obtain ⟨q', hq'⟩ := kept.pinned other q₀ hq₀ pin
    refine ⟨q', (congrArg _ cached).trans ((AList.lookup_erase_ne ?_).trans hq')⟩
    rintro rfl
    obtain ⟨q₁, hq₁, alike⟩ := kept.same _ _ hq
    obtain rfl := Option.some.inj (hq₀.symm.trans hq₁)
    rw [alike, pin] at unpinned
    cases unpinned

theorem unpinned_of_evict {allowed : Bool}
    (action : evictionCandidateAction effects r fp pinned allowed = .evict) : pinned = false := by
  cases pinned with
  | false => rfl
  | true =>
    simp only [evictionCandidateAction, if_true] at action
    split at action <;> cases action

theorem pinned_of_kept (action : evictionCandidateAction effects r fp pinned false ≠ .evict) :
    pinned = true := by
  cases pinned with
  | false => exact absurd rfl action
  | true => rfl

structure Visited (policy : CachePolicy) (countCap : Nat) (maxEvictions : Option Nat)
    (start : Registry ρ) (read : List Nat) (round : Round ρ) : Prop where
  kept : Kept countCap start round.registry
  counted : size start = size round.registry + round.evicted
  few : ∀ most ∈ maxEvictions, round.evicted < max 1 most
  passed : policy = .fifo → ∀ fp q, round.registry.cachedQueries.lookup fp = some q →
    q.invalidated = false → q.pinned = false →
      q.generation ∈ start.generations ∧ q.generation ∉ read

structure Ended (countCap : Nat) (maxEvictions : Option Nat) (start : Registry ρ)
    (early : Round ρ × Bool) : Prop where
  kept : Kept countCap start early.1.registry
  few : ∀ most ∈ maxEvictions, size start ≤ size early.1.registry + max 1 most
  full : early.2 = true → maxEvictions = none → size early.1.registry ≤ countCap

theorem Visited.visit {read : List Nat} {round : Round ρ}
    (inv : Visited policy countCap maxEvictions start read round) (x : Nat) :
    Outcome (Visited policy countCap maxEvictions start (read ++ [x]))
      (Ended countCap maxEvictions start)
      (candidateVisit effects policy countCap maxEvictions round x) := by
  obtain ⟨kept, counted, below, unread⟩ := inv
  have few : ∀ most ∈ maxEvictions, size start ≤ size round.registry + max 1 most := by
    intro most hm
    have := below most hm
    omega
  unfold candidateVisit
  split
  · exact ⟨kept, few, fun _ _ => by assumption⟩
  rename_i above
  cases found : queryOf round.registry x with
  | none =>
    refine ⟨kept, counted, below, fun fifo fp q hq valid free => ?_⟩
    have other := List.find?_eq_none.mp found ⟨fp, q⟩ ((mem_entries_iff _ _ _).mpr hq)
    simpa [unread fifo fp q hq valid free] using other
  | some entry =>
    obtain ⟨fp, q⟩ := entry
    have hq := (mem_entries_iff _ _ _).mp (List.mem_of_find?_eq_some found)
    have hx : q.generation = x := by simpa using List.find?_some found
    -- only the candidate has the generation that is read now
    have passed : policy = .fifo → ∀ other q', other ≠ fp →
        round.registry.cachedQueries.lookup other = some q' → q'.invalidated = false →
        q'.pinned = false → q'.generation ∈ start.generations ∧ q'.generation ∉ read ++ [x] := by
      intro fifo other q' far hq' valid free
      obtain ⟨tracked, fresh⟩ := unread fifo other q' hq' valid free
      refine ⟨tracked, fun hm => (List.mem_append.mp hm).elim fresh fun hm => ?_⟩
      exact far (kept.held.own _ _ _ _ hq' hq ((List.mem_singleton.mp hm).trans hx.symm))
    have pin : evictionCandidateAction effects round.registry fp q.pinned
        (policy = .clock && round.bumps < maxBumps) ≠ .evict → policy = .fifo →
        ¬ q.pinned = false := by
      rintro action rfl
      simp [pinned_of_kept action]
    obtain ⟨next, ok, bump, kept', sized, renewed⟩ := kept.bump effects hq
    have bumped (bumps : Nat) (pin : policy = .fifo → ¬ q.pinned = false) :
        Outcome (Visited policy countCap maxEvictions start (read ++ [x]))
          (Ended countCap maxEvictions start)
          (if ok then .ok ⟨next, bumps, round.evicted⟩
          else .error (⟨next, round.bumps, round.evicted⟩, false)) := by
      split
      · refine ⟨kept', sized ▸ counted, below, fun fifo other q' hq' valid free => ?_⟩
        obtain ⟨g, cached⟩ := renewed (by assumption)
        rcases inserted (cached ▸ hq') with ⟨_, rfl⟩ | ⟨far, hq'⟩
        · exact absurd free (pin fifo)
        · exact passed fifo other q' far hq' valid free
      · exact ⟨kept', sized ▸ few, nofun⟩
    simp only [bump]
    split <;> rename_i action
    · exact bumped _ (pin (by simp [action]))
    · exact bumped _ (pin (by simp [action]))
    · refine ⟨kept, counted, below, fun fifo other q' hq' valid free => ?_⟩
      refine passed fifo other q' ?_ hq' valid free
      rintro rfl
      obtain rfl := Option.some.inj (hq.symm.trans hq')
      exact pin (by simp [action]) fifo free
    · obtain ⟨next, evict, kept, sized, cached⟩ :=
        kept.evict effects hq (unpinned_of_evict action) (not_le.mp above)
      have few : ∀ most ∈ maxEvictions, size start ≤ size next + max 1 most := by
        intro most hm
        have := below most hm
        omega
      simp only [evict]
      split
      · exact ⟨kept, few, nofun⟩
      split <;> rename_i most
      · exact ⟨kept, few, fun _ none => by simp [none] at most⟩
      · refine ⟨kept, by dsimp only; omega, fun m hm => ?_, fun fifo other q' hq' valid free => ?_⟩
        · rw [Option.mem_def] at hm
          simp [hm] at most ⊢
          omega
        · obtain ⟨far, hq'⟩ := erased (cached ▸ hq')
          exact passed fifo other q' far hq' valid free

variable (policy countCap maxEvictions effects) in
theorem evictionRun_outcome (held : Protected r) (frameHoldsLocks : Bool) :
    let next := evictionRun effects r policy countCap maxEvictions frameHoldsLocks
    Kept countCap r next.1 ∧ (∀ most ∈ maxEvictions, size r ≤ size next.1 + max 1 most) ∧
      (policy = .fifo → maxEvictions = none → frameHoldsLocks = false → next.2 = true →
        size next.1 ≤ countCap ∨ ∀ fp q, next.1.cachedQueries.lookup fp = some q →
          q.invalidated = false → q.pinned = true) := by
  have kept : Kept countCap r r :=
    ⟨held, fun _ q hq => ⟨q, hq, rfl⟩, fun _ q hq _ => ⟨q, hq⟩, min_le_left _ _⟩
  have ran := foldlM_outcome_read (candidateVisit effects policy countCap maxEvictions)
    (Visited policy countCap maxEvictions r) (Ended countCap maxEvictions r)
    (r.generations.mergeSort (· ≤ ·)) (fun _ _ inv x _ => inv.visit x) ⟨r, 0, 0⟩
    ⟨kept, rfl, fun _ _ => by simp, fun _ fp q hq valid _ =>
      ⟨held.tracked fp q hq valid, List.not_mem_nil⟩⟩
  unfold evictionRun
  cases frameHoldsLocks with
  | true => exact ⟨kept, fun _ _ => Nat.le_add_right _ _, nofun⟩
  | false =>
    simp only [Bool.false_eq_true, if_false]
    split <;> rename_i result <;> rw [result] at ran
    · refine ⟨ran.kept, fun most hm => ?_, fun fifo _ _ _ => .inr fun fp q hq valid => ?_⟩
      · have := ran.few most hm
        have := ran.counted
        dsimp only
        omega
      · by_contra free
        obtain ⟨tracked, unread⟩ := ran.passed fifo fp q hq valid (by simpa using free)
        exact unread (List.mem_mergeSort.mpr tracked)
    · exact ⟨ran.kept, ran.few, fun _ none _ ok => .inl (ran.full ok none)⟩

/-! ### Runs -/

inductive Operation (ρ : Type) where
  | dispatch (fp : Fingerprint) (input : DecisionInput) (budget : Bool)
  | register (fp : Fingerprint) (outcome : RegisterOutcome ρ)
  | readmission (fp : Fingerprint)
  /-- the merge of a population is done -/
  | ready (fp : Fingerprint) (generation : Nat)
  | limitBump (fp : Fingerprint) (newMaxLimit : Option Nat)
  | invalidate (policy : CachePolicy) (fp : Fingerprint)
  | tableInvalidate (relationOid : Oid)
  | fail (fp : Fingerprint)
  | expire (hitDelta : Nat) (fp : Fingerprint)
  /-- one query of the table that is dropped under disk pressure -/
  | evict (fp : Fingerprint)
  /-- a purge finds rows of generation zero, or none -/
  | generationZeroPromote (promoted : Bool)
  | evictionRun (effects : Effects) (policy : CachePolicy) (countCap : Nat)
    (maxEvictions : Option Nat) (frameHoldsLocks : Bool)

def step (r : Registry ρ) : Nat × Operation ρ → Registry ρ
  | (now, .dispatch fp input budget) => r.queryDispatch now fp input budget
  | (now, .register fp outcome) => r.queryRegister now fp outcome
  | (now, .readmission fp) => r.queryReadmit now fp
  | (now, .ready fp generation) =>
    if populationFinalizeAllowed (r.cachedQueries.lookup fp) generation then
      r.queryReadyFinalize now fp
    else r
  | (now, .limitBump fp newMaxLimit) => r.limitBumpHandle now fp newMaxLimit
  | (now, .invalidate policy fp) => r.cacheQueryCdcInvalidate now policy fp
  | (_, .tableInvalidate relationOid) => r.cacheTableInvalidate relationOid
  | (_, .fail fp) => r.queryFailedCleanup fp
  | (_, .expire hitDelta fp) => r.staleEntryCleanup hitDelta fp
  | (_, .evict fp) => r.cacheQueryEvict fp
  | (_, .generationZeroPromote promoted) => Eviction.generationZeroPromote r promoted
  | (_, .evictionRun effects policy countCap maxEvictions frameHoldsLocks) =>
    (Eviction.evictionRun effects r policy countCap maxEvictions frameHoldsLocks).1

theorem Protected.step (held : Protected r) (operation : Nat × Operation ρ) :
    Protected (step r operation) := by
  obtain ⟨now, operation⟩ := operation
  cases operation with
  | dispatch fp input budget =>
    exact held.queryDispatch now fp input budget
  | register fp outcome => exact held.queryRegister now fp outcome
  | readmission fp => exact held.queryReadmit now fp
  | ready fp generation =>
    simp only [Eviction.step]
    split
    · have ready := held.queryReadyMark fp
      unfold queryReadyFinalize mvPinnedBootstrap
      split
      · exact ready.of_view _
      · exact ready
    · exact held
  | limitBump fp newMaxLimit => exact held.limitBumpHandle now fp newMaxLimit
  | invalidate policy fp => exact held.cacheQueryCdcInvalidate now policy fp
  | tableInvalidate oid =>
    exact List.foldlRecOn _ _ held fun _ held fp _ => held.cacheQueryEvict fp
  | fail fp => exact held.queryFailedCleanup fp
  | expire hitDelta fp => exact held.staleEntryCleanup hitDelta fp
  | evict fp => exact held.cacheQueryEvict fp
  | generationZeroPromote promoted => exact held.generationZeroPromote promoted
  | evictionRun effects policy countCap maxEvictions locks =>
    exact (evictionRun_outcome _ _ _ _ held locks).1.held

theorem protected_run (operations : List (Nat × Operation ρ)) :
    Protected (operations.foldl step .new) := by
  refine List.foldlRecOn _ _ ?_ fun _ held operation _ => held.step operation
  exact ⟨nofun, nofun, nofun, nofun⟩

theorem threshold_lt (held : Protected r) {g : Nat} (tracked : g ∈ r.generations) :
    r.generationPurgeThreshold < g := by
  unfold generationPurgeThreshold
  split
  · rename_i least hl
    obtain ⟨mem, le⟩ := List.min?_eq_some_iff.mp hl
    have := held.positive least mem
    have := le g tracked
    omega
  · rename_i empty
    rw [List.min?_eq_none_iff.mp empty] at tracked
    cases tracked

/-- Whatever the writer does, with every round of eviction and every failed call in it, no purge
reaches the generation of a valid query, and no two queries share one. -/
theorem purge_spares_valid_queries (operations : List (Nat × Operation ρ)) :
    let r := operations.foldl step .new
    (∀ fp q, r.cachedQueries.lookup fp = some q → q.invalidated = false →
      r.generationPurgeThreshold < q.generation) ∧
    ∀ fp fp' q q', r.cachedQueries.lookup fp = some q → r.cachedQueries.lookup fp' = some q' →
      q.generation = q'.generation → fp = fp' := by
  have held := protected_run operations
  exact ⟨fun fp q hq valid => threshold_lt held (held.tracked fp q hq valid), held.own⟩

/-- A round of eviction, from any state the writer reaches, takes out no pinned query, changes of
the others only their generation, never goes below the cap and evicts no more than it may; under
FIFO without a bound it reaches the cap unless only pinned queries are valid. While a CDC frame
holds locks (`frame_holds_locks`) a round is put off. -/
theorem eviction_round (operations : List (Nat × Operation ρ)) (effects : Effects)
    (policy : CachePolicy) (countCap : Nat) (maxEvictions : Option Nat) (frameHoldsLocks : Bool) :
    let r := operations.foldl step .new
    let next := evictionRun effects r policy countCap maxEvictions frameHoldsLocks
    Kept countCap r next.1 ∧ (∀ most ∈ maxEvictions, size r ≤ size next.1 + max 1 most) ∧
      (frameHoldsLocks = true → next = (r, true)) ∧
      (policy = .fifo → maxEvictions = none → frameHoldsLocks = false → next.2 = true →
        size next.1 ≤ countCap ∨ ∀ fp q, next.1.cachedQueries.lookup fp = some q →
          q.invalidated = false → q.pinned = true) := by
  obtain ⟨kept, few, full⟩ := evictionRun_outcome effects policy countCap maxEvictions
    (protected_run operations) frameHoldsLocks
  exact ⟨kept, few, fun locked => if_pos locked, full⟩

end PgCache.Cache.Eviction
