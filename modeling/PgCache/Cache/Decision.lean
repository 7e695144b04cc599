/- source: cache/serve_decision.rs, cache/query/limit.rs
   digest: The serve-time decision on a fingerprint's cache entry. -/
import Mathlib.Tactic.SplitIfs

set_option autoImplicit false

namespace PgCache.Cache.Decision

inductive CachedQueryState where
  | pending (hitCount credit : Nat)
  | loading
  | ready
  | invalidated
  deriving DecidableEq

inductive AdmitAction where
  | admission
  | checkOnly
  deriving DecidableEq

inductive CachePolicy where
  | fifo
  | clock
  deriving DecidableEq

/-- `EntrySnapshot`: no limit stands for all rows. -/
structure EntrySnapshot where
  state : CachedQueryState
  maxLimit : Option Nat
  deriving DecidableEq

structure DecisionInput where
  rowsNeeded : Option Nat
  admissionThreshold : Nat
  cachePolicy : CachePolicy
  throttled : Bool
  pendingCredit : Nat
  deriving DecidableEq

inductive ForwardReason where
  | throttled
  | registrationRateLimited
  deriving DecidableEq

structure Transition where
  expected : Option CachedQueryState
  new : CachedQueryState
  deriving DecidableEq

inductive ServeDecision where
  | hit
  | limitBump (transition : Transition)
  | coalesce
  | forward (reason : ForwardReason)
  | register (transition : Transition) (action : AdmitAction)
  deriving DecidableEq

def ServeDecision.transition : ServeDecision → Option Transition
  | .limitBump transition | .register transition _ => some transition
  | .hit | .coalesce | .forward _ => none

def limitIsSufficient : Option Nat → Option Nat → Bool
  | none, _ => true
  | some _, none => false
  | some cached, some needed => needed ≤ cached

def coldDecide (input : DecisionInput) (registrationBudget : Bool) : ServeDecision :=
  if input.throttled then .forward .throttled
  else if !registrationBudget then .forward .registrationRateLimited
  else if input.cachePolicy = .fifo ∨ input.admissionThreshold ≤ 1 then
    .register ⟨none, .loading⟩ .admission
  else .register ⟨none, .pending 1 input.pendingCredit⟩ .checkOnly

def serveDecide (entry : Option EntrySnapshot) (input : DecisionInput)
    (registrationBudget : Bool) : ServeDecision :=
  match entry with
  | none => coldDecide input registrationBudget
  | some entry =>
    match entry.state with
    | .ready =>
      if limitIsSufficient entry.maxLimit input.rowsNeeded then .hit
      else .limitBump ⟨some .ready, .loading⟩
    | .loading => if input.throttled then .forward .throttled else .coalesce
    | .pending hitCount credit =>
      if input.admissionThreshold ≤ hitCount + 1 then
        .register ⟨some (.pending hitCount credit), .loading⟩ .admission
      else .register ⟨some (.pending hitCount credit),
        .pending (hitCount + 1) input.pendingCredit⟩ .checkOnly
    | .invalidated => .register ⟨some .invalidated, .loading⟩ .admission

theorem serveDecide_eq_hit_iff (e : Option EntrySnapshot) (input : DecisionInput) (budget : Bool) :
    serveDecide e input budget = .hit ↔ ∃ maxLimit, e = some ⟨.ready, maxLimit⟩ ∧
        limitIsSufficient maxLimit input.rowsNeeded = true := by
  constructor
  · intro hd
    obtain _ | ⟨state, maxLimit⟩ := e
    · simp only [serveDecide, coldDecide] at hd
      split_ifs at hd
    · cases state with
      | ready =>
        simp only [serveDecide] at hd
        split_ifs at hd with enough
        exact ⟨maxLimit, rfl, enough⟩
      | loading => simp only [serveDecide] at hd; split_ifs at hd
      | pending hitCount credit => simp only [serveDecide] at hd; split_ifs at hd
      | invalidated => cases hd
  · rintro ⟨maxLimit, rfl, enough⟩
    simp [serveDecide, enough]

theorem transition_new_ne_ready {e : Option EntrySnapshot} {input : DecisionInput}
    {budget : Bool} {transition : Transition}
    (hd : (serveDecide e input budget).transition = some transition) :
    transition.new ≠ .ready := by
  obtain _ | ⟨state, maxLimit⟩ := e
  · simp only [serveDecide, coldDecide] at hd
    split_ifs at hd <;> cases hd <;> simp
  · cases state <;> simp only [serveDecide] at hd <;> (try split_ifs at hd) <;> cases hd <;> simp

end PgCache.Cache.Decision
