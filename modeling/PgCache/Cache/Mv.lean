/- source: cache/mv.rs, cache/mv_shape.rs, cache/fast_path.rs
   digest: The state of a materialized result, its dirty transition and the rebuild backoff. -/
import PgCache.Cache.Decision
import Mathlib.Algebra.Ring.Nat

set_option autoImplicit false

namespace PgCache.Cache.Mv

open Decision

inductive ShapeGate where
  | gated
  | skip
  deriving DecidableEq

inductive MvState where
  | skipped
  | ineligible
  | pending (hasTable : Bool)
  | scheduled (hasTable : Bool)
  | building (hasTable : Bool)
  | buildingDirty (hasTable : Bool)
  | fresh
  deriving DecidableEq

def MvState.hasTable : MvState → Bool
  | .fresh => true
  | .pending hasTable | .scheduled hasTable | .building hasTable | .buildingDirty hasTable =>
    hasTable
  | .skipped | .ineligible => false

def MvState.dirtied : MvState → Option MvState
  | .fresh => some (.pending true)
  | .building hasTable => some (.buildingDirty hasTable)
  | .skipped | .ineligible | .pending _ | .scheduled _ | .buildingDirty _ => none

theorem MvState.dirtied_dirtied {state next : MvState} (dirty : state.dirtied = some next) :
    next.dirtied = none := by
  cases state <;> cases dirty <;> rfl

/-- `MV_PAYOFF_WINDOW`, in milliseconds as every instant and duration here. -/
def mvPayoffWindow : Nat := 5000

def mvBackoffBase : Nat := 1000

def mvBackoffCap : Nat := 300000

def backoffDuration (wasted : Nat) : Option Nat :=
  if wasted < 2 then none
  else some (min (mvBackoffBase * 2 ^ min (wasted - 2) 9) mvBackoffCap)

def mvStateInitial : ShapeGate → MvState
  | .skip => .skipped
  | .gated => .pending false

structure MvServePlan where
  outputColumns : List String
  sql : String
  deriving DecidableEq

structure MvMeta where
  shapeGate : ShapeGate
  state : MvState
  servePlan : Option MvServePlan
  limit : Option Nat
  freshAt : Option Nat
  wastedBuilds : Nat
  retryAfter : Option Nat
  deriving DecidableEq

namespace MvMeta

def new (shapeGate : ShapeGate) (limit : Option Nat) : MvMeta :=
  ⟨shapeGate, mvStateInitial shapeGate, none, limit, none, 0, none⟩

variable (mv : MvMeta) (now : Nat)

def buildPermitted : Bool :=
  mv.retryAfter.all fun retryAfter => retryAfter ≤ now

def freshMark : MvMeta := { mv with freshAt := some now }

def wasteRecord : MvMeta :=
  let wasted := min (mv.wastedBuilds + 1) (2 ^ 32 - 1)
  { mv with wastedBuilds := wasted, retryAfter := (backoffDuration wasted).map (now + ·) }

/-- The judgement on a `Fresh` table that turns dirty. -/
def payoffJudge : MvMeta :=
  if mv.freshAt.any fun freshAt => mvPayoffWindow ≤ now - freshAt then
    { mv with wastedBuilds := 0, retryAfter := none }
  else mv.wasteRecord now

def dirtyApply : MvMeta :=
  match mv.state.dirtied with
  | none => mv
  | some next =>
    let judged := if mv.state = .fresh then { mv.payoffJudge now with freshAt := none } else mv
    { judged with state := next }

def stateSet (state : MvState) : MvMeta := { mv with state }

theorem new_not_dirtiable (gate : ShapeGate) (limit : Option Nat) :
    (new gate limit).state.dirtied = none := by
  cases gate <;> rfl

@[simp] theorem dirtyApply_state : (mv.dirtyApply now).state = mv.state.dirtied.getD mv.state := by
  unfold dirtyApply
  split <;> rename_i dirty <;> simp [dirty]

theorem dirtyApply_not_dirtiable : (mv.dirtyApply now).state.dirtied = none := by
  rw [dirtyApply_state]
  cases dirty : mv.state.dirtied with
  | none => exact dirty
  | some next => exact MvState.dirtied_dirtied dirty

@[simp] theorem wasteRecord_state : (mv.wasteRecord now).state = mv.state := rfl

end MvMeta

inductive MvServe where
  | mv (plan : MvServePlan)
  | sourceRow
  deriving DecidableEq

inductive MvDecision where
  | serve (serve : MvServe)
  | needsSchedule (hasTable : Bool)
  deriving DecidableEq

def mvServeDecide (mv : MvMeta) (now : Nat) (rowsNeeded : Option Nat) : MvDecision :=
  match mv.state, mv.servePlan with
  | .fresh, some plan =>
    if limitIsSufficient mv.limit rowsNeeded then .serve (.mv plan) else .serve .sourceRow
  | .pending hasTable, _ =>
    if mv.buildPermitted now then .needsSchedule hasTable else .serve .sourceRow
  | .fresh, none | .scheduled _, _ | .building _, _ | .buildingDirty _, _ | .skipped, _
  | .ineligible, _ => .serve .sourceRow

end PgCache.Cache.Mv
