/- digest: Runs of a machine with events, and the invariant rule for them. -/
import Mathlib.Data.List.Basic

set_option autoImplicit false

namespace PgCache.Data.Machine

variable {σ ε : Type}

def runs (step : σ → ε → Option σ) : σ → List ε → Option σ
  | state, [] => some state
  | state, event :: events => (step state event).bind fun next => runs step next events

/-- Every event of a run is allowed in the state it meets. -/
def Allowed (step : σ → ε → Option σ) (allowed : σ → ε → Prop) : σ → List ε → Prop
  | _, [] => True
  | state, event :: events =>
    allowed state event ∧ ∀ next, step state event = some next → Allowed step allowed next events

theorem Allowed.cons {step : σ → ε → Option σ} {allowed : σ → ε → Prop} {state next : σ} {ev : ε}
    {events : List ε} (hs : step state ev = some next) (fine : allowed state ev)
    (rest : Allowed step allowed next events) : Allowed step allowed state (ev :: events) := by
  refine ⟨fine, fun o same => ?_⟩
  rw [hs] at same
  cases same
  exact rest

def allowedBy (step : σ → ε → Option σ) (test : σ → ε → Bool) : σ → List ε → Bool
  | _, [] => true
  | state, event :: events =>
    test state event && (step state event).all fun next => allowedBy step test next events

variable {step : σ → ε → Option σ} {allowed : σ → ε → Prop} {state : σ} {events : List ε}

theorem Allowed.of_allowedBy {test : σ → ε → Bool}
    (sound : ∀ state ev, test state ev = true → allowed state ev)
    (tested : allowedBy step test state events = true) : Allowed step allowed state events := by
  induction events generalizing state with
  | nil => trivial
  | cons ev events ih =>
    obtain ⟨now, later⟩ := Bool.and_eq_true_iff.mp tested
    refine ⟨sound state ev now, fun next hs => ih ?_⟩
    rw [hs] at later
    exact later

theorem Allowed.and {also : σ → ε → Prop} (first : Allowed step allowed state events)
    (snd : Allowed step also state events) :
    Allowed step (fun state ev => allowed state ev ∧ also state ev) state events := by
  induction events generalizing state with
  | nil => trivial
  | cons ev events ih =>
    exact ⟨⟨first.1, snd.1⟩, fun next hs =>
      ih (first.2 next hs) (snd.2 next hs)⟩

theorem runs_append {middle : σ} {rest : List ε} (ran : runs step state events = some middle) :
    runs step state (events ++ rest) = runs step middle rest := by
  induction events generalizing state with
  | nil => rw [Option.some_inj.mp ran, List.nil_append]
  | cons ev events ih =>
    obtain ⟨next, hs, later⟩ := Option.bind_eq_some_iff.mp ran
    rw [List.cons_append, runs, hs, Option.bind_some]
    exact ih later

theorem Allowed.append {middle : σ} {rest : List ε} (first : Allowed step allowed state events)
    (ran : runs step state events = some middle) (snd : Allowed step allowed middle rest) :
    Allowed step allowed state (events ++ rest) := by
  induction events generalizing state with
  | nil => cases ran
           exact snd
  | cons ev events ih =>
    obtain ⟨next, hs, later⟩ := Option.bind_eq_some_iff.mp ran
    exact .cons hs first.1 (ih (first.2 next hs) later)

theorem runs_invariant {inv : σ → Prop}
    (preserved : ∀ state ev next, inv state → allowed state ev →
      step state ev = some next → inv next) {last : σ} (start : inv state)
    (calm : Allowed step allowed state events) (ran : runs step state events = some last) :
    inv last := by
  induction events generalizing state with
  | nil =>
    cases ran
    exact start
  | cons ev events ih =>
    obtain ⟨next, hs, rest⟩ := Option.bind_eq_some_iff.mp ran
    exact ih (preserved state ev next start calm.1 hs) (calm.2 next hs) rest

theorem runs_preserves {inv : σ → Prop}
    (preserved : ∀ state ev next, inv state → step state ev = some next → inv next) {last : σ}
    (start : inv state) (ran : runs step state events = some last) : inv last := by
  induction events generalizing state with
  | nil => cases ran
           exact start
  | cons ev events ih =>
    obtain ⟨next, hs, rest⟩ := Option.bind_eq_some_iff.mp ran
    exact ih (preserved state ev next start hs) rest

end PgCache.Data.Machine
