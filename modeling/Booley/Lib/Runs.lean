import Mathlib.Tactic.Common

/-!
# Runs of a labelled step relation

The states a run reaches when every step is taken where a condition holds, and the rule that
carries an invariant over a run.
-/
namespace Booley.Lib

universe u v
variable {σ : Type u} {ε : Type v}

/-- The states reached from a start by steps that each meet a condition. -/
inductive Reaches (Step : σ → ε → σ → Prop) (Meets : σ → ε → Prop) (start : σ) : σ → Prop
  | start : Reaches Step Meets start start
  | step {state next : σ} {event : ε} (h : Reaches Step Meets start state)
      (hmeets : Meets state event) (hstep : Step state event next) :
      Reaches Step Meets start next

variable {Step : σ → ε → σ → Prop} {Meets : σ → ε → Prop} {start state : σ}

/-- A sequence of steps each of which passes a test where it is taken. -/
def passesAll (next : σ → ε → σ) (test : σ → ε → Bool) : σ → List ε → Bool
  | _, [] => true
  | state, event :: events =>
    test state event && passesAll next test (next state event) events

/-- A checked sequence of steps of a transition function leads to its last state. -/
theorem Reaches.foldl {next : σ → ε → σ} (test : σ → ε → Bool)
    (htest : ∀ state event, test state event = true → Meets state event) {events : List ε}
    (h : Reaches (fun state event after => next state event = after) Meets start state)
    (hpasses : passesAll next test state events = true) :
    Reaches (fun state event after => next state event = after) Meets start
      (events.foldl next state) := by
  induction events generalizing state with
  | nil => exact h
  | cons event events ih =>
    simp only [passesAll, Bool.and_eq_true] at hpasses
    exact ih (.step h (htest _ _ hpasses.1) rfl) hpasses.2

/-- What every step keeps holds wherever a run leads. -/
theorem Reaches.keeps {Inv : σ → Prop} (h : Reaches Step Meets start state) (hstart : Inv start)
    (hstep : ∀ state event next, Inv state → Meets state event → Step state event next →
      Inv next) : Inv state := by
  induction h with
  | start => exact hstart
  | step _ hmeets hnext ih => exact hstep _ _ _ ih hmeets hnext

end Booley.Lib
