import Mathlib.Tactic.Common

/-!
# Programs of atomic steps

A program that reads and writes a shared state one atomic step at a time, and may be stopped
between any two of them. A triple has three conclusions: what holds when the program returns,
what holds when it refuses, and what holds wherever it is stopped.
-/
namespace Booley.Lib

/-- A program over a state `S` that returns an `α` or refuses with an `ε`. One step changes the
state and goes on with what it read before the change. -/
inductive Prog (S ε α : Type) where
  | ret (value : α)
  | fail (refusal : ε)
  | step (write : S → S) (next : S → Prog S ε α)

namespace Prog

variable {S ε α β : Type}

def bind : Prog S ε α → (α → Prog S ε β) → Prog S ε β
  | ret value, rest => rest value
  | fail refusal, _ => fail refusal
  | step write next, rest => step write fun state => bind (next state) rest

instance : Monad (Prog S ε) where
  pure := ret
  bind := bind

/-- Read the state in one step. -/
def read (f : S → α) : Prog S ε α := step id fun state => ret (f state)

/-- Change the state in one step. -/
def update (f : S → S) : Prog S ε Unit := step f fun _ => ret ()

/-- Refuse unless the state allows to go on. -/
def require (check : S → Except ε α) : Prog S ε α :=
  step id fun state => match check state with
    | .ok value => ret value
    | .error refusal => fail refusal

def ofExcept : Except ε α → Prog S ε α
  | .ok value => ret value
  | .error refusal => fail refusal

/-- Run a program on every element of a list, in order. -/
def forEach : List α → (α → Prog S ε Unit) → Prog S ε Unit
  | [], _ => ret ()
  | item :: rest, body => bind (body item) fun _ => forEach rest body

/-- The outcome of a program that is not stopped, and the state it leaves. -/
def run : Prog S ε α → S → Except ε α × S
  | ret value, state => (.ok value, state)
  | fail refusal, state => (.error refusal, state)
  | step write next, state => run (next state) (write state)

/-- The states in which a program may be stopped, its last one included. -/
def stops : Prog S ε α → S → S → Prop
  | ret _, state, stopped => stopped = state
  | fail _, state, stopped => stopped = state
  | step write next, state, stopped => stopped = state ∨ stops (next state) (write state) stopped

/-! ## Triples -/

/-- `crash` holds wherever the program is stopped, `post` when it returns and `refused` when it
refuses. -/
def wp (crash : S → Prop) (post : α → S → Prop) (refused : ε → S → Prop) :
    Prog S ε α → S → Prop
  | ret value, state => crash state ∧ post value state
  | fail refusal, state => crash state ∧ refused refusal state
  | step write next, state => crash state ∧ wp crash post refused (next state) (write state)

variable {crash : S → Prop} {post : α → S → Prop} {refused : ε → S → Prop} {state : S}

@[simp] theorem wp_ret {value : α} :
    wp crash post refused (ret value) state ↔ crash state ∧ post value state := Iff.rfl

@[simp] theorem wp_pure {value : α} :
    wp crash post refused (pure value) state ↔ crash state ∧ post value state := Iff.rfl

@[simp] theorem wp_fail {refusal : ε} :
    wp crash post refused (fail refusal) state ↔ crash state ∧ refused refusal state := Iff.rfl

theorem wp_crash {prog : Prog S ε α} (h : wp crash post refused prog state) : crash state := by
  cases prog with
  | ret value => exact h.1
  | fail refusal => exact h.1
  | step write next => exact h.1

@[simp] theorem wp_bind {prog : Prog S ε α} {rest : α → Prog S ε β} {post : β → S → Prop} :
    wp crash post refused (prog >>= rest) state ↔
      wp crash (fun value state => wp crash post refused (rest value) state) refused prog
        state := by
  induction prog generalizing state with
  | ret value => exact ⟨fun h => ⟨wp_crash h, h⟩, fun h => h.2⟩
  | fail refusal => exact Iff.rfl
  | step write next ih => exact and_congr_right fun _ => ih state

@[simp] theorem wp_read {f : S → α} :
    wp crash post refused (read f) state ↔ crash state ∧ post (f state) state := by
  simp [read, wp]

@[simp] theorem wp_update {f : S → S} {post : Unit → S → Prop} :
    wp crash post refused (update f) state ↔
      crash state ∧ crash (f state) ∧ post () (f state) := Iff.rfl

@[simp] theorem wp_require {check : S → Except ε α} :
    wp crash post refused (require check) state ↔
      crash state ∧ match check state with
        | .ok value => post value state
        | .error refusal => refused refusal state := by
  cases h : check state with
  | ok value => simp [require, wp, h]
  | error refusal => simp [require, wp, h]

@[simp] theorem wp_ofExcept {outcome : Except ε α} :
    wp crash post refused (ofExcept outcome) state ↔
      crash state ∧ match outcome with
        | .ok value => post value state
        | .error refusal => refused refusal state := by
  cases outcome with
  | ok value => rfl
  | error refusal => rfl

/-- Stronger conclusions give weaker ones. -/
theorem wp_weaken {prog : Prog S ε α} {crash' : S → Prop} {post' : α → S → Prop}
    {refused' : ε → S → Prop} (h : wp crash post refused prog state)
    (hcrash : ∀ state, crash state → crash' state)
    (hpost : ∀ value state, crash state → post value state → post' value state)
    (hrefused : ∀ refusal state, crash state → refused refusal state → refused' refusal state) :
    wp crash' post' refused' prog state := by
  induction prog generalizing state with
  | ret value => exact ⟨hcrash state h.1, hpost value state h.1 h.2⟩
  | fail refusal => exact ⟨hcrash state h.1, hrefused refusal state h.1 h.2⟩
  | step write next ih => exact ⟨hcrash state h.1, ih state h.2⟩

theorem wp_mono {prog : Prog S ε α} {post' : α → S → Prop} {refused' : ε → S → Prop}
    (h : wp crash post refused prog state)
    (hpost : ∀ value state, crash state → post value state → post' value state)
    (hrefused : ∀ refusal state, crash state → refused refusal state → refused' refusal state) :
    wp crash post' refused' prog state :=
  wp_weaken h (fun _ h => h) hpost hrefused

/-- A loop keeps what its body carries from the elements done to the elements left. -/
theorem wp_forEach (inv : List α → S → Prop) {items : List α} {body : α → Prog S ε Unit}
    (hinit : inv items state)
    (hcrash : ∀ rest state, inv rest state → crash state)
    (hbody : ∀ item rest state, inv (item :: rest) state →
      wp crash (fun _ state => inv rest state) refused (body item) state) :
    wp crash (fun _ state => inv [] state) refused (forEach items body) state := by
  induction items generalizing state with
  | nil => exact ⟨hcrash [] state hinit, hinit⟩
  | cons item rest ih =>
    have hfirst := hbody item rest state hinit
    have hall : wp crash (fun _ state => inv [] state) refused
        (body item >>= fun _ => forEach rest body) state :=
      wp_bind.mpr (wp_mono hfirst (fun _ _ _ hinv => ih hinv) fun _ _ _ h => h)
    exact hall

/-- A loop of checks that returns has checked every element, in the state it began in. -/
theorem wp_forEach_require {items : List α} {check : α → S → Except ε Unit}
    (hcrash : crash state) (hrefused : ∀ refusal, refused refusal state) :
    wp crash (fun _ last => last = state ∧ ∀ item ∈ items, check item state = .ok ()) refused
      (forEach items fun item => require (check item)) state := by
  induction items with
  | nil => exact ⟨hcrash, rfl, by simp⟩
  | cons item rest ih =>
    have hall : wp crash
        (fun _ last => last = state ∧ ∀ other ∈ item :: rest, check other state = .ok ()) refused
        (require (check item) >>= fun _ => forEach rest fun item => require (check item))
        state := by
      simp only [wp_bind, wp_require]
      refine ⟨hcrash, ?_⟩
      cases hcheck : check item state with
      | error refusal => exact hrefused refusal
      | ok value =>
        refine wp_mono ih ?_ fun _ _ _ h => h
        rintro _ last - ⟨rfl, hrest⟩
        refine ⟨rfl, ?_⟩
        intro other hother
        rcases List.mem_cons.mp hother with rfl | hmem
        · exact hcheck
        · exact hrest other hmem
    exact hall

/-- Wherever a program is stopped, its crash condition holds. -/
theorem crash_of_stops {prog : Prog S ε α} (h : wp crash post refused prog state) {stopped : S}
    (hstops : stops prog state stopped) : crash stopped := by
  induction prog generalizing state with
  | ret value =>
    have heq : stopped = state := hstops
    rw [heq]
    exact h.1
  | fail refusal =>
    have heq : stopped = state := hstops
    rw [heq]
    exact h.1
  | step write next ih =>
    rcases hstops with heq | hlater
    · rw [heq]
      exact h.1
    · exact ih state h.2 hlater

/-- A program may be stopped once it is over. -/
theorem stops_run (prog : Prog S ε α) (state : S) : stops prog state (run prog state).2 := by
  induction prog generalizing state with
  | ret value => rfl
  | fail refusal => rfl
  | step write next ih => exact .inr (ih state (write state))

/-- What a program that is not stopped ends with. -/
theorem run_of_wp {prog : Prog S ε α} (h : wp crash post refused prog state) :
    match (run prog state).1 with
    | .ok value => post value (run prog state).2
    | .error refusal => refused refusal (run prog state).2 := by
  induction prog generalizing state with
  | ret value => exact h.2
  | fail refusal => exact h.2
  | step write next ih => exact ih state h.2

/-- A program that cannot refuse returns. -/
theorem run_ok_of_wp {prog : Prog S ε α}
    (h : wp crash post (fun _ _ => False) prog state) :
    ∃ value, (run prog state).1 = .ok value ∧ post value (run prog state).2 := by
  have hrun := run_of_wp h
  cases houtcome : (run prog state).1 with
  | ok value =>
    rw [houtcome] at hrun
    exact ⟨value, rfl, hrun⟩
  | error refusal =>
    rw [houtcome] at hrun
    exact hrun.elim

/-! ## Recovery -/

/-- The states recoveries leave behind when they are started any number of times and stopped
anywhere each time. No two of them need be the same program. -/
inductive Interrupted {ι : Type} (recovery : ι → Prog S ε α) : S → S → Prop
  | none (state : S) : Interrupted recovery state state
  | again {state stopped last : S} (attempt : ι) (h : Interrupted recovery state stopped)
      (hstops : stops (recovery attempt) stopped last) : Interrupted recovery state last

/-- Recoveries that keep their own crash condition can be interrupted any number of times. -/
theorem crash_of_interrupted {ι : Type} {recovery : ι → Prog S ε α}
    (hrecovery : ∀ attempt state, crash state → wp crash post refused (recovery attempt) state)
    (hstate : crash state) {stopped : S} (h : Interrupted recovery state stopped) :
    crash stopped := by
  induction h with
  | none => exact hstate
  | again attempt _ hstops ih => exact crash_of_stops (hrecovery attempt _ ih) hstops

end Prog

end Booley.Lib
