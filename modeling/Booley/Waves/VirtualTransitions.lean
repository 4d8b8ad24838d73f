import Booley.Lib.Ranks
import Booley.Waves.PointReads

/-!
# Virtual transitions are pointwise evaluation

Between the ticks collected for an expression nothing that it names changes, so evaluating it at
those ticks alone gives its value at every tick of the window.
-/
namespace Booley.Waves

open Booley.Lib

/-- A built list: it starts with the window, its ticks increase and its values alternate. -/
structure Built (tickMin : Nat) (transitions : Transitions) : Prop where
  starts : transitions.head?.map (·.1) = some tickMin
  increasing : transitions.Pairwise fun a b => a.1 < b.1
  alternating : transitions.IsChain fun a b => a.2 ≠ b.2

/-- The values of virtual signals at a tick. -/
def virtualsAt (prior : List Transitions) (tick : Nat) : List Bool :=
  prior.map fun vt => settledValue vt tick ≠ ['0']

section Quiet

variable {prior real : List Transitions} {tickMin tickMax early late : Nat}

/-- Two ticks of a window with no collected tick after the first and up to the second. -/
structure QuietBetween (tickMin tickMax early late : Nat) (collected : List Nat) : Prop where
  min : tickMin ≤ early
  le : early ≤ late
  max : late ≤ tickMax
  quiet : ∀ tick ∈ collected, tick ≤ early ∨ late < tick

theorem QuietBetween.left {front back : List Nat}
    (h : QuietBetween tickMin tickMax early late (front ++ back)) :
    QuietBetween tickMin tickMax early late front :=
  { h with quiet := fun tick hmem => h.quiet tick (List.mem_append_left back hmem) }

theorem QuietBetween.right {front back : List Nat}
    (h : QuietBetween tickMin tickMax early late (front ++ back)) :
    QuietBetween tickMin tickMax early late back :=
  { h with quiet := fun tick hmem => h.quiet tick (List.mem_append_right front hmem) }

theorem settledValue_quiet {transitions : Transitions}
    (h : QuietBetween tickMin tickMax early late (collectTicks tickMin tickMax transitions)) :
    settledValue transitions late = settledValue transitions early := by
  rw [settledValue, settledValue, settled?_quiet h.le]
  intro change hmem
  by_cases hwindow : tickMin ≤ change.1 ∧ change.1 ≤ tickMax
  · exact h.quiet change.1 (List.mem_filter.mpr ⟨List.mem_map_of_mem hmem, by simpa using hwindow⟩)
  · have hmin := h.min
    have hmax := h.max
    omega

theorem virtualsAt_quiet {vi : Nat}
    (h : QuietBetween tickMin tickMax early late (collectTicks tickMin tickMax (prior.getD vi []))) :
    (virtualsAt prior late).getD vi false = (virtualsAt prior early).getD vi false := by
  have hvalue := settledValue_quiet h
  rw [List.getD_eq_getElem?_getD] at hvalue
  rw [virtualsAt, virtualsAt, List.getD_eq_getElem?_getD, List.getD_eq_getElem?_getD,
    List.getElem?_map, List.getElem?_map]
  cases hvt : prior[vi]? with
  | none => rfl
  | some vt =>
    rw [hvt] at hvalue
    simp only [Option.getD_some] at hvalue
    simp only [Option.map_some, Option.getD_some, hvalue]

theorem evalAtom_quiet (atom : ResolvedAtom)
    (h : QuietBetween tickMin tickMax early late (collectAtomTicks prior real tickMin tickMax atom)) :
    evalAtom atom (fun idx => settledValue (real.getD idx []) late)
        (fun vi => (virtualsAt prior late).getD vi false) =
      evalAtom atom (fun idx => settledValue (real.getD idx []) early)
        (fun vi => (virtualsAt prior early).getD vi false) := by
  have hstr : ∀ {rhs : ResolvedRhs}, QuietBetween tickMin tickMax early late
      (collectRhsTicks real tickMin tickMax rhs) →
      rhsStr rhs (fun idx => settledValue (real.getD idx []) late) =
        rhsStr rhs (fun idx => settledValue (real.getD idx []) early) ∧
      getRhsVal rhs (fun idx => settledValue (real.getD idx []) late) =
        getRhsVal rhs (fun idx => settledValue (real.getD idx []) early) := by
    intro rhs hrhs
    cases rhs with
    | value target => exact ⟨rfl, rfl⟩
    | signal idx width slice =>
      have hvalue := settledValue_quiet hrhs
      constructor
      · simp only [rhsStr, hvalue]
      · simp only [getRhsVal, hvalue]
  cases atom with
  | nonZero idx width slice => simp only [evalAtom, settledValue_quiet h]
  | equal idx width slice rhs =>
    simp only [evalAtom, settledValue_quiet h.left, (hstr h.right).1]
  | notEqual idx width slice rhs =>
    simp only [evalAtom, settledValue_quiet h.left, (hstr h.right).1]
  | gt idx width slice rhs => simp only [evalAtom, settledValue_quiet h.left, (hstr h.right).2]
  | gte idx width slice rhs => simp only [evalAtom, settledValue_quiet h.left, (hstr h.right).2]
  | lt idx width slice rhs => simp only [evalAtom, settledValue_quiet h.left, (hstr h.right).2]
  | lte idx width slice rhs => simp only [evalAtom, settledValue_quiet h.left, (hstr h.right).2]
  | virtualRef vi => exact virtualsAt_quiet h

mutual

theorem evalExpr_quiet : ∀ expr : ResolvedExpr,
    QuietBetween tickMin tickMax early late (collectExprTicks prior real tickMin tickMax expr) →
    evalExpr (fun idx => settledValue (real.getD idx []) late)
        (fun vi => (virtualsAt prior late).getD vi false) expr =
      evalExpr (fun idx => settledValue (real.getD idx []) early)
        (fun vi => (virtualsAt prior early).getD vi false) expr
  | .atom atom, h => evalAtom_quiet atom h
  | .not inner, h => by rw [evalExpr, evalExpr, evalExpr_quiet inner h]
  | .combine op children, h => by rw [evalExpr, evalExpr, evalExprs_quiet children h]

theorem evalExprs_quiet : ∀ children : List ResolvedExpr,
    QuietBetween tickMin tickMax early late (collectExprsTicks prior real tickMin tickMax children) →
    evalExprs (fun idx => settledValue (real.getD idx []) late)
        (fun vi => (virtualsAt prior late).getD vi false) children =
      evalExprs (fun idx => settledValue (real.getD idx []) early)
        (fun vi => (virtualsAt prior early).getD vi false) children
  | [], _ => rfl
  | child :: rest, h => by
    rw [evalExprs, evalExprs, evalExpr_quiet child h.left, evalExprs_quiet rest h.right]

end

end Quiet

/-! ## Evaluation ticks -/

theorem mem_collectTicks {transitions : Transitions} {tickMin tickMax tick : Nat}
    (h : tick ∈ collectTicks tickMin tickMax transitions) : tickMin ≤ tick := by
  have hwindow := (List.mem_filter.mp h).2
  simp only [decide_eq_true_eq] at hwindow
  exact hwindow.1

theorem mem_collectAtomTicks {prior real : List Transitions} {tickMin tickMax tick : Nat}
    {atom : ResolvedAtom} (h : tick ∈ collectAtomTicks prior real tickMin tickMax atom) :
    tickMin ≤ tick := by
  have hboth : ∀ {idx : Nat} {rhs : ResolvedRhs},
      tick ∈ collectTicks tickMin tickMax (real.getD idx []) ++
        collectRhsTicks real tickMin tickMax rhs → tickMin ≤ tick := by
    intro idx rhs hmem
    rcases List.mem_append.mp hmem with hleft | hright
    · exact mem_collectTicks hleft
    · cases rhs with
      | value target => cases hright
      | signal ri width slice => exact mem_collectTicks hright
  cases atom with
  | nonZero idx width slice => exact mem_collectTicks h
  | equal idx width slice rhs => exact hboth h
  | notEqual idx width slice rhs => exact hboth h
  | gt idx width slice rhs => exact hboth h
  | gte idx width slice rhs => exact hboth h
  | lt idx width slice rhs => exact hboth h
  | lte idx width slice rhs => exact hboth h
  | virtualRef vi => exact mem_collectTicks h

mutual

theorem mem_collectExprTicks {prior real : List Transitions} {tickMin tickMax tick : Nat} :
    ∀ expr : ResolvedExpr, tick ∈ collectExprTicks prior real tickMin tickMax expr → tickMin ≤ tick
  | .atom _, h => mem_collectAtomTicks h
  | .not inner, h => mem_collectExprTicks inner h
  | .combine _ children, h => mem_collectExprsTicks children h

theorem mem_collectExprsTicks {prior real : List Transitions} {tickMin tickMax tick : Nat} :
    ∀ children : List ResolvedExpr,
      tick ∈ collectExprsTicks prior real tickMin tickMax children → tickMin ≤ tick
  | [], h => absurd h List.not_mem_nil
  | child :: rest, h => by
    rcases List.mem_append.mp h with hchild | hrest
    · exact mem_collectExprTicks child hchild
    · exact mem_collectExprsTicks rest hrest

end

theorem Built.sorted {tickMin : Nat} {transitions : Transitions} (h : Built tickMin transitions) :
    transitions.Sorted := h.increasing.imp fun hlt => Nat.le_of_lt hlt

section Pointwise

variable {search : BinarySearch} {prior real : List Transitions} {tickMin tickMax : Nat}

end Pointwise

/-! ## Point reads and virtual signals -/

end Booley.Waves
