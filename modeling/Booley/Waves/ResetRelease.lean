import Booley.Lib.TextOrder
import Booley.Waves.Transitions

/-!
# The release of reset

Cycles are counted from the end of reset. The loader finds the tick at which the reset signal is
released and stores it, and every query finds it again from the signals of the store. Both choose
the reset by its name and read its polarity off the name.
-/
namespace Booley.Waves

open Booley.Lib

/-! ## The signals -/

/-- A variable of the loaded hierarchy. A real one is declared as 64 bits wide. -/
structure VarEntry where
  name : Text
  width : Nat
  handleIdx : Nat
  isReal : Bool
  real_width : isReal = true → width = 64

/-- A declaration, with its full name. -/
structure Declaration where
  name : Text
  isReal : Bool
  length : Nat
  handle : Nat
  isAlias : Bool

/-- An alias is listed with the width and the type of the first variable of its handle. -/
def varOf (vars : List VarEntry) (declaration : Declaration) : VarEntry :=
  match if declaration.isAlias then vars.find? (·.handleIdx = declaration.handle) else none with
  | some first =>
    { name := declaration.name
      width := first.width
      handleIdx := declaration.handle
      isReal := first.isReal
      real_width := first.real_width }
  | none =>
    { name := declaration.name
      width := if declaration.isReal then 64 else if declaration.length = 0 then 1
        else declaration.length
      handleIdx := declaration.handle
      isReal := declaration.isReal
      real_width := fun h => if_pos h }

def signalDirectory (declarations : List Declaration) : List VarEntry :=
  declarations.foldl (fun vars declaration => vars ++ [varOf vars declaration]) []

/-- What the store keeps of a variable. -/
structure CachedSignal where
  name : Text
  width : Nat

def VarEntry.signal (var : VarEntry) : CachedSignal := { name := var.name, width := var.width }

/-! ## Names -/

-- The lowercasing of Unicode text is a parameter: both scans use the same one.
variable (toLowercase : Text → Text)

def containsText (text part : Text) : Bool := text.tails.any fun tail => part.isPrefixOf tail

/-- The name without a bit range. -/
def stripRange (name : Text) : Text := name.takeWhile (· ≠ '[')

/-- The part of a name after its last dot. -/
def lastPart (name : Text) : Text := (name.reverse.takeWhile (· ≠ '.')).reverse

def namedReset (name : Text) : Bool := containsText (toLowercase (stripRange name)) "rst".toList

/-- Shallower names come first, then smaller ones. -/
def byDepthThenName (name other : Text) : Bool :=
  name.count '.' < other.count '.' ||
    (name.count '.' = other.count '.' && !textBefore other name)

def activeLow (name : Text) : Bool :=
  let leaf := toLowercase (lastPart (stripRange name))
  leaf.getLast? = some 'n' || containsText leaf "_n".toList

def assertedValue (low : Bool) : Text := if low then ['0'] else ['1']

def deassertedValue (low : Bool) : Text := if low then ['1'] else ['0']

/-- A value that is 0 or 1. -/
def isDefined (value : Text) : Bool := value = ['0'] || value = ['1']

/-! ## The scan of a query -/

def findBestResetIdx (signals : List CachedSignal) (matcher : Option (Text → Bool)) : Option Nat :=
  let candidates := (signals.zipIdx.filter fun entry =>
    entry.1.width = 1 && (match matcher with
      | some matchSignal => matchSignal entry.1.name
      | none => namedReset toLowercase entry.1.name)).map fun entry => (entry.2, entry.1.name)
  (candidates.mergeSort fun a b => byDepthThenName a.2 b.2).head?.map (·.1)

/-- The first tick with a value that is not the asserted one. -/
def firstNotAsserted (low : Bool) : Transitions → Option Nat
  | [] => none
  | (tick, value) :: rest =>
    if value = assertedValue low then firstNotAsserted low rest else some tick

def findResetDeassertTick (signals : List CachedSignal) (readTransitions : Nat → Transitions)
    (matcher : Option (Text → Bool)) : Option Nat :=
  (findBestResetIdx toLowercase signals matcher).bind fun idx =>
    signals[idx]?.bind fun signal =>
      firstNotAsserted (activeLow toLowercase signal.name) (readTransitions idx)

/-! ## The scan of the loader -/

def nameAt (vars : List VarEntry) (idx : Nat) : Text := (vars[idx]?.map (·.name)).getD []

def resetCandidates (vars : List VarEntry) : List Nat :=
  (vars.zipIdx.filter fun entry =>
    entry.1.width = 1 && !entry.1.isReal && namedReset toLowercase entry.1.name).map (·.2)

def loaderResetIdx (vars : List VarEntry) : Option Nat :=
  ((resetCandidates toLowercase vars).mergeSort fun a b =>
    byDepthThenName (nameAt vars a) (nameAt vars b)).head?

/-- The first tick with a defined value that is not the asserted one. -/
def firstDeasserted (low : Bool) : Transitions → Option Nat
  | [] => none
  | (tick, value) :: rest =>
    if isDefined value && !(value = assertedValue low) then some tick else firstDeasserted low rest

/-- The transitions of a variable, by its handle. -/
def transOf (byHandle : Nat → Transitions) (vars : List VarEntry) (idx : Nat) : Transitions :=
  (vars[idx]?.map fun var => byHandle var.handleIdx).getD []

def loadResetDeassertTick (vars : List VarEntry) (byHandle : Nat → Transitions) : Option Nat :=
  (loaderResetIdx toLowercase vars).bind fun idx =>
    firstDeasserted (activeLow toLowercase (nameAt vars idx)) (transOf byHandle vars idx)

/-! ## Both scans choose the same signal -/

variable {toLowercase}

theorem nameAt_of_mem {vars : List VarEntry} {entry : VarEntry × Nat} (h : entry ∈ vars.zipIdx) :
    nameAt vars entry.2 = entry.1.name := by
  have hget := List.mem_zipIdx_iff_getElem?.mp h
  simp [nameAt, hget]

/-- A variable of one bit is not a real one, so the scans have the same candidates. -/
theorem candidates_eq (vars : List VarEntry) :
    ((vars.map VarEntry.signal).zipIdx.filter fun entry =>
      entry.1.width = 1 && namedReset toLowercase entry.1.name).map
        (fun entry => (entry.2, entry.1.name)) =
      (resetCandidates toLowercase vars).map fun idx => (idx, nameAt vars idx) := by
  rw [List.zipIdx_map, List.filter_map, List.map_map, resetCandidates, List.map_map]
  have hsame : vars.zipIdx.filter ((fun entry : CachedSignal × Nat =>
      entry.1.width = 1 && namedReset toLowercase entry.1.name) ∘ Prod.map VarEntry.signal id) =
        vars.zipIdx.filter fun entry =>
          entry.1.width = 1 && !entry.1.isReal && namedReset toLowercase entry.1.name := by
    apply List.filter_congr
    intro entry _
    have hreal := entry.1.real_width
    cases hkind : entry.1.isReal with
    | false =>
      simp only [Function.comp, Prod.map, VarEntry.signal, Bool.not_false, Bool.and_true]
      rfl
    | true => simp [VarEntry.signal, hreal hkind]
  rw [hsame]
  apply List.map_congr_left
  intro entry hentry
  have hname := nameAt_of_mem (List.mem_filter.mp hentry).1
  simp [hname, VarEntry.signal]

theorem findBestResetIdx_eq (vars : List VarEntry) :
    findBestResetIdx toLowercase (vars.map VarEntry.signal) none =
      loaderResetIdx toLowercase vars := by
  have hsorted : ((resetCandidates toLowercase vars).mergeSort fun a b =>
      byDepthThenName (nameAt vars a) (nameAt vars b)).map (fun idx => (idx, nameAt vars idx)) =
        ((resetCandidates toLowercase vars).map fun idx => (idx, nameAt vars idx)).mergeSort
          fun a b => byDepthThenName a.2 b.2 :=
    List.map_mergeSort fun _ _ _ _ => rfl
  simp only [findBestResetIdx, candidates_eq, loaderResetIdx, ← hsorted, List.head?_map,
    Option.map_map]
  exact Option.map_id'

/-! ## The released tick -/

theorem asserted_ne_deasserted (low : Bool) : assertedValue low ≠ deassertedValue low := by
  cases low <;> decide

/-- A defined value that is not the asserted one is the deasserted one. -/
theorem released_iff (low : Bool) (value : Text) :
    (isDefined value && !(value = assertedValue low)) = (value = deassertedValue low : Bool) := by
  cases low with
  | false =>
    by_cases hone : value = ['1'] <;> simp [isDefined, assertedValue, deassertedValue, hone]
  | true =>
    by_cases hzero : value = ['0'] <;> simp [isDefined, assertedValue, deassertedValue, hzero]

theorem firstDeasserted_eq (low : Bool) (transitions : Transitions) :
    firstDeasserted low transitions =
      (transitions.find? fun change => change.2 = deassertedValue low).map (·.1) := by
  induction transitions with
  | nil => rfl
  | cons change rest ih =>
    rw [firstDeasserted, released_iff, ih, List.find?_cons]
    by_cases hreleased : change.2 = deassertedValue low
    · simp [hreleased]
    · simp [hreleased]

/-- No undefined value comes before the deasserted one. -/
def DefinedUntilReleased (low : Bool) (transitions : Transitions) : Prop :=
  ∀ change ∈ transitions, isDefined change.2 = false →
    ∃ other ∈ transitions, other.2 = deassertedValue low ∧ other.1 ≤ change.1

section Scans
variable {low : Bool} {tick : Nat} {value : Text} {rest : Transitions}

/-- An asserted value at the start is nothing to either scan. -/
theorem definedUntilReleased_asserted (hasserted : value = assertedValue low) :
    DefinedUntilReleased low ((tick, value) :: rest) ↔ DefinedUntilReleased low rest := by
  constructor
  · intro h change hchange hundefined
    obtain ⟨other, hother, hreleased, hle⟩ := h change (List.mem_cons_of_mem _ hchange) hundefined
    rcases List.mem_cons.mp hother with rfl | hlater
    · exact absurd (hasserted.symm.trans hreleased) (asserted_ne_deasserted low)
    · exact ⟨other, hlater, hreleased, hle⟩
  · intro h change hchange hundefined
    rcases List.mem_cons.mp hchange with rfl | hlater
    · have hknown : isDefined value = true := by
        rw [hasserted]
        cases low <;> rfl
      exact absurd (hknown.symm.trans hundefined) (by decide)
    · obtain ⟨other, hother, hreleased, hle⟩ := h change hlater hundefined
      exact ⟨other, List.mem_cons_of_mem _ hother, hreleased, hle⟩

/-- An undefined value at the start has to share its tick with a deasserted one. -/
theorem definedUntilReleased_undefined (hsorted : Timeline.Sorted ((tick, value) :: rest))
    (hasserted : value ≠ assertedValue low) (hreleased : value ≠ deassertedValue low) :
    DefinedUntilReleased low ((tick, value) :: rest) ↔ firstDeasserted low rest = some tick := by
  obtain ⟨hfirst, hrest⟩ := List.pairwise_cons.mp hsorted
  rw [firstDeasserted_eq]
  constructor
  · intro h
    have hundefined : isDefined value = false := by
      have hnot := released_iff low value
      simpa [hasserted, hreleased] using hnot
    obtain ⟨other, hother, hvalue, hle⟩ := h (tick, value) (List.mem_cons_self ..) hundefined
    rcases List.mem_cons.mp hother with rfl | hlater
    · exact absurd hvalue hreleased
    · have hsome : (rest.find? fun change => change.2 = deassertedValue low).isSome = true :=
        List.find?_isSome.mpr ⟨other, hlater, by simpa using hvalue⟩
      obtain ⟨found, hfound⟩ := Option.isSome_iff_exists.mp hsome
      have hbefore := find?_le_of_sorted hrest hfound hlater (by simpa using hvalue)
      have hafter := hfirst found (List.mem_of_find?_eq_some hfound)
      rw [hfound, Option.map_some]
      dsimp only at hle hafter
      exact congrArg some (by omega)
  · intro h change hchange _
    obtain ⟨found, hfound, hsame⟩ := Option.map_eq_some_iff.mp h
    refine ⟨found, List.mem_cons_of_mem _ (List.mem_of_find?_eq_some hfound), ?_, ?_⟩
    · simpa using List.find?_some hfound
    · rcases List.mem_cons.mp hchange with rfl | hlater
      · exact Nat.le_of_eq hsame
      · rw [hsame]
        exact hfirst change hlater

end Scans

/-- The scan that takes any value but the asserted one for a release finds the first deasserted
value exactly when no undefined one comes before it. -/
theorem firstNotAsserted_eq_iff {low : Bool} {transitions : Transitions}
    (hsorted : transitions.Sorted) :
    firstNotAsserted low transitions = firstDeasserted low transitions ↔
      DefinedUntilReleased low transitions := by
  induction transitions with
  | nil =>
    refine ⟨fun _ change hchange => ?_, fun _ => rfl⟩
    cases hchange
  | cons change rest ih =>
    obtain ⟨tick, value⟩ := change
    obtain ⟨hfirst, hrest⟩ := List.pairwise_cons.mp hsorted
    rw [firstNotAsserted, firstDeasserted, released_iff]
    by_cases hasserted : value = assertedValue low
    · have hnot : value ≠ deassertedValue low := fun h =>
        asserted_ne_deasserted low (hasserted.symm.trans h)
      rw [definedUntilReleased_asserted hasserted, ← ih hrest, if_pos hasserted,
        if_neg (by simpa using hnot)]
    · rw [if_neg hasserted]
      by_cases hreleased : value = deassertedValue low
      · rw [if_pos (by simpa using hreleased)]
        refine ⟨fun _ change hchange _ => ?_, fun _ => rfl⟩
        refine ⟨(tick, value), List.mem_cons_self .., hreleased, ?_⟩
        rcases List.mem_cons.mp hchange with rfl | hlater
        · exact Nat.le_refl _
        · exact hfirst change hlater
      · rw [if_neg (by simpa using hreleased),
          definedUntilReleased_undefined hsorted hasserted hreleased]
        exact eq_comm

/-! ## Both scans -/

variable (toLowercase) in
/-- The first tick at which the chosen reset has its deasserted value. -/
def releaseTick (vars : List VarEntry) (byHandle : Nat → Transitions) : Option Nat :=
  (loaderResetIdx toLowercase vars).bind fun idx =>
    ((transOf byHandle vars idx).find? fun change =>
      change.2 = deassertedValue (activeLow toLowercase (nameAt vars idx))).map (·.1)

/-- The loader finds the first deasserted value. -/
theorem loadResetDeassertTick_eq (vars : List VarEntry) (byHandle : Nat → Transitions) :
    loadResetDeassertTick toLowercase vars byHandle = releaseTick toLowercase vars byHandle := by
  simp only [loadResetDeassertTick, releaseTick, firstDeasserted_eq]

theorem exists_var_of_loaderResetIdx {vars : List VarEntry} {idx : Nat}
    (h : loaderResetIdx toLowercase vars = some idx) : ∃ var, vars[idx]? = some var := by
  have hmem := List.mem_of_head? h
  rw [List.mem_mergeSort, resetCandidates] at hmem
  obtain ⟨entry, hentry, rfl⟩ := List.mem_map.mp hmem
  exact ⟨entry.1, List.mem_zipIdx_iff_getElem?.mp (List.mem_filter.mp hentry).1⟩

/-- A query without a reset pattern finds the release that the loader finds, which is the first
defined deasserted value, exactly when no undefined value of the chosen reset comes before it. -/
theorem reset_release_agrees_iff (toLowercase : Text → Text) (vars : List VarEntry)
    (byHandle : Nat → Transitions) (hsorted : ∀ handle, (byHandle handle).Sorted) :
    (findResetDeassertTick toLowercase (vars.map VarEntry.signal) (transOf byHandle vars) none =
        loadResetDeassertTick toLowercase vars byHandle ∧
      loadResetDeassertTick toLowercase vars byHandle = releaseTick toLowercase vars byHandle) ↔
    ∀ idx ∈ findBestResetIdx toLowercase (vars.map VarEntry.signal) none,
      DefinedUntilReleased (activeLow toLowercase (nameAt vars idx))
        (transOf byHandle vars idx) := by
  rw [and_iff_left (loadResetDeassertTick_eq vars byHandle), findResetDeassertTick,
    loadResetDeassertTick, findBestResetIdx_eq]
  cases hbest : loaderResetIdx toLowercase vars with
  | none => simp
  | some idx =>
    obtain ⟨var, hvar⟩ := exists_var_of_loaderResetIdx hbest
    have hname : nameAt vars idx = var.name := by simp [nameAt, hvar]
    have htrans : (transOf byHandle vars idx).Sorted := by
      simpa [transOf, hvar] using hsorted var.handleIdx
    have hsignal : (vars.map VarEntry.signal)[idx]? = some var.signal := by simp [hvar]
    simp only [Option.bind_some, hsignal, Option.mem_some_iff, forall_eq']
    rw [← firstNotAsserted_eq_iff htrans, hname]
    rfl

/-- The only variable of a small trace. -/
def rstN : VarEntry :=
  { name := "rst_n".toList, width := 1, handleIdx := 0, isReal := false
    real_width := fun h => absurd h (by decide) }

theorem reset_release_agrees_rstN :
    (findResetDeassertTick (List.map Char.toLower) ([rstN].map VarEntry.signal)
        (transOf (fun _ => [(0, ['0']), (20, ['1'])]) [rstN]) none =
        loadResetDeassertTick (List.map Char.toLower) [rstN]
          (fun _ => [(0, ['0']), (20, ['1'])]) ∧
      loadResetDeassertTick (List.map Char.toLower) [rstN]
          (fun _ => [(0, ['0']), (20, ['1'])]) =
        releaseTick (List.map Char.toLower) [rstN] (fun _ => [(0, ['0']), (20, ['1'])])) ↔
    ∀ idx ∈ findBestResetIdx (List.map Char.toLower) ([rstN].map VarEntry.signal) none,
      DefinedUntilReleased (activeLow (List.map Char.toLower) (nameAt [rstN] idx))
        (transOf (fun _ => [(0, ['0']), (20, ['1'])]) [rstN] idx) :=
  reset_release_agrees_iff (List.map Char.toLower) [rstN] (fun _ => [(0, ['0']), (20, ['1'])])
    fun _ => by simp [Timeline.Sorted]

/-- An unknown value at the start of the trace is a release to a query, and none to the loader. -/
theorem reset_release_differs_of_unknown_start :
    findResetDeassertTick (List.map Char.toLower) ([rstN].map VarEntry.signal)
        (transOf (fun _ => [(0, ['x']), (5, ['0']), (20, ['1'])]) [rstN]) none = some 0 ∧
      loadResetDeassertTick (List.map Char.toLower) [rstN]
        (fun _ => [(0, ['x']), (5, ['0']), (20, ['1'])]) = some 20 := by
  decide +kernel

end Booley.Waves
