import Booley.Waves.Values

/-!
# Virtual signals

A virtual signal is a Boolean expression over signals, their bit slices and the virtual signals
defined before it. Signals are resolved to their positions and widths.
-/
namespace Booley.Waves

open Booley.Lib

/-- What a comparison is against: a parsed literal, or a signal with its width and slice. -/
inductive ResolvedRhs where
  | value (target : Text)
  | signal (idx width : Nat) (slice : Option BitSlice)
  deriving DecidableEq

inductive ResolvedAtom where
  | nonZero (idx width : Nat) (slice : Option BitSlice)
  | equal (idx width : Nat) (slice : Option BitSlice) (rhs : ResolvedRhs)
  | notEqual (idx width : Nat) (slice : Option BitSlice) (rhs : ResolvedRhs)
  | gt (idx width : Nat) (slice : Option BitSlice) (rhs : ResolvedRhs)
  | gte (idx width : Nat) (slice : Option BitSlice) (rhs : ResolvedRhs)
  | lt (idx width : Nat) (slice : Option BitSlice) (rhs : ResolvedRhs)
  | lte (idx width : Nat) (slice : Option BitSlice) (rhs : ResolvedRhs)
  | virtualRef (vi : Nat)
  deriving DecidableEq

inductive CombineOp where
  | and
  | or
  | xor
  deriving DecidableEq

inductive ResolvedExpr where
  | atom (atom : ResolvedAtom)
  | not (inner : ResolvedExpr)
  | combine (op : CombineOp) (children : List ResolvedExpr)

def getNumericVal (hex : Text) (slice : Option BitSlice) : Option Nat :=
  (hexToU128 hex).map fun full =>
    match slice with
    | some (msb, lsb) => sliceBits full msb lsb
    | none => full

/-- The text that an equality compares. -/
def signalCompareStr (value : Text) (width : Nat) (slice : Option BitSlice) : Text :=
  match slice with
  | some (msb, lsb) => hexSlice value width msb lsb
  | none => value

def getRhsVal (rhs : ResolvedRhs) (getVal : Nat → Text) : Option Nat :=
  match rhs with
  | .value v => hexToU128 v
  | .signal idx _ slice => getNumericVal (getVal idx) slice

def rhsStr (rhs : ResolvedRhs) (getVal : Nat → Text) : Text :=
  match rhs with
  | .value target => target
  | .signal ri rw rs => signalCompareStr (getVal ri) rw rs

/-- Whether two numbers that could be read are related. -/
def ordered (related : Nat → Nat → Bool) : Option Nat → Option Nat → Bool
  | some l, some r => related l r
  | _, _ => false

def evalAtom (atom : ResolvedAtom) (getVal : Nat → Text) (getVirtual : Nat → Bool) : Bool :=
  match atom with
  | .nonZero idx _ slice =>
    let v := getVal idx
    match slice with
    | some slice => (getNumericVal v (some slice)).any (· ≠ 0)
    | none => trimZeros v ≠ [] && v ≠ ['0']
  | .equal idx width slice rhs =>
    valuesMatch (signalCompareStr (getVal idx) width slice) (rhsStr rhs getVal)
  | .notEqual idx width slice rhs =>
    !valuesMatch (signalCompareStr (getVal idx) width slice) (rhsStr rhs getVal)
  | .gt idx _ slice rhs =>
    ordered (fun l r => l > r) (getNumericVal (getVal idx) slice) (getRhsVal rhs getVal)
  | .gte idx _ slice rhs =>
    ordered (fun l r => l ≥ r) (getNumericVal (getVal idx) slice) (getRhsVal rhs getVal)
  | .lt idx _ slice rhs =>
    ordered (fun l r => l < r) (getNumericVal (getVal idx) slice) (getRhsVal rhs getVal)
  | .lte idx _ slice rhs =>
    ordered (fun l r => l ≤ r) (getNumericVal (getVal idx) slice) (getRhsVal rhs getVal)
  | .virtualRef vi => getVirtual vi

def combineValues (op : CombineOp) (vals : List Bool) : Bool :=
  match op with
  | .and => vals.all id
  | .or => vals.any id
  | .xor => vals.foldl xor false

mutual

def evalExpr (getVal : Nat → Text) (getVirtual : Nat → Bool) : ResolvedExpr → Bool
  | .atom a => evalAtom a getVal getVirtual
  | .not inner => !evalExpr getVal getVirtual inner
  | .combine op children => combineValues op (evalExprs getVal getVirtual children)

/-- The values of the children of a combination. -/
def evalExprs (getVal : Nat → Text) (getVirtual : Nat → Bool) : List ResolvedExpr → List Bool
  | [] => []
  | child :: rest => evalExpr getVal getVirtual child :: evalExprs getVal getVirtual rest

end

/-- An unsliced operand without an unknown, the text it is compared as and the number it
denotes. -/
inductive Operand (getVal : Nat → Text) : ResolvedRhs → Text → Nat → Prop
  | literal (text : Text) {target : Text} {n : Nat} (hliteral : literalNumber? text = some n)
      (hparse : parseVerilogLiteral text = .ok target) : Operand getVal (.value target) target n
  | signal {idx width : Nat} (hvalue : Canonical (getVal idx)) :
      Operand getVal (.signal idx width none) (getVal idx) (number (getVal idx))

/-- The unsliced comparisons of a signal with an operand are those of the numbers. -/
structure AtomsExact (getVal : Nat → Text) (getVirtual : Nat → Bool) (idx width : Nat)
    (rhs : ResolvedRhs) (n : Nat) : Prop where
  equal : evalAtom (.equal idx width none rhs) getVal getVirtual = true ↔ number (getVal idx) = n
  notEqual :
    evalAtom (.notEqual idx width none rhs) getVal getVirtual = true ↔ number (getVal idx) ≠ n
  gt : evalAtom (.gt idx width none rhs) getVal getVirtual = true ↔ number (getVal idx) > n
  gte : evalAtom (.gte idx width none rhs) getVal getVirtual = true ↔ number (getVal idx) ≥ n
  lt : evalAtom (.lt idx width none rhs) getVal getVirtual = true ↔ number (getVal idx) < n
  lte : evalAtom (.lte idx width none rhs) getVal getVirtual = true ↔ number (getVal idx) ≤ n

section Comparisons

variable {getVal : Nat → Text} {rhs : ResolvedRhs} {target : Text} {n : Nat}

theorem Operand.spec (h : Operand getVal rhs target n) :
    rhsStr rhs getVal = target ∧ HexText target ∧ number target = n ∧
      getRhsVal rhs getVal = hexToU128 target := by
  cases h with
  | literal text hliteral hparse =>
    obtain ⟨other, hother, hhex, hnumber⟩ := parseVerilogLiteral_spec hliteral
    rw [Except.ok.inj (hparse.symm.trans hother)]
    exact ⟨rfl, hhex, hnumber, rfl⟩
  | signal hvalue =>
    refine ⟨rfl, hvalue.hex, rfl, ?_⟩
    rw [getRhsVal, getNumericVal, Option.map_id']

theorem ordered_none (related : Nat → Nat → Bool) (left : Option Nat) :
    ordered related left none = false := by
  cases left with
  | none => rfl
  | some l => rfl

/-- An order atom tells the order of two numbers, if both fit 128 bits. -/
theorem ordered_iff (related : Nat → Nat → Bool) {left : Text} (hleft : HexText left)
    (htarget : HexText target) :
    ordered related (getNumericVal left none) (hexToU128 target) = true ↔
      (number left < 2 ^ 128 ∧ number target < 2 ^ 128) ∧
        related (number left) (number target) = true := by
  rw [getNumericVal, Option.map_id', hexToU128_spec hleft, hexToU128_spec htarget]
  by_cases hl : number left < 2 ^ 128
  · by_cases hr : number target < 2 ^ 128
    · rw [if_pos hl, if_pos hr, ordered]
      exact (and_iff_right ⟨hl, hr⟩).symm
    · rw [if_neg hr, ordered_none]
      exact iff_of_false Bool.false_ne_true fun h => hr h.1.2
  · rw [if_neg hl, ordered]
    · exact iff_of_false Bool.false_ne_true fun h => hl h.1.1
    · intro l r h
      cases h

/-- A signal without an unknown is compared with a literal or another such signal as its number
is, exactly when the operand is read rightly and, for the atoms, both numbers fit 128 bits. -/
theorem comparisons_exact_iff (getVirtual : Nat → Bool) (idx width : Nat)
    (hvalue : Canonical (getVal idx)) (hoperand : Operand getVal rhs target n) :
    ((valuesMatch (getVal idx) target = true ↔ number (getVal idx) = n) ↔
      MatchesExactly (getVal idx) target) ∧
    (AtomsExact getVal getVirtual idx width rhs n ↔
      MatchesExactly (getVal idx) target ∧ number (getVal idx) < 2 ^ 128 ∧ n < 2 ^ 128) := by
  obtain ⟨hstr, hhex, hnumber, hread⟩ := hoperand.spec
  have hmatch := valuesMatch_exact_iff hvalue hhex
  rw [hnumber] at hmatch
  refine ⟨hmatch, ?_⟩
  have hequal : evalAtom (.equal idx width none rhs) getVal getVirtual =
      valuesMatch (getVal idx) target := by rw [evalAtom, hstr, signalCompareStr]
  have horder : ∀ related : Nat → Nat → Bool,
      ordered related (getNumericVal (getVal idx) none) (getRhsVal rhs getVal) = true ↔
        (number (getVal idx) < 2 ^ 128 ∧ n < 2 ^ 128) ∧
          related (number (getVal idx)) n = true := by
    intro related
    rw [hread, ← hnumber]
    exact ordered_iff related hvalue.hex hhex
  constructor
  · intro hexact
    have hequality := hexact.equal
    rw [hequal] at hequality
    refine ⟨hmatch.mp hequality, ?_⟩
    -- one of the two non-strict orders holds, so the atom read both numbers
    rcases Nat.le_total (number (getVal idx)) n with hle | hge
    · exact ((horder _).mp (hexact.lte.mpr hle)).1
    · exact ((horder _).mp (hexact.gte.mpr hge)).1
  · intro ⟨hmatches, hfit⟩
    have hequality := hmatch.mpr hmatches
    rw [← hequal] at hequality
    refine ⟨hequality, ?_, ?_, ?_, ?_, ?_⟩
    · have hnot : evalAtom (.notEqual idx width none rhs) getVal getVirtual =
          !evalAtom (.equal idx width none rhs) getVal getVirtual := rfl
      rw [hnot, Bool.not_eq_true', ← Bool.not_eq_true]
      exact not_congr hequality
    · exact ((horder _).trans (and_iff_right hfit)).trans decide_eq_true_iff
    · exact ((horder _).trans (and_iff_right hfit)).trans decide_eq_true_iff
    · exact ((horder _).trans (and_iff_right hfit)).trans decide_eq_true_iff
    · exact ((horder _).trans (and_iff_right hfit)).trans decide_eq_true_iff

/-- A value of two is compared rightly with the literal eight-bit five. -/
theorem two_compared_with_five :
    (valuesMatch "2".toList "05".toList = true ↔ number "2".toList = 5) ∧
      AtomsExact (fun _ => "2".toList) (fun _ => false) 0 8 (.value "05".toList) 5 := by
  have hvalue : Canonical "2".toList := canonical_nibble 2 (by decide)
  have hoperand : Operand (fun _ => "2".toList) (.value "05".toList) "05".toList 5 :=
    .literal ['8', tick, 'h', '0', '5'] rfl rfl
  have hmatches : MatchesExactly "2".toList "05".toList := fun h => absurd h.2.1 (by decide)
  have hexact := comparisons_exact_iff (fun _ => false) 0 8 hvalue hoperand
  exact ⟨hexact.1.mpr hmatches, hexact.2.mpr ⟨hmatches, by decide, by decide⟩⟩

/-- The value two is found under a hex literal of sixteen. -/
theorem two_found_as_sixteen :
    ¬ ∀ (getVal : Nat → Text) (getVirtual : Nat → Bool) (idx width : Nat) (rhs : ResolvedRhs)
      (target : Text) (n : Nat), Canonical (getVal idx) → Operand getVal rhs target n →
        (valuesMatch (getVal idx) target = true ↔ number (getVal idx) = n) ∧
          AtomsExact getVal getVirtual idx width rhs n := by
  intro hall
  have hvalue : Canonical "2".toList := canonical_nibble 2 (by decide)
  have hoperand : Operand (fun _ => "2".toList) (.value "10".toList) "10".toList 16 :=
    .literal [tick, 'h', '1', '0'] rfl rfl
  have hfound := (hall (fun _ => "2".toList) (fun _ => false) 0 8 _ _ _ hvalue hoperand).1
  exact absurd (hfound.mp (by decide)) (by decide)

end Comparisons

end Booley.Waves
